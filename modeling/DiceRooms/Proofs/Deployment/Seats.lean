import DiceRooms.Proofs.Deployment.Accounting
import DiceRooms.Proofs.Deployment.Handles

/-!
Handlers with one seat. A handler is called only for the seats that it has been given, by the
hub that has the seat. On a hub that hears through a broker the loop tells one roll after the
other, so that of such a handler no two calls are ever under way together.
-/
namespace DiceRooms

section
variable {h : History} {c : Core} {e : Event} {f : Handler} {seat? : Option Seat} {seat : Seat}

/-- The handler is registered on this seat at most, and has been told of rolls on no other. -/
structure Stands (c : Core) (f : Handler) (seat? : Option Seat) : Prop where
  registered : ∀ {n registry room subscriber}, c.registryOf? n = some registry →
    registry.get? room subscriber = some f → seat? = some ⟨n, room, subscriber⟩
  told : ∀ {n : Nat} {p : Dispatch} {subscriber : String}, c.dispatches[n]? = some p →
    (subscriber, f) ∈ p.audience → seat? = some ⟨p.owner.hub, p.roll.room, subscriber⟩

namespace Stands

theorem empty (f : Handler) (seat? : Option Seat) : Stands .empty f seat? where
  registered hn := by cases hn
  told hp := by cases hp

/-- A handler that stands nowhere may be given any seat. -/
theorem seated (stands : Stands c f none) (seat : Seat) : Stands c f (some seat) where
  registered hn hget := by cases stands.registered hn hget
  told hp hmem := by cases stands.told hp hmem

/-- It is given no other seat than by being registered there. -/
theorem registered_apply (stands : Stands c f seat?) (possible : e.Possible c)
    (given : ∀ n room subscriber, e = .register n room subscriber f →
      seat? = some ⟨n, room, subscriber⟩) {n : Nat} {registry : Registry Handler}
    {room subscriber : String} (hn : (c.apply e).registryOf? n = some registry)
    (hget : registry.get? room subscriber = some f) : seat? = some ⟨n, room, subscriber⟩ := by
  by_cases hlt : n < c.hubs.length
  · rw [Core.registryOf?_apply e hlt] at hn
    obtain ⟨old, hold, rfl⟩ := Option.map_eq_some_iff.mp hn
    cases e with
    | register k room' subscriber' g =>
        rw [Event.onRegistry] at hget
        split at hget
        · next heq =>
            subst heq
            rw [Registry.get?_set] at hget
            split at hget
            · next hpair =>
                obtain ⟨rfl, rfl⟩ := hpair
                cases hget
                exact given _ _ _ rfl
            · exact stands.registered hold hget
        · exact stands.registered hold hget
    | unregister k room' subscriber' =>
        rw [Event.onRegistry] at hget
        split at hget
        · rw [Registry.get?_delete] at hget
          split at hget
          · cases hget
          · exact stands.registered hold hget
        · exact stands.registered hold hget
    | _ => exact stands.registered hold hget
  · obtain rfl := Core.eq_empty_of_registryOf?_apply possible (Nat.le_of_not_lt hlt) hn
    cases hget

theorem apply (stands : Stands c f seat?) (reached : Reached h c) (possible : e.Possible c)
    (given : ∀ n room subscriber, e = .register n room subscriber f →
      seat? = some ⟨n, room, subscriber⟩) : Stands (c.apply e) f seat? where
  registered := stands.registered_apply possible given
  told {n p subscriber} hp hmem := by
    rcases Core.of_getElem?_dispatches_apply hp with ⟨-, hopened⟩ | ⟨old, hold, rfl⟩
    · obtain ⟨registry, began⟩ := began_of_opened reached possible hopened
      rw [began.audience] at hmem
      exact stands.registered began.found ((began.registered subscriber f).mp hmem)
    · obtain ⟨howner, hroll, haudience⟩ := Telling.mk.inj (telling_onDispatch n old e)
      rw [howner, hroll]
      exact stands.told hold (haudience ▸ hmem)

end Stands

/-! Who owns the dispatches of a hub. -/

theorem Core.length_hubs_le (c : Core) (e : Event) : c.hubs.length ≤ (c.apply e).hubs.length := by
  cases hordinary : e.ordinary with
  | true => exact Nat.le_of_eq (Event.length_hubs hordinary c.hubs).symm
  | false =>
      cases e with
      | hub _ | build _ _ => exact Nat.le_of_lt_succ (by simp [apply, Event.hubs])
      | token | cancel _ | broker _ => exact Nat.le_refl _
      | detach n _ => exact Nat.le_of_eq (List.length_modify _ _ _).symm
      | _ => cases hordinary

/-- The dispatch is of a hub that is there, and its loop's if the hub has one. -/
structure Owned (c : Core) (p : Dispatch) : Prop where
  there : p.owner.hub < c.hubs.length
  loop : ∀ {hub}, c.brokerHub? p.owner.hub = some hub → p.owner = .receiver p.owner.hub
  nodup : (p.audience.map Prod.fst).Nodup

theorem owned_of_opened (reached : Reached h c) (possible : e.Possible c) {p : Dispatch}
    (hopened : e.opened? = some p) : Owned c p := by
  obtain ⟨registry, began⟩ := began_of_opened reached possible hopened
  obtain ⟨hub, hhub, -⟩ := Core.registryOf?_eq_some_iff.mp began.found
  refine ⟨(List.getElem?_eq_some_iff.mp hhub).1, fun {b} hbroker => ?_, ?_⟩
  · rcases Event.opened?_eq_some hopened with ⟨endpoint, r, roll, rfl, rfl⟩ | ⟨n, _, _, _, _, -, rfl⟩
    · have hbroker := Core.brokerHub?_eq_some_iff.mp hbroker
      rcases possible with hmemory | hbare
      · cases hmemory.symm.trans hbroker
      · cases hbare.symm.trans hbroker
    · rfl
  · rw [began.audience]
    exact began.nodup

theorem Owned.apply {p : Dispatch} (owned : Owned c p) (possible : e.Possible c) :
    Owned (c.apply e) p where
  there := Nat.lt_of_lt_of_le owned.there (c.length_hubs_le e)
  loop hbroker := by
    rcases Core.of_brokerHub?_apply possible hbroker with ⟨hnew, -⟩ | ⟨old, hold, -⟩
    · exact (Nat.ne_of_lt owned.there hnew).elim
    · exact owned.loop hold
  nodup := owned.nodup

theorem Reached.owned (reached : Reached h c) {n : Nat} {p : Dispatch}
    (hp : c.dispatches[n]? = some p) : Owned c p := by
  induction reached generalizing p with
  | start => cases hp
  | @step h c e before possible ih =>
      rcases Core.of_getElem?_dispatches_apply hp with ⟨-, hopened⟩ | ⟨old, hold, rfl⟩
      · exact (owned_of_opened before possible hopened).apply possible
      · obtain ⟨there, loop, nodup⟩ := (ih hold).apply possible
        obtain ⟨howner, -, haudience⟩ := Telling.mk.inj (telling_onDispatch n old e)
        exact ⟨howner ▸ there, howner ▸ loop, haudience ▸ nodup⟩

/-! Calls that are under way. -/

/-- A call of the handler has begun or is to begin, and has not ended. -/
structure UnderWay (c : Core) (f : Handler) (n i : Nat) (p : Dispatch) (inv : Invocation) :
    Prop where
  dispatch : c.dispatches[n]? = some p
  invocation : p.broadcast[i]? = some inv
  handler : inv.handler = f
  unended : inv.isEnded = false

variable {n i n' i' : Nat} {p p' : Dispatch} {inv inv' : Invocation}

theorem UnderWay.audience (underWay : UnderWay c f n i p inv) :
    p.audience[i]? = some (inv.subscriber, f) := by
  rw [Dispatch.audience, List.getElem?_map, underWay.invocation, ← underWay.handler]
  rfl

theorem UnderWay.unconcluded (underWay : UnderWay c f n i p inv) (reached : Reached h c) :
    p.concluded = false := by
  refine Bool.eq_false_iff.mpr fun hconcluded => ?_
  have hover := reached.over_of_concluded underWay.dispatch hconcluded
  have hended := List.all_eq_true.mp hover inv (List.mem_of_getElem? underWay.invocation)
  cases hended.symm.trans underWay.unended

/-- Of the calls for one seat on a hub that hears through a broker, one is under way at a time. -/
theorem Stands.alone (stands : Stands c f (some seat)) (reached : Reached h c) {hub : BrokerHub}
    (hhub : c.brokerHub? seat.hub = some hub) (underWay : UnderWay c f n i p inv)
    (underWay' : UnderWay c f n' i' p' inv') : n = n' ∧ i = i' := by
  have telling : ∀ {n i p inv}, UnderWay c f n i p inv →
      inv.subscriber = seat.subscriber ∧ hub.phase = .dispatching n := by
    intro n i p inv underWay
    have hseat := Option.some.inj
      (stands.told underWay.dispatch (List.mem_of_getElem? underWay.audience))
    rw [hseat] at hhub ⊢
    have howner := (reached.owned underWay.dispatch).loop hhub
    obtain ⟨hub', hhub', hphase⟩ :=
      reached.busy.told underWay.dispatch howner (underWay.unconcluded reached)
    cases hhub.symm.trans hhub'
    exact ⟨rfl, hphase⟩
  obtain ⟨hsubscriber, hphase⟩ := telling underWay
  obtain ⟨hsubscriber', hphase'⟩ := telling underWay'
  cases hphase.symm.trans hphase'
  cases underWay.dispatch.symm.trans underWay'.dispatch
  have hat := underWay.audience
  rw [hsubscriber, ← hsubscriber'] at hat
  refine ⟨rfl, ?_⟩
  have hnodup := (reached.owned underWay.dispatch).nodup.of_map
  exact (List.getElem?_inj (List.getElem?_eq_some_iff.mp hat).1 hnodup).mp
    (hat.trans underWay'.audience.symm)

end

end DiceRooms
