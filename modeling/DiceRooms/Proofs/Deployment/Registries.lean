import DiceRooms.Proofs.Deployment.History

/-!
What events make of the registries of hubs. A hub begins with an empty registry, and only calls
that set or delete a handler change it.
-/
namespace DiceRooms

namespace Hub

theorem registry_mapRegistry (f : Registry Handler → Registry Handler) (hub : Hub) :
    (hub.mapRegistry f).registry = hub.registry.map f := by
  cases hub <;> rfl

theorem registry_enter (phase : Phase) (hub : Hub) :
    (hub.enter phase).registry = hub.registry := by
  cases hub <;> rfl

theorem registry_giveUp (hub : Hub) : hub.giveUp.registry = hub.registry := by
  cases hub <;> rfl

end Hub

namespace Event

/-- The event's effect on the registry of the hub of the given number. -/
def onRegistry (n : Nat) (r : Registry Handler) : Event → Registry Handler
  | register k room subscriber f => if k = n then (r.set room subscriber f).1 else r
  | unregister k room subscriber => if k = n then (r.delete room subscriber).1 else r
  | _ => r

end Event

namespace Core

def registryOf? (c : Core) (n : Nat) : Option (Registry Handler) :=
  c.hubs[n]?.bind (·.registry.toOption)

theorem registryOf?_eq_some_iff {c : Core} {n : Nat} {registry : Registry Handler} :
    c.registryOf? n = some registry ↔
      ∃ hub, c.hubs[n]? = some hub ∧ hub.registry = .ok registry := by
  rw [Core.registryOf?, Option.bind_eq_some_iff]
  refine exists_congr fun hub => and_congr_right fun _ => ?_
  cases hub <;> simp [Hub.registry, Except.toOption]

section
variable {c : Core} {e : Event} {n : Nat}

/-- For an event that leaves the number of hubs. -/
theorem registryOf?_apply_of_modify {k : Nat} {f : Hub → Hub}
    {g : Registry Handler → Registry Handler} (hs : e.hubs c.hubs = c.hubs.modify k f)
    (hf : ∀ hub, (f hub).registry = hub.registry.map g)
    (honRegistry : ∀ r, e.onRegistry n r = if k = n then g r else r) :
    (c.apply e).registryOf? n = (c.registryOf? n).map (e.onRegistry n) := by
  show (e.hubs c.hubs)[n]?.bind _ = (c.hubs[n]?.bind _).map _
  rw [hs, List.getElem?_modify, funext honRegistry]
  cases c.hubs[n]? with
  | none => rfl
  | some hub =>
      simp only [Option.map_eq_map, Option.map_some, Option.bind_some]
      split
      · rw [hf]
        cases hub.registry <;> rfl
      · exact (id_map _).symm

theorem registryOf?_apply_of_same (hs : e.hubs c.hubs = c.hubs)
    (honRegistry : ∀ r, e.onRegistry n r = r) :
    (c.apply e).registryOf? n = (c.registryOf? n).map (e.onRegistry n) := by
  show (e.hubs c.hubs)[n]?.bind _ = _
  rw [hs, funext honRegistry]
  exact (id_map _).symm

/-- The registry of a hub that is there is what the event makes of it. -/
theorem registryOf?_apply (e : Event) (hn : n < c.hubs.length) :
    (c.apply e).registryOf? n = (c.registryOf? n).map (e.onRegistry n) := by
  cases e with
  | hub new | build capacity new =>
      rw [registryOf?, Core.apply, Event.hubs, List.getElem?_append_left hn]
      exact (id_map _).symm
  | register k room subscriber f =>
      exact registryOf?_apply_of_modify rfl (Hub.registry_mapRegistry _) fun _ => rfl
  | unregister k room subscriber =>
      exact registryOf?_apply_of_modify rfl (Hub.registry_mapRegistry _) fun _ => rfl
  | conclude k p =>
      obtain ⟨owner, roll, broadcast, concluded⟩ := p
      cases owner with
      | caller e => exact registryOf?_apply_of_same rfl fun _ => rfl
      | receiver m =>
          refine registryOf?_apply_of_modify (k := m) (g := id) rfl (fun hub => ?_)
            fun r => (ite_self r).symm
          rw [Hub.registry_enter]
          exact (id_map _).symm
  | turn k h t =>
      refine registryOf?_apply_of_modify (k := k) (g := id) rfl (fun hub => ?_)
        fun r => (ite_self r).symm
      rw [Hub.registry_enter]
      exact (id_map _).symm
  | detach k h =>
      refine registryOf?_apply_of_modify (k := k) (g := id) rfl (fun hub => ?_)
        fun r => (ite_self r).symm
      rw [Hub.registry_giveUp]
      exact (id_map _).symm
  | _ => exact registryOf?_apply_of_same rfl fun _ => rfl

theorem registryOf?_apply_of_some {r : Registry Handler} (hr : c.registryOf? n = some r)
    (e : Event) : (c.apply e).registryOf? n = some (e.onRegistry n r) := by
  obtain ⟨hub, hhub, -⟩ := registryOf?_eq_some_iff.mp hr
  rw [registryOf?_apply e (List.getElem?_eq_some_iff.mp hhub).1, hr]
  rfl

/-- The registry of a hub that has not been there is empty. -/
theorem eq_empty_of_registryOf?_apply {r : Registry Handler} (possible : e.Possible c)
    (hn : c.hubs.length ≤ n) (hr : (c.apply e).registryOf? n = some r) : r = .empty := by
  obtain ⟨hub, hhub, hok⟩ := registryOf?_eq_some_iff.mp hr
  have hub_of_concat : ∀ new, (c.hubs ++ [new])[n]? = some hub → new = hub := by
    intro new hnew
    rw [getElem?_concat] at hnew
    split at hnew
    · exact Option.some.inj hnew
    · rw [List.getElem?_eq_none hn] at hnew
      cases hnew
  have not_modify : ∀ (k : Nat) (f : Hub → Hub), (c.hubs.modify k f)[n]? ≠ some hub := by
    intro k f h
    have hle : (c.hubs.modify k f).length ≤ n := by rwa [List.length_modify]
    cases (List.getElem?_eq_none hle).symm.trans h
  cases e with
  | hub new =>
      obtain rfl := hub_of_concat new hhub
      exact possible.2 r hok
  | build capacity new =>
      obtain rfl := hub_of_concat (.broker new) hhub
      cases hok
      exact possible.1
  | register _ _ _ _ | unregister _ _ _ | turn _ _ _ | detach _ _ =>
      exact (not_modify _ _ hhub).elim
  | conclude k p =>
      obtain ⟨owner, roll, broadcast, concluded⟩ := p
      cases owner with
      | caller e => cases (List.getElem?_eq_none hn).symm.trans hhub
      | receiver m => exact (not_modify _ _ hhub).elim
  | _ => cases (List.getElem?_eq_none hn).symm.trans hhub

end

end Core

theorem registryOf?_of_brokerHub? {c : Core} {n : Nat} {hub : BrokerHub}
    (hn : c.brokerHub? n = some hub) : c.registryOf? n = some hub.registry := by
  rw [Core.registryOf?, Core.brokerHub?_eq_some_iff.mp hn]
  rfl

/-- What the empty registry has, and is kept when a handler is set or deleted, all registries
have. -/
theorem Reached.registry_induct {P : Registry Handler → Prop} (empty : P .empty)
    (set : ∀ {r}, P r → ∀ room subscriber f, P (r.set room subscriber f).1)
    (delete : ∀ {r}, P r → ∀ room subscriber, P (r.delete room subscriber).1) {h : History}
    {c : Core} (reached : Reached h c) {n : Nat} {r : Registry Handler}
    (hr : c.registryOf? n = some r) : P r := by
  induction reached generalizing r with
  | start => cases hr
  | @step h c e before possible ih =>
      by_cases hn : n < c.hubs.length
      · rw [Core.registryOf?_apply e hn] at hr
        obtain ⟨old, hold, rfl⟩ := Option.map_eq_some_iff.mp hr
        cases e with
        | register k room subscriber f =>
            rw [Event.onRegistry]
            split
            · exact set (ih hold) room subscriber f
            · exact ih hold
        | unregister k room subscriber =>
            rw [Event.onRegistry]
            split
            · exact delete (ih hold) room subscriber
            · exact ih hold
        | _ => exact ih hold
      · rw [Core.eq_empty_of_registryOf?_apply possible (Nat.le_of_not_lt hn) hr]
        exact empty

end DiceRooms
