import DiceRooms.Proofs.Deployment.History

/-!
Registrations told by the history of a deployment. Whatever else happens, a hub has for a
pair of a room and a subscriber the handler that the last registration of the pair has
named, unless the pair has been removed since.
-/
namespace DiceRooms

/-- What an event makes of the handler that a pair has on the hub of the given number. -/
def Event.registers (c : Core) (k : Nat) (room subscriber : String) (f : Option Handler) :
    Event → Option Handler
  | register n room' subscriber' h =>
    if k < c.hubs.length ∧ n = k ∧ room' = room ∧ subscriber' = subscriber then some h else f
  | unregister n room' subscriber' =>
    if n = k ∧ room' = room ∧ subscriber' = subscriber then none else f
  | _ => f

/-- The handler that is registered after the events, the last registration deciding. -/
def History.registered (h : History) (k : Nat) (room subscriber : String) : Option Handler :=
  h.foldl (fun f s => s.2.registers s.1 k room subscriber f) none

theorem History.registered_concat (h : History) (s : Core × Event) (k : Nat)
    (room subscriber : String) : History.registered (h ++ [s]) k room subscriber =
      s.2.registers s.1 k room subscriber (h.registered k room subscriber) := by
  rw [registered, List.foldl_append]
  rfl

/-- The hub has the handler for the pair, if it keeps a registry. -/
def Hub.Registers (room subscriber : String) (f : Option Handler) (hub : Hub) : Prop :=
  ∀ r, hub.registry = .ok r → r.get? room subscriber = f

namespace Hub

variable {room subscriber : String} {f : Option Handler} {hub : Hub}

theorem registers_mapRegistry {change : Registry Handler → Registry Handler}
    {f' : Option Handler} (h : hub.Registers room subscriber f)
    (hchange : ∀ r, r.get? room subscriber = f → (change r).get? room subscriber = f') :
    (hub.mapRegistry change).Registers room subscriber f' := by
  cases hub with
  | failing error => exact nofun
  | memory r | bare r =>
      rintro _ ⟨⟩
      exact hchange r (h r rfl)
  | broker b =>
      rintro _ ⟨⟩
      exact hchange b.registry (h b.registry rfl)

theorem registers_of_registry {hub' : Hub} (h : hub.Registers room subscriber f)
    (heq : hub'.registry = hub.registry) : hub'.Registers room subscriber f := by
  intro r hr
  exact h r (heq ▸ hr)

end Hub

/-- All hubs have the handlers that they ought to have, also those yet to come. -/
structure Agrees (room subscriber : String) (hs : List Hub) (f : Nat → Option Handler) :
    Prop where
  registers : ∀ {k : Nat} {hub : Hub}, hs[k]? = some hub → hub.Registers room subscriber (f k)
  fresh : ∀ {k : Nat}, hs.length ≤ k → f k = none

namespace Agrees

variable {room subscriber : String} {hs : List Hub} {f f' : Nat → Option Handler}

theorem modify (h : Agrees room subscriber hs f) {n : Nat} {change : Hub → Hub}
    (hchange : ∀ hub, hs[n]? = some hub → hub.Registers room subscriber (f n) →
      (change hub).Registers room subscriber (f' n))
    (hsame : ∀ k, k ≠ n ∨ hs.length ≤ k → f' k = f k) :
    Agrees room subscriber (hs.modify n change) f' := by
  constructor
  · intro k hub hk
    rw [List.getElem?_modify] at hk
    obtain ⟨old, hold, rfl⟩ := Option.map_eq_some_iff.mp hk
    have hregisters := h.registers hold
    by_cases hkn : n = k
    · subst hkn
      simpa using hchange old hold hregisters
    · rw [hsame k (.inl (Ne.symm hkn))]
      simpa [hkn] using hregisters
  · intro k hk
    rw [List.length_modify] at hk
    rw [hsame k (.inr hk)]
    exact h.fresh hk

/-- A new hub has no handlers. -/
theorem concat (h : Agrees room subscriber hs f) {hub : Hub}
    (hnew : ∀ r, hub.registry = .ok r → r = .empty) :
    Agrees room subscriber (hs ++ [hub]) f := by
  constructor
  · intro k hub' hk
    rw [getElem?_concat] at hk
    split at hk
    · next hlast =>
        cases hk
        rw [h.fresh (Nat.le_of_eq hlast.symm)]
        intro r hr
        rw [hnew r hr]
        rfl
    · exact h.registers hk
  · intro k hk
    rw [List.length_append] at hk
    exact h.fresh (Nat.le_trans (Nat.le_add_right _ _) hk)

theorem apply {c : Core} {e : Event} (possible : e.Possible c)
    (h : Agrees room subscriber c.hubs f) :
    Agrees room subscriber (e.hubs c.hubs) fun k =>
      e.registers c k room subscriber (f k) := by
  have same : ∀ {n : Nat} {change : Hub → Hub},
      (∀ hub, (change hub).registry = hub.registry) →
      Agrees room subscriber (c.hubs.modify n change) f := fun hchange =>
    h.modify (fun hub _ hregisters => hub.registers_of_registry hregisters (hchange hub))
      fun _ _ => rfl
  cases e with
  | hub new => exact h.concat possible.2
  | build capacity new => exact h.concat (by rintro _ ⟨⟩; exact possible.1)
  | register n room' subscriber' new =>
      refine h.modify ?_ ?_
      · intro hub hhub hregisters
        refine hub.registers_mapRegistry hregisters ?_
        intro r hr
        have hlt := (List.getElem?_eq_some_iff.mp hhub).1
        simp only [Registry.get?_set, hr, Event.registers, hlt, true_and]
      · intro k hk
        refine if_neg ?_
        rintro ⟨hlt, rfl, -⟩
        rcases hk with hne | hle
        · exact hne rfl
        · omega
  | unregister n room' subscriber' =>
      refine h.modify ?_ ?_
      · intro hub _ hregisters
        refine hub.registers_mapRegistry hregisters ?_
        intro r hr
        simp only [Registry.get?_delete, hr, Event.registers, true_and]
      · intro k hk
        simp only [Event.registers]
        split
        · next heq =>
            rcases hk with hne | hle
            · exact (hne heq.1.symm).elim
            · exact (h.fresh hle).symm
        · rfl
  | conclude n p =>
      obtain ⟨owner, roll, broadcast, concluded⟩ := p
      cases owner with
      | caller e => exact h
      | receiver k => exact same fun hub => by cases hub <;> rfl
  | turn n b t => exact same fun hub => by cases hub <;> rfl
  | detach n b => exact same fun hub => by cases hub <;> rfl
  | _ => exact h

end Agrees

theorem Reached.agrees {h : History} {c : Core} (reached : Reached h c)
    (room subscriber : String) :
    Agrees room subscriber c.hubs fun k => h.registered k room subscriber := by
  induction reached with
  | start => exact ⟨nofun, fun _ => rfl⟩
  | step before possible ih =>
      simp only [History.registered_concat]
      exact ih.apply possible

/-- What a look-up finds is what the history tells. -/
theorem Reached.get?_registry {h : History} {c : Core} (reached : Reached h c) {k : Nat}
    {hub : Hub} (hk : c.hubs[k]? = some hub) {r : Registry Handler} (hr : hub.registry = .ok r)
    (room subscriber : String) : r.get? room subscriber = h.registered k room subscriber :=
  (reached.agrees room subscriber).registers hk r hr

end DiceRooms
