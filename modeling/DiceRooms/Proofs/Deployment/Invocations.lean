import DiceRooms.Proofs.Deployment.History

/-!
Invocations. A dispatch keeps its owner, its roll and its audience from its beginning on,
and its invocations only ever proceed. Each of them is begun once at most, and has been
begun exactly once when it is no longer waiting.
-/
namespace DiceRooms

theorem map_modify_of_same {α β : Type} {f : α → α} {g : α → β} (h : ∀ a, g (f a) = g a)
    (l : List α) (n : Nat) : (l.modify n f).map g = l.map g := by
  apply List.ext_getElem?
  intro k
  rw [List.getElem?_map, List.getElem?_map, List.getElem?_modify]
  cases l[k]? with
  | none => rfl
  | some a =>
      simp only [Option.map_eq_map, Option.map_some]
      split
      · rw [h]
      · rfl

/-! Dispatches as their owners ordered them. -/

def Dispatch.audience (p : Dispatch) : List (String × Handler) :=
  p.broadcast.map fun inv => (inv.subscriber, inv.handler)

/-- Who tells which roll to whom. -/
structure Telling where
  owner : Owner
  roll : Roll
  audience : List (String × Handler)

def Dispatch.telling (p : Dispatch) : Telling := ⟨p.owner, p.roll, p.audience⟩

theorem telling_begin (owner : Owner) (registry : Registry Handler) (r : Roll) :
    (Dispatch.begin owner registry r).telling = ⟨owner, r, registry.snapshot r.room⟩ := by
  simp only [Dispatch.telling, Dispatch.audience, Dispatch.begin, Broadcast.ofRegistry,
    List.map_map]
  exact congrArg (Telling.mk owner r) (List.map_id _)

theorem telling_proceed (i : Nat) (after : Progress) (p : Dispatch) :
    (p.proceed i after).telling = p.telling := by
  have haudience : (p.proceed i after).audience = p.audience :=
    map_modify_of_same (f := fun inv : Invocation => { inv with progress := after })
      (fun _ => rfl) p.broadcast i
  exact congrArg (Telling.mk p.owner p.roll) haudience

namespace Event

/-- What the dispatch that an event begins is for, with the audience that the registry has
at this moment. -/
def telling? : Event → Option Telling
  | tell e registry r => some ⟨.caller e, r, registry.snapshot r.room⟩
  | turn n h (.dispatch _ r _) => some ⟨.receiver n, r, h.registry.snapshot r.room⟩
  | _ => none

end Event

theorem tellings_apply (c : Core) (e : Event) :
    (c.apply e).dispatches.map Dispatch.telling =
      c.dispatches.map Dispatch.telling ++ e.telling?.toList := by
  have same : ∀ {ps : List Dispatch},
      (c.dispatches.map Dispatch.telling = ps.map Dispatch.telling) →
      ps.map Dispatch.telling = c.dispatches.map Dispatch.telling ++ [] := by
    intro ps h
    rw [List.append_nil, h]
  have begun : ∀ owner registry r,
      (c.dispatches ++ [Dispatch.begin owner registry r]).map Dispatch.telling =
        c.dispatches.map Dispatch.telling ++ [⟨owner, r, registry.snapshot r.room⟩] := by
    intro owner registry r
    rw [List.map_append, List.map_singleton, telling_begin]
  cases e with
  | tell e registry r => exact begun (.caller e) registry r
  | proceed k i first after =>
      exact same (map_modify_of_same (telling_proceed i after) _ k).symm
  | conclude k p => exact same (map_modify_of_same (f := Dispatch.conclude) (fun _ => rfl) _ k).symm
  | turn k h t =>
      cases t with
      | dispatch m r number => exact begun (.receiver k) h.registry r
      | _ => exact same rfl
  | _ => exact same rfl

/-- The dispatches are the tellings of the history, in order. -/
theorem Reached.tellings {h : History} {c : Core} (reached : Reached h c) :
    c.dispatches.map Dispatch.telling = h.filterMap (·.2.telling?) := by
  induction reached with
  | start => rfl
  | @step h c e before possible ih =>
      rw [tellings_apply, ih, List.filterMap_append]
      cases htelling : e.telling? <;> simp [htelling]

/-! The progress of an invocation. -/

/-- How far an invocation has come, if it exists. -/
def Core.progress? (c : Core) (n i : Nat) : Option Progress :=
  c.dispatches[n]?.bind fun p => p.broadcast[i]?.map (·.progress)

theorem Core.progress?_of {c : Core} {n i : Nat} {p : Dispatch} {inv : Invocation}
    (hp : c.dispatches[n]? = some p) (hinv : p.broadcast[i]? = some inv) :
    c.progress? n i = some inv.progress := by
  rw [progress?, hp, Option.bind_some, hinv, Option.map_some]

/-- There are no invocations in a dispatch that is yet to be opened. -/
theorem Core.progress?_length (c : Core) (i : Nat) : c.progress? c.dispatches.length i = none := by
  rw [progress?, List.getElem?_eq_none (Nat.le_refl _), Option.bind_none]

theorem Core.ne_of_progress? {c : Core} {n i : Nat} {first : Progress}
    (h : c.progress? n i = some first) : n ≠ c.dispatches.length := by
  rintro rfl
  cases (c.progress?_length i).symm.trans h

/-- Where an event brings the invocation. -/
def Event.after? (n i : Nat) : Event → Option Progress
  | .proceed k j _ after => if k = n ∧ j = i then some after else none
  | _ => none

/-- An event leaves the invocations of a dispatch as they are, apart from their progress. -/
theorem getElem?_onDispatch (n i : Nat) (p : Dispatch) (e : Event) :
    (e.onDispatch n p).broadcast[i]? = p.broadcast[i]?.map fun inv =>
      { inv with progress := (e.after? n i).getD inv.progress } := by
  cases e with
  | proceed k j first after =>
      rw [Event.onDispatch, Event.after?]
      by_cases hk : k = n
      · rw [if_pos hk]
        show (p.broadcast.modify j _)[i]? = _
        rw [List.getElem?_modify]
        by_cases hj : j = i <;> simp [hk, hj]
      · simp [hk]
  | conclude k q =>
      rw [Event.onDispatch]
      split <;> simp [Event.after?, Dispatch.conclude]
  | _ => simp [Event.onDispatch, Event.after?]

theorem progress_onDispatch (n i : Nat) (p : Dispatch) (e : Event) :
    (e.onDispatch n p).broadcast[i]?.map (·.progress) =
      (p.broadcast[i]?.map (·.progress)).map fun first => (e.after? n i).getD first := by
  rw [getElem?_onDispatch, Option.map_map, Option.map_map]
  rfl

theorem waiting_of_opened {e : Event} {p : Dispatch} (h : e.opened? = some p) :
    ∀ inv ∈ p.broadcast, inv.progress = .waiting := by
  have begun : ∀ owner registry r, ∀ inv ∈ (Dispatch.begin owner registry r).broadcast,
      inv.progress = .waiting := by
    intro owner registry r inv hinv
    obtain ⟨entry, -, rfl⟩ := List.mem_map.mp hinv
    rfl
  rcases Event.opened?_eq_some h with ⟨e, registry, r, -, rfl⟩ | ⟨n, hub, m, r, number, -, rfl⟩
  · exact begun (.caller e) registry r
  · exact begun (.receiver n) hub.registry r

theorem progress?_apply (c : Core) (e : Event) (n i : Nat) :
    (c.apply e).progress? n i =
      if n = c.dispatches.length then
        e.opened?.bind fun p => p.broadcast[i]?.map fun _ => .waiting
      else (c.progress? n i).map fun first => (e.after? n i).getD first := by
  show (c.apply e).dispatches[n]?.bind _ = _
  rw [Core.getElem?_dispatches_apply]
  split
  · cases hopened : e.opened? with
    | none => rfl
    | some p =>
        simp only [Option.bind_some]
        cases hi : p.broadcast[i]? with
        | none => rfl
        | some inv =>
            have hwaiting := waiting_of_opened hopened inv (List.mem_of_getElem? hi)
            simp only [Option.map_some, hwaiting]
  · show _ = (c.dispatches[n]?.bind _).map _
    cases c.dispatches[n]? with
    | none => rfl
    | some p => exact progress_onDispatch n i p e

/-- An invocation proceeds from where it is. -/
theorem progress?_of_proceed {c : Core} {n i : Nat} {first after : Progress}
    (possible : (Event.proceed n i first after).Possible c) : c.progress? n i = some first := by
  obtain ⟨-, p, inv, hp, hinv, hfirst⟩ := possible
  rw [Core.progress?_of hp hinv, hfirst]

/-- An event that brings an invocation on meets it there, less advanced. -/
theorem progress?_of_after? {c : Core} {e : Event} (possible : e.Possible c) {n i : Nat}
    {after : Progress} (h : e.after? n i = some after) :
    ∃ first, e = .proceed n i first after ∧ first.rank < after.rank ∧
      c.progress? n i = some first := by
  cases e with
  | proceed k j first after' =>
      simp only [Event.after?] at h
      split at h
      · next heq =>
          obtain ⟨rfl, rfl⟩ := heq
          cases h
          exact ⟨first, rfl, possible.1, progress?_of_proceed possible⟩
      · cases h
  | _ => cases h

/-- Whether the event begins the invocation. -/
def Event.begins (n i : Nat) : Event → Bool
  | .proceed k j .waiting _ => k = n ∧ j = i
  | _ => false

/-- How often an invocation has been begun. -/
def History.begun (n i : Nat) (h : History) : Nat :=
  h.countP (·.2.begins n i)

/-- How often an invocation must have been begun to be where it is. -/
def timesBegun : Option Progress → Nat
  | none | some .waiting => 0
  | some _ => 1

/-- An invocation that proceeds begins just when it has been waiting. -/
theorem timesBegun_of_rank_lt {n i : Nat} {first after : Progress}
    (hrank : first.rank < after.rank) : timesBegun (some after) =
      timesBegun (some first) + if (Event.proceed n i first after).begins n i then 1 else 0 := by
  cases first with
  | waiting =>
      cases after with
      | waiting => cases hrank
      | running | ended _ => simp [timesBegun, Event.begins]
  | running =>
      cases after with
      | waiting | running => simp [Progress.rank] at hrank
      | ended _ => simp [timesBegun, Event.begins]
  | ended _ => cases after <;> simp [Progress.rank] at hrank

theorem begins_of_after?_eq_none {n i : Nat} {e : Event} (h : e.after? n i = none) :
    e.begins n i = false := by
  cases e with
  | proceed k j first after =>
      simp only [Event.after?] at h
      split at h
      · cases h
      · next hne => cases first <;> simp [Event.begins, hne]
  | _ => rfl

theorem timesBegun_apply {c : Core} {e : Event} (possible : e.Possible c) (n i : Nat) :
    timesBegun ((c.apply e).progress? n i) =
      timesBegun (c.progress? n i) + if e.begins n i then 1 else 0 := by
  rw [progress?_apply]
  cases hafter : e.after? n i with
  | some after =>
      obtain ⟨first, rfl, hrank, hfirst⟩ := progress?_of_after? possible hafter
      rw [if_neg (Core.ne_of_progress? hfirst), hfirst]
      exact timesBegun_of_rank_lt hrank
  | none =>
      rw [begins_of_after?_eq_none hafter]
      split
      · next hn =>
          rw [hn, c.progress?_length]
          cases e.opened? with
          | none => rfl
          | some p => cases hi : p.broadcast[i]? <;> simp [hi, timesBegun]
      · simp only [Option.getD_none]
        cases c.progress? n i <;> rfl

/-- Nobody is begun twice, and nobody proceeds without having been begun. -/
theorem Reached.begun_eq {h : History} {c : Core} (reached : Reached h c) (n i : Nat) :
    h.begun n i = timesBegun (c.progress? n i) := by
  induction reached with
  | start => rfl
  | @step h c e before possible ih =>
      rw [timesBegun_apply possible, ← ih, History.begun, List.countP_append]
      cases hbegins : e.begins n i <;> simp [History.begun, hbegins]

/-! A dispatch is concluded when all its invocations have ended. -/

theorem isEnded_iff (inv : Invocation) : inv.isEnded = true ↔ inv.progress.rank = 2 := by
  obtain ⟨subscriber, handler, progress⟩ := inv
  cases progress <;> simp [Invocation.isEnded, Invocation.outcome?, Progress.rank]

/-- Nothing can proceed in a dispatch that is over. -/
theorem not_over_of_proceed {c : Core} {n i : Nat} {first after : Progress} {p : Dispatch}
    (possible : (Event.proceed n i first after).Possible c) (hp : c.dispatches[n]? = some p) :
    p.broadcast.isOver = false := by
  obtain ⟨hrank, p', inv, hp', hinv, hfirst⟩ := possible
  obtain rfl : p = p' := Option.some.inj (hp.symm.trans hp')
  apply Bool.eq_false_iff.mpr
  intro hover
  have hended := (isEnded_iff inv).mp (List.all_eq_true.mp hover inv (List.mem_of_getElem? hinv))
  rw [hfirst] at hended
  cases after <;> simp [Progress.rank] at hrank hended <;> omega

theorem concluded_of_opened {e : Event} {p : Dispatch} (h : e.opened? = some p) :
    p.concluded = false := by
  rcases Event.opened?_eq_some h with ⟨e, registry, r, -, rfl⟩ | ⟨n, hub, m, r, number, -, rfl⟩
  · rfl
  · rfl

theorem Reached.over_of_concluded {h : History} {c : Core} (reached : Reached h c) {n : Nat}
    {p : Dispatch} (hp : c.dispatches[n]? = some p) (hconcluded : p.concluded = true) :
    p.broadcast.isOver = true := by
  induction reached generalizing p with
  | start => cases hp
  | @step h c e before possible ih =>
      rcases Core.of_getElem?_dispatches_apply hp with ⟨-, hopened⟩ | ⟨old, hold, rfl⟩
      · rw [concluded_of_opened hopened] at hconcluded
        cases hconcluded
      · cases e with
        | proceed k i first after =>
            simp only [Event.onDispatch] at hconcluded ⊢
            split
            · next heq =>
                subst heq
                rw [if_pos rfl] at hconcluded
                have hover := ih hold hconcluded
                rw [not_over_of_proceed possible hold] at hover
                cases hover
            · next hne =>
                rw [if_neg hne] at hconcluded
                exact ih hold hconcluded
        | conclude k q =>
            simp only [Event.onDispatch] at hconcluded ⊢
            split
            · next heq =>
                subst heq
                obtain rfl : old = q := Option.some.inj (hold.symm.trans possible.1)
                exact possible.2.1
            · next hne =>
                rw [if_neg hne] at hconcluded
                exact ih hold hconcluded
        | _ => exact ih hold hconcluded

end DiceRooms
