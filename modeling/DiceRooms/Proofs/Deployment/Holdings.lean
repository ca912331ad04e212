import DiceRooms.Proofs.Deployment.Measuring
import DiceRooms.Proofs.Deployment.Joining
import DiceRooms.Proofs.Registry.Pairs

/-!
What the registry of a hub holds is told by the calls that have been made to the hub, in their
order: for a pair of a room and a subscriber the handler that was set last, unless it has been
deleted since. Nothing else that happens changes it, neither broadcasts nor loops.
-/
namespace DiceRooms

namespace Call

/-- The pair whose handler the call sets or deletes. -/
def pair? : Call → Option (String × String)
  | subscribe room subscriber _ | unsubscribe room subscriber => some (room, subscriber)
  | notify _ => none

end Call

/-- The last handler that has been set for the pair, and not been deleted since. -/
def LastSet (calls : List Call) (room subscriber : String) (f : Handler) : Prop :=
  ∃ before after, calls = before ++ .subscribe room subscriber f :: after ∧
    ∀ call ∈ after, call.pair? ≠ some (room, subscriber)

section
variable {calls : List Call} {call : Call} {room subscriber : String} {f : Handler}

theorem lastSet_concat_of_pair? (hpair : call.pair? = some (room, subscriber)) :
    LastSet (calls ++ [call]) room subscriber f ↔ call = .subscribe room subscriber f := by
  constructor
  · rintro ⟨before, after, heq, hafter⟩
    rcases concat_eq_append_cons.mp heq with ⟨-, rfl, -⟩ | ⟨rest, rfl, -⟩
    · rfl
    · exact (hafter call (List.mem_append_right _ List.mem_cons_self) hpair).elim
  · rintro rfl
    exact ⟨calls, [], rfl, nofun⟩

theorem lastSet_concat_of_pair?_ne (hpair : call.pair? ≠ some (room, subscriber)) :
    LastSet (calls ++ [call]) room subscriber f ↔ LastSet calls room subscriber f := by
  constructor
  · rintro ⟨before, after, heq, hafter⟩
    rcases concat_eq_append_cons.mp heq with ⟨-, rfl, -⟩ | ⟨rest, rfl, rfl⟩
    · exact (hpair rfl).elim
    · exact ⟨before, rest, rfl, fun c hc => hafter c (List.mem_append_left _ hc)⟩
  · rintro ⟨before, after, rfl, hafter⟩
    refine ⟨before, after ++ [call], by simp, ?_⟩
    exact List.forall_mem_append.mpr ⟨hafter, List.forall_mem_singleton.mpr hpair⟩

end

/-! What one call does to a registry. -/

namespace Call

variable {call : Call} {room subscriber : String} {r : Registry Handler}

theorem get?_change_of_pair? (hpair : call.pair? = some (room, subscriber)) (f : Handler) :
    (call.change r).get? room subscriber = some f ↔ call = .subscribe room subscriber f := by
  cases call with
  | subscribe room' subscriber' g =>
      cases hpair
      simp [change, Registry.get?_set]
  | unsubscribe room' subscriber' =>
      cases hpair
      simp [change, Registry.get?_delete]
  | notify roll => cases hpair

theorem get?_change_of_pair?_ne (hpair : call.pair? ≠ some (room, subscriber)) :
    (call.change r).get? room subscriber = r.get? room subscriber := by
  cases call with
  | subscribe room' subscriber' g =>
      rw [change, Registry.get?_set, if_neg]
      rintro ⟨rfl, rfl⟩
      exact hpair rfl
  | unsubscribe room' subscriber' =>
      rw [change, Registry.get?_delete, if_neg]
      rintro ⟨rfl, rfl⟩
      exact hpair rfl
  | notify roll => rfl

/-- What is held for a room changes only with calls for that room. -/
theorem handlers_change (hroom : ∀ subscriber, call.pair? ≠ some (room, subscriber)) :
    (call.change r).handlers room = r.handlers room := by
  cases call with
  | subscribe room' subscriber' g =>
      rw [change, Registry.handlers_set, if_neg]
      rintro rfl
      exact hroom subscriber' rfl
  | unsubscribe room' subscriber' =>
      rw [change, Registry.handlers_delete, if_neg]
      rintro rfl
      exact hroom subscriber' rfl
  | notify roll => rfl

theorem change_of_broadcast (hnone : call.pair? = none) : call.change r = r := by
  cases call with
  | subscribe room' subscriber' g | unsubscribe room' subscriber' => cases hnone
  | notify roll => rfl

theorem tidy_change (tidy : r.Tidy) : (call.change r).Tidy := by
  cases call with
  | subscribe room' subscriber' g => exact Registry.tidy_set tidy room' subscriber' g
  | unsubscribe room' subscriber' => exact Registry.tidy_delete tidy room' subscriber'
  | notify roll => exact tidy

end Call

/-! Calls in their order. -/

namespace Registry

/-- What the calls make of a registry, the first call first. -/
def after (r : Registry Handler) (calls : List Call) : Registry Handler :=
  calls.foldl Call.change r

variable {r : Registry Handler} {calls : List Call}

theorem after_concat (r : Registry Handler) (calls : List Call) (call : Call) :
    r.after (calls ++ [call]) = call.change (r.after calls) := by
  rw [after, List.foldl_concat, after]

theorem tidy_after (tidy : r.Tidy) (calls : List Call) : (r.after calls).Tidy := by
  induction calls using List.reverseRecOn with
  | nil => exact tidy
  | append_singleton calls call ih =>
      rw [after_concat]
      exact Call.tidy_change ih

theorem get?_after_empty (calls : List Call) (room subscriber : String) (f : Handler) :
    (empty.after calls).get? room subscriber = some f ↔ LastSet calls room subscriber f := by
  induction calls using List.reverseRecOn with
  | nil => exact ⟨nofun, fun ⟨before, after, heq, _⟩ => by simp at heq⟩
  | append_singleton calls call ih =>
      rw [after_concat]
      by_cases hpair : call.pair? = some (room, subscriber)
      · rw [Call.get?_change_of_pair? hpair, lastSet_concat_of_pair? hpair]
      · rw [Call.get?_change_of_pair?_ne hpair, lastSet_concat_of_pair?_ne hpair, ih]

theorem handlers_after {room : String}
    (hroom : ∀ call ∈ calls, ∀ subscriber, call.pair? ≠ some (room, subscriber)) :
    (r.after calls).handlers room = r.handlers room := by
  induction calls using List.reverseRecOn with
  | nil => rfl
  | append_singleton calls call ih =>
      obtain ⟨hcalls, hcall⟩ := List.forall_mem_append.mp hroom
      rw [after_concat, Call.handlers_change (hcall call List.mem_cons_self), ih hcalls]

theorem after_of_broadcasts (hnone : ∀ call ∈ calls, call.pair? = none) : r.after calls = r := by
  induction calls using List.reverseRecOn with
  | nil => rfl
  | append_singleton calls call ih =>
      obtain ⟨hcalls, hcall⟩ := List.forall_mem_append.mp hnone
      rw [after_concat, Call.change_of_broadcast (hcall call List.mem_cons_self), ih hcalls]

theorem represents_after (calls : List Call) : (empty.after calls).Represents (LastSet calls) :=
  (tidy_after tidy_empty calls).represents (get?_after_empty calls)

end Registry

/-! The calls to a hub. -/

namespace Trace

/-- The call that is made to the hub of the given number. -/
def callAt (k : Nat) (s : Deployment × Action) : Option Call :=
  ((s.1.call? s.2).filter (·.1.hub = k)).map Prod.snd

/-- The calls to the hub of the given number, in order. -/
def callsTo (k : Nat) (tr : Trace) : List Call := tr.filterMap (callAt k)

end Trace

namespace Deployment

variable {d d' : Deployment} {k : Nat} {r : Registry Handler}

theorem callAt_eq_some_iff {a : Action} {call : Call} :
    Trace.callAt k (d, a) = some call ↔ ∃ e, d.call? a = some (e, call) ∧ e.hub = k := by
  simp only [Trace.callAt, Option.map_eq_some_iff, Option.filter_eq_some_iff, decide_eq_true_eq,
    Prod.exists, exists_eq_right]

theorem elim_change_of_broadcast {call? : Option Call}
    (hnone : ∀ call, call? = some call → call.pair? = none) :
    call?.elim r (Call.change r) = r := by
  cases call? with
  | none => rfl
  | some call => exact Call.change_of_broadcast (hnone call rfl)

/-- An action changes a registry by the call that it makes to the hub. -/
theorem onRegistry_event (d : Deployment) (a : Action) (k : Nat) (r : Registry Handler) :
    (d.event a).onRegistry k r = (Trace.callAt k (d, a)).elim r (Call.change r) := by
  have causes := d.causes_event a
  cases a with
  | subscribe e room subscriber f | unsubscribe e room subscriber | unsubscribeViewer v
  | openSession e id room | closeSession s =>
      simp only [event, Event.onRegistry, Trace.callAt, call?, Option.filter]
      split <;> simp_all [Call.change]
  | subscribeViewer e id room f =>
      by_cases hroom : room = ""
      · simp [event, Trace.callAt, call?, hroom, Event.onRegistry]
      · simp only [event, Event.onRegistry, Trace.callAt, call?, Option.filter, if_neg hroom]
        split <;> simp_all [Call.change]
  | notify e roll =>
      rw [elim_change_of_broadcast]
      · generalize d.event _ = e at causes ⊢
        cases causes <;> rfl
      · intro call hcall
        obtain ⟨e, hcall, -⟩ := callAt_eq_some_iff.mp hcall
        cases hcall
        rfl
  | tellRoll n =>
      rw [elim_change_of_broadcast]
      · generalize d.event _ = e at causes ⊢
        cases causes <;> rfl
      · intro call hcall
        obtain ⟨e, hcall, -⟩ := callAt_eq_some_iff.mp hcall
        simp only [call?, Option.bind_eq_bind, Option.bind_eq_some_iff] at hcall
        obtain ⟨c, -, s, -, hcall⟩ := hcall
        cases hcall
        rfl
  | _ =>
      generalize d.event _ = e at causes ⊢
      cases causes <;> rfl

theorem registry?_perform {a : Action} (hk : d.registry? k = some r)
    (step : d.perform a = some d') :
    d'.registry? k = some ((Trace.callAt k (d, a)).elim r (Call.change r)) := by
  show d'.core.registryOf? k = _
  have hregistry : d.core.registryOf? k = some r := hk
  rw [(happens_perform step).core_eq, Core.registryOf?_apply_of_some hregistry, onRegistry_event]

/-- After a run a hub has the registry that the calls to it have made. -/
theorem registry?_of_run {as : List Action} (hk : d.registry? k = some r) (run : Run d as d') :
    d'.registry? k = some (r.after ((d.trace as).callsTo k)) := by
  induction run generalizing r with
  | nil d => exact hk
  | @cons d₁ _ _ a _ step _ ih =>
      rw [ih (registry?_perform hk step), trace_cons step, Trace.callsTo, Trace.callsTo,
        List.filterMap_cons]
      cases Trace.callAt k (d₁, a) with
      | none => rfl
      | some call => rfl

/-- What the hub of the given number shows of its registry after the calls. -/
structure Holds (d : Deployment) (k : Nat) (calls : List Call) (r : Registry Handler) : Prop where
  registry : d.registry? k = some r
  represents : r.Represents (LastSet calls)
  /-- Who sets a handler is told whether there was one for the pair. -/
  replaces : ∀ {e : Endpoint}, e.hub = k → ∀ room subscriber f, ∃ replaced,
    (d.subscribe e room subscriber f).2 = .ok replaced ∧
      (replaced = true ↔ ∃ g, LastSet calls room subscriber g)
  removes : ∀ {e : Endpoint}, e.hub = k → ∀ room subscriber, ∃ removed,
    (d.unsubscribe e room subscriber).2 = .ok removed ∧
      (removed = true ↔ ∃ g, LastSet calls room subscriber g)
  /-- Calls for other rooms do not show in a room. -/
  apart : ∀ {as d'}, Run d as d' → ∀ room,
    (∀ call ∈ (d.trace as).callsTo k, ∀ subscriber, call.pair? ≠ some (room, subscriber)) →
    ∃ r', d'.registry? k = some r' ∧ r'.snapshot room = r.snapshot room ∧
      r'.subscriberCount room = r.subscriberCount room
  /-- A broadcast changes nothing, neither when it begins nor while handlers are told. -/
  broadcasts : ∀ {as d'}, Run d as d' →
    (∀ call ∈ (d.trace as).callsTo k, call.pair? = none) → d'.registry? k = some r

theorem holds_of_represents {calls : List Call} (hk : d.registry? k = some r)
    (represents : r.Represents (LastSet calls)) : Holds d k calls r where
  registry := hk
  represents := represents
  replaces := by
    rintro e rfl room subscriber f
    refine ⟨_, changeRegistry_answer hk _ _ _, ?_⟩
    rw [Registry.set_replaces, Option.isSome_iff_exists]
    exact exists_congr fun g => represents.finds room subscriber g
  removes := by
    rintro e rfl room subscriber
    refine ⟨_, changeRegistry_answer hk _ _ _, ?_⟩
    rw [Registry.delete_removes, Option.isSome_iff_exists]
    exact exists_congr fun g => represents.finds room subscriber g
  apart run room hroom := by
    have same := Registry.handlers_after (r := r) hroom
    exact ⟨_, registry?_of_run hk run, same, congrArg List.length same⟩
  broadcasts run hnone := by
    rw [registry?_of_run hk run, Registry.after_of_broadcasts hnone]

/-- The registry of a hub is the finite map from pairs of a room and a subscriber to the last
handlers set, whatever has been called in whatever order and however handlers have ended. -/
theorem holds_last_set {d₀ : Deployment} {as : List Action}
    (hempty : d₀.registry? k = some .empty) (run : Run d₀ as d) :
    ∃ r, Holds d k ((d₀.trace as).callsTo k) r :=
  ⟨_, holds_of_represents (registry?_of_run hempty run) (Registry.represents_after _)⟩

def withBareRegistry : Deployment := (empty.addHub (.bare .empty)).1

/-- A handler is replaced and then told a roll, while another room loses its only one. -/
def turnover : List Action :=
  [.subscribe ⟨0, []⟩ "r" "s" (.outside 0 "first"), .subscribe ⟨0, []⟩ "q" "s" .idle,
    .subscribe ⟨0, []⟩ "r" "s" (.outside 1 "second"), .notify ⟨0, []⟩ oneRoll, .start 0 0,
    .unsubscribe ⟨0, []⟩ "q" "s", .finish 0 0 .success, .conclude 0]

theorem holds_last_set_turnover : ∃ d r, Run withBareRegistry turnover d ∧
    Holds d 0 [.subscribe "r" "s" (.outside 0 "first"), .subscribe "q" "s" .idle,
      .subscribe "r" "s" (.outside 1 "second"), .notify oneRoll, .unsubscribe "q" "s"] r ∧
    r.snapshot "r" = [("s", .outside 1 "second")] ∧ r.roomCount = 1 := by
  obtain ⟨d, hd⟩ : ∃ d, turnover.foldlM perform withBareRegistry = some d := ⟨_, rfl⟩
  have hempty : withBareRegistry.registry? 0 = some .empty := rfl
  obtain ⟨r, holds⟩ := holds_last_set hempty (run_iff.mpr hd)
  have hregistry := holds.registry
  cases hd
  cases hregistry
  exact ⟨_, _, run_iff.mpr rfl, holds, rfl, rfl⟩

end Deployment

end DiceRooms
