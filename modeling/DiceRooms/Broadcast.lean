import DiceRooms.Hub.Handler
import DiceRooms.Registry

/-!
One roll told to the handlers that a room had when the telling began. Each of them is
an invocation that waits, runs and ends; the report counts how they ended.
-/
namespace DiceRooms

inductive Progress
  | waiting
  | running
  | ended (outcome : Outcome)
deriving DecidableEq

structure Invocation where
  subscriber : String
  handler : Handler
  progress : Progress
deriving DecidableEq

namespace Invocation

def outcome? (i : Invocation) : Option Outcome :=
  match i.progress with
  | .ended o => some o
  | _ => none

/-- The reason of a run that did not succeed. -/
def reason? (i : Invocation) : Option String :=
  i.outcome?.bind Outcome.reason?

def isEnded (i : Invocation) : Bool := i.outcome?.isSome

def hasSucceeded (i : Invocation) : Bool := i.outcome? == some .success

def hasFailed (i : Invocation) : Bool := i.reason?.isSome

theorem hasFailed_eq_not {i : Invocation} (h : i.isEnded = true) :
    i.hasFailed = !i.hasSucceeded := by
  obtain ⟨subscriber, handler, progress⟩ := i
  cases progress with
  | waiting | running => cases h
  | ended o =>
    cases hr : o.reason? with
    | none =>
      obtain rfl := o.reason?_eq_none_iff.1 hr
      rfl
    | some reason =>
      have : o ≠ .success := fun ho => by rw [ho] at hr; cases hr
      simp [hasFailed, hasSucceeded, reason?, outcome?, hr, this]

end Invocation

structure Report where
  delivered : Nat
  failed : Nat
deriving DecidableEq

def Report.invoked (r : Report) : Nat := r.delivered + r.failed

abbrev Broadcast := List Invocation

namespace Broadcast

def ofRegistry (r : Registry Handler) (room : String) : Broadcast :=
  (r.snapshot room).map fun e => ⟨e.1, e.2, .waiting⟩

def isOver (b : Broadcast) : Bool := b.all Invocation.isEnded

def report (b : Broadcast) : Report :=
  ⟨b.countP Invocation.hasSucceeded, b.countP Invocation.hasFailed⟩

/-- The failed invocations with their reasons. -/
def failures (b : Broadcast) : List (Invocation × String) :=
  b.filterMap fun i => i.reason?.map fun reason => (i, reason)

/-- Lets an invocation proceed from one stage to another. -/
def advance (b : Broadcast) (n : Nat) (fromStage toStage : Progress) : Option Broadcast :=
  match b[n]? with
  | some i =>
    if i.progress = fromStage then some (b.set n { i with progress := toStage }) else none
  | none => none

def start (b : Broadcast) (n : Nat) : Option Broadcast := b.advance n .waiting .running

def finish (b : Broadcast) (n : Nat) (o : Outcome) : Option Broadcast :=
  b.advance n .running (.ended o)

theorem length_ofRegistry (r : Registry Handler) (room : String) :
    (ofRegistry r room).length = r.subscriberCount room := by
  simp [ofRegistry, Registry.snapshot, Registry.subscriberCount]

/-- Every invocation counts once in the report, as delivered or as failed. -/
theorem invoked_report {b : Broadcast} (h : b.isOver = true) :
    b.report.invoked = b.length := by
  have hf : b.countP Invocation.hasFailed = b.countP fun i => !i.hasSucceeded :=
    List.countP_congr fun i hi => by rw [Invocation.hasFailed_eq_not (List.all_eq_true.1 h i hi)]
  simp [report, Report.invoked, hf, List.length_eq_countP_add_countP Invocation.hasSucceeded]

end Broadcast

end DiceRooms
