import DiceRooms.Scenario.Hubs
import DiceRooms.Scenario.Receivers
import DiceRooms.Scenario.Scheduler
import DiceRooms.Scenario.Viewers

/-!
Running a scenario: the steps are taken one by one, and after each the tasks run until
nothing can move. What a step gives is its answer, the notes of handlers and the sorted
log lines of that time.
-/
namespace DiceRooms.Scenario

namespace Play

def joinAnswers (p : Play) : Play × Answer :=
  ({ p with answers := [] }, .joined (p.answers.mergeSort fun a b => a.1 ≤ b.1))

/-- Carries out a step that never waits; the others are pending until a task is done. -/
def carryOut (p : Play) : Step → Play × Answer
  | .newMemory hub => (p.addHub hub (.memory .empty), .ok)
  | .newRegistry hub => (p.addHub hub (.bare .empty), .ok)
  | .newBroker hub route token topic capacity => p.newBroker hub route token topic capacity
  | .newFailing hub error => (p.addHub hub (.failing error), .ok)
  | .measure hub inner kind => (p.measureHub hub inner kind, .ok)
  | .measures => p.takeMeasurements
  | .subscribe hub room subscriber plan => p.subscribe hub room subscriber plan
  | .unsubscribe hub room subscriber => p.unsubscribe hub room subscriber
  | .count hub room => (p, .count (p.subscriberCount hub room))
  | .rooms hub => (p, .count (p.roomCount hub))
  | .snapshot hub room => (p, .handlers (p.snapshot hub room))
  | .topic hub => (p, .text (p.topicOf hub))
  | .running hub => (p, .flag (p.isRunning hub))
  | .dropHub hub => p.forgetHub hub
  | .cancel token => (p.cancel token, .ok)
  | .token token => p.askToken token
  | .release gate permits => (p.release gate permits, .ok)
  | .join => p.joinAnswers
  | .events sink => (p, .rolls (((p.sinks.at? sink).getD []).map p.shown))
  | .listen name topic capacity closed => p.listen name topic capacity closed
  | .receive name most => p.receive name most
  | .dropReceiver name => p.dropReceiver name
  | .closeReceiver name => (p.closeReceiver name, .ok)
  | .leave name => p.leave name
  | .subscriptions topic =>
    (p, .count (p.deployment.exchange.broker.subscriptionCount topic))
  | .publish topic payload => p.publish topic payload
  | .setFaults change => (p.setFaults change, .ok)
  | .relayStats => (p, p.relayStats)
  | .kick index => p.kick index
  | .newService name notifier subscriber roller =>
    (p.newService name notifier subscriber roller, .ok)
  | .listDice _ => (p, .dice DieType.all)
  | .watch name service room plan => p.watch name service room plan
  | .unwatch name => p.unwatch name
  | .openFeed name hub room => p.openFeed name hub room
  | .readFeed name => p.readFeed name
  | .dropStream name which => (p.dropStream name which, .ok)
  | .closeFeed name => p.closeFeed name
  | .notify .. | .burst .. | .shutdown _ | .roll .. => (p, .pending)

/-- Begins a step. One that may have to wait becomes a task and has no answer yet. -/
def begin (p : Play) (i : Nat) : Step → Play × Option Answer
  | .notify hub roll =>
    match roll.resolve with
    | .error e => (p, some (.failed (.dieType e)))
    | .ok roll => (p.spawn (some i) (.notify (p.endpoint hub) roll), none)
  | .burst hub rolls => (p.spawn (some i) (.burst hub rolls []), none)
  | .shutdown hub => (p.spawn (some i) (.shutdown (p.endpoint hub).hub), none)
  | .roll service room user dice hideSides =>
    match dice.mapM DieType.ofId with
    | .error e => (p, some (.failed (.dieType e)))
    | .ok dice => (p.spawn (some i) (.roll service room user dice hideSides), none)
  | s => (p.carryOut s).map id some

/-- The answer of a step once nothing can move. -/
def answerFor (p : Play) (i : Nat) : Option Answer → Play × Answer
  | some a => (p, a)
  | none =>
    match p.answers.at? i with
    | some a => ({ p with answers := p.answers.remove i }, a)
    | none => (p, .pending)

/-- The lines of the notices given since there were `told`, in order of their text. -/
def linesSince (p : Play) (told : Nat) : List String :=
  let notices := p.deployment.notices
  ((notices.take (notices.length - told)).map fun n => n.lineWith p.showId).mergeSort
    fun a b => a ≤ b

/-- Takes a step and lets everything run until nothing can move. -/
def take (p : Play) (i : Nat) (s : Step) : Play × Result :=
  let told := p.deployment.notices.length
  let (p, a) := { p with noted := [] }.begin i s
  let (p, a) := p.settle.answerFor i a
  (p, ⟨a, p.noted, p.linesSince told⟩)

def takeAll (p : Play) (i : Nat) : List Step → List Result
  | [] => []
  | s :: steps =>
    let (p, r) := p.take i s
    r :: takeAll p (i + 1) steps

end Play

def results (steps : List Step) : List Result :=
  (Play.starting (.ofSteps steps)).takeAll 0 steps

end DiceRooms.Scenario
