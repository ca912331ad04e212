import DiceRooms.Deployment.Action
import DiceRooms.Scenario.Spare

/-!
The state of a scenario under way: the deployment, what names stand for, the gates and
sinks, and the tasks. A task is a receive loop or the call of a step; what it runs are
frames, one for each invocation of a handler, in the order in which they get their turn.
-/
namespace DiceRooms.Scenario

/-- A handler that follows a plan. -/
structure Player where
  sink : Option String
  gate : Option String
  acts : List Act
  times : Nat
  ending : DiceRooms.Outcome
  calls : Nat

inductive Moment
  | begin
  /-- Waiting in the queue of a gate. -/
  | atGate
  /-- Given a permit of a gate that it has yet to take. -/
  | called
  | admitted
  | acting
  /-- Waiting for a notification of its own to end. -/
  | telling (dispatch : Nat)

/-- A place among the invocations of a dispatch. -/
structure Place where
  dispatch : Nat
  invocation : Nat
deriving DecidableEq

structure Frame where
  place : Place
  moment : Moment
  /-- What the handler has yet to do on its own account. -/
  acts : List Act

/-- Whether a frame waits at a gate, with a permit or without. -/
def Frame.isAtGate (f : Frame) : Bool :=
  match f.moment with
  | .atGate | .called => true
  | .begin | .admitted | .acting | .telling _ => false

/-- What a task works on besides its frames. -/
inductive Work
  | loop (hub : Nat)
  | notify (e : Endpoint) (roll : Roll)
  | notifying (e : Endpoint) (dispatch : Nat)
  /-- Each roll is told to whatever hub then has the name. -/
  | burst (hub : String) (rolls : List Wire.RawRoll) (answers : List Answer)
  | bursting (hub : String) (e : Endpoint) (dispatch : Nat) (rolls : List Wire.RawRoll)
      (answers : List Answer)
  | roll (service : String) (room user : String) (dice : List DieType) (hideSides : Bool)
  | rolling (creation : Nat) (hideSides : Bool)
  | shutdown (hub : Nat)
  /-- It waits in a call that shuts the hub down. -/
  | stopping (hub call : Nat)
  | ended

structure Task where
  /-- The step that waits for the task; receive loops have none. -/
  step : Option Nat
  work : Work
  frames : List Frame

structure Gate where
  permits : Nat
  /-- The task and the place of every waiting frame, first come first. -/
  queue : List (Nat × Place)

/-- Who throws the dice of a service. -/
structure Dealer where
  service : Nat
  roller : Roller

/-- A subscription to the broker without a hub. -/
structure Receiver where
  topic : String
  subscription : Nat
  present : Bool

structure Play where
  /-- The clock stands still at its time, and new ids end in its mark. -/
  spare : Spare
  deployment : Deployment
  hubs : Table String Endpoint
  tokens : Table String Token
  /-- The services by name, each with its dealer. -/
  dealers : Table String Dealer
  viewers : Table String Viewer
  sessions : Table String Session
  receivers : Table String Receiver
  gates : Table String Gate
  /-- The rolls stored at each sink. -/
  sinks : Table String (List Roll)
  players : List Player
  tasks : List Task
  /-- Tasks that are due, first come first. -/
  ready : List Nat
  /-- What the task that has its turn may still take: each message and each permit counts. -/
  credit : Nat
  /-- Whether that task came to a gate without credit and has to come back. -/
  refused : Bool
  /-- Tasks that have used up their turns and wait for the round to end, last come first. -/
  resting : List Nat
  /-- The turns of this round. -/
  turns : Nat
  /-- The answers of steps whose tasks have ended and that have not been asked for. -/
  answers : Table Nat Answer
  /-- Ids that were given out, with the text they are shown by. -/
  aliases : Table String String
  /-- What handlers noted in this step, by sink. -/
  noted : Table String (List String)
  /-- How many measurements have been answered. -/
  measured : Nat

/-- What is shown for the time of the clock. -/
def nowMark : String := "<now>"

/-- How many messages and permits a task may take in one turn. -/
def turnCredit : Nat := 128

/-- The most turns of a round. -/
def roundLength : Nat := 61

namespace Play

def starting (spare : Spare) : Play :=
  { spare, deployment := .empty, hubs := [], tokens := [], dealers := [], viewers := [],
    sessions := [], receivers := [], gates := [], sinks := [], players := [], tasks := [],
    ready := [], credit := turnCredit, refused := false, resting := [], turns := 0,
    answers := [], aliases := [], noted := [], measured := 0 }

/-- Where a task finds the play when its turn begins. -/
def refreshed (p : Play) : Play := { p with credit := turnCredit, refused := false }

def spend (p : Play) : Play := { p with credit := p.credit - 1 }

/-- Looks after frames of the task that has its turn. Without credit nobody can tell whether
those at a gate may go on. -/
def look (p : Play) (frames : List Frame) : Play :=
  { p with refused := p.refused || (p.credit = 0 && frames.any Frame.isAtGate) }

/-- Takes over what an operation made of the deployment, and answers with what it gave. -/
def via (p : Play) (answer : α → Answer) (r : Deployment × α) : Play × Answer :=
  ({ p with deployment := r.1 }, answer r.2)

def endpoint (p : Play) (hub : String) : Endpoint :=
  (p.hubs.at? hub).getD ⟨p.deployment.hubs.length, []⟩

def append (t : Table String (List α)) (k : String) (a : α) : Table String (List α) :=
  t.put k ((t.at? k).getD [] ++ [a])

def note (p : Play) (sink id : String) : Play :=
  { p with noted := append p.noted sink id }

def store (p : Play) (sink : String) (r : Roll) : Play :=
  { p with sinks := append p.sinks sink r }

/-- A new id that is shown by the given text. -/
def freshId (p : Play) (text : String) : Play × String :=
  let id := text ++ p.spare.mark ++ toString p.aliases.length
  ({ p with aliases := p.aliases.put id text }, id)

def showId (p : Play) (id : String) : String := (p.aliases.at? id).getD id

/-- The handler of a plan; each one made counts its own calls. -/
def handlerOf (p : Play) : Plan → Play × Handler
  | .idle => (p, .idle)
  | .scripted name sink gate acts times ending =>
    ({ p with players := p.players ++ [⟨sink, gate, acts, times, ending, 0⟩] },
      .outside p.players.length name)

def spawn (p : Play) (step : Option Nat) (w : Work) : Play :=
  { p with
    tasks := p.tasks ++ [⟨step, w, []⟩]
    ready := p.ready ++ [p.tasks.length] }

def setTask (p : Play) (n : Nat) (t : Task) : Play :=
  { p with tasks := p.tasks.set n t }

/-- Ends a task and keeps its answer for the step that waits for it. -/
def finish (p : Play) (n : Nat) (t : Task) (a : Answer) : Play :=
  let p := p.setTask n { t with work := .ended, frames := [] }
  match t.step with
  | some step => { p with answers := p.answers.put step a }
  | none => p

def isBare (p : Play) (e : Endpoint) : Bool :=
  e.layers.isEmpty && p.deployment.hubs[e.hub]?.any Hub.isBare

/-- The answer to an operation that gives nothing when it succeeds. -/
def answerOf (failure : ε → Failure) : Except ε α → Answer
  | .ok _ => .ok
  | .error e => .failed (failure e)

/-- The answer to a notification whose dispatch has ended. -/
def dispatchAnswer (p : Play) (e : Endpoint) (dispatch : Nat) : Answer :=
  if p.isBare e then .report (p.deployment.report dispatch) else .ok

def inRange (r : Roll) : Bool :=
  r.dice.all fun d => 1 ≤ d.side.toNat && d.side.toNat ≤ d.type.sides

/-- The time of the clock is known by itself: no script tells it. -/
def isClockTime (p : Play) (t : Instant) : Bool := t = p.spare.now

def shown (p : Play) (r : Roll) : Shown := ⟨r, p.isClockTime r.createdAt⟩

/-- Marks stand for what a text would hold; nothing of them is escaped. -/
def writeMark (s : String) : Bytes := Ascii.quote :: utf8 s ++ [Ascii.quote]

def rollAnswer (p : Play) (r : Roll) (hideSides : Bool) : Answer :=
  if hideSides then .rolledHidden r.serial (inRange r) (r.dice.map (·.type))
  else .rolled (p.shown r)

end Play

end DiceRooms.Scenario
