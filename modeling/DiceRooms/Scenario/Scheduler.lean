import DiceRooms.Scenario.Play

/-!
Who moves next. Due tasks get their turn first come first served, and a task that has
its turn keeps it until all its frames wait, or want messages or permits beyond the credit
of a turn. A task that lacks credit rests until the round ends: when no task is due or after
so many turns. Of the frames the first that can move does; a handler's own notification comes
in front of it, so it ends before the handler goes on.
-/
namespace DiceRooms.Scenario

namespace Play

def conclude (p : Play) (dispatch : Nat) : Play :=
  match p.deployment.conclude dispatch with
  | some deployment => { p with deployment }
  | none => p

def framesOf (p : Play) (dispatch : Nat) : List Frame :=
  let size := (p.deployment.dispatches[dispatch]?.map (·.broadcast.length)).getD 0
  (List.range size).map fun i => ⟨⟨dispatch, i⟩, .begin, []⟩

/-- Takes up a dispatch: its frames are put between those given. One without handlers
is over at once. -/
def takeUp (p : Play) (n : Nat) (t : Task) (before : List Frame) (dispatch : Nat)
    (after : List Frame) : Play :=
  (p.setTask n { t with frames := before ++ p.framesOf dispatch ++ after }).conclude dispatch

def canMove (p : Play) (f : Frame) : Bool :=
  match f.moment with
  | .atGate => false
  | .called => 0 < p.credit
  | .telling dispatch => p.deployment.isConcluded dispatch
  | .begin | .admitted | .acting => true

/-- The first frame that can move, with those before and behind it. -/
def nextFrame (p : Play) : List Frame → Option (List Frame × Frame × List Frame)
  | [] => none
  | f :: fs =>
    if p.canMove f then some ([], f, fs)
    else (p.nextFrame fs).map fun (before, g, after) => (f :: before, g, after)

/-- Carries out an act of a handler. If it is a notification that does not end at once,
its dispatch is answered. -/
def act (p : Play) : Act → Play × Option Nat
  | .subscribe hub room subscriber plan =>
    let e := p.endpoint hub
    let (p, h) := p.handlerOf plan
    let (deployment, _) := p.deployment.subscribe e room subscriber h
    ({ p with deployment }, none)
  | .unsubscribe hub room subscriber =>
    let (deployment, _) := p.deployment.unsubscribe (p.endpoint hub) room subscriber
    ({ p with deployment }, none)
  | .notify hub roll =>
    match roll.resolve with
    | .error _ => (p, none)
    | .ok roll =>
      match p.deployment.notify (p.endpoint hub) roll with
      | (deployment, .done _) => ({ p with deployment }, none)
      | (deployment, .dispatched dispatch) => ({ p with deployment }, some dispatch)

def playerOf (p : Play) (place : Place) : Option (Nat × Player) := do
  let d ← p.deployment.dispatches[place.dispatch]?
  let i ← d.broadcast[place.invocation]?
  match i.handler with
  | .outside n _ => return (n, ← p.players[n]?)
  | _ => none

def rollOf (p : Play) (place : Place) : Option Roll :=
  p.deployment.dispatches[place.dispatch]?.map (·.roll)

def noteAt (p : Play) (sink : Option String) (suffix : String) (r : Roll) : Play :=
  match sink with
  | some s => p.note (s ++ suffix) r.id
  | none => p

def storeAt (p : Play) (sink : Option String) (r : Roll) : Play :=
  match sink with
  | some s => p.store s r
  | none => p

/-- Asks a gate for a permit; without one the frame waits in the queue. A permit that is
given is out of the reach of others, even before the frame takes it. -/
def enter (p : Play) (n : Nat) (place : Place) (gate : String) : Play × Moment :=
  let g := (p.gates.at? gate).getD ⟨0, []⟩
  match g.permits with
  | k + 1 => ({ p with gates := p.gates.put gate { g with permits := k } }, .called)
  | 0 => ({ p with gates := p.gates.put gate { g with queue := g.queue ++ [(n, place)] } },
      .atGate)

/-- Lets a frame that waits at a gate go on. -/
def letThrough (p : Play) (waiting : Nat × Place) : Play :=
  let (n, place) := waiting
  match p.tasks[n]? with
  | none => p
  | some t =>
    let frames := t.frames.map fun f =>
      if f.place = place then { f with moment := .called } else f
    let p := p.setTask n { t with frames }
    if p.ready.contains n then p else { p with ready := p.ready ++ [n] }

/-- Gives permits to the frames in the queue, first come first, and keeps what is left. -/
def release (p : Play) (gate : String) (permits : Nat) : Play :=
  let g := (p.gates.at? gate).getD ⟨0, []⟩
  let left : Gate := ⟨g.permits + (permits - g.queue.length), g.queue.drop permits⟩
  (g.queue.take permits).foldl letThrough { p with gates := p.gates.put gate left }

/-- Begins an invocation that follows a plan; the call counts from here on. -/
def beginPlayer (p : Play) (n : Nat) (place : Place) (number : Nat) (player : Player)
    (r : Roll) : Play × Moment :=
  let p := { p with
    players := p.players.set number { player with calls := player.calls + 1 } }
  match player.gate with
  | none => (p, .admitted)
  | some gate => (p.noteAt player.sink ":started" r).enter n place gate

/-- What a call that begins now has to do behind the gate. -/
def actsFor (player : Player) : List Act :=
  if player.calls < player.times then player.acts else []

def admitPlayer (p : Play) (player : Player) (r : Roll) : Play :=
  (p.noteAt player.sink "" r).storeAt player.sink r

/-- Ends an invocation and takes its frame away. -/
def endFrame (p : Play) (n : Nat) (t : Task) (before after : List Frame) (place : Place)
    (deployment : Option Deployment) : Play :=
  let p := match deployment with
    | some deployment => { p with deployment }
    | none => p
  (p.setTask n { t with frames := before ++ after }).conclude place.dispatch

/-- Moves one frame of a task. -/
def moveFrame (p : Play) (n : Nat) (t : Task) (before : List Frame) (f : Frame)
    (after : List Frame) : Play :=
  let place := f.place
  let put (p : Play) (f : Frame) := p.setTask n { t with frames := before ++ f :: after }
  match p.playerOf place, p.rollOf place with
  | some (number, player), some r =>
    match f.moment, f.acts with
    | .begin, _ =>
      let p := match p.deployment.startInvocation place.dispatch place.invocation with
        | some deployment => { p with deployment }
        | none => p
      let (p, moment) := p.beginPlayer n place number player r
      let f : Frame := ⟨place, moment, actsFor player⟩
      put (p.look [f]) f
    | .atGate, _ => p
    | .called, acts => put (p.spend.look after) ⟨place, .admitted, acts⟩
    | .admitted, acts => put (p.admitPlayer player r) ⟨place, .acting, acts⟩
    | .acting, [] =>
      p.endFrame n t before after place
        (p.deployment.finishInvocation place.dispatch place.invocation player.ending)
    | .acting, a :: acts =>
      match p.act a with
      | (p, none) => put p ⟨place, .acting, acts⟩
      | (p, some dispatch) =>
        p.takeUp n t before dispatch (⟨place, .telling dispatch, acts⟩ :: after)
    | .telling _, acts => put p ⟨place, .acting, acts⟩
  | _, _ =>
    -- Nobody comes between the two halves of a call that has nothing to wait for.
    p.endFrame n t before after place do
      let deployment ← p.deployment.startInvocation place.dispatch place.invocation
      deployment.finishInvocation place.dispatch place.invocation .success

def withWork (p : Play) (n : Nat) (t : Task) (w : Work) : Play :=
  p.setTask n { t with work := w }

/-- Goes on to a dispatch that the work of a task waits for. -/
def await (p : Play) (n : Nat) (t : Task) (dispatch : Nat) (w : Work) : Play :=
  p.takeUp n { t with work := w } [] dispatch []

def rollIds (service : String) (serial : UInt64) : FreshIds :=
  let stem := service ++ ":" ++ toString serial.toNat
  ⟨"<roll:" ++ stem ++ ">", fun i => "<die:" ++ stem ++ ":" ++ toString i ++ ">"⟩

def throwWith (roller : Roller) (draft : Roll) : Except DiceError Roll :=
  match (roller.roll draft.dice).2 with
  | .ok dice => .ok { draft with dice }
  | .error e => .error (.roll e.reason)

/-- Asks a service for a roll, which the clock gives its time. -/
def createRoll (p : Play) (service : String) (q : Request) :
    Option (Play × Except InvalidRequest Nat) := do
  let dealer ← p.dealers.at? service
  let (deployment, requested) ← p.deployment.createRoll dealer.service
    (throwWith dealer.roller) (rollIds service) p.spare.now q
  let p := { p with deployment }
  match requested with
  | .error e => some (p, .error e)
  | .ok creation =>
    let c ← deployment.creations[creation]?
    let roller := (dealer.roller.roll c.roll.dice).1
    some ({ p with dealers := p.dealers.put service { dealer with roller } }, .ok creation)

/-- Goes on with a roll that has been told, or waits for those it is told to. -/
def followRoll (p : Play) (n : Nat) (t : Task) (creation : Nat) (hideSides : Bool) :
    Option Play := do
  let c ← p.deployment.creations[creation]?
  match c.stage with
  | .ended (.ok ()) => some (p.finish n t (p.rollAnswer c.roll hideSides))
  | .ended (.error e) => some (p.finish n t (.failed (.dice e)))
  | .telling dispatch => some (p.await n t dispatch (.rolling creation hideSides))
  | .drafted | .thrown => none

/-- Whether the loop of a hub waits for its next message. -/
def listens (p : Play) (hub : Nat) : Bool :=
  ((p.deployment.brokerHub? hub).map fun h => h.phase == .running).getD false

/-- Returns from a call that shuts a hub down, unless it has to wait. -/
def endStopping (p : Play) (n : Nat) (t : Task) (call : Nat) : Option Play :=
  match p.deployment.shutdowns[call]?.map Shutdown.stage with
  | some .waiting => do
    let deployment ← p.deployment.endShutdown call
    some ({ p with deployment }.finish n t .ok)
  | _ => some (p.finish n t .ok)

/-- Moves the work of a task that has no frames. -/
def moveWork (p : Play) (n : Nat) (t : Task) : Option Play :=
  match t.work with
  | .ended => none
  | .loop hub => do
    guard (0 < p.credit || !p.listens hub)
    let deployment ← p.deployment.turn hub
    let p := { p with deployment }.spend
    match (deployment.brokerHub? hub).map BrokerHub.phase with
    | some (.dispatching dispatch) => some (p.await n t dispatch t.work)
    | _ => some p
  | .notify e r =>
    match p.deployment.notify e r with
    | (deployment, .done result) =>
      some ({ p with deployment }.finish n t (answerOf .hub result))
    | (deployment, .dispatched dispatch) =>
      some ({ p with deployment }.await n t dispatch (.notifying e dispatch))
  | .notifying e dispatch =>
    if p.deployment.isConcluded dispatch then
      some (p.finish n t (p.dispatchAnswer e dispatch))
    else none
  | .burst _ [] answers => some (p.finish n t (.sequence answers))
  | .burst hub (raw :: rolls) answers =>
    let answered (p : Play) (a : Answer) := p.withWork n t (.burst hub rolls (answers ++ [a]))
    match raw.resolve with
    | .error error => some (answered p (.failed (.dieType error)))
    | .ok r =>
      let e := p.endpoint hub
      match p.deployment.notify e r with
      | (deployment, .done result) => some (answered { p with deployment } (answerOf .hub result))
      | (deployment, .dispatched dispatch) =>
        some ({ p with deployment }.await n t dispatch (.bursting hub e dispatch rolls answers))
  | .bursting hub e dispatch rolls answers =>
    if p.deployment.isConcluded dispatch then
      some (p.withWork n t (.burst hub rolls (answers ++ [p.dispatchAnswer e dispatch])))
    else none
  | .roll service room user dice hideSides =>
    match p.createRoll service ⟨room, user, dice⟩ with
    | none => some (p.finish n t (.failed (.hub noSuchHub)))
    | some (p, .error e) => some (p.finish n t (.failed (.dice (.invalidRequest e))))
    | some (p, .ok creation) => p.followRoll n t creation hideSides
  | .rolling creation hideSides => do
    let deployment ← p.deployment.endCreation creation
    { p with deployment }.followRoll n t creation hideSides
  | .shutdown hub =>
    -- Nobody comes between the cancellation and the handle.
    let call := p.deployment.shutdowns.length
    let begun := p.deployment.shutdown hub
    let deployment := (begun.takeHandle call).getD begun
    let p := { p with deployment }.withWork n t (.stopping hub call)
    some ((p.endStopping n t call).getD p)
  | .stopping _ call => p.endStopping n t call

/-- One move of a task, if it can move. -/
def move (p : Play) (n : Nat) : Option Play := do
  let t ← p.tasks[n]?
  match p.nextFrame t.frames with
  | some (before, f, after) => some (p.moveFrame n t before f after)
  | none => if t.frames.isEmpty then p.moveWork n t else none

/-- Whether a task could move if it had its turn. -/
def couldMove (p : Play) (n : Nat) : Bool := (p.refreshed.move n).isSome

/-- Makes every task due that could move, the one given apart: it has its turn. -/
def wake (p : Play) (current : Option Nat) : Play :=
  let due := (List.range p.tasks.length).filter fun n =>
    some n ≠ current && !p.ready.contains n && !p.resting.contains n && p.couldMove n
  { p with ready := p.ready ++ due }

/-- Whether a task is a loop that would look for a message now. -/
def isListening (p : Play) (n : Nat) : Bool :=
  match p.tasks[n]? with
  | some ⟨_, .loop hub, []⟩ => p.listens hub
  | _ => false

/-- Takes the turn from a task. If it came to a gate without credit it rests, and so does a
loop without credit, which cannot tell whether there is a message. -/
def endTurn (p : Play) (n : Nat) : Play :=
  if p.refused || (p.credit = 0 && p.isListening n) then
    { p with resting := n :: p.resting }
  else p

/-- Makes the tasks due that rest. -/
def endRound (p : Play) : Play :=
  { p with ready := p.ready ++ p.resting, resting := [], turns := 0 }

def heldByService (p : Play) (service : Nat) : List Nat :=
  match p.deployment.services[service]? with
  | some s => [s.notifier.hub, s.subscriber.hub]
  | none => []

def heldByWork (p : Play) : Work → List Nat
  | .notify e _ | .notifying e _ | .bursting _ e .. => [e.hub]
  | .shutdown hub | .stopping hub _ => [hub]
  | .rolling creation _ =>
    match p.deployment.creations[creation]? with
    | some c => p.heldByService c.service
    | none => []
  | .loop _ | .burst .. | .roll .. | .ended => []

/-- The hubs that somebody could still call. A receive loop does not hold its own. -/
def held (p : Play) : List Nat :=
  p.hubs.map (·.2.hub) ++
    p.dealers.flatMap (p.heldByService ·.2.service) ++
    p.viewers.map (·.2.endpoint.hub) ++
    p.sessions.map (·.2.endpoint.hub) ++
    p.tasks.flatMap (p.heldByWork ·.work)

/-- Lets go of the hubs that nobody holds. -/
def collect (p : Play) : Play :=
  let held := p.held
  let gone := (List.range p.deployment.hubs.length).filter (!held.contains ·)
  { p with deployment := gone.foldl Deployment.dropHub p.deployment }

/-- Gives turns until nothing is due. -/
def run : Nat → Option Nat → Play → Play
  | 0, _, p => p
  | fuel + 1, some n, p =>
    match p.move n with
    | some p => run fuel (some n) (p.wake (some n))
    | none => run fuel none ((p.endTurn n).collect.wake none)
  | fuel + 1, none, p =>
    let p := if p.turns = roundLength then p.endRound else p
    match p.ready with
    | n :: ready => run fuel (some n) { p with ready, turns := p.turns + 1 }.refreshed
    | [] => if p.resting.isEmpty then p else run fuel none p.endRound

/-- More moves than any scenario makes. -/
def patience : Nat := 1000000000

def settle (p : Play) : Play :=
  run patience none ({ p with turns := 0 }.collect.wake none)

end Play

end DiceRooms.Scenario
