import DiceRooms.Deployment.Basic
import DiceRooms.Wire.Message

/-!
Subscribing to hubs and notifying them. A memory hub opens a dispatch that its caller
waits for; a hub on a broker publishes and is done.
-/
namespace DiceRooms

def noSuchHub : HubError := .configuration "there is no such hub"

/-- What has come of a notification so far. -/
inductive Notified
  | done (result : Except HubError Unit)
  /-- It ends when the dispatch does. -/
  | dispatched (dispatch : Nat)

namespace Deployment

/-- Changes the registry of a hub through an endpoint. Only a bare registry tells nothing
of it. -/
def changeRegistry (d : Deployment) (e : Endpoint) (op : Operation)
    (change : Registry Handler → Registry Handler × Bool) (notice : Bool → Notice) :
    Deployment × Except HubError Bool :=
  match d.hubs[e.hub]? with
  | none => (d, .error noSuchHub)
  | some hub =>
    match hub.registry with
    | .error error => (d.measure e op false, .error error)
    | .ok r =>
      let (r, changed) := change r
      let d := d.setHub e.hub (hub.withRegistry r)
      let d := if hub.isBare then d else d.tell [notice changed]
      (d.measure e op true, .ok changed)

/-- Registers a handler through an endpoint; answers whether it replaced another. -/
def subscribe (d : Deployment) (e : Endpoint) (room subscriber : String) (h : Handler) :
    Deployment × Except HubError Bool :=
  d.changeRegistry e .subscribe (·.set room subscriber h) (.handlerSet room subscriber)

/-- Removes a handler through an endpoint; answers whether there was one. -/
def unsubscribe (d : Deployment) (e : Endpoint) (room subscriber : String) :
    Deployment × Except HubError Bool :=
  d.changeRegistry e .unsubscribe (·.delete room subscriber) (.handlerDeleted room subscriber)

/-- Begins to tell a roll to the handlers that the registry has for its room now. -/
def openDispatch (d : Deployment) (owner : Owner) (registry : Registry Handler) (r : Roll) :
    Deployment × Nat :=
  let b := Broadcast.ofRegistry registry r.room
  let d := d.tell
    [if b = [] then .nobodyThere r.room else .dispatching r.room r.id b.length]
  ({ d with dispatches := d.dispatches.push ⟨owner, r, b, false⟩ }, d.dispatches.size)

def publish (d : Deployment) (b : BrokerHub) (r : Roll) : Deployment × Except HubError Unit :=
  match d.viaExchange (d.exchange.publish b.route ⟨b.topic, Wire.encode r⟩) with
  | (d, .ok ()) => (d.tell [.published b.topic r.room r.id], .ok ())
  | (d, .error e) => (d, .error (.transport "publish dice roll created event" e))

def notify (d : Deployment) (e : Endpoint) (r : Roll) : Deployment × Notified :=
  match d.hubs[e.hub]? with
  | none => (d, .done (.error noSuchHub))
  | some hub =>
    match hub with
    | .failing error => (d.measure e .notify false, .done (.error error))
    | .broker b =>
      let (d, result) := d.publish b r
      (d.measure e .notify result.isOk, .done result)
    | .memory registry | .bare registry =>
      let (d, n) := d.openDispatch (.caller e) registry r
      (d, .dispatched n)

def setDispatch (d : Deployment) (n : Nat) (p : Dispatch) : Deployment :=
  { d with dispatches := d.dispatches.setIfInBounds n p }

def adjustFeed (d : Deployment) (n : Nat) (f : Feed → Feed) : Deployment :=
  { d with feeds := d.feeds.modify n f }

/-- What a handler does to the feed that it belongs to, if it belongs to one. -/
def adjustFeedOf (d : Deployment) (h : Handler) (f : Feed → Feed) : Deployment :=
  match h with
  | .feed n => d.adjustFeed n f
  | .outside .. | .idle => d

/-- How a handler ends a call: one from outside as is said, another as it is bound to. -/
def outcomeOf (d : Deployment) (c : HandlerCall) (said : Outcome) : Handler → Outcome
  | .outside .. => said
  | .idle => .success
  | .feed n => ((d.feeds[n]?).map (·.outcome c)).getD Feed.unheard

/-- Lets an invocation of a dispatch begin. The handler of a feed sends the row. -/
def startInvocation (d : Deployment) (n i : Nat) : Option Deployment := do
  let p ← d.dispatches[n]?
  let inv ← p.broadcast[i]?
  let b ← p.broadcast.start i
  some ((d.setDispatch n { p with broadcast := b }).adjustFeedOf inv.handler
    (·.sendRow ⟨n, i⟩ p.roll))

/-- Lets an invocation of a dispatch end. The handler of a feed sends the id. -/
def finishInvocation (d : Deployment) (n i : Nat) (said : Outcome) : Option Deployment := do
  let p ← d.dispatches[n]?
  let inv ← p.broadcast[i]?
  let b ← p.broadcast.finish i (d.outcomeOf ⟨n, i⟩ said inv.handler)
  some ((d.setDispatch n { p with broadcast := b }).adjustFeedOf inv.handler
    (·.sendId ⟨n, i⟩ p.roll))

def failureNotices (p : Dispatch) : List Notice :=
  p.broadcast.failures.map fun (i, reason) =>
    .handlerFailed p.roll.room i.subscriber i.handler.name reason

def setPhase (d : Deployment) (n : Nat) (phase : Phase) : Deployment :=
  match d.brokerHub? n with
  | some h => d.setHub n (.broker { h with phase })
  | none => d

/-- Reports a dispatch whose invocations have all ended to its owner. -/
def settle (d : Deployment) (p : Dispatch) : Deployment :=
  let r := p.broadcast.report
  match p.owner with
  | .caller e =>
    match d.hubs[e.hub]? with
    | some (.memory _) =>
      (d.tell [.dispatched p.roll.room p.roll.id r.delivered r.failed]).measure e .notify true
    | _ => d.measure e .notify true
  | .receiver n =>
    let d := if 0 < r.failed then
        d.tell [.partlyDelivered p.roll.room p.roll.id r.delivered r.failed] else d
    d.setPhase n .running

/-- Ends a dispatch once all its invocations have. -/
def conclude (d : Deployment) (n : Nat) : Option Deployment := do
  let p ← d.dispatches[n]?
  if p.broadcast.isOver && !p.concluded then
    some (((d.setDispatch n { p with concluded := true }).tell (failureNotices p)).settle p)
  else none

def isConcluded (d : Deployment) (n : Nat) : Bool :=
  (d.dispatches[n]?.map (·.concluded)).getD false

def report (d : Deployment) (n : Nat) : Report :=
  (d.dispatches[n]?.map (·.broadcast.report)).getD ⟨0, 0⟩

end Deployment

end DiceRooms
