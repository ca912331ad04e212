import DiceRooms.Deployment.Loop
import DiceRooms.Deployment.Receivers
import DiceRooms.Deployment.Rolls

/-!
All that can happen to a deployment, one atomic step at a time. `perform` carries a step
out where it is possible; `Run` says which deployments a list of steps leads to, so that
a history is a list of actions and an interleaving is an order of them.
-/
namespace DiceRooms

inductive Action
  | openMemory
  | openBare
  | openFailing (error : HubError)
  | build (c : HubConfig)
  | newToken
  | childToken (parent : Token)
  | cancel (t : Token)
  | subscribe (e : Endpoint) (room subscriber : String) (h : Handler)
  | unsubscribe (e : Endpoint) (room subscriber : String)
  | notify (e : Endpoint) (r : Roll)
  /-- A handler begins. -/
  | start (dispatch invocation : Nat)
  /-- A handler ends, and one from outside ends as is said. -/
  | finish (dispatch invocation : Nat) (said : Outcome)
  | conclude (dispatch : Nat)
  /-- The receive loop of a hub takes a turn. -/
  | turn (hub : Nat)
  /-- A call that shuts a hub down begins. -/
  | shutdown (hub : Nat)
  | takeHandle (shutdown : Nat)
  | endShutdown (shutdown : Nat)
  | abandonShutdown (shutdown : Nat)
  | dropHub (hub : Nat)
  | listen (topic : String) (capacity : Nat) (closed : Bool)
  | receive (topic : String) (subscription : Nat)
  | closeChannel (subscription : Nat)
  | leave (topic : String) (subscription : Nat)
  | publish (m : Message)
  | setFaults (publish subscribe unsubscribe : Option String)
  | addService (notifier subscriber : Endpoint)
  | requestRoll (service : Nat) (ids : UInt64 → FreshIds) (now : Instant) (q : Request)
  | throwDice (creation : Nat) (throw : Roll → Except DiceError Roll)
  | tellRoll (creation : Nat)
  | endCreation (creation : Nat)
  | subscribeViewer (e : Endpoint) (id room : String) (h : Handler)
  | unsubscribeViewer (v : Viewer)
  | openSession (e : Endpoint) (id room : String)
  | closeSession (s : Session)
  | dropRows (feed : Nat)
  | dropNotifications (feed : Nat)
  | readFeed (feed : Nat)

namespace Deployment

def newToken (d : Deployment) : Deployment × Token :=
  let (tokens, t) := d.tokens.root
  ({ d with tokens }, t)

def childToken (d : Deployment) (parent : Token) : Deployment × Token :=
  let (tokens, t) := d.tokens.child parent
  ({ d with tokens }, t)

def setFaults (d : Deployment) (publish subscribe unsubscribe : Option String) : Deployment :=
  d.setRelay { d.exchange.relay with
    publishFault := publish
    subscribeFault := subscribe
    unsubscribeFault := unsubscribe }

def perform (d : Deployment) : Action → Option Deployment
  | .openMemory => some (d.addHub (.memory .empty)).1
  | .openBare => some (d.addHub (.bare .empty)).1
  | .openFailing error => some (d.addHub (.failing error)).1
  | .build c => some (d.buildHub c).1
  | .newToken => some d.newToken.1
  | .childToken parent => some (d.childToken parent).1
  | .cancel t => some (d.cancel t)
  | .subscribe e room subscriber h => some (d.subscribe e room subscriber h).1
  | .unsubscribe e room subscriber => some (d.unsubscribe e room subscriber).1
  | .notify e r => some (d.notify e r).1
  | .start dispatch invocation => d.startInvocation dispatch invocation
  | .finish dispatch invocation said => d.finishInvocation dispatch invocation said
  | .conclude dispatch => d.conclude dispatch
  | .turn hub => d.turn hub
  | .shutdown hub => some (d.shutdown hub)
  | .takeHandle shutdown => d.takeHandle shutdown
  | .endShutdown shutdown => d.endShutdown shutdown
  | .abandonShutdown shutdown => d.abandonShutdown shutdown
  | .dropHub hub => some (d.dropHub hub)
  | .listen topic capacity closed => some (d.listen topic capacity closed).1
  | .receive topic subscription => some (d.receive topic subscription).1
  | .closeChannel subscription => some (d.closeChannel subscription)
  | .leave topic subscription => some (d.leave topic subscription).1
  | .publish m => some (d.publishMessage m).1
  | .setFaults publish subscribe unsubscribe => some (d.setFaults publish subscribe unsubscribe)
  | .addService notifier subscriber => some (d.addService notifier subscriber).1
  | .requestRoll service ids now q => (d.requestRoll service ids now q).map (·.1)
  | .throwDice creation throw => d.throwDice creation throw
  | .tellRoll creation => d.tellRoll creation
  | .endCreation creation => d.endCreation creation
  | .subscribeViewer e id room h => some (d.subscribeViewer e id room h).1
  | .unsubscribeViewer v => some (d.unsubscribeViewer v).1
  | .openSession e id room => some (d.openSession e id room).1
  | .closeSession s => some (d.closeSession s).1
  | .dropRows feed => some (d.dropRows feed)
  | .dropNotifications feed => some (d.dropNotifications feed)
  | .readFeed feed => some (d.readFeed feed).1

/-- The deployments that a list of actions leads to, the first action first. -/
inductive Run : Deployment → List Action → Deployment → Prop
  | nil (d : Deployment) : Run d [] d
  | cons {d d' d'' : Deployment} {a : Action} {as : List Action}
      (step : d.perform a = some d') (rest : Run d' as d'') : Run d (a :: as) d''

namespace Run

theorem single {d d' : Deployment} {a : Action} (h : d.perform a = some d') : Run d [a] d' :=
  .cons h (.nil d')

theorem append {d d' d'' : Deployment} {as bs : List Action} (h : Run d as d')
    (h' : Run d' bs d'') : Run d (as ++ bs) d'' := by
  induction h with
  | nil => exact h'
  | cons step _ ih => exact .cons step (ih h')

end Run

end Deployment

end DiceRooms
