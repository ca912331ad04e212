import DiceRooms.Deployment.Hubs
import DiceRooms.Roller
import DiceRooms.Service

/-!
The dice service and the feeds: creating rolls, and subscribing viewers under ids of
their own. Many rolls may be under way at once, so a creation goes from stage to stage:
it takes its serial, has its dice thrown, is told to the notifier and ends.
-/
namespace DiceRooms

/-- A viewer's subscription, made through a service. -/
structure Viewer where
  id : String
  room : String
  endpoint : Endpoint
deriving DecidableEq

/-- A viewer's live connection to a room. -/
structure Session where
  id : String
  room : String
  endpoint : Endpoint
  feed : Nat
deriving DecidableEq

/-- What a notification makes of a creation. -/
def Stage.ofNotified : Notified → Stage
  | .done (.ok ()) => .ended (.ok ())
  | .done (.error e) => .ended (.error (.event e))
  | .dispatched dispatch => .telling dispatch

namespace Deployment

def addService (d : Deployment) (notifier subscriber : Endpoint) : Deployment × Nat :=
  ({ d with services := d.services ++ [⟨0, notifier, subscriber⟩] }, d.services.length)

def setCreation (d : Deployment) (n : Nat) (c : Creation) : Deployment :=
  { d with creations := d.creations.set n c }

/-- Takes in a request, if there is such a service. A valid one takes the next serial and
is answered with the number of its creation. -/
def requestRoll (d : Deployment) (service : Nat) (ids : UInt64 → FreshIds) (now : Instant)
    (q : Request) : Option (Deployment × Except InvalidRequest Nat) := do
  let s ← d.services[service]?
  let (serial, accepted) := q.accept s.serial ids now
  let d := { d with services := d.services.set service { s with serial } }
  match accepted with
  | .error e => some (d, .error e)
  | .ok draft =>
    some ({ d with creations := d.creations ++ [⟨service, draft, .drafted⟩] },
      .ok d.creations.length)

/-- Has the dice of a draft thrown. The one who throws them may fail, and may also change
the roll in other ways. -/
def throwDice (d : Deployment) (n : Nat) (throw : Roll → Except DiceError Roll) :
    Option Deployment := do
  let c ← d.creations[n]?
  match c.stage with
  | .drafted =>
    match throw c.roll with
    | .error e => some (d.setCreation n { c with stage := .ended (.error e) })
    | .ok roll =>
      let d := d.setCreation n { c with roll, stage := .thrown }
      some (d.tell [.diceRolled roll.id roll.total])
  | _ => none

/-- Tells a roll that has been thrown to the notifier of its service. -/
def tellRoll (d : Deployment) (n : Nat) : Option Deployment := do
  let c ← d.creations[n]?
  let s ← d.services[c.service]?
  match c.stage with
  | .thrown =>
    let (d, notified) := d.notify s.notifier c.roll
    some (d.setCreation n { c with stage := .ofNotified notified })
  | _ => none

/-- Ends a creation once its dispatch is over. -/
def endCreation (d : Deployment) (n : Nat) : Option Deployment := do
  let c ← d.creations[n]?
  match c.stage with
  | .telling dispatch =>
    if d.isConcluded dispatch then
      some (d.setCreation n { c with stage := .ended (.ok ()) })
    else none
  | _ => none

/-- Takes a request as far as it goes without waiting. -/
def createRoll (d : Deployment) (service : Nat) (throw : Roll → Except DiceError Roll)
    (ids : UInt64 → FreshIds) (now : Instant) (q : Request) :
    Option (Deployment × Except InvalidRequest Nat) := do
  let (d, requested) ← d.requestRoll service ids now q
  match requested with
  | .error e => some (d, .error e)
  | .ok n =>
    let d ← d.throwDice n throw
    some ((d.tellRoll n).getD d, .ok n)

/-- Subscribes a viewer through an endpoint under an id of the viewer's own. -/
def subscribeViewer (d : Deployment) (e : Endpoint) (id room : String) (h : Handler) :
    Deployment × Except DiceError Viewer :=
  if room = "" then (d, .error (.invalidRequest .noRoom))
  else
    match d.subscribe e room id h with
    | (d, .error error) => (d, .error (.event error))
    | (d, .ok _) => (d.tell [.viewerSubscribed id], .ok ⟨id, room, e⟩)

def unsubscribeViewer (d : Deployment) (v : Viewer) : Deployment × Except DiceError Unit :=
  match d.unsubscribe v.endpoint v.room v.id with
  | (d, .error e) => (d, .error (.event e))
  | (d, .ok _) => (d, .ok ())

def openSession (d : Deployment) (e : Endpoint) (id room : String) :
    Deployment × Except HubError Session :=
  let feed := d.feeds.length
  let d := { d with feeds := d.feeds ++ [Feed.fresh] }
  match d.subscribe e room id (.feed feed) with
  | (d, .error error) => (d, .error error)
  | (d, .ok _) => (d.tell [.feedOpened room id], .ok ⟨id, room, e, feed⟩)

def dropRows (d : Deployment) (n : Nat) : Deployment :=
  d.adjustFeed n fun f => { f with rows := f.rows.drop }

def dropNotifications (d : Deployment) (n : Nat) : Deployment :=
  d.adjustFeed n fun f => { f with notifications := f.notifications.drop }

/-- Reads what has come in both streams. -/
def readFeed (d : Deployment) (n : Nat) : Deployment × List Row × List String :=
  (d.adjustFeed n Feed.drain,
    ((d.feeds[n]?.map (·.rows.unread)).getD []),
    ((d.feeds[n]?.map (·.notifications.unread)).getD []))

/-- The streams end with the session, even if it cannot be unsubscribed. -/
def closeSession (d : Deployment) (s : Session) : Deployment × Except HubError Unit :=
  let d := d.adjustFeed s.feed Feed.drop
  match d.unsubscribe s.endpoint s.room s.id with
  | (d, .error e) => (d, .error e)
  | (d, .ok _) => (d.tell [.feedClosed s.room s.id], .ok ())

end Deployment

end DiceRooms
