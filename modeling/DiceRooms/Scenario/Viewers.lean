import DiceRooms.Scenario.Play

/-!
Steps of the people in a room: services that take requests for rolls, viewers who
subscribe through a service, and feeds.
-/
namespace DiceRooms.Scenario

namespace Play

def newService (p : Play) (name notifier subscriber : String) (roller : Roller) : Play :=
  let (deployment, n) :=
    p.deployment.addService (p.endpoint notifier) (p.endpoint subscriber)
  { p with deployment, dealers := p.dealers.put name ⟨n, roller⟩ }

def watch (p : Play) (name service room : String) (plan : Plan) : Play × Answer :=
  match (p.dealers.at? service).bind fun s => p.deployment.services[s.service]? with
  | none => (p, .failed (.hub noSuchHub))
  | some s =>
    let (p, h) := p.handlerOf plan
    let (p, id) := p.freshId ("<sub:" ++ name ++ ">")
    match p.deployment.subscribeViewer s.subscriber id room h with
    | (deployment, .error e) => ({ p with deployment }, .failed (.dice e))
    | (deployment, .ok v) =>
      ({ p with deployment, viewers := p.viewers.put name v }, .opened (p.showId v.id) v.room)

def unwatch (p : Play) (name : String) : Play × Answer :=
  match p.viewers.at? name with
  | none => (p, .ok)
  | some v =>
    let p := { p with viewers := p.viewers.remove name }
    p.via (answerOf .dice) (p.deployment.unsubscribeViewer v)

/-- A name that is given away anew lets go of the streams it stood for. -/
def openFeed (p : Play) (name hub room : String) : Play × Answer :=
  let (p, id) := p.freshId ("<feed:" ++ name ++ ">")
  match p.deployment.openSession (p.endpoint hub) id room with
  | (deployment, .error e) => ({ p with deployment }, .failed (.hub e))
  | (deployment, .ok s) =>
    let deployment := match p.sessions.at? name with
      | some old => (deployment.dropRows old.feed).dropNotifications old.feed
      | none => deployment
    ({ p with deployment, sessions := p.sessions.put name s }, .opened (p.showId s.id) s.room)

/-- The line of a row, with marks in that of a roll that a service made. -/
def rowLine (p : Play) (r : Row) : Bytes :=
  if p.isClockTime r.createdAt then r.lineAs (writeMark r.rollId) (writeMark nowMark) else r.line

def readFeed (p : Play) (name : String) : Play × Answer :=
  match p.sessions.at? name with
  | none => (p, .feed [] [])
  | some s =>
    p.via (fun (rows, notifications) => .feed (rows.map p.rowLine) notifications)
      (p.deployment.readFeed s.feed)

def dropStream (p : Play) (name : String) (which : FeedStream) : Play :=
  match p.sessions.at? name, which with
  | none, _ => p
  | some s, .rows => { p with deployment := p.deployment.dropRows s.feed }
  | some s, .notifications => { p with deployment := p.deployment.dropNotifications s.feed }

def closeFeed (p : Play) (name : String) : Play × Answer :=
  match p.sessions.at? name with
  | none => (p, .ok)
  | some s =>
    let p := { p with sessions := p.sessions.remove name }
    p.via (answerOf .hub) (p.deployment.closeSession s)

end Play

end DiceRooms.Scenario
