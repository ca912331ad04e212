import DiceRooms.Scenario.Play

/-!
Steps on hubs by name: making them, subscribing to them and asking what they hold.
-/
namespace DiceRooms.Scenario

namespace Play

def bindHub (p : Play) (name : String) (e : Endpoint) : Play :=
  { p with hubs := p.hubs.put name e }

def addHub (p : Play) (name : String) (h : Hub) : Play :=
  let (deployment, n) := p.deployment.addHub h
  { p with deployment }.bindHub name ⟨n, []⟩

/-- A token exists from its first mention on. -/
def tokenOf (p : Play) (name : String) : Play × Token :=
  match p.tokens.at? name with
  | some t => (p, t)
  | none =>
    let (deployment, t) := p.deployment.newToken
    ({ p with deployment, tokens := p.tokens.put name t }, t)

def tokenOf? (p : Play) : Option String → Play × Option Token
  | none => (p, none)
  | some name =>
    let (p, t) := p.tokenOf name
    (p, some t)

def newBroker (p : Play) (name : String) (route : Option Route) (token : Option String)
    (topic : Option String) (capacity : Option Nat) : Play × Answer :=
  let (p, token) := p.tokenOf? token
  let config : HubConfig :=
    ⟨route, token, topic.getD HubConfig.default.topic, capacity.getD HubConfig.default.capacity⟩
  match p.deployment.buildHub config with
  | (deployment, .error e) => ({ p with deployment }, .failed (.build e))
  | (deployment, .ok n) =>
    (({ p with deployment }.bindHub name ⟨n, []⟩).spawn none (.loop n), .ok)

/-- Puts one more layer around an endpoint. -/
def measureHub (p : Play) (name inner kind : String) : Play :=
  let e := p.endpoint inner
  p.bindHub name { e with layers := e.layers ++ [kind] }

/-- The answer to a change of registrations, which only a bare registry tells more of. -/
def changeAnswer (bare : Bool) (told : Bool → Answer) : Except HubError Bool → Answer
  | .error e => .failed (.hub e)
  | .ok b => if bare then told b else .ok

def subscribe (p : Play) (hub room subscriber : String) (plan : Plan) : Play × Answer :=
  let e := p.endpoint hub
  let (p, h) := p.handlerOf plan
  p.via (changeAnswer (p.isBare e) .replaced) (p.deployment.subscribe e room subscriber h)

def unsubscribe (p : Play) (hub room subscriber : String) : Play × Answer :=
  let e := p.endpoint hub
  p.via (changeAnswer (p.isBare e) .removed) (p.deployment.unsubscribe e room subscriber)

def subscriberCount (p : Play) (hub room : String) : Nat :=
  p.deployment.subscriberCount (p.endpoint hub).hub room

def roomCount (p : Play) (hub : String) : Nat :=
  ((p.deployment.registry? (p.endpoint hub).hub).map (·.roomCount)).getD 0

def snapshot (p : Play) (hub room : String) : List (String × String) :=
  match p.deployment.registry? (p.endpoint hub).hub with
  | none => []
  | some r =>
    ((r.snapshot room).map fun (s, h) => (p.showId s, h.name)).mergeSort fun a b =>
      a.1 < b.1 || (a.1 == b.1 && a.2 ≤ b.2)

def topicOf (p : Play) (hub : String) : String :=
  ((p.deployment.brokerHub? (p.endpoint hub).hub).map (·.topic)).getD ""

def isRunning (p : Play) (hub : String) : Bool :=
  p.deployment.isRunning (p.endpoint hub).hub

/-- Forgets a hub and answers whether it was known. -/
def forgetHub (p : Play) (hub : String) : Play × Answer :=
  ({ p with hubs := p.hubs.remove hub }, .flag (p.hubs.at? hub).isSome)

def cancel (p : Play) (token : String) : Play :=
  let (p, t) := p.tokenOf token
  { p with deployment := p.deployment.cancel t }

def askToken (p : Play) (token : String) : Play × Answer :=
  let (p, t) := p.tokenOf token
  (p, .flag (p.deployment.tokens.isCancelled t))

/-- The measurements that have not been answered yet. -/
def takeMeasurements (p : Play) : Play × Answer :=
  let ms := p.deployment.measurements
  ({ p with measured := ms.length }, .measurements (ms.drop p.measured))

end Play

end DiceRooms.Scenario
