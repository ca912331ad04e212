import DiceRooms.Proofs.Deployment.Event

/-!
What each action can come to. Whatever a deployment is like, an action is one of a few events,
or nothing that the core shows.
-/
namespace DiceRooms

namespace Deployment

/-- What is done at the broker without a hub, and the move it is. -/
inductive ByHand : Action → Broker.Move → Prop
  | listen (topic : String) (capacity : Nat) :
      ByHand (.listen topic capacity false) (.subscribe topic capacity)
  | receive (topic : String) (id : Nat) : ByHand (.receive topic id) (.receive topic id)
  | close (id : Nat) : ByHand (.closeChannel id) (.close id)
  | leave (topic : String) (id : Nat) : ByHand (.leave topic id) (.leave topic id)
  | publish (m : Message) : ByHand (.publish m) (.publish m)

/-- An event of a hub that goes to the broker directly: if its loop leaves, it gets there. -/
def Arrives : Event → Prop
  | .turn _ h (.leave arrives) => h.route = .direct → arrives = true
  | _ => True

/-- What an action can come to in the deployment. -/
inductive Causes (d : Deployment) : Action → Event → Prop
  | idle (a : Action) : Causes d a .idle
  | openMemory : Causes d .openMemory (.hub (.memory .empty))
  | openBare : Causes d .openBare (.hub (.bare .empty))
  | openFailing (error : HubError) : Causes d (.openFailing error) (.hub (.failing error))
  | build {c : HubConfig} {route : Route} {token : Token} {channel : Channel}
      (passes : c.check = .ok (route, token, channel)) :
      Causes d (.build c) (.build channel.capacity ⟨c.topic, route, .empty,
        (d.tokens.child token).2, d.exchange.broker.channels.length, .running, true⟩)
  | newToken : Causes d .newToken .token
  | childToken (parent : Token) : Causes d (.childToken parent) .token
  | cancel (t : Token) : Causes d (.cancel t) (.cancel t)
  | dropHub {n : Nat} {h : BrokerHub} (there : d.brokerHub? n = some h) :
      Causes d (.dropHub n) (.cancel h.token)
  | shutdown {n : Nat} {h : BrokerHub} (there : d.brokerHub? n = some h) :
      Causes d (.shutdown n) (.cancel h.token)
  | takeHandle {k : Nat} {s : Shutdown} {h : BrokerHub} (hs : d.shutdowns[k]? = some s)
      (called : s.stage = .called) (there : d.brokerHub? s.hub = some h) :
      Causes d (.takeHandle k) (.detach s.hub h)
  | subscribe (e : Endpoint) (room subscriber : String) (h : Handler) :
      Causes d (.subscribe e room subscriber h) (.register e.hub room subscriber h)
  | subscribeViewer (e : Endpoint) (id room : String) (h : Handler) :
      Causes d (.subscribeViewer e id room h) (.register e.hub room id h)
  | openSession (e : Endpoint) (id room : String) :
      Causes d (.openSession e id room) (.register e.hub room id (.feed d.feeds.length))
  | unsubscribe (e : Endpoint) (room subscriber : String) :
      Causes d (.unsubscribe e room subscriber) (.unregister e.hub room subscriber)
  | unsubscribeViewer (v : Viewer) :
      Causes d (.unsubscribeViewer v) (.unregister v.endpoint.hub v.room v.id)
  | closeSession (s : Session) :
      Causes d (.closeSession s) (.unregister s.endpoint.hub s.room s.id)
  | byHand {a : Action} {move : Broker.Move} (byHand : ByHand a move) : Causes d a (.broker move)
  | announce (e : Endpoint) (h : BrokerHub) (r : Roll) :
      Causes d (.notify e r) (.announce e.hub h r)
  | tell (e : Endpoint) (registry : Registry Handler) (r : Roll) :
      Causes d (.notify e r) (.tell e registry r)
  | announceRoll (k n : Nat) (h : BrokerHub) (r : Roll) : Causes d (.tellRoll k) (.announce n h r)
  | tellRoll (k : Nat) (e : Endpoint) (registry : Registry Handler) (r : Roll) :
      Causes d (.tellRoll k) (.tell e registry r)
  | start (n i : Nat) : Causes d (.start n i) (.proceed n i .waiting .running)
  | finish (n i : Nat) (said o : Outcome) :
      Causes d (.finish n i said) (.proceed n i .running (.ended o))
  | conclude (n : Nat) (p : Dispatch) : Causes d (.conclude n) (.conclude n p)
  | turn {n : Nat} {h : BrokerHub} {t : Turn} (arrives : Arrives (.turn n h t)) :
      Causes d (.turn n) (.turn n h t)

theorem causes_notifyEvent (d : Deployment) (e : Endpoint) (r : Roll) :
    Causes d (.notify e r) (d.notifyEvent e r) := by
  rw [notifyEvent]
  split
  · split
    · exact .idle _
    · exact .announce e _ r
  · exact .tell e _ r
  · exact .tell e _ r
  · exact .idle _
  · exact .idle _

theorem causes_tellRollEvent (d : Deployment) (k : Nat) :
    Causes d (.tellRoll k) (d.tellRollEvent k) := by
  rw [tellRollEvent]
  cases d.creations[k]? with
  | none => exact .idle _
  | some c =>
      cases hs : d.services[c.service]? with
      | none => simpa [hs] using .idle _
      | some s =>
          have causes := d.causes_notifyEvent s.notifier c.roll
          simp only [Option.bind_eq_bind, Option.bind_some, hs, Option.getD_some]
          generalize d.notifyEvent s.notifier c.roll = e at causes ⊢
          cases causes with
          | idle => exact .idle _
          | announce _ h _ => exact .announceRoll k _ h _
          | tell _ registry _ => exact .tellRoll k _ registry _
          | byHand byHand => cases byHand

theorem causes_turnEvent (d : Deployment) (n : Nat) : Causes d (.turn n) (d.turnEvent n) := by
  rw [turnEvent]
  cases d.brokerHub? n with
  | none => exact .idle _
  | some h =>
      dsimp only
      cases h.phase with
      | running =>
          refine .turn ?_
          rw [runningTurn]
          repeat' split
          all_goals trivial
      | draining => exact .turn trivial
      | closed =>
          refine .turn fun hroute => ?_
          rw [hroute]
          rfl
      | dispatching _ | stopped => exact .idle _

theorem causes_takeHandleEvent (d : Deployment) (k : Nat) :
    Causes d (.takeHandle k) (d.takeHandleEvent k) := by
  rw [takeHandleEvent]
  cases hs : d.shutdowns[k]? with
  | none => exact .idle _
  | some s =>
      cases there : d.brokerHub? s.hub with
      | none => simpa [there] using .idle _
      | some h =>
          simp only [Option.bind_eq_bind, Option.bind_some, there]
          split
          · next called => exact .takeHandle hs called there
          · exact .idle _

/-- An action comes to what it can come to. -/
theorem causes_event (d : Deployment) (a : Action) : Causes d a (d.event a) := by
  cases a with
  | openMemory => exact .openMemory
  | openBare => exact .openBare
  | openFailing error => exact .openFailing error
  | build c =>
      rw [event, buildEvent]
      cases hcheck : c.check with
      | error e => exact .idle _
      | ok checked =>
          dsimp only
          split
          · exact .idle _
          · exact .build hcheck
  | newToken => exact .newToken
  | childToken parent => exact .childToken parent
  | cancel t => exact .cancel t
  | subscribe e room subscriber h => exact .subscribe e room subscriber h
  | unsubscribe e room subscriber => exact .unsubscribe e room subscriber
  | notify e r => exact d.causes_notifyEvent e r
  | start n i => exact .start n i
  | finish n i said => exact .finish n i said _
  | conclude n =>
      rw [event]
      cases d.dispatches[n]? with
      | none => exact .idle _
      | some p => exact .conclude n p
  | turn n => exact d.causes_turnEvent n
  | shutdown n =>
      rw [event]
      cases hn : d.brokerHub? n with
      | none => exact .idle _
      | some h => exact .shutdown hn
  | dropHub n =>
      rw [event]
      cases hn : d.brokerHub? n with
      | none => exact .idle _
      | some h => exact .dropHub hn
  | takeHandle k => exact d.causes_takeHandleEvent k
  | listen topic capacity closed =>
      rw [event]
      split
      · next hlistens =>
          rw [Bool.and_eq_true, Bool.not_eq_true'] at hlistens
          obtain ⟨-, rfl⟩ := hlistens
          exact .byHand (.listen topic capacity)
      · exact .idle _
  | receive topic id => exact .byHand (.receive topic id)
  | closeChannel id => exact .byHand (.close id)
  | leave topic id => exact .byHand (.leave topic id)
  | publish m => exact .byHand (.publish m)
  | tellRoll k => exact d.causes_tellRollEvent k
  | subscribeViewer e id room h =>
      rw [event]
      split
      · exact .idle _
      · exact .subscribeViewer e id room h
  | unsubscribeViewer v => exact .unsubscribeViewer v
  | openSession e id room => exact .openSession e id room
  | closeSession s => exact .closeSession s
  | setFaults _ _ _ | addService _ _ | requestRoll _ _ _ _ | throwDice _ _ | endCreation _
  | endShutdown _ | abandonShutdown _ | dropRows _ | dropNotifications _ | readFeed _ =>
      exact .idle _

theorem arrives_event (d : Deployment) (a : Action) : Arrives (d.event a) := by
  have causes := d.causes_event a
  generalize d.event a = e at causes ⊢
  cases causes with
  | turn arrives => exact arrives
  | _ => trivial

section
variable {d : Deployment} {a : Action}

theorem byHand_of_event {move : Broker.Move} (h : d.event a = .broker move) : ByHand a move := by
  have causes := d.causes_event a
  rw [h] at causes
  cases causes with
  | byHand byHand => exact byHand

theorem event_eq_detach {n : Nat} {hub : BrokerHub} (h : d.event a = .detach n hub) :
    d.brokerHub? n = some hub ∧
      ∃ k, a = .takeHandle k ∧ d.shutdowns[k]? = some ⟨n, .called⟩ := by
  have causes := d.causes_event a
  rw [h] at causes
  cases causes with
  | @takeHandle k s _ hs called there =>
      obtain ⟨n, stage⟩ := s
      cases called
      exact ⟨there, k, rfl, hs⟩

theorem of_event_eq_build {capacity : Nat} {hub : BrokerHub}
    (h : d.event a = .build capacity hub) : hub.joinable = true ∧ ∃ c, a = .build c := by
  have causes := d.causes_event a
  rw [h] at causes
  cases causes with
  | build _ => exact ⟨rfl, _, rfl⟩

end

end Deployment

end DiceRooms
