import DiceRooms.Proofs.Deployment.Conduct
import DiceRooms.Proofs.Deployment.Notifications

/-!
Deployments stripped of all layers that measure. What is done through layers and what is
done without them goes the same way: every action is possible with the layers exactly if it
is without them, and stripping what it leads to gives what the stripped action leads to.
-/
namespace DiceRooms

/-- The hub itself. -/
def Endpoint.bare (e : Endpoint) : Endpoint := ⟨e.hub, []⟩

def Owner.bare : Owner → Owner
  | caller e => .caller e.bare
  | receiver n => .receiver n

def Dispatch.bare (p : Dispatch) : Dispatch := { p with owner := p.owner.bare }

def Service.bare (s : Service) : Service :=
  { s with notifier := s.notifier.bare, subscriber := s.subscriber.bare }

def Viewer.bare (v : Viewer) : Viewer := { v with endpoint := v.endpoint.bare }

def Session.bare (s : Session) : Session := { s with endpoint := s.endpoint.bare }

def Action.bare : Action → Action
  | subscribe e room subscriber h => .subscribe e.bare room subscriber h
  | unsubscribe e room subscriber => .unsubscribe e.bare room subscriber
  | notify e r => .notify e.bare r
  | addService notifier subscriber => .addService notifier.bare subscriber.bare
  | subscribeViewer e id room h => .subscribeViewer e.bare id room h
  | unsubscribeViewer v => .unsubscribeViewer v.bare
  | openSession e id room => .openSession e.bare id room
  | closeSession s => .closeSession s.bare
  | a => a

def Event.bare : Event → Event
  | tell e registry r => .tell e.bare registry r
  | conclude n p => .conclude n p.bare
  | e => e

namespace Deployment

/-- Nothing is measured, and nobody is left who would. All else is as it is. -/
def bare (d : Deployment) : Deployment :=
  { d with
    dispatches := d.dispatches.map Dispatch.bare
    services := d.services.map Service.bare
    measurements := [] }

variable (d : Deployment)

theorem bare_empty : empty.bare = empty := by
  simp only [bare, empty, List.map_toArray, List.map_nil]

/-! What each change to a deployment does to the stripped one. -/

@[simp] theorem bare_hubs : d.bare.hubs = d.hubs := rfl

@[simp] theorem bare_exchange : d.bare.exchange = d.exchange := rfl

@[simp] theorem bare_tokens : d.bare.tokens = d.tokens := rfl

@[simp] theorem bare_brokerHub? (n : Nat) : d.bare.brokerHub? n = d.brokerHub? n := rfl

@[simp] theorem bare_dispatch (n : Nat) :
    d.bare.dispatches[n]? = d.dispatches[n]?.map Dispatch.bare :=
  Array.getElem?_map

@[simp] theorem bare_service (n : Nat) : d.bare.services[n]? = d.services[n]?.map Service.bare :=
  List.getElem?_map

@[simp] theorem bare_size : d.bare.dispatches.size = d.dispatches.size := Array.size_map

theorem bare_tell (ns : List Notice) : d.bare.tell ns = (d.tell ns).bare := rfl

theorem bare_setBroker (b : Broker) : d.bare.setBroker b = (d.setBroker b).bare := rfl

theorem bare_setPhase (n : Nat) (phase : Phase) :
    d.bare.setPhase n phase = (d.setPhase n phase).bare := by
  rw [setPhase, setPhase, bare_brokerHub?]
  split <;> rfl

theorem bare_setDispatch (n : Nat) (p : Dispatch) :
    d.bare.setDispatch n p.bare = (d.setDispatch n p).bare := by
  simp only [setDispatch, bare, Array.map_setIfInBounds]

theorem bare_viaExchange {α : Type} (r : Exchange × List Notice × α) :
    d.bare.viaExchange r = ((d.viaExchange r).1.bare, (d.viaExchange r).2) := rfl

theorem bare_openDispatch (owner : Owner) (registry : Registry Handler) (r : Roll) :
    d.bare.openDispatch owner.bare registry r =
      ((d.openDispatch owner registry r).1.bare, (d.openDispatch owner registry r).2) := by
  simp only [openDispatch, bare, tell, Array.map_push, Array.size_map, Dispatch.bare]

/-! The operations of hubs, with their answers. -/

theorem bare_changeRegistry (e : Endpoint) (op : Operation)
    (change : Registry Handler → Registry Handler × Bool) (notice : Bool → Notice) :
    d.bare.changeRegistry e.bare op change notice =
      ((d.changeRegistry e op change notice).1.bare,
        (d.changeRegistry e op change notice).2) := by
  simp only [changeRegistry, bare_hubs, Endpoint.bare]
  cases d.hubs[e.hub]? with
  | none => rfl
  | some hub =>
      dsimp only
      cases hub.registry with
      | error error => rfl
      | ok r => dsimp only; split <;> rfl

theorem bare_publish (b : BrokerHub) (r : Roll) :
    d.bare.publish b r = ((d.publish b r).1.bare, (d.publish b r).2) := by
  simp only [publish, viaExchange, bare_exchange]
  rcases d.exchange.publish b.route ⟨b.topic, Wire.encode r⟩ with ⟨x, ns, answer⟩
  cases answer <;> rfl

theorem bare_notify (e : Endpoint) (r : Roll) :
    d.bare.notify e.bare r = ((d.notify e r).1.bare, (d.notify e r).2) := by
  simp only [notify, bare_hubs, Endpoint.bare]
  cases d.hubs[e.hub]? with
  | none => rfl
  | some hub =>
      cases hub with
      | failing error => rfl
      | broker b => simp only [bare_publish]; rfl
      | memory registry | bare registry =>
          exact congrArg (fun x : Deployment × Nat => (x.1, Notified.dispatched x.2))
            (d.bare_openDispatch (.caller e) registry r)

/-! The actions, one after the other. -/

theorem bare_buildHub (c : HubConfig) :
    d.bare.buildHub c = ((d.buildHub c).1.bare, (d.buildHub c).2) := by
  simp only [buildHub, viaExchange, bare_exchange]
  cases c.check with
  | error e => rfl
  | ok checked =>
      obtain ⟨route, token, channel⟩ := checked
      dsimp only
      rcases d.exchange.subscribe route c.topic channel with ⟨x, ns, answer⟩
      cases answer <;> rfl

theorem bare_adjustFeedOf (h : Handler) (f : Feed → Feed) :
    d.bare.adjustFeedOf h f = (d.adjustFeedOf h f).bare := by
  cases h <;> rfl

theorem bare_outcomeOf (c : HandlerCall) (said : Outcome) (h : Handler) :
    d.bare.outcomeOf c said h = d.outcomeOf c said h := by
  cases h <;> rfl

theorem bare_startInvocation (n i : Nat) :
    d.bare.startInvocation n i = (d.startInvocation n i).map bare := by
  simp only [startInvocation, bare_dispatch, Option.bind_eq_bind]
  cases d.dispatches[n]? with
  | none => rfl
  | some p =>
      dsimp only [Option.map_some, Option.bind_some, Dispatch.bare]
      cases p.broadcast[i]? with
      | none => rfl
      | some inv =>
          dsimp only [Option.bind_some]
          cases p.broadcast.start i with
          | none => rfl
          | some b =>
              have hset := d.bare_setDispatch n { p with broadcast := b }
              dsimp only [Option.map_some, Option.bind_some]
              rw [← bare_adjustFeedOf, ← hset]
              rfl

theorem bare_finishInvocation (n i : Nat) (said : Outcome) :
    d.bare.finishInvocation n i said = (d.finishInvocation n i said).map bare := by
  simp only [finishInvocation, bare_dispatch, bare_outcomeOf, Option.bind_eq_bind]
  cases d.dispatches[n]? with
  | none => rfl
  | some p =>
      dsimp only [Option.map_some, Option.bind_some, Dispatch.bare]
      cases p.broadcast[i]? with
      | none => rfl
      | some inv =>
          dsimp only [Option.bind_some]
          cases p.broadcast.finish i (d.outcomeOf ⟨n, i⟩ said inv.handler) with
          | none => rfl
          | some b =>
              have hset := d.bare_setDispatch n { p with broadcast := b }
              dsimp only [Option.map_some, Option.bind_some]
              rw [← bare_adjustFeedOf, ← hset]
              rfl

theorem bare_settle (p : Dispatch) : d.bare.settle p.bare = (d.settle p).bare := by
  obtain ⟨owner, roll, broadcast, concluded⟩ := p
  cases owner with
  | caller e =>
      simp only [settle, Dispatch.bare, Owner.bare, Endpoint.bare, bare_hubs]
      split <;> rfl
  | receiver n =>
      simp only [settle, Dispatch.bare, Owner.bare, bare_tell]
      by_cases h : 0 < broadcast.report.failed <;> simp only [h, if_true, if_false, bare_setPhase]

theorem bare_conclude (n : Nat) : d.bare.conclude n = (d.conclude n).map bare := by
  simp only [conclude, bare_dispatch, Option.bind_eq_bind]
  cases d.dispatches[n]? with
  | none => rfl
  | some p =>
      dsimp only [Option.map_some, Option.bind_some]
      show (if (p.broadcast.isOver && !p.concluded) = true then _ else _) = _
      split
      · have hset := d.bare_setDispatch n { p with concluded := true }
        have hsettle := ((d.setDispatch n { p with concluded := true }).tell
          (failureNotices p)).bare_settle p
        rw [Option.map_some, ← hsettle, ← bare_tell, ← hset]
        rfl
      · rfl

theorem bare_takeMessage (n : Nat) (h : BrokerHub) :
    d.bare.takeMessage n h = (d.takeMessage n h).map bare := by
  simp only [takeMessage, bare_exchange, bare_setBroker, bare_tell]
  generalize d.setBroker (d.exchange.broker.receive h.topic h.subscription).1 = d₁
  cases (d.exchange.broker.receive h.topic h.subscription).2 with
  | empty => rfl
  | closed => exact congrArg some (bare_setPhase _ n .draining)
  | message m =>
      dsimp only
      cases Wire.decode m.payload with
      | error e => rfl
      | ok r =>
          have hopen := (d₁.tell [.received r.room r.id]).bare_openDispatch (.receiver n)
            h.registry r
          simp only [Owner.bare] at hopen
          simp only [hopen, bare_setPhase, Option.map_some]

theorem bare_leaveBroker (n : Nat) (h : BrokerHub) :
    d.bare.leaveBroker n h = (d.leaveBroker n h).bare := by
  simp only [leaveBroker, bare_exchange, bare_viaExchange]
  cases (d.viaExchange (d.exchange.unsubscribe h.route h.topic h.subscription)).2 with
  | ok _ => simp only [bare_setPhase, bare_tell]
  | error e => simp only [bare_setPhase, bare_tell]

theorem bare_turn (n : Nat) : d.bare.turn n = (d.turn n).map bare := by
  simp only [turn, bare_brokerHub?, bare_tokens, bare_exchange]
  cases d.brokerHub? n with
  | none => rfl
  | some h =>
      dsimp only
      cases h.phase with
      | running =>
          simp only [bare_tell, bare_setPhase, bare_takeMessage]
          rw [apply_ite (Option.map bare)]
          rfl
      | dispatching _ | stopped => rfl
      | draining => simp only [bare_setBroker, bare_setPhase, Option.map_some]
      | closed => exact congrArg some (d.bare_leaveBroker n h)

theorem bare_shutdown (n : Nat) : d.bare.shutdown n = (d.shutdown n).bare := by
  simp only [shutdown, bare_brokerHub?]
  cases d.brokerHub? n <;> rfl

theorem bare_shutdowns : d.bare.shutdowns = d.shutdowns := rfl

theorem bare_takeHandle (k : Nat) : d.bare.takeHandle k = (d.takeHandle k).map bare := by
  simp only [takeHandle, bare_shutdowns, bare_brokerHub?, Option.bind_eq_bind]
  cases d.shutdowns[k]? with
  | none => rfl
  | some s =>
      dsimp only [Option.bind_some]
      cases d.brokerHub? s.hub with
      | none => rfl
      | some h => dsimp only [Option.bind_some]; split <;> rfl

theorem bare_isStopped (n : Nat) : d.bare.isStopped n = d.isStopped n := by
  rw [isStopped, bare_brokerHub?, isStopped]

theorem bare_endShutdown (k : Nat) : d.bare.endShutdown k = (d.endShutdown k).map bare := by
  simp only [endShutdown, bare_shutdowns, bare_isStopped, Option.bind_eq_bind]
  cases d.shutdowns[k]? with
  | none => rfl
  | some s => dsimp only [Option.bind_some]; split <;> rfl

theorem bare_abandonShutdown (k : Nat) :
    d.bare.abandonShutdown k = (d.abandonShutdown k).map bare := by
  simp only [abandonShutdown, bare_shutdowns, Option.bind_eq_bind]
  cases d.shutdowns[k]? with
  | none => rfl
  | some s => dsimp only [Option.bind_some]; split <;> rfl

theorem bare_dropHub (n : Nat) : d.bare.dropHub n = (d.dropHub n).bare := by
  simp only [dropHub, bare_brokerHub?]
  cases d.brokerHub? n <;> rfl

theorem bare_listen (topic : String) (capacity : Nat) (closed : Bool) :
    d.bare.listen topic capacity closed =
      ((d.listen topic capacity closed).1.bare, (d.listen topic capacity closed).2) := by
  simp only [listen, viaExchange, bare_exchange]
  cases Channel.ofCapacity? capacity with
  | error fault => rfl
  | ok c =>
      dsimp only
      rcases d.exchange.subscribe .direct topic (if closed then c.close else c) with ⟨x, ns, answer⟩
      cases answer <;> rfl

theorem bare_requestRoll (service : Nat) (ids : UInt64 → FreshIds) (now : Instant)
    (q : Request) :
    d.bare.requestRoll service ids now q =
      (d.requestRoll service ids now q).map fun x => (x.1.bare, x.2) := by
  simp only [requestRoll, bare_service, Option.bind_eq_bind]
  cases d.services[service]? with
  | none => rfl
  | some s =>
      dsimp only [Option.map_some, Option.bind_some, Service.bare]
      cases (q.accept s.serial ids now).2 with
      | error e => simp only [bare, List.map_set, Option.map_some, Service.bare]
      | ok draft => simp only [bare, List.map_set, Option.map_some, Service.bare]

theorem bare_throwDice (n : Nat) (throw : Roll → Except DiceError Roll) :
    d.bare.throwDice n throw = (d.throwDice n throw).map bare := by
  show (d.creations[n]?.bind _) = (d.creations[n]?.bind _).map bare
  cases d.creations[n]? with
  | none => rfl
  | some c =>
      dsimp only [Option.bind_some]
      cases c.stage with
      | drafted => dsimp only; cases throw c.roll <;> rfl
      | thrown | telling _ | ended _ => rfl

theorem bare_tellRoll (n : Nat) : d.bare.tellRoll n = (d.tellRoll n).map bare := by
  simp only [tellRoll, bare_service, Option.bind_eq_bind]
  show (d.creations[n]?.bind _) = (d.creations[n]?.bind _).map bare
  cases d.creations[n]? with
  | none => rfl
  | some c =>
      dsimp only [Option.bind_some]
      cases d.services[c.service]? with
      | none => rfl
      | some s =>
          dsimp only [Option.map_some, Option.bind_some, Service.bare]
          cases c.stage with
          | thrown => dsimp only; rw [bare_notify]; rfl
          | drafted | telling _ | ended _ => rfl

theorem bare_isConcluded (n : Nat) : d.bare.isConcluded n = d.isConcluded n := by
  simp only [isConcluded, bare_dispatch]
  cases d.dispatches[n]? <;> rfl

theorem bare_endCreation (n : Nat) : d.bare.endCreation n = (d.endCreation n).map bare := by
  show (d.creations[n]?.bind _) = (d.creations[n]?.bind _).map bare
  cases d.creations[n]? with
  | none => rfl
  | some c =>
      dsimp only [Option.bind_some]
      cases c.stage with
      | telling dispatch => dsimp only; rw [bare_isConcluded]; split <;> rfl
      | drafted | thrown | ended _ => rfl

theorem bare_subscribeViewer (e : Endpoint) (id room : String) (h : Handler) :
    (d.bare.subscribeViewer e.bare id room h).1 = (d.subscribeViewer e id room h).1.bare := by
  simp only [subscribeViewer, subscribe, bare_changeRegistry]
  split
  · rfl
  · rcases d.changeRegistry e .subscribe (·.set room id h) (.handlerSet room id) with
      ⟨d₁, answer⟩
    cases answer <;> rfl

theorem bare_unsubscribeViewer (v : Viewer) :
    (d.bare.unsubscribeViewer v.bare).1 = (d.unsubscribeViewer v).1.bare := by
  simp only [unsubscribeViewer, Viewer.bare, unsubscribe, bare_changeRegistry]
  rcases d.changeRegistry v.endpoint .unsubscribe (·.delete v.room v.id)
    (.handlerDeleted v.room v.id) with ⟨d₁, answer⟩
  cases answer <;> rfl

theorem bare_withFeeds (feeds : List Feed) :
    ({ d.bare with feeds } : Deployment) = ({ d with feeds } : Deployment).bare := rfl

theorem bare_openSession (e : Endpoint) (id room : String) :
    (d.bare.openSession e.bare id room).1 = (d.openSession e id room).1.bare := by
  have hfeeds : d.bare.feeds = d.feeds := rfl
  simp only [openSession, subscribe, hfeeds, bare_withFeeds, bare_changeRegistry]
  generalize ({ d with feeds := d.feeds ++ [Feed.fresh] } : Deployment) = d₀
  rcases d₀.changeRegistry e .subscribe (·.set room id (.feed d.feeds.length))
    (.handlerSet room id) with ⟨d₁, answer⟩
  cases answer <;> rfl

theorem bare_closeSession (s : DiceRooms.Session) :
    (d.bare.closeSession s.bare).1 = (d.closeSession s).1.bare := by
  have hadjust : d.bare.adjustFeed s.feed Feed.drop = (d.adjustFeed s.feed Feed.drop).bare := rfl
  simp only [closeSession, Session.bare, unsubscribe, hadjust, bare_changeRegistry]
  generalize d.adjustFeed s.feed Feed.drop = d₀
  rcases d₀.changeRegistry s.endpoint .unsubscribe (·.delete s.room s.id)
    (.handlerDeleted s.room s.id) with ⟨d₁, answer⟩
  cases answer <;> rfl

theorem bare_addService (notifier subscriber : Endpoint) :
    (d.bare.addService notifier.bare subscriber.bare).1 =
      (d.addService notifier subscriber).1.bare := by
  simp only [addService, bare, List.map_append, List.map_singleton, Service.bare]

/-- The stripped action makes of the stripped deployment what the action makes of it. -/
theorem bare_perform (a : Action) : d.bare.perform a.bare = (d.perform a).map bare := by
  cases a with
  | build c => exact congrArg (some ·.1) (d.bare_buildHub c)
  | subscribe e room subscriber h =>
      exact congrArg (some ·.1) (d.bare_changeRegistry e .subscribe _ _)
  | unsubscribe e room subscriber =>
      exact congrArg (some ·.1) (d.bare_changeRegistry e .unsubscribe _ _)
  | notify e r => exact congrArg (some ·.1) (d.bare_notify e r)
  | start n i => exact d.bare_startInvocation n i
  | finish n i o => exact d.bare_finishInvocation n i o
  | conclude n => exact d.bare_conclude n
  | turn n => exact d.bare_turn n
  | shutdown n => exact congrArg some (d.bare_shutdown n)
  | takeHandle k => exact d.bare_takeHandle k
  | endShutdown k => exact d.bare_endShutdown k
  | abandonShutdown k => exact d.bare_abandonShutdown k
  | dropHub n => exact congrArg some (d.bare_dropHub n)
  | listen topic capacity closed => exact congrArg (some ·.1) (d.bare_listen topic capacity closed)
  | addService notifier subscriber => exact congrArg some (d.bare_addService notifier subscriber)
  | requestRoll service ids now q =>
      show (d.bare.requestRoll service ids now q).map (·.1) =
        ((d.requestRoll service ids now q).map (·.1)).map bare
      rw [bare_requestRoll, Option.map_map, Option.map_map]
      rfl
  | throwDice n throw => exact d.bare_throwDice n throw
  | tellRoll n => exact d.bare_tellRoll n
  | endCreation n => exact d.bare_endCreation n
  | subscribeViewer e id room h => exact congrArg some (d.bare_subscribeViewer e id room h)
  | unsubscribeViewer v => exact congrArg some (d.bare_unsubscribeViewer v)
  | openSession e id room => exact congrArg some (d.bare_openSession e id room)
  | closeSession s => exact congrArg some (d.bare_closeSession s)
  | openMemory | openBare | openFailing _ | newToken | childToken _ | cancel _ | receive _ _
  | closeChannel _ | leave _ _ | publish _ | setFaults _ _ _ | dropRows _ | dropNotifications _
  | readFeed _ => rfl

/-! Their events. -/

theorem bare_buildEvent (c : HubConfig) : d.bare.buildEvent c = (d.buildEvent c).bare := by
  simp only [buildEvent, bare_exchange, bare_tokens]
  cases c.check with
  | error e => rfl
  | ok checked =>
      dsimp only
      rw [apply_ite Event.bare]
      rfl

theorem bare_notifyEvent (e : Endpoint) (r : Roll) :
    d.bare.notifyEvent e.bare r = (d.notifyEvent e r).bare := by
  simp only [notifyEvent, bare_hubs, bare_exchange, Endpoint.bare]
  cases d.hubs[e.hub]? with
  | none => rfl
  | some hub =>
      cases hub with
      | broker b => dsimp only; rw [apply_ite Event.bare]; rfl
      | memory _ | bare _ | failing _ => rfl

theorem bare_tellRollEvent (n : Nat) : d.bare.tellRollEvent n = (d.tellRollEvent n).bare := by
  simp only [tellRollEvent, bare_service, Option.bind_eq_bind]
  show (d.creations[n]?.bind _).getD Event.idle =
    ((d.creations[n]?.bind _).getD Event.idle).bare
  cases d.creations[n]? with
  | none => rfl
  | some c =>
      dsimp only [Option.bind_some]
      cases d.services[c.service]? with
      | none => rfl
      | some s => exact d.bare_notifyEvent s.notifier c.roll

theorem bare_outcomeAt (n i : Nat) (said : Outcome) :
    d.bare.outcomeAt n i said = d.outcomeAt n i said := by
  simp only [outcomeAt, bare_dispatch, bare_outcomeOf, Option.bind_eq_bind]
  cases d.dispatches[n]? <;> rfl

theorem bare_turnEvent (n : Nat) : d.bare.turnEvent n = (d.turnEvent n).bare := by
  simp only [turnEvent, bare_brokerHub?, runningTurn, bare_tokens, bare_exchange, bare_size]
  cases d.brokerHub? n with
  | none => rfl
  | some h => dsimp only; cases h.phase <;> rfl

theorem bare_takeHandleEvent (k : Nat) :
    d.bare.takeHandleEvent k = (d.takeHandleEvent k).bare := by
  simp only [takeHandleEvent, bare_shutdowns, bare_brokerHub?, Option.bind_eq_bind]
  cases d.shutdowns[k]? with
  | none => rfl
  | some s =>
      dsimp only [Option.bind_some]
      cases d.brokerHub? s.hub with
      | none => rfl
      | some h => dsimp only [Option.bind_some]; split <;> rfl

theorem bare_event (a : Action) : d.bare.event a.bare = (d.event a).bare := by
  cases a with
  | build c => exact d.bare_buildEvent c
  | notify e r => exact d.bare_notifyEvent e r
  | finish n i said =>
      exact congrArg (fun o => Event.proceed n i .running (.ended o)) (d.bare_outcomeAt n i said)
  | conclude n =>
      simp only [event, Action.bare, bare_dispatch]
      cases d.dispatches[n]? <;> rfl
  | turn n => exact d.bare_turnEvent n
  | shutdown n | dropHub n =>
      simp only [event, Action.bare, bare_brokerHub?]
      cases d.brokerHub? n <;> rfl
  | takeHandle k => exact d.bare_takeHandleEvent k
  | listen topic capacity closed =>
      simp only [event, Action.bare]
      split <;> rfl
  | tellRoll n => exact d.bare_tellRollEvent n
  | subscribeViewer e id room h =>
      simp only [event, Action.bare]
      split <;> rfl
  | _ => rfl

end Deployment

theorem Event.bare_move (e : Event) : e.bare.move = e.move := by
  cases e <;> rfl

/-! Whole runs. -/

namespace Deployment

variable {d d' : Deployment} {as : List Action}

/-- The bare hubs go through the same runs. -/
theorem bare_run_iff {d₁ : Deployment} :
    Run d.bare (as.map Action.bare) d₁ ↔ ∃ d', Run d as d' ∧ d'.bare = d₁ := by
  induction as generalizing d d₁ with
  | nil =>
      constructor
      · rintro ⟨⟩
        exact ⟨d, .nil d, rfl⟩
      · rintro ⟨_, ⟨⟩, rfl⟩
        exact .nil _
  | cons a as ih =>
      constructor
      · rintro (_ | ⟨step, rest⟩)
        rw [bare_perform, Option.map_eq_some_iff] at step
        obtain ⟨d₂, step, rfl⟩ := step
        obtain ⟨d', run, rfl⟩ := ih.mp rest
        exact ⟨d', .cons step run, rfl⟩
      · rintro ⟨d', _ | ⟨step, rest⟩, rfl⟩
        exact .cons (by rw [bare_perform, step]; rfl) (ih.mpr ⟨d', rest, rfl⟩)

theorem bare_trace (d : Deployment) (as : List Action) :
    d.bare.trace (as.map Action.bare) = (d.trace as).map fun s => (s.1.bare, s.2.bare) := by
  induction as generalizing d with
  | nil => rfl
  | cons a as ih =>
      rw [List.map_cons, trace, trace, bare_perform]
      cases d.perform a with
      | none => rfl
      | some d' => exact congrArg (_ :: ·) (ih d')

/-- The broker goes through the same moves, whatever they come from. -/
theorem bare_moves (d : Deployment) (as : List Action) :
    (d.bare.history (as.map Action.bare)).moves = (d.history as).moves := by
  simp only [history_eq_trace, bare_trace, History.moves, List.map_map]
  refine List.map_congr_left fun s _ => ?_
  simp only [Function.comp_apply, bare_event, Event.bare_move]
  rfl

theorem bare_invokes? (d : Deployment) (e : Event) :
    e.bare.invokes? d.bare.core = e.invokes? d.core := by
  cases e with
  | proceed n i before after =>
      cases before with
      | waiting =>
          have hdispatch : d.bare.core.dispatches[n]? =
              d.core.dispatches[n]?.map Dispatch.bare := by
            simp [core, bare]
          simp only [Event.bare, Event.invokes?, hdispatch]
          cases d.core.dispatches[n]? <;> rfl
      | running | ended _ => rfl
  | _ => rfl

theorem bare_invoked (d : Deployment) (as : List Action) :
    (d.bare.history (as.map Action.bare)).invoked = (d.history as).invoked := by
  simp only [history_eq_trace, bare_trace, History.invoked, List.filterMap_map]
  refine congrArg (fun f => (d.trace as).filterMap f) (funext fun s => ?_)
  simp only [Function.comp_apply, bare_event, bare_invokes?]

theorem bare_answer? (d : Deployment) (n : Notified) : d.bare.answer? n = d.answer? n := by
  cases n with
  | done _ => rfl
  | dispatched n => simp only [answer?, bare_isConcluded]

end Deployment

end DiceRooms
