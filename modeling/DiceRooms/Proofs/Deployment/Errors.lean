import DiceRooms.Proofs.Deployment.History

/-!
The errors that a deployment tells of. Only two kinds of events add to them: a dispatch that
is concluded tells of the handlers that have failed in it, and a loop that cannot read a
message tells of the message. All other notices are of lower levels.
-/
namespace DiceRooms

/-- The notices of the highest level. -/
def Notice.errors (ns : List Notice) : List Notice := ns.filter (·.level = .error)

/-- What is told of the failed handlers of a dispatch, or of a message that cannot be read. -/
def Event.errors : Event → List Notice
  | conclude _ p => Deployment.failureNotices p
  | turn _ _ (.undecodable m) =>
    match Wire.decode m.payload with
    | .error e => [.undecodable m.topic e]
    | .ok _ => []
  | _ => []

def History.errors (h : History) : List Notice := h.flatMap (·.2.errors)

theorem Notice.errors_append (ns ns' : List Notice) :
    errors (ns ++ ns') = errors ns ++ errors ns' :=
  List.filter_append ns ns'

/-! The broker and the relay. -/

namespace Broker

theorem errors_stepPublication {b b' : Broker} {p p' : Publication} {ns : List Notice}
    (h : b.stepPublication p = some (b', p', ns)) : Notice.errors ns = [] := by
  rw [stepPublication] at h
  split at h
  · cases h
    rfl
  · cases h
  · dsimp only at h
    split at h <;> · cases h; rfl

theorem errors_workOff (fuel : Nat) (b : Broker) (p : Publication) :
    Notice.errors (workOff fuel b p).2 = [] := by
  induction fuel generalizing b p with
  | zero => rfl
  | succ fuel ih =>
      rw [workOff]
      split
      · rfl
      · next b' p' first hstep =>
          rw [Notice.errors_append, errors_stepPublication hstep, ih, List.append_nil]

theorem errors_publish (b : Broker) (m : Message) : Notice.errors (b.publish m).2 = [] := by
  simp only [publish, Notice.errors_append, errors_workOff, List.append_nil]
  rfl

theorem errors_subscribe (b : Broker) (topic : String) (c : Channel) :
    Notice.errors (b.subscribe topic c).2.1 = [] := by
  rw [subscribe]
  split <;> rfl

theorem errors_unsubscribe (b : Broker) (topic : String) (id : Nat) :
    Notice.errors (b.unsubscribe topic id).2.1 = [] := by
  rw [unsubscribe]
  dsimp only
  split <;> rfl

end Broker

namespace Exchange

theorem errors_publish (x : Exchange) (route : Route) (m : Message) :
    Notice.errors (x.publish route m).2.1 = [] := by
  unfold publish
  split
  · rfl
  · exact x.broker.errors_publish m
  · exact x.broker.errors_publish m

theorem errors_subscribe (x : Exchange) (route : Route) (topic : String) (c : Channel) :
    Notice.errors (x.subscribe route topic c).2.1 = [] := by
  have hbroker := x.broker.errors_subscribe topic c
  unfold subscribe
  split
  · rfl
  · split
    · next heq =>
        rw [heq] at hbroker
        exact hbroker
    · next heq =>
        rw [heq] at hbroker
        exact hbroker
  · exact hbroker

theorem errors_unsubscribe (x : Exchange) (route : Route) (topic : String) (id : Nat) :
    Notice.errors (x.unsubscribe route topic id).2.1 = [] := by
  have hbroker := x.broker.errors_unsubscribe topic id
  unfold unsubscribe
  split
  · exact hbroker
  · dsimp only
    split
    · rfl
    · exact hbroker

end Exchange

namespace Deployment

/-- The oldest comes first. -/
def errors (d : Deployment) : List Notice := (Notice.errors d.notices).reverse

/-! What each change to a deployment adds. -/

section
variable (d : Deployment)

theorem errors_tell (ns : List Notice) : (d.tell ns).errors = d.errors ++ Notice.errors ns := by
  simp [errors, tell, Notice.errors, List.filter_append, List.filter_reverse]

theorem errors_tell_of_quiet {ns : List Notice} (h : Notice.errors ns = []) :
    (d.tell ns).errors = d.errors := by
  rw [errors_tell, h, List.append_nil]

theorem errors_setPhase (n : Nat) (phase : Phase) : (d.setPhase n phase).errors = d.errors := by
  rw [setPhase]
  split <;> rfl

theorem errors_openDispatch (owner : Owner) (registry : Registry Handler) (r : Roll) :
    (d.openDispatch owner registry r).1.errors = d.errors := by
  refine d.errors_tell_of_quiet ?_
  split <;> rfl

theorem errors_changeRegistry (e : Endpoint) (op : Operation)
    (change : Registry Handler → Registry Handler × Bool) (notice : Bool → Notice)
    (hnotice : ∀ changed, Notice.errors [notice changed] = []) :
    (d.changeRegistry e op change notice).1.errors = d.errors := by
  rw [changeRegistry]
  cases d.hubs[e.hub]? with
  | none => rfl
  | some hub =>
      dsimp only
      cases hub.registry with
      | error error => rfl
      | ok r =>
          dsimp only
          split
          · rfl
          · exact (d.setHub e.hub (hub.withRegistry (change r).1)).errors_tell_of_quiet
              (hnotice (change r).2)

theorem errors_subscribe (e : Endpoint) (room subscriber : String) (f : Handler) :
    (d.subscribe e room subscriber f).1.errors = d.errors :=
  d.errors_changeRegistry e .subscribe _ _ fun _ => rfl

theorem errors_unsubscribe (e : Endpoint) (room subscriber : String) :
    (d.unsubscribe e room subscriber).1.errors = d.errors :=
  d.errors_changeRegistry e .unsubscribe _ _ fun _ => rfl

theorem errors_viaExchange {α : Type} {r : Exchange × List Notice × α}
    (h : Notice.errors r.2.1 = []) : (d.viaExchange r).1.errors = d.errors :=
  ({ d with exchange := r.1 } : Deployment).errors_tell_of_quiet h

theorem errors_publish (b : BrokerHub) (r : Roll) : (d.publish b r).1.errors = d.errors := by
  have hvia := d.errors_viaExchange
    (d.exchange.errors_publish b.route ⟨b.topic, Wire.encode r⟩)
  rw [publish]
  split
  · next heq =>
      rw [heq] at hvia
      exact (errors_tell_of_quiet _ rfl).trans hvia
  · next heq =>
      rw [heq] at hvia
      exact hvia

theorem errors_notify (e : Endpoint) (r : Roll) : (d.notify e r).1.errors = d.errors := by
  rw [notify]
  cases d.hubs[e.hub]? with
  | none => rfl
  | some hub =>
      cases hub with
      | failing error => rfl
      | broker b => exact d.errors_publish b r
      | memory registry | bare registry => exact d.errors_openDispatch (.caller e) registry r

theorem errors_leaveBroker (n : Nat) (h : BrokerHub) : (d.leaveBroker n h).errors = d.errors := by
  have hvia := d.errors_viaExchange
    (d.exchange.errors_unsubscribe h.route h.topic h.subscription)
  rw [leaveBroker]
  dsimp only
  rw [errors_tell_of_quiet _ rfl, errors_setPhase]
  split
  · exact hvia
  · exact (errors_tell_of_quiet _ rfl).trans hvia

theorem errors_settle (p : Dispatch) : (d.settle p).errors = d.errors := by
  rw [settle]
  cases p.owner with
  | caller e =>
      dsimp only
      split
      · exact d.errors_tell_of_quiet rfl
      · rfl
  | receiver n =>
      dsimp only
      rw [errors_setPhase]
      split
      · exact d.errors_tell_of_quiet rfl
      · rfl

end

/-! What the actions add. -/

section
variable {d d' : Deployment}

theorem errors_failureNotices (p : Dispatch) :
    Notice.errors (failureNotices p) = failureNotices p := by
  refine List.filter_eq_self.mpr fun notice hnotice => ?_
  obtain ⟨_, -, rfl⟩ := List.mem_map.mp hnotice
  rfl

theorem errors_conclude {n : Nat} (h : d.conclude n = some d') :
    d'.errors = d.errors ++ (d.event (.conclude n)).errors := by
  simp only [conclude, Option.bind_eq_bind, Option.bind_eq_some_iff] at h
  obtain ⟨p, hp, h⟩ := h
  split at h
  · cases h
    rw [errors_settle, errors_tell, errors_failureNotices, event, hp]
    rfl
  · cases h

theorem errors_takeMessage {n : Nat} {hub : BrokerHub}
    (hcancelled : d.tokens.isCancelled hub.token ≠ true) (h : d.takeMessage n hub = some d') :
    d'.errors = d.errors ++ (Event.turn n hub (d.runningTurn hub)).errors := by
  rw [runningTurn, if_neg hcancelled]
  rw [takeMessage] at h
  cases hreceived : (d.exchange.broker.receive hub.topic hub.subscription).2 with
  | empty => simp only [hreceived] at h; cases h
  | closed =>
      simp only [hreceived] at h
      cases h
      rw [errors_setPhase, errors_tell]
      rfl
  | message m =>
      simp only [hreceived] at h ⊢
      cases hdecode : Wire.decode m.payload with
      | error e =>
          simp only [hdecode] at h
          cases h
          rw [errors_tell, Event.errors, hdecode]
          rfl
      | ok r =>
          simp only [hdecode] at h
          cases h
          rw [errors_setPhase, errors_openDispatch, errors_tell]
          rfl

theorem errors_turn {n : Nat} (h : d.turn n = some d') :
    d'.errors = d.errors ++ (d.event (.turn n)).errors := by
  rw [event, turnEvent]
  rw [turn] at h
  cases hn : d.brokerHub? n with
  | none => rw [hn] at h; cases h
  | some hub =>
      rw [hn] at h
      dsimp only at h ⊢
      cases hphase : hub.phase with
      | dispatching _ | stopped => rw [hphase] at h; cases h
      | draining =>
          rw [hphase] at h
          cases h
          rw [errors_setPhase]
          exact (List.append_nil _).symm
      | closed =>
          rw [hphase] at h
          cases h
          rw [errors_leaveBroker]
          exact (List.append_nil _).symm
      | running =>
          rw [hphase] at h
          dsimp only at h ⊢
          split at h
          · next hcancelled =>
              cases h
              rw [errors_setPhase, runningTurn, if_pos hcancelled, errors_tell]
              rfl
          · next hcancelled => exact errors_takeMessage hcancelled h

theorem errors_buildHub (d : Deployment) (c : HubConfig) :
    (d.buildHub c).1.errors = d.errors := by
  rw [buildHub]
  cases c.check with
  | error e => rfl
  | ok checked =>
      obtain ⟨route, token, channel⟩ := checked
      have hvia := d.errors_viaExchange (d.exchange.errors_subscribe route c.topic channel)
      dsimp only
      split
      · next heq =>
          rw [heq] at hvia
          exact hvia
      · next heq =>
          rw [heq] at hvia
          exact (errors_tell_of_quiet _ rfl).trans hvia

theorem errors_listen (d : Deployment) (topic : String) (capacity : Nat) (closed : Bool) :
    (d.listen topic capacity closed).1.errors = d.errors := by
  rw [listen]
  cases Channel.ofCapacity? capacity with
  | error fault => rfl
  | ok c =>
      have hvia := d.errors_viaExchange
        (d.exchange.errors_subscribe .direct topic (if closed then c.close else c))
      dsimp only
      split
      · next heq =>
          rw [heq] at hvia
          exact hvia
      · next heq =>
          rw [heq] at hvia
          exact hvia

theorem errors_requestRoll {service : Nat} {ids : UInt64 → FreshIds} {now : Instant}
    {q : Request} {answer : Except InvalidRequest Nat}
    (h : d.requestRoll service ids now q = some (d', answer)) : d'.errors = d.errors := by
  simp only [requestRoll, Option.bind_eq_bind, Option.bind_eq_some_iff] at h
  obtain ⟨s, -, h⟩ := h
  split at h <;> · cases h; rfl

theorem errors_throwDice {n : Nat} {throw : Roll → Except DiceError Roll}
    (h : d.throwDice n throw = some d') : d'.errors = d.errors := by
  simp only [throwDice, Option.bind_eq_bind, Option.bind_eq_some_iff] at h
  obtain ⟨c, -, h⟩ := h
  split at h
  · split at h
    · cases h
      rfl
    · cases h
      exact errors_tell_of_quiet _ rfl
  · cases h

theorem errors_tellRoll {n : Nat} (h : d.tellRoll n = some d') : d'.errors = d.errors := by
  simp only [tellRoll, Option.bind_eq_bind, Option.bind_eq_some_iff] at h
  obtain ⟨c, -, s, -, h⟩ := h
  split at h
  · cases h
    exact d.errors_notify s.notifier c.roll
  · cases h

theorem errors_endCreation {n : Nat} (h : d.endCreation n = some d') : d'.errors = d.errors := by
  simp only [endCreation, Option.bind_eq_bind, Option.bind_eq_some_iff] at h
  obtain ⟨c, -, h⟩ := h
  split at h
  · split at h
    · cases h
      rfl
    · cases h
  · cases h

theorem errors_adjustFeedOf (d : Deployment) (h : Handler) (f : Feed → Feed) :
    (d.adjustFeedOf h f).errors = d.errors := by
  cases h <;> rfl

theorem errors_startInvocation {n i : Nat} (h : d.startInvocation n i = some d') :
    d'.errors = d.errors := by
  obtain ⟨p, inv, b, -, -, -, rfl⟩ := of_startInvocation h
  exact errors_adjustFeedOf ..

theorem errors_finishInvocation {n i : Nat} {said : Outcome}
    (h : d.finishInvocation n i said = some d') : d'.errors = d.errors := by
  obtain ⟨p, inv, b, -, -, -, rfl⟩ := of_finishInvocation h
  exact errors_adjustFeedOf ..

theorem errors_subscribeViewer (d : Deployment) (e : Endpoint) (id room : String) (f : Handler) :
    (d.subscribeViewer e id room f).1.errors = d.errors := by
  have hset := d.errors_subscribe e room id f
  rw [subscribeViewer]
  split
  · rfl
  · split
    · next heq =>
        rw [heq] at hset
        exact hset
    · next heq =>
        rw [heq] at hset
        exact (errors_tell_of_quiet _ rfl).trans hset

theorem errors_unsubscribeViewer (d : Deployment) (v : Viewer) :
    (d.unsubscribeViewer v).1.errors = d.errors := by
  have hdeleted := d.errors_unsubscribe v.endpoint v.room v.id
  rw [unsubscribeViewer]
  split
  · next heq =>
      rw [heq] at hdeleted
      exact hdeleted
  · next heq =>
      rw [heq] at hdeleted
      exact hdeleted

theorem errors_openSession (d : Deployment) (e : Endpoint) (id room : String) :
    (d.openSession e id room).1.errors = d.errors := by
  have hset := ({ d with feeds := d.feeds ++ [Feed.fresh] } : Deployment).errors_subscribe e room
    id (.feed d.feeds.length)
  rw [openSession]
  split
  · next heq =>
      rw [heq] at hset
      exact hset
  · next heq =>
      rw [heq] at hset
      exact (errors_tell_of_quiet _ rfl).trans hset

theorem errors_closeSession (d : Deployment) (s : DiceRooms.Session) :
    (d.closeSession s).1.errors = d.errors := by
  have hdeleted := (d.adjustFeed s.feed Feed.drop).errors_unsubscribe s.endpoint s.room s.id
  rw [closeSession]
  split
  · next heq =>
      rw [heq] at hdeleted
      exact hdeleted
  · next heq =>
      rw [heq] at hdeleted
      exact (errors_tell_of_quiet _ rfl).trans hdeleted

/-- Only what is concluded and what a loop does can be an error. -/
theorem errors_event {a : Action} (hconclude : ∀ n, a ≠ .conclude n) (hturn : ∀ n, a ≠ .turn n) :
    (d.event a).errors = [] := by
  have causes := d.causes_event a
  generalize d.event a = e at causes ⊢
  cases causes with
  | conclude n p => exact (hconclude n rfl).elim
  | turn arrives => exact (hturn _ rfl).elim
  | _ => rfl

theorem errors_of_silent {a : Action} (hconclude : ∀ n, a ≠ .conclude n)
    (hturn : ∀ n, a ≠ .turn n) (step : d.perform a = some d') : d'.errors = d.errors := by
  cases a with
  | conclude n => exact (hconclude n rfl).elim
  | turn n => exact (hturn n rfl).elim
  | start n i => exact errors_startInvocation step
  | finish n i o => exact errors_finishInvocation step
  | throwDice n throw => exact errors_throwDice step
  | tellRoll n => exact errors_tellRoll step
  | endCreation n => exact errors_endCreation step
  | requestRoll service ids now q =>
      obtain ⟨⟨d₁, answer⟩, h, rfl⟩ := Option.map_eq_some_iff.mp step
      exact errors_requestRoll h
  | build c =>
      cases step
      exact d.errors_buildHub c
  | subscribe e room subscriber f =>
      cases step
      exact d.errors_subscribe e room subscriber f
  | unsubscribe e room subscriber =>
      cases step
      exact d.errors_unsubscribe e room subscriber
  | notify e r =>
      cases step
      exact d.errors_notify e r
  | shutdown | takeHandle | endShutdown | abandonShutdown =>
      obtain ⟨_, _, _, rfl⟩ := of_stops rfl step
      rfl
  | dropHub n =>
      cases step
      rw [dropHub]
      split <;> rfl
  | listen topic capacity closed =>
      cases step
      exact d.errors_listen topic capacity closed
  | leave topic id =>
      cases step
      exact d.errors_viaExchange (d.exchange.errors_unsubscribe .direct topic id)
  | publish m =>
      cases step
      exact d.errors_viaExchange (d.exchange.errors_publish .direct m)
  | subscribeViewer e id room f =>
      cases step
      exact d.errors_subscribeViewer e id room f
  | unsubscribeViewer v =>
      cases step
      exact d.errors_unsubscribeViewer v
  | openSession e id room =>
      cases step
      exact d.errors_openSession e id room
  | closeSession s =>
      cases step
      exact d.errors_closeSession s
  | _ =>
      cases step
      rfl

/-- An action adds the errors that its event tells of. -/
theorem errors_perform {a : Action} (step : d.perform a = some d') :
    d'.errors = d.errors ++ (d.event a).errors := by
  have silent (hconclude : ∀ n, a ≠ .conclude n) (hturn : ∀ n, a ≠ .turn n) :
      d'.errors = d.errors ++ (d.event a).errors := by
    rw [errors_of_silent hconclude hturn step, errors_event hconclude hturn, List.append_nil]
  cases a with
  | conclude n => exact errors_conclude step
  | turn n => exact errors_turn step
  | _ => exact silent nofun nofun

/-- So does every run, in the order of its events. -/
theorem errors_run {as : List Action} (run : Run d as d') :
    d'.errors = d.errors ++ (d.history as).errors := by
  induction run with
  | nil d => exact (List.append_nil _).symm
  | @cons d d₁ d' a as step rest ih =>
      rw [ih, errors_perform step, history_cons step, List.append_assoc]
      rfl

end

end Deployment

end DiceRooms
