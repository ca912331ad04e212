import DiceRooms.Proofs.Deployment.Causes

/-!
Every action that is performed is its event: what the event has to meet is there, and the
core becomes what the event makes of it.
-/
namespace DiceRooms

/-! Changes in place. -/

section
variable {α : Type} {l : List α} {n : Nat} {f : α → α}

theorem set_eq_modify {a b : α} (hn : l[n]? = some a) (hf : f a = b) :
    l.set n b = l.modify n f := by
  apply List.ext_getElem?
  intro k
  rw [List.getElem?_set, List.getElem?_modify]
  split
  · next heq =>
      subst heq
      obtain ⟨hlt, -⟩ := List.getElem?_eq_some_iff.mp hn
      rw [if_pos hlt, hn, ← hf]
      rfl
  · exact (id_map _).symm

/-- A change that leaves what is there as it is changes nothing. -/
theorem modify_eq_self (h : ∀ a, l[n]? = some a → f a = a) : l.modify n f = l := by
  apply List.ext_getElem?
  intro k
  rw [List.getElem?_modify]
  split
  · next heq =>
      subst heq
      cases hn : l[n]? with
      | none => rfl
      | some a => exact congrArg some (h a hn)
  · exact id_map _

end

/-! Actions on the exchange, as moves of the broker. -/

namespace Exchange

theorem broker_publish (x : Exchange) (route : Route) (m : Message) :
    (x.publish route m).1.broker =
      if route.fails x.relay.publishFault then x.broker else x.broker.apply (.publish m) := by
  unfold publish
  cases route with
  | direct => rfl
  | relayed => cases x.relay.publishFault <;> rfl

theorem broker_unsubscribe (x : Exchange) (route : Route) (topic : String) (id : Nat) :
    (x.unsubscribe route topic id).1.broker =
      if route.fails x.relay.unsubscribeFault then x.broker
      else x.broker.apply (.leave topic id) := by
  unfold unsubscribe
  cases route with
  | direct => rfl
  | relayed => cases x.relay.unsubscribeFault <;> rfl

/-- A call that the relay fails has no effect. -/
theorem subscribe_of_fails (x : Exchange) {route : Route} (topic : String) (c : Channel)
    (h : route.fails x.relay.subscribeFault = true) :
    ∃ e, x.subscribe route topic c = (x, [], .error e) := by
  unfold subscribe
  cases route with
  | direct => cases h
  | relayed =>
      cases hfault : x.relay.subscribeFault with
      | none => rw [hfault] at h; cases h
      | some reason => exact ⟨_, rfl⟩

theorem subscribe_of_reaches (x : Exchange) {route : Route} (topic : String) (capacity : Nat)
    (h : route.fails x.relay.subscribeFault = false) :
    (x.subscribe route topic (.ofCapacity capacity)).1.broker =
        x.broker.apply (.subscribe topic capacity) ∧
      (x.subscribe route topic (.ofCapacity capacity)).2.2 =
        .ok x.broker.channels.length := by
  unfold subscribe
  cases route with
  | direct => exact ⟨rfl, rfl⟩
  | relayed =>
      cases hfault : x.relay.subscribeFault with
      | none => exact ⟨rfl, rfl⟩
      | some reason => rw [hfault] at h; cases h

end Exchange

theorem Channel.eq_ofCapacity {capacity : Nat} {c : Channel}
    (h : Channel.ofCapacity? capacity = .ok c) : c = .ofCapacity capacity := by
  rw [Channel.ofCapacity?] at h
  split at h
  · cases h
  · split at h
    · cases h
    · cases h; rfl

namespace Deployment

/-- What each change to a deployment does to its core. -/
@[simp] theorem core_tell (d : Deployment) (ns : List Notice) : (d.tell ns).core = d.core := rfl

@[simp] theorem core_setBroker (d : Deployment) (b : Broker) :
    (d.setBroker b).core = { d.core with broker := b } := rfl

@[simp] theorem core_viaExchange {α : Type} (d : Deployment)
    (r : Exchange × List Notice × α) :
    (d.viaExchange r).1.core = { d.core with broker := r.1.broker } := rfl

theorem brokerHub?_core (d : Deployment) (n : Nat) : d.core.brokerHub? n = d.brokerHub? n := by
  show d.hubs[n]?.bind Hub.broker? = _
  rw [brokerHub?]
  cases d.hubs[n]? with
  | none => rfl
  | some hub => cases hub <;> rfl

theorem getElem?_core_dispatches (d : Deployment) (n : Nat) :
    d.core.dispatches[n]? = d.dispatches[n]? :=
  Array.getElem?_toList

theorem hubs_of_brokerHub? {d : Deployment} {n : Nat} {h : BrokerHub}
    (hn : d.brokerHub? n = some h) : d.hubs[n]? = some (.broker h) := by
  rw [brokerHub?] at hn
  split at hn
  · next heq => cases hn; exact heq
  · cases hn

/-- A hub that enters the phase it is in stays as it is. -/
theorem hubs_enter_self {d : Deployment} {n : Nat} {h : BrokerHub}
    (hn : d.brokerHub? n = some h) : d.hubs.modify n (Hub.enter h.phase) = d.hubs := by
  apply modify_eq_self
  intro hub hhub
  rw [hubs_of_brokerHub? hn] at hhub
  cases hhub
  rfl

@[simp] theorem core_setPhase (d : Deployment) (n : Nat) (phase : Phase) :
    (d.setPhase n phase).core =
      { d.core with hubs := d.core.hubs.modify n (Hub.enter phase) } := by
  rw [setPhase]
  cases hn : d.brokerHub? n with
  | none =>
      have hsame : d.hubs.modify n (Hub.enter phase) = d.hubs := by
        apply modify_eq_self
        intro hub hhub
        cases hub with
        | broker h =>
            rw [brokerHub?] at hn
            rw [hhub] at hn
            cases hn
        | _ => rfl
      show d.core = ⟨_, d.hubs.modify n (Hub.enter phase), _, _⟩
      rw [hsame]
      rfl
  | some h =>
      exact congrArg (Core.mk _ · _ _) (set_eq_modify (hubs_of_brokerHub? hn) rfl)

/-! Registries. -/

theorem core_changeRegistry (d : Deployment) (e : Endpoint) (op : Operation)
    (change : Registry Handler → Registry Handler × Bool) (notice : Bool → Notice) :
    (d.changeRegistry e op change notice).1.core =
      { d.core with hubs := d.hubs.modify e.hub (Hub.mapRegistry fun r => (change r).1) } := by
  rw [changeRegistry]
  cases hn : d.hubs[e.hub]? with
  | none =>
      rw [modify_eq_self (by rw [hn]; exact nofun)]
      rfl
  | some hub =>
      cases hub with
      | failing error =>
          rw [modify_eq_self]
          · rfl
          · intro hub hhub
            rw [hn] at hhub
            cases hhub
            rfl
      | _ => exact congrArg (Core.mk _ · _ _) (set_eq_modify hn rfl)

/-- The deployment has become what the event makes of it. -/
structure Happens (d : Deployment) (e : Event) (d' : Deployment) : Prop where
  possible : e.Possible d.core
  core_eq : d'.core = d.core.apply e

theorem happens_idle {d d' : Deployment} (h : d'.core = d.core) : Happens d .idle d' :=
  ⟨trivial, h⟩

/-! Members of registries, viewers and sessions. -/

theorem happens_subscribe (d : Deployment) (e : Endpoint) (room subscriber : String)
    (h : Handler) :
    Happens d (.register e.hub room subscriber h) (d.subscribe e room subscriber h).1 :=
  ⟨trivial, core_changeRegistry d e _ _ _⟩

theorem happens_unsubscribe (d : Deployment) (e : Endpoint) (room subscriber : String) :
    Happens d (.unregister e.hub room subscriber) (d.unsubscribe e room subscriber).1 :=
  ⟨trivial, core_changeRegistry d e _ _ _⟩

/-- Only the core of the deployment that comes out matters. -/
theorem Happens.congr {d d' d'' : Deployment} {e : Event} (h : Happens d e d')
    (hcore : d''.core = d'.core) : Happens d e d'' :=
  ⟨h.possible, hcore.trans h.core_eq⟩

theorem happens_subscribeViewer (d : Deployment) (e : Endpoint) (id room : String)
    (h : Handler) :
    Happens d (d.event (.subscribeViewer e id room h)) (d.subscribeViewer e id room h).1 := by
  rw [subscribeViewer]
  simp only [event]
  split
  · exact happens_idle rfl
  · have happens := happens_subscribe d e room id h
    split
    · next d' error heq => rw [heq] at happens; exact happens
    · next d' _ heq => rw [heq] at happens; exact happens.congr rfl

theorem happens_unsubscribeViewer (d : Deployment) (v : Viewer) :
    Happens d (d.event (.unsubscribeViewer v)) (d.unsubscribeViewer v).1 := by
  have happens := happens_unsubscribe d v.endpoint v.room v.id
  rw [unsubscribeViewer]
  split
  · next heq => rw [heq] at happens; exact happens
  · next heq => rw [heq] at happens; exact happens

theorem happens_openSession (d : Deployment) (e : Endpoint) (id room : String) :
    Happens d (d.event (.openSession e id room)) (d.openSession e id room).1 := by
  have happens := happens_subscribe { d with feeds := d.feeds ++ [Feed.fresh] } e room id
    (.feed d.feeds.length)
  unfold openSession
  dsimp only
  split
  · next heq => rw [heq] at happens; exact ⟨trivial, happens.core_eq⟩
  · next heq => rw [heq] at happens; exact ⟨trivial, happens.core_eq⟩

theorem happens_closeSession (d : Deployment) (s : Session) :
    Happens d (d.event (.closeSession s)) (d.closeSession s).1 := by
  have happens := happens_unsubscribe (d.adjustFeed s.feed Feed.drop) s.endpoint s.room s.id
  unfold closeSession
  dsimp only
  split
  · next heq => rw [heq] at happens; exact ⟨trivial, happens.core_eq⟩
  · next heq => rw [heq] at happens; exact ⟨trivial, happens.core_eq⟩

/-! Building hubs and listening. -/

/-- A config that passes has a client, and is given a channel that can hold something. -/
theorem of_check {c : HubConfig} {route : Route} {token : Token} {channel : Channel}
    (h : c.check = .ok (route, token, channel)) :
    c.route = some route ∧ 0 < channel.capacity ∧ channel = .ofCapacity channel.capacity := by
  rw [HubConfig.check] at h
  split at h
  · cases h
  · cases h
  · next hroute _ =>
      split at h
      · cases h
      · split at h
        · cases h
        · next hcapacity =>
            split at h
            · cases h
            · next hchannel =>
                cases h
                rw [Channel.eq_ofCapacity hchannel]
                exact ⟨hroute, Nat.pos_of_ne_zero hcapacity, rfl⟩

theorem happens_buildHub (d : Deployment) (c : HubConfig) :
    Happens d (d.buildEvent c) (d.buildHub c).1 := by
  rw [buildHub, buildEvent]
  cases hcheck : c.check with
  | error e => exact happens_idle rfl
  | ok checked =>
      obtain ⟨route, token, channel⟩ := checked
      obtain ⟨-, -, hchannel⟩ := of_check hcheck
      dsimp only
      split
      · next hfails =>
          obtain ⟨e, he⟩ := d.exchange.subscribe_of_fails c.topic channel hfails
          rw [he]
          exact happens_idle rfl
      · next hreaches =>
          have hreaches := Bool.eq_false_iff.mpr hreaches
          obtain ⟨hbroker, hid⟩ :=
            d.exchange.subscribe_of_reaches c.topic channel.capacity hreaches
          rw [← hchannel] at hbroker hid
          rcases hx : d.exchange.subscribe route c.topic channel with ⟨x, ns, answer⟩
          rw [hx] at hbroker hid
          obtain rfl : answer = .ok d.exchange.broker.channels.length := hid
          refine ⟨⟨rfl, rfl, rfl, token, rfl⟩, ?_⟩
          exact congrArg (Core.mk · _ _ _) hbroker

theorem happens_listen (d : Deployment) (topic : String) (capacity : Nat) (closed : Bool) :
    Happens d (d.event (.listen topic capacity closed))
      (d.listen topic capacity closed).1 := by
  rw [listen]
  simp only [event]
  cases hchannel : Channel.ofCapacity? capacity with
  | error fault => exact happens_idle rfl
  | ok c =>
      obtain rfl := Channel.eq_ofCapacity hchannel
      cases closed with
      | true => exact happens_idle rfl
      | false => exact ⟨trivial, rfl⟩

/-! Using the broker without a hub. -/

theorem happens_leave (d : Deployment) (topic : String) (id : Nat) :
    Happens d (.broker (.leave topic id)) (d.leave topic id).1 := by
  refine ⟨trivial, ?_⟩
  rw [leave, core_viaExchange, Exchange.broker_unsubscribe]
  rfl

theorem happens_publishMessage (d : Deployment) (m : Message) :
    Happens d (.broker (.publish m)) (d.publishMessage m).1 := by
  refine ⟨trivial, ?_⟩
  rw [publishMessage, core_viaExchange, Exchange.broker_publish]
  rfl

/-! Notifying hubs. -/

theorem core_publish (d : Deployment) (b : BrokerHub) (r : Roll) :
    (d.publish b r).1.core =
      { d.core with
        broker := (d.exchange.publish b.route ⟨b.topic, Wire.encode r⟩).1.broker } := by
  rw [publish, viaExchange]
  rcases d.exchange.publish b.route ⟨b.topic, Wire.encode r⟩ with ⟨x, ns, answer⟩
  cases answer <;> rfl

theorem core_openDispatch (d : Deployment) (owner : Owner) (registry : Registry Handler)
    (r : Roll) : (d.openDispatch owner registry r).1.core =
      { d.core with dispatches := d.core.dispatches ++ [.begin owner registry r] } := by
  show (⟨_, _, (d.dispatches.push _).toList, _⟩ : Core) = _
  rw [Array.toList_push]
  rfl

theorem happens_notify (d : Deployment) (e : Endpoint) (r : Roll) :
    Happens d (d.notifyEvent e r) (d.notify e r).1 := by
  rw [notify, notifyEvent]
  cases hn : d.hubs[e.hub]? with
  | none => exact happens_idle rfl
  | some hub =>
      cases hub with
      | failing error => exact happens_idle rfl
      | memory registry => exact ⟨.inl hn, core_openDispatch d _ registry r⟩
      | bare registry => exact ⟨.inr hn, core_openDispatch d _ registry r⟩
      | broker h =>
          have hcore := core_publish d h r
          rw [Exchange.broker_publish] at hcore
          have hthere : d.core.brokerHub? e.hub = some h := by
            show d.hubs[e.hub]?.bind Hub.broker? = _
            rw [hn]
            rfl
          dsimp only
          split
          · next hfails =>
              rw [if_pos hfails] at hcore
              exact happens_idle hcore
          · next hreaches =>
              rw [if_neg hreaches] at hcore
              exact ⟨hthere, hcore⟩

theorem happens_tellRoll {d d' : Deployment} {n : Nat} (h : d.tellRoll n = some d') :
    Happens d (d.tellRollEvent n) d' := by
  rw [tellRoll] at h
  rw [tellRollEvent]
  cases hc : d.creations[n]? with
  | none => rw [hc] at h; cases h
  | some c =>
      cases hs : d.services[c.service]? with
      | none => simp [hc, hs] at h
      | some s =>
          have happens := happens_notify d s.notifier c.roll
          simp only [hc, hs, Option.bind_eq_bind, Option.bind_some] at h ⊢
          split at h
          · cases h
            exact happens.congr rfl
          · cases h

/-! Invocations and the end of a dispatch. -/

theorem core_setDispatch {d : Deployment} {n : Nat} {p q : Dispatch} {f : Dispatch → Dispatch}
    (hn : d.dispatches[n]? = some p) (hf : f p = q) :
    (d.setDispatch n q).core =
      { d.core with dispatches := d.core.dispatches.modify n f } := by
  show (⟨_, _, (d.dispatches.setIfInBounds n q).toList, _⟩ : Core) = _
  rw [Array.toList_setIfInBounds]
  exact congrArg (Core.mk _ _ · _) (set_eq_modify (by rw [Array.getElem?_toList, hn]) hf)

theorem eq_of_advance {b b' : Broadcast} {i : Nat} {before after : Progress}
    (h : b.advance i before after = some b') :
    (∃ inv, b[i]? = some inv ∧ inv.progress = before) ∧
      b' = b.modify i fun inv => { inv with progress := after } := by
  rw [Broadcast.advance] at h
  split at h
  · next inv hi =>
      split at h
      · next hbefore =>
          cases h
          exact ⟨⟨inv, hi, hbefore⟩, set_eq_modify hi rfl⟩
      · cases h
  · cases h

/-- An invocation of a dispatch goes from one stage to a later one. -/
theorem happens_advance {d d' : Deployment} {n i : Nat} {p : Dispatch} {b : Broadcast}
    {before after : Progress} (hn : d.dispatches[n]? = some p)
    (hb : p.broadcast.advance i before after = some b) (hrank : before.rank < after.rank)
    (hd : d' = d.setDispatch n { p with broadcast := b }) :
    Happens d (.proceed n i before after) d' := by
  obtain ⟨⟨inv, hi, hbefore⟩, rfl⟩ := eq_of_advance hb
  refine ⟨⟨hrank, p, inv, ?_, hi, hbefore⟩, ?_⟩
  · rw [getElem?_core_dispatches, hn]
  · rw [hd]
    exact core_setDispatch hn rfl

theorem core_adjustFeedOf (d : Deployment) (h : Handler) (f : Feed → Feed) :
    (d.adjustFeedOf h f).core = d.core := by
  cases h <;> rfl

theorem outcomeAt_eq {d : Deployment} {n i : Nat} {p : Dispatch} {inv : Invocation}
    (hn : d.dispatches[n]? = some p) (hi : p.broadcast[i]? = some inv) (said : Outcome) :
    d.outcomeAt n i said = d.outcomeOf ⟨n, i⟩ said inv.handler := by
  simp [outcomeAt, hn, hi]

/-- What beginning takes, and what comes of it. -/
theorem of_startInvocation {d d' : Deployment} {n i : Nat} (h : d.startInvocation n i = some d') :
    ∃ p inv b, d.dispatches[n]? = some p ∧ p.broadcast[i]? = some inv ∧
      p.broadcast.start i = some b ∧
      d' = (d.setDispatch n { p with broadcast := b }).adjustFeedOf inv.handler
        (·.sendRow ⟨n, i⟩ p.roll) := by
  simp only [startInvocation, Option.bind_eq_bind, Option.bind_eq_some_iff] at h
  obtain ⟨p, hn, inv, hi, b, hb, h⟩ := h
  exact ⟨p, inv, b, hn, hi, hb, (Option.some.inj h).symm⟩

theorem of_finishInvocation {d d' : Deployment} {n i : Nat} {said : Outcome}
    (h : d.finishInvocation n i said = some d') :
    ∃ p inv b, d.dispatches[n]? = some p ∧ p.broadcast[i]? = some inv ∧
      p.broadcast.finish i (d.outcomeAt n i said) = some b ∧
      d' = (d.setDispatch n { p with broadcast := b }).adjustFeedOf inv.handler
        (·.sendId ⟨n, i⟩ p.roll) := by
  simp only [finishInvocation, Option.bind_eq_bind, Option.bind_eq_some_iff] at h
  obtain ⟨p, hn, inv, hi, b, hb, h⟩ := h
  rw [← outcomeAt_eq hn hi] at hb
  exact ⟨p, inv, b, hn, hi, hb, (Option.some.inj h).symm⟩

theorem happens_startInvocation {d d' : Deployment} {n i : Nat}
    (h : d.startInvocation n i = some d') :
    Happens d (.proceed n i .waiting .running) d' := by
  obtain ⟨p, inv, b, hn, -, hb, rfl⟩ := of_startInvocation h
  have happens := happens_advance hn hb (by decide) rfl
  exact ⟨happens.possible, (core_adjustFeedOf ..).trans happens.core_eq⟩

theorem happens_finishInvocation {d d' : Deployment} {n i : Nat} {said : Outcome}
    (h : d.finishInvocation n i said = some d') :
    Happens d (.proceed n i .running (.ended (d.outcomeAt n i said))) d' := by
  obtain ⟨p, inv, b, hn, -, hb, rfl⟩ := of_finishInvocation h
  have happens := happens_advance hn hb (Nat.lt_succ_self 1) rfl
  exact ⟨happens.possible, (core_adjustFeedOf ..).trans happens.core_eq⟩

theorem core_settle (d : Deployment) (n : Nat) (p : Dispatch) :
    (d.settle p).core = { d.core with hubs := Event.hubs d.core.hubs (.conclude n p) } := by
  obtain ⟨owner, roll, broadcast, concluded⟩ := p
  rw [settle]
  cases owner with
  | caller e =>
      dsimp only
      split <;> rfl
  | receiver k =>
      dsimp only
      rw [core_setPhase]
      split <;> rfl

theorem happens_conclude {d d' : Deployment} {n : Nat} (h : d.conclude n = some d') :
    Happens d (d.event (.conclude n)) d' := by
  simp only [conclude, Option.bind_eq_bind, Option.bind_eq_some_iff] at h
  obtain ⟨p, hn, h⟩ := h
  split at h
  · next hover =>
      rw [Bool.and_eq_true, Bool.not_eq_true'] at hover
      have hevent : d.event (.conclude n) = .conclude n p := by simp [event, hn]
      rw [hevent, ← Option.some.inj h]
      refine ⟨⟨?_, hover.1, hover.2⟩, ?_⟩
      · rw [getElem?_core_dispatches, hn]
      · have hset : (d.setDispatch n { p with concluded := true }).core =
            { d.core with dispatches := d.core.dispatches.modify n Dispatch.conclude } :=
          core_setDispatch hn rfl
        rw [core_settle _ n, core_tell, hset]
        rfl
  · cases h

/-! Turns of a receive loop. -/

theorem happens_takeMessage {d d' : Deployment} {n : Nat} {h : BrokerHub}
    (hn : d.brokerHub? n = some h) (hphase : h.phase = .running)
    (hcancelled : d.tokens.isCancelled h.token = false) (ht : d.takeMessage n h = some d') :
    Happens d (.turn n h (d.runningTurn h)) d' := by
  have hthere := (brokerHub?_core d n).trans hn
  rw [takeMessage] at ht
  rw [runningTurn]
  rw [if_neg (Bool.eq_false_iff.mp hcancelled)]
  rcases hr : d.exchange.broker.receive h.topic h.subscription with ⟨b, received⟩
  have receives : Turn.Receives d.core h received := ⟨hphase, hcancelled, by
    show (d.exchange.broker.receive h.topic h.subscription).2 = received
    rw [hr]⟩
  have hbroker : d.exchange.broker.apply (.receive h.topic h.subscription) = b := by
    show (d.exchange.broker.receive h.topic h.subscription).1 = b
    rw [hr]
  rw [hr] at ht
  cases received with
  | empty => cases ht
  | closed =>
      cases ht
      refine ⟨⟨hthere, receives⟩, ?_⟩
      simp only [core_setPhase, core_tell, core_setBroker]
      exact congrArg (Core.mk · _ _ _) hbroker.symm
  | message m =>
      dsimp only at ht ⊢
      cases hm : Wire.decode m.payload with
      | error e =>
          rw [hm] at ht
          cases ht
          refine ⟨⟨hthere, receives, e, hm⟩, ?_⟩
          have hsame := hubs_enter_self hn
          rw [hphase] at hsame
          show (⟨b, d.hubs, _, _⟩ : Core) =
            ⟨d.exchange.broker.apply (.receive h.topic h.subscription),
              d.hubs.modify n (Hub.enter .running), _, _⟩
          rw [hbroker, hsame]
          rfl
      | ok r =>
          rw [hm] at ht
          cases ht
          refine ⟨⟨hthere, receives, hm, Array.length_toList.symm⟩, ?_⟩
          simp only [core_setPhase, core_openDispatch, core_tell, core_setBroker]
          exact congrArg (Core.mk · _ _ _) hbroker.symm

theorem core_leaveBroker (d : Deployment) (n : Nat) (h : BrokerHub) :
    (d.leaveBroker n h).core =
      { d.core with
        broker := (d.exchange.unsubscribe h.route h.topic h.subscription).1.broker
        hubs := d.core.hubs.modify n (Hub.enter .stopped) } := by
  rw [leaveBroker, viaExchange]
  rcases d.exchange.unsubscribe h.route h.topic h.subscription with ⟨x, ns, answer⟩
  cases answer with
  | ok _ => simp only [core_tell, core_setPhase]; rfl
  | error e => simp only [core_tell, core_setPhase]; rfl

theorem happens_turn {d d' : Deployment} {n : Nat} (ht : d.turn n = some d') :
    Happens d (d.turnEvent n) d' := by
  rw [turn] at ht
  rw [turnEvent]
  cases hn : d.brokerHub? n with
  | none => rw [hn] at ht; cases ht
  | some h =>
      have hthere := (brokerHub?_core d n).trans hn
      rw [hn] at ht
      dsimp only at ht ⊢
      split at ht
      · next hphase =>
          rw [hphase]
          split at ht
          · next hcancelled =>
              cases ht
              have hturn : d.runningTurn h = .cancelled := if_pos hcancelled
              dsimp only
              rw [hturn]
              refine ⟨⟨hthere, hphase, hcancelled⟩, ?_⟩
              simp only [core_setPhase, core_tell]
              rfl
          · next hcancelled =>
              exact happens_takeMessage hn hphase (Bool.eq_false_iff.mpr hcancelled) ht
      · cases ht
      · next hphase =>
          rw [hphase]
          cases ht
          refine ⟨⟨hthere, hphase⟩, ?_⟩
          simp only [core_setPhase, core_setBroker]
          rfl
      · next hphase =>
          rw [hphase]
          cases ht
          refine ⟨⟨hthere, hphase⟩, ?_⟩
          rw [core_leaveBroker, Exchange.broker_unsubscribe]
          cases hfails : h.route.fails d.exchange.relay.unsubscribeFault <;> rfl
      · cases ht

theorem happens_shutdown (d : Deployment) (n : Nat) :
    Happens d (d.event (.shutdown n)) (d.shutdown n) := by
  rw [shutdown]
  cases hn : d.brokerHub? n with
  | none =>
      have hevent : d.event (.shutdown n) = .idle := by simp [event, hn]
      rw [hevent]
      exact happens_idle rfl
  | some h =>
      have hevent : d.event (.shutdown n) = .cancel h.token := by simp [event, hn]
      rw [hevent]
      exact ⟨trivial, rfl⟩

/-! The steps of a call that shuts a hub down. -/

theorem of_takeHandle {d d' : Deployment} {k : Nat} (h : d.takeHandle k = some d') :
    ∃ n hub, d.shutdowns[k]? = some ⟨n, .called⟩ ∧ d.brokerHub? n = some hub ∧
      d' = (d.setHub n (.broker { hub with joinable := false })).setShutdown k
        ⟨n, if hub.joinable then .waiting else .returned false⟩ := by
  simp only [takeHandle, Option.bind_eq_bind, Option.bind_eq_some_iff] at h
  obtain ⟨⟨n, stage⟩, hs, hub, hn, h⟩ := h
  split at h
  · next hstage =>
      cases hstage
      cases h
      exact ⟨n, hub, hs, hn, rfl⟩
  · cases h

theorem takeHandle_of_called {d : Deployment} {k n : Nat} {hub : BrokerHub}
    (hs : d.shutdowns[k]? = some ⟨n, .called⟩) (hn : d.brokerHub? n = some hub) :
    d.takeHandle k = some ((d.setHub n (.broker { hub with joinable := false })).setShutdown k
      ⟨n, if hub.joinable then .waiting else .returned false⟩) := by
  simp [takeHandle, hs, hn]

theorem of_endShutdown {d d' : Deployment} {k : Nat} (h : d.endShutdown k = some d') :
    ∃ n, d.shutdowns[k]? = some ⟨n, .waiting⟩ ∧ d.isStopped n = true ∧
      d' = d.setShutdown k ⟨n, .returned true⟩ := by
  simp only [endShutdown, Option.bind_eq_bind, Option.bind_eq_some_iff] at h
  obtain ⟨⟨n, stage⟩, hs, h⟩ := h
  split at h
  · next hends =>
      obtain ⟨hstage, hstopped⟩ := hends
      cases hstage
      cases h
      exact ⟨n, hs, hstopped, rfl⟩
  · cases h

theorem of_abandonShutdown {d d' : Deployment} {k : Nat} (h : d.abandonShutdown k = some d') :
    ∃ n, d.shutdowns[k]? = some ⟨n, .waiting⟩ ∧ d' = d.setShutdown k ⟨n, .abandoned⟩ := by
  simp only [abandonShutdown, Option.bind_eq_bind, Option.bind_eq_some_iff] at h
  obtain ⟨⟨n, stage⟩, hs, h⟩ := h
  split at h
  · next hstage =>
      cases hstage
      cases h
      exact ⟨n, hs, rfl⟩
  · cases h

/-- What a step of such a call leaves alone. -/
theorem of_stops {d d' : Deployment} {a : Action} (ha : a.stops = true)
    (step : d.perform a = some d') :
    ∃ tokens hubs shutdowns, d' = { d with tokens, hubs, shutdowns } := by
  cases a with
  | shutdown n =>
      cases step
      rw [shutdown]
      split <;> exact ⟨_, _, _, rfl⟩
  | takeHandle k =>
      obtain ⟨n, hub, -, -, rfl⟩ := of_takeHandle step
      exact ⟨_, _, _, rfl⟩
  | endShutdown k =>
      obtain ⟨n, -, -, rfl⟩ := of_endShutdown step
      exact ⟨_, _, _, rfl⟩
  | abandonShutdown k =>
      obtain ⟨n, -, rfl⟩ := of_abandonShutdown step
      exact ⟨_, _, _, rfl⟩
  | _ => cases ha

theorem happens_takeHandle {d d' : Deployment} {k : Nat} (h : d.takeHandle k = some d') :
    Happens d (d.event (.takeHandle k)) d' := by
  obtain ⟨n, hub, hs, hn, rfl⟩ := of_takeHandle h
  have hevent : d.event (.takeHandle k) = .detach n hub := by
    simp [event, takeHandleEvent, hs, hn]
  rw [hevent]
  refine ⟨(brokerHub?_core d n).trans hn, ?_⟩
  exact congrArg (Core.mk _ · _ _) (set_eq_modify (hubs_of_brokerHub? hn) rfl)

theorem happens_dropHub (d : Deployment) (n : Nat) :
    Happens d (d.event (.dropHub n)) (d.dropHub n) := by
  rw [dropHub]
  cases hn : d.brokerHub? n with
  | none =>
      have hevent : d.event (.dropHub n) = .idle := by simp [event, hn]
      rw [hevent]
      exact happens_idle rfl
  | some h =>
      have hevent : d.event (.dropHub n) = .cancel h.token := by simp [event, hn]
      rw [hevent]
      exact ⟨trivial, rfl⟩

/-! Rolls under way. Asking for one, throwing its dice and ending it leave the core. -/

theorem core_requestRoll {d : Deployment} {service : Nat} {ids : UInt64 → FreshIds}
    {now : Instant} {q : Request} {answer : Deployment × Except InvalidRequest Nat}
    (h : d.requestRoll service ids now q = some answer) : answer.1.core = d.core := by
  simp only [requestRoll, Option.bind_eq_bind, Option.bind_eq_some_iff] at h
  obtain ⟨s, -, h⟩ := h
  split at h
  · cases h; rfl
  · cases h; rfl

theorem core_throwDice {d d' : Deployment} {n : Nat} {throw : Roll → Except DiceError Roll}
    (h : d.throwDice n throw = some d') : d'.core = d.core := by
  simp only [throwDice, Option.bind_eq_bind, Option.bind_eq_some_iff] at h
  obtain ⟨c, -, h⟩ := h
  split at h
  · split at h
    · cases h; rfl
    · cases h; rfl
  · cases h

theorem core_endCreation {d d' : Deployment} {n : Nat} (h : d.endCreation n = some d') :
    d'.core = d.core := by
  simp only [endCreation, Option.bind_eq_bind, Option.bind_eq_some_iff] at h
  obtain ⟨c, -, h⟩ := h
  split at h
  · split at h
    · cases h; rfl
    · cases h
  · cases h

/-- An action that is performed is its event. -/
theorem happens_perform {d d' : Deployment} {a : Action} (h : d.perform a = some d') :
    Happens d (d.event a) d' := by
  cases a with
  | openMemory | openBare => cases h; exact ⟨⟨rfl, fun _ hr => (Except.ok.inj hr).symm⟩, rfl⟩
  | openFailing _ => cases h; exact ⟨⟨rfl, nofun⟩, rfl⟩
  | build c => cases h; exact happens_buildHub d c
  | newToken | childToken _ | cancel _ => cases h; exact ⟨trivial, rfl⟩
  | subscribe e room subscriber handler =>
      cases h
      exact happens_subscribe d e room subscriber handler
  | unsubscribe e room subscriber => cases h; exact happens_unsubscribe d e room subscriber
  | notify e r => cases h; exact happens_notify d e r
  | start n i => exact happens_startInvocation h
  | finish n i o => exact happens_finishInvocation h
  | conclude n => exact happens_conclude h
  | turn n => exact happens_turn h
  | shutdown n => cases h; exact happens_shutdown d n
  | takeHandle k => exact happens_takeHandle h
  | endShutdown k =>
      obtain ⟨n, -, -, rfl⟩ := of_endShutdown h
      exact happens_idle rfl
  | abandonShutdown k =>
      obtain ⟨n, -, rfl⟩ := of_abandonShutdown h
      exact happens_idle rfl
  | dropHub n => cases h; exact happens_dropHub d n
  | listen topic capacity closed => cases h; exact happens_listen d topic capacity closed
  | receive _ _ | closeChannel _ => cases h; exact ⟨trivial, rfl⟩
  | leave topic id => cases h; exact happens_leave d topic id
  | publish m => cases h; exact happens_publishMessage d m
  | setFaults _ _ _ | addService _ _ => cases h; exact happens_idle rfl
  | requestRoll service ids now q =>
      obtain ⟨answer, hanswer, rfl⟩ := Option.map_eq_some_iff.mp h
      exact happens_idle (core_requestRoll hanswer)
  | throwDice n throw => exact happens_idle (core_throwDice h)
  | tellRoll n => exact happens_tellRoll h
  | endCreation n => exact happens_idle (core_endCreation h)
  | subscribeViewer e id room handler =>
      cases h
      exact happens_subscribeViewer d e id room handler
  | unsubscribeViewer v => cases h; exact happens_unsubscribeViewer d v
  | openSession e id room => cases h; exact happens_openSession d e id room
  | closeSession s => cases h; exact happens_closeSession d s
  | dropRows _ | dropNotifications _ | readFeed _ => cases h; exact happens_idle rfl

end Deployment

end DiceRooms
