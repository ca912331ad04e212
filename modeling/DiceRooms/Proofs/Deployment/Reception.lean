import DiceRooms.Proofs.Deployment.Replicas
import DiceRooms.Proofs.Deployment.Traffic

/-!
What the loop of a hub goes by: the handlers, what it is doing, the messages that its channel
holds, whether more can come, and whether it has been cancelled. Everything that happens is one
input to it or none, and the inputs alone decide how it goes on.
-/
namespace DiceRooms

structure Reception where
  registry : Registry Handler
  doing : Doing
  /-- The messages in the channel, the oldest first. -/
  queue : List Message
  /-- More messages can come. -/
  live : Bool
  cancelled : Bool

inductive Input
  | register (room subscriber : String) (f : Handler)
  | unregister (room subscriber : String)
  | arrive (m : Message)
  /-- An invocation of the dispatch that the loop is telling begins or ends. -/
  | proceed (invocation : Nat) (after : Progress)
  | conclude
  | turn
  | cancel
  /-- Somebody else closes the channel or takes its registration. -/
  | cut

namespace Reception

/-- What a turn of the loop makes of it, where it can take one. -/
def turn (s : Reception) : Reception :=
  match s.doing with
  | .waiting =>
    if s.cancelled then { s with doing := .draining }
    else
      match s.queue with
      | [] => { s with doing := .draining }
      | m :: rest =>
        match Wire.decode m.payload with
        | .error _ => { s with queue := rest }
        | .ok r => { s with queue := rest, doing := .telling r (.ofRegistry s.registry r.room) }
  | .draining => { s with doing := .closed, live := false }
  | .closed => { s with doing := .stopped, live := false }
  | .telling .. | .stopped => s

def after (s : Reception) : Input → Reception
  | .register room subscriber f => { s with registry := (s.registry.set room subscriber f).1 }
  | .unregister room subscriber => { s with registry := (s.registry.delete room subscriber).1 }
  | .arrive m => { s with queue := s.queue ++ [m] }
  | .proceed i next => { s with doing := s.doing.proceed i next }
  | .conclude => { s with doing := .waiting }
  | .turn => s.turn
  | .cancel => { s with cancelled := true }
  | .cut => { s with live := false }

def hearing? (s : Reception) : Input → Option (String × Handler × Roll)
  | .proceed i _ => s.doing.hearing? i
  | _ => none

/-- The loop has something to do. -/
def canTurn (s : Reception) : Bool :=
  match s.doing with
  | .waiting => s.cancelled || !s.queue.isEmpty || !s.live
  | .draining | .closed => true
  | .telling .. | .stopped => false

end Reception

def View.reception (v : View) : Reception where
  registry := v.registry
  doing := v.doing
  queue := (v.channel.map (·.buffer)).getD []
  live := v.registered && v.isOpen
  cancelled := v.cancelled

def Core.reception (c : Core) (hub : BrokerHub) : Reception := (c.viewOf hub).reception

/-- The input to a live channel that a move at the broker is. -/
def Broker.Move.input? (topic : String) (id : Nat) : Broker.Move → Option Input
  | publish m => if m.topic = topic then some (.arrive m) else none
  | close k => if k = id then some .cut else none
  | leave topic' k => if topic' = topic ∧ k = id then some .cut else none
  | _ => none

/-- The input to the loop of a hub that the end of a token is. -/
def Core.cancelInput? (c : Core) (hub : BrokerHub) (t : Token) : Option Input :=
  if hub.token.DescendsFrom t ∧ c.tokens.isCancelled hub.token = false then some .cancel else none

/-- The input to the loop of the hub of the given number that an event is. -/
def Event.input? (c : Core) (n : Nat) (hub : BrokerHub) : Event → Option Input
  | register k room subscriber f => if k = n then some (.register room subscriber f) else none
  | unregister k room subscriber => if k = n then some (.unregister room subscriber) else none
  | broker move =>
    if (c.reception hub).live then move.input? hub.topic hub.subscription else none
  | announce k h r =>
    if (c.reception hub).live then (announce k h r).move.input? hub.topic hub.subscription
    else none
  | proceed k i _ after => if hub.phase = .dispatching k then some (.proceed i after) else none
  | conclude k _ => if hub.phase = .dispatching k then some .conclude else none
  | turn k _ _ => if k = n then some .turn else none
  | cancel t => c.cancelInput? hub t
  | _ => none

/-- Nobody but the loop takes messages from the channel, and whatever comes finds room. -/
structure Meets (c : Core) (hub : BrokerHub) (e : Event) : Prop where
  alone : ∀ topic, e ≠ .broker (.receive topic hub.subscription)
  roomy : ∀ m, e.move = .publish m → m.topic = hub.topic → (c.reception hub).live = true →
    ∀ ch, c.broker.channels[hub.subscription]? = some ch → ch.buffer.length < ch.capacity

/-! How a reception goes on. -/

theorem Reception.cut_of_not_live {s : Reception} (h : s.live = false) :
    { s with live := false } = s := by
  rw [← h]

namespace View

theorem reception_turn (v : View) : v.turn.reception = v.reception.turn := by
  obtain ⟨topic, registry, doing, joinable, channel, registered, cancelled⟩ := v
  cases doing with
  | telling r b | stopped => rfl
  | draining => cases channel <;> simp [turn, Reception.turn, reception, isOpen, Channel.close]
  | closed => simp [turn, Reception.turn, reception]
  | waiting =>
      cases cancelled with
      | true => rfl
      | false =>
          cases channel with
          | none => rfl
          | some ch =>
              obtain ⟨capacity, buffer, isOpen⟩ := ch
              cases buffer with
              | nil => rfl
              | cons m rest =>
                  simp only [turn, Reception.turn, reception, next?, take, Option.bind_some,
                    List.head?_cons, Option.map_some, Option.getD_some, Bool.false_eq_true,
                    if_false]
                  cases Wire.decode m.payload <;> rfl

/-- What comes into a live channel with room stands last there, and a channel that is not live
takes nothing. -/
theorem reception_publish (v : View) (m : Message)
    (roomy : v.reception.live = true → ∀ ch, v.channel = some ch →
      ch.buffer.length < ch.capacity) :
    (v.after (.publish m)).reception =
      if v.reception.live then v.reception.after (.arrive m) else v.reception := by
  obtain ⟨topic, registry, doing, joinable, channel, registered, cancelled⟩ := v
  cases registered with
  | false => rfl
  | true =>
      cases channel with
      | none => rfl
      | some ch =>
          obtain ⟨capacity, buffer, isOpen⟩ := ch
          cases isOpen with
          | false => simp [after, reception, View.isOpen, Channel.offer]
          | true =>
              have hroom : buffer.length < capacity := roomy rfl _ rfl
              simp [after, reception, View.isOpen, Channel.offer, hroom, Reception.after]

end View

section
variable {h : History} {c : Core} {e : Event} {n : Nat} {hub : BrokerHub}

/-- What has not touched the view has not touched what its loop goes by. -/
theorem reception_of_view (h : (c.apply e).viewOf (e.onHub n hub) = c.viewOf hub) :
    (c.apply e).reception (e.onHub n hub) = c.reception hub :=
  congrArg View.reception h

theorem reception_publish (reached : Reached h c) (hn : c.brokerHub? n = some hub) {m : Message}
    (hmove : e.move = .publish m) (honHub : e.onHub n hub = hub)
    (hphase : e.phase? n = none) (honDispatch : ∀ k p, e.onDispatch k p = p)
    (hdispatches : e.dispatches c.dispatches = c.dispatches)
    (htokens : e.tokens c.tokens = c.tokens) (meets : Meets c hub e) :
    (c.apply e).reception (e.onHub n hub) =
      ((if (c.reception hub).live then e.move.input? hub.topic hub.subscription
        else none).map (c.reception hub).after).getD (c.reception hub) := by
  rw [hmove, Broker.Move.input?]
  by_cases htopic : m.topic = hub.topic
  · have hview := viewOf_publish reached hmove htopic honHub hdispatches htokens
    rw [if_pos htopic, Core.reception, hview,
      View.reception_publish _ m (meets.roomy m hmove htopic), Core.reception]
    split <;> rfl
  · have hcancelled : (c.apply e).tokens = c.tokens := htokens
    have hsame := viewOf_of_untouched (congrArg _ honHub) (congrArg _ honHub)
      (doing_apply hphase (fun _ _ => honDispatch _ _) reached.busy hn)
      (feeding_apply reached hn (by rw [hmove]; nofun) (fun m' hm' => by
        cases hmove.symm.trans hm'
        exact htopic)) (by rw [hcancelled])
    rw [reception_of_view hsame, if_neg htopic, ite_self]
    rfl

/-- Whoever closes the channel or takes its registration leaves what it holds, and if nothing
could come any more that is how it stays. -/
theorem reception_of_cut {move : Broker.Move}
    (hqueue : (c.broker.apply move).channels[hub.subscription]?.map (·.buffer) =
      c.broker.channels[hub.subscription]?.map (·.buffer))
    (hgone : ((c.broker.apply move).isRegistered hub.topic hub.subscription &&
      (c.broker.apply move).isOpen hub.subscription) = false) :
    (c.apply (.broker move)).reception hub =
      ((if (c.reception hub).live then some Input.cut else none).map
        (c.reception hub).after).getD (c.reception hub) := by
  have hnow : (c.apply (.broker move)).reception hub = { c.reception hub with live := false } := by
    rw [← hgone]
    exact congrArg (fun queue => { (c.apply (.broker move)).reception hub with
      queue := queue.getD [] }) hqueue
  rw [hnow]
  cases hlive : (c.reception hub).live with
  | true => rfl
  | false => exact Reception.cut_of_not_live hlive

/-- A move that leaves the channel and its registration is no input to the loop. -/
theorem reception_of_spared {move : Broker.Move}
    (hnone : move.input? hub.topic hub.subscription = none)
    (hfeeding : (c.broker.apply move).channels[hub.subscription]? =
        c.broker.channels[hub.subscription]? ∧
      (c.broker.apply move).isRegistered hub.topic hub.subscription =
        c.broker.isRegistered hub.topic hub.subscription) :
    (c.apply (.broker move)).reception hub =
      (((Event.broker move).input? c n hub).map (c.reception hub).after).getD
        (c.reception hub) := by
  have hview : (c.apply (.broker move)).viewOf hub = c.viewOf hub :=
    viewOf_of_untouched (n := n) (e := .broker move) rfl rfl rfl hfeeding rfl
  rw [Event.input?, hnone, ite_self]
  exact congrArg View.reception hview

theorem reception_close (reached : Reached h c) (hn : c.brokerHub? n = some hub) (k : Nat) :
    (c.apply (.broker (.close k))).reception hub =
      (((Event.broker (.close k)).input? c n hub).map (c.reception hub).after).getD
        (c.reception hub) := by
  by_cases heq : k = hub.subscription
  · subst heq
    have hchannel := Broker.channels_closeChannel c.broker hub.subscription hub.subscription
    rw [if_pos rfl] at hchannel
    have hinput : (Broker.Move.close hub.subscription).input? hub.topic hub.subscription =
        some .cut := if_pos rfl
    rw [Event.input?, hinput]
    refine reception_of_cut ?_ ?_
    · rw [Broker.apply, hchannel, Option.map_map]
      rfl
    · rw [Broker.isOpen_close, Bool.and_false]
  · exact reception_of_spared (if_neg heq) (feeding_apply (e := .broker (.close k)) reached hn
      (fun h => heq (Option.some.inj h)) (by rintro m ⟨⟩))

theorem reception_leave (n : Nat) (hub : BrokerHub) (topic : String) (k : Nat) :
    (c.apply (.broker (.leave topic k))).reception hub =
      (((Event.broker (.leave topic k)).input? c n hub).map (c.reception hub).after).getD
        (c.reception hub) := by
  have hchannels : (c.broker.apply (.leave topic k)).channels = c.broker.channels :=
    Broker.channels_unsubscribe c.broker topic k
  have hsubscriptions := Broker.subscriptions_unsubscribe c.broker topic hub.topic k
  by_cases heq : topic = hub.topic ∧ k = hub.subscription
  · obtain ⟨rfl, rfl⟩ := heq
    have hgone : (c.broker.apply (.leave hub.topic hub.subscription)).isRegistered hub.topic
        hub.subscription = false := by
      rw [Broker.isRegistered, Broker.apply, hsubscriptions, if_pos rfl]
      simp
    have hinput : (Broker.Move.leave hub.topic hub.subscription).input? hub.topic
        hub.subscription = some .cut := if_pos ⟨rfl, rfl⟩
    rw [Event.input?, hinput]
    exact reception_of_cut (by rw [hchannels]) (by rw [hgone, Bool.false_and])
  · refine reception_of_spared (if_neg heq) ⟨by rw [hchannels], ?_⟩
    rw [Broker.isRegistered, Broker.apply, hsubscriptions]
    split
    · next htopic =>
        have hk : hub.subscription ≠ k := fun h => heq ⟨htopic, h.symm⟩
        rw [htopic, Broker.isRegistered, Bool.eq_iff_iff]
        simp [hk]
    · rfl

theorem reception_broker (reached : Reached h c) (hn : c.brokerHub? n = some hub)
    {move : Broker.Move} (meets : Meets c hub (.broker move)) :
    (c.apply (.broker move)).reception hub =
      (((Event.broker move).input? c n hub).map (c.reception hub).after).getD
        (c.reception hub) := by
  cases move with
  | stay =>
      exact reception_of_spared rfl
        (feeding_apply (e := .broker .stay) reached hn (by rintro ⟨⟩) (by rintro m ⟨⟩))
  | subscribe topic capacity =>
      exact reception_of_spared rfl (feeding_apply (e := .broker (.subscribe topic capacity))
        reached hn (by rintro ⟨⟩) (by rintro m ⟨⟩))
  | publish m =>
      exact reception_publish (e := .broker (.publish m)) reached hn rfl rfl rfl (fun _ _ => rfl)
        rfl rfl meets
  | receive topic k =>
      refine reception_of_spared rfl (feeding_apply (e := .broker (.receive topic k)) reached hn
        (fun heq => ?_) (by rintro m ⟨⟩))
      obtain rfl : k = hub.subscription := Option.some.inj heq
      exact meets.alone topic rfl
  | close k => exact reception_close reached hn k
  | leave topic k => exact reception_leave n hub topic k

theorem reception_registry (reached : Reached h c) (hn : c.brokerHub? n = some hub) {k : Nat}
    (change : Registry Handler → Registry Handler) (input : Input) (hmove : e.move = .stay)
    (hphase : e.phase? n = none) (hdispatch : ∀ k p, e.onDispatch k p = p)
    (htokens : e.tokens c.tokens = c.tokens)
    (honHub : e.onHub n hub =
      if k = n then { hub with registry := change hub.registry } else hub)
    (hinput : (c.reception hub).after input =
      { c.reception hub with registry := change hub.registry }) :
    (c.apply e).reception (e.onHub n hub) =
      ((if k = n then some input else none).map (c.reception hub).after).getD
        (c.reception hub) := by
  rw [Core.reception, viewOf_registry reached hn change hmove hphase hdispatch htokens honHub]
  split
  · exact hinput.symm
  · rfl

/-- The end of a token goes to the loops whose tokens descend from it. -/
theorem reception_cancel (reached : Reached h c) (hn : c.brokerHub? n = some hub) (t : Token) :
    (c.apply (.cancel t)).reception hub =
      ((c.cancelInput? hub t).map (c.reception hub).after).getD (c.reception hub) := by
  have hdoing := doing_apply (e := .cancel t) rfl (fun _ _ => rfl) reached.busy hn
  have hfeeding := feeding_apply (e := .cancel t) reached hn nofun nofun
  have hcancelled : (c.apply (.cancel t)).tokens.isCancelled hub.token = true ↔
      hub.token.DescendsFrom t ∨ c.tokens.isCancelled hub.token = true :=
    c.tokens.isCancelled_cancel t hub.token
  have hnow : (c.apply (.cancel t)).reception hub =
      { c.reception hub with
        cancelled := (c.apply (.cancel t)).tokens.isCancelled hub.token } := by
    have hview := viewOf_onHub c (.cancel t) n hub
    rw [hdoing, hfeeding.1, hfeeding.2] at hview
    exact congrArg View.reception hview
  rw [hnow, Core.cancelInput?]
  split
  · next hreaches =>
      rw [hcancelled.mpr (.inl hreaches.1)]
      rfl
  · next hnot =>
      have hsame : (c.apply (.cancel t)).tokens.isCancelled hub.token =
          c.tokens.isCancelled hub.token := by
        rw [Bool.eq_iff_iff, hcancelled]
        refine or_iff_right_of_imp fun hdescends => ?_
        by_contra hstill
        exact hnot ⟨hdescends, Bool.eq_false_iff.mpr hstill⟩
      rw [hsame]
      rfl

/-- When a loop leaves, its channel is closed; that the call gets to the broker is not needed. -/
theorem reception_turn (tenants : Tenants c) (hn : c.brokerHub? n = some hub) {t : Turn}
    (possible : t.Possible c hub) :
    (c.apply (.turn n hub t)).reception ((Event.turn n hub t).onHub n hub) =
      (c.reception hub).turn := by
  by_cases hfails : t = .leave false
  · subst hfails
    have honHub : (Event.turn n hub (.leave false)).onHub n hub = { hub with phase := .stopped } :=
      if_pos rfl
    have hphase : hub.phase = .closed := possible
    have hclosed := tenants.closed hn (.inl hphase)
    have hlive : (c.reception hub).live = false := by
      show (c.broker.isRegistered hub.topic hub.subscription &&
        c.broker.isOpen hub.subscription) = false
      rw [hclosed, Bool.and_false]
    have hdoing : (c.reception hub).doing = .closed := by
      show Doing.ofPhase c.dispatches hub.phase = .closed
      rw [hphase]
      rfl
    rw [Reception.turn, hdoing, honHub]
    show { c.reception hub with doing := .stopped } = _
    rw [← hlive]
  · rw [Core.reception, viewOf_turn possible hfails, View.reception_turn]
    rfl

/-- The loop goes on by its inputs, and by nothing else. -/
theorem reception_apply (reached : Reached h c) (tenants : Tenants c) (possible : e.Possible c)
    (hn : c.brokerHub? n = some hub) (meets : Meets c hub e) :
    (c.apply e).reception (e.onHub n hub) =
      ((e.input? c n hub).map (c.reception hub).after).getD (c.reception hub) := by
  cases e with
  | idle | hub _ | build _ _ | token | tell _ _ _ =>
      exact congrArg View.reception
        (viewOf_of_untouched rfl rfl (doing_apply rfl (fun _ _ => rfl) reached.busy hn)
          (feeding_apply reached hn nofun nofun) rfl)
  | broker move => exact reception_broker reached hn meets
  | register k room subscriber f =>
      exact reception_registry (k := k) reached hn (fun r => (r.set room subscriber f).1) _ rfl rfl
        (fun _ _ => rfl) rfl rfl rfl
  | unregister k room subscriber =>
      exact reception_registry (k := k) reached hn (fun r => (r.delete room subscriber).1) _ rfl rfl
        (fun _ _ => rfl) rfl rfl rfl
  | announce k other r =>
      exact reception_publish reached hn rfl rfl rfl (fun _ _ => rfl) rfl rfl meets
  | proceed k i first next =>
      refine (congrArg View.reception (viewOf_proceed reached hn)).trans ?_
      simp only [Event.concern?, Event.input?]
      split <;> rfl
  | conclude k p =>
      refine (congrArg View.reception (viewOf_conclude reached hn possible)).trans ?_
      simp only [Event.concern?, Event.input?]
      split <;> rfl
  | turn k other t =>
      rw [Event.input?]
      split
      · next heq =>
          subst heq
          obtain ⟨rfl, hturn⟩ := Event.of_turn possible hn
          exact reception_turn tenants hn hturn
      · next hne => exact congrArg View.reception (viewOf_turn_elsewhere reached hn possible.1 hne)
  | cancel t => exact reception_cancel reached hn t
  | detach k other =>
      refine (congrArg View.reception (viewOf_detach reached hn)).trans ?_
      simp only [Event.concern?, Event.input?]
      split <;> rfl

/-- Who hears of a roll shows in the input. -/
theorem hearing?_eq_input (n : Nat) (hub : BrokerHub) (possible : e.Possible c) :
    e.hearing? c hub = (e.input? c n hub).bind (c.reception hub).hearing? := by
  cases e with
  | proceed k i first next =>
      rw [hearing?_eq n hub possible]
      simp only [Event.concern?, Event.input?]
      split <;> rfl
  | register _ _ _ _ | unregister _ _ _ | conclude _ _ | turn _ _ _ =>
      simp only [Event.input?]
      split <;> rfl
  | cancel _ =>
      simp only [Event.input?, Core.cancelInput?]
      split <;> rfl
  | announce _ _ _ =>
      simp only [Event.input?, Event.move, Broker.Move.input?]
      repeat' split
      all_goals rfl
  | broker move =>
      simp only [Event.input?]
      cases move <;> simp only [Broker.Move.input?] <;> repeat' split
      all_goals rfl
  | _ => rfl

end

/-! When a loop can take a turn. -/

theorem Broker.receive_eq_empty_iff (b : Broker) (topic : String) (id : Nat) :
    (b.receive topic id).2 = .empty ↔ (b.channels[id]?.map (·.buffer)).getD [] = [] ∧
      (b.isRegistered topic id && b.isOpen id) = true := by
  rw [receive, isOpen]
  cases b.channels[id]? with
  | none => simp
  | some ch =>
      obtain ⟨capacity, buffer, isOpen⟩ := ch
      cases buffer with
      | nil => 
          simp only [Channel.take?, Option.map_some, Option.getD_some, true_and]
          rw [Bool.and_comm]
          split <;> simp_all
      | cons m rest => simp [Channel.take?]

namespace Deployment

variable {d d' : Deployment} {n : Nat} {hub : BrokerHub}

theorem takeMessage_isSome_iff (d : Deployment) (n : Nat) (hub : BrokerHub) :
    (d.takeMessage n hub).isSome = true ↔
      (d.exchange.broker.receive hub.topic hub.subscription).2 ≠ .empty := by
  rw [takeMessage]
  cases hreceived : (d.exchange.broker.receive hub.topic hub.subscription).2 with
  | empty | closed => simp [hreceived]
  | message m => cases hdecode : Wire.decode m.payload <;> simp [hreceived, hdecode]

theorem turn_isSome_iff (busy : Busy d.core) (hn : d.brokerHub? n = some hub) :
    (d.turn n).isSome = true ↔ (d.core.reception hub).canTurn = true := by
  have hdoing : (d.core.reception hub).doing = .ofPhase d.core.dispatches hub.phase := rfl
  rw [turn, hn, Reception.canTurn, hdoing]
  cases hphase : hub.phase with
  | running =>
      have hcancelled : (d.core.reception hub).cancelled = d.tokens.isCancelled hub.token := rfl
      simp only [hphase, Doing.ofPhase, hcancelled]
      cases d.tokens.isCancelled hub.token with
      | true => simp
      | false =>
          have hempty : (d.exchange.broker.receive hub.topic hub.subscription).2 = .empty ↔
              (d.core.reception hub).queue = [] ∧ (d.core.reception hub).live = true :=
            Broker.receive_eq_empty_iff d.exchange.broker hub.topic hub.subscription
          rw [if_neg Bool.false_ne_true, takeMessage_isSome_iff, Ne, hempty, Bool.false_or,
            Bool.or_eq_true, Bool.not_eq_true', Bool.not_eq_true', ← Bool.not_eq_true,
            List.isEmpty_iff, ← Bool.not_eq_true, not_and_or]
  | dispatching k =>
      obtain ⟨p, hp, -, -⟩ := busy.telling ((brokerHub?_core d n).trans hn) hphase
      simp [hphase, Doing.ofPhase, hp]
  | draining | closed | stopped => simp [hphase, Doing.ofPhase]

/-- What the loop of the hub goes by, if there is one of that number. -/
def reception? (d : Deployment) (n : Nat) : Option Reception :=
  (d.brokerHub? n).map d.core.reception

theorem Run.tenants {as : List Action} (run : Run d as d') (tenants : Tenants d.core) :
    Tenants d'.core := by
  induction run with
  | nil d => exact tenants
  | @cons d d₁ d' a as step _ ih =>
      have happens := happens_perform step
      refine ih ?_
      rw [happens.core_eq]
      exact tenants.apply happens.possible (d.arrives_event a)

theorem reception?_perform {as : List Action} (before : Run .empty as d)
    (hn : d.brokerHub? n = some hub) {a : Action} (step : d.perform a = some d')
    (meets : Meets d.core hub (d.event a)) :
    d'.reception? n = some ((((d.event a).input? d.core n hub).map
      (d.core.reception hub).after).getD (d.core.reception hub)) := by
  have happens := happens_perform step
  have hn₀ := (brokerHub?_core d n).trans hn
  have hafter := Core.brokerHub?_apply_of_some happens.possible hn₀
  rw [← happens.core_eq, brokerHub?_core] at hafter
  rw [reception?, hafter, Option.map_some, happens.core_eq]
  exact congrArg some
    (reception_apply before.reached (before.tenants .empty) happens.possible hn₀ meets)

end Deployment

namespace Trace

/-- What the loop of the hub went by, and the input to it. -/
def inputAt (n : Nat) : Deployment × Action → Option (Reception × Input)
  | (d, a) => do
    let hub ← d.brokerHub? n
    let input ← (d.event a).input? d.core n hub
    some (d.core.reception hub, input)

def met (tr : Trace) (n : Nat) : List (Reception × Input) := tr.filterMap (inputAt n)

theorem hearingAt_eq_inputAt {d d' : Deployment} {a : Action} (step : d.perform a = some d')
    (n : Nat) : hearingAt n (d, a) = (inputAt n (d, a)).bind fun s => s.1.hearing? s.2 := by
  have possible := (Deployment.happens_perform step).possible
  rw [hearingAt, inputAt]
  cases d.brokerHub? n with
  | none => rfl
  | some hub =>
      rw [Option.bind_some, hearing?_eq_input n hub possible]
      cases hinput : (d.event a).input? d.core n hub <;> simp [hinput]

/-- All along, nobody but the loop of the hub takes messages from its channel, and there is
room in it for each that comes. -/
def Served (tr : Trace) (n : Nat) : Prop :=
  ∀ s ∈ tr, ∀ hub, s.1.brokerHub? n = some hub → Meets s.1.core hub (s.1.event s.2)

end Trace

end DiceRooms
