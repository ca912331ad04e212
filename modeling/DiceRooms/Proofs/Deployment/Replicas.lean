import DiceRooms.Proofs.Deployment.Stopping
import DiceRooms.Proofs.Deployment.View

/-!
Replicas do not disturb each other. Two runs in which a hub meets the same concerns in the same
order are the same to it, however they differ in everything else: its handlers hear the same,
its operations answer the same, and its loop ends in the same state. Publishing waits for no
handler in either.
-/
namespace DiceRooms

/-- What an operation of a hub answers. -/
inductive Reply
  | changed (answer : Except HubError Bool)
  /-- Whether a shutdown that comes for the handle of the loop has to wait. -/
  | waits (answer : Bool)

namespace View

def isStopped (v : View) : Bool :=
  match v.doing with
  | .stopped => true
  | _ => false

def reply? (v : View) : Concern → Option Reply
  | .register room subscriber h => some (.changed (.ok (v.registry.set room subscriber h).2))
  | .unregister room subscriber => some (.changed (.ok (v.registry.delete room subscriber).2))
  | .detach => some (.waits (v.joinable && !v.isStopped))
  | _ => none

end View

namespace Deployment

/-- The answer of the hub of the given number to the operation that an action is or makes. -/
def reply? (d : Deployment) (n : Nat) : Action → Option Reply
  | .subscribe e room subscriber h =>
    if e.hub = n then some (.changed (d.subscribe e room subscriber h).2) else none
  | .unsubscribe e room subscriber =>
    if e.hub = n then some (.changed (d.unsubscribe e room subscriber).2) else none
  | .subscribeViewer e id room h =>
    if e.hub = n ∧ room ≠ "" then some (.changed (d.subscribe e room id h).2) else none
  | .unsubscribeViewer v =>
    if v.endpoint.hub = n then some (.changed (d.unsubscribe v.endpoint v.room v.id).2) else none
  | .openSession e id room =>
    if e.hub = n then some (.changed (d.subscribe e room id (.feed d.feeds.length)).2) else none
  | .closeSession s =>
    if s.endpoint.hub = n then some (.changed (d.unsubscribe s.endpoint s.room s.id).2) else none
  | .takeHandle k =>
    if d.shutdowns[k]? = some ⟨n, .called⟩ then some (.waits (d.isRunning n)) else none
  | _ => none

end Deployment

namespace Trace

/-- The part of an action that concerns the hub. The end of another hub does not. -/
def concernAt (n : Nat) : Deployment × Action → Option Concern
  | (d, a) =>
    match d.brokerHub? n with
    | none => (d.event a).birth? d.core n
    | some hub =>
      match a with
      | .shutdown k | .dropHub k => if k = n then (d.event a).concern? d.core n hub else none
      | _ => (d.event a).concern? d.core n hub

/-- What concerns the hub in a run, in order. -/
def concerns (tr : Trace) (n : Nat) : List Concern := tr.filterMap (concernAt n)

def hearingAt (n : Nat) : Deployment × Action → Option (String × Handler × Roll)
  | (d, a) => (d.brokerHub? n).bind fun hub => (d.event a).hearing? d.core hub

/-- The rolls that the handlers of the hub are called with, in order. -/
def hearings (tr : Trace) (n : Nat) : List (String × Handler × Roll) :=
  tr.filterMap (hearingAt n)

def replyAt (n : Nat) : Deployment × Action → Option Reply
  | (d, a) => (d.brokerHub? n).bind fun _ => d.reply? n a

/-- What the operations of the hub have answered. -/
def replies (tr : Trace) (n : Nat) : List Reply := tr.filterMap (replyAt n)

end Trace

/-! What a view tells of a run. -/

/-- What is seen of each step, from the view before it and what concerns the hub then. -/
def View.observe {α : Type} (f : View → Concern → Option α) : Option View → List Concern → List α
  | _, [] => []
  | v?, concern :: concerns =>
    (v?.bind (f · concern)).toList ++ observe f (View.next v? concern) concerns

theorem View.observe_concat {α : Type} (f : View → Concern → Option α) (v? : Option View)
    (concerns : List Concern) (concern : Concern) :
    observe f v? (concerns ++ [concern]) =
      observe f v? concerns ++ ((concerns.foldl View.next v?).bind (f · concern)).toList := by
  induction concerns generalizing v? with
  | nil => simp [observe]
  | cons first concerns ih => simp [observe, ih]

variable {tr : Trace} {d d' : Deployment} {a : Action} {n : Nat}

/-- The end of another hub does not reach the token of this one. -/
theorem Kinship.not_descends (kin : Kinship tr d) {k : Nat} {hub other : BrokerHub}
    (hn : d.brokerHub? n = some hub) (hk : d.brokerHub? k = some other) (hne : k ≠ n) :
    ¬ hub.token.DescendsFrom other.token := by
  intro hdescends
  rcases List.mem_cons.mp hdescends with hown | hancestor
  · exact hne (kin.apart hk hn hown)
  · obtain ⟨token, htoken, -, hancestors⟩ := kin.parent hn
    rw [hancestors] at hancestor
    obtain ⟨u, hu, hnumber⟩ := kin.callers token htoken _ hancestor
    exact kin.own hk u hu hnumber

theorem Permitted.minds (permitted : Permitted tr d a) {hub : BrokerHub}
    (hn : d.brokerHub? n = some hub) : Minds d.core n hub (d.event a) where
  hands hevent htarget := Deployment.target?_of_permitted permitted hevent htarget hn rfl
  arrives := d.arrives_event a

/-- The end of another hub would be no concern of the hub anyway. -/
theorem Conduct.concernAt_eq (conduct : Conduct tr d) {hub : BrokerHub}
    (hn : d.brokerHub? n = some hub) :
    Trace.concernAt n (d, a) = (d.event a).concern? d.core n hub := by
  rw [Trace.concernAt, hn]
  cases a with
  | shutdown k | dropHub k =>
      simp only
      split
      · rfl
      · next hne =>
          rw [Deployment.event]
          cases hk : d.brokerHub? k with
          | none => rfl
          | some other =>
              have hnot := conduct.kinship.not_descends hn hk hne
              exact (if_neg fun h => hnot h.1).symm
  | _ => rfl

theorem Conduct.view?_step (conduct : Conduct tr d) (permitted : Permitted tr d a)
    (performed : d.perform a = some d')
    (hdirect : ∀ hub, d'.brokerHub? n = some hub → hub.route = .direct) :
    d'.core.view? n = (Trace.concernAt n (d, a)).elim (d.core.view? n)
      (View.next (d.core.view? n)) := by
  have happens := Deployment.happens_perform performed
  have possible := happens.possible
  cases hn : d.brokerHub? n with
  | none =>
      have hn' := (Deployment.brokerHub?_core d n).trans hn
      have hbirth := view?_birth possible hn' fun h => (Deployment.of_event_eq_build h).1
      rw [happens.core_eq, hbirth, Trace.concernAt, hn, Core.view?, hn', Option.map_none]
      cases (d.event a).birth? d.core n <;> rfl
  | some hub =>
      have hn' := (Deployment.brokerHub?_core d n).trans hn
      have hafter := Core.brokerHub?_apply_of_some possible hn'
      have hroute : hub.route = .direct := by
        rw [← happens.core_eq, Deployment.brokerHub?_core] at hafter
        rw [← hdirect _ hafter, Event.route_onHub]
      rw [happens.core_eq, Core.view?, hafter, Option.map_some, Core.view?, hn', Option.map_some,
        viewOf_apply conduct.reached possible hn' hroute (permitted.minds hn),
        conduct.concernAt_eq hn]
      cases (d.event a).concern? d.core n hub <;> rfl

theorem Conduct.hearingAt_eq (conduct : Conduct tr d) (performed : d.perform a = some d') :
    Trace.hearingAt n (d, a) = (Trace.concernAt n (d, a)).bind fun concern =>
      (d.core.view? n).bind (·.hearing? concern) := by
  rw [Core.view?, Deployment.brokerHub?_core, Trace.hearingAt]
  cases hn : d.brokerHub? n with
  | none => simp
  | some hub =>
      rw [Option.bind_some, Option.map_some, conduct.concernAt_eq hn,
        hearing?_eq n hub (Deployment.happens_perform performed).possible]
      rfl

/-! Answers. -/

namespace Deployment

theorem changeRegistry_of_broker {e : Endpoint} {hub : BrokerHub}
    (hn : d.brokerHub? e.hub = some hub) (op : Operation)
    (change : Registry Handler → Registry Handler × Bool) (notice : Bool → Notice) :
    (d.changeRegistry e op change notice).2 = .ok (change hub.registry).2 := by
  rw [changeRegistry, hubs_of_brokerHub? hn]
  rfl

theorem isStopped_viewOf (c : Core) (hub : BrokerHub) :
    (c.viewOf hub).isStopped = (hub.phase == .stopped) := by
  rw [View.isStopped, Core.viewOf]
  cases hphase : hub.phase with
  | dispatching k => cases hp : c.dispatches[k]? <;> simp [Doing.ofPhase, hp]
  | _ => rfl

/-- The event is one that a hub answers. -/
def asks : Event → Bool
  | .register .. | .unregister .. | .detach .. => true
  | _ => false

/-- The action is one that a hub answers. -/
def asksBy : Action → Bool
  | .subscribe .. | .subscribeViewer .. | .openSession .. | .unsubscribe .. | .unsubscribeViewer _
  | .closeSession _ | .takeHandle _ => true
  | _ => false

theorem not_asks_event (ha : asksBy a = false) : asks (d.event a) = false := by
  have causes := d.causes_event a
  generalize d.event a = e at causes ⊢
  cases causes with
  | subscribe _ _ _ _ | subscribeViewer _ _ _ _ | openSession _ _ _ | unsubscribe _ _ _
  | unsubscribeViewer _ | closeSession _ | takeHandle _ _ _ => cases ha
  | _ => rfl

theorem reply?_of_not_asks {e : Event} (h : asks e = false) (c : Core) (n : Nat)
    (hub : BrokerHub) : (e.concern? c n hub).bind (c.viewOf hub).reply? = none := by
  cases e with
  | register _ _ _ _ | unregister _ _ _ | detach _ _ => cases h
  | broker move =>
      cases move with
      | publish m => simp only [Event.concern?]; split <;> rfl
      | _ => rfl
  | announce _ _ _ | proceed _ _ _ _ | conclude _ _ | turn _ _ _ | cancel _ =>
      simp only [Event.concern?]
      split <;> rfl
  | _ => rfl

section
variable {hub : BrokerHub} (hn : d.brokerHub? n = some hub)
include hn

theorem reply?_subscribe (e : Endpoint) (room subscriber : String) (h : Handler) :
    (if e.hub = n then some (Reply.changed (d.subscribe e room subscriber h).2) else none) =
      ((Event.register e.hub room subscriber h).concern? d.core n hub).bind
        (d.core.viewOf hub).reply? := by
  simp only [Event.concern?]
  split
  · next heq =>
      subst heq
      rw [subscribe, changeRegistry_of_broker hn]
      rfl
  · rfl

theorem reply?_unsubscribe (e : Endpoint) (room subscriber : String) :
    (if e.hub = n then some (Reply.changed (d.unsubscribe e room subscriber).2) else none) =
      ((Event.unregister e.hub room subscriber).concern? d.core n hub).bind
        (d.core.viewOf hub).reply? := by
  simp only [Event.concern?]
  split
  · next heq =>
      subst heq
      rw [unsubscribe, changeRegistry_of_broker hn]
      rfl
  · rfl

theorem reply?_takeHandle (k : Nat) :
    (if d.shutdowns[k]? = some ⟨n, .called⟩ then some (Reply.waits (d.isRunning n)) else none) =
      ((d.event (.takeHandle k)).concern? d.core n hub).bind (d.core.viewOf hub).reply? := by
  split
  · next hs =>
      have hevent : d.event (.takeHandle k) = .detach n hub := by
        simp [event, takeHandleEvent, hs, hn]
      simp only [hevent, Event.concern?, if_true, Option.bind_some, View.reply?,
        isStopped_viewOf, isRunning, hn, Option.map_some, Option.getD_some]
      rfl
  · next hother =>
      have causes := d.causes_event (.takeHandle k)
      generalize d.event (.takeHandle k) = e at causes ⊢
      cases causes with
      | idle => rfl
      | @takeHandle _ s _ hs called =>
          obtain ⟨m, stage⟩ := s
          obtain rfl : stage = .called := called
          have hne : m ≠ n := fun heq => hother (heq ▸ hs)
          simp [Event.concern?, hne]
      | byHand byHand => cases byHand

/-- An answer is that of the view to what concerns the hub. -/
theorem reply?_eq (a : Action) :
    d.reply? n a = ((d.event a).concern? d.core n hub).bind (d.core.viewOf hub).reply? := by
  have hquiet : asks (d.event a) = false →
      none = ((d.event a).concern? d.core n hub).bind (d.core.viewOf hub).reply? :=
    fun h => (reply?_of_not_asks h d.core n hub).symm
  cases a with
  | subscribe e room subscriber h => exact reply?_subscribe hn e room subscriber h
  | unsubscribe e room subscriber => exact reply?_unsubscribe hn e room subscriber
  | subscribeViewer e id room h =>
      simp only [reply?, event]
      by_cases hroom : room = ""
      · simp only [hroom, ne_eq, not_true_eq_false, and_false, if_false, if_true]
        rfl
      · simp only [hroom, ne_eq, not_false_eq_true, and_true, if_false]
        exact reply?_subscribe hn e room id h
  | unsubscribeViewer v => exact reply?_unsubscribe hn v.endpoint v.room v.id
  | openSession e id room => exact reply?_subscribe hn e room id _
  | closeSession s => exact reply?_unsubscribe hn s.endpoint s.room s.id
  | takeHandle k => exact reply?_takeHandle hn k
  | _ => exact hquiet (not_asks_event rfl)

end

end Deployment

theorem Conduct.replyAt_eq (conduct : Conduct tr d) :
    Trace.replyAt n (d, a) = (Trace.concernAt n (d, a)).bind fun concern =>
      (d.core.view? n).bind (·.reply? concern) := by
  rw [Core.view?, Deployment.brokerHub?_core, Trace.replyAt]
  cases hn : d.brokerHub? n with
  | none => simp
  | some hub =>
      rw [Option.bind_some, Option.map_some, conduct.concernAt_eq hn,
        Deployment.reply?_eq hn]
      rfl

/-! Runs as a whole. -/

/-- A hub goes to the broker as it has been built to. -/
theorem direct_of_perform (performed : d.perform a = some d')
    (hdirect : ∀ hub, d'.brokerHub? n = some hub → hub.route = .direct) :
    ∀ hub, d.brokerHub? n = some hub → hub.route = .direct := by
  intro hub hn
  have happens := Deployment.happens_perform performed
  have hafter := Core.brokerHub?_apply_of_some happens.possible
    ((Deployment.brokerHub?_core d n).trans hn)
  rw [← happens.core_eq, Deployment.brokerHub?_core] at hafter
  rw [← hdirect _ hafter, Event.route_onHub]

theorem Trace.concerns_concat (tr : Trace) (s : Deployment × Action) (n : Nat) :
    concerns (tr ++ [s]) n = tr.concerns n ++ (concernAt n s).toList :=
  Broker.filterMap_concat _ tr s

theorem Trace.concerns_append (tr tr' : Trace) (n : Nat) :
    concerns (tr ++ tr') n = tr.concerns n ++ tr'.concerns n :=
  List.filterMap_append

/-- The view of a hub comes of its concerns alone. -/
theorem Conduct.view?_eq (conduct : Conduct tr d)
    (hdirect : ∀ hub, d.brokerHub? n = some hub → hub.route = .direct) :
    d.core.view? n = (tr.concerns n).foldl View.next none := by
  induction conduct with
  | start => rfl
  | @step tr d d' a before permitted performed ih =>
      rw [before.view?_step permitted performed hdirect, Trace.concerns_concat,
        List.foldl_append, ← ih (direct_of_perform performed hdirect)]
      cases Trace.concernAt n (d, a) <;> rfl

/-- What can be told from the views before the steps comes of the concerns alone. -/
theorem Conduct.observed {α : Type} {f : View → Concern → Option α}
    {g : Deployment × Action → Option α}
    (hg : ∀ {tr d d' a}, Conduct tr d → d.perform a = some d' →
      g (d, a) = (Trace.concernAt n (d, a)).bind fun concern =>
        (d.core.view? n).bind (f · concern))
    (conduct : Conduct tr d) (hdirect : ∀ hub, d.brokerHub? n = some hub → hub.route = .direct) :
    tr.filterMap g = View.observe f none (tr.concerns n) := by
  induction conduct with
  | start => rfl
  | @step tr d d' a before permitted performed ih =>
      have hbefore := direct_of_perform performed hdirect
      rw [Broker.filterMap_concat, Trace.concerns_concat, ih hbefore, hg before performed]
      cases Trace.concernAt n (d, a) with
      | none => simp
      | some concern =>
          rw [Option.toList_some, View.observe_concat, ← before.view?_eq hbefore]
          rfl

/-! Publishing. -/

/-- Publishing is done at once, whatever the hubs are doing: it serves all who are registered,
begins no dispatch, and neither waits for one nor changes it. -/
structure Prompt (d : Deployment) : Prop where
  publish : ∀ m, ∃ d', d.publishMessage m = (d', .ok ()) ∧ d'.hubs = d.hubs ∧
    d'.dispatches = d.dispatches ∧ d'.exchange.broker =
      d.exchange.broker.deliver m (d.exchange.broker.subscriptions m.topic)
  notify : ∀ {e hub}, d.brokerHub? e.hub = some hub → hub.route = .direct → ∀ r,
    ∃ d', d.notify e r = (d', .done (.ok ())) ∧ d'.hubs = d.hubs ∧
      d'.dispatches = d.dispatches ∧ d'.exchange.broker =
        d.exchange.broker.deliver ⟨hub.topic, Wire.encode r⟩
          (d.exchange.broker.subscriptions hub.topic)

theorem prompt (d : Deployment) : Prompt d where
  publish m := ⟨_, rfl, rfl, rfl, Broker.publish_eq_deliver _ m⟩
  notify {e hub} hn hroute r := by
    rw [Deployment.notify, Deployment.hubs_of_brokerHub? hn]
    simp only [Deployment.publish, hroute]
    exact ⟨_, rfl, rfl, rfl, Broker.publish_eq_deliver _ _⟩

/-- The hub of the first run has fared as that of the second. -/
structure FaresAlike (tr₁ : Trace) (d₁ : Deployment) (n₁ : Nat) (tr₂ : Trace) (d₂ : Deployment)
    (n₂ : Nat) : Prop where
  hearings : tr₁.hearings n₁ = tr₂.hearings n₂
  replies : tr₁.replies n₁ = tr₂.replies n₂
  state : d₁.core.loopState? n₁ = d₂.core.loopState? n₂
  view : d₁.core.view? n₁ = d₂.core.view? n₂
  prompt : ∀ s ∈ tr₁ ++ tr₂, Prompt s.1

/-- Hubs with the same concerns fare alike, whatever other hubs there are, and whatever is done
to them and by them. -/
theorem replicas_undisturbed {tr₁ tr₂ : Trace} {d₁ d₂ : Deployment} {n₁ n₂ : Nat}
    {hub₁ hub₂ : BrokerHub} (conduct₁ : Conduct tr₁ d₁) (conduct₂ : Conduct tr₂ d₂)
    (hn₁ : d₁.brokerHub? n₁ = some hub₁) (hroute₁ : hub₁.route = .direct)
    (hn₂ : d₂.brokerHub? n₂ = some hub₂) (hroute₂ : hub₂.route = .direct)
    (alike : tr₁.concerns n₁ = tr₂.concerns n₂) : FaresAlike tr₁ d₁ n₁ tr₂ d₂ n₂ := by
  have hdirect₁ : ∀ hub, d₁.brokerHub? n₁ = some hub → hub.route = .direct := fun hub hn => by
    cases hn₁.symm.trans hn
    exact hroute₁
  have hdirect₂ : ∀ hub, d₂.brokerHub? n₂ = some hub → hub.route = .direct := fun hub hn => by
    cases hn₂.symm.trans hn
    exact hroute₂
  have hview : d₁.core.view? n₁ = d₂.core.view? n₂ := by
    rw [conduct₁.view?_eq hdirect₁, conduct₂.view?_eq hdirect₂, alike]
  constructor
  · rw [Trace.hearings, Trace.hearings, conduct₁.observed Conduct.hearingAt_eq hdirect₁,
      conduct₂.observed Conduct.hearingAt_eq hdirect₂, alike]
  · rw [Trace.replies, Trace.replies,
      conduct₁.observed (fun conduct _ => conduct.replyAt_eq) hdirect₁,
      conduct₂.observed (fun conduct _ => conduct.replyAt_eq) hdirect₂, alike]
  · rw [Core.loopState?_eq_view?, Core.loopState?_eq_view?, hview]
  · exact hview
  · exact fun s _ => prompt s.1

/-! A hub with a replica that is dropped while the hub has work to do, and without it. -/

namespace Deployment

def replica : List Action :=
  [.build ⟨some .direct, some ⟨0, []⟩, "rolls", 1⟩, .dropHub 1, .turn 1, .turn 1, .turn 1]

/-- The loop of the first hub has taken the message with the roll. -/
def taken (d : Deployment) : Deployment :=
  (((d.setBroker (d.exchange.broker.receive "rolls" 0).1).tell
    [.received "r" "a"]).openDispatch (.receiver 0) announcingHub.registry oneRoll).1.setPhase
      0 (.dispatching 0)

theorem turn_beside_replica {d d₁ : Deployment} (hd : announcing.foldlM perform .empty = some d)
    (hd₁ : replica.foldlM perform d = some d₁) : d₁.perform (.turn 0) = some d₁.taken := by
  cases hd
  have hn : d₁.brokerHub? 0 = some announcingHub := by cases hd₁; rfl
  have hreceive : d₁.exchange.broker.receive "rolls" 0 =
      ((d₁.exchange.broker.receive "rolls" 0).1, .message ⟨"rolls", Wire.encode oneRoll⟩) := by
    cases hd₁; rfl
  have hcancelled : d₁.tokens.isCancelled announcingHub.token = false := by cases hd₁; rfl
  have hsize : d₁.dispatches.size = 0 := by cases hd₁; rfl
  have hturn := turn_of_message hn rfl hcancelled hreceive (Wire.decode_plain (by decide))
  rw [hsize] at hturn
  exact hturn

end Deployment

/-- Two steps more. -/
theorem Conduct.twice (conduct : Conduct tr d) {b : Action} {d'' : Deployment}
    (first : d.perform a = some d') (second : d'.perform b = some d'')
    (permitted : Permitted tr d a) (permitted' : Permitted (tr ++ [(d, a)]) d' b) :
    Conduct (tr ++ [(d, a), (d', b)]) d'' := by
  have conduct' := (conduct.step permitted first).step permitted' second
  rwa [List.append_assoc] at conduct'

open Deployment in
theorem conduct_announcing {d : Deployment} (hd : announcing.foldlM perform .empty = some d) :
    ∃ tr, Conduct tr d ∧ (⟨0, []⟩ : Token) ∈ tr.given ∧ tr.hearings 0 = [] := by
  have token := Conduct.start.step (a := .newToken) trivial rfl
  have rest : Run Deployment.empty.newToken.1 announcing.tail d := run_iff.mpr hd
  refine ⟨_, token.extend rest ?_, List.mem_cons_self, rfl⟩
  intro a ha d
  simp only [announcing, announcingOf, List.tail_cons, List.mem_cons, List.not_mem_nil, or_false] at ha
  rcases ha with rfl | rfl | rfl
  · exact fun t ht => by cases ht; exact List.mem_cons_self
  all_goals trivial

open Deployment in
theorem replicas_undisturbed_dropped : ∃ tr₁ d₁ tr₂ d₂ hub, Conduct tr₁ d₁ ∧ Conduct tr₂ d₂ ∧
    d₁.brokerHub? 0 = some hub ∧ d₂.brokerHub? 0 = some hub ∧ d₂.hubs.length = 2 ∧
    tr₁.concerns 0 = tr₂.concerns 0 ∧ tr₁.hearings 0 = [("s", .outside 0 "teller", oneRoll)] ∧
    FaresAlike tr₁ d₁ 0 tr₂ d₂ 0 := by
  obtain ⟨d, hd⟩ : ∃ d, announcing.foldlM perform .empty = some d := ⟨_, rfl⟩
  obtain ⟨d₁, hd₁⟩ : ∃ d₁, replica.foldlM perform d = some d₁ := by cases hd; exact ⟨_, rfl⟩
  obtain ⟨tr, before, hgiven, hsilent⟩ := conduct_announcing hd
  have run : Run d replica d₁ := run_iff.mpr hd₁
  have beside := before.extend run (by
    intro a ha d
    simp only [replica, List.mem_cons, List.not_mem_nil, or_false] at ha
    rcases ha with rfl | rfl | rfl | rfl | rfl
    · exact fun t ht => by cases ht; exact hgiven
    all_goals trivial)
  -- Alone the hub takes up the roll, and the handler begins.
  obtain ⟨e, hub, hstart, hn, hroute, hconcerns, hhearings⟩ :
      ∃ e hub, d.taken.perform (.start 0 0) = some e ∧ e.brokerHub? 0 = some hub ∧
        hub.route = .direct ∧
        Trace.concerns [(d, .turn 0), (d.taken, .start 0 0)] 0 = [.turn, .proceed 0 .running] ∧
        Trace.hearings [(d, .turn 0), (d.taken, .start 0 0)] 0 =
          [("s", .outside 0 "teller", oneRoll)] := by
    cases hd
    exact ⟨_, { announcingHub with phase := .dispatching 0 }, rfl, rfl, rfl, rfl, rfl⟩
  -- With the replica it does the same.
  obtain ⟨e₁, hstart₁, hn₁, hlength, hquiet, hconcerns₁⟩ :
      ∃ e₁, d₁.taken.perform (.start 0 0) = some e₁ ∧ e₁.brokerHub? 0 = some hub ∧
        e₁.hubs.length = 2 ∧ (d.trace replica).concerns 0 = [] ∧
        Trace.concerns [(d₁, .turn 0), (d₁.taken, .start 0 0)] 0 =
          [.turn, .proceed 0 .running] := by
    cases hd
    cases hstart
    cases hn
    cases hd₁
    exact ⟨_, rfl, rfl, rfl, rfl, rfl⟩
  have alone := before.twice (turn_announcing hd) hstart trivial trivial
  have together := beside.twice (turn_beside_replica hd hd₁) hstart₁ trivial trivial
  have alike : Trace.concerns (tr ++ [(d, .turn 0), (d.taken, .start 0 0)]) 0 =
      Trace.concerns ((tr ++ d.trace replica) ++ [(d₁, .turn 0), (d₁.taken, .start 0 0)]) 0 := by
    rw [Trace.concerns_append, Trace.concerns_append, Trace.concerns_append, hconcerns, hquiet,
      hconcerns₁, List.append_nil]
  refine ⟨_, e, _, e₁, hub, alone, together, hn, hn₁, hlength, alike, ?_,
    replicas_undisturbed alone together hn hroute hn₁ hroute alike⟩
  exact List.filterMap_append.trans (congrArg₂ (· ++ ·) hsilent hhearings)

end DiceRooms
