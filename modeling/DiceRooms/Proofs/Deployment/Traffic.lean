import DiceRooms.Proofs.Broker.Interleaving
import DiceRooms.Proofs.Deployment.LifeCycle

/-!
Deployments with publications that are worked off in single steps. Between the steps of one
publication anything may happen: other publications, subscriptions, loops that close their
channels and then leave. Pruning and unsubscribing are safe under every such interleaving.
Numbers of subscriptions have no bound here; a counter of 64 bits gives the same ones until
it overflows.
-/
namespace DiceRooms

/-- A deployment with its publications in the order of their begin, those that are over
included. -/
structure Traffic where
  deployment : Deployment
  underway : List Publication

namespace Traffic

inductive Step
  /-- Whatever can happen to a deployment. -/
  | act (a : Action)
  /-- A publication looks up its receivers, which it may serve in any order. -/
  | begin (m : Message) (order : List Nat)
  /-- A publication takes its next step: it serves a receiver or prunes one. -/
  | proceed (publication : Nat)

def empty : Traffic := ⟨.empty, []⟩

def broker (t : Traffic) : Broker := t.deployment.exchange.broker

def perform (t : Traffic) : Step → Option Traffic
  | .act a => (t.deployment.perform a).map fun d => { t with deployment := d }
  | .begin m order =>
    let (p, ns) := t.broker.beginPublication m
    if order.Perm p.receivers then
      some ⟨t.deployment.tell ns, t.underway ++ [{ p with receivers := order }]⟩
    else none
  | .proceed n => do
    let p ← t.underway[n]?
    let (b, p, ns) ← t.broker.stepPublication p
    some ⟨(t.deployment.setBroker b).tell ns, t.underway.set n p⟩

/-- The steps taken, the newest last, each with what it met. -/
abbrev History := List (Traffic × Step)

/-- The history leads to the traffic. -/
inductive Led : History → Traffic → Prop
  | start : Led [] .empty
  | step {h : History} {t t' : Traffic} {s : Step} (before : Led h t)
      (performed : t.perform s = some t') : Led (h ++ [(t, s)]) t'

def begunAt : Traffic × Step → Option (Message × List Nat)
  | (t, .begin m _) => some (m, t.broker.subscriptions m.topic)
  | _ => none

/-- The publications by their messages and by the registrations of the topic when they began. -/
def begun (h : History) : List (Message × List Nat) := h.filterMap begunAt

def sentAt (n : Nat) : Traffic × Step → Option Nat
  | (t, .proceed k) => if k = n then t.underway[k]?.bind t.broker.copyTo else none
  | _ => none

/-- The subscriptions that a publication has sent copies to. -/
def sent (n : Nat) (h : History) : List Nat := h.filterMap (sentAt n)

theorem begun_concat (h : History) (s : Traffic × Step) :
    begun (h ++ [s]) = begun h ++ (begunAt s).toList :=
  Broker.filterMap_concat _ h s

theorem sent_concat (n : Nat) (h : History) (s : Traffic × Step) :
    sent n (h ++ [s]) = sent n h ++ (sentAt n s).toList :=
  Broker.filterMap_concat _ h s

/-! What a step changes. -/

/-- The ways for a step to change the traffic. -/
inductive Changes (t : Traffic) : Step → Traffic → Prop
  | act {a : Action} {d : Deployment} (performed : t.deployment.perform a = some d) :
      Changes t (.act a) ⟨d, t.underway⟩
  | begin {m : Message} {order : List Nat} {d : Deployment}
      (perm : order.Perm (t.broker.subscriptions m.topic)) (core : d.core = t.deployment.core) :
      Changes t (.begin m order) ⟨d, t.underway ++ [⟨m, order, none⟩]⟩
  | proceed {n : Nat} {p p' : Publication} {b : Broker} {d : Deployment}
      (found : t.underway[n]? = some p) (publishes : Broker.Publishes t.broker p b p')
      (core : d.core = { t.deployment.core with broker := b }) :
      Changes t (.proceed n) ⟨d, t.underway.set n p'⟩

theorem changes_of_perform {t t' : Traffic} {s : Step} (h : t.perform s = some t') :
    Changes t s t' := by
  cases s with
  | act a =>
      obtain ⟨d, hd, rfl⟩ := Option.map_eq_some_iff.mp h
      exact .act hd
  | begin m order =>
      simp only [perform] at h
      split at h
      · next hperm => cases h; exact .begin hperm rfl
      · cases h
  | proceed n =>
      simp only [perform, Option.bind_eq_bind, Option.bind_eq_some_iff] at h
      obtain ⟨p, hp, ⟨b, p', ns⟩, hstep, h⟩ := h
      cases h
      exact .proceed hp (Broker.publishes_of_step hstep) rfl

end Traffic

/-! Loops close their channels before they leave, and stop only when they have left. -/

/-- The broker is in order, and the hubs hold on to what they have there for as long as
they need it. -/
structure Tenants (c : Core) : Prop where
  busy : Busy c
  tidy : c.broker.Tidy
  filled : c.broker.Filled
  made : ∀ {n hub}, c.brokerHub? n = some hub → hub.subscription < c.broker.channels.length
  closed : ∀ {n hub}, c.brokerHub? n = some hub → hub.phase = .closed ∨ hub.phase = .stopped →
    c.broker.isOpen hub.subscription = false
  left : ∀ {n hub}, c.brokerHub? n = some hub → hub.phase = .stopped → hub.route = .direct →
    hub.subscription ∉ c.broker.subscriptions hub.topic

namespace Tenants

variable {c : Core}

theorem empty : Tenants .empty where
  busy := ⟨nofun, nofun⟩
  tidy := Broker.tidy_empty
  filled := Broker.filled_empty
  made := nofun
  closed := nofun
  left := nofun

/-- As long as the hubs are left alone, the broker may go on. -/
theorem follow (tenants : Tenants c) {b : Broker} (htidy : b.Tidy) (filled : b.Filled)
    (follows : Broker.Follows c.broker b) : Tenants { c with broker := b } where
  busy := ⟨tenants.busy.telling, tenants.busy.told⟩
  tidy := htidy
  filled := filled
  made hn := Nat.lt_of_lt_of_le (tenants.made hn) follows.count
  closed hn h := follows.closed (tenants.made hn) (tenants.closed hn h)
  left hn h hroute := follows.gone (tenants.made hn) (tenants.left hn h hroute)

section
variable {e : Event} {n : Nat} {hub : BrokerHub}

theorem made_apply (tenants : Tenants c) (possible : e.Possible c)
    (hn : (c.apply e).brokerHub? n = some hub) :
    hub.subscription < (c.apply e).broker.channels.length := by
  rcases Core.of_brokerHub?_apply possible hn with ⟨-, capacity, rfl⟩ | ⟨old, hold, rfl⟩
  · show hub.subscription < (c.broker.apply (.subscribe hub.topic capacity)).channels.length
    rw [possible.2.2.1, Broker.channels_subscribe, List.length_append]
    exact Nat.lt_succ_self _
  · rw [Event.subscription_onHub]
    exact Nat.lt_of_lt_of_le (tenants.made hold)
      (Broker.follows_apply tenants.tidy e.move).count

/-- A loop closes its channel when it enters the phase of that name. -/
theorem closed_apply (tenants : Tenants c) (possible : e.Possible c)
    (hn : (c.apply e).brokerHub? n = some hub)
    (hphase : hub.phase = .closed ∨ hub.phase = .stopped) :
    (c.apply e).broker.isOpen hub.subscription = false := by
  rcases Core.of_brokerHub?_apply possible hn with ⟨-, capacity, rfl⟩ | ⟨old, hold, rfl⟩
  · rw [possible.2.1] at hphase
    rcases hphase with h | h <;> cases h
  · have follows := Broker.follows_apply tenants.tidy e.move
    rw [Event.subscription_onHub]
    rw [Event.phase_onHub] at hphase
    cases hchange : e.phase? n with
    | none =>
        rw [hchange] at hphase
        exact follows.closed (tenants.made hold) (tenants.closed hold hphase)
    | some phase =>
        rw [hchange, Option.getD_some] at hphase
        rcases Event.phase?_eq_some hchange with ⟨_, _, -, -, rfl⟩ | ⟨hub, t, rfl, rfl⟩
        · rcases hphase with h | h <;> cases h
        · obtain ⟨rfl, hturn⟩ := Event.of_turn possible hold
          cases t with
          | close => exact Broker.isOpen_close _ _
          | leave arrives =>
              exact follows.closed (tenants.made hold) (tenants.closed hold (.inl hturn))
          | _ => rcases hphase with h | h <;> cases h

theorem left_apply (tenants : Tenants c) (possible : e.Possible c) (arrives : Deployment.Arrives e)
    (hn : (c.apply e).brokerHub? n = some hub) (hphase : hub.phase = .stopped)
    (hroute : hub.route = .direct) :
    hub.subscription ∉ (c.apply e).broker.subscriptions hub.topic := by
  rcases Core.of_brokerHub?_apply possible hn with ⟨-, capacity, rfl⟩ | ⟨old, hold, rfl⟩
  · rw [possible.2.1] at hphase
    cases hphase
  · have follows := Broker.follows_apply tenants.tidy e.move
    rw [Event.subscription_onHub, Event.topic_onHub]
    rw [Event.route_onHub] at hroute
    rw [Event.phase_onHub] at hphase
    cases hchange : e.phase? n with
    | none =>
        rw [hchange] at hphase
        exact follows.gone (tenants.made hold) (tenants.left hold hphase hroute)
    | some phase =>
        rw [hchange, Option.getD_some] at hphase
        rcases Event.phase?_eq_some hchange with ⟨_, _, -, -, rfl⟩ | ⟨hub, t, rfl, rfl⟩
        · cases hphase
        · obtain ⟨rfl, -⟩ := Event.of_turn possible hold
          cases t with
          | leave arrived =>
              obtain rfl : arrived = true := arrives hroute
              show hub.subscription ∉
                (c.broker.apply (.leave hub.topic hub.subscription)).subscriptions hub.topic
              rw [Broker.apply, Broker.subscriptions_unsubscribe, if_pos rfl]
              simp
          | _ => cases hphase

theorem apply (tenants : Tenants c) (possible : e.Possible c) (arrives : Deployment.Arrives e) :
    Tenants (c.apply e) where
  busy := ⟨tenants.busy.telling_apply possible, tenants.busy.told_apply possible⟩
  tidy := tenants.tidy.apply e.move
  filled := tenants.filled.apply e.move
  made := tenants.made_apply possible
  closed := tenants.closed_apply possible
  left := tenants.left_apply possible arrives

end

end Tenants

namespace Traffic

/-- The publication of the given number is the one that the history tells of. -/
def Tells (h : History) (t : Traffic) (n : Nat) (p : Publication) : Prop :=
  ∃ receivers, (begun h)[n]? = some (p.message, receivers) ∧ receivers.Nodup ∧
    Broker.OnItsWay t.broker receivers (sent n h) p

/-- What every interleaving leaves in order. -/
structure Safe (h : History) (t : Traffic) : Prop where
  tenants : Tenants t.deployment.core
  follows : ∀ {t₀ s}, (t₀, s) ∈ h → Broker.Follows t₀.broker t.broker
  count : (begun h).length = t.underway.length
  /-- What has not begun has sent nothing. -/
  unsent : ∀ n, t.underway.length ≤ n → sent n h = []
  tells : ∀ {n p}, t.underway[n]? = some p → Tells h t n p

theorem Tells.follow {h : History} {t t' : Traffic} {s : Step} {n : Nat} {p : Publication}
    (tells : Tells h t n p) (follows : Broker.Follows t.broker t'.broker)
    (hsent : sentAt n (t, s) = none) : Tells (h ++ [(t, s)]) t' n p := by
  obtain ⟨receivers, hbegun, hnodup, way⟩ := tells
  refine ⟨receivers, ?_, hnodup, ?_⟩
  · rw [begun_concat, List.getElem?_append_left (List.getElem?_eq_some_iff.mp hbegun).1]
    exact hbegun
  · rw [sent_concat, hsent, Option.toList_none, List.append_nil]
    exact way.follow follows

namespace Safe

variable {h : History} {t : Traffic}

theorem follows_concat (safe : Safe h t) {b : Broker} {s : Step}
    (follows : Broker.Follows t.broker b) {t₀ : Traffic} {s₀ : Step}
    (hmem : (t₀, s₀) ∈ h ++ [(t, s)]) : Broker.Follows t₀.broker b := by
  rcases List.mem_append.mp hmem with hmem | hmem
  · exact (safe.follows hmem).trans follows
  · cases List.mem_singleton.mp hmem
    exact follows

theorem act (safe : Safe h t) {a : Action} {d : Deployment}
    (performed : t.deployment.perform a = some d) :
    Safe (h ++ [(t, .act a)]) ⟨d, t.underway⟩ := by
  have happens := Deployment.happens_perform performed
  have hbroker : d.exchange.broker = t.broker.apply (t.deployment.event a).move :=
    congrArg Core.broker happens.core_eq
  have follows : Broker.Follows t.broker d.exchange.broker :=
    hbroker ▸ Broker.follows_apply safe.tenants.tidy _
  constructor
  · show Tenants d.core
    rw [happens.core_eq]
    exact safe.tenants.apply happens.possible (t.deployment.arrives_event a)
  · exact safe.follows_concat follows
  · rw [begun_concat]
    exact (congrArg List.length (List.append_nil _)).trans safe.count
  · intro n hn
    rw [sent_concat, safe.unsent n hn]
    rfl
  · exact fun hp => (safe.tells hp).follow follows rfl

theorem begin (safe : Safe h t) {m : Message} {order : List Nat} {d : Deployment}
    (perm : order.Perm (t.broker.subscriptions m.topic)) (core : d.core = t.deployment.core) :
    Safe (h ++ [(t, .begin m order)]) ⟨d, t.underway ++ [⟨m, order, none⟩]⟩ := by
  have hbroker : d.exchange.broker = t.broker := congrArg Core.broker core
  have follows : Broker.Follows t.broker d.exchange.broker := hbroker ▸ .refl _
  constructor
  · show Tenants d.core
    rw [core]
    exact safe.tenants
  · exact safe.follows_concat follows
  · rw [begun_concat, List.length_append, List.length_append, safe.count]
    rfl
  · intro n hn
    rw [List.length_append] at hn
    rw [sent_concat, safe.unsent n (Nat.le_of_add_right_le hn)]
    rfl
  · intro n p hp
    rw [getElem?_concat] at hp
    split at hp
    · next hlast =>
        cases hp
        refine ⟨t.broker.subscriptions m.topic, ?_, safe.tenants.tidy.nodup _, ?_⟩
        · rw [begun_concat, hlast, ← safe.count]
          exact List.getElem?_concat_length
        · rw [sent_concat, safe.unsent n (Nat.le_of_eq hlast.symm)]
          exact (Broker.OnItsWay.begin safe.tenants.tidy m perm).follow follows
    · exact (safe.tells hp).follow follows rfl

theorem proceed (safe : Safe h t) {n : Nat} {p p' : Publication} {b : Broker} {d : Deployment}
    (found : t.underway[n]? = some p) (publishes : Broker.Publishes t.broker p b p')
    (core : d.core = { t.deployment.core with broker := b }) :
    Safe (h ++ [(t, .proceed n)]) ⟨d, t.underway.set n p'⟩ := by
  obtain rfl : d.exchange.broker = b := congrArg Core.broker core
  have follows := publishes.follows
  have hlt := (List.getElem?_eq_some_iff.mp found).1
  constructor
  · show Tenants d.core
    rw [core]
    exact safe.tenants.follow (publishes.tidy safe.tenants.tidy)
      (publishes.filled safe.tenants.filled) follows
  · exact safe.follows_concat follows
  · rw [begun_concat, List.length_set, ← safe.count]
    exact congrArg List.length (List.append_nil _)
  · intro k hk
    rw [List.length_set] at hk
    have hne : n ≠ k := by omega
    rw [sent_concat, safe.unsent k hk, sentAt, if_neg hne]
    rfl
  · intro k q hq
    by_cases heq : n = k
    · subst heq
      rw [List.getElem?_set_self hlt] at hq
      cases hq
      obtain ⟨receivers, hbegun, hnodup, way⟩ := safe.tells found
      refine ⟨receivers, ?_, hnodup, ?_⟩
      · rw [begun_concat, publishes.message_eq]
        exact (congrArg (·[n]?) (List.append_nil _)).trans hbegun
      · rw [sent_concat, sentAt, if_pos rfl, found, Option.bind_some]
        exact way.proceed publishes
    · rw [List.getElem?_set_ne heq] at hq
      exact (safe.tells hq).follow follows (if_neg heq)

end Safe

theorem Led.safe {h : History} {t : Traffic} (led : Led h t) : Safe h t := by
  induction led with
  | start => exact ⟨.empty, nofun, rfl, fun _ _ => rfl, nofun⟩
  | step before performed ih =>
      cases changes_of_perform performed with
      | act acted => exact ih.act acted
      | begin perm core => exact ih.begin perm core
      | proceed found publishes core => exact ih.proceed found publishes core

theorem Led.of_mem {h : History} {t t₀ : Traffic} {s : Step} (led : Led h t)
    (hmem : (t₀, s) ∈ h) : ∃ h₀, Led h₀ t₀ := by
  induction led with
  | start => cases hmem
  | step before performed ih =>
      rcases List.mem_append.mp hmem with hmem | hmem
      · exact ih hmem
      · cases List.mem_singleton.mp hmem
        exact ⟨_, before⟩

/-- A loop leaves only with a closed channel, so nothing but its own unsubscribing takes the
registration of an open one. -/
theorem Safe.eq_leave {h : History} {t t' : Traffic} (safe : Safe h t) {s : Step}
    (performed : t.perform s = some t') {topic : String} {id : Nat}
    (hid : id ∈ t.broker.subscriptions topic) (hopen : t.broker.isOpen id = true)
    (hgone : id ∉ t'.broker.subscriptions topic) : s = .act (.leave topic id) := by
  cases changes_of_perform performed with
  | @act a d acted =>
      have happens := Deployment.happens_perform acted
      have hbroker : d.exchange.broker = t.broker.apply (t.deployment.event a).move :=
        congrArg Core.broker happens.core_eq
      change id ∉ d.exchange.broker.subscriptions topic at hgone
      rw [hbroker] at hgone
      have hmove := Broker.eq_leave_of_apply hid hopen hgone
      rcases Event.target?_move (congrArg Broker.Move.target? hmove) with
        ⟨move, hevent⟩ | ⟨n, hub, turn, hevent, rfl⟩
      · rw [hevent] at hmove
        obtain rfl : move = .leave topic id := hmove
        cases Deployment.byHand_of_event hevent with
        | leave _ _ => rfl
      · have possible := happens.possible
        rw [hevent] at possible hmove
        cases turn with
        | leave arrives =>
            have hclosed := safe.tenants.closed possible.1 (.inl possible.2)
            cases hopen.symm.trans hclosed
        | _ => cases hmove
  | @begin m order d perm core =>
      have hbroker : d.exchange.broker = t.broker := congrArg Core.broker core
      change id ∉ d.exchange.broker.subscriptions topic at hgone
      rw [hbroker] at hgone
      exact (hgone hid).elim
  | proceed found publishes core =>
      obtain rfl := congrArg Core.broker core
      obtain ⟨_, -, -, way⟩ := safe.tells found
      refine (hgone ((publishes.subscriptions topic).symm ▸ List.mem_filter.mpr ⟨hid, ?_⟩)).elim
      refine decide_eq_true fun h => ?_
      cases hopen.symm.trans (way.closed h.2).2

/-- What holds however the steps of publications, loops and callers fall in between each
other. -/
structure Orderly (h : History) (t : Traffic) : Prop where
  /-- A registration with an open channel goes only when it is unsubscribed itself. -/
  kept : ∀ {s t'}, t.perform s = some t' → ∀ {topic id}, id ∈ t.broker.subscriptions topic →
    t.broker.isOpen id = true → id ∉ t'.broker.subscriptions topic → s = .act (.leave topic id)
  /-- A publication sends one copy at most to a registration that was there when it began,
  and none to others. -/
  once : ∀ {n m receivers}, (begun h)[n]? = some (m, receivers) →
    (sent n h).Nodup ∧ sent n h ⊆ receivers
  /-- No step of a publication puts anything else into a channel. -/
  copies : ∀ {n t'}, t.perform (.proceed n) = some t' →
    ∃ m receivers, (begun h)[n]? = some (m, receivers) ∧
      ∀ id, t'.broker.channels[id]? = if sentAt n (t, .proceed n) = some id then
        t.broker.channels[id]?.map fun c => { c with buffer := c.buffer ++ [m] }
        else t.broker.channels[id]?
  leaves_iff : ∀ topic id, (t.broker.unsubscribe topic id).2.2 = .ok () ↔
    id ∈ t.broker.subscriptions topic
  /-- Who leaves takes nobody along. -/
  leaves : ∀ topic id, (t.broker.unsubscribe topic id).1.channels = t.broker.channels ∧
    ∀ topic', (t.broker.unsubscribe topic id).1.subscriptions topic' =
      if topic = topic' then (t.broker.subscriptions topic).filter (· ≠ id)
      else t.broker.subscriptions topic'
  refused : ∀ {topic id}, id ∉ t.broker.subscriptions topic →
    t.broker.unsubscribe topic id = (t.broker, [], .error (.unsubscribe
      ("subscription " ++ toString id ++ " on " ++ topic ++ " is not active")))
  stopped : ∀ {n hub}, t.deployment.brokerHub? n = some hub → hub.phase = .stopped →
    hub.route = .direct → hub.subscription ∉ t.broker.subscriptions hub.topic
  /-- Who has stopped is gone for good. -/
  gone : ∀ {t₀ s}, (t₀, s) ∈ h → ∀ {n hub}, t₀.deployment.brokerHub? n = some hub →
    hub.phase = .stopped → hub.route = .direct →
    hub.subscription ∉ t.broker.subscriptions hub.topic
  filled : ∀ {topic ids}, t.broker.topics.at? topic = some ids → ids ≠ []

/-- Pruning and unsubscribing are safe under every interleaving. -/
theorem orderly {h : History} {t : Traffic} (led : Led h t) : Orderly h t where
  kept := led.safe.eq_leave
  once {n m receivers} hbegun := by
    have hlt := (List.getElem?_eq_some_iff.mp hbegun).1
    rw [led.safe.count] at hlt
    obtain ⟨receivers', hbegun', hnodup, way⟩ := led.safe.tells (List.getElem?_eq_getElem hlt)
    cases hbegun.symm.trans hbegun'
    exact way.sent_spec hnodup
  copies {n t'} performed := by
    cases changes_of_perform performed with
    | proceed found publishes core =>
        obtain rfl := congrArg Core.broker core
        obtain ⟨receivers, hbegun, -, -⟩ := led.safe.tells found
        refine ⟨_, receivers, hbegun, fun id => (publishes.channels id).trans ?_⟩
        rw [sentAt, if_pos rfl, found, Option.bind_some]
  leaves_iff topic id := by
    refine ⟨fun h => ?_, Broker.unsubscribe_of_mem⟩
    by_contra hnot
    have hrefused : t.broker.unsubscribe topic id = _ :=
      Broker.unsubscribe_of_not_mem led.safe.tenants.filled hnot
    rw [hrefused] at h
    cases h
  leaves topic id :=
    ⟨Broker.channels_unsubscribe _ _ _, fun topic' => Broker.subscriptions_unsubscribe _ _ topic' _⟩
  refused := Broker.unsubscribe_of_not_mem led.safe.tenants.filled
  stopped hn := led.safe.tenants.left ((Deployment.brokerHub?_core _ _).trans hn)
  gone {t₀ s} hmem n hub hn hphase hroute := by
    obtain ⟨h₀, led₀⟩ := led.of_mem hmem
    have hn₀ := (Deployment.brokerHub?_core _ _).trans hn
    exact (led.safe.follows hmem).gone (led₀.safe.tenants.made hn₀)
      (led₀.safe.tenants.left hn₀ hphase hroute)
  filled h := led.safe.tenants.filled _ (Table.mem_of_at? h)

/-- A subscriber closes its channel and leaves after a publication has looked it up, and another
one comes before it is pruned. -/
theorem orderly_newcomer : ∃ h t, Led h t ∧ sent 0 h = [] ∧
    t.broker.subscriptions "rolls" = [1] ∧ (t.broker.unsubscribe "rolls" 1).2.2 = .ok () := by
  have looked := ((Led.start.step (s := .act (.listen "rolls" 1 false)) rfl).step
    (s := .begin ⟨"rolls", []⟩ [0]) rfl)
  have left := (looked.step (s := .act (.closeChannel 0)) rfl).step
    (s := .act (.leave "rolls" 0)) rfl
  have pruned := ((left.step (s := .act (.listen "rolls" 1 false)) rfl).step
    (s := .proceed 0) rfl).step (s := .proceed 0) rfl
  have hthere := ((orderly pruned).leaves_iff "rolls" 1).mpr (by decide)
  exact ⟨_, _, pruned, rfl, rfl, hthere⟩

end Traffic

end DiceRooms
