import DiceRooms.Proofs.Deployment.Notifications

/-!
How a deployment with one hub comes to rest. Once the hub has been notified, the handlers
and the loop take steps of their own. Each step leaves less to do, in whatever order they
are taken; when none is left, every handler of the room has been called once with the roll
as it has arrived, and the hub waits for the next call with the registry that it had.
-/
namespace DiceRooms

/-- The action is a step of a handler or of a loop, and nobody asks for it. -/
def Action.settles : Action → Bool
  | .start .. | .finish .. | .conclude _ | .turn _ => true
  | _ => false

def Event.settles : Event → Bool
  | .proceed .. | .conclude .. | .turn .. => true
  | _ => false

/-- No handler and no loop has anything to do. -/
def Deployment.Settled (d : Deployment) : Prop :=
  ∀ a, a.settles = true → d.perform a = none

theorem Deployment.settles_event {d d' : Deployment} {a : Action} (ha : a.settles = true)
    (h : d.perform a = some d') : (d.event a).settles = true := by
  cases a with
  | start n i | finish n i o => rfl
  | conclude n =>
      simp only [perform, conclude, Option.bind_eq_bind, Option.bind_eq_some_iff] at h
      obtain ⟨p, hn, -⟩ := h
      simp only [event, hn, Option.map_some, Option.getD_some]
      rfl
  | turn n =>
      rw [perform, turn] at h
      rw [event, turnEvent]
      cases hn : d.brokerHub? n with
      | none => rw [hn] at h; cases h
      | some hub =>
          rw [hn] at h
          dsimp only at h ⊢
          cases hphase : hub.phase with
          | running | draining | closed => rfl
          | dispatching _ | stopped => rw [hphase] at h; cases h
  | _ => cases ha

/-! The work that is left. -/

def Invocation.left (inv : Invocation) : Nat := 2 - inv.progress.rank

/-- The steps that a dispatch has yet to take, at most. -/
def Dispatch.left (p : Dispatch) : Nat :=
  (p.broadcast.map Invocation.left).sum + if p.concluded then 0 else 1

/-- A sum of which one member has changed. -/
theorem sum_map_modify {α : Type} {g : α → Nat} {f : α → α} {l : List α} {i : Nat} {a : α}
    (hi : l[i]? = some a) : ((l.modify i f).map g).sum + g a = (l.map g).sum + g (f a) := by
  induction l generalizing i with
  | nil => cases hi
  | cons b l ih =>
      cases i with
      | zero =>
          obtain rfl : b = a := Option.some.inj hi
          rw [List.modify_zero_cons, List.map_cons, List.map_cons, List.sum_cons, List.sum_cons]
          omega
      | succ i =>
          have hrest := ih hi
          rw [List.modify_succ_cons, List.map_cons, List.map_cons, List.sum_cons, List.sum_cons]
          omega

theorem sum_map_modify_lt {α : Type} {g : α → Nat} {f : α → α} {l : List α} {i : Nat} {a : α}
    (hi : l[i]? = some a) (h : g (f a) < g a) : ((l.modify i f).map g).sum < (l.map g).sum := by
  have hsum := sum_map_modify (f := f) (g := g) hi
  omega

namespace Dispatch

theorem left_proceed {p : Dispatch} {i : Nat} {inv : Invocation} {after : Progress}
    (hinv : p.broadcast[i]? = some inv) (hrank : inv.progress.rank < after.rank) :
    (p.proceed i after).left < p.left := by
  have hle : after.rank ≤ 2 := by cases after <;> simp [Progress.rank]
  have hsum := sum_map_modify_lt (g := Invocation.left)
    (f := fun inv => { inv with progress := after }) hinv
    (by simp only [Invocation.left]; omega)
  exact Nat.add_lt_add_right hsum _

theorem left_conclude {p : Dispatch} (hopen : p.concluded = false) :
    p.conclude.left < p.left := by
  simp [left, conclude, hopen]

theorem left_begin (owner : Owner) (registry : Registry Handler) (r : Roll) :
    (begin owner registry r).left = 2 * registry.subscriberCount r.room + 1 := by
  have hwaiting : ((Broadcast.ofRegistry registry r.room).map Invocation.left) =
      List.replicate (registry.subscriberCount r.room) 2 := by
    rw [List.eq_replicate_iff, List.length_map, Broadcast.length_ofRegistry]
    refine ⟨rfl, ?_⟩
    intro n hn
    obtain ⟨inv, hinv, rfl⟩ := List.mem_map.mp hn
    obtain ⟨entry, -, rfl⟩ := List.mem_map.mp hinv
    rfl
  simp only [left, begin, hwaiting, List.sum_replicate_nat, Bool.false_eq_true, if_false,
    Nat.mul_comm]

end Dispatch

/-! The only hub of a deployment. -/

/-- The loop is not cancelled, and its channel holds the given messages and has room for
more as soon as it holds none. -/
structure Listens (c : Core) (h : BrokerHub) (buffer : List Message) : Prop where
  uncancelled : c.tokens.isCancelled h.token = false
  subscribed : c.broker.subscriptions h.topic = [h.subscription]
  channel : ∃ capacity, 0 < capacity ∧
    c.broker.channels[h.subscription]? = some ⟨capacity, buffer, true⟩

/-- How a hub hands on a roll: as it is, or in its wire form. -/
inductive Passage
  | direct
  | written

/-- What arrives of a roll. -/
def Passage.arrives : Passage → Roll → Roll
  | direct, r => r
  | written, r => r.settled

/-- The deployment has one hub, with the given registry. If it is on a broker then its loop
runs, and the messages wait for it. -/
inductive Alone (c : Core) (registry : Registry Handler) (buffer : List Message) :
    Passage → Prop
  | memory (hubs : c.hubs = [.memory registry]) (nothing : buffer = []) :
      Alone c registry buffer .direct
  | broker (h : BrokerHub) (hubs : c.hubs = [.broker h]) (holds : h.registry = registry)
      (route : h.route = .direct) (runs : h.phase.state = .running) (listens : Listens c h buffer) :
      Alone c registry buffer .written

namespace Listens

variable {c : Core} {h : BrokerHub} {buffer : List Message}

theorem received (listens : Listens c h buffer) :
    (c.broker.receive h.topic h.subscription).2 =
      match buffer with
      | [] => .empty
      | m :: _ => .message m := by
  obtain ⟨capacity, -, hchannel⟩ := listens.channel
  have hregistered : c.broker.isRegistered h.topic h.subscription = true := by
    simp [Broker.isRegistered, listens.subscribed]
  cases buffer with
  | nil => simp [Broker.receive, hchannel, Channel.take?, hregistered]
  | cons m rest => simp [Broker.receive, hchannel, Channel.take?]

/-- A loop that runs takes a message when there is one, and else does nothing. -/
theorem turn (listens : Listens c h buffer) (runs : h.phase.state = .running) {t : Turn}
    (possible : t.Possible c h) :
    ∃ m rest, buffer = m :: rest ∧ ((∃ e, t = .undecodable m ∧ Wire.decode m.payload = .error e) ∨
      ∃ r, t = .dispatch m r c.dispatches.length ∧ Wire.decode m.payload = .ok r) := by
  have hreceived := listens.received
  cases t with
  | cancelled =>
      have huncancelled := listens.uncancelled
      rw [possible.2] at huncancelled
      cases huncancelled
  | close =>
      rw [show h.phase = .draining from possible] at runs
      cases runs
  | leave arrives =>
      rw [show h.phase = .closed from possible] at runs
      cases runs
  | channelClosed =>
      rw [possible.2.2] at hreceived
      cases buffer <;> cases hreceived
  | undecodable m =>
      obtain ⟨receives, e, he⟩ := possible
      rw [receives.2.2] at hreceived
      cases buffer with
      | nil => cases hreceived
      | cons m' rest =>
          cases hreceived
          exact ⟨m, rest, rfl, .inl ⟨e, rfl, he⟩⟩
  | dispatch m r number =>
      obtain ⟨receives, hr, rfl⟩ := possible
      rw [receives.2.2] at hreceived
      cases buffer with
      | nil => cases hreceived
      | cons m' rest =>
          cases hreceived
          exact ⟨m, rest, rfl, .inr ⟨r, rfl, hr⟩⟩

theorem take {m : Message} (listens : Listens c h (m :: buffer)) {c' : Core}
    (hbroker : c'.broker = c.broker.apply (.receive h.topic h.subscription))
    (htokens : c'.tokens = c.tokens) : Listens c' h buffer where
  uncancelled := htokens ▸ listens.uncancelled
  subscribed := by
    rw [hbroker, ← listens.subscribed]
    exact Broker.subscriptions_congr (Broker.topics_receive _ _ _) h.topic
  channel := by
    obtain ⟨capacity, hcapacity, hchannel⟩ := listens.channel
    refine ⟨capacity, hcapacity, ?_⟩
    rw [hbroker, Broker.apply, Broker.channels_receive, if_pos rfl, hchannel]
    rfl

theorem publish (listens : Listens c h []) {c' : Core} {m : Message} (hm : m.topic = h.topic)
    (hbroker : c'.broker = c.broker.apply (.publish m)) (htokens : c'.tokens = c.tokens) :
    Listens c' h [m] := by
  obtain ⟨capacity, hcapacity, hchannel⟩ := listens.channel
  have hsubscribed := listens.subscribed
  rw [← hm] at hsubscribed
  constructor
  · rw [htokens]
    exact listens.uncancelled
  · rw [hbroker, Broker.apply, Broker.subscriptions_publish, if_pos hm, ← hm, hsubscribed]
    simp [Broker.isOpen, hchannel]
  · refine ⟨capacity, hcapacity, ?_⟩
    rw [hbroker, Broker.apply, Broker.channels_publish _ _ (by simp [hsubscribed]), hsubscribed,
      if_pos List.mem_cons_self, hchannel]
    simp [Channel.offer, hcapacity]

/-- What matters of the hub is its token and its subscription. -/
theorem congr (listens : Listens c h buffer) {c' : Core} {h' : BrokerHub}
    (hbroker : c'.broker = c.broker) (htokens : c'.tokens = c.tokens)
    (htoken : h'.token = h.token) (htopic : h'.topic = h.topic)
    (hsubscription : h'.subscription = h.subscription) : Listens c' h' buffer := by
  obtain ⟨huncancelled, hsubscribed, hchannel⟩ := listens
  constructor
  · rwa [htokens, htoken]
  · rwa [hbroker, htopic, hsubscription]
  · rwa [hbroker, hsubscription]

end Listens

theorem modify_singleton {α : Type} (f : α → α) (a : α) (n : Nat) :
    [a].modify n f = [if n = 0 then f a else a] := by
  cases n with
  | zero => rfl
  | succ n => rw [List.modify_succ_cons, List.modify_nil, if_neg (Nat.succ_ne_zero n)]

theorem modify_concat {α : Type} (f : α → α) (l : List α) (a : α) :
    (l ++ [a]).modify l.length f = l ++ [f a] := by
  induction l with
  | nil => rfl
  | cons b l ih =>
      rw [List.cons_append, List.length_cons, List.modify_succ_cons, ih, List.cons_append]

namespace Alone

variable {c c' : Core} {registry : Registry Handler} {buffer : List Message} {w : Passage}

theorem congr (alone : Alone c registry buffer w) (hhubs : c'.hubs = c.hubs)
    (hbroker : c'.broker = c.broker) (htokens : c'.tokens = c.tokens) :
    Alone c' registry buffer w := by
  cases alone with
  | memory hubs nothing => exact .memory (hhubs.trans hubs) nothing
  | broker h hubs holds route runs listens =>
      exact .broker h (hhubs.trans hubs) holds route runs
        (listens.congr hbroker htokens rfl rfl rfl)

theorem enter (alone : Alone c registry buffer w) {buffer' : List Message} {n : Nat} {phase : Phase}
    (hphase : phase.state = .running) (hhubs : c'.hubs = c.hubs.modify n (Hub.enter phase))
    (hnothing : buffer = [] → buffer' = [])
    (hlistens : ∀ h, c.hubs = [.broker h] → Listens c h buffer → Listens c' h buffer') :
    Alone c' registry buffer' w := by
  cases alone with
  | memory hubs nothing =>
      have hsame : Hub.enter phase (.memory registry) = .memory registry := rfl
      rw [hubs, modify_singleton, hsame, ite_self] at hhubs
      exact .memory hhubs (hnothing nothing)
  | broker h hubs holds route runs listens =>
      rw [hubs, modify_singleton, Hub.enter] at hhubs
      split at hhubs
      · exact .broker { h with phase } hhubs holds route hphase
          ((hlistens h hubs listens).congr rfl rfl rfl rfl rfl)
      · exact .broker h hhubs holds route runs (hlistens h hubs listens)

theorem change (alone : Alone c registry buffer w) {f : Registry Handler → Registry Handler}
    (hhubs : c'.hubs = c.hubs.modify 0 (Hub.mapRegistry f)) (hbroker : c'.broker = c.broker)
    (htokens : c'.tokens = c.tokens) : Alone c' (f registry) buffer w := by
  cases alone with
  | memory hubs nothing =>
      rw [hubs] at hhubs
      exact .memory hhubs nothing
  | broker h hubs holds route runs listens =>
      rw [hubs] at hhubs
      refine .broker { h with registry := f h.registry } hhubs ?_ route runs
        (listens.congr hbroker htokens rfl rfl rfl)
      rw [holds]

/-- Only a loop takes turns, and only when a message waits for it. -/
theorem turn (alone : Alone c registry buffer w) {n : Nat} {h : BrokerHub} {t : Turn}
    (possible : (Event.turn n h t).Possible c) :
    n = 0 ∧ h.registry = registry ∧ c.hubs = [.broker h] ∧ ∃ m rest, buffer = m :: rest ∧
      ((∃ e, t = .undecodable m ∧ Wire.decode m.payload = .error e) ∨
        ∃ r, t = .dispatch m r c.dispatches.length ∧ Wire.decode m.payload = .ok r) := by
  obtain ⟨hn, possible⟩ := possible
  rw [Core.brokerHub?_eq_some_iff] at hn
  cases alone with
  | memory hubs nothing =>
      rw [hubs] at hn
      cases n <;> cases hn
  | broker h' hubs holds route runs listens =>
      rw [hubs] at hn
      cases n with
      | zero =>
          cases hn
          exact ⟨rfl, holds, hubs, listens.turn runs possible⟩
      | succ n => cases hn

end Alone

/-! At work and at rest. -/

/-- Nothing is going on, and the hub has the given registry. -/
structure Rests (c : Core) (registry : Registry Handler) (w : Passage) : Prop where
  alone : Alone c registry [] w
  concluded : ∀ p ∈ c.dispatches, p.concluded = true

/-- The roll is on its way to the handlers that the registry has for its room, in the dispatch
of the given number. Some more steps are left at most. -/
inductive Works (c : Core) (registry : Registry Handler) (w : Passage) (r : Roll) (number : Nat) :
    Nat → Prop
  | announced (m : Message) (decoded : Wire.decode m.payload = .ok r)
      (alone : Alone c registry [m] w) (concluded : ∀ p ∈ c.dispatches, p.concluded = true)
      (next : c.dispatches.length = number) :
      Works c registry w r number (2 * registry.subscriberCount r.room + 2)
  | told (before : List Dispatch) (p : Dispatch) (alone : Alone c registry [] w)
      (dispatches : c.dispatches = before ++ [p]) (last : before.length = number)
      (concluded : ∀ q ∈ before, q.concluded = true) (roll : p.roll = r)
      (audience : p.audience = registry.snapshot r.room) : Works c registry w r number p.left

section
variable {h : History} {c : Core} {registry : Registry Handler} {w : Passage} {r : Roll}
  {number left : Nat} {e : Event}

/-- Only the last dispatch can have anything left to do. -/
theorem eq_last {before : List Dispatch} {p q : Dispatch} {n : Nat}
    (dispatches : c.dispatches = before ++ [p]) (concluded : ∀ q ∈ before, q.concluded = true)
    (hq : c.dispatches[n]? = some q) (hopen : q.concluded = false) : n = before.length ∧ q = p := by
  rw [dispatches, getElem?_concat] at hq
  split at hq
  · next hn => exact ⟨hn, (Option.some.inj hq).symm⟩
  · rw [concluded q (List.mem_of_getElem? hq)] at hopen
    cases hopen

theorem Reached.open_of_proceed (reached : Reached h c) {n i : Nat} {first after : Progress}
    (possible : (Event.proceed n i first after).Possible c) {p : Dispatch}
    (hp : c.dispatches[n]? = some p) : p.concluded = false := by
  apply Bool.eq_false_iff.mpr
  intro hconcluded
  have hover := reached.over_of_concluded hp hconcluded
  rw [not_over_of_proceed possible hp] at hover
  cases hover

theorem Rests.not_possible (rests : Rests c registry w) (reached : Reached h c)
    (he : e.settles = true) : ¬ e.Possible c := by
  intro possible
  cases e with
  | proceed n i first after =>
      obtain ⟨-, p, inv, hp, -, -⟩ := id possible
      have hopen := reached.open_of_proceed possible hp
      rw [rests.concluded p (List.mem_of_getElem? hp)] at hopen
      cases hopen
  | conclude n p =>
      have hopen := possible.2.2
      rw [rests.concluded p (List.mem_of_getElem? possible.1)] at hopen
      cases hopen
  | turn n hub t =>
      obtain ⟨-, -, -, m, rest, hnil, -⟩ := rests.alone.turn possible
      cases hnil
  | _ => cases he

/-- A step of a handler or of the loop leaves less to do. -/
theorem Works.step (works : Works c registry w r number left) (reached : Reached h c)
    (he : e.settles = true) (possible : e.Possible c) :
    ∃ left', left' < left ∧ Works (c.apply e) registry w r number left' := by
  cases works with
  | announced m decoded alone concluded next =>
      cases e with
      | proceed n i first after =>
          obtain ⟨-, p, inv, hp, -, -⟩ := id possible
          have hopen := reached.open_of_proceed possible hp
          rw [concluded p (List.mem_of_getElem? hp)] at hopen
          cases hopen
      | conclude n p =>
          have hopen := possible.2.2
          rw [concluded p (List.mem_of_getElem? possible.1)] at hopen
          cases hopen
      | turn n hub t =>
          obtain ⟨rfl, hholds, hhubs, m', rest, hmessage, hturn⟩ := alone.turn possible
          cases hmessage
          rcases hturn with ⟨fault, rfl, hfault⟩ | ⟨r', rfl, hr⟩
          · cases decoded.symm.trans hfault
          · cases decoded.symm.trans hr
            have hbegin : (Dispatch.begin (.receiver 0) hub.registry r).left <
                2 * registry.subscriberCount r.room + 2 := by
              rw [Dispatch.left_begin, hholds]
              omega
            refine ⟨_, hbegin, .told c.dispatches _ ?_ rfl next concluded rfl ?_⟩
            · have hphase : (Phase.dispatching c.dispatches.length).state = .running := rfl
              refine alone.enter (n := 0) hphase rfl (fun _ => rfl) ?_
              intro hub' hhubs' listens
              cases hhubs.symm.trans hhubs'
              exact listens.take rfl rfl
            · rw [← hholds]
              exact congrArg Telling.audience (telling_begin (.receiver 0) hub.registry r)
      | _ => cases he
  | told before p alone dispatches last concluded roll audience =>
      cases e with
      | proceed n i first after =>
          obtain ⟨hrank, q, inv, hq, hinv, rfl⟩ := id possible
          obtain ⟨rfl, rfl⟩ := eq_last dispatches concluded hq
            (reached.open_of_proceed possible hq)
          refine ⟨_, Dispatch.left_proceed hinv hrank,
            .told before (q.proceed i after) (alone.congr rfl rfl rfl) ?_ last concluded roll ?_⟩
          · show c.dispatches.modify before.length (Dispatch.proceed i after) = _
            rw [dispatches, modify_concat]
          · exact (congrArg Telling.audience (telling_proceed i after q)).trans audience
      | conclude n q =>
          obtain ⟨rfl, rfl⟩ := eq_last dispatches concluded possible.1 possible.2.2
          refine ⟨_, Dispatch.left_conclude possible.2.2,
            .told before q.conclude ?_ ?_ last concluded roll audience⟩
          · obtain ⟨owner, roll, broadcast, closed⟩ := q
            cases owner with
            | caller endpoint => exact alone.congr rfl rfl rfl
            | receiver n =>
                have hphase : Phase.running.state = .running := rfl
                exact alone.enter hphase rfl id fun hub _ listens =>
                  listens.congr rfl rfl rfl rfl rfl
          · show c.dispatches.modify before.length Dispatch.conclude = _
            rw [dispatches, modify_concat]
      | turn n hub t =>
          obtain ⟨-, -, -, m, rest, hnil, -⟩ := alone.turn possible
          cases hnil
      | _ => cases he

end

/-! Runs that settle. -/

namespace Deployment

variable {h : History} {d d' : Deployment} {registry : Registry Handler} {w : Passage} {r : Roll}
  {number left : Nat} {as : List Action}

theorem getElem?_core {n : Nat} {p : Dispatch} :
    d.core.dispatches[n]? = some p ↔ d.dispatches[n]? = some p := by
  rw [getElem?_core_dispatches]

/-- A dispatch that is not concluded can go on. -/
theorem concluded_of_settled (settled : d.Settled) {n : Nat} {p : Dispatch}
    (hp : d.dispatches[n]? = some p) : p.concluded = true := by
  have hover : p.broadcast.isOver = true := by
    apply List.all_eq_true.mpr
    intro inv hinv
    obtain ⟨i, hi⟩ := List.mem_iff_getElem?.mp hinv
    cases hprogress : inv.progress with
    | waiting =>
        obtain ⟨d', hd'⟩ := perform_start hp hi hprogress
        cases hd'.symm.trans (settled (.start n i) rfl)
    | running =>
        obtain ⟨d', hd'⟩ := perform_finish hp hi hprogress .success
        cases hd'.symm.trans (settled (.finish n i .success) rfl)
    | ended o => rw [isEnded_iff, hprogress]; rfl
  cases hopen : p.concluded with
  | true => rfl
  | false =>
      obtain ⟨d', hd'⟩ := perform_conclude hp hover hopen
      cases hd'.symm.trans (settled (.conclude n) rfl)

end Deployment

end DiceRooms
