import DiceRooms.Proofs.Deployment.Settling

/-!
Deployments come to rest. Whatever hubs there are and whatever waits in their channels, the
steps that handlers and loops take of themselves are bounded, since each of them leaves less
to do, and they can all be taken. In a deployment that rests, every loop waits for a message
or has stopped.
-/
namespace DiceRooms

def Broker.contents (b : Broker) (id : Nat) : List Message :=
  (b.channels[id]?.map (·.buffer)).getD []

namespace BrokerHub

/-- The steps that come of taking the message, at most. -/
def cost (h : BrokerHub) (m : Message) : Nat :=
  match Wire.decode m.payload with
  | .error _ => 1
  | .ok r => 2 * h.registry.subscriberCount r.room + 2

/-- The steps that the loop has yet to take for what waits in its channel and to stop. -/
def left (h : BrokerHub) (waiting : List Message) : Nat :=
  match h.phase with
  | .running | .dispatching _ => (waiting.map h.cost).sum + 3
  | .draining => 2
  | .closed => 1
  | .stopped => 0

theorem left_of_running {h : BrokerHub} (hstate : h.phase.state = .running)
    (waiting : List Message) : h.left waiting = (waiting.map h.cost).sum + 3 := by
  rw [left]
  cases hphase : h.phase with
  | running | dispatching _ => rfl
  | draining | closed | stopped => rw [hphase] at hstate; cases hstate

end BrokerHub

namespace Core

def hubLeft (c : Core) (n : Nat) : Nat :=
  match c.brokerHub? n with
  | none => 0
  | some h => h.left (c.broker.contents h.subscription)

/-- The steps that all handlers and loops have yet to take, at most. -/
def left (c : Core) : Nat :=
  ((List.range c.hubs.length).map c.hubLeft).sum + (c.dispatches.map Dispatch.left).sum

/-- What a hub on a broker counts for, with what waits in its channel. -/
def atHub (c : Core) (count : BrokerHub → List Message → Nat) (n : Nat) : Nat :=
  (c.brokerHub? n).elim 0 fun h => count h (c.broker.contents h.subscription)

def inHubs (c : Core) (count : BrokerHub → List Message → Nat) : Nat :=
  ((List.range c.hubs.length).map (c.atHub count)).sum

theorem left_eq (c : Core) :
    c.left = c.inHubs BrokerHub.left + (c.dispatches.map Dispatch.left).sum := by
  have hhubs : c.hubLeft = c.atHub BrokerHub.left := by
    funext n
    rw [hubLeft, atHub]
    cases c.brokerHub? n <;> rfl
  rw [left, hhubs, inHubs]

theorem atHub_of_some {c : Core} {n : Nat} {h : BrokerHub} (hn : c.brokerHub? n = some h)
    (count : BrokerHub → List Message → Nat) :
    c.atHub count n = count h (c.broker.contents h.subscription) := by
  rw [atHub, hn]
  rfl

end Core

/-- A sum of which one member has changed. -/
theorem sum_range_add {f g : Nat → Nat} {n : Nat} (hrest : ∀ k, k ≠ n → f k = g k) {size : Nat}
    (hsize : n < size) :
    ((List.range size).map f).sum + g n = ((List.range size).map g).sum + f n := by
  induction size with
  | zero => cases hsize
  | succ size ih =>
      rw [List.range_succ, List.map_append, List.map_append, List.sum_append, List.sum_append]
      simp only [List.map_cons, List.map_nil, List.sum_cons, List.sum_nil]
      by_cases heq : n = size
      · subst heq
        have hbefore : (List.range n).map f = (List.range n).map g :=
          List.map_congr_left fun k hk => hrest k (Nat.ne_of_lt (List.mem_range.mp hk))
        rw [hbefore]
        omega
      · have := ih (by omega)
        have := hrest size (Ne.symm heq)
        omega

section
variable {h : History} {c : Core} {n : Nat} {hub : BrokerHub} {t : Turn}

/-- The turn of a loop leaves the channels of the other hubs. -/
theorem Reached.contents_of_turn (reached : Reached h c) (hn : c.brokerHub? n = some hub)
    {k : Nat} (hk : k ≠ n) {other : BrokerHub} (hother : c.brokerHub? k = some other) :
    (c.broker.apply (t.move hub)).contents other.subscription =
      c.broker.contents other.subscription := by
  obtain ⟨capacity, hmade⟩ := reached.housed.made k other hother
  have hne : other.subscription ≠ hub.subscription :=
    fun heq => hk (reached.housed.distinct k n other hub hother hn heq)
  have htarget : (t.move hub).target? ≠ some other.subscription := by
    rcases t.target?_move hub with hnone | hsome
    · simp [hnone]
    · rw [hsome]
      exact fun heq => hne (Option.some.inj heq).symm
  have same := (Broker.spared reached.account.tidy (reached.subscription_lt hother)
    (reached.account.own_topic hmade) htarget fun m hm => (t.move_ne_publish hub m hm).elim).1
  rw [Broker.contents, same, Broker.contents]

theorem Reached.atHub_of_turn (reached : Reached h c)
    (possible : (Event.turn n hub t).Possible c) (count : BrokerHub → List Message → Nat)
    {k : Nat} (hk : k ≠ n) : (c.apply (.turn n hub t)).atHub count k = c.atHub count k := by
  have hafter : (c.apply (.turn n hub t)).brokerHub? k = c.brokerHub? k := by
    cases hother : c.brokerHub? k with
    | some other =>
        rw [Core.brokerHub?_apply_of_some possible hother, Event.onHub, if_neg (Ne.symm hk)]
    | none =>
        rw [Core.brokerHub?_apply possible, hother]
        split <;> rfl
  rw [Core.atHub, hafter, Core.atHub]
  cases hother : c.brokerHub? k with
  | none => rfl
  | some other =>
      exact congrArg (count other) (reached.contents_of_turn (t := t) possible.1 hk hother)

/-- What all hubs count for changes by what the hub that takes the turn does. -/
theorem Reached.inHubs_turn (reached : Reached h c)
    (possible : (Event.turn n hub t).Possible c) (count : BrokerHub → List Message → Nat) :
    (c.apply (.turn n hub t)).inHubs count + count hub (c.broker.contents hub.subscription) =
      c.inHubs count + count { hub with phase := t.phase }
        ((c.broker.apply (t.move hub)).contents hub.subscription) := by
  have hlt : n < c.hubs.length :=
    (List.getElem?_eq_some_iff.mp (Core.brokerHub?_eq_some_iff.mp possible.1)).1
  have hsize : (c.apply (.turn n hub t)).hubs.length = c.hubs.length := List.length_modify _ _ _
  have hafter : (c.apply (.turn n hub t)).brokerHub? n = some { hub with phase := t.phase } := by
    rw [Core.brokerHub?_apply_of_some possible possible.1, Event.onHub, if_pos rfl]
  have hsum := sum_range_add (f := (c.apply (.turn n hub t)).atHub count) (g := c.atHub count)
    (fun _ hk => reached.atHub_of_turn possible count hk) hlt
  rw [Core.atHub_of_some hafter, Core.atHub_of_some possible.1] at hsum
  rw [Core.inHubs, hsize]
  exact hsum

/-- The message that the loop takes in the turn. -/
def Turn.taken : Turn → List Message
  | undecodable m | dispatch m _ _ => [m]
  | _ => []

/-- A turn leaves in the channel what it does not take. -/
theorem contents_turn (possible : t.Possible c hub) :
    c.broker.contents hub.subscription =
      t.taken ++ (c.broker.apply (t.move hub)).contents hub.subscription := by
  have received : ∀ {received}, Turn.Receives c hub received →
      c.broker.contents hub.subscription = received.message?.toList ++
        (c.broker.apply (.receive hub.topic hub.subscription)).contents hub.subscription := by
    intro received receives
    have hfirst := Broker.message?_receive c.broker hub.topic hub.subscription
    rw [receives.2.2] at hfirst
    rw [hfirst, Broker.contents, Broker.contents, Broker.apply, Broker.channels_receive,
      if_pos rfl]
    cases c.broker.channels[hub.subscription]? with
    | none => rfl
    | some channel =>
        obtain ⟨capacity, buffer, isOpen⟩ := channel
        cases buffer <;> rfl
  cases t with
  | cancelled => rfl
  | channelClosed => exact received possible
  | undecodable m => exact received possible.1
  | dispatch m r number => exact received possible.1
  | close =>
      show _ = (c.broker.closeChannel hub.subscription).contents hub.subscription
      rw [Broker.contents, Broker.contents, Broker.channels_closeChannel, if_pos rfl,
        Option.map_map]
      rfl
  | leave arrives =>
      cases arrives with
      | false => rfl
      | true =>
          show _ = (c.broker.unsubscribe hub.topic hub.subscription).1.contents hub.subscription
          rw [Broker.contents, Broker.contents, Broker.channels_unsubscribe]

/-- What a turn costs the loop itself, the dispatch that it may begin included. -/
theorem BrokerHub.left_turn (possible : t.Possible c hub) (rest : List Message) :
    ({ hub with phase := t.phase } : BrokerHub).left rest +
        ((Event.turn n hub t).opened?.toList.map Dispatch.left).sum <
      hub.left (t.taken ++ rest) := by
  have hcost : ({ hub with phase := t.phase } : BrokerHub).cost = hub.cost := rfl
  cases t with
  | cancelled =>
      rw [hub.left_of_running (by rw [possible.1]; rfl)]
      simp only [Event.opened?, Option.toList_none, List.map_nil, List.sum_nil, BrokerHub.left,
        Turn.phase]
      omega
  | channelClosed =>
      rw [hub.left_of_running (by rw [possible.1]; rfl)]
      simp only [Event.opened?, Option.toList_none, List.map_nil, List.sum_nil, BrokerHub.left,
        Turn.phase]
      omega
  | undecodable m =>
      obtain ⟨e, he⟩ := possible.2
      have htaken : hub.cost m = 1 := by rw [BrokerHub.cost, he]
      rw [hub.left_of_running (by rw [possible.1.1]; rfl), BrokerHub.left_of_running rfl, hcost]
      simp only [Turn.taken, List.singleton_append, List.map_cons, List.sum_cons, htaken,
        Event.opened?, Option.toList_none, List.map_nil, List.sum_nil]
      omega
  | dispatch m r number =>
      have htaken : hub.cost m = 2 * hub.registry.subscriberCount r.room + 2 := by
        rw [BrokerHub.cost, possible.2.1]
      rw [hub.left_of_running (by rw [possible.1.1]; rfl), BrokerHub.left_of_running rfl, hcost]
      simp only [Turn.taken, List.singleton_append, List.map_cons, List.sum_cons, htaken,
        Event.opened?, Option.toList_some, List.map_nil, List.sum_nil, Dispatch.left_begin]
      omega
  | close =>
      have hphase : hub.phase = .draining := possible
      simp [Event.opened?, BrokerHub.left, Turn.phase, hphase]
  | leave arrives =>
      have hphase : hub.phase = .closed := possible
      simp [Event.opened?, BrokerHub.left, Turn.phase, hphase]

theorem dispatches_turn : (c.apply (.turn n hub t)).dispatches =
    c.dispatches ++ (Event.turn n hub t).opened?.toList := by
  cases t with
  | dispatch m r number => rfl
  | _ => exact (List.append_nil _).symm

theorem Reached.left_turn (reached : Reached h c)
    (possible : (Event.turn n hub t).Possible c) :
    (c.apply (.turn n hub t)).left < c.left := by
  have hless := BrokerHub.left_turn (n := n) possible.2
    ((c.broker.apply (t.move hub)).contents hub.subscription)
  have hhubs := reached.inHubs_turn possible BrokerHub.left
  rw [contents_turn possible.2] at hhubs
  rw [Core.left_eq, Core.left_eq, dispatches_turn, List.map_append, List.sum_append]
  omega

end

section
variable {h : History} {c : Core}

theorem left_proceed {n i : Nat} {first after : Progress}
    (possible : (Event.proceed n i first after).Possible c) :
    (c.apply (.proceed n i first after)).left < c.left := by
  obtain ⟨hrank, p, inv, hp, hinv, rfl⟩ := possible
  exact Nat.add_lt_add_left (sum_map_modify_lt hp (Dispatch.left_proceed hinv hrank)) _

/-- A loop that goes on when its dispatch is over counts for what it did. -/
theorem Reached.inHubs_conclude (reached : Reached h c) {n : Nat} {p : Dispatch}
    (possible : (Event.conclude n p).Possible c) {count : BrokerHub → List Message → Nat}
    (goesOn : ∀ hub waiting, hub.phase.state = .running →
      count { hub with phase := .running } waiting = count hub waiting) :
    (c.apply (.conclude n p)).inHubs count = c.inHubs count := by
  have hsize : (c.apply (.conclude n p)).hubs.length = c.hubs.length := by
    show (Event.hubs c.hubs (.conclude n p)).length = _
    rw [Event.hubs]
    split
    · rfl
    · exact List.length_modify _ _ _
  rw [Core.inHubs, hsize, Core.inHubs]
  congr 2
  funext k
  rw [Core.atHub, Core.atHub]
  cases hk : c.brokerHub? k with
  | none =>
      rw [Core.brokerHub?_apply possible, hk]
      have hsame : (if k = c.hubs.length then (Event.conclude n p).built? else none) = none :=
        ite_self _
      rw [Option.map_none, hsame]
      rfl
  | some hub =>
      rw [Core.brokerHub?_apply_of_some possible hk]
      show count ((Event.conclude n p).onHub k hub) (c.broker.contents _) = count hub _
      rw [Event.subscription_onHub, Event.onHub]
      split
      · next howner =>
          have hphase := reached.busy.dispatching_of_conclude possible howner hk
          exact goesOn hub _ (by rw [hphase]; rfl)
      · rfl

theorem Reached.left_conclude (reached : Reached h c) {n : Nat} {p : Dispatch}
    (possible : (Event.conclude n p).Possible c) : (c.apply (.conclude n p)).left < c.left := by
  have hhubs : (c.apply (.conclude n p)).inHubs BrokerHub.left = c.inHubs BrokerHub.left :=
    reached.inHubs_conclude possible fun hub waiting hstate => by
      rw [hub.left_of_running hstate, BrokerHub.left_of_running rfl]
      rfl
  rw [Core.left_eq, Core.left_eq, hhubs]
  exact Nat.add_lt_add_left (sum_map_modify_lt possible.1 (Dispatch.left_conclude possible.2.2)) _

/-- Every step that a handler or a loop takes of itself leaves less to do. -/
theorem Reached.left_settles (reached : Reached h c) {e : Event} (possible : e.Possible c)
    (he : e.settles = true) : (c.apply e).left < c.left := by
  cases e with
  | proceed n i first after => exact left_proceed possible
  | conclude n p => exact reached.left_conclude possible
  | turn n hub t => exact reached.left_turn possible
  | _ => cases he

end

namespace Deployment

variable {h : History} {d d' : Deployment}

theorem left_lt_of_perform (reached : Reached h d.core) {a : Action} (ha : a.settles = true)
    (step : d.perform a = some d') : d'.core.left < d.core.left := by
  have happens := happens_perform step
  rw [happens.core_eq]
  exact reached.left_settles happens.possible (settles_event ha step)

/-- Nothing goes on for ever by itself. -/
theorem Run.length_le_left {as : List Action} (run : Run d as d') (reached : Reached h d.core)
    (hsettles : ∀ a ∈ as, a.settles = true) : as.length ≤ d.core.left := by
  induction run generalizing h with
  | nil d => exact Nat.zero_le _
  | cons step rest ih =>
      obtain ⟨ha, has⟩ := List.forall_mem_cons.mp hsettles
      have hless := left_lt_of_perform reached ha step
      have hrest := ih (reached_of_reached reached (.single step)) has
      rw [List.length_cons]
      omega

/-- Whoever can take a step as long as anything is left comes to rest in the end. -/
theorem exists_rest {P : Deployment → Prop} {A : Action → Prop}
    (settles : ∀ a, A a → a.settles = true)
    (keeps : ∀ {d d' a}, P d → A a → d.perform a = some d' → P d')
    (goesOn : ∀ {d}, P d → ¬ d.Settled → ∃ a d', A a ∧ d.perform a = some d')
    (reached : Reached h d.core) (hP : P d) :
    ∃ as d', Run d as d' ∧ (∀ a ∈ as, A a) ∧ d'.Settled := by
  induction hleft : d.core.left using Nat.strong_induction_on generalizing h d with
  | _ left ih =>
      by_cases settled : d.Settled
      · exact ⟨[], d, .nil d, nofun, settled⟩
      · obtain ⟨a, d₁, ha, step⟩ := goesOn hP settled
        have hless := left_lt_of_perform reached (settles a ha) step
        obtain ⟨as, d', run, has, settled'⟩ :=
          ih _ (hleft ▸ hless) (reached_of_reached reached (.single step)) (keeps hP ha step) rfl
        exact ⟨a :: as, d', .cons step run, List.forall_mem_cons.mpr ⟨ha, has⟩, settled'⟩

theorem exists_step_of_not_settled (hnot : ¬ d.Settled) :
    ∃ a d', a.settles = true ∧ d.perform a = some d' := by
  simp only [Settled, not_forall] at hnot
  obtain ⟨a, ha, hstep⟩ := hnot
  obtain ⟨d', step⟩ := Option.ne_none_iff_exists'.mp hstep
  exact ⟨a, d', ha, step⟩

/-- Where nothing is left to do, a loop waits for a message or has stopped. -/
theorem loop_of_settled (reached : Reached h d.core) (settled : d.Settled) {n : Nat}
    {hub : BrokerHub} (hn : d.brokerHub? n = some hub) :
    hub.phase = .running ∧ d.tokens.isCancelled hub.token = false ∧
        (d.exchange.broker.receive hub.topic hub.subscription).2 = .empty ∨
      hub.phase = .stopped := by
  have hturn : d.turn n = none := settled (.turn n) rfl
  rw [turn, hn] at hturn
  dsimp only at hturn
  cases hphase : hub.phase with
  | stopped => exact .inr rfl
  | draining | closed => rw [hphase] at hturn; cases hturn
  | dispatching k =>
      obtain ⟨p, hp, -, hopen⟩ := reached.busy.telling ((brokerHub?_core d n).trans hn) hphase
      rw [concluded_of_settled settled (getElem?_core.mp hp)] at hopen
      cases hopen
  | running =>
      rw [hphase] at hturn
      dsimp only at hturn
      split at hturn
      · cases hturn
      · next hcancelled =>
          refine .inl ⟨rfl, Bool.eq_false_iff.mpr hcancelled, ?_⟩
          rw [takeMessage] at hturn
          dsimp only at hturn
          split at hturn
          · next hempty => exact hempty
          · cases hturn
          · split at hturn <;> cases hturn

end Deployment

end DiceRooms
