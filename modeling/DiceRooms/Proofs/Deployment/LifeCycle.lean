import DiceRooms.Proofs.Deployment.Dispatches

/-!
The life cycle of a receive loop. It runs, it drains and it is stopped, in this order; it
leaves the broker once, when it stops. Only its token or the end of its channel stop it,
and neither of them while it is telling a roll.
-/
namespace DiceRooms

/-- A loop as far as its owner can tell. -/
inductive LoopState
  | running
  | draining
  | stopped
deriving DecidableEq

def Phase.state : Phase → LoopState
  | running | dispatching _ => .running
  | draining | closed => .draining
  | stopped => .stopped

/-! The phase that an event puts a loop into. -/

namespace Event

def phase? (n : Nat) : Event → Option Phase
  | conclude _ p => if p.owner = .receiver n then some .running else none
  | turn k _ t => if k = n then some t.phase else none
  | _ => none

theorem phase_onHub (n : Nat) (h : BrokerHub) (e : Event) :
    (e.onHub n h).phase = (e.phase? n).getD h.phase := by
  cases e with
  | register _ _ _ _ | unregister _ _ _ | conclude _ _ | turn _ _ _ | detach _ _ =>
      simp only [onHub, phase?]
      split <;> rfl
  | _ => rfl

/-- Only a turn of the loop and the end of its dispatch change its phase. -/
theorem phase?_eq_some {n : Nat} {e : Event} {phase : Phase} (h : e.phase? n = some phase) :
    (∃ k p, e = .conclude k p ∧ p.owner = .receiver n ∧ phase = .running) ∨
      ∃ hub t, e = .turn n hub t ∧ phase = t.phase := by
  cases e with
  | conclude k p =>
      simp only [phase?] at h
      split at h
      · next howner => exact .inl ⟨k, p, rfl, howner, (Option.some.inj h).symm⟩
      · cases h
  | turn k hub t =>
      simp only [phase?] at h
      split at h
      · next heq => subst heq; exact .inr ⟨hub, t, rfl, (Option.some.inj h).symm⟩
      · cases h
  | _ => cases h

end Event

theorem Turn.not_dispatching {c : Core} {hub : BrokerHub} {t : Turn} (possible : t.Possible c hub)
    (k : Nat) : hub.phase ≠ .dispatching k := by
  intro hphase
  cases t with
  | cancelled | close | leave _ =>
      have hwhere := possible
      simp [Turn.Possible, hphase] at hwhere
  | channelClosed | undecodable _ | dispatch _ _ _ =>
      have hwhere := possible
      simp [Turn.Possible, Turn.Receives, hphase] at hwhere

/-- The turn of a hub is the turn of the hub that is there. -/
theorem Event.of_turn {c : Core} {n : Nat} {hub hub' : BrokerHub} {t : Turn}
    (possible : (Event.turn n hub' t).Possible c) (hn : c.brokerHub? n = some hub) :
    hub' = hub ∧ t.Possible c hub := by
  obtain ⟨hn', hturn⟩ := possible
  rw [hn] at hn'
  cases hn'
  exact ⟨rfl, hturn⟩

/-! A loop is telling a roll just as long as its dispatch is not concluded. -/

structure Busy (c : Core) : Prop where
  telling : ∀ {n hub k}, c.brokerHub? n = some hub → hub.phase = .dispatching k →
    ∃ p, c.dispatches[k]? = some p ∧ p.owner = .receiver n ∧ p.concluded = false
  told : ∀ {k p n}, c.dispatches[k]? = some p → p.owner = .receiver n → p.concluded = false →
    ∃ hub, c.brokerHub? n = some hub ∧ hub.phase = .dispatching k

theorem Busy.dispatching_of_conclude {c : Core} (busy : Busy c) {k n : Nat} {p : Dispatch}
    (possible : (Event.conclude k p).Possible c) (howner : p.owner = .receiver n)
    {hub : BrokerHub} (hn : c.brokerHub? n = some hub) : hub.phase = .dispatching k := by
  obtain ⟨hub', hn', hphase⟩ := busy.told possible.1 howner possible.2.2
  rw [hn] at hn'
  cases hn'
  exact hphase

theorem owner_onDispatch (n : Nat) (p : Dispatch) (e : Event) :
    (e.onDispatch n p).owner = p.owner := by
  cases e with
  | proceed _ _ _ _ | conclude _ _ =>
      simp only [Event.onDispatch]
      split <;> rfl
  | _ => rfl

theorem concluded_onDispatch (n : Nat) (p : Dispatch) (e : Event) :
    (e.onDispatch n p).concluded = true ↔ p.concluded = true ∨ ∃ q, e = .conclude n q := by
  cases e with
  | proceed k i first after =>
      simp only [Event.onDispatch]
      split <;> simp [Dispatch.proceed]
  | conclude k q =>
      simp only [Event.onDispatch]
      split
      · next heq => simp [Dispatch.conclude, heq]
      · next hne => simp [hne]
  | _ => simp [Event.onDispatch]

/-- A loop begins to tell the dispatch that the event begins. -/
theorem opened_of_phase? {c : Core} {e : Event} (possible : e.Possible c) {n k : Nat}
    (h : e.phase? n = some (.dispatching k)) :
    k = c.dispatches.length ∧
      ∃ p, e.opened? = some p ∧ p.owner = .receiver n ∧ p.concluded = false := by
  rcases Event.phase?_eq_some h with ⟨_, _, -, -, hrunning⟩ | ⟨hub, t, rfl, hturn⟩
  · cases hrunning
  · cases t with
    | dispatch m r number =>
        cases hturn
        exact ⟨possible.2.2.2, _, rfl, rfl, rfl⟩
    | _ => cases hturn

theorem phase?_of_opened {c : Core} {e : Event} (possible : e.Possible c) {n : Nat}
    {p : Dispatch} (h : e.opened? = some p) (howner : p.owner = .receiver n) :
    e.phase? n = some (.dispatching c.dispatches.length) ∧ ∃ hub, c.brokerHub? n = some hub := by
  rcases Event.opened?_eq_some h with
    ⟨endpoint, registry, r, rfl, rfl⟩ | ⟨n', hub, m, r, number, rfl, rfl⟩
  · cases howner
  · cases howner
    have hnumber : number = c.dispatches.length := possible.2.2.2
    refine ⟨?_, hub, possible.1⟩
    simp [Event.phase?, Turn.phase, hnumber]

theorem Busy.telling_apply {c : Core} {e : Event} (busy : Busy c) (possible : e.Possible c)
    {n k : Nat} {hub : BrokerHub} (hn : (c.apply e).brokerHub? n = some hub)
    (hphase : hub.phase = .dispatching k) :
    ∃ p, (c.apply e).dispatches[k]? = some p ∧ p.owner = .receiver n ∧
      p.concluded = false := by
  rcases Core.of_brokerHub?_apply possible hn with ⟨-, capacity, rfl⟩ | ⟨old, hold, rfl⟩
  · rw [possible.2.1] at hphase
    cases hphase
  · rw [Event.phase_onHub] at hphase
    cases hchange : e.phase? n with
    | some phase =>
        rw [hchange, Option.getD_some] at hphase
        subst hphase
        obtain ⟨rfl, p, hopened, howner, hopen⟩ := opened_of_phase? possible hchange
        refine ⟨p, ?_, howner, hopen⟩
        rw [Core.getElem?_dispatches_apply, if_pos rfl, hopened]
    | none =>
        rw [hchange, Option.getD_none] at hphase
        obtain ⟨p, hp, howner, hopen⟩ := busy.telling hold hphase
        refine ⟨e.onDispatch k p, Core.getElem?_dispatches_apply_of_some hp e,
          (owner_onDispatch k p e).trans howner, ?_⟩
        apply Bool.eq_false_iff.mpr
        rw [ne_eq, concluded_onDispatch, hopen]
        rintro (hfalse | ⟨q, rfl⟩)
        · cases hfalse
        · -- Its conclusion would have put the loop into another phase.
          obtain rfl : p = q := Option.some.inj (hp.symm.trans possible.1)
          simp [Event.phase?, howner] at hchange

theorem Busy.told_apply {c : Core} {e : Event} (busy : Busy c) (possible : e.Possible c)
    {n k : Nat} {p : Dispatch} (hp : (c.apply e).dispatches[k]? = some p)
    (howner : p.owner = .receiver n) (hopen : p.concluded = false) :
    ∃ hub, (c.apply e).brokerHub? n = some hub ∧ hub.phase = .dispatching k := by
  rcases Core.of_getElem?_dispatches_apply hp with ⟨hlast, hopened⟩ | ⟨old, hold, rfl⟩
  · obtain ⟨hbegins, hub, hn⟩ := phase?_of_opened possible hopened howner
    refine ⟨_, Core.brokerHub?_apply_of_some possible hn, ?_⟩
    rw [Event.phase_onHub, hbegins, hlast]
    rfl
  · rw [owner_onDispatch] at howner
    have hnot : ¬ (old.concluded = true ∨ ∃ q, e = .conclude k q) := by
      rw [← concluded_onDispatch, hopen]
      exact Bool.false_ne_true
    have hopen : old.concluded = false := Bool.eq_false_iff.mpr fun h => hnot (.inl h)
    obtain ⟨hub, hn, hphase⟩ := busy.told hold howner hopen
    refine ⟨e.onHub n hub, Core.brokerHub?_apply_of_some possible hn, ?_⟩
    rw [Event.phase_onHub]
    cases hchange : e.phase? n with
    | none => exact hphase
    | some phase =>
        exfalso
        rcases Event.phase?_eq_some hchange with ⟨k', q, rfl, hq, -⟩ | ⟨hub', t, rfl, -⟩
        · -- The loop is telling only one dispatch, and this one is not concluded.
          have hphase' := busy.dispatching_of_conclude possible hq hn
          rw [hphase] at hphase'
          cases hphase'
          exact hnot (.inr ⟨q, rfl⟩)
        · obtain ⟨rfl, hturn⟩ := Event.of_turn possible hn
          exact Turn.not_dispatching hturn k hphase

theorem Reached.busy {h : History} {c : Core} (reached : Reached h c) : Busy c := by
  induction reached with
  | start => exact ⟨nofun, nofun⟩
  | step before possible ih => exact ⟨ih.telling_apply possible, ih.told_apply possible⟩

/-! How the state changes. -/

/-- The ways for an event to take a loop from one state to another. -/
inductive StateChange (c : Core) (n : Nat) (hub : BrokerHub) (e : Event) :
    LoopState → LoopState → Prop
  | none (s : LoopState) : StateChange c n hub e s s
  | cancelled (turn : e = .turn n hub .cancelled)
      (heeds : c.tokens.isCancelled hub.token = true) : StateChange c n hub e .running .draining
  | channelClosed (turn : e = .turn n hub .channelClosed)
      (heeds : (c.broker.receive hub.topic hub.subscription).2 = .closed) :
      StateChange c n hub e .running .draining
  | left (arrives : Bool) (turn : e = .turn n hub (.leave arrives)) :
      StateChange c n hub e .draining .stopped

theorem stateChange_turn {c : Core} {n : Nat} {hub : BrokerHub} {t : Turn}
    (possible : t.Possible c hub) :
    StateChange c n hub (.turn n hub t) hub.phase.state t.phase.state := by
  cases t with
  | cancelled =>
      rw [possible.1]
      exact .cancelled rfl possible.2
  | channelClosed =>
      rw [possible.1]
      exact .channelClosed rfl possible.2.2
  | undecodable m =>
      rw [possible.1.1]
      exact .none _
  | dispatch m r number =>
      rw [possible.1.1]
      exact .none _
  | close =>
      rw [show hub.phase = .draining from possible]
      exact .none _
  | leave arrives =>
      rw [show hub.phase = .closed from possible]
      exact .left arrives rfl

theorem stateChange_onHub {c : Core} {e : Event} (busy : Busy c) (possible : e.Possible c)
    {n : Nat} {hub : BrokerHub} (hn : c.brokerHub? n = some hub) :
    StateChange c n hub e hub.phase.state (e.onHub n hub).phase.state := by
  rw [Event.phase_onHub]
  cases hchange : e.phase? n with
  | none => exact .none _
  | some phase =>
      rcases Event.phase?_eq_some hchange with ⟨k, p, rfl, howner, rfl⟩ | ⟨hub', t, rfl, rfl⟩
      · rw [busy.dispatching_of_conclude possible howner hn]
        exact .none _
      · obtain ⟨rfl, hturn⟩ := Event.of_turn possible hn
        exact stateChange_turn hturn

/-- A loop that is telling a roll goes on until the dispatch is over. -/
theorem phase_of_dispatching {c : Core} {e : Event} (busy : Busy c) (possible : e.Possible c)
    {n k : Nat} {hub : BrokerHub} (hn : c.brokerHub? n = some hub)
    (hphase : hub.phase = .dispatching k) :
    (e.onHub n hub).phase = .dispatching k ∨
      (e.onHub n hub).phase = .running ∧
        ∃ p, e = .conclude k p ∧ p.broadcast.isOver = true := by
  rw [Event.phase_onHub]
  cases hchange : e.phase? n with
  | none => exact .inl hphase
  | some phase =>
      rcases Event.phase?_eq_some hchange with ⟨k', p, rfl, howner, rfl⟩ | ⟨hub', t, rfl, -⟩
      · have hphase' := busy.dispatching_of_conclude possible howner hn
        rw [hphase] at hphase'
        cases hphase'
        exact .inr ⟨rfl, p, rfl, possible.2.1⟩
      · obtain ⟨rfl, hturn⟩ := Event.of_turn possible hn
        exact (Turn.not_dispatching hturn k hphase).elim

/-! Leaving the broker. -/

/-- The loop of the hub unsubscribes. -/
def Event.leaves (n : Nat) : Event → Bool
  | .turn k _ (.leave _) => k = n
  | _ => false

theorem Event.leaves_iff {n : Nat} {e : Event} :
    e.leaves n = true ↔ ∃ hub arrives, e = .turn n hub (.leave arrives) := by
  cases e with
  | turn k hub t => cases t <;> simp [leaves]
  | _ => simp [leaves]

/-- How often a loop in the state has left the broker. -/
def timesLeft : Option LoopState → Nat
  | some .stopped => 1
  | _ => 0

def Core.loopState? (c : Core) (n : Nat) : Option LoopState :=
  (c.brokerHub? n).map (·.phase.state)

/-- A hub that has just come up has not left, and one that is not there cannot. -/
theorem timesLeft_of_none {c : Core} {e : Event} (possible : e.Possible c) {n : Nat}
    (hn : c.brokerHub? n = none) :
    timesLeft ((c.apply e).loopState? n) = 0 ∧ e.leaves n = false := by
  constructor
  · rw [Core.loopState?]
    cases hn' : (c.apply e).brokerHub? n with
    | none => rfl
    | some hub =>
        rcases Core.of_brokerHub?_apply possible hn' with ⟨-, _, rfl⟩ | ⟨old, hold, -⟩
        · rw [Option.map_some, possible.2.1]
          rfl
        · rw [hn] at hold
          cases hold
  · apply Bool.eq_false_iff.mpr
    intro hleaves
    obtain ⟨hub, arrives, rfl⟩ := Event.leaves_iff.mp hleaves
    have hthere := possible.1
    rw [hn] at hthere
    cases hthere

theorem timesLeft_of_stateChange {c : Core} {n : Nat} {hub : BrokerHub} {e : Event}
    {s s' : LoopState} (h : StateChange c n hub e s s') (hleaves : e.leaves n = false) :
    timesLeft (some s') = timesLeft (some s) := by
  cases h with
  | none => rfl
  | cancelled _ _ | channelClosed _ _ => rfl
  | left arrives hturn =>
      rw [Event.leaves_iff.mpr ⟨hub, arrives, hturn⟩] at hleaves
      cases hleaves

theorem timesLeft_apply {c : Core} {e : Event} (busy : Busy c) (possible : e.Possible c)
    (n : Nat) : timesLeft ((c.apply e).loopState? n) =
      timesLeft (c.loopState? n) + if e.leaves n then 1 else 0 := by
  cases hn : c.brokerHub? n with
  | none =>
      obtain ⟨hafter, hstays⟩ := timesLeft_of_none possible hn
      rw [hafter, hstays, Core.loopState?, hn]
      rfl
  | some hub =>
      have hafter := Core.brokerHub?_apply_of_some possible hn
      rw [Core.loopState?, Core.loopState?, hafter, hn, Option.map_some, Option.map_some]
      cases hleaves : e.leaves n with
      | false =>
          exact timesLeft_of_stateChange (stateChange_onHub busy possible hn) hleaves
      | true =>
          obtain ⟨hub', arrives, rfl⟩ := Event.leaves_iff.mp hleaves
          obtain ⟨rfl, hclosed⟩ := Event.of_turn possible hn
          rw [Event.phase_onHub, show hub'.phase = .closed from hclosed]
          simp [Event.phase?, Turn.phase, Phase.state, timesLeft]

theorem Reached.left_eq {h : History} {c : Core} (reached : Reached h c) (n : Nat) :
    h.countP (·.2.leaves n) = timesLeft (c.loopState? n) := by
  induction reached with
  | start => rfl
  | @step h c e before possible ih =>
      rw [timesLeft_apply before.busy possible, List.countP_append, ih, List.countP_singleton]

/-! Heeding cancellation. -/

/-- The loop looks for a message in this turn. -/
def Turn.listens : Turn → Bool
  | channelClosed | undecodable _ | dispatch .. => true
  | cancelled | close | leave _ => false

theorem Turn.receives_of_listens {c : Core} {hub : BrokerHub} {t : Turn}
    (possible : t.Possible c hub) (h : t.listens = true) :
    ∃ received, Turn.Receives c hub received := by
  cases t with
  | channelClosed => exact ⟨_, possible⟩
  | undecodable m => exact ⟨_, possible.1⟩
  | dispatch m r number => exact ⟨_, possible.1⟩
  | cancelled | close | leave _ => cases h

/-- A hub whose token has been cancelled looks for no message from then on. -/
theorem Reached.heeds {h before before' : History} {c c₀ c' : Core} (reached : Reached h c)
    {n : Nat} {e₀ : Event} {hub₀ hub' : BrokerHub} {t : Turn} (hat : h.At before c₀ e₀)
    (hn₀ : c₀.brokerHub? n = some hub₀) (hcancelled : c₀.tokens.isCancelled hub₀.token = true)
    (hlater : before.length ≤ before'.length) (hat' : h.At before' c' (.turn n hub' t)) :
    t.listens = false := by
  obtain ⟨reached', possible'⟩ := reached.upTo hat'
  have hstill : c'.tokens.isCancelled hub'.token = true := by
    rcases hat.trichotomy hat' with ⟨-, rfl, -⟩ | hearlier | hafter
    · obtain ⟨rfl, -⟩ := Event.of_turn possible' hn₀
      exact hcancelled
    · obtain ⟨hub, hn, htoken⟩ := reached'.hub_keeps BrokerHub.token
        (fun e hub => e.token_onHub n hub) hearlier hn₀
      obtain ⟨rfl, -⟩ := Event.of_turn possible' hn
      rw [htoken]
      exact reached'.keeps (Q := fun c => c.tokens.isCancelled hub₀.token = true)
        (fun c e _ h => Core.isCancelled_apply h e) hearlier hcancelled
    · obtain ⟨rest, rfl⟩ := hafter
      simp only [List.length_append, List.length_cons] at hlater
      omega
  apply Bool.eq_false_iff.mpr
  intro hlistens
  obtain ⟨received, -, hnot, -⟩ := Turn.receives_of_listens possible'.2 hlistens
  rw [hstill] at hnot
  cases hnot

/-- When a loop takes a turn, everything it has begun to tell is told. -/
theorem Reached.spared {h : History} {c : Core} (reached : Reached h c) {n : Nat}
    {hub : BrokerHub} {t : Turn} (possible : (Event.turn n hub t).Possible c) {k : Nat}
    {p : Dispatch} (hp : c.dispatches[k]? = some p) (howner : p.owner = .receiver n) :
    p.concluded = true ∧ p.broadcast.isOver = true := by
  have hconcluded : p.concluded = true := by
    cases hopen : p.concluded with
    | true => rfl
    | false =>
        obtain ⟨hub', hn, hphase⟩ := reached.busy.told hp howner hopen
        obtain ⟨rfl, hturn⟩ := Event.of_turn possible hn
        exact (Turn.not_dispatching hturn k hphase).elim
  exact ⟨hconcluded, reached.over_of_concluded hp hconcluded⟩

/-- No event takes an invocation back. -/
theorem rank_le_apply {c : Core} {e : Event} (possible : e.Possible c) {k i : Nat}
    {first : Progress} (hfirst : c.progress? k i = some first) :
    ∃ after, (c.apply e).progress? k i = some after ∧ first.rank ≤ after.rank := by
  rw [progress?_apply, if_neg (Core.ne_of_progress? hfirst), hfirst]
  refine ⟨_, rfl, ?_⟩
  cases hafter : e.after? k i with
  | none => exact Nat.le_refl _
  | some after =>
      obtain ⟨first', -, hrank, hfirst'⟩ := progress?_of_after? possible hafter
      rw [hfirst] at hfirst'
      cases hfirst'
      exact Nat.le_of_lt hrank

/-- What the history tells of the loop of one hub. -/
structure LoopLife (h : History) (n : Nat) (hub : BrokerHub) : Prop where
  starts : ∀ {c capacity} {built : BrokerHub}, (c, .build capacity built) ∈ h →
    built.phase.state = .running
  changes : ∀ {c e old}, (c, e) ∈ h → c.brokerHub? n = some old →
    ∃ new, (c.apply e).brokerHub? n = some new ∧
      StateChange c n old e old.phase.state new.phase.state
  /-- It has left the broker once if it is stopped, and otherwise never. -/
  left : h.countP (·.2.leaves n) = if hub.phase.state = .stopped then 1 else 0
  drains : ∀ {c old t}, (c, .turn n old t) ∈ h → (t = .close ∨ ∃ arrives, t = .leave arrives) →
    old.phase.state = .draining
  /-- From the moment of cancellation on it looks for no message. -/
  heeds : ∀ {before before' c₀ c' e₀ hub₀ hub' t}, h.At before c₀ e₀ →
    c₀.brokerHub? n = some hub₀ → c₀.tokens.isCancelled hub₀.token = true →
    before.length ≤ before'.length → h.At before' c' (.turn n hub' t) → t.listens = false
  /-- When it takes a turn, all that it has begun to tell has been told. -/
  spared : ∀ {c old t} {k : Nat} {p : Dispatch}, (c, .turn n old t) ∈ h →
    c.dispatches[k]? = some p → p.owner = .receiver n →
    p.concluded = true ∧ p.broadcast.isOver = true
  undisturbed : ∀ {c e old k}, (c, e) ∈ h → c.brokerHub? n = some old →
    old.phase = .dispatching k →
    ∃ new, (c.apply e).brokerHub? n = some new ∧ (new.phase = .dispatching k ∨
      new.phase = .running ∧ ∃ p, e = .conclude k p ∧ p.broadcast.isOver = true)
  proceeds : ∀ {c e k i first}, (c, e) ∈ h → c.progress? k i = some first →
    ∃ after, (c.apply e).progress? k i = some after ∧ first.rank ≤ after.rank

theorem Reached.loopLife {h : History} {c : Core} (reached : Reached h c) {n : Nat}
    {hub : BrokerHub} (hn : c.brokerHub? n = some hub) : LoopLife h n hub := by
  constructor
  · intro c₀ capacity built hmem
    rw [(reached.possible_of_mem hmem).2.1]
    rfl
  · intro c₀ e old hmem hold
    obtain ⟨before, hat⟩ := History.at_of_mem hmem
    obtain ⟨reached₀, possible⟩ := reached.upTo hat
    exact ⟨_, Core.brokerHub?_apply_of_some possible hold,
      stateChange_onHub reached₀.busy possible hold⟩
  · rw [reached.left_eq, Core.loopState?, hn, Option.map_some]
    cases hub.phase.state <;> rfl
  · intro c₀ old t hmem ht
    have possible := (reached.possible_of_mem hmem).2
    rcases ht with rfl | ⟨arrives, rfl⟩
    · rw [show old.phase = .draining from possible]
      rfl
    · rw [show old.phase = .closed from possible]
      rfl
  · intro before before' c₀ c' e₀ hub₀ hub' t hat hn₀ hcancelled hlater hat'
    exact reached.heeds hat hn₀ hcancelled hlater hat'
  · intro c₀ old t k p hmem hp howner
    obtain ⟨before, hat⟩ := History.at_of_mem hmem
    obtain ⟨reached₀, possible⟩ := reached.upTo hat
    exact reached₀.spared possible hp howner
  · intro c₀ e old k hmem hold hphase
    obtain ⟨before, hat⟩ := History.at_of_mem hmem
    obtain ⟨reached₀, possible⟩ := reached.upTo hat
    exact ⟨_, Core.brokerHub?_apply_of_some possible hold,
      phase_of_dispatching reached₀.busy possible hold hphase⟩
  · intro c₀ e k i first hmem hfirst
    exact rank_le_apply (reached.possible_of_mem hmem) hfirst

namespace Deployment

theorem perform_start {d : Deployment} {k i : Nat} {p : Dispatch} {inv : Invocation}
    (hp : d.dispatches[k]? = some p) (hinv : p.broadcast[i]? = some inv)
    (hwaiting : inv.progress = .waiting) : ∃ d', d.perform (.start k i) = some d' := by
  simp [perform, startInvocation, Broadcast.start, Broadcast.advance, hp, hinv, hwaiting]

theorem perform_finish {d : Deployment} {k i : Nat} {p : Dispatch} {inv : Invocation}
    (hp : d.dispatches[k]? = some p) (hinv : p.broadcast[i]? = some inv)
    (hrunning : inv.progress = .running) (o : Outcome) :
    ∃ d', d.perform (.finish k i o) = some d' := by
  simp [perform, finishInvocation, Broadcast.finish, Broadcast.advance, hp, hinv, hrunning]

theorem perform_conclude {d : Deployment} {k : Nat} {p : Dispatch}
    (hp : d.dispatches[k]? = some p) (hover : p.broadcast.isOver = true)
    (hopen : p.concluded = false) : ∃ d', d.perform (.conclude k) = some d' := by
  simp [perform, conclude, hp, hover, hopen]

/-- Every handler of the dispatch can be carried on, and once all have ended, however they
have, the loop of the hub runs on. -/
structure CarriesOn (d : Deployment) (n k : Nat) (p : Dispatch) : Prop where
  starts : ∀ {i inv}, p.broadcast[i]? = some inv → inv.progress = .waiting →
    ∃ d', d.perform (.start k i) = some d'
  finishes : ∀ {i inv}, p.broadcast[i]? = some inv → inv.progress = .running →
    ∀ o, ∃ d', d.perform (.finish k i o) = some d'
  concludes : p.broadcast.isOver = true → ∃ d' hub, d.perform (.conclude k) = some d' ∧
    d'.brokerHub? n = some hub ∧ hub.phase = .running

/-- Whatever has been cancelled or closed, a dispatch that is not concluded carries on. -/
theorem carriesOn_of_open {as : List Action} {d : Deployment} (run : Run .empty as d)
    {n k : Nat} {p : Dispatch} (hp : d.dispatches[k]? = some p) (howner : p.owner = .receiver n)
    (hopen : p.concluded = false) : CarriesOn d n k p := by
  have hcore := (getElem?_core_dispatches d k).trans hp
  refine ⟨perform_start hp, perform_finish hp, ?_⟩
  intro hover
  obtain ⟨d', hd'⟩ := perform_conclude hp hover hopen
  obtain ⟨hub, hn, -⟩ := run.reached.busy.told hcore howner hopen
  have happens := happens_perform hd'
  have hevent : d.event (.conclude k) = .conclude k p := by simp [event, hp]
  rw [hevent] at happens
  have hafter := Core.brokerHub?_apply_of_some happens.possible hn
  rw [← happens.core_eq, brokerHub?_core] at hafter
  refine ⟨d', _, hd', hafter, ?_⟩
  rw [Event.phase_onHub]
  simp [Event.phase?, howner]

/-- In every run every loop lives its life in order: it runs until its token is cancelled or
its channel has ended, finishes what it is telling, drains and leaves the broker once. -/
theorem loop_life {as : List Action} {d : Deployment} (run : Run .empty as d) {n : Nat}
    {hub : BrokerHub} (hn : d.brokerHub? n = some hub) :
    LoopLife (history .empty as) n hub ∧
      ∀ k p, d.dispatches[k]? = some p → p.owner = .receiver n → p.concluded = false →
        CarriesOn d n k p :=
  ⟨run.reached.loopLife ((brokerHub?_core d n).trans hn), fun _ _ => carriesOn_of_open run⟩

/-- The hub is shut down while it tells the roll to a handler that will panic. -/
def ending : List Action :=
  [.turn 0, .start 0 0, .shutdown 0, .finish 0 0 (.panic .untold), .conclude 0,
    .turn 0, .turn 0, .turn 0]

theorem run_ending {d : Deployment} (hd : announcing.foldlM perform .empty = some d) :
    ∃ d', Run d ending d' ∧ ∃ hub, d'.brokerHub? 0 = some hub ∧
      hub.phase.state = .stopped := by
  refine ⟨_, .cons (turn_announcing hd) (run_iff.mpr (by cases hd; rfl)), ?_⟩
  cases hd
  exact ⟨_, rfl, rfl⟩

theorem loop_life_ending :
    ∃ d hub, Run .empty (announcing ++ ending) d ∧ d.brokerHub? 0 = some hub ∧
      hub.phase.state = .stopped ∧
      (history .empty (announcing ++ ending)).countP (·.2.leaves 0) = 1 := by
  obtain ⟨d, hd⟩ : ∃ d, announcing.foldlM perform .empty = some d := ⟨_, rfl⟩
  obtain ⟨d', rest, hub, hn, hstopped⟩ := run_ending hd
  have run := (run_iff.mpr hd).append rest
  have left := (loop_life run hn).1.left
  rw [if_pos hstopped] at left
  exact ⟨d', hub, run, hn, hstopped, left⟩

end Deployment

end DiceRooms
