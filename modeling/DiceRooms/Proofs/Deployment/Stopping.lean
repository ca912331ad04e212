import DiceRooms.Proofs.Deployment.Conduct

/-!
Exactly the right hubs stop. A loop keeps its registration as long as it runs, so that its
channel never ends under it, and only its token stops it. The token of a hub is cancelled by
the kin of the token it was built on, or when the hub itself is shut down or dropped; neither
reaches a caller's token or another hub.
-/
namespace DiceRooms

/-- The token that the hub was built on or an ancestor of it has been cancelled, or this very
hub has been shut down or dropped. -/
def Trace.CalledOff (tr : Trace) (n : Nat) : Prop :=
  (∃ token, tr.builtOn n = some token ∧ ∃ u ∈ tr.cancelled, token.DescendsFrom u) ∨ tr.Ended n

variable {tr : Trace} {d d' : Deployment}

theorem Conduct.kinship (conduct : Conduct tr d) : Kinship tr d := by
  induction conduct with
  | start => exact .start
  | step before permitted performed ih => exact ih.step permitted performed

theorem Tokens.isCancelled_iff (ts : Tokens) (t : Token) :
    ts.isCancelled t = true ↔ ∃ k ∈ t.lineage, k ∈ ts.cancelled := by
  simp [isCancelled]

namespace Kinship

/-- A caller's token is cancelled with its own kin, and by nothing else. -/
theorem isCancelled_iff (kin : Kinship tr d) {t : Token} (ht : t ∈ tr.given) :
    d.tokens.isCancelled t = true ↔ ∃ u ∈ tr.cancelled, t.DescendsFrom u := by
  rw [Tokens.isCancelled_iff]
  constructor
  · rintro ⟨k, hk, hcancelled⟩
    rcases (kin.cancelled k).mp hcancelled with ⟨u, hu, rfl⟩ | ⟨n, hub, hn, rfl, -⟩
    · exact ⟨u, hu, hk⟩
    · obtain ⟨v, hv, hnumber⟩ := kin.callers t ht _ hk
      exact (kin.own hn v hv hnumber).elim
  · rintro ⟨u, hu, hk⟩
    exact ⟨u.number, hk, (kin.cancelled u.number).mpr (.inl ⟨u, hu, rfl⟩)⟩

theorem isCancelled_hub_iff (kin : Kinship tr d) {n : Nat} {hub : BrokerHub}
    (hn : d.brokerHub? n = some hub) :
    d.tokens.isCancelled hub.token = true ↔ tr.CalledOff n := by
  obtain ⟨token, htoken, hbuilt, hancestors⟩ := kin.parent hn
  have hparent : d.tokens.isCancelled token = true ↔
      ∃ token, tr.builtOn n = some token ∧ ∃ u ∈ tr.cancelled, token.DescendsFrom u := by
    rw [kin.isCancelled_iff htoken, hbuilt]
    simp
  rw [Trace.CalledOff, ← hparent, Tokens.isCancelled_iff, Tokens.isCancelled_iff, Token.lineage,
    hancestors]
  simp only [List.mem_cons, or_and_right, exists_or, exists_eq_left]
  rw [or_comm]
  refine or_congr_right ⟨?_, ?_⟩
  · intro hcancelled
    rcases (kin.cancelled _).mp hcancelled with ⟨u, hu, hnumber⟩ | ⟨n', hub', hn', hnumber, hended⟩
    · exact (kin.own hn u (kin.held u hu) hnumber).elim
    · exact kin.apart hn' hn hnumber ▸ hended
  · exact fun hended => (kin.cancelled _).mpr (.inr ⟨n, hub, hn, rfl, hended⟩)

end Kinship

/-! Loops that run are fed. -/

/-- The channel of the hub is open and registered on its topic. -/
def Fed (c : Core) (hub : BrokerHub) : Prop :=
  hub.subscription ∈ c.broker.subscriptions hub.topic ∧
    c.broker.isOpen hub.subscription = true

theorem Fed.receive_ne_closed {c : Core} {hub : BrokerHub} (fed : Fed c hub) :
    (c.broker.receive hub.topic hub.subscription).2 ≠ .closed :=
  Broker.receive_ne_closed fed.1 fed.2

namespace Phase

/-- The loop has not closed its channel. -/
def holds : Phase → Bool
  | closed | stopped => false
  | running | dispatching _ | draining => true

theorem holds_of_running {phase : Phase} (h : phase.state = .running) : phase.holds = true := by
  cases phase with
  | running | dispatching | draining => rfl
  | closed | stopped => cases h

end Phase

section
variable {h : History} {c : Core} {e : Event} {n : Nat} {hub : BrokerHub}

/-- If nobody else goes to the channel of a loop it is the loop. -/
theorem turn_of_target (reached : Reached h c)
    (hands : ∀ {move}, e = .broker move → move.target? ≠ some hub.subscription)
    (possible : e.Possible c) (hn : c.brokerHub? n = some hub)
    (htarget : e.move.target? = some hub.subscription) : ∃ t, e = .turn n hub t := by
  rcases Event.target?_move htarget with ⟨move, rfl⟩ | ⟨k, hub', t, rfl, hsame⟩
  · exact (hands rfl htarget).elim
  · obtain rfl := reached.housed.distinct n k hub hub' hn possible.1 hsame
    obtain ⟨rfl, -⟩ := Event.of_turn possible hn
    exact ⟨t, rfl⟩

/-- A loop that has not closed its channel is fed until it does, if nobody else goes there. -/
theorem fed_apply (reached : Reached h c)
    (hands : ∀ {move}, e = .broker move → move.target? ≠ some hub.subscription)
    (possible : e.Possible c) (hn : c.brokerHub? n = some hub) (fed : Fed c hub)
    (hholds : ∀ t, e = .turn n hub t → t.phase.holds = true) :
    Fed (c.apply e) (e.onHub n hub) := by
  have hmove : e.move.target? = some hub.subscription →
      e.move = .receive hub.topic hub.subscription := by
    intro htarget
    obtain ⟨t, rfl⟩ := turn_of_target reached hands possible hn htarget
    have hphase := hholds t rfl
    cases t with
    | channelClosed | undecodable | dispatch => rfl
    | cancelled => cases htarget
    | close | leave => cases hphase
  have hstays : ¬ c.broker.Expels hub.topic hub.subscription e.move := by
    intro hexpels
    generalize e.move = move at hmove hexpels
    cases move with
    | leave topic id =>
        obtain ⟨rfl, rfl⟩ := hexpels
        cases hmove rfl
    | publish m =>
        have hclosed := hexpels.2
        rw [fed.2] at hclosed
        cases hclosed
    | stay | subscribe | receive | close => exact hexpels
  have hopen : e.move ≠ .close hub.subscription := by
    intro hclose
    rw [hclose] at hmove
    cases hmove rfl
  rw [Fed, Event.topic_onHub, Event.subscription_onHub]
  exact ⟨Broker.mem_subscriptions_of_not_expels fed.1 hstays,
    (Broker.isOpen_apply reached.account.tidy (reached.subscription_lt hn) hopen).trans fed.2⟩

theorem fed_of_build {capacity : Nat} (possible : (Event.build capacity hub).Possible c) :
    Fed (c.apply (.build capacity hub)) hub := by
  have hnew : hub.subscription = c.broker.channels.length := possible.2.2.1
  rw [Fed, hnew]
  exact c.broker.registered_subscribe hub.topic capacity

end

namespace Deployment

/-- Callers go to no channel of a hub. -/
theorem target?_of_permitted {a : Action} (permitted : Permitted tr d a) {move : Broker.Move}
    (hevent : d.event a = .broker move) {id : Nat} (htarget : move.target? = some id) {n : Nat}
    {hub : BrokerHub} (hn : d.brokerHub? n = some hub) : hub.subscription ≠ id := by
  cases byHand_of_event hevent with
  | receive _ _ | close _ | leave _ _ =>
      cases htarget
      exact permitted n hub hn
  | listen _ _ | publish _ => cases htarget

end Deployment

/-- What loops can rely on. -/
structure Reliable (d : Deployment) : Prop where
  fed : ∀ {n hub}, d.brokerHub? n = some hub → hub.phase.state = .running → Fed d.core hub
  /-- Nothing but its token stops a loop. -/
  heeds : ∀ {n hub}, d.brokerHub? n = some hub → hub.phase.state ≠ .running →
    d.tokens.isCancelled hub.token = true

namespace Reliable

open Deployment

variable {a : Action} {n : Nat} {hub : BrokerHub}

/-- A loop that does not run any more has found its token cancelled, now or before. -/
theorem heeds_of_perform (reliable : Reliable d) {h : History} (reached : Reached h d.core)
    (performed : d.perform a = some d') (hn : d.brokerHub? n = some hub)
    (hruns : ((d.event a).onHub n hub).phase.state ≠ .running) :
    d.tokens.isCancelled hub.token = true := by
  have change := stateChange_onHub reached.busy (happens_perform performed).possible
    ((brokerHub?_core d n).trans hn)
  generalize hstate : hub.phase.state = state at change
  generalize ((d.event a).onHub n hub).phase.state = state' at change hruns
  cases change with
  | none => exact reliable.heeds hn (hstate ▸ hruns)
  | cancelled _ heeds => exact heeds
  | channelClosed _ heeds => exact ((reliable.fed hn hstate).receive_ne_closed heeds).elim
  | left _ _ => exact reliable.heeds hn (by rw [hstate]; nofun)

theorem step (reliable : Reliable d) {h : History} (reached : Reached h d.core)
    (permitted : Permitted tr d a) (performed : d.perform a = some d') : Reliable d' := by
  have happens := happens_perform performed
  constructor
  · intro n hub hn hruns
    rw [← brokerHub?_core, happens.core_eq] at hn
    rw [happens.core_eq]
    rcases Core.of_brokerHub?_apply happens.possible hn with
      ⟨-, capacity, hbuild⟩ | ⟨old, hold, rfl⟩
    · have possible := happens.possible
      rw [hbuild] at possible ⊢
      exact fed_of_build possible
    · rw [brokerHub?_core] at hold
      have hbefore : old.phase.state = .running := by
        have change := stateChange_onHub reached.busy happens.possible
          ((brokerHub?_core d n).trans hold)
        rw [hruns] at change
        generalize old.phase.state = state at change
        cases change with
        | none => rfl
      refine fed_apply reached (fun hevent htarget =>
        target?_of_permitted permitted hevent htarget hold rfl) happens.possible
        ((brokerHub?_core d n).trans hold) (reliable.fed hold hbefore) fun t ht => ?_
      rw [ht, Event.onHub, if_pos rfl] at hruns
      exact Phase.holds_of_running hruns
  · intro n hub hn hruns
    rw [← brokerHub?_core, happens.core_eq] at hn
    have hcancelled : d.core.tokens.isCancelled hub.token = true := by
      rcases Core.of_brokerHub?_apply happens.possible hn with
        ⟨-, capacity, hbuild⟩ | ⟨old, hold, rfl⟩
      · have possible := happens.possible
        rw [hbuild] at possible
        rw [possible.2.1] at hruns
        exact (hruns rfl).elim
      · rw [brokerHub?_core] at hold
        rw [Event.token_onHub]
        exact reliable.heeds_of_perform reached performed hold hruns
    have hafter := Core.isCancelled_apply hcancelled (d.event a)
    rw [← happens.core_eq] at hafter
    exact hafter

end Reliable

theorem Conduct.reliable (conduct : Conduct tr d) : Reliable d := by
  induction conduct with
  | start => exact ⟨nofun, nofun⟩
  | step before permitted performed ih => exact ih.step before.reached permitted performed

/-- No loop has ever found its channel closed. -/
theorem Conduct.turn_ne_channelClosed (conduct : Conduct tr d) {s : Deployment × Action}
    (hs : s ∈ tr) (n : Nat) (hub : BrokerHub) : s.1.event s.2 ≠ .turn n hub .channelClosed := by
  induction conduct with
  | start => cases hs
  | @step tr d d' a before permitted performed ih =>
      rcases List.mem_append.mp hs with hs | hs
      · exact ih hs
      · obtain rfl := List.mem_singleton.mp hs
        intro hevent
        have possible := (Deployment.happens_perform performed).possible
        rw [hevent] at possible
        obtain ⟨hn, hruns, -, hclosed⟩ := possible
        rw [Deployment.brokerHub?_core] at hn
        exact (before.reliable.fed hn (by rw [hruns]; rfl)).receive_ne_closed hclosed

theorem Permitted.mono {tr : Trace} {d : Deployment} {a : Action} (permitted : Permitted tr d a)
    (more : Trace) : Permitted (tr ++ more) d a := by
  cases a with
  | cancel t | childToken t => exact Trace.mem_given_append permitted more
  | build c => exact fun t ht => Trace.mem_given_append (permitted t ht) more
  | _ => exact permitted

/-- Goes on with what is permitted to the caller in any case. -/
theorem Conduct.extend (conduct : Conduct tr d) {as : List Action} (run : Deployment.Run d as d')
    (permitted : ∀ a ∈ as, ∀ d, Permitted tr d a) : Conduct (tr ++ d.trace as) d' := by
  induction run generalizing tr with
  | nil d => exact (List.append_nil tr).symm ▸ conduct
  | @cons d d₁ d' a as step rest ih =>
      obtain ⟨ha, has⟩ := List.forall_mem_cons.mp permitted
      rw [Deployment.trace_cons step, List.append_cons]
      exact ih (conduct.step (ha d) step) fun a ha d => (has a ha d).mono _

/-- Steps that handlers and loops take of themselves are in nobody's way. -/
theorem permitted_of_settles {a : Action} (ha : a.settles = true) (tr : Trace) (d : Deployment) :
    Permitted tr d a := by
  cases a with
  | start _ _ | finish _ _ _ | conclude _ | turn _ => trivial
  | _ => cases ha

/-- Which hubs stop, and when. -/
structure StopsRightly (tr : Trace) (d : Deployment) : Prop where
  built : ∀ {n hub}, d.brokerHub? n = some hub → ∃ token ∈ tr.given, tr.builtOn n = some token
  /-- When nothing is left to do, just those that have been called off have stopped. -/
  stopped : d.Settled → ∀ {n hub}, d.brokerHub? n = some hub →
    (hub.phase = .stopped ↔ tr.CalledOff n)
  /-- At no time does another loop even begin to stop. -/
  others : ∀ {n hub}, d.brokerHub? n = some hub → ¬ tr.CalledOff n → hub.phase.state = .running
  /-- No hub that ends takes a caller's token with it. -/
  callers : ∀ {t}, t ∈ tr.given →
    (d.tokens.isCancelled t = true ↔ ∃ u ∈ tr.cancelled, t.DescendsFrom u)
  neverClosed : ∀ {s}, s ∈ tr → ∀ n hub, s.1.event s.2 ≠ .turn n hub .channelClosed
  /-- There is an end to what is left to do, whatever is done first. -/
  ends : ∃ most, ∀ {as d'}, Deployment.Run d as d' → (∀ a ∈ as, a.settles = true) →
    as.length ≤ most
  rests : ∃ more d', Conduct (tr ++ more) d' ∧ (∀ s ∈ more, s.2.settles = true) ∧ d'.Settled

/-- Whatever callers do with their tokens and with hubs, exactly the right hubs stop. -/
theorem right_hubs_stop (conduct : Conduct tr d) : StopsRightly tr d where
  built hn := by
    obtain ⟨token, htoken, hbuilt, -⟩ := conduct.kinship.parent hn
    exact ⟨token, htoken, hbuilt⟩
  stopped settled n hub hn := by
    rw [← conduct.kinship.isCancelled_hub_iff hn]
    rcases Deployment.loop_of_settled conduct.reached settled hn with ⟨hruns, hnot, -⟩ | hstopped
    · rw [hruns, hnot]
      exact ⟨nofun, nofun⟩
    · refine ⟨fun _ => conduct.reliable.heeds hn ?_, fun _ => hstopped⟩
      rw [hstopped]
      nofun
  others {n hub} hn hnot := by
    by_contra hstate
    exact hnot ((conduct.kinship.isCancelled_hub_iff hn).mp (conduct.reliable.heeds hn hstate))
  callers := conduct.kinship.isCancelled_iff
  neverClosed hs := conduct.turn_ne_channelClosed hs
  ends := ⟨d.core.left, fun run hsettles => run.length_le_left conduct.reached hsettles⟩
  rests := by
    obtain ⟨as, d', run, hsettles, settled⟩ := Deployment.exists_rest
      (P := fun _ => True) (A := fun a => a.settles = true) (fun _ ha => ha)
      (fun _ _ _ => trivial) (fun _ hnot => Deployment.exists_step_of_not_settled hnot)
      conduct.reached trivial
    exact ⟨d.trace as, d',
      conduct.extend run fun a ha d => permitted_of_settles (hsettles a ha) tr d,
      fun s hs => hsettles s.2 (Deployment.mem_of_mem_trace hs), settled⟩

/-! Two hubs on one token, of which the first is dropped. -/

/-- No dispatch has begun, and no loop has anything to do. -/
theorem Deployment.settled_of_turns (hdispatches : d.dispatches = #[])
    (hturns : ∀ n, d.turn n = none) : d.Settled := by
  intro a ha
  cases a with
  | start n i | finish n i _ =>
      simp [perform, startInvocation, finishInvocation, hdispatches]
  | conclude n => simp [perform, conclude, hdispatches]
  | turn n => exact hturns n
  | _ => cases ha

def Deployment.parting : List Action :=
  let c : HubConfig := ⟨some .direct, some ⟨0, []⟩, "rolls", 1⟩
  [.build c, .build c, .dropHub 0, .turn 0, .turn 0, .turn 0]

theorem right_hubs_stop_parting : ∃ tr d hub₀ hub₁, Conduct tr d ∧ d.Settled ∧
    d.brokerHub? 0 = some hub₀ ∧ d.brokerHub? 1 = some hub₁ ∧
    hub₀.phase = .stopped ∧ tr.CalledOff 0 ∧ hub₁.phase = .running ∧ ¬ tr.CalledOff 1 := by
  have token := Conduct.start.step (a := .newToken) trivial rfl
  obtain ⟨d, hub₀, hub₁, hd, h₀, h₁, hphase₀, hphase₁, hdispatches, hturns⟩ :
      ∃ d hub₀ hub₁, Deployment.parting.foldlM Deployment.perform Deployment.empty.newToken.1 =
        some d ∧ d.brokerHub? 0 = some hub₀ ∧ d.brokerHub? 1 = some hub₁ ∧
        hub₀.phase = .stopped ∧ hub₁.phase = .running ∧ d.dispatches = #[] ∧
        ∀ n, d.turn n = none := by
    refine ⟨_, _, _, rfl, rfl, rfl, rfl, rfl, rfl, fun n => ?_⟩
    match n with
    | 0 => rfl
    | 1 => rfl
    | _ + 2 => rfl
  have conduct := token.extend (Deployment.run_iff.mpr hd) (by
    intro a ha d
    simp only [Deployment.parting, List.mem_cons, List.not_mem_nil, or_false] at ha
    rcases ha with rfl | rfl | rfl | rfl | rfl | rfl
    · exact fun t ht => by cases ht; exact List.mem_singleton.mpr rfl
    · exact fun t ht => by cases ht; exact List.mem_singleton.mpr rfl
    all_goals trivial)
  have settled := Deployment.settled_of_turns hdispatches hturns
  have rightly := right_hubs_stop conduct
  refine ⟨_, d, hub₀, hub₁, conduct, settled, h₀, h₁, hphase₀,
    (rightly.stopped settled h₀).mp hphase₀, hphase₁, fun hoff => ?_⟩
  have hstopped := (rightly.stopped settled h₁).mpr hoff
  rw [hphase₁] at hstopped
  cases hstopped

end DiceRooms
