import DiceRooms.Proofs.Deployment.Errors
import DiceRooms.Proofs.Deployment.Reception
import Mathlib.Data.List.Forall2

/-!
Messages that cannot be read leave no trace but their records. A loop takes such a message and
goes on as if it had never come. Two runs with the same inputs to a loop, apart from unreadable
messages and the turns that refuse them, are the same to it, and each refused message has one
record among the errors.
-/
namespace DiceRooms

def Message.isReadable (m : Message) : Bool := (Wire.decode m.payload).isOk

theorem Message.isReadable_of_ok {m : Message} {r : Roll} (h : Wire.decode m.payload = .ok r) :
    m.isReadable = true := by
  rw [isReadable, h]
  rfl

theorem Message.isReadable_of_error {m : Message} {e : Wire.DecodeError}
    (h : Wire.decode m.payload = .error e) : m.isReadable = false := by
  rw [isReadable, h]
  rfl

/-- The record of the message. -/
def Message.Refused (m : Message) (notice : Notice) : Prop :=
  ∃ e, Wire.decode m.payload = .error e ∧ notice = .undecodable m.topic e

/-- The notice of a message that cannot be read. -/
def Notice.ofMessage : Notice → Bool
  | undecodable .. => true
  | _ => false

/-- The records of unreadable messages, the oldest first. -/
def Deployment.refusals (d : Deployment) : List Notice := d.errors.filter Notice.ofMessage

/-- The message that a loop refuses, with the number of its hub. -/
def Event.refusal? : Event → Option (Nat × Message)
  | turn k _ (.undecodable m) => some (k, m)
  | _ => none

/-- What all loops have refused, in order. -/
def Trace.refusals (tr : Trace) : List (Nat × Message) :=
  tr.filterMap fun s => (s.1.event s.2).refusal?

/-- What the loop of one hub has refused, in order. -/
def Trace.refusedBy (tr : Trace) (n : Nat) : List Message :=
  tr.refusals.filterMap fun (k, m) => if k = n then some m else none

def Input.unreadable? : Input → Option Message
  | arrive m => if m.isReadable then none else some m
  | _ => none

namespace Reception

/-- The message that is refused in a turn of the loop. -/
def refuses? (s : Reception) : Option Message :=
  match s.doing with
  | .waiting => if s.cancelled then none else s.queue.head?.filter (!·.isReadable)
  | _ => none

def refused? (s : Reception) : Input → Option Message
  | .turn => s.refuses?
  | _ => none

/-- No unreadable message arrives, and none is refused. -/
def isSound (s : Reception) (i : Input) : Bool :=
  i.unreadable?.isNone && (s.refused? i).isNone

def unreadable (s : Reception) : List Message := s.queue.filter (!·.isReadable)

/-- As if no unreadable message had come. -/
def purge (s : Reception) : Reception := { s with queue := s.queue.filter Message.isReadable }

/-- The inputs in order, each with what the loop goes by then. -/
def replay : Reception → List Input → List (Reception × Input)
  | _, [] => []
  | s, i :: is => (s, i) :: replay (s.after i) is

end Reception

namespace Trace

/-- The sound inputs to the loop of the hub, each with what it went by but for unreadable
messages. -/
def sound (tr : Trace) (n : Nat) : List (Reception × Input) :=
  (tr.met n).filterMap fun (s, i) => if s.isSound i then some (s.purge, i) else none

def inputs (tr : Trace) (n : Nat) : List Input := (tr.sound n).map Prod.snd

/-- The unreadable messages that have come into the channel of the hub. -/
def unreadable (tr : Trace) (n : Nat) : List Message :=
  (tr.met n).filterMap fun s => s.2.unreadable?

end Trace

/-! One input. -/

namespace Reception

/-- A turn either refuses the first message in the channel and does nothing else, or does what it
would do if no unreadable message had come. -/
theorem turn_cases (s : Reception) :
    (s.refuses? = none ∧ s.turn.purge = s.purge.turn ∧ s.turn.unreadable = s.unreadable) ∨
      ∃ m, s.refuses? = some m ∧ m.isReadable = false ∧ s.turn.purge = s.purge ∧
        s.queue = m :: s.turn.queue := by
  obtain ⟨registry, doing, queue, live, cancelled⟩ := s
  cases doing with
  | waiting =>
      cases cancelled with
      | true => exact .inl ⟨rfl, rfl, rfl⟩
      | false =>
          cases queue with
          | nil => exact .inl ⟨rfl, rfl, rfl⟩
          | cons m rest =>
              cases hdecode : Wire.decode m.payload with
              | error e =>
                  have hread := Message.isReadable_of_error hdecode
                  refine .inr ⟨m, ?_, hread, ?_, ?_⟩
                  · simp [refuses?, hread]
                  · simp [turn, purge, hdecode, hread]
                  · simp [turn, hdecode]
              | ok r =>
                  have hread := Message.isReadable_of_ok hdecode
                  refine .inl ⟨?_, ?_, ?_⟩
                  · simp [refuses?, hread]
                  · simp [turn, purge, hdecode, hread]
                  · simp [turn, unreadable, hdecode, hread]
  | telling _ _ | draining | closed | stopped => exact .inl ⟨rfl, rfl, rfl⟩

theorem purge_after (s : Reception) (i : Input) :
    (s.after i).purge = if s.isSound i then s.purge.after i else s.purge := by
  cases i with
  | turn =>
      rcases s.turn_cases with ⟨hnone, hpurge, -⟩ | ⟨m, hsome, -, hpurge, -⟩
      · rw [isSound, refused?, hnone]
        exact hpurge
      · rw [isSound, refused?, hsome]
        exact hpurge
  | arrive m =>
      rw [isSound, Input.unreadable?]
      cases hread : m.isReadable <;>
        simp [after, purge, refused?, hread, List.filter_append]
  | _ => rfl

/-- What could not be read before or has come since has been refused or is still there. -/
theorem unreadable_after (s : Reception) (i : Input) :
    s.unreadable ++ i.unreadable?.toList = (s.refused? i).toList ++ (s.after i).unreadable := by
  cases i with
  | turn =>
      rcases s.turn_cases with ⟨hnone, -, hsame⟩ | ⟨m, hsome, hread, -, hqueue⟩
      · rw [refused?, hnone]
        exact (List.append_nil _).trans hsame.symm
      · rw [refused?, hsome, unreadable, hqueue, List.filter_cons_of_pos (by simp [hread])]
        exact List.append_nil _
  | arrive m =>
      cases hread : m.isReadable <;>
        simp [Input.unreadable?, refused?, after, unreadable, hread, List.filter_append]
  | _ => exact List.append_nil _

theorem hearing?_purge (s : Reception) (i : Input) : s.purge.hearing? i = s.hearing? i := by
  cases i <;> rfl

/-- Nobody hears anything while an unreadable message arrives or is refused. -/
theorem hearing?_of_not_sound {s : Reception} {i : Input} (h : s.isSound i = false) :
    s.hearing? i = none := by
  cases i with
  | proceed i next => cases h
  | _ => rfl

/-- A loop that can go on could also if unreadable messages had come besides. -/
theorem canTurn_of_purge {s t : Reception} (hpurge : t.purge = s.purge)
    (hsound : s.refuses? = none) (h : s.canTurn = true) : t.canTurn = true := by
  obtain ⟨registry, doing, queue, live, cancelled⟩ := s
  obtain ⟨registry', doing', queue', live', cancelled'⟩ := t
  simp only [purge, Reception.mk.injEq] at hpurge
  obtain ⟨rfl, rfl, hqueue, rfl, rfl⟩ := hpurge
  cases doing' with
  | waiting =>
      cases cancelled' with
      | true => rfl
      | false =>
          cases queue with
          | nil =>
              cases live' with
              | true => cases h
              | false => simp [canTurn]
          | cons m rest =>
              have hread : m.isReadable = true := by simpa [refuses?] using hsound
              cases queue' with
              | nil => simp [hread] at hqueue
              | cons m' rest' => rfl
  | telling _ _ | stopped => cases h
  | draining | closed => rfl

end Reception

/-! What is refused and what is recorded. -/

section
variable {c : Core} {e : Event} {n : Nat} {hub : BrokerHub}

theorem View.next?_eq_head? (v : View) : v.next? = v.reception.queue.head? := by
  obtain ⟨topic, registry, doing, joinable, channel, registered, cancelled⟩ := v
  cases channel <;> rfl

theorem Event.of_input?_turn (h : e.input? c n hub = some .turn) :
    ∃ other t, e = .turn n other t := by
  cases e with
  | turn k other t =>
      simp only [input?] at h
      split at h
      · next heq => exact ⟨other, t, heq ▸ rfl⟩
      · cases h
  | _ =>
      simp only [input?, Core.cancelInput?, Broker.Move.input?, reduceCtorEq] at h
      repeat' split at h
      all_goals cases h

theorem Reception.refuses?_of_waiting {s : Reception} (hdoing : s.doing = .waiting)
    (hcancelled : s.cancelled = false) : s.refuses? = s.queue.head?.filter (!·.isReadable) := by
  simp [refuses?, hdoing, hcancelled]

/-- A turn refuses what the loop would have to read next. -/
theorem refuses?_of_turn {t : Turn} (possible : t.Possible c hub) :
    (c.reception hub).refuses? = (Event.turn n hub t).refusal?.map Prod.snd := by
  have hreceives {received : Broker.Received} (receives : Turn.Receives c hub received) :
      (c.reception hub).refuses? = received.message?.filter (!·.isReadable) := by
    obtain ⟨hdoing, hcancelled, hnext⟩ := next?_viewOf receives
    rw [View.next?_eq_head?] at hnext
    rw [Reception.refuses?_of_waiting hdoing hcancelled]
    exact congrArg (Option.filter _) hnext
  have hdoing : (c.reception hub).doing = .ofPhase c.dispatches hub.phase := rfl
  cases t with
  | cancelled =>
      obtain ⟨hphase, hcancelled⟩ := possible
      have hend : (c.reception hub).cancelled = true := hcancelled
      rw [hphase] at hdoing
      simp [Reception.refuses?, hdoing, Doing.ofPhase, hend, Event.refusal?]
  | channelClosed =>
      rw [hreceives possible]
      rfl
  | undecodable m =>
      obtain ⟨receives, e, hdecode⟩ := possible
      rw [hreceives receives]
      simp [Broker.Received.message?, Message.isReadable_of_error hdecode, Event.refusal?]
  | dispatch m r number =>
      obtain ⟨receives, hdecode, -⟩ := possible
      rw [hreceives receives]
      simp [Broker.Received.message?, Message.isReadable_of_ok hdecode, Event.refusal?]
  | close | leave _ =>
      rw [show hub.phase = _ from possible] at hdoing
      simp [Reception.refuses?, hdoing, Doing.ofPhase, Event.refusal?]

theorem refused?_of_possible (possible : e.Possible c) (hn : c.brokerHub? n = some hub) :
    (e.input? c n hub).bind (c.reception hub).refused? =
      e.refusal?.bind fun (k, m) => if k = n then some m else none := by
  cases e with
  | turn k other t =>
      rw [Event.input?]
      split
      · next heq =>
          subst heq
          obtain ⟨rfl, hturn⟩ := Event.of_turn possible hn
          refine (refuses?_of_turn (n := k) hturn).trans ?_
          cases t <;> simp [Event.refusal?]
      · next hne => cases t <;> simp [Event.refusal?, hne]
  | _ =>
      refine Option.bind_eq_none_iff.mpr fun i hi => ?_
      cases i with
      | turn => obtain ⟨other, t, hturn⟩ := Event.of_input?_turn hi; cases hturn
      | _ => rfl

/-- A refusal is recorded, and no other event records any. -/
theorem errors_of_refusal (possible : e.Possible c) :
    List.Forall₂ (fun s notice => s.2.Refused notice) e.refusal?.toList
      (e.errors.filter Notice.ofMessage) := by
  cases e with
  | conclude k p =>
      have hnone : (Deployment.failureNotices p).filter Notice.ofMessage = [] := by
        refine List.filter_eq_nil_iff.mpr fun notice hnotice => ?_
        obtain ⟨_, -, rfl⟩ := List.mem_map.mp hnotice
        exact Bool.false_ne_true
      show List.Forall₂ _ [] ((Deployment.failureNotices p).filter Notice.ofMessage)
      rw [hnone]
      exact .nil
  | turn k other t =>
      cases t with
      | undecodable m =>
          obtain ⟨-, -, e, hdecode⟩ := possible
          rw [Event.errors, hdecode]
          exact .cons ⟨e, hdecode, rfl⟩ .nil
      | _ => exact .nil
  | _ => exact .nil

end

/-! Runs. -/

namespace Trace

variable {tr : Trace} {n : Nat} {x : Deployment × Action} {s : Reception} {i : Input}

theorem refusedBy_cons (tr : Trace) (n : Nat) (x : Deployment × Action) :
    refusedBy (x :: tr) n = (((x.1.event x.2).refusal?).bind fun (k, m) =>
      if k = n then some m else none).toList ++ tr.refusedBy n := by
  rw [refusedBy, refusals, List.filterMap_cons]
  cases (x.1.event x.2).refusal? with
  | none => rfl
  | some s =>
      rw [List.filterMap_cons, Option.bind_some]
      split <;> simp_all [refusedBy, refusals]

theorem met_cons_of_none (h : inputAt n x = none) : met (x :: tr) n = tr.met n :=
  List.filterMap_cons_none h

theorem met_cons_of_some (h : inputAt n x = some (s, i)) : met (x :: tr) n = (s, i) :: tr.met n :=
  List.filterMap_cons_some h

theorem sound_cons_of_some (h : inputAt n x = some (s, i)) : sound (x :: tr) n =
    if s.isSound i then (s.purge, i) :: tr.sound n else tr.sound n := by
  rw [sound, met_cons_of_some h, List.filterMap_cons]
  cases hsound : s.isSound i <;> simp [sound, hsound]

theorem inputs_cons_of_some (h : inputAt n x = some (s, i)) : inputs (x :: tr) n =
    if s.isSound i then i :: tr.inputs n else tr.inputs n := by
  rw [inputs, sound_cons_of_some h]
  split <;> rfl

theorem unreadable_cons_of_some (h : inputAt n x = some (s, i)) :
    unreadable (x :: tr) n = i.unreadable?.toList ++ tr.unreadable n := by
  rw [unreadable, met_cons_of_some h, List.filterMap_cons]
  cases i.unreadable? <;> simp [unreadable]

end Trace

/-- From what its loop went by before a run to what it goes by after it: the sound inputs alone
matter, and unreadable messages have been refused in the order of their arrival. -/
structure Replays (d : Deployment) (as : List Action) (d' : Deployment) (n : Nat)
    (s s' : Reception) : Prop where
  ends : d'.reception? n = some s'
  sound : (d.trace as).sound n = s.purge.replay ((d.trace as).inputs n)
  purge : s'.purge = ((d.trace as).inputs n).foldl Reception.after s.purge
  unreadable : s.unreadable ++ (d.trace as).unreadable n =
    (d.trace as).refusedBy n ++ s'.unreadable

namespace Deployment

variable {d d' : Deployment} {n : Nat}

theorem reception?_eq_some_iff {s : Reception} : d.reception? n = some s ↔
    ∃ hub, d.brokerHub? n = some hub ∧ d.core.reception hub = s :=
  Option.map_eq_some_iff

end Deployment

namespace Replays

variable {d d₁ d' : Deployment} {a : Action} {as : List Action} {n : Nat} {s s' : Reception}

theorem skip (step : d.perform a = some d₁) (hat : Trace.inputAt n (d, a) = none)
    (hquiet : Trace.refusedBy ((d, a) :: d₁.trace as) n = (d₁.trace as).refusedBy n)
    (rest : Replays d₁ as d' n s s') : Replays d (a :: as) d' n s s' := by
  obtain ⟨ends, sound, purge, unreadable⟩ := rest
  have htrace := Deployment.trace_cons step as
  have hmet : Trace.met ((d, a) :: d₁.trace as) n = (d₁.trace as).met n :=
    Trace.met_cons_of_none hat
  constructor
  · exact ends
  · rw [htrace, Trace.inputs, Trace.sound, hmet]
    exact sound
  · rw [htrace, Trace.inputs, Trace.sound, hmet]
    exact purge
  · rw [htrace, Trace.unreadable, hmet, hquiet]
    exact unreadable

/-- One input more at the beginning. -/
theorem take {i : Input} (step : d.perform a = some d₁)
    (hat : Trace.inputAt n (d, a) = some (s, i))
    (hrefused : Trace.refusedBy ((d, a) :: d₁.trace as) n =
      (s.refused? i).toList ++ (d₁.trace as).refusedBy n)
    (rest : Replays d₁ as d' n (s.after i) s') : Replays d (a :: as) d' n s s' := by
  obtain ⟨ends, sound, purge, unreadable⟩ := rest
  have htrace := Deployment.trace_cons step as
  have hsound : Trace.sound ((d, a) :: d₁.trace as) n = _ := Trace.sound_cons_of_some hat
  have hpurge := s.purge_after i
  refine ⟨ends, ?_, ?_, ?_⟩
  · rw [htrace, Trace.inputs, hsound]
    split at hpurge
    · next h =>
        rw [if_pos h, List.map_cons, Reception.replay, ← hpurge]
        exact congrArg _ sound
    · next h =>
        rw [if_neg h, ← hpurge]
        exact sound
  · rw [htrace, Trace.inputs, hsound]
    split at hpurge
    · next h =>
        rw [if_pos h, List.map_cons, List.foldl_cons, ← hpurge]
        exact purge
    · next h =>
        rw [if_neg h, ← hpurge]
        exact purge
  · rw [htrace, Trace.unreadable_cons_of_some hat, hrefused, ← List.append_assoc,
      s.unreadable_after i, List.append_assoc, unreadable, List.append_assoc]

end Replays

namespace Deployment

variable {d d' : Deployment} {n : Nat}

theorem replays {as bs : List Action} {s : Reception} (before : Run .empty bs d)
    (run : Run d as d') (hs : d.reception? n = some s) (served : (d.trace as).Served n) :
    ∃ s', Replays d as d' n s s' := by
  induction run generalizing bs s with
  | nil d => exact ⟨s, hs, rfl, rfl, List.append_nil _⟩
  | @cons d d₁ d' a as step rest ih =>
      obtain ⟨hub, hn, rfl⟩ := reception?_eq_some_iff.mp hs
      rw [trace_cons step] at served
      have meets := served (d, a) List.mem_cons_self hub hn
      have hnext := reception?_perform before hn step meets
      have hrefused := Trace.refusedBy_cons (d₁.trace as) n (d, a)
      rw [← refused?_of_possible (happens_perform step).possible
        ((brokerHub?_core d n).trans hn)] at hrefused
      obtain ⟨s', rest⟩ := ih (before.append (.single step)) hnext
        fun x hx => served x (List.mem_cons_of_mem _ hx)
      refine ⟨s', ?_⟩
      cases hinput : (d.event a).input? d.core n hub with
      | none =>
          rw [hinput] at rest hrefused
          exact rest.skip step (by simp [Trace.inputAt, hn, hinput]) hrefused
      | some i =>
          rw [hinput] at rest hrefused
          exact rest.take step (by simp [Trace.inputAt, hn, hinput]) hrefused

/-- Every message that a loop has refused has one record, and these are all the records of
unreadable messages that a run adds. -/
theorem refusals_recorded {as : List Action} (run : Run d as d') :
    ∃ added, d'.refusals = d.refusals ++ added ∧
      List.Forall₂ (fun s notice => s.2.Refused notice) (d.trace as).refusals added := by
  induction run with
  | nil d => exact ⟨[], (List.append_nil _).symm, .nil⟩
  | @cons d d₁ d' a as step rest ih =>
      obtain ⟨added, hadded, hrest⟩ := ih
      refine ⟨(d.event a).errors.filter Notice.ofMessage ++ added, ?_, ?_⟩
      · rw [hadded, refusals, errors_perform step, List.filter_append, List.append_assoc]
        rfl
      · have hrefusals : Trace.refusals ((d, a) :: d₁.trace as) =
            (d.event a).refusal?.toList ++ (d₁.trace as).refusals := by
          rw [Trace.refusals, List.filterMap_cons]
          cases (d.event a).refusal? <;> simp [Trace.refusals]
        rw [trace_cons step, hrefusals]
        exact List.rel_append (errors_of_refusal (happens_perform step).possible) hrest

/-- Who hears of rolls is told by the sound inputs. -/
theorem hearings_eq {as : List Action} (run : Run d as d') :
    (d.trace as).hearings n = ((d.trace as).sound n).filterMap fun s => s.1.hearing? s.2 := by
  induction run with
  | nil d => rfl
  | @cons d d₁ d' a as step rest ih =>
      have hhearing := Trace.hearingAt_eq_inputAt step n
      rw [trace_cons step, Trace.hearings]
      cases hat : Trace.inputAt n (d, a) with
      | none =>
          rw [hat] at hhearing
          rw [List.filterMap_cons_none hhearing, Trace.sound, Trace.met_cons_of_none hat]
          exact ih
      | some met =>
          obtain ⟨s, i⟩ := met
          rw [hat, Option.bind_some] at hhearing
          rw [List.filterMap_cons, hhearing, Trace.sound_cons_of_some hat]
          cases hsound : s.isSound i with
          | true =>
              rw [if_pos rfl, List.filterMap_cons, Reception.hearing?_purge]
              cases s.hearing? i with
              | none => exact ih
              | some hearing => exact congrArg (hearing :: ·) ih
          | false =>
              rw [if_neg Bool.false_ne_true, Reception.hearing?_of_not_sound hsound]
              exact ih

/-! Unreadable messages do not hold a loop up. -/

theorem meets_turn (d : Deployment) (hub : BrokerHub) (n : Nat) :
    Meets d.core hub (d.event (.turn n)) := by
  have causes := d.causes_event (.turn n)
  generalize d.event (.turn n) = e at causes ⊢
  cases causes with
  | idle => exact ⟨nofun, nofun⟩
  | byHand byHand => cases byHand
  | @turn n h t arrives => exact ⟨nofun, fun m hm => (t.move_ne_publish h m hm).elim⟩

theorem event_of_turn {hub : BrokerHub} (hn : d.brokerHub? n = some hub)
    (step : d.perform (.turn n) = some d') : ∃ t, d.event (.turn n) = .turn n hub t := by
  change d.turn n = some d' at step
  rw [turn, hn] at step
  rw [event, turnEvent, hn]
  dsimp only at step ⊢
  cases hphase : hub.phase with
  | running | draining | closed => exact ⟨_, rfl⟩
  | dispatching _ | stopped =>
      rw [hphase] at step
      cases step

theorem exists_turn {as : List Action} {s : Reception} (before : Run .empty as d)
    (hs : d.reception? n = some s) (h : s.canTurn = true) :
    ∃ d', d.perform (.turn n) = some d' ∧ d'.reception? n = some s.turn ∧
      Trace.inputAt n (d, .turn n) = some (s, .turn) := by
  obtain ⟨hub, hn, rfl⟩ := reception?_eq_some_iff.mp hs
  obtain ⟨d', step⟩ : ∃ d', d.perform (.turn n) = some d' :=
    Option.isSome_iff_exists.mp ((turn_isSome_iff before.reached.busy hn).mpr h)
  have hinput : (d.event (.turn n)).input? d.core n hub = some .turn := by
    obtain ⟨t, ht⟩ := event_of_turn hn step
    rw [ht]
    exact if_pos rfl
  have hafter := reception?_perform before hn step (d.meets_turn hub n)
  rw [hinput] at hafter
  exact ⟨d', step, hafter, by simp [Trace.inputAt, hn, hinput]⟩

/-- A loop that could take a turn if no unreadable message had come refuses those in its way
first, and then takes that turn. -/
theorem exists_turns {d : Deployment} {as : List Action} {s t : Reception}
    (before : Run .empty as d)
    (hs : d.reception? n = some s) (hpurge : s.purge = t.purge) (hsound : t.refuses? = none)
    (h : t.canTurn = true) : ∃ k d', Run d (List.replicate (k + 1) (.turn n)) d' ∧
      (d.trace (List.replicate (k + 1) (.turn n))).inputs n = [.turn] := by
  obtain ⟨d₁, step, hafter, hat⟩ :=
    exists_turn before hs (Reception.canTurn_of_purge hpurge hsound h)
  rcases s.turn_cases with ⟨hnone, -, -⟩ | ⟨m, hsome, -, hsame, hqueue⟩
  · refine ⟨0, d₁, .single step, ?_⟩
    have htaken : s.isSound .turn = true := by
      rw [Reception.isSound, Reception.refused?, hnone]
      rfl
    rw [List.replicate_one, trace_cons step, Trace.inputs, Trace.sound_cons_of_some hat,
      if_pos htaken]
    rfl
  · obtain ⟨k, d', rest, hinputs⟩ := exists_turns (before.append (.single step)) hafter
      (hsame.trans hpurge) hsound h
    refine ⟨k + 1, d', .cons step rest, ?_⟩
    have hrefused : s.isSound .turn = false := by
      rw [Reception.isSound, Reception.refused?, hsome]
      rfl
    rw [List.replicate_succ, trace_cons step, Trace.inputs, Trace.sound_cons_of_some hat,
      if_neg (by rw [hrefused]; exact Bool.false_ne_true)]
    exact hinputs
termination_by s.queue.length
decreasing_by
  rw [hqueue]
  exact Nat.lt_succ_self _

end Deployment

/-- What is on record of a run, for one hub. -/
structure RefusalsRecorded (d : Deployment) (as : List Action) (d' : Deployment) (n : Nat) :
    Prop where
  /-- Every message that a loop has refused has one record, and nothing else has. -/
  records : ∃ added, d'.refusals = d.refusals ++ added ∧
    List.Forall₂ (fun s notice => s.2.Refused notice) (d.trace as).refusals added
  /-- The loop of the hub has refused, in order, the unreadable messages that it found in its
  channel or that have come since, but for those that are still there. -/
  refused : ∃ s s', d.reception? n = some s ∧ d'.reception? n = some s' ∧
    s.unreadable ++ (d.trace as).unreadable n = (d.trace as).refusedBy n ++ s'.unreadable

/-- For the hub the runs do not differ but in unreadable messages and their records. -/
structure NoTrace (d : Deployment) (as₁ : List Action) (d₁ : Deployment) (as₂ : List Action)
    (d₂ : Deployment) (n : Nat) : Prop where
  hearings : (d.trace as₁).hearings n = (d.trace as₂).hearings n
  /-- All along, too, the handlers, the loop and what it has yet to read have been the same. -/
  along : (d.trace as₁).sound n = (d.trace as₂).sound n
  registry : d₁.core.registryOf? n = d₂.core.registryOf? n
  loopState : d₁.core.loopState? n = d₂.core.loopState? n
  rest : (d₁.reception? n).map Reception.purge = (d₂.reception? n).map Reception.purge
  first : RefusalsRecorded d as₁ d₁ n
  second : RefusalsRecorded d as₂ d₂ n
  /-- What one loop can do next the other can do when it has refused what is in its way. -/
  resumes : ∀ {e s}, d₁.perform (.turn n) = some e → d₁.reception? n = some s →
    s.refuses? = none → ∃ k e', Deployment.Run d₂ (List.replicate (k + 1) (.turn n)) e' ∧
      (d₂.trace (List.replicate (k + 1) (.turn n))).inputs n = [.turn]

namespace Deployment

variable {d d₁ d₂ : Deployment} {n : Nat}

theorem registryOf?_of_reception? {s : Reception} (h : d.reception? n = some s) :
    d.core.registryOf? n = some s.registry := by
  obtain ⟨hub, hn, rfl⟩ := reception?_eq_some_iff.mp h
  exact registryOf?_of_brokerHub? ((brokerHub?_core d n).trans hn)

theorem loopState?_of_reception? {s : Reception} (h : d.reception? n = some s) :
    d.core.loopState? n = some s.doing.state := by
  obtain ⟨hub, hn, rfl⟩ := reception?_eq_some_iff.mp h
  rw [Core.loopState?, brokerHub?_core, hn]
  exact congrArg some (Doing.state_ofPhase d.core.dispatches hub.phase).symm

theorem canTurn_of_perform {as : List Action} {s : Reception} (before : Run .empty as d)
    (hs : d.reception? n = some s) {d' : Deployment} (step : d.perform (.turn n) = some d') :
    s.canTurn = true := by
  obtain ⟨hub, hn, rfl⟩ := reception?_eq_some_iff.mp hs
  exact (turn_isSome_iff before.reached.busy hn).mp (Option.isSome_iff_exists.mpr ⟨d', step⟩)

/-- A loop that takes unreadable messages does what it would do if they had never come. -/
theorem unreadable_leave_no_trace {bs as₁ as₂ : List Action} {hub : BrokerHub}
    (run : Run .empty bs d) (hn : d.brokerHub? n = some hub) (run₁ : Run d as₁ d₁)
    (run₂ : Run d as₂ d₂) (served₁ : (d.trace as₁).Served n) (served₂ : (d.trace as₂).Served n)
    (same : (d.trace as₁).inputs n = (d.trace as₂).inputs n) :
    NoTrace d as₁ d₁ as₂ d₂ n := by
  have hs := reception?_eq_some_iff.mpr ⟨hub, hn, rfl⟩
  obtain ⟨s₁, replays₁⟩ := replays run run₁ hs served₁
  obtain ⟨s₂, replays₂⟩ := replays run run₂ hs served₂
  have hsound : (d.trace as₁).sound n = (d.trace as₂).sound n := by
    rw [replays₁.sound, replays₂.sound, same]
  have hpurge : s₁.purge = s₂.purge := by rw [replays₁.purge, replays₂.purge, same]
  constructor
  · rw [hearings_eq run₁, hearings_eq run₂, hsound]
  · exact hsound
  · rw [registryOf?_of_reception? replays₁.ends, registryOf?_of_reception? replays₂.ends]
    exact congrArg (fun s => some s.registry) hpurge
  · rw [loopState?_of_reception? replays₁.ends, loopState?_of_reception? replays₂.ends]
    exact congrArg (fun s => some s.doing.state) hpurge
  · rw [replays₁.ends, replays₂.ends, Option.map_some, Option.map_some, hpurge]
  · exact ⟨refusals_recorded run₁, _, s₁, hs, replays₁.ends, replays₁.unreadable⟩
  · exact ⟨refusals_recorded run₂, _, s₂, hs, replays₂.ends, replays₂.unreadable⟩
  · intro e s step hends hsilent
    obtain rfl : s₁ = s := Option.some.inj (replays₁.ends.symm.trans hends)
    exact exists_turns (run.append run₂) replays₂.ends hpurge.symm hsilent
      (canTurn_of_perform (run.append run₁) hends step)

/-! A loop with a message without content in its way, and without it. -/

def blankMessage : Message := ⟨"rolls", []⟩

def rollMessage : Message := ⟨"rolls", Wire.encode oneRoll⟩

/-- A hub with a handler is notified of a roll and tells it. -/
def untroubled : List Action := [.notify ⟨0, []⟩ oneRoll, .turn 0, .start 0 0]

/-- Before that somebody publishes a message without content. -/
def troubled : List Action :=
  [.publish blankMessage, .notify ⟨0, []⟩ oneRoll, .turn 0, .turn 0, .start 0 0]

theorem turn_of_unreadable {hub : BrokerHub} {b : Broker} {m : Message} {e : Wire.DecodeError}
    (hn : d.brokerHub? n = some hub) (hphase : hub.phase = .running)
    (hcancelled : d.tokens.isCancelled hub.token = false)
    (hreceive : d.exchange.broker.receive hub.topic hub.subscription = (b, .message m))
    (hdecode : Wire.decode m.payload = .error e) :
    d.turn n = some ((d.setBroker b).tell [.undecodable m.topic e]) := by
  simp only [turn, hn, hphase, hcancelled, takeMessage, hreceive, hdecode]
  rfl

theorem served_of_room {tr : Trace} (h : ∀ s ∈ tr, (∀ topic id, s.2 ≠ .receive topic id) ∧
    ∀ hub, s.1.brokerHub? n = some hub → ∃ ch : Channel,
      s.1.exchange.broker.channels[hub.subscription]? = some ch ∧
        ch.buffer.length < ch.capacity) : tr.Served n := by
  rintro ⟨d, a⟩ hs hub hn
  obtain ⟨ha, hroom⟩ := h (d, a) hs
  obtain ⟨ch, hch, hlt⟩ := hroom hub hn
  constructor
  · intro topic hevent
    cases byHand_of_event hevent
    exact ha _ _ rfl
  · intro _ _ _ _ ch' hch'
    cases hch.symm.trans hch'
    exact hlt

/-- The loop has refused the message without content. -/
def rid (d : Deployment) (e : Wire.DecodeError) : Deployment :=
  (d.setBroker (d.exchange.broker.receive "rolls" 0).1).tell [.undecodable "rolls" e]

/-- What the loop goes by while it waits. -/
def waitingWith (queue : List Message) : Reception :=
  ⟨announcingHub.registry, .waiting, queue, true, false⟩

theorem isSound_waitingWith (m : Message) (rest : List Message) :
    (waitingWith (m :: rest)).isSound .turn = m.isReadable := by
  cases hread : m.isReadable <;>
    simp [waitingWith, Reception.isSound, Input.unreadable?, Reception.refused?, Reception.refuses?,
      hread]

theorem isSound_arrive (s : Reception) (m : Message) : s.isSound (.arrive m) = m.isReadable := by
  cases hread : m.isReadable <;>
    simp [Reception.isSound, Input.unreadable?, Reception.refused?, hread]

theorem isReadable_rollMessage : rollMessage.isReadable = true :=
  Message.isReadable_of_ok (Wire.decode_plain (by decide))

/-- A hub with one handler. -/
def listening : List Action := announcing.take 3

theorem run_untroubled {d : Deployment} (hd : listening.foldlM perform .empty = some d) :
    ∃ d', Run d untroubled d' ∧ (d.trace untroubled).Served 0 ∧
      (d.trace untroubled).inputs 0 = [.arrive rollMessage, .turn, .proceed 0 .running] := by
  obtain ⟨u, hnotify, hu⟩ : ∃ u, d.perform (.notify ⟨0, []⟩ oneRoll) = some u ∧
    announcing.foldlM perform .empty = some u := by cases hd; exact ⟨_, rfl, rfl⟩
  have hturn : u.perform (.turn 0) = some u.taken := turn_announcing hu
  obtain ⟨d', hstart⟩ : ∃ d', u.taken.perform (.start 0 0) = some d' := by
    cases hd; cases hnotify; exact ⟨_, rfl⟩
  have htrace : d.trace untroubled =
      [(d, .notify ⟨0, []⟩ oneRoll), (u, .turn 0), (u.taken, .start 0 0)] := by
    rw [untroubled, trace_cons hnotify, trace_cons hturn, trace_cons hstart]
    rfl
  refine ⟨d', .cons hnotify (.cons hturn (.single hstart)), ?_, ?_⟩
  · rw [htrace]
    refine served_of_room ?_
    simp only [List.forall_mem_cons]
    refine ⟨⟨nofun, ?_⟩, ⟨nofun, ?_⟩, ⟨nofun, ?_⟩, List.forall_mem_nil _⟩ <;>
      · cases hd; cases hnotify
        rintro hub ⟨⟩
        exact ⟨_, rfl, by decide⟩
  · obtain ⟨s, hat₁, hat₂, hat₃⟩ : ∃ s,
        Trace.inputAt 0 (d, .notify ⟨0, []⟩ oneRoll) =
          some (waitingWith [], .arrive rollMessage) ∧
        Trace.inputAt 0 (u, .turn 0) = some (waitingWith [rollMessage], .turn) ∧
        Trace.inputAt 0 (u.taken, .start 0 0) = some (s, .proceed 0 .running) := by
      cases hd; cases hnotify
      exact ⟨_, rfl, rfl, rfl⟩
    rw [htrace, Trace.inputs_cons_of_some hat₁, Trace.inputs_cons_of_some hat₂,
      Trace.inputs_cons_of_some hat₃, isSound_arrive, isSound_waitingWith, isReadable_rollMessage]
    rfl

/-- The blank message is refused, and then the same is done as without it. -/
theorem trace_troubled {d : Deployment} (hd : listening.foldlM perform .empty = some d) :
    ∃ e u v d', Wire.decode [] = .error e ∧ d.perform (.publish blankMessage) = some u ∧
      u.perform (.notify ⟨0, []⟩ oneRoll) = some v ∧ Run d troubled d' ∧
      d.trace troubled = [(d, .publish blankMessage), (u, .notify ⟨0, []⟩ oneRoll),
        (v, .turn 0), (v.rid e, .turn 0), ((v.rid e).taken, .start 0 0)] := by
  obtain ⟨e, he⟩ : ∃ e, Wire.decode [] = .error e := ⟨_, rfl⟩
  obtain ⟨u, hpublish⟩ : ∃ u, d.perform (.publish blankMessage) = some u := ⟨_, rfl⟩
  obtain ⟨v, hnotify⟩ : ∃ v, u.perform (.notify ⟨0, []⟩ oneRoll) = some v := ⟨_, rfl⟩
  obtain ⟨hn, hcancelled, hreceive, hn', hcancelled', hreceive', hsize⟩ :
      v.brokerHub? 0 = some announcingHub ∧ v.tokens.isCancelled announcingHub.token = false ∧
      v.exchange.broker.receive "rolls" 0 =
        ((v.exchange.broker.receive "rolls" 0).1, .message blankMessage) ∧
      (v.rid e).brokerHub? 0 = some announcingHub ∧
      (v.rid e).tokens.isCancelled announcingHub.token = false ∧
      (v.rid e).exchange.broker.receive "rolls" 0 =
        (((v.rid e).exchange.broker.receive "rolls" 0).1, .message rollMessage) ∧
      (v.rid e).dispatches.size = 0 := by
    cases hd; cases hpublish; cases hnotify
    exact ⟨rfl, rfl, rfl, rfl, rfl, rfl, rfl⟩
  have hrid : v.perform (.turn 0) = some (v.rid e) :=
    turn_of_unreadable hn rfl hcancelled hreceive he
  have hturn : (v.rid e).perform (.turn 0) = some (v.rid e).taken := by
    have hturn := turn_of_message hn' rfl hcancelled' hreceive' (Wire.decode_plain (by decide))
    rw [hsize] at hturn
    exact hturn
  obtain ⟨d', hstart⟩ : ∃ d', (v.rid e).taken.perform (.start 0 0) = some d' := by
    cases hd; cases hpublish; cases hnotify; exact ⟨_, rfl⟩
  refine ⟨e, u, v, d', he, hpublish, hnotify,
    .cons hpublish (.cons hnotify (.cons hrid (.cons hturn (.single hstart)))), ?_⟩
  rw [troubled, trace_cons hpublish, trace_cons hnotify, trace_cons hrid, trace_cons hturn,
    trace_cons hstart]
  rfl

theorem run_troubled {d : Deployment} (hd : listening.foldlM perform .empty = some d) :
    ∃ d', Run d troubled d' ∧ (d.trace troubled).Served 0 ∧
      (d.trace troubled).inputs 0 = [.arrive rollMessage, .turn, .proceed 0 .running] ∧
      (d.trace troubled).unreadable 0 = [blankMessage] := by
  obtain ⟨e, u, v, d', he, hpublish, hnotify, run, htrace⟩ := trace_troubled hd
  obtain ⟨s, hat₁, hat₂, hat₃, hat₄, hat₅⟩ : ∃ s,
      Trace.inputAt 0 (d, .publish blankMessage) =
        some (waitingWith [], .arrive blankMessage) ∧
      Trace.inputAt 0 (u, .notify ⟨0, []⟩ oneRoll) =
        some (waitingWith [blankMessage], .arrive rollMessage) ∧
      Trace.inputAt 0 (v, .turn 0) = some (waitingWith [blankMessage, rollMessage], .turn) ∧
      Trace.inputAt 0 (v.rid e, .turn 0) = some (waitingWith [rollMessage], .turn) ∧
      Trace.inputAt 0 ((v.rid e).taken, .start 0 0) = some (s, .proceed 0 .running) := by
    cases hd; cases hpublish; cases hnotify
    exact ⟨_, rfl, rfl, rfl, rfl, rfl⟩
  have hblank : blankMessage.isReadable = false := Message.isReadable_of_error he
  refine ⟨d', run, ?_, ?_, ?_⟩
  · rw [htrace]
    refine served_of_room ?_
    simp only [List.forall_mem_cons]
    refine ⟨⟨nofun, ?_⟩, ⟨nofun, ?_⟩, ⟨nofun, ?_⟩, ⟨nofun, ?_⟩, ⟨nofun, ?_⟩,
      List.forall_mem_nil _⟩ <;>
      · cases hd; cases hpublish; cases hnotify
        rintro hub ⟨⟩
        exact ⟨_, rfl, by decide⟩
  · rw [htrace, Trace.inputs_cons_of_some hat₁, Trace.inputs_cons_of_some hat₂,
      Trace.inputs_cons_of_some hat₃, Trace.inputs_cons_of_some hat₄,
      Trace.inputs_cons_of_some hat₅, isSound_arrive, isSound_arrive, isSound_waitingWith,
      isSound_waitingWith, isReadable_rollMessage, hblank]
    rfl
  · rw [htrace, Trace.unreadable_cons_of_some hat₁, Trace.unreadable_cons_of_some hat₂,
      Trace.unreadable_cons_of_some hat₃, Trace.unreadable_cons_of_some hat₄,
      Trace.unreadable_cons_of_some hat₅, Input.unreadable?, Input.unreadable?,
      isReadable_rollMessage, hblank]
    rfl

theorem unreadable_leave_no_trace_blank : ∃ d d₁ d₂ hub, Run .empty listening d ∧
    d.brokerHub? 0 = some hub ∧ Run d untroubled d₁ ∧ Run d troubled d₂ ∧
    (d.trace untroubled).Served 0 ∧ (d.trace troubled).Served 0 ∧
    (d.trace untroubled).inputs 0 = (d.trace troubled).inputs 0 ∧
    (d.trace troubled).unreadable 0 = [blankMessage] ∧
    NoTrace d untroubled d₁ troubled d₂ 0 := by
  obtain ⟨d, hd⟩ : ∃ d, listening.foldlM perform .empty = some d := ⟨_, rfl⟩
  have hn : d.brokerHub? 0 = some announcingHub := by cases hd; rfl
  obtain ⟨d₁, run₁, served₁, hinputs₁⟩ := run_untroubled hd
  obtain ⟨d₂, run₂, served₂, hinputs₂, hcome⟩ := run_troubled hd
  have same := hinputs₁.trans hinputs₂.symm
  exact ⟨d, d₁, d₂, announcingHub, run_iff.mpr hd, hn, run₁, run₂, served₁, served₂, same, hcome,
    unreadable_leave_no_trace (run_iff.mpr hd) hn run₁ run₂ served₁ served₂ same⟩

end Deployment

end DiceRooms
