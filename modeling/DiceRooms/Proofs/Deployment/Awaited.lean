import DiceRooms.Proofs.Deployment.Quiescence

/-!
What handlers are yet to do. A roll waits for a handler in the channel of every hub that has
the handler for its room, and then in a dispatch, until the handler begins with it, and until
it ends. No step of a handler or a loop loses any of it or adds to it: what still waits and what
is done make the same number as before.
-/
namespace DiceRooms

/-- An invocation begins, and it ends. -/
inductive Moment
  | beginning
  | ending

/-- How far an invocation has come when the moment has come for it. -/
def Moment.rank : Moment → Nat
  | beginning => 1
  | ending => 2

/-- How often a handler stands among those of a room. -/
def Registry.places (registry : Registry Handler) (f : Handler) (room : String) : Nat :=
  (registry.snapshot room).countP (·.2 = f)

namespace BrokerHub

/-- How often the handler is to be called with the roll for the message. -/
def awaits (f : Handler) (r : Roll) (h : BrokerHub) (m : Message) : Nat :=
  match Wire.decode m.payload with
  | .error _ => 0
  | .ok r' => if r' = r then h.registry.places f r.room else 0

def awaitsIn (f : Handler) (r : Roll) (h : BrokerHub) (waiting : List Message) : Nat :=
  (waiting.map (h.awaits f r)).sum

theorem awaitsIn_append (f : Handler) (r : Roll) (h : BrokerHub) (ms ms' : List Message) :
    h.awaitsIn f r (ms ++ ms') = h.awaitsIn f r ms + h.awaitsIn f r ms' := by
  rw [awaitsIn, List.map_append, List.sum_append]
  rfl

end BrokerHub

def Invocation.awaits (m : Moment) (f : Handler) (inv : Invocation) : Bool :=
  inv.handler = f ∧ inv.progress.rank < m.rank

def Dispatch.awaits (m : Moment) (f : Handler) (r : Roll) (p : Dispatch) : Nat :=
  if p.roll = r then p.broadcast.countP (Invocation.awaits m f) else 0

namespace Core

/-- How often the moment is to come yet for the handler with the roll. -/
def awaits (c : Core) (m : Moment) (f : Handler) (r : Roll) : Nat :=
  c.inHubs (BrokerHub.awaitsIn f r) + (c.dispatches.map (Dispatch.awaits m f r)).sum

/-- How often the handler stands among those that all hubs have for the room. -/
def places (c : Core) (f : Handler) (room : String) : Nat :=
  ((List.range c.hubs.length).map fun n => (c.registryOf? n).elim 0 (·.places f room)).sum

end Core

namespace Event

/-- The invocation for which the moment comes with the event. -/
def reaches? (m : Moment) (c : Core) : Event → Option Invoked
  | proceed n i before after =>
    if before.rank < m.rank ∧ m.rank ≤ after.rank then do
      let p ← c.dispatches[n]?
      let inv ← p.broadcast[i]?
      some (p.invoke n inv)
    else none
  | _ => none

/-- How often the moment comes with the event for the handler with the roll. -/
def tells (m : Moment) (c : Core) (f : Handler) (r : Roll) (e : Event) : Nat :=
  (e.reaches? m c).elim 0 fun v => if v.handler = f ∧ v.roll = r then 1 else 0

end Event

/-- A count of members of which one has changed. -/
theorem countP_modify {α : Type} {P : α → Bool} {g : α → α} {l : List α} {i : Nat} {a : α}
    (hi : l[i]? = some a) : (l.modify i g).countP P + (if P a then 1 else 0) =
      l.countP P + if P (g a) then 1 else 0 := by
  have hcount : ∀ l : List α, l.countP P = (l.map fun a => if P a then 1 else 0).sum := by
    intro l
    induction l with
    | nil => rfl
    | cons b l ih => rw [List.countP_cons, List.map_cons, List.sum_cons, ih, Nat.add_comm]
  rw [hcount, hcount]
  exact sum_map_modify (g := fun a => if P a then 1 else 0) hi

section
variable {m : Moment} {f : Handler} {r : Roll} {h : History} {c : Core} {e : Event}

namespace Moment

theorem rank_pos (m : Moment) : 0 < m.rank := by cases m <;> decide

theorem rank_le (m : Moment) : m.rank ≤ 2 := by cases m <;> decide

end Moment

namespace Dispatch

theorem awaits_begin (owner : Owner) (registry : Registry Handler) (r' : Roll) :
    (begin owner registry r').awaits m f r = if r' = r then registry.places f r.room else 0 := by
  refine ite_congr rfl (fun heq => ?_) fun _ => rfl
  subst heq
  simp only [begin, Broadcast.ofRegistry, List.countP_map, Registry.places]
  exact List.countP_congr fun entry _ => by simp [Invocation.awaits, Progress.rank, m.rank_pos]

theorem awaits_of_over {p : Dispatch} (hover : p.broadcast.isOver = true) :
    p.awaits m f r = 0 := by
  rw [awaits, List.countP_eq_zero.mpr, ite_self]
  intro inv hinv
  have hended := (isEnded_iff inv).mp (List.all_eq_true.mp hover inv hinv)
  simp only [Invocation.awaits, decide_eq_true_eq, not_and, hended]
  exact fun _ => Nat.not_lt.mpr m.rank_le

end Dispatch

theorem tells_proceed {n i : Nat} {p : Dispatch} {inv : Invocation} {after : Progress}
    (hp : c.dispatches[n]? = some p) (hinv : p.broadcast[i]? = some inv) :
    (Event.proceed n i inv.progress after).tells m c f r =
      if p.roll = r then
        if Invocation.awaits m f inv ∧ m.rank ≤ after.rank then 1 else 0
      else 0 := by
  rw [Event.tells, Event.reaches?]
  by_cases hcomes : inv.progress.rank < m.rank ∧ m.rank ≤ after.rank
  · rw [if_pos hcomes]
    by_cases hroll : p.roll = r <;>
      simp [hp, hinv, Dispatch.invoke, Invocation.awaits, hcomes, hroll]
  · have hnot : ¬ (Invocation.awaits m f inv = true ∧ m.rank ≤ after.rank) :=
      fun h => hcomes ⟨(of_decide_eq_true h.1).2, h.2⟩
    rw [if_neg hcomes, if_neg hnot, ite_self]
    rfl

/-- An invocation for which the moment comes does not await it any more, and no other one is
concerned. -/
theorem awaits_proceed {n i : Nat} {first after : Progress}
    (possible : (Event.proceed n i first after).Possible c) :
    (c.apply (.proceed n i first after)).awaits m f r +
      (Event.proceed n i first after).tells m c f r = c.awaits m f r := by
  obtain ⟨hrank, p, inv, hp, hinv, rfl⟩ := possible
  have hafter : Invocation.awaits m f { inv with progress := after } = true ↔
      Invocation.awaits m f inv = true ∧ ¬ m.rank ≤ after.rank := by
    simp only [Invocation.awaits, decide_eq_true_eq, and_assoc, Nat.not_le]
    exact and_congr_right fun _ => ⟨fun hafter => ⟨Nat.lt_trans hrank hafter, hafter⟩, And.right⟩
  have hcount := countP_modify (P := Invocation.awaits m f)
    (g := fun inv => { inv with progress := after }) hinv
  have hsum := sum_map_modify (f := Dispatch.proceed i after) (g := Dispatch.awaits m f r) hp
  have hproceed : (p.proceed i after).awaits m f r +
      (Event.proceed n i inv.progress after).tells m c f r = p.awaits m f r := by
    have hroll : (p.proceed i after).roll = p.roll := rfl
    rw [tells_proceed hp hinv, Dispatch.awaits, Dispatch.awaits, hroll]
    split
    · simp only [hafter] at hcount
      show (p.broadcast.modify i _).countP _ + _ = _
      by_cases hawaits : Invocation.awaits m f inv = true <;>
        by_cases hcomes : m.rank ≤ after.rank <;> simp [hawaits, hcomes] at hcount ⊢ <;> omega
    · rfl
  show c.inHubs _ + ((c.dispatches.modify n (Dispatch.proceed i after)).map _).sum + _ =
    c.inHubs _ + _
  omega

theorem Reached.awaits_conclude (reached : Reached h c) {n : Nat} {p : Dispatch}
    (possible : (Event.conclude n p).Possible c) :
    (c.apply (.conclude n p)).awaits m f r = c.awaits m f r := by
  have hhubs : (c.apply (.conclude n p)).inHubs (BrokerHub.awaitsIn f r) = c.inHubs _ :=
    reached.inHubs_conclude possible fun _ _ _ => rfl
  have hdispatches : (c.apply (.conclude n p)).dispatches.map (Dispatch.awaits m f r) =
      c.dispatches.map (Dispatch.awaits m f r) :=
    map_modify_of_same (f := Dispatch.conclude) (fun _ => rfl) _ n
  rw [Core.awaits, hhubs, hdispatches, Core.awaits]

/-- A loop that takes a message opens the dispatch that the message asks for. -/
theorem awaitsIn_taken {n : Nat} {hub : BrokerHub} {t : Turn} (possible : t.Possible c hub) :
    hub.awaitsIn f r t.taken =
      ((Event.turn n hub t).opened?.toList.map (Dispatch.awaits m f r)).sum := by
  cases t with
  | undecodable m =>
      obtain ⟨fault, hfault⟩ := possible.2
      simp [BrokerHub.awaitsIn, Turn.taken, BrokerHub.awaits, hfault, Event.opened?]
  | dispatch m r' number =>
      simp [BrokerHub.awaitsIn, Turn.taken, BrokerHub.awaits, possible.2.1, Event.opened?,
        Dispatch.awaits_begin]
  | _ => rfl

theorem Reached.awaits_turn (reached : Reached h c) {n : Nat} {hub : BrokerHub} {t : Turn}
    (possible : (Event.turn n hub t).Possible c) :
    (c.apply (.turn n hub t)).awaits m f r = c.awaits m f r := by
  have hhubs := reached.inHubs_turn possible (BrokerHub.awaitsIn f r)
  have hphase : BrokerHub.awaitsIn f r { hub with phase := t.phase } =
    BrokerHub.awaitsIn f r hub := rfl
  rw [contents_turn possible.2, hphase, BrokerHub.awaitsIn_append,
    awaitsIn_taken (m := m) (n := n) possible.2] at hhubs
  rw [Core.awaits, dispatches_turn, List.map_append, List.sum_append, Core.awaits]
  omega

/-- What is done has been awaited, and no more and no less is awaited then than what is left. -/
theorem Reached.awaits_settles (reached : Reached h c) (possible : e.Possible c)
    (he : e.settles = true) : (c.apply e).awaits m f r + e.tells m c f r = c.awaits m f r := by
  cases e with
  | proceed n i first after => exact awaits_proceed possible
  | conclude n p => exact reached.awaits_conclude possible
  | turn n hub t => exact reached.awaits_turn possible
  | _ => cases he

end

end DiceRooms
