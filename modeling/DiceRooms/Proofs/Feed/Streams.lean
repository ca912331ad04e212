import DiceRooms.Feed.Session

/-!
What can happen to the streams of a feed. A stream that is open has passed on or still holds
all that it has been given, in the order in which it came; one that has been dropped has passed
on a first part of it. Neither stream of a feed depends on what happens to the other. A call of
the handler gives something to the one and later to the other, and fails if it finds neither
receiver there.
-/
namespace DiceRooms

namespace Stream

variable {α : Type}

/-- What can happen to a stream. -/
inductive Move (α : Type)
  | stay
  | send (a : α)
  /-- The first of what is unread is read. -/
  | take
  | drain
  | drop

namespace Move

def on : Move α → Stream α → Stream α
  | stay, s => s
  | send a, s => s.send a
  | take, s => { s with unread := s.unread.tail }
  | drain, s => s.drain
  | drop, s => s.drop

/-- What the stream is given. -/
def given : Move α → List α
  | send a => [a]
  | stay | take | drain | drop => []

/-- What is read. -/
def taken : Move α → Stream α → List α
  | take, s => s.unread.take 1
  | drain, s => s.unread
  | stay, _ | send _, _ | drop, _ => []

/-- The receiver is dropped. -/
def drops : Move α → Bool
  | drop => true
  | stay | send _ | take | drain => false

/-- A stream is open until its receiver is dropped. -/
theorem isOpen_on (m : Move α) (s : Stream α) :
    (m.on s).isOpen = true ↔ s.isOpen = true ∧ m.drops = false := by
  cases m with
  | send a =>
      rw [on, Stream.send, drops, and_iff_left rfl]
      split <;> rfl
  | drop => simp [on, Stream.drop, drops]
  | stay | take | drain => exact (and_iff_left rfl).symm

end Move

/-- The stream has been given the one list, and the other has been read from it. -/
structure Carries (s : Stream α) (given taken : List α) : Prop where
  whole : s.isOpen = true → taken ++ s.unread = given
  cut : s.isOpen = false → s.unread = [] ∧ taken <+: given

namespace Carries

variable {s : Stream α} {given taken : List α}

theorem fresh : Carries (.fresh : Stream α) [] [] := ⟨fun _ => rfl, nofun⟩

/-- Nothing is read that has not been given. -/
theorem isPrefix (carries : s.Carries given taken) : taken <+: given := by
  cases hopen : s.isOpen with
  | true => exact ⟨s.unread, carries.whole hopen⟩
  | false => exact (carries.cut hopen).2

theorem send (carries : s.Carries given taken) (a : α) :
    (s.send a).Carries (given ++ [a]) taken := by
  cases hopen : s.isOpen with
  | true =>
      rw [Stream.send, if_pos hopen]
      refine ⟨fun _ => ?_, fun h => ?_⟩
      · rw [← carries.whole hopen, List.append_assoc]
      · cases hopen.symm.trans h
  | false =>
      rw [Stream.send, if_neg (Bool.eq_false_iff.mp hopen)]
      refine ⟨fun h => ?_, fun _ => ?_⟩
      · cases hopen.symm.trans h
      · exact ⟨(carries.cut hopen).1, carries.isPrefix.trans (List.prefix_append given [a])⟩

/-- Of what is unread the first part is read, and the rest remains. -/
theorem read (carries : s.Carries given taken) {first rest : List α}
    (hunread : s.unread = first ++ rest) :
    Carries { s with unread := rest } given (taken ++ first) where
  whole hopen := by
    rw [List.append_assoc, ← hunread]
    exact carries.whole hopen
  cut hclosed := by
    obtain ⟨hnone, hprefix⟩ := carries.cut hclosed
    obtain ⟨rfl, rfl⟩ := List.append_eq_nil_iff.mp (hunread.symm.trans hnone)
    exact ⟨rfl, by rwa [List.append_nil]⟩

theorem drop (carries : s.Carries given taken) : s.drop.Carries given taken :=
  ⟨nofun, fun _ => ⟨rfl, carries.isPrefix⟩⟩

/-- Whatever happens to a stream adds to what it is given and to what is read from it. -/
theorem move (carries : s.Carries given taken) (m : Move α) :
    (m.on s).Carries (given ++ m.given) (taken ++ m.taken s) := by
  cases m with
  | stay =>
      rw [Move.given, Move.taken, List.append_nil, List.append_nil]
      exact carries
  | send a =>
      rw [Move.taken, List.append_nil]
      exact carries.send a
  | take =>
      have hunread : s.unread = s.unread.take 1 ++ s.unread.tail := by
        rw [← List.drop_one, List.take_append_drop]
      rw [Move.given, List.append_nil]
      exact carries.read hunread
  | drain =>
      rw [Move.given, List.append_nil]
      exact carries.read (List.append_nil s.unread).symm
  | drop =>
      rw [Move.given, Move.taken, List.append_nil, List.append_nil]
      exact carries.drop

end Carries

end Stream

namespace Feed

/-- A call of the handler of a feed gives something to one of the streams. -/
structure Sending where
  call : HandlerCall
  roll : Roll
  /-- The receiver is there. -/
  arrives : Bool

/-- What can happen to a feed. -/
inductive Move
  | stay
  | sendRow (c : HandlerCall) (r : Roll)
  | sendId (c : HandlerCall) (r : Roll)
  | takeRow
  | takeNotification
  | drain
  | dropRows
  | dropNotifications
  | drop

namespace Move

def rows : Move → Stream.Move Row
  | sendRow _ r => .send (.ofRoll r)
  | takeRow => .take
  | drain => .drain
  | dropRows | drop => .drop
  | stay | sendId .. | takeNotification | dropNotifications => .stay

def notifications : Move → Stream.Move String
  | sendId _ r => .send r.id
  | takeNotification => .take
  | drain => .drain
  | dropNotifications | drop => .drop
  | stay | sendRow .. | takeRow | dropRows => .stay

def halfway (f : Feed) : Move → List HandlerCall
  | sendRow c _ => if f.rows.isOpen then c :: f.halfway else f.halfway
  | sendId c _ => f.halfway.filter (· ≠ c)
  | _ => f.halfway

def on (m : Move) (f : Feed) : Feed :=
  ⟨m.rows.on f.rows, m.notifications.on f.notifications, m.halfway f⟩

def row? (f : Feed) : Move → Option Sending
  | sendRow c r => some ⟨c, r, f.rows.isOpen⟩
  | _ => none

def id? (f : Feed) : Move → Option Sending
  | sendId c r => some ⟨c, r, f.notifications.isOpen⟩
  | _ => none

variable (m : Move) (f : Feed)

theorem given_rows : m.rows.given = (m.row? f).toList.map fun t => .ofRoll t.roll := by
  cases m <;> rfl

theorem given_notifications : m.notifications.given = (m.id? f).toList.map (·.roll.id) := by
  cases m <;> rfl

variable {m f} {c : HandlerCall}

/-- A call stands halfway only after its row has got to somebody, -/
theorem of_mem_halfway (h : c ∈ (m.on f).halfway) :
    c ∈ f.halfway ∨ ∃ t, m.row? f = some t ∧ t.call = c ∧ t.arrives = true := by
  cases m with
  | sendRow c' r =>
      simp only [on, halfway] at h
      split at h
      · next hopen =>
          rcases List.mem_cons.mp h with rfl | h
          · exact .inr ⟨_, rfl, rfl, hopen⟩
          · exact .inl h
      · exact .inl h
  | sendId c' r => exact .inl (List.mem_filter.mp h).1
  | _ => exact .inl h

/-- and it does so until it sends the id. -/
theorem mem_halfway (h : c ∈ f.halfway) :
    c ∈ (m.on f).halfway ∨ ∃ t, m.id? f = some t ∧ t.call = c := by
  cases m with
  | sendRow c' r =>
      refine .inl ?_
      simp only [on, halfway]
      split
      · exact List.mem_cons_of_mem _ h
      · exact h
  | sendId c' r =>
      by_cases heq : c = c'
      · exact .inr ⟨_, rfl, heq.symm⟩
      · exact .inl (List.mem_filter.mpr ⟨h, decide_eq_true heq⟩)
  | _ => exact .inl h

theorem mem_halfway_of_arrives {t : Sending} (ht : m.row? f = some t) (harrives : t.arrives = true) :
    t.call ∈ (m.on f).halfway := by
  cases m with
  | sendRow c' r =>
      cases ht
      simp only [on, halfway]
      rw [if_pos harrives]
      exact List.mem_cons_self
  | _ => cases ht

end Move

/-- A call ends well just when its row or its id has got to somebody. -/
theorem outcome_eq (f : Feed) (c : HandlerCall) : f.outcome c =
    if c ∈ f.halfway ∨ f.notifications.isOpen = true then .success else unheard := by
  simp [outcome]

end Feed

end DiceRooms
