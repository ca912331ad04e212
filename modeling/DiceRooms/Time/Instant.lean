import DiceRooms.Time.Calendar

/-!
Instants of UTC to the nanosecond. A leap second is told from the second before it by
a fraction of one second or more. It ends a minute if a clock has shown it, but an
instant can be set to such a fraction in any second; its text then shows the next one.
-/
namespace DiceRooms

structure Instant where
  /-- Seconds from 1970-01-01T00:00:00Z, rounded down. -/
  secs : Int
  nanos : Nat
  nanos_lt : nanos < 2000000000
deriving DecidableEq

namespace Instant

def epoch : Instant := ⟨0, 0, by decide⟩

def ofParts? (secs : Int) (nanos : Nat) : Option Instant :=
  if h : nanos < 2000000000 then some ⟨secs, nanos, h⟩ else none

theorem ext_parts {s t : Instant} (hs : s.secs = t.secs) (hn : s.nanos = t.nanos) : s = t := by
  cases s; cases t; simp_all

def date (t : Instant) : Date := Date.ofDays (t.secs / 86400)

def hour (t : Instant) : Nat := (t.secs % 86400 / 3600).toNat

def minute (t : Instant) : Nat := (t.secs % 3600 / 60).toNat

/-- Sixty in a leap second that ends a minute. -/
def second (t : Instant) : Nat :=
  (t.secs % 60).toNat + t.nanos / 1000000000

def fraction (t : Instant) : Nat := t.nanos % 1000000000

/-- A leap second, if it is one, ends a minute. -/
def Regular (t : Instant) : Prop := 1000000000 ≤ t.nanos → t.secs % 60 = 59

instance (t : Instant) : Decidable t.Regular :=
  inferInstanceAs (Decidable (_ → _))

/-- The instant that is shown: a leap second within a minute counts as the second after it. -/
def settled (t : Instant) : Instant :=
  if t.Regular then t
  else ⟨t.secs + 1, t.fraction, Nat.lt_trans (Nat.mod_lt _ (by decide)) (by decide)⟩

theorem Regular.settled {t : Instant} (h : t.Regular) : t.settled = t := if_pos h

theorem settled_of_not_regular {t : Instant} (h : ¬ t.Regular) :
    t.settled.secs = t.secs + 1 ∧ t.settled.nanos = t.fraction := by
  rw [Instant.settled, if_neg h]
  exact ⟨rfl, rfl⟩

theorem regular_settled (t : Instant) : t.settled.Regular := by
  by_cases h : t.Regular
  · rwa [h.settled]
  · intro hleap
    rw [(settled_of_not_regular h).2, fraction] at hleap
    omega

theorem settled_eq_self_iff {t : Instant} : t.settled = t ↔ t.Regular :=
  ⟨fun h => h ▸ t.regular_settled, Regular.settled⟩

end Instant

end DiceRooms
