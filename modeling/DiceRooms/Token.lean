/-!
Cancellation tokens. A token is told by its lineage, its own number first and then
those of its ancestors; cancelling it cancels it and every token of its lineage's
descendants, and nothing else.
-/
namespace DiceRooms

structure Token where
  number : Nat
  ancestors : List Nat
deriving DecidableEq

structure Tokens where
  /-- Numbers from here on have not been given out. -/
  next : Nat
  cancelled : List Nat
deriving DecidableEq

namespace Token

def lineage (t : Token) : List Nat := t.number :: t.ancestors

/-- A token counts among its own descendants. -/
def DescendsFrom (t u : Token) : Prop := u.number ∈ t.lineage

instance (t u : Token) : Decidable (t.DescendsFrom u) :=
  inferInstanceAs (Decidable (_ ∈ _))

end Token

namespace Tokens

def empty : Tokens := ⟨0, []⟩

def root (ts : Tokens) : Tokens × Token :=
  (⟨ts.next + 1, ts.cancelled⟩, ⟨ts.next, []⟩)

def child (ts : Tokens) (parent : Token) : Tokens × Token :=
  (⟨ts.next + 1, ts.cancelled⟩, ⟨ts.next, parent.lineage⟩)

def cancel (ts : Tokens) (t : Token) : Tokens :=
  if t.number ∈ ts.cancelled then ts else { ts with cancelled := t.number :: ts.cancelled }

def isCancelled (ts : Tokens) (t : Token) : Bool :=
  t.lineage.any (· ∈ ts.cancelled)

theorem mem_cancelled_cancel (ts : Tokens) (t : Token) (n : Nat) :
    n ∈ (ts.cancel t).cancelled ↔ n = t.number ∨ n ∈ ts.cancelled := by
  rw [cancel]
  split
  · next h => exact ⟨.inr, fun h' => h'.elim (· ▸ h) id⟩
  · simp

theorem isCancelled_cancel (ts : Tokens) (t u : Token) :
    (ts.cancel t).isCancelled u = true ↔ u.DescendsFrom t ∨ ts.isCancelled u = true := by
  simp only [isCancelled, List.any_eq_true, decide_eq_true_eq, mem_cancelled_cancel,
    Token.DescendsFrom]
  constructor
  · rintro ⟨n, hn, rfl | h⟩
    · exact .inl hn
    · exact .inr ⟨n, hn, h⟩
  · rintro (h | ⟨n, hn, h⟩)
    · exact ⟨_, h, .inl rfl⟩
    · exact ⟨n, hn, .inr h⟩

end Tokens

end DiceRooms
