import DiceRooms.Proofs.Wire.RoundTrip
import Mathlib.Data.List.Forall2

/-!
Documents of any shape. A reader that keeps the whole of a value, its members in order
and repeated keys included, shows what a written line holds and that it holds nothing else.
-/
namespace DiceRooms.Wire

open Ascii Json

inductive Tree
  | null
  | boolean (b : Bool)
  | number (n : Number)
  | text (t : String)
  | list (items : List Tree)
  | object (members : List (String × Tree))

namespace Tree

/-- One more member of an object. -/
def readMember (read : Bytes → Except Fault (Tree × Bytes)) (ms : List (String × Tree))
    (key : String) (s : Bytes) : Except Fault (List (String × Tree) × Bytes) := do
  let s ← readColon s
  let (t, s) ← read s
  .ok (ms ++ [(key, t)], s)

/-- Reads a value that is at most as deep as there is fuel. -/
def readValue : Nat → Bytes → Except Fault (Tree × Bytes)
  | 0, _ => malformed .endInValue
  | depth + 1, s =>
    match skipBlanks s with
    | [] => malformed .endInValue
    | b :: r =>
      if b = 0x6e then grammar ((readWord wordNull r).map fun s => (.null, s))
      else if b = 0x74 then grammar ((readWord wordTrue r).map fun s => (.boolean true, s))
      else if b = 0x66 then grammar ((readWord wordFalse r).map fun s => (.boolean false, s))
      else if b = minus ∨ isDigit b then
        grammar ((readNumber (b :: r)).map fun (n, s) => (.number n, s))
      else if b = quote then grammar ((readText r).map fun (t, s) => (.text t, s))
      else if b = openBracket then
        (readElements (readValue depth) (b :: r) true r).map fun (ts, s) => (.list ts, s)
      else if b = openBrace then
        (readMembers (readMember (readValue depth)) (b :: r) true [] r).map fun (ms, s) =>
          (.object ms, s)
      else malformed .expectedValue

/-- Reads a whole document; no value is deeper than its text is long. -/
def read (s : Bytes) : Except Fault Tree := do
  let (t, s) ← readValue s.length s
  if skipBlanks s = [] then .ok t else malformed .trailingCharacters

/-! What the writer writes is read as what was to be written. -/

section
variable (depth : Nat)

theorem readValue_openBrace (s : Bytes) :
    readValue (depth + 1) (openBrace :: s) =
      (readMembers (readMember (readValue depth)) (openBrace :: s) true [] s).map fun (ms, s) =>
        (.object ms, s) := by
  rw [readValue, skipBlanks_cons rfl]
  rfl

variable {depth}

/-- The text of a member is that of its value. -/
def Spells (depth : Nat) (m : String × Bytes) (v : String × Tree) : Prop :=
  m.1 = v.1 ∧ Reads (readValue depth) m.2 v.2

theorem gathers_members {ms : List (String × Bytes)} {vs : List (String × Tree)}
    (h : List.Forall₂ (Spells depth) ms vs) (before : List (String × Tree)) :
    Gathers (readMember (readValue depth)) before ms (before ++ vs) := by
  induction h generalizing before with
  | nil =>
      rw [List.append_nil]
      exact .nil before
  | @cons m v ms vs hm _ ih =>
      obtain ⟨key, value⟩ := m
      obtain ⟨hkey, hvalue⟩ := hm
      have hrest := ih (before ++ [v])
      rw [List.append_assoc, List.singleton_append] at hrest
      refine .cons (before ++ [v]) (fun rest hends => ?_) hrest
      rw [readMember, readColon, skipBlanks_cons rfl]
      simp only [if_true, ok_bind, hvalue rest hends]
      rw [show key = v.1 from hkey]

theorem reads_object {ms : List (String × Bytes)} {vs : List (String × Tree)}
    (h : List.Forall₂ (Spells depth) ms vs) :
    Reads (readValue (depth + 1)) (writeObject ms) (.object vs) := by
  intro rest _
  have hlen := length_lt_writeObject ms rest
  obtain ⟨f, fuel, hfuel⟩ : ∃ f fuel, (writeObject ms ++ rest).drop ms.length = f :: fuel :=
    List.exists_cons_of_ne_nil (by simpa using hlen)
  have hread := readMembers_gathers (gathers_members h []) true [] _ (Nat.le_of_lt hlen)
    (valueEnds_closeBrace rest)
  rw [List.append_nil, hfuel, membersText_nil, List.nil_append, List.nil_append,
    readMembers_close] at hread
  rw [writeObject_append] at hread ⊢
  rw [readValue_openBrace, hread]
  rfl

end

end Tree

end DiceRooms.Wire
