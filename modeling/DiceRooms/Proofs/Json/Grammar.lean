import DiceRooms.Json.Skip
import DiceRooms.Proofs.Json.Number

/-!
The grammar of a document, apart from any reader. A relation between two texts says that
the first begins with a phrase and goes on with the second. Strings come in two kinds:
`Octets` gives the octets that a string stands for, and `Escaped` only asks for escapes that
exist, as in values that nobody looks at; `Derives` is the grammar of such values.
-/
namespace DiceRooms.Json

open Ascii

def Blanks (s rest : Bytes) : Prop :=
  ∃ bs : Bytes, (∀ b ∈ bs, isBlank b = true) ∧ s = bs ++ rest

/-- A structural mark, perhaps behind blanks. -/
def Mark (c : UInt8) (s rest : Bytes) : Prop := Blanks s (c :: rest)

/-! Strings, from behind the opening quote to behind the closing one. -/

/-- The octets that the string stands for. -/
inductive Octets : Bytes → Bytes → Bytes → Prop
  | close (rest : Bytes) : Octets [] (quote :: rest) rest
  | plain {b : UInt8} {t s rest : Bytes} (quoted : b ≠ quote) (printable : ¬ b < 0x20)
      (escaped : b ≠ backslash) (more : Octets t s rest) : Octets (b :: t) (b :: s) rest
  | short {e c : UInt8} {t s rest : Bytes} (letter : unescape? e = some c)
      (more : Octets t s rest) : Octets (c :: t) (backslash :: e :: s) rest
  | unit {h₁ h₂ h₃ h₄ : UInt8} {u : Nat} {t s rest : Bytes}
      (digits : hexUnit? h₁ h₂ h₃ h₄ = some u) (first : isLeading u = false)
      (second : isTrailing u = false) (more : Octets t s rest) :
      Octets (encodeScalar u ++ t) (backslash :: letterU :: h₁ :: h₂ :: h₃ :: h₄ :: s) rest
  /-- Two halves of a surrogate pair. -/
  | pair {h₁ h₂ h₃ h₄ k₁ k₂ k₃ k₄ : UInt8} {u v : Nat} {t s rest : Bytes}
      (digits : hexUnit? h₁ h₂ h₃ h₄ = some u) (first : isLeading u = true)
      (digits' : hexUnit? k₁ k₂ k₃ k₄ = some v) (second : isTrailing v = true)
      (more : Octets t s rest) :
      Octets (encodeScalar (pairValue u v) ++ t)
        (backslash :: letterU :: h₁ :: h₂ :: h₃ :: h₄ ::
          backslash :: letterU :: k₁ :: k₂ :: k₃ :: k₄ :: s) rest

inductive Escaped : Bytes → Bytes → Prop
  | close (rest : Bytes) : Escaped (quote :: rest) rest
  | plain {b : UInt8} {s rest : Bytes} (quoted : b ≠ quote) (printable : ¬ b < 0x20)
      (escaped : b ≠ backslash) (more : Escaped s rest) : Escaped (b :: s) rest
  | short {e c : UInt8} {s rest : Bytes} (letter : unescape? e = some c)
      (more : Escaped s rest) : Escaped (backslash :: e :: s) rest
  | unit {h₁ h₂ h₃ h₄ : UInt8} {u : Nat} {s rest : Bytes}
      (digits : hexUnit? h₁ h₂ h₃ h₄ = some u) (more : Escaped s rest) :
      Escaped (backslash :: letterU :: h₁ :: h₂ :: h₃ :: h₄ :: s) rest

/-- A string that denotes the text, in any spelling. -/
def Text (t : String) (s rest : Bytes) : Prop :=
  ∃ s', Mark quote s s' ∧ Octets (utf8 t) s' rest

/-! Numbers, as whole literals. -/

def Digits (ds : Bytes) : Prop :=
  ds ≠ [] ∧ ∀ d ∈ ds, isDigit d = true

def IsInteger (ds : Bytes) : Prop :=
  ds = [zero] ∨ Digits ds ∧ ds.head? ≠ some zero

def IsFraction (s : Bytes) : Prop :=
  s = [] ∨ ∃ ds, s = point :: ds ∧ Digits ds

def IsExponent (s : Bytes) : Prop :=
  s = [] ∨ ∃ mark sign ds, s = mark :: (sign ++ ds) ∧ isExponentMark mark = true ∧
    (sign = [] ∨ sign = [plus] ∨ sign = [minus]) ∧ Digits ds

/-- A number of any size. -/
def IsNumber (s : Bytes) : Prop :=
  ∃ sign whole fraction exponent, s = sign ++ whole ++ fraction ++ exponent ∧
    (sign = [] ∨ sign = [minus]) ∧ IsInteger whole ∧ IsFraction fraction ∧ IsExponent exponent

/-- A literal without sign, leading zeros, fraction and exponent. -/
def Natural (n : UInt64) (s rest : Bytes) : Prop :=
  Blanks s (decimal n.toNat ++ rest)

/-! Values of any depth. -/

inductive Scalar : Bytes → Bytes → Prop
  | nullWord (rest : Bytes) : Scalar (0x6e :: (wordNull ++ rest)) rest
  | trueWord (rest : Bytes) : Scalar (0x74 :: (wordTrue ++ rest)) rest
  | falseWord (rest : Bytes) : Scalar (0x66 :: (wordFalse ++ rest)) rest
  | text {s rest : Bytes} (escaped : Escaped s rest) : Scalar (quote :: s) rest
  | number {literal : Bytes} (number : IsNumber literal) (rest : Bytes) :
      Scalar (literal ++ rest) rest

def Bracket.opening : Bracket → UInt8
  | list => openBracket
  | object => openBrace

/-- What stands in front of an element: nothing in a list, key and colon in an object. -/
def Label (b : Bracket) (s rest : Bytes) : Prop :=
  match b with
  | .list => s = rest
  | .object => ∃ s₁ s₂, Mark quote s s₁ ∧ Escaped s₁ s₂ ∧ Mark colon s₂ rest

inductive Phrase
  | value
  /-- What is between the marks of a bracket that is not empty. -/
  | elements (b : Bracket)

inductive Derives : Phrase → Bytes → Bytes → Prop
  | scalar {s s₁ rest : Bytes} (blanks : Blanks s s₁) (scalar : Scalar s₁ rest) :
      Derives .value s rest
  | empty {b : Bracket} {s s₁ rest : Bytes} (opens : Mark b.opening s s₁)
      (closes : Mark b.closing s₁ rest) : Derives .value s rest
  | group {b : Bracket} {s s₁ s₂ rest : Bytes} (opens : Mark b.opening s s₁)
      (elements : Derives (.elements b) s₁ s₂) (closes : Mark b.closing s₂ rest) :
      Derives .value s rest
  | last {b : Bracket} {s s₁ rest : Bytes} (label : Label b s s₁)
      (value : Derives .value s₁ rest) : Derives (.elements b) s rest
  | more {b : Bracket} {s s₁ s₂ s₃ rest : Bytes} (label : Label b s s₁)
      (value : Derives .value s₁ s₂) (separates : Mark comma s₂ s₃)
      (others : Derives (.elements b) s₃ rest) : Derives (.elements b) s rest

/-- A value of any kind and any depth. -/
abbrev Value (s rest : Bytes) : Prop := Derives .value s rest

/-! Blanks and marks, as the readers look for them. -/

theorem blanks_skipBlanks (s : Bytes) : Blanks s (skipBlanks s) :=
  ⟨s.takeWhile isBlank, List.all_eq_true.mp List.all_takeWhile,
    List.takeWhile_append_dropWhile.symm⟩

theorem skipBlanks_of_blanks {s rest : Bytes} (h : Blanks s rest) :
    skipBlanks s = skipBlanks rest := by
  obtain ⟨bs, hbs, rfl⟩ := h
  exact List.dropWhile_append_of_pos hbs

theorem Blanks.of_skipBlanks {s rest : Bytes} (h : Blanks (skipBlanks s) rest) :
    Blanks s rest := by
  obtain ⟨bs, hbs, heq⟩ := blanks_skipBlanks s
  obtain ⟨bs', hbs', heq'⟩ := h
  refine ⟨bs ++ bs', ?_, by rw [heq, heq', List.append_assoc]⟩
  simpa only [List.forall_mem_append] using ⟨hbs, hbs'⟩

theorem skipBlanks_idem (s : Bytes) : skipBlanks (skipBlanks s) = skipBlanks s :=
  (skipBlanks_of_blanks (blanks_skipBlanks s)).symm

theorem skipBlanks_eq_nil_iff {s : Bytes} : skipBlanks s = [] ↔ Blanks s [] := by
  constructor
  · intro h
    exact h ▸ blanks_skipBlanks s
  · intro h
    rw [skipBlanks_of_blanks h]
    rfl

theorem Blanks.length_le {s rest : Bytes} (h : Blanks s rest) : rest.length ≤ s.length := by
  obtain ⟨bs, -, rfl⟩ := h
  rw [List.length_append]
  omega

section
variable {c : UInt8} {s rest : Bytes}

theorem mark_of_skipBlanks (h : skipBlanks s = c :: rest) : Mark c s rest := by
  rw [Mark, ← h]
  exact blanks_skipBlanks s

theorem skipBlanks_of_mark (hc : isBlank c = false) (h : Mark c s rest) :
    skipBlanks s = c :: rest := by
  rw [skipBlanks_of_blanks h, skipBlanks, List.dropWhile_cons_of_neg (by simp [hc])]

theorem Mark.length_lt (h : Mark c s rest) : rest.length < s.length :=
  Nat.lt_of_lt_of_le (Nat.lt_succ_self rest.length) (Blanks.length_le h)

end

/-! A literal ends in front of blanks, and of a mark that could not continue it. -/

theorem literalEnds_nil : LiteralEnds [] := nofun

theorem literalEnds_cons {b : UInt8} (s : Bytes)
    (h : isDigit b = false ∧ b ≠ point ∧ isExponentMark b = false) : LiteralEnds (b :: s) := by
  intro b' hb'
  obtain rfl : b = b' := Option.some.inj hb'
  exact h

theorem literalEnds_of_blanks {s rest : Bytes} (h : Blanks s rest) (hrest : LiteralEnds rest) :
    LiteralEnds s := by
  obtain ⟨bs, hbs, rfl⟩ := h
  cases bs with
  | nil => exact hrest
  | cons b bs =>
      refine literalEnds_cons _ ?_
      have hblank := hbs b List.mem_cons_self
      simp only [isBlank, Bool.or_eq_true, beq_iff_eq] at hblank
      rcases hblank with ((rfl | rfl) | rfl) | rfl <;> decide

theorem literalEnds_comma {s rest : Bytes} (h : Mark comma s rest) : LiteralEnds s :=
  literalEnds_of_blanks h (literalEnds_cons rest (by decide))

theorem literalEnds_closing {b : Bracket} {s rest : Bytes} (h : Mark b.closing s rest) :
    LiteralEnds s :=
  literalEnds_of_blanks h (literalEnds_cons rest (by cases b <;> decide))

end DiceRooms.Json
