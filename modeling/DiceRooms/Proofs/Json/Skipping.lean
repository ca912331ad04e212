import DiceRooms.Proofs.Json.Literals

/-!
Passing over a value against the grammar. What is passed over is a value of the grammar, and
every such value is passed over if it ends where the reader comes to its end. The brackets
that are still open make up what has yet to come: for each of them the rest of its elements
and its closing mark, the innermost first.
-/
namespace DiceRooms.Json

open Ascii

/-! Scalars. -/

theorem readWord_eq_ok_iff {w s rest : Bytes} : readWord w s = .ok rest ↔ s = w ++ rest := by
  induction w generalizing s with
  | nil => simp [readWord]
  | cons b w ih =>
      cases s with
      | nil => simp [readWord]
      | cons c s =>
          rw [readWord]
          split
          · next heq => simp [heq, ih]
          · next hne => simp [hne]

theorem IsNumber.cons {literal : Bytes} (h : IsNumber literal) :
    ∃ b l, literal = b :: l ∧ (b = minus ∨ isDigit b = true) := by
  obtain ⟨sign, whole, fraction, exponent, rfl, hsign, hinteger, -, -⟩ := h
  rcases hsign with rfl | rfl
  · obtain ⟨d, ds, rfl, hd⟩ := hinteger.cons
    exact ⟨d, _, rfl, .inr hd⟩
  · exact ⟨minus, _, rfl, .inl rfl⟩

/-- What starts a number starts nothing else. -/
theorem numeric_ne {b c : UInt8} (h : b = minus ∨ isDigit b = true)
    (hc : c ≠ minus ∧ isDigit c = false) : b ≠ c := by
  rintro rfl
  rcases h with rfl | hdigit
  · exact hc.1 rfl
  · rw [hc.2] at hdigit
    cases hdigit

theorem scalar_of_skipScalar {s rest : Bytes} (h : skipScalar s = .ok rest) :
    Scalar s rest := by
  cases s with
  | nil => cases h
  | cons b s =>
      rw [skipScalar] at h
      split at h
      · next hb => rw [hb, readWord_eq_ok_iff.mp h]; exact .nullWord rest
      · split at h
        · next hb => rw [hb, readWord_eq_ok_iff.mp h]; exact .trueWord rest
        · split at h
          · next hb => rw [hb, readWord_eq_ok_iff.mp h]; exact .falseWord rest
          · split at h
            · next hb => rw [hb]; exact .text (escaped_of_skipText h)
            · split at h
              · obtain ⟨literal, heq, hnumber⟩ := number_of_skipNumber h
                rw [heq]
                exact .number hnumber rest
              · cases h

theorem skipScalar_of_scalar {s rest : Bytes} (h : Scalar s rest) (hrest : LiteralEnds rest) :
    skipScalar s = .ok rest := by
  cases h with
  | nullWord | trueWord | falseWord => exact readWord_eq_ok_iff.mpr rfl
  | text escaped => exact skipText_of_escaped escaped
  | number number =>
      have hskip := skipNumber_of_number number hrest
      obtain ⟨b, l, rfl, hb⟩ := number.cons
      rw [List.cons_append] at hskip ⊢
      rw [skipScalar, if_neg (numeric_ne hb (by decide)), if_neg (numeric_ne hb (by decide)),
        if_neg (numeric_ne hb (by decide)), if_neg (numeric_ne hb (by decide)), if_pos hb, hskip]

/-- The head of a scalar is no blank and no bracket. -/
theorem Scalar.cons {s rest : Bytes} (h : Scalar s rest) :
    ∃ b r, s = b :: r ∧ isBlank b = false ∧ bracketOf? b = none ∧
      ∀ bracket : Bracket, b ≠ bracket.closing := by
  cases h with
  | nullWord | trueWord | falseWord | text _ =>
      exact ⟨_, _, rfl, rfl, rfl, fun b => by cases b <;> decide⟩
  | number number rest =>
      obtain ⟨b, l, rfl, hb⟩ := number.cons
      refine ⟨b, l ++ rest, rfl, ?_, ?_, ?_⟩
      · simp only [isBlank, Bool.or_eq_false_iff, beq_eq_false_iff_ne]
        exact ⟨⟨⟨numeric_ne hb (by decide), numeric_ne hb (by decide)⟩,
          numeric_ne hb (by decide)⟩, numeric_ne hb (by decide)⟩
      · rw [bracketOf?, if_neg (numeric_ne hb (by decide)), if_neg (numeric_ne hb (by decide))]
      · exact fun bracket => numeric_ne hb (by cases bracket <;> decide)

theorem Scalar.length_lt {s rest : Bytes} (h : Scalar s rest) : rest.length < s.length := by
  cases h with
  | nullWord | trueWord | falseWord => simp only [List.length_cons, List.length_append]; omega
  | text escaped => exact Nat.lt_succ_of_lt escaped.length_lt
  | number number rest =>
      obtain ⟨b, l, rfl, -⟩ := number.cons
      simp only [List.length_cons, List.length_append]
      omega

/-! Labels and opening marks. -/

theorem isBlank_opening (b : Bracket) : isBlank b.opening = false := by cases b <;> rfl

theorem isBlank_closing (b : Bracket) : isBlank b.closing = false := by cases b <;> rfl

theorem bracketOf?_eq_some_iff {b : UInt8} {bracket : Bracket} :
    bracketOf? b = some bracket ↔ b = bracket.opening := by
  rw [bracketOf?]
  split
  · next h => subst h; cases bracket <;> decide
  · next hlist =>
      split
      · next h => subst h; cases bracket <;> decide
      · next hobject =>
          cases bracket with
          | list => simpa [Bracket.opening] using hlist
          | object => simpa [Bracket.opening] using hobject

theorem skipKey_eq_ok_iff {s rest : Bytes} : skipKey s = .ok rest ↔ Label .object s rest := by
  constructor
  · intro h
    rw [skipKey] at h
    split at h
    · cases h
    · next b s₁ hs =>
        split at h
        · cases h
        · next hquote =>
            obtain rfl := not_not.mp hquote
            obtain ⟨s₂, htext, h⟩ := bind_eq_ok_iff.mp h
            split at h
            · cases h
            · next b s₃ hs₂ =>
                split at h
                · next hcolon =>
                    cases h
                    subst hcolon
                    exact ⟨s₁, s₂, mark_of_skipBlanks hs, escaped_of_skipText htext,
                      mark_of_skipBlanks hs₂⟩
                · cases h
  · rintro ⟨s₁, s₂, hquote, hescaped, hcolon⟩
    have hs := skipBlanks_of_mark (by decide) hquote
    have hs₂ := skipBlanks_of_mark (by decide) hcolon
    simp only [skipKey, hs, skipText_of_escaped hescaped, ok_bind, hs₂]
    rfl

theorem skipToValue_eq_ok_iff {b : Bracket} {s rest : Bytes} :
    skipToValue b s = .ok rest ↔ Label b s rest := by
  cases b with
  | list => simp [skipToValue, Label]
  | object => exact skipKey_eq_ok_iff

theorem Label.length_le {b : Bracket} {s rest : Bytes} (h : Label b s rest) :
    rest.length ≤ s.length := by
  cases b with
  | list => exact Nat.le_of_eq (congrArg List.length h.symm)
  | object =>
      obtain ⟨s₁, s₂, hquote, hescaped, hcolon⟩ := h
      have := hquote.length_lt
      have := hescaped.length_lt
      have := hcolon.length_lt
      omega

/-! What is passed over is a value. -/

/-- A value is entered at its opening mark or has been passed over. -/
theorem of_enterValue {stack stack' : List Bracket} {position : Position} {s s' : Bytes}
    (h : enterValue stack s = .ok (position, stack', s')) :
    (∃ b : Bracket, position = .opened ∧ stack' = b :: stack ∧ Mark b.opening s s') ∨
      position = .ended ∧ stack' = stack ∧ Value s s' := by
  rw [enterValue] at h
  split at h
  · cases h
  · next b r hs =>
      split at h
      · next bracket hbracket =>
          cases h
          rw [bracketOf?_eq_some_iff.mp hbracket] at hs
          exact .inl ⟨bracket, rfl, rfl, mark_of_skipBlanks hs⟩
      · obtain ⟨rest, hscalar, heq⟩ := map_eq_ok_iff.mp h
        cases heq
        have hblanks : Blanks s (b :: r) := mark_of_skipBlanks hs
        exact .inr ⟨rfl, rfl, .scalar hblanks (scalar_of_skipScalar hscalar)⟩

/-- The rest of a bracket, from behind its opening mark or behind one of its elements. -/
inductive Closes (b : Bracket) : Position → Bytes → Bytes → Prop
  | close {position : Position} {s rest : Bytes} (closes : Mark b.closing s rest) :
      Closes b position s rest
  | first {s s₁ rest : Bytes} (elements : Derives (.elements b) s s₁)
      (closes : Mark b.closing s₁ rest) : Closes b .opened s rest
  | next {s s₁ s₂ rest : Bytes} (separates : Mark comma s s₁)
      (elements : Derives (.elements b) s₁ s₂) (closes : Mark b.closing s₂ rest) :
      Closes b .ended s rest

/-- One more element in front of the rest of a bracket. -/
theorem Closes.elements {b : Bracket} {s s₁ s₂ rest : Bytes} (label : Label b s s₁)
    (value : Value s₁ s₂) (h : Closes b .ended s₂ rest) :
    ∃ s₃, Derives (.elements b) s s₃ ∧ Mark b.closing s₃ rest := by
  cases h with
  | close closes => exact ⟨s₂, .last label value, closes⟩
  | next separates elements closes => exact ⟨_, .more label value separates elements, closes⟩

theorem Closes.value {b : Bracket} {s s₁ rest : Bytes} (opens : Mark b.opening s s₁)
    (h : Closes b .opened s₁ rest) : Value s rest := by
  cases h with
  | close closes => exact .empty opens closes
  | first elements closes => exact .group opens elements closes

/-- All open brackets are closed, the innermost first. -/
def Unwinds : Position → List Bracket → Bytes → Bytes → Prop
  | _, [], s, rest => s = rest
  | position, b :: stack, s, rest =>
    ∃ s', Closes b position s s' ∧ Unwinds .ended stack s' rest

/-- Behind a value that has been entered its bracket is closed before those around it. -/
theorem Unwinds.of_enterValue {stack stack' : List Bracket} {position : Position}
    {s s' rest : Bytes} (h : enterValue stack s = .ok (position, stack', s'))
    (hunwinds : Unwinds position stack' s' rest) :
    ∃ s₁, Value s s₁ ∧ Unwinds .ended stack s₁ rest := by
  rcases Json.of_enterValue h with ⟨b, rfl, rfl, hopens⟩ | ⟨rfl, rfl, hvalue⟩
  · obtain ⟨s₁, hcloses, hunwinds⟩ := hunwinds
    exact ⟨s₁, hcloses.value hopens, hunwinds⟩
  · exact ⟨s', hvalue, hunwinds⟩

theorem Unwinds.of_enterElement {b : Bracket} {stack stack' : List Bracket}
    {position : Position} {s s' rest : Bytes}
    (h : enterElement b stack s = .ok (position, stack', s'))
    (hunwinds : Unwinds position stack' s' rest) :
    ∃ s₁ s₂, Derives (.elements b) s s₁ ∧ Mark b.closing s₁ s₂ ∧ Unwinds .ended stack s₂ rest := by
  obtain ⟨s₀, hlabel, h⟩ := bind_eq_ok_iff.mp h
  obtain ⟨s₁, hvalue, s₂, hcloses, hunwinds⟩ := Unwinds.of_enterValue h hunwinds
  obtain ⟨s₃, helements, hmark⟩ := hcloses.elements (skipToValue_eq_ok_iff.mp hlabel) hvalue
  exact ⟨s₃, s₂, helements, hmark, hunwinds⟩

/-- Blanks in front of a value belong to it. -/
theorem Value.of_skipBlanks {s rest : Bytes} (h : Value (skipBlanks s) rest) : Value s rest := by
  cases h with
  | scalar blanks scalar => exact .scalar blanks.of_skipBlanks scalar
  | empty opens closes => exact .empty (Blanks.of_skipBlanks opens) closes
  | group opens elements closes => exact .group (Blanks.of_skipBlanks opens) elements closes

theorem elements_of_skipBlanks {b : Bracket} {s rest : Bytes}
    (h : Derives (.elements b) (skipBlanks s) rest) : Derives (.elements b) s rest := by
  have labelled : ∀ {s₁ s₂ : Bytes}, Label b (skipBlanks s) s₁ → Value s₁ s₂ →
      ∃ s₁, Label b s s₁ ∧ Value s₁ s₂ := by
    intro s₁ s₂ hlabel hvalue
    cases b with
    | list =>
        cases hlabel
        exact ⟨s, rfl, hvalue.of_skipBlanks⟩
    | object =>
        obtain ⟨k₁, k₂, hquote, hescaped, hcolon⟩ := hlabel
        exact ⟨s₁, ⟨k₁, k₂, Blanks.of_skipBlanks hquote, hescaped, hcolon⟩, hvalue⟩
  cases h with
  | last label value =>
      obtain ⟨s₁, hlabel, hvalue⟩ := labelled label value
      exact .last hlabel hvalue
  | more label value separates others =>
      obtain ⟨s₁, hlabel, hvalue⟩ := labelled label value
      exact .more hlabel hvalue separates others

theorem unwinds_of_skipFrom {fuel : Bytes} {position : Position} {stack : List Bracket}
    {s rest : Bytes} (h : skipFrom fuel position stack s = .ok rest) :
    Unwinds position stack s rest := by
  induction fuel generalizing position stack s with
  | nil => cases h
  | cons f fuel ih =>
      cases stack with
      | nil =>
          cases h
          rfl
      | cons bracket stack =>
          rw [skipFrom] at h
          split at h
          · cases h
          · next b r hs =>
              split at h
              · next hclosing =>
                  subst hclosing
                  exact ⟨r, .close (mark_of_skipBlanks hs), ih h⟩
              · split at h
                · obtain ⟨⟨position, stack', s'⟩, henter, h⟩ := bind_eq_ok_iff.mp h
                  rw [← hs] at henter
                  obtain ⟨s₁, s₂, helements, hcloses, hunwinds⟩ :=
                    Unwinds.of_enterElement henter (ih h)
                  exact ⟨s₂, .first (elements_of_skipBlanks helements) hcloses, hunwinds⟩
                · split at h
                  · next hcomma =>
                      subst hcomma
                      obtain ⟨⟨position, stack', s'⟩, henter, h⟩ := bind_eq_ok_iff.mp h
                      obtain ⟨s₁, s₂, helements, hcloses, hunwinds⟩ :=
                        Unwinds.of_enterElement henter (ih h)
                      exact ⟨s₂, .next (mark_of_skipBlanks hs) helements hcloses, hunwinds⟩
                  · cases h

theorem value_of_skipValue {s rest : Bytes} (h : skipValue s = .ok rest) : Value s rest := by
  obtain ⟨⟨position, stack, s'⟩, henter, h⟩ := bind_eq_ok_iff.mp h
  obtain ⟨s₁, hvalue, rfl⟩ := Unwinds.of_enterValue henter (unwinds_of_skipFrom h)
  exact hvalue

/-! Every value is passed over. -/

/-- The head of a value or of the elements of a bracket closes no bracket. -/
theorem Value.cons {s rest : Bytes} (h : Value s rest) :
    ∃ b r, skipBlanks s = b :: r ∧ ∀ bracket : Bracket, b ≠ bracket.closing := by
  have opening : ∀ {b : Bracket} {r : Bytes}, Mark b.opening s r →
      ∃ b r, skipBlanks s = b :: r ∧ ∀ bracket : Bracket, b ≠ bracket.closing := by
    intro b r hopens
    exact ⟨b.opening, r, skipBlanks_of_mark (isBlank_opening b) hopens,
      fun bracket => by cases b <;> cases bracket <;> decide⟩
  cases h with
  | scalar blanks scalar =>
      obtain ⟨b, r, rfl, hblank, -, hclosing⟩ := scalar.cons
      exact ⟨b, r, skipBlanks_of_mark hblank blanks, hclosing⟩
  | empty opens _ => exact opening opens
  | group opens _ _ => exact opening opens

theorem elements_cons {b : Bracket} {s rest : Bytes} (h : Derives (.elements b) s rest) :
    ∃ c r, skipBlanks s = c :: r ∧ c ≠ b.closing := by
  have labelled : ∀ {s₁ s₂ : Bytes}, Label b s s₁ → Value s₁ s₂ →
      ∃ c r, skipBlanks s = c :: r ∧ c ≠ b.closing := by
    intro s₁ s₂ hlabel hvalue
    cases b with
    | list =>
        cases hlabel
        obtain ⟨c, r, hs, hclosing⟩ := hvalue.cons
        exact ⟨c, r, hs, hclosing .list⟩
    | object =>
        obtain ⟨k₁, k₂, hquote, -, -⟩ := hlabel
        exact ⟨quote, k₁, skipBlanks_of_mark (by decide) hquote, by decide⟩
  cases h with
  | last label value => exact labelled label value
  | more label value _ _ => exact labelled label value

theorem Derives.length_lt {phrase : Phrase} {s rest : Bytes} (h : Derives phrase s rest) :
    rest.length < s.length := by
  induction h with
  | scalar blanks scalar => exact Nat.lt_of_lt_of_le scalar.length_lt blanks.length_le
  | empty opens closes => exact Nat.lt_trans closes.length_lt opens.length_lt
  | group opens _ closes ih =>
      exact Nat.lt_trans closes.length_lt (Nat.lt_trans ih opens.length_lt)
  | last label _ ih => exact Nat.lt_of_lt_of_le ih label.length_le
  | more label _ separates _ ih ih' =>
      have := label.length_le
      have := separates.length_lt
      omega

/-- The reader comes to the rest with any fuel that is longer than the text. -/
def Finishes (position : Position) (stack : List Bracket) (s rest : Bytes) : Prop :=
  ∀ fuel : Bytes, s.length < fuel.length → skipFrom fuel position stack s = .ok rest

theorem finishes_nil (rest : Bytes) (position : Position) : Finishes position [] rest rest := by
  intro fuel hfuel
  cases fuel with
  | nil => cases hfuel
  | cons f fuel => rfl

/-- A step of the reader, out of the fuel that it needs. -/
theorem finishes_of_step {position : Position} {b : Bracket} {stack : List Bracket}
    {s rest : Bytes} (h : ∀ f fuel, s.length ≤ fuel.length →
      skipFrom (f :: fuel) position (b :: stack) s = .ok rest) :
    Finishes position (b :: stack) s rest := by
  intro fuel hfuel
  cases fuel with
  | nil => cases hfuel
  | cons f fuel => exact h f fuel (Nat.le_of_lt_succ hfuel)

theorem Finishes.close {position : Position} {b : Bracket} {stack : List Bracket}
    {s s' rest : Bytes} (closes : Mark b.closing s s') (h : Finishes .ended stack s' rest) :
    Finishes position (b :: stack) s rest := by
  apply finishes_of_step
  intro f fuel hfuel
  have hs := skipBlanks_of_mark (isBlank_closing b) closes
  simp only [skipFrom, hs, if_true]
  exact h fuel (Nat.lt_of_lt_of_le closes.length_lt hfuel)

/-- The reader gets into a value or an element and from there to the rest. -/
def Enters (enter : Bytes → Except Fault (Position × List Bracket × Bytes)) (s rest : Bytes) :
    Prop :=
  ∃ position stack s', enter s = .ok (position, stack, s') ∧ s'.length < s.length ∧
    Finishes position stack s' rest

theorem enterElement_skipBlanks (b : Bracket) (stack : List Bracket) (s : Bytes) :
    enterElement b stack (skipBlanks s) = enterElement b stack s := by
  cases b with
  | list =>
      show enterValue _ (skipBlanks s) = enterValue _ s
      rw [enterValue, skipBlanks_idem, enterValue]
  | object =>
      show (skipKey (skipBlanks s) >>= _) = (skipKey s >>= _)
      rw [skipKey, skipBlanks_idem, skipKey]

theorem Finishes.first {b : Bracket} {stack : List Bracket} {s s' rest : Bytes}
    (elements : Derives (.elements b) s s') (h : Enters (enterElement b stack) s rest) :
    Finishes .opened (b :: stack) s rest := by
  obtain ⟨position, stack', s₁, henter, hlength, hfinishes⟩ := h
  obtain ⟨c, r, hs, hclosing⟩ := elements_cons elements
  apply finishes_of_step
  intro f fuel hfuel
  have henter' : enterElement b stack (c :: r) = .ok (position, stack', s₁) := by
    rw [← hs, enterElement_skipBlanks, henter]
  simp only [skipFrom, hs, if_neg hclosing, henter', ok_bind]
  exact hfinishes fuel (Nat.lt_of_lt_of_le hlength hfuel)

theorem Finishes.next {b : Bracket} {stack : List Bracket} {s s' rest : Bytes}
    (separates : Mark comma s s') (h : Enters (enterElement b stack) s' rest) :
    Finishes .ended (b :: stack) s rest := by
  obtain ⟨position, stack', s₁, henter, hlength, hfinishes⟩ := h
  have hs := skipBlanks_of_mark (by decide) separates
  have hclosing : comma ≠ b.closing := by cases b <;> decide
  have hshorter := separates.length_lt
  apply finishes_of_step
  intro f fuel hfuel
  simp only [skipFrom, hs, if_neg hclosing, if_true, henter, ok_bind]
  exact hfinishes fuel (by omega)

/-- What a phrase makes possible when the rest of it can be finished. -/
def Entered : Phrase → Bytes → Bytes → Prop
  | .value, s, s' => LiteralEnds s' → ∀ stack rest, Finishes .ended stack s' rest →
    Enters (enterValue stack) s rest
  | .elements b, s, s' => LiteralEnds s' → ∀ stack rest, Finishes .ended (b :: stack) s' rest →
    Enters (enterElement b stack) s rest

theorem enterValue_of_scalar {stack : List Bracket} {s s₁ rest : Bytes} (blanks : Blanks s s₁)
    (scalar : Scalar s₁ rest) (hrest : LiteralEnds rest) :
    enterValue stack s = .ok (.ended, stack, rest) := by
  have hskip := skipScalar_of_scalar scalar hrest
  obtain ⟨b, r, rfl, hblank, hbracket, -⟩ := scalar.cons
  have hs : skipBlanks s = b :: r := skipBlanks_of_mark hblank blanks
  simp only [enterValue, hs, hbracket, hskip]
  rfl

theorem enterValue_of_opening {b : Bracket} {stack : List Bracket} {s s₁ : Bytes}
    (opens : Mark b.opening s s₁) :
    enterValue stack s = .ok (.opened, b :: stack, s₁) := by
  have hs := skipBlanks_of_mark (isBlank_opening b) opens
  simp only [enterValue, hs, bracketOf?_eq_some_iff.mpr rfl]

theorem enters_of_label {b : Bracket} {stack : List Bracket} {s s₁ rest : Bytes}
    (label : Label b s s₁) (h : Enters (enterValue (b :: stack)) s₁ rest) :
    Enters (enterElement b stack) s rest := by
  obtain ⟨position, stack', s', henter, hlength, hfinishes⟩ := h
  refine ⟨position, stack', s', ?_, Nat.lt_of_lt_of_le hlength label.length_le, hfinishes⟩
  rw [enterElement, skipToValue_eq_ok_iff.mpr label]
  exact henter

theorem entered {phrase : Phrase} {s s' : Bytes} (h : Derives phrase s s') :
    Entered phrase s s' := by
  induction h with
  | scalar blanks scalar =>
      intro hrest stack rest hfinishes
      exact ⟨.ended, stack, _, enterValue_of_scalar blanks scalar hrest,
        (Derives.scalar blanks scalar).length_lt, hfinishes⟩
  | empty opens closes =>
      intro _ stack rest hfinishes
      exact ⟨.opened, _, _, enterValue_of_opening opens, opens.length_lt,
        hfinishes.close closes⟩
  | group opens elements closes ih =>
      intro _ stack rest hfinishes
      have helements := ih (literalEnds_closing closes) stack rest (hfinishes.close closes)
      exact ⟨.opened, _, _, enterValue_of_opening opens, opens.length_lt,
        .first elements helements⟩
  | last label _ ih =>
      intro hrest stack rest hfinishes
      exact enters_of_label label (ih hrest _ rest hfinishes)
  | more label _ separates _ ih ih' =>
      intro hrest stack rest hfinishes
      have hothers := ih' hrest stack rest hfinishes
      exact enters_of_label label (ih (literalEnds_comma separates) _ rest
        (.next separates hothers))

theorem skipValue_of_value {s rest : Bytes} (h : Value s rest) (hrest : LiteralEnds rest) :
    skipValue s = .ok rest := by
  obtain ⟨position, stack, s', henter, hlength, hfinishes⟩ :=
    entered h hrest [] rest (finishes_nil rest .ended)
  rw [skipValue, henter]
  exact hfinishes s hlength

end DiceRooms.Json
