import DiceRooms.Proofs.Json.Skipping
import DiceRooms.Proofs.Wire.Written

/-!
The language of messages, apart from any reader. A record is written as an object that holds
every field once, in any order and among members of any other kind, or as the list of its
fields; blanks may stand between any two tokens.
-/
namespace DiceRooms.Wire

open Ascii Json

/-- A piece of a document, from the text that begins with it to the text behind it. -/
abbrev Piece := Bytes → Bytes → Prop

/-- What stands in front of a piece that is one of several. -/
def Comma (first : Bool) (s rest : Bytes) : Prop :=
  match first with
  | true => s = rest
  | false => Mark comma s rest

/-- Pieces one after another, with a comma in front of each but the first. -/
def Separated : Bool → List Piece → Piece
  | _, [] => fun s rest => s = rest
  | first, p :: ps => fun s rest =>
    ∃ s₁ s₂, Comma first s s₁ ∧ p s₁ s₂ ∧ Separated false ps s₂ rest

def Enclosed (b : Bracket) (ps : List Piece) : Piece := fun s rest =>
  ∃ s₁ s₂, Mark b.opening s s₁ ∧ Separated true ps s₁ s₂ ∧ Mark b.closing s₂ rest

/-- A member of an object, with the place of its value in the document. -/
structure Member where
  key : String
  start : Bytes
  rest : Bytes

def Member.piece (m : Member) : Piece := fun s rest =>
  ∃ s₁, Text m.key s s₁ ∧ Mark colon s₁ m.start ∧ m.rest = rest

/-- A field of a record with what its value has to be. -/
structure Field where
  name : String
  piece : Piece

/-- The members hold every field exactly once. What the others hold is any value. -/
structure Lists (fields : List Field) (ms : List Member) : Prop where
  declared : ∀ f ∈ fields, ∃ m, ms.filter (·.key = f.name) = [m] ∧ f.piece m.start m.rest
  others : ∀ m ∈ ms, (∀ f ∈ fields, m.key ≠ f.name) → Value m.start m.rest

def RecordOf (fields : List Field) : Piece := fun s rest =>
  (∃ ms, Enclosed .object (ms.map Member.piece) s rest ∧ Lists fields ms) ∨
    Enclosed .list (fields.map Field.piece) s rest

def Time (t : Instant) : Piece := fun s rest =>
  ∃ text, Text text s rest ∧ Rfc3339.read (utf8 text) = .ok t

def DieOf (d : Die) : Piece :=
  RecordOf [⟨"ID", Text d.id⟩, ⟨"Type", Text d.type.id⟩, ⟨"Side", Natural d.side⟩]

def RollOf (r : Roll) : Piece :=
  RecordOf
    [⟨"ID", Text r.id⟩,
     ⟨"Serial", Natural r.serial⟩,
     ⟨"CreatedAt", Time r.createdAt⟩,
     ⟨"RoomID", Text r.room⟩,
     ⟨"UserID", Text r.user⟩,
     ⟨"Dice", Enclosed .list (r.dice.map DieOf)⟩]

/-- The document denotes the roll. -/
def Denotes (p : Bytes) (r : Roll) : Prop :=
  ∃ rest, RecordOf [⟨"DiceRoll", RollOf r⟩] p rest ∧ Blanks rest []

/-! Readers of pieces. -/

/-- The text begins with something else than the end of a list. -/
def Starts (s : Bytes) : Prop :=
  ∃ b r, skipBlanks s = b :: r ∧ b ≠ closeBracket

/-- The reader reads exactly the pieces that denote its results, if they end where it comes
to its end. -/
structure Accepts {α : Type} (read : Bytes → Except Fault (α × Bytes)) (Of : α → Piece) :
    Prop where
  blanks : ∀ s, read (skipBlanks s) = read s
  sound : ∀ {s a rest}, read s = .ok (a, rest) → Of a s rest
  complete : ∀ {s a rest}, Of a s rest → LiteralEnds rest → read s = .ok (a, rest)
  starts : ∀ {s a rest}, Of a s rest → Starts s
  shorter : ∀ {s a rest}, Of a s rest → rest.length < s.length

theorem grammar_eq_ok_iff {α : Type} {x : Except Json.Fault α} {a : α} :
    grammar x = .ok a ↔ x = .ok a := by
  cases x with
  | error e => exact ⟨nofun, nofun⟩
  | ok a' => exact ⟨fun h => congrArg Except.ok (Except.ok.inj h), fun h => by cases h; rfl⟩

theorem refuse_ne_ok {α : Type} (wanted : Wanted) (s : Bytes) (a : α) :
    refuse wanted s ≠ .ok a := by
  rw [refuse]
  split <;> exact nofun

theorem text_length {t : String} {s rest : Bytes} (h : Text t s rest) :
    rest.length < s.length := by
  obtain ⟨s₁, hquote, hoctets⟩ := h
  exact Nat.lt_trans hoctets.escaped.length_lt hquote.length_lt

theorem starts_of_mark {c : UInt8} {s rest : Bytes} (hc : isBlank c = false ∧ c ≠ closeBracket)
    (h : Mark c s rest) : Starts s :=
  ⟨c, rest, skipBlanks_of_mark hc.1 h, hc.2⟩

theorem accepts_string : Accepts readString Text where
  blanks s := by rw [readString, skipBlanks_idem, readString]
  sound {s t rest} h := by
    rw [readString] at h
    split at h
    · cases h
    · next b r hs =>
        split at h
        · next hquote =>
            subst hquote
            exact ⟨r, mark_of_skipBlanks hs, readText_eq_ok_iff.mp (grammar_eq_ok_iff.mp h)⟩
        · exact (refuse_ne_ok _ _ _ h).elim
  complete {s t rest} h _ := by
    obtain ⟨r, hquote, hoctets⟩ := h
    have hs := skipBlanks_of_mark (by decide) hquote
    simp only [readString, hs, if_true, readText_eq_ok_iff.mpr hoctets]
    rfl
  starts h := by
    obtain ⟨r, hquote, -⟩ := h
    exact starts_of_mark (by decide) hquote
  shorter := text_length

theorem decimal_cons (n : Nat) : ∃ b ds, decimal n = b :: ds ∧ isDigit b = true := by
  obtain ⟨b, ds, heq⟩ := List.exists_cons_of_ne_nil (decimal_ne_nil n)
  exact ⟨b, ds, heq, isDigit_decimal n (heq ▸ List.mem_cons_self)⟩

theorem accepts_natural : Accepts readNatural Natural where
  blanks s := by rw [readNatural, skipBlanks_idem, readNatural]
  sound {s n rest} h := by
    rw [readNatural] at h
    split at h
    · cases h
    · next b r hs =>
        split at h
        · split at h
          · next n' rest' hnumber =>
              cases h
              rw [Natural, ← decimal_of_readNumber hnumber, ← hs]
              exact blanks_skipBlanks s
          · cases h
          · cases h
          · cases h
        · exact (refuse_ne_ok _ _ _ h).elim
  complete {s n rest} h hrest := by
    have hread := readNumber_decimal n.toNat_lt hrest
    obtain ⟨b, ds, heq, hb⟩ := decimal_cons n.toNat
    rw [Natural, heq] at h
    have hs : skipBlanks s = b :: (ds ++ rest) := skipBlanks_of_mark (blank_not_digit hb) h
    rw [heq, List.cons_append] at hread
    simp only [readNatural, hs, hb, or_true, if_true, hread, UInt64.ofNat_toNat]
  starts {s n rest} h := by
    obtain ⟨b, ds, heq, hb⟩ := decimal_cons n.toNat
    rw [Natural, heq] at h
    exact starts_of_mark ⟨blank_not_digit hb, by rintro rfl; cases hb⟩ h
  shorter {s n rest} h := by
    obtain ⟨b, ds, heq, -⟩ := decimal_cons n.toNat
    rw [Natural, heq] at h
    have := h.length_le
    simp only [List.length_append, List.length_cons] at this
    omega

theorem accepts_time : Accepts readTime Time where
  blanks s := by rw [readTime, accepts_string.blanks, readTime]
  sound {s t rest} h := by
    obtain ⟨⟨text, s'⟩, htext, h⟩ := bind_eq_ok_iff.mp h
    dsimp only at h
    split at h
    · next t' ht =>
        cases h
        exact ⟨text, accepts_string.sound htext, ht⟩
    · cases h
  complete {s t rest} h hrest := by
    obtain ⟨text, htext, ht⟩ := h
    simp only [readTime, accepts_string.complete htext hrest, ok_bind, ht]
  starts h := by
    obtain ⟨text, htext, -⟩ := h
    exact accepts_string.starts htext
  shorter h := by
    obtain ⟨text, htext, -⟩ := h
    exact text_length htext

end DiceRooms.Wire
