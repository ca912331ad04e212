import DiceRooms.Proofs.Wire.Language
import Mathlib.Logic.Relation

/-!
Pieces of a document do not look at what stands behind them. A piece takes some octets from
the front, and the same octets in front of anything else are the same piece.
-/
namespace DiceRooms.Wire

open Ascii Json Relation

/-- The octets are the piece, whatever stands behind them. -/
def Spans (p : Piece) (s : Bytes) : Prop := ∀ rest, p (s ++ rest) rest

def Local (p : Piece) : Prop :=
  ∀ s rest, p s rest → ∃ a, s = a ++ rest ∧ Spans p a

theorem Spans.comp {p q : Piece} {a b : Bytes} (hp : Spans p a) (hq : Spans q b) :
    Spans (Comp p q) (a ++ b) := fun rest => by
  rw [List.append_assoc]
  exact ⟨b ++ rest, hp (b ++ rest), hq rest⟩

theorem Local.comp {p q : Piece} (hp : Local p) (hq : Local q) : Local (Comp p q) := by
  rintro s rest ⟨s₁, hs, hs₁⟩
  obtain ⟨a, rfl, ha⟩ := hp s s₁ hs
  obtain ⟨b, rfl, hb⟩ := hq s₁ rest hs₁
  exact ⟨a ++ b, (List.append_assoc a b rest).symm, ha.comp hb⟩

theorem local_eq : Local fun s rest => s = rest := by
  rintro s rest rfl
  exact ⟨[], rfl, fun _ => rfl⟩

theorem local_blanks : Local Blanks := by
  rintro s rest ⟨bs, hbs, rfl⟩
  exact ⟨bs, rfl, fun rest => ⟨bs, hbs, rfl⟩⟩

theorem local_literal (literal : Bytes) : Local fun s rest => s = literal ++ rest := by
  rintro s rest rfl
  exact ⟨literal, rfl, fun _ => rfl⟩

theorem blanks_eq_comp (literal : Bytes) :
    (fun s rest => Blanks s (literal ++ rest)) =
      Comp Blanks fun s rest => s = literal ++ rest := by
  funext s rest
  exact propext ⟨fun h => ⟨_, h, rfl⟩, fun ⟨_, h, heq⟩ => heq ▸ h⟩

theorem local_mark (c : UInt8) : Local (Mark c) := by
  have h : Mark c = fun s rest => Blanks s ([c] ++ rest) := rfl
  rw [h, blanks_eq_comp]
  exact local_blanks.comp (local_literal [c])

theorem local_natural (n : UInt64) : Local (Natural n) := by
  have h : Natural n = fun s rest => Blanks s (decimal n.toNat ++ rest) := rfl
  rw [h, blanks_eq_comp]
  exact local_blanks.comp (local_literal _)

theorem local_comma (first : Bool) : Local (Comma first) := by
  cases first with
  | true => exact local_eq
  | false => exact local_mark comma

/-! Strings. -/

theorem local_octets (t : Bytes) : Local (Octets t) := by
  intro s rest h
  induction h with
  | close rest => exact ⟨[quote], rfl, fun rest => .close rest⟩
  | plain quoted printable escaped more ih =>
      obtain ⟨a, rfl, ha⟩ := ih
      exact ⟨_ :: a, rfl, fun rest => .plain quoted printable escaped (ha rest)⟩
  | short letter more ih =>
      obtain ⟨a, rfl, ha⟩ := ih
      exact ⟨_ :: _ :: a, rfl, fun rest => .short letter (ha rest)⟩
  | unit digits first second more ih =>
      obtain ⟨a, rfl, ha⟩ := ih
      exact ⟨_ :: _ :: _ :: _ :: _ :: _ :: a, rfl, fun rest => .unit digits first second (ha rest)⟩
  | pair digits first digits' second more ih =>
      obtain ⟨a, rfl, ha⟩ := ih
      exact ⟨_ :: _ :: _ :: _ :: _ :: _ :: _ :: _ :: _ :: _ :: _ :: _ :: a, rfl,
        fun rest => .pair digits first digits' second (ha rest)⟩

theorem local_escaped : Local Escaped := by
  intro s rest h
  induction h with
  | close rest => exact ⟨[quote], rfl, fun rest => .close rest⟩
  | plain quoted printable escaped more ih =>
      obtain ⟨a, rfl, ha⟩ := ih
      exact ⟨_ :: a, rfl, fun rest => .plain quoted printable escaped (ha rest)⟩
  | short letter more ih =>
      obtain ⟨a, rfl, ha⟩ := ih
      exact ⟨_ :: _ :: a, rfl, fun rest => .short letter (ha rest)⟩
  | unit digits more ih =>
      obtain ⟨a, rfl, ha⟩ := ih
      exact ⟨_ :: _ :: _ :: _ :: _ :: _ :: a, rfl, fun rest => .unit digits (ha rest)⟩

theorem text_eq_comp (t : String) : Text t = Comp (Mark quote) (Octets (utf8 t)) := rfl

theorem local_text (t : String) : Local (Text t) := by
  rw [text_eq_comp]
  exact (local_mark quote).comp (local_octets (utf8 t))

theorem local_time (t : Instant) : Local (Time t) := by
  rintro s rest ⟨text, htext, hread⟩
  obtain ⟨a, rfl, ha⟩ := local_text text s rest htext
  exact ⟨a, rfl, fun rest => ⟨text, ha rest, hread⟩⟩

/-! Values of any depth. -/

theorem local_scalar : Local Scalar := by
  intro s rest h
  cases h with
  | nullWord => exact ⟨0x6e :: wordNull, rfl, fun rest => .nullWord rest⟩
  | trueWord => exact ⟨0x74 :: wordTrue, rfl, fun rest => .trueWord rest⟩
  | falseWord => exact ⟨0x66 :: wordFalse, rfl, fun rest => .falseWord rest⟩
  | text escaped =>
      obtain ⟨a, rfl, ha⟩ := local_escaped _ _ escaped
      exact ⟨quote :: a, rfl, fun rest => .text (ha rest)⟩
  | number number => exact ⟨_, rfl, fun rest => .number number rest⟩

theorem local_label (b : Bracket) : Local (Label b) := by
  cases b with
  | list => exact local_eq
  | object =>
      rintro s rest ⟨s₁, s₂, hquote, hescaped, hcolon⟩
      obtain ⟨a, ha, hspans⟩ := ((local_mark quote).comp (local_escaped.comp (local_mark colon)))
        s rest ⟨s₁, hquote, s₂, hescaped, hcolon⟩
      refine ⟨a, ha, fun rest => ?_⟩
      obtain ⟨s₁, hquote, s₂, hescaped, hcolon⟩ := hspans rest
      exact ⟨s₁, s₂, hquote, hescaped, hcolon⟩

theorem local_derives (phrase : Phrase) : Local (Derives phrase) := by
  intro s rest h
  induction h with
  | scalar blanks scalar =>
      obtain ⟨b, rfl, hb⟩ := local_scalar _ _ scalar
      obtain ⟨a, rfl, ha⟩ := local_blanks _ _ blanks
      refine ⟨a ++ b, (List.append_assoc _ _ _).symm, fun rest => ?_⟩
      obtain ⟨_, ha, hb⟩ := (ha.comp hb) rest
      exact .scalar ha hb
  | empty opens closes =>
      obtain ⟨b, rfl, hb⟩ := local_mark _ _ _ closes
      obtain ⟨a, rfl, ha⟩ := local_mark _ _ _ opens
      refine ⟨a ++ b, (List.append_assoc _ _ _).symm, fun rest => ?_⟩
      obtain ⟨_, ha, hb⟩ := (ha.comp hb) rest
      exact .empty ha hb
  | group opens elements closes ih =>
      obtain ⟨c, rfl, hc⟩ := local_mark _ _ _ closes
      obtain ⟨b, rfl, hb⟩ := ih
      obtain ⟨a, rfl, ha⟩ := local_mark _ _ _ opens
      refine ⟨a ++ (b ++ c), by simp only [List.append_assoc], fun rest => ?_⟩
      obtain ⟨_, ha, _, hb, hc⟩ := (ha.comp (Spans.comp hb hc)) rest
      exact .group ha hb hc
  | last label value ih =>
      obtain ⟨b, rfl, hb⟩ := ih
      obtain ⟨a, rfl, ha⟩ := local_label _ _ _ label
      refine ⟨a ++ b, (List.append_assoc _ _ _).symm, fun rest => ?_⟩
      obtain ⟨_, ha, hb⟩ := (ha.comp hb) rest
      exact .last ha hb
  | more label value separates others ihvalue ihothers =>
      obtain ⟨d, rfl, hd⟩ := ihothers
      obtain ⟨c, rfl, hc⟩ := local_mark _ _ _ separates
      obtain ⟨b, rfl, hb⟩ := ihvalue
      obtain ⟨a, rfl, ha⟩ := local_label _ _ _ label
      refine ⟨a ++ (b ++ (c ++ d)), by simp only [List.append_assoc], fun rest => ?_⟩
      obtain ⟨_, ha, _, hb, _, hc, hd⟩ := (ha.comp (Spans.comp hb (hc.comp hd))) rest
      exact .more ha hb hc hd

theorem local_value : Local Value := local_derives .value

end DiceRooms.Wire
