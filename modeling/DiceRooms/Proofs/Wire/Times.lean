import DiceRooms.Proofs.Time.Stamp
import DiceRooms.Proofs.Wire.Gaps
import DiceRooms.Proofs.Wire.UnknownTypes

/-!
The times of messages. Where the time of a roll stands in a document any stamp can be put,
in any spelling and with any zone, and the document is decoded to the same roll with the
instant that the stamp tells; so two documents that differ in nothing else are decoded alike
exactly if their stamps tell the same instant.
-/
namespace DiceRooms.Wire

open Ascii Json Rfc3339

/-! Documents with something else for the time. -/

/-- The roll with a piece of any kind where its time stands. -/
def RollAround (r : Roll) (time : Piece) : Piece :=
  RecordOf
    [⟨"ID", Text r.id⟩,
     ⟨"Serial", Natural r.serial⟩,
     ⟨"CreatedAt", time⟩,
     ⟨"RoomID", Text r.room⟩,
     ⟨"UserID", Text r.user⟩,
     ⟨"Dice", Enclosed .list (r.dice.map DieOf)⟩]

def Around (r : Roll) (time : Piece) (p : Bytes) : Prop :=
  ∃ rest, RecordOf [⟨"DiceRoll", RollAround r time⟩] p rest ∧ Blanks rest []

/-- A string that holds the stamp. -/
def Stamped (x : Stamp) : Piece := fun s rest => ∃ text, utf8 text = x.bytes ∧ Text text s rest

/-- The document is that of the roll but for its time, and there it has the stamp. -/
def Timed (r : Roll) (x : Stamp) (p : Bytes) : Prop := Around r (Stamped x) p

/-- The stamp in one of its spellings as a string, quotes included. -/
def StampSpelled (token : Bytes) (x : Stamp) : Prop :=
  ∃ text, utf8 text = x.bytes ∧ Spelled token text

/-! One field with several values to choose from. -/

theorem separated_exists {α : Type} {P : α → Piece} (before after : List Piece) {first : Bool}
    {s rest : Bytes} :
    Separated first (before ++ (fun s rest => ∃ a, P a s rest) :: after) s rest ↔
      ∃ a, Separated first (before ++ P a :: after) s rest := by
  induction before generalizing first s with
  | nil =>
      constructor
      · rintro ⟨s₁, s₂, hcomma, ⟨a, ha⟩, hothers⟩
        exact ⟨a, s₁, s₂, hcomma, ha, hothers⟩
      · rintro ⟨a, s₁, s₂, hcomma, ha, hothers⟩
        exact ⟨s₁, s₂, hcomma, ⟨a, ha⟩, hothers⟩
  | cons p before ih =>
      constructor
      · rintro ⟨s₁, s₂, hcomma, hp, hothers⟩
        obtain ⟨a, ha⟩ := ih.mp hothers
        exact ⟨a, s₁, s₂, hcomma, hp, ha⟩
      · rintro ⟨a, s₁, s₂, hcomma, hp, hothers⟩
        exact ⟨s₁, s₂, hcomma, hp, ih.mpr ⟨a, hothers⟩⟩

theorem Lists.exchange {before after : List Field} {name : String} {p q : Piece}
    {ms : List Member} (h : Lists (before ++ ⟨name, p⟩ :: after) ms)
    (hq : ∃ m, ms.filter (·.key = name) = [m] ∧ q m.start m.rest) :
    Lists (before ++ ⟨name, q⟩ :: after) ms where
  declared f hf := by
    rcases mem_middle_iff.mp hf with rfl | hf
    · exact hq
    · exact h.declared f (mem_middle_iff.mpr (.inr hf))
  others m hm hother := by
    refine h.others m hm fun f hf => ?_
    rcases mem_middle_iff.mp hf with rfl | hf
    · exact hother ⟨name, q⟩ (mem_middle_iff.mpr (.inl rfl))
    · exact hother f (mem_middle_iff.mpr (.inr hf))

/-- What is left open for a field of a record can be settled for all of the record. -/
theorem recordOf_exists {α : Type} {P : α → Piece} (before after : List Field) (name : String)
    {s rest : Bytes} :
    RecordOf (before ++ ⟨name, fun s rest => ∃ a, P a s rest⟩ :: after) s rest ↔
      ∃ a, RecordOf (before ++ ⟨name, P a⟩ :: after) s rest := by
  have hmem : ∀ p : Piece, (⟨name, p⟩ : Field) ∈ before ++ ⟨name, p⟩ :: after :=
    fun p => mem_middle_iff.mpr (.inl rfl)
  constructor
  · rintro (⟨ms, henclosed, hlists⟩ | ⟨s₁, s₂, hopen, hseparated, hclose⟩)
    · obtain ⟨m, hm, a, ha⟩ := hlists.declared _ (hmem _)
      exact ⟨a, .inl ⟨ms, henclosed, hlists.exchange ⟨m, hm, ha⟩⟩⟩
    · rw [List.map_append, List.map_cons] at hseparated
      obtain ⟨a, ha⟩ := (separated_exists _ _).mp hseparated
      refine ⟨a, .inr ⟨s₁, s₂, hopen, ?_, hclose⟩⟩
      rwa [List.map_append, List.map_cons]
  · rintro ⟨a, ⟨ms, henclosed, hlists⟩ | ⟨s₁, s₂, hopen, hseparated, hclose⟩⟩
    · obtain ⟨m, hm, ha⟩ := hlists.declared _ (hmem _)
      exact .inl ⟨ms, henclosed, hlists.exchange ⟨m, hm, a, ha⟩⟩
    · rw [List.map_append, List.map_cons] at hseparated
      refine .inr ⟨s₁, s₂, hopen, ?_, hclose⟩
      rw [List.map_append, List.map_cons]
      exact (separated_exists _ _).mpr ⟨a, hseparated⟩

theorem around_exists {α : Type} {P : α → Piece} {r : Roll} {p : Bytes} :
    Around r (fun s rest => ∃ a, P a s rest) p ↔ ∃ a, Around r (P a) p := by
  have hroll : RollAround r (fun s rest => ∃ a, P a s rest) =
      fun s rest => ∃ a, RollAround r (P a) s rest := by
    funext s rest
    exact propext (recordOf_exists
      [⟨"ID", Text r.id⟩, ⟨"Serial", Natural r.serial⟩]
      [⟨"RoomID", Text r.room⟩, ⟨"UserID", Text r.user⟩,
        ⟨"Dice", Enclosed .list (r.dice.map DieOf)⟩] "CreatedAt")
  have hdocument : ∀ rest, RecordOf [⟨"DiceRoll", fun s rest => ∃ a, RollAround r (P a) s rest⟩]
      p rest ↔ ∃ a, RecordOf [⟨"DiceRoll", RollAround r (P a)⟩] p rest :=
    fun rest => recordOf_exists [] [] "DiceRoll"
  simp only [Around, hroll, hdocument]
  constructor
  · rintro ⟨rest, ⟨a, ha⟩, hblanks⟩
    exact ⟨a, rest, ha, hblanks⟩
  · rintro ⟨a, rest, ha, hblanks⟩
    exact ⟨rest, ⟨a, ha⟩, hblanks⟩

/-! Decoding. -/

theorem time_eq (t : Instant) :
    Time t = fun s rest => ∃ x : { x : Stamp // x.Tells t }, Stamped x s rest := by
  funext s rest
  refine propext ⟨?_, ?_⟩
  · rintro ⟨text, htext, hread⟩
    obtain ⟨x, hx, htells⟩ := read_eq_ok_iff.mp hread
    exact ⟨⟨x, htells⟩, text, hx.symm, htext⟩
  · rintro ⟨⟨x, htells⟩, text, hx, htext⟩
    exact ⟨text, htext, read_eq_ok_iff.mpr ⟨x, hx.symm, htells⟩⟩

theorem decode_eq_ok_iff_timed {p : Bytes} {r : Roll} :
    decode p = .ok r ↔ ∃ x, Timed r x p ∧ x.Tells r.createdAt := by
  have hdenotes : Denotes p r ↔ Around r (Time r.createdAt) p := Iff.rfl
  rw [decode_eq_ok_iff, hdenotes, time_eq, around_exists]
  constructor
  · rintro ⟨⟨x, htells⟩, hx⟩
    exact ⟨x, hx, htells⟩
  · rintro ⟨x, hx, htells⟩
    exact ⟨⟨x, htells⟩, hx⟩

theorem Timed.decode {r : Roll} {x : Stamp} {p : Bytes} (h : Timed r x p) {t : Instant}
    (ht : x.Tells t) : decode p = .ok { r with createdAt := t } :=
  decode_eq_ok_iff_timed.mpr ⟨x, h, ht⟩

/-! Spellings. -/

theorem exists_utf8_append {s s' : Bytes} (h : ∃ text, utf8 text = s)
    (h' : ∃ text, utf8 text = s') : ∃ text, utf8 text = s ++ s' := by
  obtain ⟨text, rfl⟩ := h
  obtain ⟨text', rfl⟩ := h'
  exact ⟨text ++ text', utf8_append text text'⟩

theorem exists_utf8_sign (sign : Sign) : ∃ text, utf8 text = sign.bytes := by
  cases sign with
  | plus => exact ⟨"+", rfl⟩
  | hyphen => exact ⟨"-", rfl⟩
  | minus => exact ⟨"\u2212", rfl⟩

theorem exists_utf8_zone (z : Zone) : ∃ text, utf8 text = z.bytes := by
  have hcolon : colon < 0x80 := by decide
  cases z with
  | utc small => exact exists_utf8_eq (by cases small <;> simp [Zone.bytes, letterZ])
  | offset sign hours minutes inRange =>
      rw [Zone.bytes, List.append_assoc]
      exact exists_utf8_append (exists_utf8_sign sign) (exists_utf8_eq (by simp [hcolon]))

/-- But for its zone a stamp consists of digits and a few ASCII marks. -/
theorem exists_utf8_stamp (x : Stamp) : ∃ text, utf8 text = x.bytes := by
  have marks : minus < 0x80 ∧ colon < 0x80 ∧ point < 0x80 := by decide
  have hseparator : x.separator < 0x80 := by
    have hall : ∀ b ∈ [letterT, 0x74, 0x20], b < 0x80 := by simp [letterT]
    exact hall _ x.separates
  have hfraction : IsAscii (fractionBytes x.fraction) := by
    rw [fractionBytes]
    split
    · exact isAscii_nil
    · exact isAscii_cons.mpr ⟨marks.2.2, fun b hb => isAscii_of_isDigit (x.digits b hb)⟩
  have hfront : IsAscii (dateBytes x.date ++
      x.separator :: (clockBytes x.clock ++ fractionBytes x.fraction)) := by
    simp [dateBytes, clockBytes, marks, hseparator, hfraction]
  have heq : x.bytes = (dateBytes x.date ++
      x.separator :: (clockBytes x.clock ++ fractionBytes x.fraction)) ++ x.zone.bytes := by
    simp [Stamp.bytes]
  rw [heq]
  exact exists_utf8_append (exists_utf8_eq hfront) (exists_utf8_zone x.zone)

theorem stamped_eq {x : Stamp} {text : String} (h : utf8 text = x.bytes) :
    Stamped x = Text text := by
  funext s rest
  refine propext ⟨?_, fun htext => ⟨text, h, htext⟩⟩
  rintro ⟨text', h', htext⟩
  rwa [utf8_injective (h.trans h'.symm)]

theorem exists_stampSpelled (x : Stamp) : ∃ token, StampSpelled token x := by
  obtain ⟨text, htext⟩ := exists_utf8_stamp x
  exact ⟨writeText text, text, htext, spelled_writeText text⟩

/-! The place of the time. -/

theorem Gapped.local {p : Piece} (h : Gapped 0 fun _ => p) : Local p := by
  intro s rest hs
  obtain ⟨f, tokens, -, htokens, rfl, hspans⟩ := h [] s rest rfl hs
  obtain rfl := List.forall₂_nil_right_iff.mp htokens
  exact ⟨f.fill [], rfl, hspans [] [] rfl .nil⟩

theorem local_die (d : Die) : Local (DieOf d) :=
  Gapped.local (gapped_record [⟨"ID", Text d.id⟩, ⟨"Type", Text d.type.id⟩] [] "Side" (by simp)
    (by simp [local_text]) (local_natural d.side).gapped)

theorem local_dice (dice : List Die) : Local (Enclosed .list (dice.map DieOf)) := by
  have hdice : ∀ p ∈ dice.map DieOf, Local p :=
    List.forall_mem_map.mpr fun d _ => local_die d
  rw [enclosed_eq]
  exact (local_mark _).comp ((local_separated hdice).comp (local_mark _))

theorem gapped_around (r : Roll) :
    Gapped 1 fun texts => RecordOf [⟨"DiceRoll", RollAround r (Text (texts.headD ""))⟩] :=
  gapped_record [] [] "DiceRoll" (by simp) (by simp)
    (gapped_record [⟨"ID", Text r.id⟩, ⟨"Serial", Natural r.serial⟩]
      [⟨"RoomID", Text r.room⟩, ⟨"UserID", Text r.user⟩,
        ⟨"Dice", Enclosed .list (r.dice.map DieOf)⟩] "CreatedAt" (by simp)
      (by simp [local_text, local_natural, local_dice]) gapped_text)

theorem Form.fill_single {f : Form} (h : f.gaps = 1) :
    ∃ front back, ∀ token, f.fill [token] = front ++ token ++ back := by
  induction f with
  | nil => cases h
  | cons entry f ih =>
      cases entry with
      | some s =>
          obtain ⟨front, back, hfill⟩ := ih (by simpa [gaps] using h)
          exact ⟨s ++ front, back, fun token => by simp [fill, hfill]⟩
      | none => exact ⟨[], Form.fill f [], fun token => by simp [fill]⟩

/-- Where the text of a time stands, any other text can stand in any spelling. -/
theorem exists_place {r : Roll} {text : String} {p : Bytes} (h : Around r (Text text) p) :
    ∃ front token back, p = front ++ token ++ back ∧ Spelled token text ∧
      ∀ text' token', Spelled token' text' → Around r (Text text') (front ++ token' ++ back) := by
  obtain ⟨f, tokens, hf, htokens, heq, hspans⟩ :=
    (gapped_around r).ahead local_blanks [text] p [] rfl h
  obtain ⟨token, _, htoken, hnil, rfl⟩ := List.forall₂_cons_right_iff.mp htokens
  obtain rfl := List.forall₂_nil_right_iff.mp hnil
  obtain ⟨front, back, hfill⟩ := Form.fill_single hf
  rw [List.append_nil, hfill] at heq
  refine ⟨front, token, back, heq, htoken, fun text' token' htoken' => ?_⟩
  have haround := hspans [text'] [token'] rfl (.cons htoken' .nil) []
  rwa [List.append_nil, hfill] at haround

theorem Timed.place {r : Roll} {x : Stamp} {p : Bytes} (h : Timed r x p) :
    ∃ front token back, p = front ++ token ++ back ∧ StampSpelled token x ∧
      ∀ x' token', StampSpelled token' x' → Timed r x' (front ++ token' ++ back) := by
  obtain ⟨text, htext⟩ := exists_utf8_stamp x
  rw [Timed, stamped_eq htext] at h
  obtain ⟨front, token, back, heq, htoken, hplace⟩ := exists_place h
  refine ⟨front, token, back, heq, ⟨text, htext, htoken⟩, ?_⟩
  rintro x' token' ⟨text', htext', htoken'⟩
  rw [Timed, stamped_eq htext']
  exact hplace text' token' htoken'

/-! The whole account. -/

/-- What the times of documents are to the roll that they are of. -/
structure TimesTold (r : Roll) : Prop where
  /-- With any stamp for the time a document of the roll is decoded, and the time is what the
  stamp tells. -/
  decoded : ∀ p x, Timed r x p → ∃ t, x.Tells t ∧ decode p = .ok { r with createdAt := t }
  /-- No other texts are taken for times. -/
  accepted : ∀ p, decode p = .ok r ↔ ∃ x, Timed r x p ∧ x.Tells r.createdAt
  alike : ∀ p p' x x', Timed r x p → Timed r x' p' →
    (decode p = decode p' ↔ ∃ t, x.Tells t ∧ x'.Tells t)
  /-- Documents that differ in nothing but the time: any stamp can be put in its place. -/
  replaced : ∀ p x, Timed r x p → ∃ front token back, p = front ++ token ++ back ∧
    StampSpelled token x ∧
    ∀ x' token', StampSpelled token' x' → Timed r x' (front ++ token' ++ back)
  /-- No stamp is missing. -/
  occurs : ∀ x, ∃ p, Timed r x p

theorem times_told (r : Roll) : TimesTold r where
  decoded p x h := by
    obtain ⟨t, -, ht⟩ := read_bytes x
    exact ⟨t, ht, h.decode ht⟩
  accepted _ := decode_eq_ok_iff_timed
  alike p p' x x' h h' := by
    obtain ⟨t, -, ht⟩ := read_bytes x
    obtain ⟨t', -, ht'⟩ := read_bytes x'
    rw [h.decode ht, h'.decode ht']
    constructor
    · intro heq
      have htime : t = t' := congrArg Roll.createdAt (Except.ok.inj heq)
      exact ⟨t, ht, htime ▸ ht'⟩
    · rintro ⟨u, hu, hu'⟩
      rw [ht.unique hu, ht'.unique hu']
  replaced _ _ h := h.place
  occurs x := by
    -- A document with some time: that of the roll at the beginning of 1970.
    obtain ⟨x₀, h₀, -⟩ := decode_eq_ok_iff_timed.mp
      (decode_plain (r := { r with createdAt := .epoch }) (show PlainTime .epoch by decide))
    obtain ⟨front, -, back, -, -, hplace⟩ := h₀.place
    obtain ⟨token, htoken⟩ := exists_stampSpelled x
    exact ⟨_, hplace x token htoken⟩

/-- A leap second behind UTC, with a minus sign proper and digits past the ninth. -/
example :
    decode (utf8 "[[\"e\",0,\"2016-12-31t23:29:60.12345678951\u221200:30\",\"r\",\"u\",[]]]") =
      .ok ⟨"e", 0, ⟨1483228799, 1123456789, by decide⟩, "r", "u", []⟩ := by
  rfl

end DiceRooms.Wire
