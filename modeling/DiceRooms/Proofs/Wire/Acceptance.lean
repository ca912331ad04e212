import DiceRooms.Proofs.Wire.Records
import DiceRooms.Proofs.Wire.RoundTrip

/-!
The three records of a message, each with the fields it is made of, and the decoder as a
whole: it accepts exactly the documents that denote a roll.
-/
namespace DiceRooms.Wire

open Ascii Json

/-! Members with a value that a field takes. -/

section
variable {σ β : Type} {read : Bytes → Except Fault (β × Bytes)} {Of : β → Piece}

theorem takes_of_field (h : Accepts read Of) {slots : σ → List Slot} (put : β → σ)
    (before after : List Slot) {a a' : σ} {key name : String} {old : Option β} {s rest : Bytes}
    {otherwise : Except Fault (σ × Bytes)}
    (hmember : (if key = name then readField key old read s >>= fun x => .ok (put x.1, x.2)
      else otherwise) = .ok (a', rest))
    (hold : slots a = before ++ ⟨name, old.map Of⟩ :: after)
    (hput : ∀ v, slots (put v) = before ++ ⟨name, some (Of v)⟩ :: after)
    (hother : key ≠ name → otherwise = .ok (a', rest) →
      ∃ start, Mark colon s start ∧ Takes ⟨key, start, rest⟩ (slots a) (slots a')) :
    ∃ start, Mark colon s start ∧ Takes ⟨key, start, rest⟩ (slots a) (slots a') := by
  split at hmember
  · next hkey =>
      subst hkey
      obtain ⟨⟨v, s'⟩, hread, hmember⟩ := bind_eq_ok_iff.mp hmember
      cases hmember
      obtain ⟨rfl, start, hcolon, hv⟩ := of_readField h hread
      rw [hold, hput]
      exact ⟨start, hcolon, .fill before after hv⟩
  · next hkey => exact hother hkey hmember

theorem takes_of_skip {slots : σ → List Slot} {a a' : σ} {key : String} {s rest : Bytes}
    (hmember : skipMember a s = .ok (a', rest)) (hkey : ∀ x ∈ slots a, key ≠ x.name) :
    ∃ start, Mark colon s start ∧ Takes ⟨key, start, rest⟩ (slots a) (slots a') := by
  obtain ⟨rfl, start, hcolon, hvalue⟩ := of_skipMember hmember
  exact ⟨start, hcolon, .pass hkey hvalue⟩

theorem part_of_field (h : Accepts read Of) (put : β → σ) {name : String} {keys : List String}
    {m : Member} {s : Bytes} {v : β} {a : σ} (hcolon : Mark colon s m.start)
    (hrest : LiteralEnds m.rest) (hm : name ∉ keys ∧ Of v m.start m.rest) (hput : put v = a) :
    (readField m.key (seen keys name v) read s >>= fun x => .ok (put x.1, x.2)) =
      .ok (a, m.rest) := by
  have hnone : seen keys name v = none := if_neg hm.1
  rw [hnone, readField_of h hcolon hm.2 hrest, ← hput]
  rfl

end

/-! Dice. -/

def RawDie.fields (d : RawDie) : List Field :=
  [⟨"ID", Text d.id⟩, ⟨"Type", Text d.type⟩, ⟨"Side", Natural d.side⟩]

def RawDie.part (d : RawDie) (keys : List String) : DieFields :=
  ⟨seen keys "ID" d.id, seen keys "Type" d.type, seen keys "Side" d.side⟩

def DieFields.slots (a : DieFields) : List Slot :=
  [⟨"ID", a.id.map Text⟩, ⟨"Type", a.type.map Text⟩, ⟨"Side", a.side.map Natural⟩]

theorem lawful_die : Lawful dieLayout RawDie.fields DieFields.slots RawDie.part where
  names a := by
    simp only [DieFields.slots, List.map_cons, List.map_nil]
    decide
  unread := by simp [dieLayout, DieFields.slots]
  takes {a a' key s rest} h := by
    simp only [dieLayout] at h
    refine takes_of_field accepts_string (fun v => { a with id := some v }) [] _ h rfl
      (fun _ => rfl) fun hid h => ?_
    refine takes_of_field accepts_string (fun v => { a with type := some v }) [_] _ h rfl
      (fun _ => rfl) fun htype h => ?_
    refine takes_of_field accepts_natural (fun v => { a with side := some v }) [_, _] _ h rfl
      (fun _ => rfl) fun hside h => ?_
    exact takes_of_skip h (by simp [DieFields.slots, *])
  slots_of_finish {a v} h := by
    obtain ⟨id, hid, h⟩ := bind_eq_ok_iff.mp h
    obtain ⟨type, htype, h⟩ := bind_eq_ok_iff.mp h
    obtain ⟨side, hside, h⟩ := bind_eq_ok_iff.mp h
    cases h
    simp only [DieFields.slots, required_eq_ok_iff.mp hid, required_eq_ok_iff.mp htype,
      required_eq_ok_iff.mp hside]
    rfl
  part_nil v := rfl
  member_part {v keys m s} hcolon hrest hdeclared hother := by
    simp only [RawDie.fields, List.forall_mem_cons] at hdeclared hother
    obtain ⟨hid, htype, hside, -⟩ := hdeclared
    simp only [dieLayout]
    split
    · next hkey =>
        refine part_of_field accepts_string (fun x => { v.part keys with id := some x }) hcolon
          hrest (hid hkey) ?_
        simp [RawDie.part, hkey, seen_append_self, seen_append_of_ne]
    split
    · next hkey =>
        refine part_of_field accepts_string (fun x => { v.part keys with type := some x }) hcolon
          hrest (htype hkey) ?_
        simp [RawDie.part, hkey, seen_append_self, seen_append_of_ne]
    split
    · next hkey =>
        refine part_of_field accepts_natural (fun x => { v.part keys with side := some x }) hcolon
          hrest (hside hkey) ?_
        simp [RawDie.part, hkey, seen_append_self, seen_append_of_ne]
    · rw [skipMember_of _ hcolon (hother (by simp [*])) hrest]
      simp [RawDie.part, seen_append_of_ne, *]
  finish_part {v keys} h := by
    simp only [RawDie.fields, List.forall_mem_cons] at h
    obtain ⟨hid, htype, hside, -⟩ := h
    simp only [dieLayout, RawDie.part, seen, hid, htype, hside, if_true, required, ok_bind]
  of_elements {v s rest} h := by
    obtain ⟨⟨id, s₁⟩, hid, h⟩ := bind_eq_ok_iff.mp h
    obtain ⟨⟨type, s₂⟩, htype, h⟩ := bind_eq_ok_iff.mp h
    obtain ⟨⟨side, s₃⟩, hside, h⟩ := bind_eq_ok_iff.mp h
    cases h
    obtain ⟨t₁, hcomma₁, hid⟩ := of_readElement accepts_string hid
    obtain ⟨t₂, hcomma₂, htype⟩ := of_readElement accepts_string htype
    obtain ⟨t₃, hcomma₃, hside⟩ := of_readElement accepts_natural hside
    exact ⟨t₁, s₁, hcomma₁, hid, t₂, s₂, hcomma₂, htype, t₃, _, hcomma₃, hside, rfl⟩
  elements_of {v s rest} h hrest := by
    obtain ⟨t₁, s₁, hcomma₁, hid, t₂, s₂, hcomma₂, htype, t₃, s₃, hcomma₃, hside, rfl⟩ := h
    simp only [dieLayout, ok_bind,
      readElement_of accepts_string .die 0 hcomma₁ hid (literalEnds_comma hcomma₂),
      readElement_of accepts_string .die 1 hcomma₂ htype (literalEnds_comma hcomma₃),
      readElement_of accepts_natural .die 2 hcomma₃ hside hrest]
  shorter {v} := by
    simp only [RawDie.fields, List.forall_mem_cons]
    exact ⟨text_length, text_length, accepts_natural.shorter, List.forall_mem_nil _⟩

def RawDieOf (d : RawDie) : Piece := RecordOf d.fields

theorem accepts_die : Accepts dieLayout.read RawDieOf := accepts_record lawful_die

theorem accepts_dice :
    Accepts (readList dieLayout.read) fun dice => Enclosed .list (dice.map RawDieOf) :=
  accepts_list accepts_die

/-! Rolls. -/

def RawRoll.fields (r : RawRoll) : List Field :=
  [⟨"ID", Text r.id⟩,
   ⟨"Serial", Natural r.serial⟩,
   ⟨"CreatedAt", Time r.createdAt⟩,
   ⟨"RoomID", Text r.room⟩,
   ⟨"UserID", Text r.user⟩,
   ⟨"Dice", Enclosed .list (r.dice.map RawDieOf)⟩]

def RawRoll.part (r : RawRoll) (keys : List String) : RollFields :=
  ⟨seen keys "ID" r.id, seen keys "Serial" r.serial, seen keys "CreatedAt" r.createdAt,
    seen keys "RoomID" r.room, seen keys "UserID" r.user, seen keys "Dice" r.dice⟩

def RollFields.slots (a : RollFields) : List Slot :=
  [⟨"ID", a.id.map Text⟩,
   ⟨"Serial", a.serial.map Natural⟩,
   ⟨"CreatedAt", a.createdAt.map Time⟩,
   ⟨"RoomID", a.room.map Text⟩,
   ⟨"UserID", a.user.map Text⟩,
   ⟨"Dice", a.dice.map fun dice => Enclosed .list (dice.map RawDieOf)⟩]

theorem lawful_roll : Lawful rollLayout RawRoll.fields RollFields.slots RawRoll.part where
  names a := by
    simp only [RollFields.slots, List.map_cons, List.map_nil]
    decide
  unread := by simp [rollLayout, RollFields.slots]
  takes {a a' key s rest} h := by
    simp only [rollLayout] at h
    refine takes_of_field accepts_string (fun v => { a with id := some v }) [] _ h rfl
      (fun _ => rfl) fun hid h => ?_
    refine takes_of_field accepts_natural (fun v => { a with serial := some v }) [_] _ h rfl
      (fun _ => rfl) fun hserial h => ?_
    refine takes_of_field accepts_time (fun v => { a with createdAt := some v }) [_, _] _ h rfl
      (fun _ => rfl) fun hcreatedAt h => ?_
    refine takes_of_field accepts_string (fun v => { a with room := some v }) [_, _, _] _ h rfl
      (fun _ => rfl) fun hroom h => ?_
    refine takes_of_field accepts_string (fun v => { a with user := some v }) [_, _, _, _] _ h rfl
      (fun _ => rfl) fun huser h => ?_
    refine takes_of_field accepts_dice (fun v => { a with dice := some v }) [_, _, _, _, _] _ h rfl
      (fun _ => rfl) fun hdice h => ?_
    exact takes_of_skip h (by simp [RollFields.slots, *])
  slots_of_finish {a v} h := by
    obtain ⟨id, hid, h⟩ := bind_eq_ok_iff.mp h
    obtain ⟨serial, hserial, h⟩ := bind_eq_ok_iff.mp h
    obtain ⟨createdAt, hcreatedAt, h⟩ := bind_eq_ok_iff.mp h
    obtain ⟨room, hroom, h⟩ := bind_eq_ok_iff.mp h
    obtain ⟨user, huser, h⟩ := bind_eq_ok_iff.mp h
    obtain ⟨dice, hdice, h⟩ := bind_eq_ok_iff.mp h
    cases h
    simp only [RollFields.slots, required_eq_ok_iff.mp hid, required_eq_ok_iff.mp hserial,
      required_eq_ok_iff.mp hcreatedAt, required_eq_ok_iff.mp hroom, required_eq_ok_iff.mp huser,
      required_eq_ok_iff.mp hdice]
    rfl
  part_nil v := rfl
  member_part {v keys m s} hcolon hrest hdeclared hother := by
    simp only [RawRoll.fields, List.forall_mem_cons] at hdeclared hother
    obtain ⟨hid, hserial, hcreatedAt, hroom, huser, hdice, -⟩ := hdeclared
    simp only [rollLayout]
    split
    · next hkey =>
        refine part_of_field accepts_string (fun x => { v.part keys with id := some x })
          hcolon hrest (hid hkey) ?_
        simp [RawRoll.part, hkey, seen_append_self, seen_append_of_ne]
    split
    · next hkey =>
        refine part_of_field accepts_natural (fun x => { v.part keys with serial := some x })
          hcolon hrest (hserial hkey) ?_
        simp [RawRoll.part, hkey, seen_append_self, seen_append_of_ne]
    split
    · next hkey =>
        refine part_of_field accepts_time (fun x => { v.part keys with createdAt := some x })
          hcolon hrest (hcreatedAt hkey) ?_
        simp [RawRoll.part, hkey, seen_append_self, seen_append_of_ne]
    split
    · next hkey =>
        refine part_of_field accepts_string (fun x => { v.part keys with room := some x })
          hcolon hrest (hroom hkey) ?_
        simp [RawRoll.part, hkey, seen_append_self, seen_append_of_ne]
    split
    · next hkey =>
        refine part_of_field accepts_string (fun x => { v.part keys with user := some x })
          hcolon hrest (huser hkey) ?_
        simp [RawRoll.part, hkey, seen_append_self, seen_append_of_ne]
    split
    · next hkey =>
        refine part_of_field accepts_dice (fun x => { v.part keys with dice := some x })
          hcolon hrest (hdice hkey) ?_
        simp [RawRoll.part, hkey, seen_append_self, seen_append_of_ne]
    · rw [skipMember_of _ hcolon (hother (by simp [*])) hrest]
      simp [RawRoll.part, seen_append_of_ne, *]
  finish_part {v keys} h := by
    simp only [RawRoll.fields, List.forall_mem_cons] at h
    obtain ⟨hid, hserial, hcreatedAt, hroom, huser, hdice, -⟩ := h
    simp only [rollLayout, RawRoll.part, seen, hid, hserial, hcreatedAt, hroom, huser, hdice,
      if_true, required, ok_bind]
  of_elements {v s rest} h := by
    obtain ⟨⟨id, s₁⟩, hid, h⟩ := bind_eq_ok_iff.mp h
    obtain ⟨⟨serial, s₂⟩, hserial, h⟩ := bind_eq_ok_iff.mp h
    obtain ⟨⟨createdAt, s₃⟩, hcreatedAt, h⟩ := bind_eq_ok_iff.mp h
    obtain ⟨⟨room, s₄⟩, hroom, h⟩ := bind_eq_ok_iff.mp h
    obtain ⟨⟨user, s₅⟩, huser, h⟩ := bind_eq_ok_iff.mp h
    obtain ⟨⟨dice, s₆⟩, hdice, h⟩ := bind_eq_ok_iff.mp h
    cases h
    obtain ⟨t₁, hcomma₁, hid⟩ := of_readElement accepts_string hid
    obtain ⟨t₂, hcomma₂, hserial⟩ := of_readElement accepts_natural hserial
    obtain ⟨t₃, hcomma₃, hcreatedAt⟩ := of_readElement accepts_time hcreatedAt
    obtain ⟨t₄, hcomma₄, hroom⟩ := of_readElement accepts_string hroom
    obtain ⟨t₅, hcomma₅, huser⟩ := of_readElement accepts_string huser
    obtain ⟨t₆, hcomma₆, hdice⟩ := of_readElement accepts_dice hdice
    exact ⟨t₁, s₁, hcomma₁, hid, t₂, s₂, hcomma₂, hserial, t₃, s₃, hcomma₃, hcreatedAt, t₄, s₄,
      hcomma₄, hroom, t₅, s₅, hcomma₅, huser, t₆, _, hcomma₆, hdice, rfl⟩
  elements_of {v s rest} h hrest := by
    obtain ⟨t₁, s₁, hcomma₁, hid, t₂, s₂, hcomma₂, hserial, t₃, s₃, hcomma₃, hcreatedAt, t₄, s₄,
      hcomma₄, hroom, t₅, s₅, hcomma₅, huser, t₆, s₆, hcomma₆, hdice, rfl⟩ := h
    simp only [rollLayout, ok_bind,
      readElement_of accepts_string .roll 0 hcomma₁ hid (literalEnds_comma hcomma₂),
      readElement_of accepts_natural .roll 1 hcomma₂ hserial (literalEnds_comma hcomma₃),
      readElement_of accepts_time .roll 2 hcomma₃ hcreatedAt (literalEnds_comma hcomma₄),
      readElement_of accepts_string .roll 3 hcomma₄ hroom (literalEnds_comma hcomma₅),
      readElement_of accepts_string .roll 4 hcomma₅ huser (literalEnds_comma hcomma₆),
      readElement_of accepts_dice .roll 5 hcomma₆ hdice hrest]
  shorter {v} := by
    simp only [RawRoll.fields, List.forall_mem_cons]
    exact ⟨text_length, accepts_natural.shorter, accepts_time.shorter, text_length, text_length,
      accepts_dice.shorter, List.forall_mem_nil _⟩

def RawRollOf (r : RawRoll) : Piece := RecordOf r.fields

theorem accepts_roll : Accepts rollLayout.read RawRollOf := accepts_record lawful_roll

/-! The message. -/

def createdFields (r : RawRoll) : List Field := [⟨"DiceRoll", RawRollOf r⟩]

def createdSlots (a : Option RawRoll) : List Slot := [⟨"DiceRoll", a.map RawRollOf⟩]

theorem lawful_created :
    Lawful createdLayout createdFields createdSlots fun r keys => seen keys "DiceRoll" r where
  names a := by simp [createdSlots]
  unread := by simp [createdLayout, createdSlots]
  takes {a a' key s rest} h := by
    simp only [createdLayout] at h
    refine takes_of_field accepts_roll some [] _ h rfl (fun _ => rfl) fun hkey h => ?_
    exact takes_of_skip h (by simp [createdSlots, *])
  slots_of_finish {a v} h := by
    rw [createdSlots, required_eq_ok_iff.mp h]
    rfl
  part_nil v := rfl
  member_part {v keys m s} hcolon hrest hdeclared hother := by
    simp only [createdFields, List.forall_mem_cons] at hdeclared hother
    simp only [createdLayout]
    split
    · next hkey =>
        refine part_of_field accepts_roll some hcolon hrest (hdeclared.1 hkey) ?_
        simp [hkey, seen_append_self]
    · rw [skipMember_of _ hcolon (hother (by simp [*])) hrest]
      simp [seen_append_of_ne, *]
  finish_part {v keys} h := by
    have hkey := h _ List.mem_cons_self
    simp only [createdLayout, seen, hkey, if_true, required]
  of_elements {v s rest} h := by
    obtain ⟨t, hcomma, hroll⟩ := of_readElement accepts_roll h
    exact ⟨t, rest, hcomma, hroll, rfl⟩
  elements_of {v s rest} h hrest := by
    obtain ⟨t, s₁, hcomma, hroll, rfl⟩ := h
    exact readElement_of accepts_roll .created 0 hcomma hroll hrest
  shorter {v} := by
    simp only [createdFields, List.forall_mem_cons]
    exact ⟨accepts_roll.shorter, List.forall_mem_nil _⟩

theorem accepts_created :
    Accepts createdLayout.read fun r => RecordOf (createdFields r) :=
  accepts_record lawful_created

theorem readDocument_eq_ok_iff {p : Bytes} {raw : RawRoll} :
    readDocument p = .ok raw ↔
      ∃ rest, RecordOf (createdFields raw) p rest ∧ Blanks rest [] := by
  constructor
  · intro h
    obtain ⟨⟨raw', rest⟩, hread, h⟩ := bind_eq_ok_iff.mp h
    dsimp only at h
    split at h
    · next hrest =>
        cases h
        exact ⟨rest, accepts_created.sound hread, skipBlanks_eq_nil_iff.mp hrest⟩
    · cases h
  · rintro ⟨rest, hrecord, hblanks⟩
    have hread := accepts_created.complete hrecord (literalEnds_of_blanks hblanks literalEnds_nil)
    simp only [readDocument, hread, ok_bind, skipBlanks_eq_nil_iff.mpr hblanks, if_true]

/-! The types of the dice. -/

theorem RawDie.resolve_eq_ok_iff {raw : RawDie} {d : Die} :
    raw.resolve = .ok d ↔ raw = RawDie.ofDie d := by
  constructor
  · intro h
    obtain ⟨t, ht, rfl⟩ := map_eq_ok_iff.mp h
    rw [RawDie.ofDie, ← DieType.ofId_eq_ok_iff.mp ht]
  · rintro rfl
    exact resolve_ofDie d

theorem mapM_resolve_eq_ok_iff {raws : List RawDie} {dice : List Die} :
    raws.mapM RawDie.resolve = .ok dice ↔ raws = dice.map RawDie.ofDie := by
  induction raws generalizing dice with
  | nil => cases dice <;> simp [pure, Except.pure]
  | cons raw raws ih =>
      rw [List.mapM_cons, bind_eq_ok_iff]
      constructor
      · rintro ⟨d, hd, hrest⟩
        obtain ⟨ds, hds, heq⟩ := bind_eq_ok_iff.mp hrest
        cases heq
        rw [List.map_cons, ← RawDie.resolve_eq_ok_iff.mp hd, ← ih.mp hds]
      · intro h
        cases dice with
        | nil => cases h
        | cons d dice =>
            obtain ⟨hd, hdice⟩ := List.cons.inj h
            exact ⟨d, RawDie.resolve_eq_ok_iff.mpr hd,
              bind_eq_ok_iff.mpr ⟨dice, ih.mpr hdice, rfl⟩⟩

theorem RawRoll.resolve_eq_ok_iff {raw : RawRoll} {r : Roll} :
    raw.resolve = .ok r ↔ raw = RawRoll.ofRoll r := by
  constructor
  · intro h
    obtain ⟨dice, hdice, rfl⟩ := map_eq_ok_iff.mp h
    rw [RawRoll.ofRoll, ← mapM_resolve_eq_ok_iff.mp hdice]
  · rintro rfl
    exact resolve_ofRoll r

theorem rawRollOf_ofRoll (r : Roll) : RawRollOf (RawRoll.ofRoll r) = RollOf r := by
  simp only [RawRollOf, RawRoll.fields, RawRoll.ofRoll, List.map_map]
  rfl

/-- A message is decoded to a roll exactly when it denotes that roll. -/
theorem decode_eq_ok_iff (p : Bytes) (r : Roll) : decode p = .ok r ↔ Denotes p r := by
  have hdecode : decode p = .ok r ↔ readDocument p = .ok (RawRoll.ofRoll r) := by
    constructor
    · intro h
      rw [decode] at h
      split at h
      · cases h
      · next raw hraw =>
          split at h
          · cases h
          · next r' hr =>
              cases h
              rw [hraw, RawRoll.resolve_eq_ok_iff.mp hr]
    · intro h
      simp only [decode, h, resolve_ofRoll]
  rw [hdecode, readDocument_eq_ok_iff, createdFields, rawRollOf_ofRoll, Denotes]

end DiceRooms.Wire
