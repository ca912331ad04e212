import DiceRooms.Proofs.Wire.Gaps

/-!
Messages with dice of unknown types. The types are looked up when all of the document has
been read, so an unknown one is reported only of a document with no other fault: one that
would be decoded if every unknown type in it were spelled as a known one.
-/
namespace DiceRooms.Wire

open Ascii Json

def Known (t : String) : Prop := ∃ k : DieType, t = k.id

theorem known_iff {t : String} : Known t ↔ ∃ k, DieType.ofId t = .ok k :=
  exists_congr fun _ => DieType.ofId_eq_ok_iff.symm

theorem unknown_iff {t : String} : ¬ Known t ↔ DieType.ofId t = .error ⟨t⟩ := by
  rw [known_iff]
  constructor
  · intro h
    cases hid : DieType.ofId t with
    | error e => rw [DieType.error_of_ofId hid]
    | ok k => exact (h ⟨k, hid⟩).elim
  · rintro h ⟨k, hk⟩
    rw [h] at hk
    cases hk

def RawRoll.types (r : RawRoll) : List String := r.dice.map RawDie.type

/-- The first text that names no type. -/
def FirstUnknown (types : List String) (t : String) : Prop :=
  ∃ before after, types = before ++ t :: after ∧ (∀ u ∈ before, Known u) ∧ ¬ Known t

/-- The document is that of the roll, as far as can be told before the types are looked
up. -/
def Shapes (p : Bytes) (raw : RawRoll) : Prop :=
  ∃ rest, RecordOf (createdFields raw) p rest ∧ Blanks rest []

/-! Looking up the types. -/

theorem RawDie.resolve_known {d : RawDie} (h : Known d.type) :
    ∃ die, d.resolve = .ok die := by
  obtain ⟨k, hk⟩ := known_iff.mp h
  exact ⟨⟨d.id, k, d.side⟩, by rw [resolve, hk]; rfl⟩

theorem RawDie.resolve_unknown {d : RawDie} (h : ¬ Known d.type) :
    d.resolve = .error ⟨d.type⟩ := by
  rw [resolve, unknown_iff.mp h]
  rfl

theorem mapM_resolve_known {raws : List RawDie} (h : ∀ u ∈ raws.map RawDie.type, Known u) :
    ∃ dice, raws.mapM RawDie.resolve = .ok dice := by
  induction raws with
  | nil => exact ⟨[], rfl⟩
  | cons d raws ih =>
      rw [List.map_cons, List.forall_mem_cons] at h
      obtain ⟨die, hdie⟩ := RawDie.resolve_known h.1
      obtain ⟨dice, hdice⟩ := ih h.2
      exact ⟨die :: dice, by rw [List.mapM_cons, hdie, ok_bind, hdice]; rfl⟩

theorem mapM_resolve_unknown {raws : List RawDie} {t : String}
    (h : FirstUnknown (raws.map RawDie.type) t) : raws.mapM RawDie.resolve = .error ⟨t⟩ := by
  obtain ⟨before, after, heq, hbefore, ht⟩ := h
  obtain ⟨raws₁, raws₂, rfl, rfl, hraws₂⟩ := List.map_eq_append_iff.mp heq
  obtain ⟨d, raws₂, rfl, rfl, -⟩ := List.map_eq_cons_iff.mp hraws₂
  obtain ⟨dice, hdice⟩ := mapM_resolve_known hbefore
  rw [List.mapM_append, hdice, ok_bind, List.mapM_cons, RawDie.resolve_unknown ht]
  rfl

theorem known_or_firstUnknown (types : List String) :
    (∀ u ∈ types, Known u) ∨ ∃ t, FirstUnknown types t := by
  induction types with
  | nil => exact .inl (List.forall_mem_nil _)
  | cons u types ih =>
      by_cases hu : Known u
      · rcases ih with hall | ⟨t, before, after, rfl, hbefore, ht⟩
        · exact .inl (List.forall_mem_cons.mpr ⟨hu, hall⟩)
        · exact .inr ⟨t, u :: before, after, rfl, List.forall_mem_cons.mpr ⟨hu, hbefore⟩, ht⟩
      · exact .inr ⟨u, [], types, rfl, List.forall_mem_nil _, hu⟩

/-! The three ways in which decoding ends. -/

section
variable {p : Bytes} {raw : RawRoll}

theorem decode_of_known (h : Shapes p raw) (hknown : ∀ u ∈ raw.types, Known u) :
    ∃ r, decode p = .ok r := by
  obtain ⟨dice, hdice⟩ := mapM_resolve_known hknown
  have hread := readDocument_eq_ok_iff.mpr h
  simp only [decode, hread, RawRoll.resolve, hdice]
  exact ⟨_, rfl⟩

theorem decode_of_unknown (h : Shapes p raw) {t : String} (ht : FirstUnknown raw.types t) :
    decode p = .error (.unknownDieType ⟨t⟩) := by
  have hread := readDocument_eq_ok_iff.mpr h
  simp only [decode, hread, RawRoll.resolve, mapM_resolve_unknown ht]
  rfl

theorem decode_of_shapeless (h : ∀ raw, ¬ Shapes p raw) :
    ∃ f, decode p = .error (.unreadable f) := by
  cases hread : readDocument p with
  | ok raw => exact (h raw (readDocument_eq_ok_iff.mp hread)).elim
  | error f => exact ⟨f, by simp only [decode, hread]⟩

/-- A document is that of one roll at most. -/
theorem Shapes.unique {raw' : RawRoll} (h : Shapes p raw) (h' : Shapes p raw') : raw = raw' :=
  Except.ok.inj ((readDocument_eq_ok_iff.mpr h).symm.trans (readDocument_eq_ok_iff.mpr h'))

end

/-- What decoding answers, with what is known of the document then. -/
inductive Judged (p : Bytes) : Except DecodeError Roll → Prop
  | accepted {raw : RawRoll} (shapes : Shapes p raw) (known : ∀ u ∈ raw.types, Known u)
      (r : Roll) : Judged p (.ok r)
  | unknown {raw : RawRoll} {t : String} (shapes : Shapes p raw)
      (first : FirstUnknown raw.types t) : Judged p (.error (.unknownDieType ⟨t⟩))
  | unreadable (shapeless : ∀ raw, ¬ Shapes p raw) (f : Fault) :
      Judged p (.error (.unreadable f))

theorem judged (p : Bytes) : Judged p (decode p) := by
  by_cases hshape : ∃ raw, Shapes p raw
  · obtain ⟨raw, h⟩ := hshape
    rcases known_or_firstUnknown raw.types with hknown | ⟨t, ht⟩
    · obtain ⟨r, hr⟩ := decode_of_known h hknown
      exact hr ▸ .accepted h hknown r
    · exact decode_of_unknown h ht ▸ .unknown h ht
  · have hshapeless := not_exists.mp hshape
    obtain ⟨f, hf⟩ := decode_of_shapeless hshapeless
    exact hf ▸ .unreadable hshapeless f

/-! Spelling the types anew. -/

/-- The gaps are where the types of the dice stand: with any strings spelled there, the
document is that of the roll with those types. -/
def Form.Marks (f : Form) (raw : RawRoll) : Prop :=
  ∀ types tokens, types.length = raw.dice.length → List.Forall₂ Spelled tokens types →
    Shapes (f.fill tokens) (raw.retype types)

/-- A known type stays as it is spelled, and an unknown one gives way to a known one. -/
inductive Mends : Bytes → Bytes → Prop
  | known {token : Bytes} {t : String} (spelled : Spelled token t) (known : Known t) :
      Mends token token
  | unknown {token token' : Bytes} {t t' : String} (spelled : Spelled token t)
      (unknown : ¬ Known t) (spelled' : Spelled token' t') (known : Known t') :
      Mends token token'

/-- Every unknown type in the first document is a known one in the second, and nothing else
differs. -/
def Mended (p p' : Bytes) : Prop :=
  ∃ (f : Form) (raw : RawRoll) (tokens tokens' : List Bytes),
    f.Marks raw ∧ tokens.length = raw.dice.length ∧ List.Forall₂ Mends tokens tokens' ∧
      p = f.fill tokens ∧ p' = f.fill tokens'

theorem RawRoll.retype_types (r : RawRoll) : r.retype r.types = r := by
  have h : ∀ dice : List RawDie, dice.zipWith RawDie.retype (dice.map RawDie.type) = dice := by
    intro dice
    induction dice with
    | nil => rfl
    | cons d dice ih => exact congrArg (d :: ·) ih
  exact congrArg (fun dice => { r with dice := dice }) (h r.dice)

theorem RawRoll.types_retype {r : RawRoll} {types : List String}
    (h : types.length = r.dice.length) : (r.retype types).types = types := by
  have hzip : ∀ (dice : List RawDie) (types : List String), types.length = dice.length →
      (dice.zipWith RawDie.retype types).map RawDie.type = types := by
    intro dice types h
    induction dice generalizing types with
    | nil => exact (List.length_eq_zero_iff.mp h).symm
    | cons d dice ih =>
        cases types with
        | nil => cases h
        | cons t types => exact congrArg (t :: ·) (ih types (Nat.succ.inj h))
  exact hzip r.dice types h

/-- The places of the types can be told apart from the rest of the document. -/
theorem Shapes.form {p : Bytes} {raw : RawRoll} (h : Shapes p raw) :
    ∃ (f : Form) (tokens : List Bytes), f.Marks raw ∧ List.Forall₂ Spelled tokens raw.types ∧
      p = f.fill tokens := by
  have hgapped := (gapped_created raw).ahead local_blanks
  rw [← raw.retype_types] at h
  have hlength : raw.types.length = raw.dice.length := List.length_map _
  obtain ⟨f, tokens, -, htokens, heq, hspans⟩ := hgapped raw.types p [] hlength h
  rw [List.append_nil] at heq
  refine ⟨f, tokens, fun types' tokens' htypes' htokens' => ?_, htokens, heq⟩
  have hfill := hspans types' tokens' htypes' htokens' []
  rwa [List.append_nil] at hfill

/-- What is spelled on both sides of a mending. -/
theorem types_of_mends {tokens tokens' : List Bytes} (h : List.Forall₂ Mends tokens tokens') :
    (∃ types, List.Forall₂ Spelled tokens types) ∧
      ∃ types', List.Forall₂ Spelled tokens' types' ∧ ∀ t ∈ types', Known t := by
  induction h with
  | nil => exact ⟨⟨[], .nil⟩, [], .nil, List.forall_mem_nil _⟩
  | cons hmends _ ih =>
      obtain ⟨⟨types, htypes⟩, types', htypes', hknown⟩ := ih
      cases hmends with
      | known spelled known =>
          exact ⟨⟨_, .cons spelled htypes⟩, _, .cons spelled htypes',
            List.forall_mem_cons.mpr ⟨known, hknown⟩⟩
      | unknown spelled unknown spelled' known =>
          exact ⟨⟨_, .cons spelled htypes⟩, _, .cons spelled' htypes',
            List.forall_mem_cons.mpr ⟨known, hknown⟩⟩

theorem spelled_writeText (t : String) : Spelled (writeText t) t :=
  ⟨_, (List.append_nil _).symm.trans (writeText_eq_cons t []),
    octets_of_readOctets (readOctets_written (utf8 t) [])⟩

theorem exists_mends {tokens : List Bytes} {types : List String}
    (h : List.Forall₂ Spelled tokens types) : ∃ tokens', List.Forall₂ Mends tokens tokens' := by
  induction h with
  | nil => exact ⟨[], .nil⟩
  | @cons token t tokens types hspelled _ ih =>
      obtain ⟨tokens', htokens'⟩ := ih
      by_cases ht : Known t
      · exact ⟨token :: tokens', .cons (.known hspelled ht) htokens'⟩
      · exact ⟨writeText DieType.d4.id :: tokens',
          .cons (.unknown hspelled ht (spelled_writeText _) ⟨_, rfl⟩) htokens'⟩

theorem Mended.shapes {p p' : Bytes} (h : Mended p p') : ∃ raw, Shapes p raw := by
  obtain ⟨f, raw, tokens, tokens', hmarks, hlength, hmends, rfl, rfl⟩ := h
  obtain ⟨⟨types, htypes⟩, -⟩ := types_of_mends hmends
  exact ⟨_, hmarks types tokens (htypes.length_eq ▸ hlength) htypes⟩

theorem Mended.decode {p p' : Bytes} (h : Mended p p') : ∃ r, decode p' = .ok r := by
  obtain ⟨f, raw, tokens, tokens', hmarks, hlength, hmends, rfl, rfl⟩ := h
  obtain ⟨-, types', htypes', hknown⟩ := types_of_mends hmends
  have hlength' : types'.length = raw.dice.length := by
    rw [← htypes'.length_eq, ← hmends.length_eq, hlength]
  refine decode_of_known (hmarks types' tokens' hlength' htypes') ?_
  rwa [RawRoll.types_retype hlength']

theorem exists_mended {p : Bytes} {raw : RawRoll} (h : Shapes p raw) : ∃ p', Mended p p' := by
  obtain ⟨f, tokens, hmarks, htokens, rfl⟩ := h.form
  obtain ⟨tokens', hmends⟩ := exists_mends htokens
  have hlength : tokens.length = raw.dice.length := htokens.length_eq.trans (List.length_map _)
  exact ⟨_, f, raw, tokens, tokens', hmarks, hlength, hmends, rfl, rfl⟩

/-- How a document is judged that may have dice of unknown types. -/
structure UnknownTypesLast (p : Bytes) : Prop where
  /-- The documents with no other fault. -/
  mended : (∃ raw, Shapes p raw) ↔ ∃ p', Mended p p' ∧ ∃ r, decode p' = .ok r
  /-- How the unknown types are mended does not matter. -/
  however : ∀ p', Mended p p' → ∃ r, decode p' = .ok r
  unambiguous : ∀ raw raw', Shapes p raw → Shapes p raw' → raw = raw'
  reported : ∀ t, decode p = .error (.unknownDieType ⟨t⟩) ↔
    ∃ raw, Shapes p raw ∧ FirstUnknown raw.types t
  accepted : (∃ r, decode p = .ok r) ↔ ∃ raw, Shapes p raw ∧ ∀ u ∈ raw.types, Known u
  /-- Any other fault comes first, wherever it is. -/
  unreadable : (∃ f, decode p = .error (.unreadable f)) ↔ ¬ ∃ raw, Shapes p raw

theorem unknown_types_last (p : Bytes) : UnknownTypesLast p where
  mended := by
    constructor
    · rintro ⟨raw, h⟩
      obtain ⟨p', hp'⟩ := exists_mended h
      exact ⟨p', hp', hp'.decode⟩
    · rintro ⟨p', hp', -⟩
      exact hp'.shapes
  however _ h := h.decode
  unambiguous _ _ h h' := h.unique h'
  reported t := by
    constructor
    · intro hdecode
      have h := judged p
      rw [hdecode] at h
      cases h with
      | unknown shapes first => exact ⟨_, shapes, first⟩
    · rintro ⟨raw, h, ht⟩
      exact decode_of_unknown h ht
  accepted := by
    constructor
    · rintro ⟨r, hr⟩
      have h := judged p
      rw [hr] at h
      cases h with
      | accepted shapes known => exact ⟨_, shapes, known⟩
    · rintro ⟨raw, h, hknown⟩
      exact decode_of_known h hknown
  unreadable := by
    constructor
    · rintro ⟨f, hf⟩
      have h := judged p
      rw [hf] at h
      cases h with
      | unreadable shapeless => exact not_exists.mpr shapeless
    · exact fun h => decode_of_shapeless (not_exists.mp h)

/-- Two dice of unknown types in a document that spells its records as lists. -/
example :
    decode (utf8 ("[[\"e\",0,\"2026-01-01T00:00:00Z\",\"r\",\"u\"," ++
      "[[\"a\",\"d6\",1],[\"b\",\"d\\u0037\",2],[\"c\",\"d9\",3]]]]")) =
      .error (.unknownDieType ⟨"d7"⟩) := by
  rfl

end DiceRooms.Wire
