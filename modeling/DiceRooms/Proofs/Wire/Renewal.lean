import DiceRooms.Proofs.Time.Reach
import DiceRooms.Proofs.Wire.Acceptance

/-!
Messages decoded and sent on. A roll is denoted by some message exactly if its time is
regular and within reach of the texts for times, but its own wire form is read again only if
that time, told in UTC, keeps to the years of four digits. A roll from the rest of the reach
is accepted and cannot be sent on.
-/
namespace DiceRooms.Wire

open Ascii Json Instant

/-! The pieces of a record. -/

theorem holds_of_separated {first : Bool} {ps : List Piece} {p : Piece} {s rest : Bytes}
    (h : Separated first ps s rest) (hp : p ∈ ps) : ∃ s' rest', p s' rest' := by
  induction ps generalizing first s with
  | nil => cases hp
  | cons q ps ih =>
      obtain ⟨s₁, s₂, -, hq, hothers⟩ := h
      rcases List.mem_cons.mp hp with rfl | hp
      · exact ⟨s₁, s₂, hq⟩
      · exact ih hothers hp

/-- Written in either way, a record has each of its fields somewhere. -/
theorem holds_of_recordOf {fields : List Field} {f : Field} {s rest : Bytes}
    (h : RecordOf fields s rest) (hf : f ∈ fields) : ∃ s' rest', f.piece s' rest' := by
  rcases h with ⟨ms, -, hlists⟩ | ⟨s₁, s₂, -, hseparated, -⟩
  · obtain ⟨m, -, hm⟩ := hlists.declared f hf
    exact ⟨m.start, m.rest, hm⟩
  · exact holds_of_separated hseparated (List.mem_map_of_mem hf)

theorem readDocument_of_decode {p : Bytes} {r : Roll} (h : decode p = .ok r) :
    readDocument p = .ok (RawRoll.ofRoll r) := by
  rw [decode] at h
  split at h
  · cases h
  · next raw hraw =>
      split at h
      · cases h
      · next r' hr =>
          cases h
          rw [hraw, RawRoll.resolve_eq_ok_iff.mp hr]

/-- The time of a roll that is accepted stands in the message. -/
theorem time_of_decode {p : Bytes} {r : Roll} (h : decode p = .ok r) :
    ∃ s, Rfc3339.read s = .ok r.createdAt := by
  obtain ⟨rest, hdocument, -⟩ := readDocument_eq_ok_iff.mp (readDocument_of_decode h)
  obtain ⟨s₁, rest₁, hroll⟩ := holds_of_recordOf hdocument List.mem_cons_self
  have hmem : (⟨"CreatedAt", Time r.createdAt⟩ : Field) ∈ (RawRoll.ofRoll r).fields :=
    .tail _ (.tail _ (.head _))
  obtain ⟨s₂, rest₂, text, -, hread⟩ := holds_of_recordOf hroll hmem
  exact ⟨utf8 text, hread⟩

/-- A regular time within reach is all that a roll needs for a message to denote it. -/
theorem exists_decode_iff (r : Roll) :
    (∃ p, decode p = .ok r) ↔ r.createdAt.Regular ∧
      yearZero - widestZone ≤ r.createdAt.secs ∧
        r.createdAt.secs < yearTenThousand + widestZone := by
  constructor
  · rintro ⟨p, h⟩
    obtain ⟨s, hread⟩ := time_of_decode h
    exact ⟨Rfc3339.regular_of_read hread, Rfc3339.reach_of_read hread⟩
  · intro hreach
    obtain ⟨s, hascii, hread⟩ := (Rfc3339.exists_read_iff r.createdAt).mpr hreach
    exact ⟨_, decode_encodeAs (reads_time hascii hread)⟩

/-! Sending on. -/

/-- A message written anew, in the one form that rolls are written in. -/
def renew (p : Bytes) : Except DecodeError Bytes := (decode p).map encode

theorem decode_encode_of_secs {r : Roll} (hl : r.createdAt.Regular) :
    decode (encode r) =
      if yearZero ≤ r.createdAt.secs ∧ r.createdAt.secs < yearTenThousand then .ok r
      else .error (.unreadable (.mismatch (.time .invalid))) := by
  split
  · next h => exact decode_plain ⟨(plainYear_iff r.createdAt).mpr h, hl⟩
  · next h => exact decode_signed (mt (plainYear_iff r.createdAt).mp h)

/-- What there is to say of a roll that has come by a message. -/
structure SentOn (r : Roll) : Prop where
  /-- The rolls that come by messages. -/
  accepted : (∃ p, decode p = .ok r) ↔ r.createdAt.Regular ∧
    yearZero - widestZone ≤ r.createdAt.secs ∧ r.createdAt.secs < yearTenThousand + widestZone
  /-- Sent on, it comes again, unless its year in UTC is the one before year 0 or year 10000. -/
  again : r.createdAt.Regular → decode (encode r) =
    if yearZero ≤ r.createdAt.secs ∧ r.createdAt.secs < yearTenThousand then .ok r
    else .error (.unreadable (.mismatch (.time .invalid)))
  /-- What has been written anew is its own renewal, within the same bounds. -/
  renewed : ∀ p, decode p = .ok r → (renew p).bind renew =
    if yearZero ≤ r.createdAt.secs ∧ r.createdAt.secs < yearTenThousand then renew p
    else .error (.unreadable (.mismatch (.time .invalid)))

theorem roll_sent_on (r : Roll) : SentOn r where
  accepted := exists_decode_iff r
  again := decode_encode_of_secs
  renewed p h := by
    have hl := ((exists_decode_iff r).mp ⟨p, h⟩).1
    have hfirst : renew p = .ok (encode r) := by rw [renew, h]; rfl
    have hsecond : renew (encode r) = _ := congrArg (Except.map encode) (decode_encode_of_secs hl)
    rw [hfirst]
    show renew (encode r) = _
    rw [hsecond]
    split <;> rfl

/-- Midnight of the first day of year 0, shown by clocks that are far ahead of UTC. -/
theorem accepted_but_lost :
    ∃ r, decode (utf8 "[[\"e\",0,\"0000-01-01T00:00:00+23:59\",\"r\",\"u\",[]]]") = .ok r ∧
      decode (encode r) = .error (.unreadable (.mismatch (.time .invalid))) :=
  ⟨⟨"e", 0, ⟨-62167305540, 0, by decide⟩, "r", "u", []⟩, rfl,
    (decode_encode_of_secs (by decide)).trans (if_neg (by decide))⟩

end DiceRooms.Wire
