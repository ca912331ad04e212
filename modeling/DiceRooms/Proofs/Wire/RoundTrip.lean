import DiceRooms.Proofs.Time.Rfc3339
import DiceRooms.Proofs.Wire.Written

/-!
Encoding and decoding. Every roll has a wire form. If the year of its creation has four
digits and no sign, it is decoded to that roll, its time settled; so it comes back as it
was but for a leap second within a minute, which no wire form shows. In other years the
time alone keeps it from being read.
-/
namespace DiceRooms.Wire

open Ascii Json

/-- The years whose written form has four digits and no sign. -/
def PlainYear (t : Instant) : Prop := 0 ≤ t.date.year ∧ t.date.year ≤ 9999

instance (t : Instant) : Decidable (PlainYear t) :=
  inferInstanceAs (Decidable (_ ∧ _))

/-- The times that come back as they were. -/
def PlainTime (t : Instant) : Prop := PlainYear t ∧ t.Regular

instance (t : Instant) : Decidable (PlainTime t) :=
  inferInstanceAs (Decidable (_ ∧ _))

/-! Fields of the records. -/

theorem readField_blank {α : Type} (name : String) (read : Bytes → Except Fault (α × Bytes))
    (s : Bytes) : readField name none read (colon :: s) = read s := by
  simp only [readField, Option.isSome_none, Bool.false_eq_true, if_false]
  rw [readColon, skipBlanks_cons rfl]
  rfl

theorem readString_writeOctets {text : String} {s : Bytes} (h : utf8 text = s)
    (rest : Bytes) : readString (writeOctets s ++ rest) = .ok (text, rest) := by
  subst h
  exact readString_writeText text rest

theorem reads_time {s : Bytes} {t : Instant} (hascii : IsAscii s) (h : Rfc3339.read s = .ok t) :
    Reads readTime (writeOctets s) t := by
  intro rest _
  obtain ⟨text, htext⟩ := exists_utf8_eq hascii
  rw [readTime, readString_writeOctets htext, ok_bind]
  simp only [htext, h]

theorem reads_plain {t : Instant} (h : PlainYear t) :
    Reads readTime (writeOctets (Rfc3339.write .nanoseconds t)) t.settled :=
  reads_time (Rfc3339.isAscii_write .nanoseconds t) (Rfc3339.read_write _ h.1 h.2)

theorem readTime_signed {t : Instant} (h : ¬ PlainYear t) (rest : Bytes) :
    readTime (writeOctets (Rfc3339.write .nanoseconds t) ++ rest) =
      mismatch (.time .invalid) := by
  obtain ⟨text, htext⟩ := exists_utf8_eq (Rfc3339.isAscii_write .nanoseconds t)
  rw [readTime, readString_writeOctets htext, ok_bind]
  simp only [htext, Rfc3339.read_write_signed _ h]

/-! Dice. -/

def RawDie.ofDie (d : Die) : RawDie := ⟨d.id, d.type.id, d.side⟩

theorem gathers_die (d : Die) :
    Gathers dieLayout.member dieLayout.blank
      [("ID", writeText d.id), ("Type", writeText d.type.id), ("Side", decimal d.side.toNat)]
      ⟨some d.id, some d.type.id, some d.side⟩ := by
  refine .cons ⟨some d.id, none, none⟩ ?_
    (.cons ⟨some d.id, some d.type.id, none⟩ ?_ (.cons _ ?_ (.nil _)))
  · intro rest hrest
    simp [dieLayout, readField_blank, reads_string d.id rest hrest]
  · intro rest hrest
    simp [dieLayout, readField_blank, reads_string d.type.id rest hrest]
  · intro rest hrest
    simp [dieLayout, readField_blank, reads_natural d.side rest hrest]

theorem read_writeDie (d : Die) (rest : Bytes) :
    dieLayout.read (writeDie writeText d ++ rest) = .ok (RawDie.ofDie d, rest) :=
  reads_object (gathers_die d) rfl rest

theorem startsValue_writeDie (d : Die) : StartsValue (writeDie writeText d) :=
  ⟨openBrace, _, rfl, rfl, by decide⟩

theorem reads_dice (dice : List Die) (rest : Bytes) :
    readList dieLayout.read (writeList (dice.map (writeDie writeText)) ++ rest) =
      .ok (dice.map RawDie.ofDie, rest) :=
  readList_writeList (fun d _ => ⟨fun rest _ => read_writeDie d rest, startsValue_writeDie d⟩)
    rest

/-! Rolls. The first members go as far as the serial; the time decides about the rest. -/

theorem gathers_rollHead (r : Roll) :
    Gathers rollLayout.member rollLayout.blank
      [("ID", writeText r.id), ("Serial", decimal r.serial.toNat)]
      ⟨some r.id, some r.serial, none, none, none, none⟩ := by
  refine .cons ⟨some r.id, none, none, none, none, none⟩ ?_ (.cons _ ?_ (.nil _))
  · intro rest hrest
    simp [rollLayout, readField_blank, reads_string r.id rest hrest]
  · intro rest hrest
    simp [rollLayout, readField_blank, reads_natural r.serial rest hrest]

theorem gathers_rollTail (r : Roll) {time : Bytes} (h : Reads readTime time r.createdAt) :
    Gathers rollLayout.member ⟨some r.id, some r.serial, none, none, none, none⟩
      [("CreatedAt", time),
       ("RoomID", writeText r.room),
       ("UserID", writeText r.user),
       ("Dice", writeList (r.dice.map (writeDie writeText)))]
      ⟨some r.id, some r.serial, some r.createdAt, some r.room, some r.user,
        some (r.dice.map RawDie.ofDie)⟩ := by
  refine .cons ⟨some r.id, some r.serial, some r.createdAt, none, none, none⟩ ?_
    (.cons ⟨some r.id, some r.serial, some r.createdAt, some r.room, none, none⟩ ?_
      (.cons ⟨some r.id, some r.serial, some r.createdAt, some r.room, some r.user, none⟩ ?_
        (.cons _ ?_ (.nil _))))
  · intro rest hrest
    simp [rollLayout, readField_blank, h rest hrest]
  · intro rest hrest
    simp [rollLayout, readField_blank, reads_string r.room rest hrest]
  · intro rest hrest
    simp [rollLayout, readField_blank, reads_string r.user rest hrest]
  · intro rest hrest
    simp [rollLayout, readField_blank, reads_dice]

theorem Gathers.append {σ : Type} {member : σ → String → Bytes → Except Fault (σ × Bytes)}
    {a a' a'' : σ} {ms ms' : List (String × Bytes)} (h : Gathers member a ms a')
    (h' : Gathers member a' ms' a'') : Gathers member a (ms ++ ms') a'' := by
  induction h with
  | nil => exact h'
  | cons a' head _ ih => exact .cons a' head (ih h')

def RawRoll.ofRoll (r : Roll) : RawRoll :=
  ⟨r.id, r.serial, r.createdAt, r.room, r.user, r.dice.map RawDie.ofDie⟩

/-- The members of a roll in its wire form. -/
def rollMembers (r : Roll) : List (String × Bytes) :=
  [("ID", writeText r.id),
   ("Serial", decimal r.serial.toNat),
   ("CreatedAt", writeOctets (Rfc3339.write .nanoseconds r.createdAt)),
   ("RoomID", writeText r.room),
   ("UserID", writeText r.user),
   ("Dice", writeList (r.dice.map (writeDie writeText)))]

/-- The same members, but for a time that is written in another way. -/
def timedMembers (time : Bytes) (r : Roll) : List (String × Bytes) :=
  [("ID", writeText r.id),
   ("Serial", decimal r.serial.toNat),
   ("CreatedAt", time),
   ("RoomID", writeText r.room),
   ("UserID", writeText r.user),
   ("Dice", writeList (r.dice.map (writeDie writeText)))]

theorem read_roll {r : Roll} {time : Bytes} (h : Reads readTime time r.createdAt)
    (rest : Bytes) :
    rollLayout.read (writeObject (timedMembers time r) ++ rest) = .ok (RawRoll.ofRoll r, rest) :=
  reads_object ((gathers_rollHead r).append (gathers_rollTail r h)) rfl rest

theorem read_roll_signed {r : Roll} (h : ¬ PlainYear r.createdAt) (rest : Bytes) :
    rollLayout.read (writeObject (rollMembers r) ++ rest) = mismatch (.time .invalid) := by
  refine read_object_error (gathers_rollHead r) ?_ rest
  intro rest
  simp [rollLayout, readField_blank, readTime_signed h, mismatch]

/-! The whole document. -/

theorem encode_eq (r : Roll) :
    encode r = writeObject [("DiceRoll", writeObject (rollMembers r))] := rfl

theorem encodeAs_eq (time : Bytes) (r : Roll) :
    encodeAs writeText time r = writeObject [("DiceRoll", writeObject (timedMembers time r))] :=
  rfl

theorem readDocument_encodeAs {r : Roll} {time : Bytes} (h : Reads readTime time r.createdAt) :
    readDocument (encodeAs writeText time r) = .ok (RawRoll.ofRoll r) := by
  have hgathers : Gathers createdLayout.member createdLayout.blank
      [("DiceRoll", writeObject (timedMembers time r))] (some (RawRoll.ofRoll r)) := by
    refine .cons _ ?_ (.nil _)
    intro rest _
    simp [createdLayout, readField_blank, read_roll h]
  have hread := reads_object hgathers rfl []
  rw [List.append_nil] at hread
  rw [readDocument, encodeAs_eq, hread, ok_bind]
  rfl

theorem readDocument_encode_signed {r : Roll} (h : ¬ PlainYear r.createdAt) :
    readDocument (encode r) = mismatch (.time .invalid) := by
  have hbad : ∀ rest, createdLayout.member createdLayout.blank "DiceRoll"
      (colon :: (writeObject (rollMembers r) ++ rest)) = mismatch (.time .invalid) := by
    intro rest
    simp [createdLayout, readField_blank, read_roll_signed h, mismatch]
  have hread : createdLayout.read
      (writeObject ([] ++ ("DiceRoll", writeObject (rollMembers r)) :: []) ++ []) = _ :=
    read_object_error (.nil createdLayout.blank) hbad []
  rw [List.append_nil] at hread
  rw [readDocument, encode_eq]
  exact congrArg (· >>= _) hread

theorem resolve_ofDie (d : Die) : (RawDie.ofDie d).resolve = .ok d := by
  simp only [RawDie.ofDie, RawDie.resolve, DieType.ofId_id, Except.map]

theorem resolve_ofRoll (r : Roll) : (RawRoll.ofRoll r).resolve = .ok r := by
  have hdice : ∀ dice : List Die, (dice.map RawDie.ofDie).mapM RawDie.resolve = .ok dice := by
    intro dice
    induction dice with
    | nil => rfl
    | cons d dice ih =>
        rw [List.map_cons, List.mapM_cons, resolve_ofDie, ih]
        rfl
  simp [RawRoll.ofRoll, RawRoll.resolve, hdice, Except.map]

/-- The time may be written in any way that it is read in. -/
theorem decode_encodeAs {r : Roll} {time : Bytes} (h : Reads readTime time r.createdAt) :
    decode (encodeAs writeText time r) = .ok r := by
  simp only [decode, readDocument_encodeAs h, resolve_ofRoll]

/-- Whatever its text shows its time to be, that is what comes back. -/
theorem decode_settled {r : Roll} (h : PlainYear r.createdAt) :
    decode (encode r) = .ok r.settled :=
  decode_encodeAs (r := r.settled) (reads_plain h)

theorem decode_plain {r : Roll} (h : PlainTime r.createdAt) : decode (encode r) = .ok r := by
  rw [decode_settled h.1, Roll.settled, h.2.settled]

theorem decode_signed {r : Roll} (h : ¬ PlainYear r.createdAt) :
    decode (encode r) = .error (.unreadable (.mismatch (.time .invalid))) := by
  simp only [decode, readDocument_encode_signed h]
  rfl

end DiceRooms.Wire
