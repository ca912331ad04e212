import DiceRooms.Proofs.Json.Number
import DiceRooms.Proofs.Json.Text
import DiceRooms.Wire.Message

/-!
What the readers of a message make of values, records and lists as the writer spells
them. A value is always followed by a comma, by a closing mark or by nothing. Records
are written as objects only; their members are read one after the other, and the first
member that is refused ends the reading.
-/
namespace DiceRooms.Wire

open Ascii Json

/-- What can stand behind a value of a document. -/
def ValueEnds (rest : Bytes) : Prop :=
  ∀ b ∈ rest.head?, b = comma ∨ b = closeBracket ∨ b = closeBrace

theorem valueEnds_comma (rest : Bytes) : ValueEnds (comma :: rest) := by
  intro b hb
  cases hb
  exact .inl rfl

theorem valueEnds_closeBracket (rest : Bytes) : ValueEnds (closeBracket :: rest) := by
  intro b hb
  cases hb
  exact .inr (.inl rfl)

theorem valueEnds_closeBrace (rest : Bytes) : ValueEnds (closeBrace :: rest) := by
  intro b hb
  cases hb
  exact .inr (.inr rfl)

theorem ValueEnds.literalEnds {rest : Bytes} (h : ValueEnds rest) : LiteralEnds rest := by
  intro b hb
  rcases h b hb with rfl | rfl | rfl <;> decide

/-- The reader takes exactly the text and answers with the value. -/
def Reads {α : Type} (read : Bytes → Except Fault (α × Bytes)) (text : Bytes) (a : α) : Prop :=
  ∀ rest, ValueEnds rest → read (text ++ rest) = .ok (a, rest)

theorem skipBlanks_cons {b : UInt8} (h : isBlank b = false) (s : Bytes) :
    skipBlanks (b :: s) = b :: s := by
  simp [skipBlanks, h]

/-! Values. -/

theorem readString_writeText (s : String) (rest : Bytes) :
    readString (writeText s ++ rest) = .ok (s, rest) := by
  rw [writeText_eq_cons, readString, skipBlanks_cons rfl]
  simp only [if_true, readText_written, grammar]

theorem reads_string (s : String) : Reads readString (writeText s) s :=
  fun rest _ => readString_writeText s rest

theorem blank_not_digit {b : UInt8} (h : isDigit b = true) : isBlank b = false := by
  cases hb : isBlank b with
  | false => rfl
  | true =>
      simp only [isBlank, Bool.or_eq_true, beq_iff_eq] at hb
      rcases hb with ((rfl | rfl) | rfl) | rfl <;> exact absurd h (by decide)

theorem reads_natural (n : UInt64) : Reads readNatural (decimal n.toNat) n := by
  intro rest hrest
  obtain ⟨b, ds, hds⟩ := List.exists_cons_of_ne_nil (decimal_ne_nil n.toNat)
  have hb : isDigit b = true := isDigit_decimal n.toNat (hds ▸ List.mem_cons_self)
  have hread := readNumber_decimal n.toNat_lt hrest.literalEnds
  rw [hds, List.cons_append] at hread
  rw [hds, List.cons_append, readNatural, skipBlanks_cons (blank_not_digit hb)]
  simp only [hb, or_true, if_true, hread, UInt64.ofNat_toNat]

/-! Items in a row: members of an object or elements of a list. -/

/-- The items that are still to come, with the comma in front of each but the first. -/
def itemsText (first : Bool) (items : List Bytes) : Bytes :=
  if first then separated items else items.flatMap (comma :: ·)

theorem itemsText_nil (first : Bool) : itemsText first [] = [] := by
  cases first <;> rfl

theorem itemsText_cons (first : Bool) (item : Bytes) (items : List Bytes) :
    itemsText first (item :: items) =
      (if first then [] else [comma]) ++ (item ++ itemsText false items) := by
  cases first <;> simp [itemsText, separated]

theorem valueEnds_itemsText (items : List Bytes) {rest : Bytes} (h : ValueEnds rest) :
    ValueEnds (itemsText false items ++ rest) := by
  cases items with
  | nil => exact h
  | cons item items => exact valueEnds_comma _

theorem length_itemsText (first : Bool) (items : List Bytes) :
    items.length ≤ (itemsText first items).length + 1 := by
  have later : ∀ items : List Bytes, items.length ≤ (itemsText false items).length := by
    intro items
    induction items with
    | nil => exact Nat.zero_le _
    | cons item items ih =>
        rw [itemsText_cons]
        simp only [Bool.false_eq_true, if_false, List.length_append, List.length_cons,
          List.length_nil]
        omega
  cases items with
  | nil => exact Nat.zero_le _
  | cons item items =>
      have hle := later items
      rw [itemsText_cons]
      simp only [List.length_append, List.length_cons]
      omega

/-! Members of an object. -/

def membersText (first : Bool) (ms : List (String × Bytes)) : Bytes :=
  itemsText first (ms.map fun m => writeMember m.1 m.2)

theorem membersText_nil (first : Bool) : membersText first [] = [] := itemsText_nil first

theorem membersText_cons (first : Bool) (m : String × Bytes) (ms : List (String × Bytes)) :
    membersText first (m :: ms) =
      (if first then [] else [comma]) ++ (writeMember m.1 m.2 ++ membersText false ms) :=
  itemsText_cons first _ _

theorem valueEnds_membersText (ms : List (String × Bytes)) {rest : Bytes}
    (h : ValueEnds rest) : ValueEnds (membersText false ms ++ rest) :=
  valueEnds_itemsText _ h

section
variable {σ : Type} (member : σ → String → Bytes → Except Fault (σ × Bytes))

theorem readKey_member (first : Bool) (key : String) (s : Bytes) :
    readKey first ((if first then [] else [comma]) ++ (writeText key ++ s)) =
      .ok (some key, s) := by
  cases first with
  | true =>
      simp only [if_true, List.nil_append]
      rw [writeText_eq_cons, readKey, skipBlanks_cons rfl]
      simp only [readText_written, if_true]
      rfl
  | false =>
      simp only [Bool.false_eq_true, if_false, List.cons_append, List.nil_append]
      rw [writeText_eq_cons, readKey, skipBlanks_cons rfl]
      simp only [skipBlanks_cons (show isBlank quote = false from rfl), readText_written]
      rfl

theorem readMembers_cons (f : UInt8) (fuel : Bytes) (first : Bool) (a : σ)
    (m : String × Bytes) (ms : List (String × Bytes)) (rest : Bytes) :
    readMembers member (f :: fuel) first a (membersText first (m :: ms) ++ rest) =
      (member a m.1 (colon :: (m.2 ++ (membersText false ms ++ rest)))).bind
        fun p => readMembers member fuel false p.1 p.2 := by
  have htext : membersText first (m :: ms) ++ rest = (if first then [] else [comma]) ++
      (writeText m.1 ++ (colon :: (m.2 ++ (membersText false ms ++ rest)))) := by
    simp [membersText_cons, writeMember]
  rw [htext, readMembers, readKey_member]
  rfl

theorem readMembers_close (f : UInt8) (fuel : Bytes) (first : Bool) (a : σ) (rest : Bytes) :
    readMembers member (f :: fuel) first a (closeBrace :: rest) = .ok (a, rest) := by
  rw [readMembers, readKey, skipBlanks_cons rfl]
  rfl

/-- The members lead from one state of knowledge to another. -/
inductive Gathers : σ → List (String × Bytes) → σ → Prop
  | nil (a : σ) : Gathers a [] a
  | cons {a a'' : σ} {key : String} {value : Bytes} {ms : List (String × Bytes)} (a' : σ)
      (head : ∀ rest, ValueEnds rest →
        member a key (colon :: (value ++ rest)) = .ok (a', rest))
      (tail : Gathers a' ms a'') : Gathers a ((key, value) :: ms) a''

variable {member}

/-- Reading goes on behind the members that have been read. -/
theorem readMembers_gathers {a a' : σ} {ms : List (String × Bytes)}
    (h : Gathers member a ms a') (first : Bool) (ms' : List (String × Bytes))
    (fuel : Bytes) {rest : Bytes} (hfuel : ms.length ≤ fuel.length) (hrest : ValueEnds rest) :
    readMembers member fuel first a (membersText first (ms ++ ms') ++ rest) =
      readMembers member (fuel.drop ms.length) (first && ms.isEmpty) a'
        (membersText (first && ms.isEmpty) ms' ++ rest) := by
  induction h generalizing first fuel with
  | nil a => simp
  | @cons _ _ _ _ ms _ head tail ih =>
      cases fuel with
      | nil => simp at hfuel
      | cons f fuel =>
          have hends := valueEnds_membersText (ms ++ ms') hrest
          have hrec := ih false fuel (by simpa using hfuel)
          rw [List.cons_append, readMembers_cons, head _ hends]
          simpa [Except.bind] using hrec

end

section
variable {σ α : Type} {l : Layout σ α}

theorem read_openBrace (l : Layout σ α) (s : Bytes) :
    l.read (openBrace :: s) = (readMembers l.member (openBrace :: s) true l.blank s).bind
      fun p => (l.finish p.1).map fun a => (a, p.2) := by
  rw [Layout.read, skipBlanks_cons rfl]
  simp only [if_neg (show openBrace ≠ openBracket by decide), if_true]
  cases readMembers l.member (openBrace :: s) true l.blank s with
  | error f => rfl
  | ok p => cases h : l.finish p.1 <;> simp [Except.bind, Except.map, h]

theorem writeObject_append (ms : List (String × Bytes)) (rest : Bytes) :
    writeObject ms ++ rest = openBrace :: (membersText true ms ++ closeBrace :: rest) := by
  simp [writeObject, membersText, itemsText]

theorem length_lt_writeObject (ms : List (String × Bytes)) (rest : Bytes) :
    ms.length < (writeObject ms ++ rest).length := by
  have hle := length_itemsText true (ms.map fun m => writeMember m.1 m.2)
  rw [List.length_map] at hle
  rw [writeObject_append, membersText]
  simp only [List.length_cons, List.length_append]
  omega

theorem reads_object {ms : List (String × Bytes)} {a : σ} {v : α}
    (h : Gathers l.member l.blank ms a) (hv : l.finish a = .ok v) :
    ∀ rest, l.read (writeObject ms ++ rest) = .ok (v, rest) := by
  intro rest
  have hlen := length_lt_writeObject ms rest
  obtain ⟨f, fuel, hfuel⟩ : ∃ f fuel, (writeObject ms ++ rest).drop ms.length = f :: fuel :=
    List.exists_cons_of_ne_nil (by simpa using hlen)
  have hread := readMembers_gathers h true [] _ (Nat.le_of_lt hlen) (valueEnds_closeBrace rest)
  rw [List.append_nil, hfuel, membersText_nil, List.nil_append, readMembers_close] at hread
  rw [writeObject_append] at hread ⊢
  rw [read_openBrace, hread]
  simp [Except.bind, Except.map, hv]

/-- A member that is refused, behind others that are not, has the record refused. -/
theorem read_object_error {ms ms' : List (String × Bytes)} {a : σ} {key : String}
    {value : Bytes} {f : Fault} (h : Gathers l.member l.blank ms a)
    (hbad : ∀ rest, l.member a key (colon :: (value ++ rest)) = .error f) :
    ∀ rest, l.read (writeObject (ms ++ (key, value) :: ms') ++ rest) = .error f := by
  intro rest
  have hlen := length_lt_writeObject (ms ++ (key, value) :: ms') rest
  rw [List.length_append] at hlen
  obtain ⟨b, fuel, hfuel⟩ : ∃ b fuel,
      (writeObject (ms ++ (key, value) :: ms') ++ rest).drop ms.length = b :: fuel :=
    List.exists_cons_of_ne_nil (by rw [ne_eq, List.drop_eq_nil_iff]; omega)
  have hread := readMembers_gathers h true ((key, value) :: ms')
    (writeObject (ms ++ (key, value) :: ms') ++ rest) (by omega) (valueEnds_closeBrace rest)
  rw [hfuel, readMembers_cons, hbad] at hread
  rw [writeObject_append] at hread ⊢
  rw [read_openBrace, hread]
  rfl

end

/-! Elements of a list. -/

/-- A text that can be told from the end of a list by its first octet. -/
def StartsValue (text : Bytes) : Prop :=
  ∃ b s, text = b :: s ∧ isBlank b = false ∧ b ≠ closeBracket

theorem nextElement_item (first : Bool) {text : Bytes} (h : StartsValue text) (s : Bytes) :
    nextElement first ((if first then [] else [comma]) ++ (text ++ s)) =
      .ok (true, text ++ s) := by
  obtain ⟨b, t, rfl, hblank, hclose⟩ := h
  cases first with
  | true =>
      simp only [if_true, List.nil_append, List.cons_append]
      rw [nextElement, skipBlanks_cons hblank]
      simp only [if_neg hclose, if_true]
  | false =>
      simp only [Bool.false_eq_true, if_false, List.cons_append, List.nil_append]
      rw [nextElement, skipBlanks_cons rfl]
      simp only [skipBlanks_cons hblank, if_neg hclose]
      rfl

theorem readElements_items {α β : Type} {read : Bytes → Except Fault (α × Bytes)}
    {text : β → Bytes} {value : β → α} {xs : List β}
    (h : ∀ x ∈ xs, Reads read (text x) (value x) ∧ StartsValue (text x)) (first : Bool)
    {fuel : Bytes} (hfuel : xs.length < fuel.length) (rest : Bytes) :
    readElements read fuel first (itemsText first (xs.map text) ++ closeBracket :: rest) =
      .ok (xs.map value, rest) := by
  induction xs generalizing first fuel with
  | nil =>
      obtain ⟨f, fuel, rfl⟩ := List.exists_cons_of_length_pos hfuel
      rw [List.map_nil, itemsText_nil, List.nil_append, readElements, nextElement,
        skipBlanks_cons rfl]
      rfl
  | cons x xs ih =>
      obtain ⟨f, fuel, rfl⟩ := List.exists_cons_of_length_pos (Nat.zero_lt_of_lt hfuel)
      obtain ⟨hread, hstart⟩ := h x List.mem_cons_self
      have hends := valueEnds_itemsText (xs.map text) (valueEnds_closeBracket rest)
      have hrec := ih (fun y hy => h y (List.mem_cons_of_mem x hy)) false
        (by simpa using hfuel)
      rw [List.map_cons, itemsText_cons, List.append_assoc, List.append_assoc, readElements,
        nextElement_item first hstart]
      simp only [ok_bind, if_true]
      rw [hread _ hends, ok_bind]
      simp only []
      rw [hrec]
      rfl

theorem readList_writeList {α β : Type} {read : Bytes → Except Fault (α × Bytes)}
    {text : β → Bytes} {value : β → α} {xs : List β}
    (h : ∀ x ∈ xs, Reads read (text x) (value x) ∧ StartsValue (text x)) (rest : Bytes) :
    readList read (writeList (xs.map text) ++ rest) = .ok (xs.map value, rest) := by
  have htext : writeList (xs.map text) ++ rest =
      openBracket :: (itemsText true (xs.map text) ++ closeBracket :: rest) := by
    simp [writeList, itemsText]
  have hlen := length_itemsText true (xs.map text)
  rw [List.length_map] at hlen
  rw [htext, readList, skipBlanks_cons rfl]
  simp only [if_true]
  apply readElements_items h
  simp only [List.length_cons, List.length_append]
  omega

end DiceRooms.Wire
