import DiceRooms.Proofs.Except
import DiceRooms.Proofs.Wire.Language

/-!
The readers of lists and records against the language of messages. For a record that is an
object two accounts go along with the reading: what the fields gathered so far say of the
members that have been read, and what is gathered of a record once given members of it have
been read.
-/
namespace DiceRooms.Wire

open Ascii Json

/-! Commas and elements. -/

theorem literalEnds_of_separated {ps : List Piece} {s rest : Bytes}
    (h : Separated false ps s rest) (hrest : LiteralEnds rest) : LiteralEnds s := by
  cases ps with
  | nil =>
      cases h
      exact hrest
  | cons p ps =>
      obtain ⟨s₁, s₂, hcomma, -⟩ := h
      exact literalEnds_comma hcomma

theorem Comma.length_le {first : Bool} {s rest : Bytes} (h : Comma first s rest) :
    rest.length ≤ s.length := by
  cases first with
  | true => exact Nat.le_of_eq (congrArg List.length h.symm)
  | false => exact Nat.le_of_lt (Mark.length_lt h)

theorem length_le_of_separated {first : Bool} {ps : List Piece} {s rest : Bytes}
    (hps : ∀ p ∈ ps, ∀ {s rest : Bytes}, p s rest → rest.length < s.length)
    (h : Separated first ps s rest) : rest.length ≤ s.length := by
  induction ps generalizing first s with
  | nil => exact Nat.le_of_eq (congrArg List.length h.symm)
  | cons p ps ih =>
      obtain ⟨s₁, s₂, hcomma, hp, hothers⟩ := h
      have := hcomma.length_le
      have := hps p List.mem_cons_self hp
      have := ih (fun p hp => hps p (List.mem_cons_of_mem _ hp)) hothers
      omega

theorem length_lt_of_enclosed {b : Bracket} {ps : List Piece} {s rest : Bytes}
    (hps : ∀ p ∈ ps, ∀ {s rest : Bytes}, p s rest → rest.length < s.length)
    (h : Enclosed b ps s rest) : rest.length < s.length := by
  obtain ⟨s₁, s₂, hopens, hseparated, hcloses⟩ := h
  have := hopens.length_lt
  have := length_le_of_separated hps hseparated
  have := hcloses.length_lt
  omega

theorem nextElement_end_iff {first : Bool} {s rest : Bytes} :
    nextElement first s = .ok (false, rest) ↔ Mark closeBracket s rest := by
  constructor
  · intro h
    rw [nextElement] at h
    split at h
    · cases h
    · next b r hs =>
        split at h
        · next hb =>
            cases h
            subst hb
            exact mark_of_skipBlanks hs
        · split at h
          · cases h
          · split at h
            · split at h
              · cases h
              · split at h <;> cases h
            · cases h
  · intro h
    have hs := skipBlanks_of_mark (by decide) h
    simp only [nextElement, hs, if_true]

/-- Another element begins behind its comma, and the blanks in front of it are gone. -/
theorem nextElement_more_iff {first : Bool} {s s' : Bytes} :
    nextElement first s = .ok (true, s') ↔
      ∃ s₁, Comma first s s₁ ∧ Starts s₁ ∧ s' = skipBlanks s₁ := by
  constructor
  · intro h
    rw [nextElement] at h
    split at h
    · cases h
    · next b r hs =>
        split at h
        · cases h
        · next hclose =>
            split at h
            · next hfirst =>
                cases h
                subst hfirst
                exact ⟨s, rfl, ⟨b, r, hs, hclose⟩, hs.symm⟩
            · next hfirst =>
                split at h
                · next hcomma =>
                    subst hcomma
                    split at h
                    · cases h
                    · next b r' hr =>
                        split at h
                        · cases h
                        · next hclose' =>
                            cases h
                            obtain rfl := Bool.eq_false_iff.mpr hfirst
                            exact ⟨r, mark_of_skipBlanks hs, ⟨b, r', hr, hclose'⟩, hr.symm⟩
                · cases h
  · rintro ⟨s₁, hcomma, ⟨b, r, hs₁, hclose⟩, rfl⟩
    cases first with
    | true =>
        cases hcomma
        simp only [nextElement, hs₁, if_neg hclose, if_true]
    | false =>
        have hs := skipBlanks_of_mark (by decide) hcomma
        simp only [nextElement, hs, if_neg (show comma ≠ closeBracket by decide), if_true, hs₁,
          if_neg hclose]
        rfl

section
variable {α : Type} {read : Bytes → Except Fault (α × Bytes)} {Of : α → Piece}

/-! Lists. -/

theorem separated_of_readElements (h : Accepts read Of) {fuel : Bytes} {first : Bool}
    {s rest : Bytes} {as : List α} (hread : readElements read fuel first s = .ok (as, rest)) :
    ∃ s', Separated first (as.map Of) s s' ∧ Mark closeBracket s' rest := by
  induction fuel generalizing first s as with
  | nil => cases hread
  | cons f fuel ih =>
      obtain ⟨⟨more, s₁⟩, hnext, hread⟩ := bind_eq_ok_iff.mp hread
      cases more with
      | false =>
          cases hread
          exact ⟨s, rfl, nextElement_end_iff.mp hnext⟩
      | true =>
          obtain ⟨s₀, hcomma, -, rfl⟩ := nextElement_more_iff.mp hnext
          obtain ⟨⟨a, s₂⟩, helement, hread⟩ := bind_eq_ok_iff.mp hread
          obtain ⟨⟨as', s₃⟩, hothers, hread⟩ := bind_eq_ok_iff.mp hread
          cases hread
          rw [h.blanks] at helement
          obtain ⟨s', hseparated, hclose⟩ := ih hothers
          exact ⟨s', ⟨s₀, s₂, hcomma, h.sound helement, hseparated⟩, hclose⟩

theorem readElements_of_separated (h : Accepts read Of) {as : List α} {first : Bool}
    {s s' rest : Bytes} (hseparated : Separated first (as.map Of) s s')
    (hclose : Mark closeBracket s' rest) {fuel : Bytes} (hfuel : s.length < fuel.length) :
    readElements read fuel first s = .ok (as, rest) := by
  induction as generalizing first s fuel with
  | nil =>
      obtain rfl : s = s' := hseparated
      cases fuel with
      | nil => cases hfuel
      | cons f fuel =>
          rw [readElements, nextElement_end_iff.mpr hclose]
          rfl
  | cons a as ih =>
      obtain ⟨s₁, s₂, hcomma, ha, hothers⟩ := hseparated
      cases fuel with
      | nil => cases hfuel
      | cons f fuel =>
          have hnext := nextElement_more_iff.mpr ⟨s₁, hcomma, h.starts ha, rfl⟩
          have hends := literalEnds_of_separated hothers (literalEnds_closing (b := .list) hclose)
          have hlength := hcomma.length_le
          have hshorter := h.shorter ha
          have hless : s₂.length < fuel.length := by
            simp only [List.length_cons] at hfuel
            omega
          have hrest := ih hothers hless
          rw [readElements, hnext]
          simp only [ok_bind, if_true, h.blanks, h.complete ha hends, hrest]

theorem accepts_list (h : Accepts read Of) :
    Accepts (readList read) fun as => Enclosed .list (as.map Of) where
  blanks s := by rw [readList, skipBlanks_idem, readList]
  sound {s as rest} hread := by
    rw [readList] at hread
    split at hread
    · cases hread
    · next b r hs =>
        split at hread
        · next hopen =>
            subst hopen
            obtain ⟨s', hseparated, hclose⟩ := separated_of_readElements h hread
            exact ⟨r, s', mark_of_skipBlanks hs, hseparated, hclose⟩
        · exact (refuse_ne_ok _ _ _ hread).elim
  complete {s as rest} henclosed _ := by
    obtain ⟨s₁, s', hopen, hseparated, hclose⟩ := henclosed
    have hs : skipBlanks s = openBracket :: s₁ := skipBlanks_of_mark (by decide) hopen
    simp only [readList, hs, if_true]
    exact readElements_of_separated h hseparated hclose (Nat.lt_succ_self s₁.length)
  starts {s as rest} henclosed := by
    obtain ⟨s₁, s', hopen, -⟩ := henclosed
    exact starts_of_mark (c := openBracket) (by decide) hopen
  shorter {s as rest} henclosed := by
    refine length_lt_of_enclosed ?_ henclosed
    intro p hp s rest hpiece
    obtain ⟨a, -, rfl⟩ := List.mem_map.mp hp
    exact h.shorter hpiece

/-! Fields. -/

theorem of_readElement (h : Accepts read Of) {record : Record} {place : Nat} {s rest : Bytes}
    {a : α} (hread : readElement record place read s = .ok (a, rest)) :
    ∃ s₁, Comma (place == 0) s s₁ ∧ Of a s₁ rest := by
  obtain ⟨⟨more, s'⟩, hnext, hread⟩ := bind_eq_ok_iff.mp hread
  cases more with
  | false => cases hread
  | true =>
      obtain ⟨s₁, hcomma, -, rfl⟩ := nextElement_more_iff.mp hnext
      dsimp only at hread
      rw [if_pos rfl, h.blanks] at hread
      exact ⟨s₁, hcomma, h.sound hread⟩

theorem readElement_of (h : Accepts read Of) (record : Record) (place : Nat)
    {s s₁ rest : Bytes} {a : α} (hcomma : Comma (place == 0) s s₁) (ha : Of a s₁ rest)
    (hrest : LiteralEnds rest) : readElement record place read s = .ok (a, rest) := by
  have hnext := nextElement_more_iff.mpr ⟨s₁, hcomma, h.starts ha, rfl⟩
  simp only [readElement, hnext, ok_bind, if_true, h.blanks, h.complete ha hrest]

theorem readColon_eq_ok_iff {s rest : Bytes} : readColon s = .ok rest ↔ Mark colon s rest := by
  constructor
  · intro h
    rw [readColon] at h
    split at h
    · cases h
    · next b r hs =>
        split at h
        · next hcolon =>
            cases h
            subst hcolon
            exact mark_of_skipBlanks hs
        · cases h
  · intro h
    have hs := skipBlanks_of_mark (by decide) h
    simp only [readColon, hs, if_true]

theorem of_readField (h : Accepts read Of) {name : String} {old : Option α} {s rest : Bytes}
    {a : α} (hread : readField name old read s = .ok (a, rest)) :
    old = none ∧ ∃ start, Mark colon s start ∧ Of a start rest := by
  rw [readField] at hread
  split at hread
  · cases hread
  · next hold =>
      obtain ⟨start, hcolon, hread⟩ := bind_eq_ok_iff.mp hread
      exact ⟨by simpa using hold, start, readColon_eq_ok_iff.mp hcolon, h.sound hread⟩

theorem readField_of (h : Accepts read Of) {name : String} {s start rest : Bytes} {a : α}
    (hcolon : Mark colon s start) (ha : Of a start rest) (hrest : LiteralEnds rest) :
    readField name none read s = .ok (a, rest) := by
  simp only [readField, Option.isSome_none, Bool.false_eq_true, if_false,
    readColon_eq_ok_iff.mpr hcolon, ok_bind, h.complete ha hrest]

end

theorem of_skipMember {σ : Type} {a a' : σ} {s rest : Bytes}
    (h : skipMember a s = .ok (a', rest)) :
    a' = a ∧ ∃ start, Mark colon s start ∧ Value start rest := by
  obtain ⟨start, hcolon, h⟩ := bind_eq_ok_iff.mp h
  obtain ⟨s', hvalue, h⟩ := bind_eq_ok_iff.mp h
  cases h
  exact ⟨rfl, start, readColon_eq_ok_iff.mp hcolon,
    value_of_skipValue (grammar_eq_ok_iff.mp hvalue)⟩

theorem skipMember_of {σ : Type} (a : σ) {s start rest : Bytes} (hcolon : Mark colon s start)
    (hvalue : Value start rest) (hrest : LiteralEnds rest) :
    skipMember a s = .ok (a, rest) := by
  simp only [skipMember, readColon_eq_ok_iff.mpr hcolon, ok_bind,
    grammar_eq_ok_iff.mpr (skipValue_of_value hvalue hrest)]

theorem required_eq_ok_iff {α : Type} {name : String} {o : Option α} {a : α} :
    required name o = .ok a ↔ o = some a := by
  cases o with
  | none => exact ⟨nofun, nofun⟩
  | some a' => exact ⟨fun h => congrArg some (Except.ok.inj h), fun h => by cases h; rfl⟩

theorem closeRecord_eq_ok_iff {s rest : Bytes} :
    closeRecord s = .ok rest ↔ Mark closeBracket s rest := by
  constructor
  · intro h
    rw [closeRecord] at h
    split at h
    · cases h
    · next b r hs =>
        split at h
        · next hclose =>
            cases h
            subst hclose
            exact mark_of_skipBlanks hs
        · split at h
          · split at h
            · cases h
            · cases h
          · cases h
  · intro h
    have hs := skipBlanks_of_mark (by decide) h
    simp only [closeRecord, hs, if_true]

/-! Keys. -/

/-- The key behind its opening quote. -/
theorem someText_eq_ok_iff {s rest : Bytes} {key : Option String} :
    grammar ((readText s).map fun (t, s) => (some t, s)) = .ok (key, rest) ↔
      ∃ t, key = some t ∧ Octets (utf8 t) s rest := by
  rw [grammar_eq_ok_iff, map_eq_ok_iff]
  constructor
  · rintro ⟨⟨t, s'⟩, hread, heq⟩
    cases heq
    exact ⟨t, rfl, readText_eq_ok_iff.mp hread⟩
  · rintro ⟨t, rfl, hoctets⟩
    exact ⟨(t, rest), readText_eq_ok_iff.mpr hoctets, rfl⟩

theorem of_readKey {first : Bool} {s rest : Bytes} {key : Option String}
    (h : readKey first s = .ok (key, rest)) :
    key = none ∧ Mark closeBrace s rest ∨
      ∃ t s₁, key = some t ∧ Comma first s s₁ ∧ Text t s₁ rest := by
  rw [readKey] at h
  split at h
  · cases h
  · next b r hs =>
      split at h
      · next hclose =>
          cases h
          subst hclose
          exact .inl ⟨rfl, mark_of_skipBlanks hs⟩
      · split at h
        · next hfirst =>
            subst hfirst
            split at h
            · next hquote =>
                subst hquote
                obtain ⟨t, rfl, hoctets⟩ := someText_eq_ok_iff.mp h
                exact .inr ⟨t, s, rfl, rfl, r, mark_of_skipBlanks hs, hoctets⟩
            · cases h
        · next hfirst =>
            obtain rfl := Bool.eq_false_iff.mpr hfirst
            split at h
            · next hcomma =>
                subst hcomma
                split at h
                · cases h
                · next b r' hr =>
                    split at h
                    · next hquote =>
                        subst hquote
                        obtain ⟨t, rfl, hoctets⟩ := someText_eq_ok_iff.mp h
                        exact .inr ⟨t, r, rfl, mark_of_skipBlanks hs, r', mark_of_skipBlanks hr,
                          hoctets⟩
                    · split at h <;> cases h
            · cases h

theorem readKey_of_close (first : Bool) {s rest : Bytes} (h : Mark closeBrace s rest) :
    readKey first s = .ok (none, rest) := by
  have hs := skipBlanks_of_mark (by decide) h
  simp only [readKey, hs, if_true]

theorem readKey_of_text {first : Bool} {s s₁ rest : Bytes} {t : String}
    (hcomma : Comma first s s₁) (ht : Text t s₁ rest) :
    readKey first s = .ok (some t, rest) := by
  obtain ⟨r, hquote, hoctets⟩ := ht
  have hs₁ := skipBlanks_of_mark (by decide) hquote
  have hread := someText_eq_ok_iff.mpr ⟨t, rfl, hoctets⟩
  cases first with
  | true =>
      cases hcomma
      simp only [readKey, hs₁, if_neg (show quote ≠ closeBrace by decide), if_true, hread]
  | false =>
      have hs := skipBlanks_of_mark (by decide) hcomma
      simp only [readKey, hs, hs₁, if_neg (show comma ≠ closeBrace by decide),
        if_neg Bool.false_ne_true, if_true, hread]

/-! Records. -/

/-- A field of a record that is being read. What is known of its value is the piece that
denotes it. -/
structure Slot where
  name : String
  piece : Option Piece

/-- What is known of the field says which members have had its name. -/
def Slot.Holds (x : Slot) (ms : List Member) : Prop :=
  match x.piece with
  | none => ms.filter (·.key = x.name) = []
  | some p => ∃ m, ms.filter (·.key = x.name) = [m] ∧ p m.start m.rest

def Field.slot (f : Field) : Slot := ⟨f.name, some f.piece⟩

/-- What is known of the fields is what the members read so far hold. -/
structure Held (xs : List Slot) (ms : List Member) : Prop where
  slots : ∀ x ∈ xs, x.Holds ms
  others : ∀ m ∈ ms, (∀ x ∈ xs, m.key ≠ x.name) → Value m.start m.rest

/-- The member gives a field its value, or it is passed over. -/
inductive Takes (m : Member) : List Slot → List Slot → Prop
  | fill (before : List Slot) {p : Piece} (after : List Slot) (hp : p m.start m.rest) :
      Takes m (before ++ ⟨m.key, none⟩ :: after) (before ++ ⟨m.key, some p⟩ :: after)
  | pass {xs : List Slot} (hkey : ∀ x ∈ xs, m.key ≠ x.name) (hvalue : Value m.start m.rest) :
      Takes m xs xs

theorem Slot.Holds.pass {x : Slot} {ms : List Member} (h : x.Holds ms) {m : Member}
    (hname : m.key ≠ x.name) : x.Holds (ms ++ [m]) := by
  have hsame : (ms ++ [m]).filter (·.key = x.name) = ms.filter (·.key = x.name) := by
    rw [List.filter_append, List.filter_cons_of_neg (by simpa using hname), List.filter_nil,
      List.append_nil]
  unfold Slot.Holds at h ⊢
  rwa [hsame]

theorem Slot.Holds.fill {p : Piece} {m : Member} {ms : List Member}
    (h : Slot.Holds ⟨m.key, none⟩ ms) (hp : p m.start m.rest) :
    Slot.Holds ⟨m.key, some p⟩ (ms ++ [m]) := by
  have hnone : ms.filter (·.key = m.key) = [] := h
  refine ⟨m, ?_, hp⟩
  rw [List.filter_append, hnone, List.nil_append, List.filter_cons_of_pos (by simp),
    List.filter_nil]

theorem Takes.names {m : Member} {xs ys : List Slot} (h : Takes m xs ys) :
    ys.map Slot.name = xs.map Slot.name := by
  cases h with
  | fill before after hp => simp only [List.map_append, List.map_cons]
  | pass => rfl

theorem Held.takes {m : Member} {xs ys : List Slot} {ms : List Member} (h : Held xs ms)
    (hnames : (xs.map Slot.name).Nodup) (htakes : Takes m xs ys) : Held ys (ms ++ [m]) where
  slots := by
    cases htakes with
    | fill before after hp =>
        rw [List.map_append, List.map_cons, List.perm_middle.nodup_iff, List.nodup_cons] at hnames
        have hother : ∀ x ∈ before ++ after, m.key ≠ x.name := by
          rintro x hx hname
          refine hnames.1 ?_
          rw [← List.map_append]
          exact List.mem_map.mpr ⟨x, hx, hname.symm⟩
        intro x hx
        rcases List.mem_append.mp hx with hx | hx
        · exact (h.slots x (by simp [hx])).pass (hother x (by simp [hx]))
        · rcases List.mem_cons.mp hx with rfl | hx
          · exact (h.slots _ (by simp)).fill hp
          · exact (h.slots x (by simp [hx])).pass (hother x (by simp [hx]))
    | pass hkey => exact fun x hx => (h.slots x hx).pass (hkey x hx)
  others := by
    have hsame : ∀ m' : Member, (∀ y ∈ ys, m'.key ≠ y.name) → ∀ x ∈ xs, m'.key ≠ x.name := by
      intro m' hm' x hx hname
      have hmem : x.name ∈ ys.map Slot.name := htakes.names ▸ List.mem_map_of_mem hx
      obtain ⟨y, hy, heq⟩ := List.mem_map.mp hmem
      exact hm' y hy (hname.trans heq.symm)
    intro m' hm' hkey
    rcases List.mem_append.mp hm' with hm' | hm'
    · exact h.others m' hm' (hsame m' hkey)
    · obtain rfl := List.mem_singleton.mp hm'
      cases htakes with
      | fill before after hp => exact (hkey _ (List.mem_append_right _ List.mem_cons_self) rfl).elim
      | pass _ hvalue => exact hvalue

theorem lists_of_held {fields : List Field} {ms : List Member}
    (h : Held (fields.map Field.slot) ms) : Lists fields ms where
  declared f hf := h.slots f.slot (List.mem_map_of_mem hf)
  others m hm hkey := by
    refine h.others m hm ?_
    intro x hx
    obtain ⟨f, hf, rfl⟩ := List.mem_map.mp hx
    exact hkey f hf

theorem held_of_unread {xs : List Slot} (h : ∀ x ∈ xs, x.piece = none) : Held xs [] where
  slots x hx := by
    unfold Slot.Holds
    rw [h x hx]
    rfl
  others m hm := nomatch hm

/-- A field of which the members with the given keys have been read. -/
def seen {α : Type} (keys : List String) (name : String) (a : α) : Option α :=
  if name ∈ keys then some a else none

theorem seen_append_self {α : Type} (keys : List String) (name : String) (a : α) :
    seen (keys ++ [name]) name a = some a :=
  if_pos (List.mem_append_right _ List.mem_cons_self)

theorem seen_append_of_ne {α : Type} {key name : String} (h : key ≠ name)
    (keys : List String) (a : α) : seen (keys ++ [key]) name a = seen keys name a := by
  have hmem : name ∈ keys ++ [key] ↔ name ∈ keys := by simp [Ne.symm h]
  simp only [seen, hmem]

/-- The layout reads the record with the given fields. What its states know is told by
`slots`, and `part` is the state in which a record is known as far as the given keys. -/
structure Lawful {σ α : Type} (l : Layout σ α) (fields : α → List Field)
    (slots : σ → List Slot) (part : α → List String → σ) : Prop where
  names : ∀ a, ((slots a).map Slot.name).Nodup
  unread : ∀ x ∈ slots l.blank, x.piece = none
  takes : ∀ {a a' : σ} {key : String} {s rest : Bytes}, l.member a key s = .ok (a', rest) →
    ∃ start, Mark colon s start ∧ Takes ⟨key, start, rest⟩ (slots a) (slots a')
  slots_of_finish : ∀ {a : σ} {v : α}, l.finish a = .ok v → slots a = (fields v).map Field.slot
  part_nil : ∀ v, part v [] = l.blank
  member_part : ∀ {v : α} {keys : List String} {m : Member} {s : Bytes},
    Mark colon s m.start → LiteralEnds m.rest →
    (∀ f ∈ fields v, m.key = f.name → f.name ∉ keys ∧ f.piece m.start m.rest) →
    ((∀ f ∈ fields v, m.key ≠ f.name) → Value m.start m.rest) →
      l.member (part v keys) m.key s = .ok (part v (keys ++ [m.key]), m.rest)
  finish_part : ∀ {v : α} {keys : List String},
    (∀ f ∈ fields v, f.name ∈ keys) → l.finish (part v keys) = .ok v
  of_elements : ∀ {v : α} {s rest : Bytes},
    l.elements s = .ok (v, rest) → Separated true ((fields v).map Field.piece) s rest
  elements_of : ∀ {v : α} {s rest : Bytes},
    Separated true ((fields v).map Field.piece) s rest → LiteralEnds rest →
      l.elements s = .ok (v, rest)
  shorter : ∀ {v : α}, ∀ f ∈ fields v, ∀ {s rest : Bytes},
    f.piece s rest → rest.length < s.length

/-- A member that has the name of a field is the only one, so none came before it. -/
theorem Lists.at {fields : List Field} {before after : List Member} {m : Member}
    (h : Lists fields (before ++ m :: after)) {f : Field} (hf : f ∈ fields)
    (hname : m.key = f.name) : f.name ∉ before.map Member.key ∧ f.piece m.start m.rest := by
  obtain ⟨m', hm', hpiece⟩ := h.declared f hf
  rw [List.filter_append, List.filter_cons_of_pos (by simpa using hname)] at hm'
  have hnone : before.filter (·.key = f.name) = [] := by
    cases hbefore : before.filter (·.key = f.name) with
    | nil => rfl
    | cons m₀ ms₀ =>
        rw [hbefore] at hm'
        have hlength := congrArg List.length hm'
        simp at hlength
  rw [hnone, List.nil_append] at hm'
  obtain ⟨rfl, -⟩ := List.cons.inj hm'
  refine ⟨?_, hpiece⟩
  intro hmem
  obtain ⟨m₀, hm₀, hkey⟩ := List.mem_map.mp hmem
  have hnot := List.filter_eq_nil_iff.mp hnone m₀ hm₀
  simp [hkey] at hnot

theorem Lists.shorter {fields : List Field} {ms : List Member} (h : Lists fields ms)
    (hfields : ∀ f ∈ fields, ∀ {s rest : Bytes}, f.piece s rest → rest.length < s.length)
    {m : Member} (hm : m ∈ ms) : m.rest.length < m.start.length := by
  by_cases hdeclared : ∃ f ∈ fields, m.key = f.name
  · obtain ⟨f, hf, hname⟩ := hdeclared
    obtain ⟨before, after, rfl⟩ := List.append_of_mem hm
    exact hfields f hf (h.at hf hname).2
  · exact (h.others m hm fun f hf hname => hdeclared ⟨f, hf, hname⟩).length_lt

theorem Lists.mem_keys {fields : List Field} {ms : List Member} (h : Lists fields ms) {f : Field}
    (hf : f ∈ fields) : f.name ∈ ms.map Member.key := by
  obtain ⟨m, hm, -⟩ := h.declared f hf
  have hmem : m ∈ ms.filter (·.key = f.name) := by
    rw [hm]
    exact List.mem_singleton.mpr rfl
  obtain ⟨hmem, hkey⟩ := List.mem_filter.mp hmem
  exact List.mem_map.mpr ⟨m, hmem, by simpa using hkey⟩

section
variable {σ α : Type} {l : Layout σ α} {fields : α → List Field}
  {slots : σ → List Slot} {part : α → List String → σ}

theorem members_of_readMembers (h : Lawful l fields slots part) {fuel : Bytes} {first : Bool}
    {a a' : σ} {s rest : Bytes} {before : List Member}
    (hread : readMembers l.member fuel first a s = .ok (a', rest)) (held : Held (slots a) before) :
    ∃ ms s', Separated first (ms.map Member.piece) s s' ∧ Mark closeBrace s' rest ∧
      Held (slots a') (before ++ ms) := by
  induction fuel generalizing first a s before with
  | nil => cases hread
  | cons f fuel ih =>
      obtain ⟨⟨key, s₁⟩, hkey, hread⟩ := bind_eq_ok_iff.mp hread
      rcases of_readKey hkey with ⟨rfl, hclose⟩ | ⟨t, s₀, rfl, hcomma, ht⟩
      · cases hread
        exact ⟨[], s, rfl, hclose, by rwa [List.append_nil]⟩
      · obtain ⟨⟨a₁, s₂⟩, hmember, hread⟩ := bind_eq_ok_iff.mp hread
        obtain ⟨start, hcolon, htakes⟩ := h.takes hmember
        have held₁ := held.takes (h.names a) htakes
        obtain ⟨ms, s', hseparated, hclose, held'⟩ := ih hread held₁
        refine ⟨⟨t, start, s₂⟩ :: ms, s', ?_, hclose, ?_⟩
        · exact ⟨s₀, s₂, hcomma, ⟨s₁, ht, hcolon, rfl⟩, hseparated⟩
        · rwa [List.append_assoc, List.singleton_append] at held'

theorem readMembers_of_members (h : Lawful l fields slots part) {v : α}
    {before ms : List Member} (hlists : Lists (fields v) (before ++ ms)) {first : Bool}
    {s s' rest : Bytes} (hseparated : Separated first (ms.map Member.piece) s s')
    (hclose : Mark closeBrace s' rest) {fuel : Bytes} (hfuel : s.length < fuel.length) :
    readMembers l.member fuel first (part v (before.map Member.key)) s =
      .ok (part v ((before ++ ms).map Member.key), rest) := by
  induction ms generalizing before first s fuel with
  | nil =>
      obtain rfl : s = s' := hseparated
      cases fuel with
      | nil => cases hfuel
      | cons f fuel =>
          rw [readMembers, readKey_of_close first hclose, List.append_nil]
          rfl
  | cons m ms ih =>
      obtain ⟨s₁, _, hcomma, ⟨s₂, htext, hcolon, rfl⟩, hothers⟩ := hseparated
      have hends : LiteralEnds m.rest :=
        literalEnds_of_separated hothers (literalEnds_closing (b := .object) hclose)
      have hvalue : (∀ f ∈ fields v, m.key ≠ f.name) → Value m.start m.rest :=
        hlists.others m (by simp)
      have hmember := h.member_part hcolon hends (fun f hf => hlists.at hf) hvalue
      have hshorter := hlists.shorter h.shorter (m := m) (by simp)
      cases fuel with
      | nil => cases hfuel
      | cons f fuel =>
          have := hcomma.length_le
          have := text_length htext
          have := hcolon.length_lt
          have hless : m.rest.length < fuel.length := by
            simp only [List.length_cons] at hfuel
            omega
          have hlists' : Lists (fields v) (before ++ [m] ++ ms) := by rwa [List.append_assoc]
          have hrest := ih hlists' hothers hless
          rw [List.map_append, List.map_singleton, List.append_assoc,
            List.singleton_append] at hrest
          rw [readMembers, readKey_of_text hcomma htext]
          simp only [ok_bind, hmember, hrest]

/-- A layout that keeps the laws reads exactly the records with its fields. -/
theorem accepts_record (h : Lawful l fields slots part) :
    Accepts l.read fun v => RecordOf (fields v) where
  blanks s := by rw [Layout.read, skipBlanks_idem, Layout.read]
  sound {s v rest} hread := by
    rw [Layout.read] at hread
    split at hread
    · cases hread
    · next b r hs =>
        split at hread
        · next hopen =>
            subst hopen
            obtain ⟨⟨v', s₁⟩, helements, hread⟩ := bind_eq_ok_iff.mp hread
            obtain ⟨s₂, hclose, hread⟩ := bind_eq_ok_iff.mp hread
            cases hread
            exact .inr ⟨r, s₁, mark_of_skipBlanks hs, h.of_elements helements,
              closeRecord_eq_ok_iff.mp hclose⟩
        · split at hread
          · next hopen =>
              subst hopen
              obtain ⟨⟨a, s₁⟩, hmembers, hread⟩ := bind_eq_ok_iff.mp hread
              obtain ⟨v', hfinish, hread⟩ := bind_eq_ok_iff.mp hread
              cases hread
              obtain ⟨ms, s', hseparated, hclose, held⟩ :=
                members_of_readMembers h hmembers (held_of_unread h.unread)
              exact .inl ⟨ms, ⟨r, s', mark_of_skipBlanks hs, hseparated, hclose⟩,
                lists_of_held (h.slots_of_finish hfinish ▸ held)⟩
          · exact (refuse_ne_ok _ _ _ hread).elim
  complete {s v rest} hrecord hrest := by
    rcases hrecord with ⟨ms, ⟨s₁, s', hopen, hseparated, hclose⟩, hlists⟩ |
      ⟨s₁, s', hopen, hseparated, hclose⟩
    · have hs : skipBlanks s = openBrace :: s₁ := skipBlanks_of_mark (by decide) hopen
      have hfuel : s₁.length < (openBrace :: s₁).length := Nat.lt_succ_self s₁.length
      have hlists' : Lists (fields v) ([] ++ ms) := hlists
      have hmembers := readMembers_of_members h hlists' hseparated hclose hfuel
      rw [List.map_nil, List.nil_append, h.part_nil] at hmembers
      have hfinish := h.finish_part (v := v) fun f hf => hlists.mem_keys hf
      simp only [Layout.read, hs, if_neg (show openBrace ≠ openBracket by decide), if_true,
        hmembers, ok_bind, hfinish]
    · have hs : skipBlanks s = openBracket :: s₁ := skipBlanks_of_mark (by decide) hopen
      have helements := h.elements_of hseparated (literalEnds_closing (b := .list) hclose)
      simp only [Layout.read, hs, if_true, helements, ok_bind,
        closeRecord_eq_ok_iff.mpr hclose]
  starts {s v rest} hrecord := by
    rcases hrecord with ⟨ms, ⟨s₁, s', hopen, -⟩, -⟩ | ⟨s₁, s', hopen, -⟩
    · exact starts_of_mark (c := openBrace) (by decide) hopen
    · exact starts_of_mark (c := openBracket) (by decide) hopen
  shorter {s v rest} hrecord := by
    rcases hrecord with ⟨ms, henclosed, hlists⟩ | henclosed
    · refine length_lt_of_enclosed ?_ henclosed
      intro p hp s rest hpiece
      obtain ⟨m, hm, rfl⟩ := List.mem_map.mp hp
      obtain ⟨s₁, htext, hcolon, rfl⟩ := hpiece
      have := text_length htext
      have := hcolon.length_lt
      have := hlists.shorter h.shorter hm
      omega
    · refine length_lt_of_enclosed ?_ henclosed
      intro p hp s rest hpiece
      obtain ⟨f, hf, rfl⟩ := List.mem_map.mp hp
      exact h.shorter f hf hpiece

end

end DiceRooms.Wire
