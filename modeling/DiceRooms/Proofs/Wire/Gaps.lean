import DiceRooms.Proofs.Wire.Acceptance
import DiceRooms.Proofs.Wire.Local
import Mathlib.Data.List.Forall2
import Mathlib.Data.List.Nodup

/-!
Documents with gaps where the types of the dice are spelled. What stands around the gaps
does not depend on what is spelled in them: with any other texts there the document is that
of the same roll with those texts for types.
-/
namespace DiceRooms.Wire

open Ascii Json Relation

/-! Texts with gaps. -/

/-- The gaps are the entries without a text. -/
abbrev Form := List (Option Bytes)

namespace Form

def gaps (f : Form) : Nat := f.count none

/-- The tokens go into the gaps one after another. -/
def fill : Form → List Bytes → Bytes
  | [], _ => []
  | some s :: f, tokens => s ++ fill f tokens
  | none :: f, tokens => tokens.headD [] ++ fill f tokens.tail

theorem fill_append {f g : Form} {tokens tokens' : List Bytes} (h : tokens.length = f.gaps) :
    fill (f ++ g) (tokens ++ tokens') = fill f tokens ++ fill g tokens' := by
  induction f generalizing tokens with
  | nil =>
      obtain rfl := List.length_eq_zero_iff.mp h
      rfl
  | cons entry f ih =>
      cases entry with
      | some s =>
          have htokens : tokens.length = gaps f := by simpa [gaps] using h
          simp only [List.cons_append, fill, ih htokens, List.append_assoc]
      | none =>
          cases tokens with
          | nil => simp [gaps] at h
          | cons token tokens =>
              have htokens : tokens.length = gaps f := by simpa [gaps] using h
              simp only [List.cons_append, fill, List.headD_cons, List.tail_cons, ih htokens,
                List.append_assoc]

end Form

/-- A string in one of its spellings, quotes included. -/
def Spelled (token : Bytes) (t : String) : Prop :=
  ∃ body, token = quote :: body ∧ Octets (utf8 t) body []

/-- A piece of a document that depends on as many texts, and on nothing of the document but
the places where they are spelled. -/
def Gapped (n : Nat) (P : List String → Piece) : Prop :=
  ∀ types s rest, types.length = n → P types s rest →
    ∃ (f : Form) (tokens : List Bytes), f.gaps = n ∧ List.Forall₂ Spelled tokens types ∧
      s = f.fill tokens ++ rest ∧
      ∀ types' tokens', types'.length = n → List.Forall₂ Spelled tokens' types' →
        Spans (P types') (f.fill tokens')

theorem Local.gapped {p : Piece} (h : Local p) : Gapped 0 fun _ => p := by
  intro types s rest htypes hs
  obtain rfl := List.length_eq_zero_iff.mp htypes
  obtain ⟨a, rfl, ha⟩ := h s rest hs
  have hfill : ∀ tokens, Form.fill [some a] tokens = a := fun _ => List.append_nil a
  exact ⟨[some a], [], rfl, .nil, by rw [hfill], fun _ _ _ _ => by rwa [hfill]⟩

theorem Gapped.congr {n : Nat} {P Q : List String → Piece} (hP : Gapped n P)
    (h : ∀ types, types.length = n → P types = Q types) : Gapped n Q := by
  intro types s rest htypes hs
  rw [← h types htypes] at hs
  obtain ⟨f, tokens, hf, htokens, heq, hspans⟩ := hP types s rest htypes hs
  refine ⟨f, tokens, hf, htokens, heq, fun types' tokens' htypes' htokens' => ?_⟩
  rw [← h types' htypes']
  exact hspans types' tokens' htypes' htokens'

theorem Gapped.comp {n m : Nat} {P Q : List String → Piece} (hP : Gapped n P)
    (hQ : Gapped m Q) :
    Gapped (n + m) fun types => Comp (P (types.take n)) (Q (types.drop n)) := by
  rintro types s rest htypes ⟨s₁, hs, hs₁⟩
  have htake : ∀ types : List String, types.length = n + m → (types.take n).length = n :=
    fun types h => by rw [List.length_take, h]; omega
  have hdrop : ∀ types : List String, types.length = n + m → (types.drop n).length = m :=
    fun types h => by rw [List.length_drop, h]; omega
  obtain ⟨f, tokens, hf, htokens, rfl, hspans⟩ := hP _ s s₁ (htake types htypes) hs
  obtain ⟨g, tokens₁, hg, htokens₁, rfl, hspans₁⟩ := hQ _ s₁ rest (hdrop types htypes) hs₁
  have hlength : tokens.length = f.gaps := by rw [htokens.length_eq, htake types htypes, hf]
  refine ⟨f ++ g, tokens ++ tokens₁, ?_, ?_, ?_, fun types' tokens' htypes' htokens' => ?_⟩
  · rw [Form.gaps, List.count_append]
    exact congrArg₂ (· + ·) hf hg
  · rw [← List.take_append_drop n types]
    exact List.rel_append htokens htokens₁
  · rw [Form.fill_append hlength, List.append_assoc]
  · have hfront := List.forall₂_take n htokens'
    have hback := List.forall₂_drop n htokens'
    have hlength' : (tokens'.take n).length = f.gaps := by
      rw [hfront.length_eq, htake types' htypes', hf]
    rw [← List.take_append_drop n tokens', Form.fill_append hlength']
    exact (hspans _ _ (htake types' htypes') hfront).comp
      (hspans₁ _ _ (hdrop types' htypes') hback)

section
variable {n : Nat} {P : List String → Piece} {p : Piece}

theorem Gapped.behind (hp : Local p) (hP : Gapped n P) :
    Gapped n fun types => Comp p (P types) := by
  have h := hp.gapped.comp hP
  rw [Nat.zero_add] at h
  exact h

theorem Gapped.ahead (hP : Gapped n P) (hp : Local p) :
    Gapped n fun types => Comp (P types) p := by
  refine Gapped.congr (hP.comp hp.gapped) fun types htypes => ?_
  rw [← htypes, List.take_length]

end

theorem gapped_text : Gapped 1 fun types => Text (types.headD "") := by
  rintro types s rest htypes ⟨s', ⟨bs, hbs, rfl⟩, hoctets⟩
  obtain ⟨t, rfl⟩ := List.length_eq_one_iff.mp htypes
  obtain ⟨body, rfl, hbody⟩ := local_octets _ _ _ hoctets
  have hbody' := hbody []
  rw [List.append_nil] at hbody'
  refine ⟨[some bs, none], [quote :: body], rfl, .cons ⟨body, rfl, hbody'⟩ .nil, ?_, ?_⟩
  · simp [Form.fill]
  · intro types' tokens' htypes' htokens' rest
    obtain ⟨t', rfl⟩ := List.length_eq_one_iff.mp htypes'
    obtain ⟨token, tokens, ⟨body', rfl, hoctets'⟩, hnil, rfl⟩ :=
      List.forall₂_cons_right_iff.mp htokens'
    obtain rfl := List.forall₂_nil_right_iff.mp hnil
    obtain ⟨body'', heq, hspans⟩ := local_octets _ _ _ hoctets'
    rw [List.append_nil] at heq
    subst heq
    refine ⟨body' ++ rest, ⟨bs, hbs, ?_⟩, hspans rest⟩
    simp [Form.fill]

/-! Pieces one after another. -/

theorem separated_cons (first : Bool) (p : Piece) (ps : List Piece) :
    Separated first (p :: ps) = Comp (Comma first) (Comp p (Separated false ps)) := by
  funext s rest
  refine propext ⟨?_, ?_⟩
  · rintro ⟨s₁, s₂, hcomma, hp, hps⟩
    exact ⟨s₁, hcomma, s₂, hp, hps⟩
  · rintro ⟨s₁, hcomma, s₂, hp, hps⟩
    exact ⟨s₁, s₂, hcomma, hp, hps⟩

theorem enclosed_eq (b : Bracket) (ps : List Piece) :
    Enclosed b ps = Comp (Mark b.opening) (Comp (Separated true ps) (Mark b.closing)) := by
  funext s rest
  refine propext ⟨?_, ?_⟩
  · rintro ⟨s₁, s₂, hopen, hps, hclose⟩
    exact ⟨s₁, hopen, s₂, hps, hclose⟩
  · rintro ⟨s₁, hopen, s₂, hps, hclose⟩
    exact ⟨s₁, s₂, hopen, hps, hclose⟩

theorem local_separated {first : Bool} {ps : List Piece} (h : ∀ p ∈ ps, Local p) :
    Local (Separated first ps) := by
  induction ps generalizing first with
  | nil => exact local_eq
  | cons p ps ih =>
      rw [separated_cons]
      exact (local_comma first).comp ((h p List.mem_cons_self).comp
        (ih fun q hq => h q (List.mem_cons_of_mem p hq)))

theorem gapped_separated {n : Nat} {P : List String → Piece} (before after : List Piece)
    (hbefore : ∀ p ∈ before, Local p) (hP : Gapped n P) (hafter : ∀ p ∈ after, Local p)
    (first : Bool) : Gapped n fun types => Separated first (before ++ P types :: after) := by
  induction before generalizing first with
  | nil =>
      simp only [List.nil_append, separated_cons]
      exact (hP.ahead (local_separated hafter)).behind (local_comma first)
  | cons p before ih =>
      simp only [List.cons_append, separated_cons]
      exact ((ih (fun q hq => hbefore q (List.mem_cons_of_mem p hq)) false).behind
        (hbefore p List.mem_cons_self)).behind (local_comma first)

theorem Gapped.enclosed {n : Nat} {ps : List String → List Piece}
    (h : Gapped n fun types => Separated true (ps types)) (b : Bracket) :
    Gapped n fun types => Enclosed b (ps types) := by
  simp only [enclosed_eq]
  exact (h.ahead (local_mark b.closing)).behind (local_mark b.opening)

/-! Objects told by their entries: a key, and what its value has to be. -/

def Field.entry (e : Field) : Piece := Comp (Text e.name) (Comp (Mark colon) e.piece)

/-- The member has the key of the entry, and a value as the entry wants it. -/
def Field.At (e : Field) (m : Member) : Prop := e.name = m.key ∧ e.piece m.start m.rest

/-- The entries are the fields, once each and in any order, among entries that hold any
value. -/
structure Arranges (fields entries : List Field) : Prop where
  declared : ∀ f ∈ fields, entries.filter (·.name = f.name) = [f]
  others : ∀ e ∈ entries, (∀ f ∈ fields, e.name ≠ f.name) → e.piece = Value

theorem separated_entries_iff {first : Bool} {entries : List Field} {s rest : Bytes} :
    Separated first (entries.map Field.entry) s rest ↔
      ∃ ms, List.Forall₂ Field.At entries ms ∧
        Separated first (ms.map Member.piece) s rest := by
  induction entries generalizing first s with
  | nil =>
      refine ⟨fun h => ⟨[], .nil, h⟩, ?_⟩
      rintro ⟨ms, hms, h⟩
      obtain rfl := List.forall₂_nil_left_iff.mp hms
      exact h
  | cons e entries ih =>
      constructor
      · rintro ⟨s₁, s₂, hcomma, ⟨s₃, hkey, start, hcolon, hvalue⟩, hothers⟩
        obtain ⟨ms, hms, hseparated⟩ := ih.mp hothers
        exact ⟨⟨e.name, start, s₂⟩ :: ms, .cons ⟨rfl, hvalue⟩ hms, s₁, s₂, hcomma,
          ⟨s₃, hkey, hcolon, rfl⟩, hseparated⟩
      · rintro ⟨ms, hms, h⟩
        obtain ⟨m, ms', ⟨hname, hvalue⟩, hms', rfl⟩ := List.forall₂_cons_left_iff.mp hms
        obtain ⟨s₁, _, hcomma, ⟨s₃, hkey, hcolon, rfl⟩, hseparated⟩ := h
        exact ⟨s₁, m.rest, hcomma, ⟨s₃, hname ▸ hkey, m.start, hcolon, hvalue⟩,
          ih.mpr ⟨ms', hms', hseparated⟩⟩

theorem exists_at_of_mem {entries : List Field} {ms : List Member}
    (h : List.Forall₂ Field.At entries ms) {m : Member} (hm : m ∈ ms) :
    ∃ e ∈ entries, e.At m := by
  induction h with
  | nil => cases hm
  | cons hhead _ ih =>
      rcases List.mem_cons.mp hm with rfl | hm
      · exact ⟨_, List.mem_cons_self, hhead⟩
      · obtain ⟨e, he, hat⟩ := ih hm
        exact ⟨e, List.mem_cons_of_mem _ he, hat⟩

theorem filter_at {entries : List Field} {ms : List Member}
    (h : List.Forall₂ Field.At entries ms) (name : String) :
    List.Forall₂ Field.At (entries.filter (·.name = name)) (ms.filter (·.key = name)) :=
  List.rel_filter (fun e m hat => by simp only [hat.1]) h

theorem Arranges.lists {fields entries : List Field} {ms : List Member}
    (h : Arranges fields entries) (hat : List.Forall₂ Field.At entries ms) : Lists fields ms where
  declared f hf := by
    have hfilter := filter_at hat f.name
    rw [h.declared f hf] at hfilter
    obtain ⟨m, ms', hm, hnil, heq⟩ := List.forall₂_cons_left_iff.mp hfilter
    obtain rfl := List.forall₂_nil_left_iff.mp hnil
    exact ⟨m, heq, hm.2⟩
  others m hm hother := by
    obtain ⟨e, he, hname, hvalue⟩ := exists_at_of_mem hat hm
    rwa [h.others e he fun f hf => hname ▸ hother f hf] at hvalue

/-- The field that the member is declared to hold, or any value. -/
def Member.entry (fields : List Field) (m : Member) : Field :=
  (fields.find? (·.name = m.key)).getD ⟨m.key, Value⟩

theorem Member.entry_of_mem {fields : List Field} (hnames : (fields.map Field.name).Nodup)
    {m : Member} {f : Field} (hf : f ∈ fields) (hname : f.name = m.key) :
    m.entry fields = f := by
  have hsome : (fields.find? (·.name = m.key)).isSome :=
    List.find?_isSome.mpr ⟨f, hf, by simpa using hname⟩
  obtain ⟨g, hg⟩ := Option.isSome_iff_exists.mp hsome
  have hkey : g.name = m.key := by simpa using List.find?_some hg
  rw [Member.entry, hg, Option.getD_some]
  exact List.inj_on_of_nodup_map hnames (List.mem_of_find?_eq_some hg) hf (hkey.trans hname.symm)

theorem Member.entry_of_other {fields : List Field} {m : Member}
    (h : ∀ f ∈ fields, m.key ≠ f.name) : m.entry fields = ⟨m.key, Value⟩ := by
  have hnone : fields.find? (·.name = m.key) = none :=
    List.find?_eq_none.mpr fun f hf => by simpa using fun heq => h f hf heq.symm
  rw [Member.entry, hnone, Option.getD_none]

theorem Lists.entry_at {fields : List Field} (hnames : (fields.map Field.name).Nodup)
    {ms : List Member} (h : Lists fields ms) {m : Member} (hm : m ∈ ms) :
    (m.entry fields).At m := by
  by_cases hdeclared : ∃ f ∈ fields, m.key = f.name
  · obtain ⟨f, hf, hname⟩ := hdeclared
    obtain ⟨before, after, rfl⟩ := List.append_of_mem hm
    rw [Member.entry_of_mem hnames hf hname.symm]
    exact ⟨hname.symm, (h.at hf hname).2⟩
  · have hother : ∀ f ∈ fields, m.key ≠ f.name := fun f hf hname => hdeclared ⟨f, hf, hname⟩
    rw [Member.entry_of_other hother]
    exact ⟨rfl, h.others m hm hother⟩

theorem Lists.arranges {fields : List Field} (hnames : (fields.map Field.name).Nodup)
    {ms : List Member} (h : Lists fields ms) :
    Arranges fields (ms.map (Member.entry fields)) where
  declared f hf := by
    obtain ⟨m, hm, -⟩ := h.declared f hf
    have hkey : m.key = f.name := by
      have hmem : m ∈ ms.filter (·.key = f.name) := hm ▸ List.mem_cons_self
      simpa using (List.mem_filter.mp hmem).2
    have hfilter : ms.filter ((fun e : Field => e.name = f.name) ∘ Member.entry fields) =
        ms.filter (·.key = f.name) :=
      List.filter_congr fun m' hm' => by simp [(h.entry_at hnames hm').1]
    rw [List.filter_map, hfilter, hm, List.map_singleton,
      Member.entry_of_mem hnames hf hkey.symm]
  others e he hother := by
    obtain ⟨m, hm, rfl⟩ := List.mem_map.mp he
    have hkey := (h.entry_at hnames hm).1
    rw [Member.entry_of_other fun f hf => hkey ▸ hother f hf]

theorem object_iff {fields : List Field} (hnames : (fields.map Field.name).Nodup)
    {s rest : Bytes} :
    (∃ ms, Enclosed .object (ms.map Member.piece) s rest ∧ Lists fields ms) ↔
      ∃ entries, Arranges fields entries ∧
        Enclosed .object (entries.map Field.entry) s rest := by
  constructor
  · rintro ⟨ms, ⟨s₁, s₂, hopen, hseparated, hclose⟩, hlists⟩
    have hat : List.Forall₂ Field.At (ms.map (Member.entry fields)) ms := by
      rw [List.forall₂_map_left_iff, List.forall₂_same]
      exact fun m hm => hlists.entry_at hnames hm
    exact ⟨_, hlists.arranges hnames, s₁, s₂, hopen,
      separated_entries_iff.mpr ⟨ms, hat, hseparated⟩, hclose⟩
  · rintro ⟨entries, harranges, s₁, s₂, hopen, hseparated, hclose⟩
    obtain ⟨ms, hat, hseparated⟩ := separated_entries_iff.mp hseparated
    exact ⟨ms, ⟨s₁, s₂, hopen, hseparated, hclose⟩, harranges.lists hat⟩

/-! Records of which one field varies. -/

theorem mem_middle_iff {before after : List Field} {e f : Field} :
    f ∈ before ++ e :: after ↔ f = e ∨ f ∈ before ++ after :=
  List.perm_middle.mem_iff.trans List.mem_cons

theorem filter_middle {before after : List Field} (e : Field) {name : String}
    (h : e.name ≠ name) :
    (before ++ e :: after).filter (·.name = name) = (before ++ after).filter (·.name = name) := by
  rw [List.filter_append, List.filter_cons_of_neg (by simpa using h), ← List.filter_append]

theorem Arranges.field_or_value {fields entries : List Field} (h : Arranges fields entries)
    {e : Field} (he : e ∈ entries) : e ∈ fields ∨ e.piece = Value := by
  by_cases hdeclared : ∃ f ∈ fields, e.name = f.name
  · obtain ⟨f, hf, hname⟩ := hdeclared
    have hmem : e ∈ entries.filter (·.name = f.name) :=
      List.mem_filter.mpr ⟨he, by simpa using hname⟩
    rw [h.declared f hf, List.mem_singleton] at hmem
    exact .inl (hmem ▸ hf)
  · exact .inr (h.others e he fun f hf hname => hdeclared ⟨f, hf, hname⟩)

/-- A field has one entry, and no other entry has its name. -/
theorem Arranges.split {fields entries : List Field} (h : Arranges fields entries) {f : Field}
    (hf : f ∈ fields) :
    ∃ before after, entries = before ++ f :: after ∧ ∀ e ∈ before ++ after, e.name ≠ f.name := by
  have hsingle := h.declared f hf
  have hmem : f ∈ entries := (List.mem_filter.mp (hsingle ▸ List.mem_singleton.mpr rfl)).1
  obtain ⟨before, after, rfl⟩ := List.append_of_mem hmem
  have hnone : (before ++ after).filter (·.name = f.name) = [] := by
    have hlength := congrArg List.length hsingle
    rw [List.filter_append, List.filter_cons_of_pos (by simp), List.length_append,
      List.length_cons, List.length_singleton] at hlength
    rw [List.filter_append, ← List.length_eq_zero_iff, List.length_append]
    omega
  exact ⟨before, after, rfl, by simpa using List.filter_eq_nil_iff.mp hnone⟩

/-- The one entry for a field may be given another value to hold. -/
theorem Arranges.exchange {before after eb ea : List Field} {name : String} {p : Piece}
    (hfields : ∀ f ∈ before ++ after, f.name ≠ name) (hentries : ∀ e ∈ eb ++ ea, e.name ≠ name)
    (h : Arranges (before ++ ⟨name, p⟩ :: after) (eb ++ ⟨name, p⟩ :: ea)) (q : Piece) :
    Arranges (before ++ ⟨name, q⟩ :: after) (eb ++ ⟨name, q⟩ :: ea) where
  declared f hf := by
    rcases mem_middle_iff.mp hf with rfl | hf
    · have hnone : ∀ es ⊆ eb ++ ea, es.filter (·.name = name) = [] := fun es hes =>
        List.filter_eq_nil_iff.mpr fun e he => by simpa using hentries e (hes he)
      rw [List.filter_append, List.filter_cons_of_pos (by simp),
        hnone eb (List.subset_append_left eb ea), hnone ea (List.subset_append_right eb ea)]
      rfl
    · have hname := (hfields f hf).symm
      rw [filter_middle ⟨name, q⟩ hname, ← filter_middle ⟨name, p⟩ hname]
      exact h.declared f (mem_middle_iff.mpr (.inr hf))
  others e he hother := by
    have hname : e.name ≠ name := hother ⟨name, q⟩ (mem_middle_iff.mpr (.inl rfl))
    have he' : e ∈ eb ++ ea := (mem_middle_iff.mp he).resolve_left fun heq => hname (heq ▸ rfl)
    refine h.others e (mem_middle_iff.mpr (.inr he')) fun f hf => ?_
    rcases mem_middle_iff.mp hf with rfl | hf
    · exact hname
    · exact hother f (mem_middle_iff.mpr (.inr hf))

theorem Field.local_entry {e : Field} (h : Local e.piece) : Local e.entry :=
  (local_text e.name).comp ((local_mark colon).comp h)

theorem gapped_record {n : Nat} {P : List String → Piece} (before after : List Field)
    (name : String) (hnames : (before.map Field.name ++ name :: after.map Field.name).Nodup)
    (hlocal : ∀ f ∈ before ++ after, Local f.piece) (hP : Gapped n P) :
    Gapped n fun types => RecordOf (before ++ ⟨name, P types⟩ :: after) := by
  have hnames' : ∀ q, ((before ++ ⟨name, q⟩ :: after).map Field.name).Nodup := by
    simpa only [List.map_append, List.map_cons] using fun _ => hnames
  have hfields : ∀ f ∈ before ++ after, f.name ≠ name := by
    intro f hf hname
    rw [List.nodup_middle, List.nodup_cons, ← List.map_append] at hnames
    exact hnames.1 (List.mem_map.mpr ⟨f, hf, hname⟩)
  intro types s rest htypes hrecord
  rcases hrecord with hobject | hlist
  · obtain ⟨entries, harranges, henclosed⟩ := (object_iff (hnames' _)).mp hobject
    obtain ⟨eb, ea, rfl, hothers⟩ := harranges.split (mem_middle_iff.mpr (.inl rfl))
    have hentries : ∀ e ∈ eb ++ ea, Local e.entry := by
      refine fun e he => Field.local_entry ?_
      rcases harranges.field_or_value (mem_middle_iff.mpr (.inr he)) with hfield | hvalue
      · have hne : e ≠ ⟨name, P types⟩ := fun heq => hothers e he (heq ▸ rfl)
        exact hlocal e ((mem_middle_iff.mp hfield).resolve_left hne)
      · exact hvalue ▸ local_value
    have hgapped := Gapped.enclosed (gapped_separated (eb.map Field.entry) (ea.map Field.entry)
      (List.forall_mem_map.mpr fun e he => hentries e (List.mem_append_left ea he))
      ((hP.behind (local_mark colon)).behind (local_text name))
      (List.forall_mem_map.mpr fun e he => hentries e (List.mem_append_right eb he)) true) .object
    rw [List.map_append, List.map_cons] at henclosed
    obtain ⟨f, tokens, hf, htokens, heq, hspans⟩ := hgapped types s rest htypes henclosed
    refine ⟨f, tokens, hf, htokens, heq, fun types' tokens' htypes' htokens' rest' => .inl ?_⟩
    refine (object_iff (hnames' _)).mpr ⟨_, harranges.exchange hfields hothers (P types'), ?_⟩
    rw [List.map_append, List.map_cons]
    exact hspans types' tokens' htypes' htokens' rest'
  · have hgapped := Gapped.enclosed (gapped_separated (before.map Field.piece)
      (after.map Field.piece)
      (List.forall_mem_map.mpr fun f hf => hlocal f (List.mem_append_left after hf)) hP
      (List.forall_mem_map.mpr fun f hf => hlocal f (List.mem_append_right before hf)) true) .list
    rw [List.map_append, List.map_cons] at hlist
    obtain ⟨f, tokens, hf, htokens, heq, hspans⟩ := hgapped types s rest htypes hlist
    refine ⟨f, tokens, hf, htokens, heq, fun types' tokens' htypes' htokens' rest' => .inr ?_⟩
    rw [List.map_append, List.map_cons]
    exact hspans types' tokens' htypes' htokens' rest'

/-! Rolls with other types for their dice. -/

def RawDie.retype (d : RawDie) (t : String) : RawDie := { d with type := t }

def RawRoll.retype (r : RawRoll) (types : List String) : RawRoll :=
  { r with dice := r.dice.zipWith RawDie.retype types }

theorem gapped_die (d : RawDie) : Gapped 1 fun types => RawDieOf (d.retype (types.headD "")) :=
  gapped_record [⟨"ID", Text d.id⟩] [⟨"Side", Natural d.side⟩] "Type" (by simp)
    (by simp [local_text, local_natural]) gapped_text

theorem gapped_dice (dice : List RawDie) (first : Bool) :
    Gapped dice.length fun types =>
      Separated first ((dice.zipWith RawDie.retype types).map RawDieOf) := by
  induction dice generalizing first with
  | nil => exact local_eq.gapped
  | cons d dice ih =>
      rw [List.length_cons, Nat.add_comm]
      refine Gapped.congr (((gapped_die d).comp (ih false)).behind (local_comma first)) ?_
      intro types htypes
      cases types with
      | nil =>
          rw [List.length_nil] at htypes
          omega
      | cons t types =>
          rw [List.zipWith_cons_cons, List.map_cons, separated_cons]
          rfl

theorem gapped_roll (r : RawRoll) :
    Gapped r.dice.length fun types => RawRollOf (r.retype types) :=
  gapped_record
    [⟨"ID", Text r.id⟩, ⟨"Serial", Natural r.serial⟩, ⟨"CreatedAt", Time r.createdAt⟩,
      ⟨"RoomID", Text r.room⟩, ⟨"UserID", Text r.user⟩] [] "Dice" (by simp)
    (by simp [local_text, local_natural, local_time])
    (Gapped.enclosed (gapped_dice r.dice true) .list)

theorem gapped_created (r : RawRoll) :
    Gapped r.dice.length fun types => RecordOf (createdFields (r.retype types)) :=
  gapped_record [] [] "DiceRoll" (by simp) (by simp) (gapped_roll r)

end DiceRooms.Wire
