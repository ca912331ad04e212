/-!
Finite maps as association lists in the order of first entry. `at?_put`, `at?_adjust`
and `at?_remove` say what each change does to every look-up. `Keyed` tables hold each
key once, and every operation keeps them so.
-/
namespace DiceRooms

abbrev Table (κ υ : Type) := List (κ × υ)

namespace Table

variable {κ υ : Type} [DecidableEq κ]

def at? : Table κ υ → κ → Option υ
  | [], _ => none
  | (k', v) :: t, k => if k' = k then some v else at? t k

/-- A key that is present keeps its place. -/
def put : Table κ υ → κ → υ → Table κ υ
  | [], k, v => [(k, v)]
  | (k', v') :: t, k, v => if k' = k then (k', v) :: t else (k', v') :: put t k v

def remove (t : Table κ υ) (k : κ) : Table κ υ :=
  t.filter fun e => e.1 ≠ k

def adjust : Table κ υ → κ → (υ → υ) → Table κ υ
  | [], _, _ => []
  | (k', v) :: t, k, f => if k' = k then (k', f v) :: t else (k', v) :: adjust t k f

def keys (t : Table κ υ) : List κ := t.map Prod.fst

def Keyed (t : Table κ υ) : Prop := (keys t).Nodup

theorem at?_put (t : Table κ υ) (k k' : κ) (v : υ) :
    (t.put k v).at? k' = if k = k' then some v else t.at? k' := by
  induction t with
  | nil => simp [put, at?]
  | cons e t ih =>
    simp only [put]
    split
    · next h => subst h; simp only [at?]; split <;> rfl
    · next h =>
      simp only [at?, ih]
      split
      · next h' => subst h'; rw [if_neg (Ne.symm h)]
      · rfl

theorem at?_adjust (t : Table κ υ) (k k' : κ) (f : υ → υ) :
    (t.adjust k f).at? k' = if k = k' then (t.at? k').map f else t.at? k' := by
  induction t with
  | nil => simp [adjust, at?]
  | cons e t ih =>
    simp only [adjust]
    split
    · next h => subst h; simp only [at?]; split <;> simp_all
    · next h =>
      simp only [at?, ih]
      split
      · next h' => subst h'; rw [if_neg (Ne.symm h)]
      · rfl

theorem mem_keys_put {t : Table κ υ} {k k' : κ} {v : υ} :
    k' ∈ keys (put t k v) ↔ k' = k ∨ k' ∈ keys t := by
  induction t with
  | nil => simp [put, keys]
  | cons e t ih =>
    simp only [put]
    split
    · next h => subst h; simp [keys]
    · simp only [keys, List.map_cons, List.mem_cons] at ih ⊢
      rw [ih]
      constructor
      · rintro (h | h | h)
        · exact .inr (.inl h)
        · exact .inl h
        · exact .inr (.inr h)
      · rintro (h | h | h)
        · exact .inr (.inl h)
        · exact .inl h
        · exact .inr (.inr h)

theorem at?_eq_none_iff {t : Table κ υ} {k : κ} : t.at? k = none ↔ k ∉ keys t := by
  induction t with
  | nil => simp [at?, keys]
  | cons e t ih =>
    simp only [at?, keys, List.map_cons, List.mem_cons, not_or] at ih ⊢
    split
    · next h => subst h; simp
    · next h => rw [ih]; exact ⟨fun h' => ⟨fun h'' => h h''.symm, h'⟩, fun h' => h'.2⟩

theorem keyed_put {t : Table κ υ} (h : t.Keyed) (k : κ) (v : υ) : (t.put k v).Keyed := by
  induction t with
  | nil => simp [put, Keyed, keys]
  | cons e t ih =>
    simp only [put]
    have h' : e.1 ∉ keys t ∧ Keyed t := by simpa [Keyed, keys] using h
    split
    · simpa [Keyed, keys] using h'
    · next hne =>
      have : e.1 ∉ keys (put t k v) := by
        rw [mem_keys_put]
        exact fun hm => hm.elim hne h'.1
      simpa [Keyed, keys] using And.intro this (ih h'.2)

theorem at?_remove (t : Table κ υ) (k k' : κ) :
    (remove t k).at? k' = if k = k' then none else t.at? k' := by
  induction t with
  | nil => simp [remove, at?]
  | cons e t ih =>
    simp only [remove] at ih ⊢
    by_cases he : e.1 = k
    · rw [List.filter_cons_of_neg (by simp [he]), ih]
      subst he
      split
      · rfl
      · next h => simp only [at?, if_neg h]
    · rw [List.filter_cons_of_pos (by simp [he])]
      simp only [at?, ih]
      split
      · next h => subst h; rw [if_neg (Ne.symm he)]
      · rfl

theorem mem_keys_remove {t : Table κ υ} {k k' : κ} :
    k' ∈ keys (remove t k) ↔ k' ∈ keys t ∧ k' ≠ k := by
  simp only [keys, remove, List.mem_map, List.mem_filter, decide_eq_true_eq]
  constructor
  · rintro ⟨e, ⟨he, hk⟩, rfl⟩
    exact ⟨⟨e, he, rfl⟩, hk⟩
  · rintro ⟨⟨e, he, rfl⟩, hk⟩
    exact ⟨e, ⟨he, hk⟩, rfl⟩

theorem keyed_remove {t : Table κ υ} (h : t.Keyed) (k : κ) : Keyed (remove t k) :=
  h.sublist (List.filter_sublist.map _)

theorem keys_adjust (t : Table κ υ) (k : κ) (f : υ → υ) : keys (adjust t k f) = keys t := by
  induction t with
  | nil => rfl
  | cons e t ih =>
    simp only [adjust]
    split
    · rfl
    · simpa [keys] using ih

theorem keyed_adjust {t : Table κ υ} (h : t.Keyed) (k : κ) (f : υ → υ) :
    Keyed (adjust t k f) := by
  rw [Keyed]
  rw [keys_adjust]
  exact h

end Table

end DiceRooms
