import DiceRooms.Proofs.Settings
import DiceRooms.Proofs.Text.Ascii

/-!
Environments judged variable by variable. What a text stands for as the value of a variable
is said without the readers; an environment is accepted exactly when every variable that it
sets has a text that stands for something, and otherwise the first one that has not is
reported.
-/
namespace DiceRooms.Settings

/-! What the texts of the variables stand for. -/

def Variable.Value : Variable → Type
  | .hub => HubKind
  | .topic => String
  | .capacity | .replicas => Nat

/-- The value of the setting that the variable is for. -/
def get (s : Settings) : (v : Variable) → v.Value
  | .hub => s.hubKind
  | .topic => s.topic
  | .capacity => s.capacity
  | .replicas => s.replicas

def NamesHub (text : String) (kind : HubKind) : Prop :=
  (text = "memory" ∧ kind = .memory) ∨ (text = "broker" ∧ kind = .broker)

def NamesTopic (text topic : String) : Prop := text ≠ "" ∧ topic = text

def NamesCount (text : String) (n : Nat) : Prop :=
  Numeral (utf8 text) n ∧ 0 < n ∧ n < UInt64.size

def Denotes : (v : Variable) → String → v.Value → Prop
  | .hub => NamesHub
  | .topic => NamesTopic
  | .capacity | .replicas => NamesCount

def Valid (v : Variable) (text : String) : Prop := ∃ value, Denotes v text value

/-- The environment has the text for the variable. A value that is not the encoding of a
text leaves the variable unset. -/
def Sets (env : Environment) (v : Variable) (text : String) : Prop :=
  env.lookup v.key = some (utf8 text)

/-- The value that the text of the variable denotes, or the default where it has none. -/
def Holds (env : Environment) (v : Variable) (value : v.Value) : Prop :=
  (∃ text, Sets env v text ∧ Denotes v text value) ∨
    (∀ text, ¬ Sets env v text) ∧ value = default.get v

/-- The place of a variable among those that may be reported. -/
def Variable.rank : Variable → Nat
  | .hub => 0
  | .topic => 1
  | .capacity => 2
  | .replicas => 3

theorem Variable.rank_injective {u v : Variable} (h : u.rank = v.rank) : u = v := by
  cases u <;> cases v <;> simp_all [Variable.rank]

structure FirstInvalid (env : Environment) (v : Variable) (text : String) : Prop where
  set : Sets env v text
  invalid : ¬ Valid v text
  first : ∀ u text', u.rank < v.rank → Sets env u text' → Valid u text'

/-- What ends the reading of digits: one that is none, or digits that amount to more than 64
bits hold, whichever comes first. -/
inductive Broken : Bytes → NumberFault → Prop
  | badDigit {ds rest : Bytes} {b : UInt8} (digits : ∀ d ∈ ds, Ascii.isDigit d = true)
      (small : Ascii.digitsValue ds < UInt64.size) (bad : Ascii.isDigit b = false) :
      Broken (ds ++ b :: rest) .badDigit
  | tooLarge {ds rest : Bytes} (digits : ∀ d ∈ ds, Ascii.isDigit d = true)
      (large : UInt64.size ≤ Ascii.digitsValue ds) : Broken (ds ++ rest) .tooLarge

inductive NoNumber : Bytes → NumberFault → Prop
  | empty : NoNumber [] .empty
  | sign : NoNumber [Ascii.plus] .badDigit
  | plain {s : Bytes} {f : NumberFault} (unsigned : s.head? ≠ some Ascii.plus)
      (broken : Broken s f) : NoNumber s f
  | signed {s : Bytes} {f : NumberFault} (broken : Broken s f) : NoNumber (Ascii.plus :: s) f

/-- Why a text does not stand for a value of the variable. -/
inductive Because : Variable → String → Reason → Prop
  | noHubKind (text : String) : Because .hub text .noHubKind
  | emptyTopic : Because .topic "" .emptyTopic
  | zero {v : Variable} {text : String} (number : v = .capacity ∨ v = .replicas)
      (zero : Numeral (utf8 text) 0) : Because v text .zero
  | noNumber {v : Variable} {text : String} {f : NumberFault}
      (number : v = .capacity ∨ v = .replicas) (none : NoNumber (utf8 text) f) :
      Because v text (.noNumber f)

/-! Reading the text of a variable. -/

def reader : (v : Variable) → String → Except Reason v.Value
  | .hub => readHubKind
  | .topic => readTopic
  | .capacity | .replicas => readPositive

theorem ofName?_eq_some_iff {text : String} {k : HubKind} :
    HubKind.ofName? text = some k ↔ k.name = text := by
  constructor
  · intro h
    have hname := List.find?_some (p := fun k : HubKind => k.name == text) h
    exact beq_iff_eq.mp hname
  · rintro rfl
    cases k <;> rfl

theorem readHubKind_eq_ok_iff {text : String} {k : HubKind} :
    readHubKind text = .ok k ↔ NamesHub text k := by
  have hnames : NamesHub text k ↔ HubKind.ofName? text = some k := by
    rw [ofName?_eq_some_iff]
    cases k <;> simp [NamesHub, HubKind.name, eq_comm]
  rw [hnames, readHubKind]
  cases HubKind.ofName? text with
  | none => simp
  | some k' => simp

theorem readTopic_eq_ok_iff {text topic : String} :
    readTopic text = .ok topic ↔ NamesTopic text topic := by
  rw [readTopic, NamesTopic]
  by_cases h : text = ""
  · simp [h]
  · simp [h, eq_comm]

theorem reader_eq_ok_iff {v : Variable} {text : String} {value : v.Value} :
    reader v text = .ok value ↔ Denotes v text value := by
  cases v with
  | hub => exact readHubKind_eq_ok_iff
  | topic => exact readTopic_eq_ok_iff
  | capacity => exact readPositive_eq_ok_iff
  | replicas => exact readPositive_eq_ok_iff

/-- The digits in front have been read, and what they amount to is carried along. -/
theorem broken_of_readDigits {front s : Bytes} {f : NumberFault}
    (digits : ∀ d ∈ front, Ascii.isDigit d = true)
    (small : Ascii.digitsValue front < UInt64.size)
    (h : readDigits (Ascii.digitsValue front) s = .error f) : Broken (front ++ s) f := by
  induction s generalizing front with
  | nil => cases h
  | cons b s ih =>
      rw [readDigits] at h
      split at h
      · next hb =>
          cases h
          exact .badDigit digits small (Bool.eq_false_iff.mpr hb)
      · next hb =>
          have hdigits : ∀ d ∈ front ++ [b], Ascii.isDigit d = true :=
            List.forall_mem_append.mpr ⟨digits, List.forall_mem_singleton.mpr (by simpa using hb)⟩
          rw [← Ascii.digitsValue_concat] at h
          rw [List.append_cons]
          dsimp only at h
          split at h
          · next hlarge =>
              cases h
              exact .tooLarge hdigits hlarge
          · next hlarge => exact ih hdigits (Nat.not_le.mp hlarge) h

theorem broken_of_readDigits_zero {s : Bytes} {f : NumberFault} (h : readDigits 0 s = .error f) :
    Broken s f := by
  have digits : ∀ d ∈ ([] : Bytes), Ascii.isDigit d = true := List.forall_mem_nil _
  have small : Ascii.digitsValue [] < UInt64.size := by decide
  exact broken_of_readDigits digits small h

theorem noNumber_of_readNumber {s : Bytes} {f : NumberFault} (h : readNumber s = .error f) :
    NoNumber s f := by
  cases s with
  | nil =>
      cases h
      exact .empty
  | cons b s =>
      rw [readNumber] at h
      split at h
      · next hplus =>
          subst hplus
          split at h
          · next hs =>
              cases h
              exact hs ▸ .sign
          · exact .signed (broken_of_readDigits_zero h)
      · next hplus =>
          exact .plain (by simpa using hplus) (broken_of_readDigits_zero h)

theorem because_of_readPositive {v : Variable} {text : String} {reason : Reason}
    (number : v = .capacity ∨ v = .replicas) (h : readPositive text = .error reason) :
    Because v text reason := by
  rw [readPositive] at h
  split at h
  · next f hf =>
      cases h
      exact .noNumber number (noNumber_of_readNumber hf)
  · next hzero =>
      cases h
      exact .zero number (readNumber_eq_ok_iff.mp hzero).1
  · cases h

theorem because_of_reader {v : Variable} {text : String} {reason : Reason}
    (h : reader v text = .error reason) : Because v text reason := by
  cases v with
  | hub =>
      rw [reader, readHubKind] at h
      split at h <;> cases h
      exact .noHubKind text
  | topic =>
      rw [reader, readTopic] at h
      split at h
      · next hempty =>
          cases h
          exact hempty ▸ .emptyTopic
      · cases h
  | capacity => exact because_of_readPositive (.inl rfl) h
  | replicas => exact because_of_readPositive (.inr rfl) h

/-! The fields of the settings. -/

section
variable {env : Environment} {v : Variable}

theorem valueOf_eq_some_iff {text : String} : valueOf env v = some text ↔ Sets env v text := by
  simp [valueOf, Sets, Option.bind_eq_some_iff, ofUtf8?_eq_some_iff]

theorem valueOf_eq_none_iff : valueOf env v = none ↔ ∀ text, ¬ Sets env v text := by
  simp only [Option.eq_none_iff_forall_ne_some, ne_eq, valueOf_eq_some_iff]

theorem Sets.unique {text text' : String} (h : Sets env v text) (h' : Sets env v text') :
    text = text' :=
  Option.some.inj ((valueOf_eq_some_iff.mpr h).symm.trans (valueOf_eq_some_iff.mpr h'))

def entry (env : Environment) (v : Variable) : Except Invalid v.Value :=
  field env v (reader v) (default.get v)

theorem entry_eq_ok_iff {value : v.Value} : entry env v = .ok value ↔ Holds env v value := by
  rw [entry, field_eq_ok_iff, Gives, Holds]
  simp only [valueOf_eq_none_iff, valueOf_eq_some_iff, reader_eq_ok_iff]
  exact or_comm

theorem entry_eq_error_iff {e : Invalid} :
    entry env v = .error e ↔
      e.setting = v ∧ Sets env v e.value ∧ reader v e.value = .error e.reason := by
  rw [entry, field, ← valueOf_eq_some_iff]
  cases valueOf env v with
  | none => simp
  | some text =>
      rw [Option.some.injEq]
      dsimp only
      cases hread : reader v text with
      | ok value =>
          constructor
          · intro h
            cases h
          · rintro ⟨-, rfl, herror⟩
            cases hread.symm.trans herror
      | error reason =>
          constructor
          · intro h
            cases h
            exact ⟨rfl, rfl, hread⟩
          · rintro ⟨rfl, rfl, herror⟩
            cases hread.symm.trans herror
            rfl

theorem exists_entry_iff :
    (∃ value, entry env v = .ok value) ↔ ∀ text, Sets env v text → Valid v text := by
  simp only [entry_eq_ok_iff, Holds]
  constructor
  · rintro ⟨value, ⟨text, hset, hdenotes⟩ | ⟨hunset, -⟩⟩ text' hset'
    · exact ⟨value, hset.unique hset' ▸ hdenotes⟩
    · exact absurd hset' (hunset text')
  · intro h
    by_cases hset : ∃ text, Sets env v text
    · obtain ⟨text, hset⟩ := hset
      obtain ⟨value, hdenotes⟩ := h text hset
      exact ⟨value, .inl ⟨text, hset, hdenotes⟩⟩
    · exact ⟨_, .inr ⟨not_exists.mp hset, rfl⟩⟩

theorem firstInvalid_of_entry {e : Invalid} (h : entry env v = .error e)
    (hfirst : ∀ u : Variable, u.rank < v.rank → ∃ value, entry env u = .ok value) :
    FirstInvalid env e.setting e.value := by
  obtain ⟨rfl, hset, herror⟩ := entry_eq_error_iff.mp h
  refine ⟨hset, ?_, fun u text hrank => exists_entry_iff.mp (hfirst u hrank) text⟩
  rintro ⟨value, hdenotes⟩
  cases herror.symm.trans (reader_eq_ok_iff.mpr hdenotes)

theorem because_of_entry {e : Invalid} (h : entry env v = .error e) :
    Because e.setting e.value e.reason := by
  obtain ⟨rfl, -, herror⟩ := entry_eq_error_iff.mp h
  exact because_of_reader herror

theorem FirstInvalid.unique {u : Variable} {text text' : String} (h : FirstInvalid env v text)
    (h' : FirstInvalid env u text') : v = u ∧ text = text' := by
  have hrank : v.rank = u.rank := by
    refine Nat.le_antisymm (Nat.not_lt.mp fun hlt => ?_) (Nat.not_lt.mp fun hlt => ?_)
    · exact h'.invalid (h.first u text' hlt h'.set)
    · exact h.invalid (h'.first v text hlt h.set)
  obtain rfl := Variable.rank_injective hrank
  exact ⟨rfl, h.set.unique h'.set⟩

end

/-! The settings as a whole. -/

variable {env : Environment}

theorem ofEnvironment_eq_ok_iff_holds {s : Settings} :
    ofEnvironment env = .ok s ↔ ∀ v, Holds env v (s.get v) := by
  rw [ofEnvironment_eq_ok_iff]
  simp only [← field_eq_ok_iff, ← entry_eq_ok_iff]
  constructor
  · rintro ⟨hhub, htopic, hcapacity, hreplicas⟩ v
    cases v <;> assumption
  · intro h
    exact ⟨h .hub, h .topic, h .capacity, h .replicas⟩

/-- The variables that come before the next one are those that come before this one, and
this one. -/
theorem passed_succ {v : Variable} {P : Variable → Prop} (hpassed : ∀ u, u.rank < v.rank → P u)
    (hv : P v) : ∀ u : Variable, u.rank < v.rank + 1 → P u := by
  intro u hu
  rcases Nat.lt_succ_iff_lt_or_eq.mp hu with hlt | heq
  · exact hpassed u hlt
  · exact Variable.rank_injective heq ▸ hv

/-- The entries are looked at one after another, and the first that fails is the answer. -/
theorem firstInvalid_of_error {e : Invalid} (h : ofEnvironment env = .error e) :
    FirstInvalid env e.setting e.value ∧ Because e.setting e.value e.reason := by
  have stops : ∀ v, entry env v = .error e →
      (∀ u : Variable, u.rank < v.rank → ∃ value, entry env u = .ok value) →
      FirstInvalid env e.setting e.value ∧ Because e.setting e.value e.reason := by
    intro v hv hpassed
    exact ⟨firstInvalid_of_entry hv hpassed, because_of_entry hv⟩
  rcases bind_eq_error_iff.mp h with hhub | ⟨hubKind, hhub, h⟩
  · exact stops .hub hhub nofun
  have hpassed := passed_succ (v := .hub) (P := fun u => ∃ value, entry env u = .ok value) nofun
    ⟨hubKind, hhub⟩
  rcases bind_eq_error_iff.mp h with htopic | ⟨topic, htopic, h⟩
  · exact stops .topic htopic hpassed
  have hpassed := passed_succ (v := .topic) hpassed ⟨topic, htopic⟩
  rcases bind_eq_error_iff.mp h with hcapacity | ⟨capacity, hcapacity, h⟩
  · exact stops .capacity hcapacity hpassed
  have hpassed := passed_succ (v := .capacity) hpassed ⟨capacity, hcapacity⟩
  rcases bind_eq_error_iff.mp h with hreplicas | ⟨replicas, hreplicas, h⟩
  · exact stops .replicas hreplicas hpassed
  · cases h

/-- What is made of an environment. -/
structure DecidedByVariables (env : Environment) : Prop where
  accepted : (∃ s, ofEnvironment env = .ok s) ↔ ∀ v text, Sets env v text → Valid v text
  /-- Every setting has the value that its variable denotes, or the default. -/
  fields : ∀ s, ofEnvironment env = .ok s ↔ ∀ v, Holds env v (s.get v)
  /-- The first invalid variable is reported with its text. -/
  refused : ∀ v text, (∃ e, ofEnvironment env = .error e ∧ e.setting = v ∧ e.value = text) ↔
    FirstInvalid env v text
  explained : ∀ e, ofEnvironment env = .error e → Because e.setting e.value e.reason
  /-- Nothing else in the environment matters. -/
  determined : ∀ env', (∀ v text, Sets env' v text ↔ Sets env v text) →
    ofEnvironment env' = ofEnvironment env

theorem accepted_iff :
    (∃ s, ofEnvironment env = .ok s) ↔ ∀ v text, Sets env v text → Valid v text := by
  constructor
  · rintro ⟨s, hs⟩ v
    exact exists_entry_iff.mp ⟨_, entry_eq_ok_iff.mpr (ofEnvironment_eq_ok_iff_holds.mp hs v)⟩
  · intro h
    have hentry := fun v => exists_entry_iff.mpr (h v)
    obtain ⟨hubKind, hhub⟩ := hentry .hub
    obtain ⟨topic, htopic⟩ := hentry .topic
    obtain ⟨capacity, hcapacity⟩ := hentry .capacity
    obtain ⟨replicas, hreplicas⟩ := hentry .replicas
    refine ⟨⟨hubKind, topic, capacity, replicas⟩, ofEnvironment_eq_ok_iff_holds.mpr fun v => ?_⟩
    cases v with
    | hub => exact entry_eq_ok_iff.mp hhub
    | topic => exact entry_eq_ok_iff.mp htopic
    | capacity => exact entry_eq_ok_iff.mp hcapacity
    | replicas => exact entry_eq_ok_iff.mp hreplicas

theorem decided_by_variables (env : Environment) : DecidedByVariables env where
  accepted := accepted_iff
  fields _ := ofEnvironment_eq_ok_iff_holds
  refused v text := by
    constructor
    · rintro ⟨e, he, rfl, rfl⟩
      exact (firstInvalid_of_error he).1
    · intro h
      cases hresult : ofEnvironment env with
      | error e =>
          obtain ⟨hsetting, hvalue⟩ := (firstInvalid_of_error hresult).1.unique h
          exact ⟨e, rfl, hsetting, hvalue⟩
      | ok s => exact absurd (accepted_iff.mp ⟨s, hresult⟩ v text h.set) h.invalid
  explained _ h := (firstInvalid_of_error h).2
  determined env' h := by
    have hvalue : ∀ v, valueOf env' v = valueOf env v := fun v =>
      Option.ext fun text => by
        simpa only [valueOf_eq_some_iff] using h v text
    simp only [ofEnvironment, field, hvalue]

/-- Of two invalid variables the capacity comes first, in whichever order they are set. -/
example :
    ofEnvironment [("ROLLIFY_REPLICAS", utf8 "-1"), ("ROLLIFY_DELIVERY_CAPACITY", utf8 "+00")] =
      .error ⟨.capacity, "+00", .zero⟩ :=
  rfl

end DiceRooms.Settings
