import DiceRooms.Proofs.Deployment.History
import DiceRooms.Proofs.Except
import DiceRooms.Settings

/-!
Which environments are accepted, and the hubs that are built on the settings taken from
them. A number is accepted up to the limit of 64 bits, but a channel cannot be made that
large: the settings of an accepted environment build a hub exactly where their capacity is
no more than `Channel.maxCapacity`, and for a larger one there is no hub to be had.
-/
namespace DiceRooms

namespace Settings

/-! Numbers as they are written. -/

/-- The digits of a number, with at most one plus sign in front. -/
inductive Numeral : Bytes → Nat → Prop
  | plain {ds : Bytes} (some : ds ≠ []) (digits : ∀ b ∈ ds, Ascii.isDigit b = true) :
      Numeral ds (Ascii.digitsValue ds)
  | signed {ds : Bytes} (some : ds ≠ []) (digits : ∀ b ∈ ds, Ascii.isDigit b = true) :
      Numeral (Ascii.plus :: ds) (Ascii.digitsValue ds)

/-- Further digits make no number smaller. -/
theorem le_foldl_digits (acc : Nat) (ds : Bytes) :
    acc ≤ ds.foldl (fun n d => 10 * n + Ascii.digitValue d) acc := by
  induction ds generalizing acc with
  | nil => exact Nat.le_refl acc
  | cons b ds ih =>
      have grows : acc ≤ 10 * acc + Ascii.digitValue b := by omega
      exact Nat.le_trans grows (ih _)

theorem readDigits_eq_ok_iff {acc n : Nat} {ds : Bytes} (hacc : acc < UInt64.size) :
    readDigits acc ds = .ok n ↔
      (∀ b ∈ ds, Ascii.isDigit b = true) ∧
        ds.foldl (fun n d => 10 * n + Ascii.digitValue d) acc = n ∧ n < UInt64.size := by
  induction ds generalizing acc with
  | nil =>
      simp only [readDigits, Except.ok.injEq, List.foldl_nil]
      exact ⟨fun h => ⟨nofun, h, h ▸ hacc⟩, fun h => h.2.1⟩
  | cons b ds ih =>
      rw [readDigits, List.forall_mem_cons, List.foldl_cons]
      by_cases hb : Ascii.isDigit b = true
      · rw [if_neg (not_not_intro hb)]
        by_cases hlarge : UInt64.size ≤ 10 * acc + Ascii.digitValue b
        · -- What has grown too large stays so, whatever follows.
          rw [if_pos hlarge]
          refine ⟨nofun, fun ⟨_, heq, hn⟩ => ?_⟩
          have := le_foldl_digits (10 * acc + Ascii.digitValue b) ds
          omega
        · rw [if_neg hlarge, ih (by omega), and_assoc]
          exact ⟨fun h => ⟨hb, h⟩, fun h => h.2⟩
      · rw [if_pos hb]
        exact ⟨nofun, fun h => absurd h.1.1 hb⟩

theorem isDigit_plus : Ascii.isDigit Ascii.plus = false := rfl

theorem readNumber_eq_ok_iff {s : Bytes} {n : Nat} :
    readNumber s = .ok n ↔ Numeral s n ∧ n < UInt64.size := by
  have none : (0 : Nat) < UInt64.size := by decide
  constructor
  · intro h
    cases s with
    | nil => cases h
    | cons b ds =>
        rw [readNumber] at h
        split at h
        · next heq =>
            subst heq
            split at h
            · cases h
            · next hsome =>
                obtain ⟨digits, rfl, hn⟩ := (readDigits_eq_ok_iff none).mp h
                exact ⟨.signed hsome digits, hn⟩
        · obtain ⟨digits, rfl, hn⟩ := (readDigits_eq_ok_iff none).mp h
          exact ⟨.plain (List.cons_ne_nil b ds) digits, hn⟩
  · rintro ⟨numeral, hn⟩
    cases numeral with
    | plain hsome digits =>
        cases s with
        | nil => exact absurd rfl hsome
        | cons b ds =>
            have hb : b ≠ Ascii.plus := by
              rintro rfl
              cases isDigit_plus.symm.trans (digits _ List.mem_cons_self)
            rw [readNumber, if_neg hb]
            exact (readDigits_eq_ok_iff none).mpr ⟨digits, rfl, hn⟩
    | signed hsome digits =>
        rw [readNumber, if_pos rfl, if_neg hsome]
        exact (readDigits_eq_ok_iff none).mpr ⟨digits, rfl, hn⟩

theorem readPositive_eq_ok_iff {text : String} {n : Nat} :
    readPositive text = .ok n ↔ Numeral (utf8 text) n ∧ 0 < n ∧ n < UInt64.size := by
  rw [readPositive]
  cases hread : readNumber (utf8 text) with
  | error f =>
      refine ⟨nofun, fun ⟨numeral, _, hn⟩ => ?_⟩
      cases hread.symm.trans (readNumber_eq_ok_iff.mpr ⟨numeral, hn⟩)
  | ok k =>
      obtain ⟨numeral, hk⟩ := readNumber_eq_ok_iff.mp hread
      cases k with
      | zero =>
          refine ⟨nofun, fun ⟨numeral', hpos, hn⟩ => ?_⟩
          have heq := hread.symm.trans (readNumber_eq_ok_iff.mpr ⟨numeral', hn⟩)
          cases heq
          exact absurd hpos (Nat.lt_irrefl 0)
      | succ k =>
          constructor
          · rintro ⟨⟩
            exact ⟨numeral, k.succ_pos, hk⟩
          · rintro ⟨numeral', _, hn⟩
            cases hread.symm.trans (readNumber_eq_ok_iff.mpr ⟨numeral', hn⟩)
            rfl

/-! Environments. -/

/-- What a variable gives: what its text is read as, or the default where it is unset. -/
def Gives (env : Environment) (v : Variable) {α : Type} (read : String → Except Reason α)
    (unset a : α) : Prop :=
  (valueOf env v = none ∧ a = unset) ∨
    ∃ text, valueOf env v = some text ∧ read text = .ok a

theorem field_eq_ok_iff {env : Environment} {v : Variable} {α : Type}
    {read : String → Except Reason α} {unset a : α} :
    field env v read unset = .ok a ↔ Gives env v read unset a := by
  rw [field, Gives]
  cases hvalue : valueOf env v with
  | none => simp [eq_comm]
  | some text =>
      cases hread : read text with
      | error r => simp [hread]
      | ok a' => simp [hread]

/-- An environment is accepted exactly as what each of its variables gives. -/
theorem ofEnvironment_eq_ok_iff {env : Environment} {s : Settings} :
    ofEnvironment env = .ok s ↔
      Gives env .hub readHubKind default.hubKind s.hubKind ∧
      Gives env .topic readTopic default.topic s.topic ∧
      Gives env .capacity readPositive default.capacity s.capacity ∧
      Gives env .replicas readPositive default.replicas s.replicas := by
  simp only [ofEnvironment, bind_eq_ok_iff, field_eq_ok_iff]
  constructor
  · rintro ⟨hub, hhub, topic, htopic, capacity, hcapacity, replicas, hreplicas, ⟨⟩⟩
    exact ⟨hhub, htopic, hcapacity, hreplicas⟩
  · rintro ⟨hhub, htopic, hcapacity, hreplicas⟩
    exact ⟨_, hhub, _, htopic, _, hcapacity, _, hreplicas, rfl⟩

theorem topic_ne_empty_of_gives {env : Environment} {topic : String}
    (h : Gives env .topic readTopic default.topic topic) : topic ≠ "" := by
  rcases h with ⟨-, rfl⟩ | ⟨text, -, hread⟩
  · decide
  · rw [readTopic] at hread
    split at hread
    · cases hread
    · next hne => cases hread; exact hne

theorem pos_of_gives {env : Environment} {v : Variable} {unset n : Nat} (hunset : 0 < unset)
    (h : Gives env v readPositive unset n) : 0 < n := by
  rcases h with ⟨-, rfl⟩ | ⟨text, -, hread⟩
  · exact hunset
  · exact (readPositive_eq_ok_iff.mp hread).2.1

/-- A capacity past the limit of channels has been asked for by name. -/
theorem numeral_of_gives {env : Environment} {n : Nat}
    (h : Gives env .capacity readPositive default.capacity n) (hlarge : Channel.maxCapacity < n) :
    ∃ text, valueOf env .capacity = some text ∧ Numeral (utf8 text) n ∧ n < UInt64.size := by
  rcases h with ⟨-, rfl⟩ | ⟨text, hvalue, hread⟩
  · exact absurd hlarge (by decide)
  · obtain ⟨numeral, -, hn⟩ := readPositive_eq_ok_iff.mp hread
    exact ⟨text, hvalue, numeral, hn⟩

/-- What a hub is built with by whoever has a client and a token. -/
def hubConfig (s : Settings) (route : Route) (token : Token) : HubConfig :=
  ⟨some route, some token, s.topic, s.capacity⟩

end Settings

/-- A config that names all it needs is refused for the size of its channel alone. -/
theorem HubConfig.check_complete {topic : String} {capacity : Nat} (htopic : topic ≠ "")
    (hcapacity : capacity ≠ 0) (route : Route) (token : Token) :
    (⟨some route, some token, topic, capacity⟩ : HubConfig).check =
      if capacity ≤ Channel.maxCapacity then .ok (route, token, .ofCapacity capacity)
      else .error (.unsupported .tooLarge) := by
  simp only [check, Channel.ofCapacity?, htopic, hcapacity, if_false]
  by_cases hfits : capacity ≤ Channel.maxCapacity
  · simp only [hfits, Nat.not_lt.mpr hfits, if_true, if_false]
  · simp only [hfits, Nat.not_le.mp hfits, if_true, if_false]

namespace Deployment

/-- Without the relay, a config that passes its check makes a hub. -/
theorem buildHub_direct (d : Deployment) {c : HubConfig} {token : Token} {capacity : Nat}
    (hcheck : c.check = .ok (.direct, token, .ofCapacity capacity)) :
    (d.buildHub c).2 = .ok d.hubs.length ∧
      (d.buildHub c).1.brokerHub? d.hubs.length =
        some ⟨c.topic, .direct, .empty, (d.tokens.child token).2,
          d.exchange.broker.channels.length, .running, true⟩ ∧
      (d.buildHub c).1.exchange.broker =
        d.exchange.broker.apply (.subscribe c.topic capacity) := by
  rw [buildHub, hcheck]
  refine ⟨rfl, ?_, rfl⟩
  rw [← brokerHub?_core]
  exact Core.brokerHub?_eq_some_iff.mpr List.getElem?_concat_length

end Deployment

namespace Settings

/-- What comes of building a hub on the settings of an accepted environment. -/
structure Builds (env : Environment) (s : Settings) (d : Deployment) (token : Token) : Prop where
  /-- A capacity that a channel can have makes a hub whose loop runs and whose channel is on
  the topic. -/
  fits : s.capacity ≤ Channel.maxCapacity →
    ∃ hub, (d.buildHub (s.hubConfig .direct token)).2 = .ok d.hubs.length ∧
      (d.buildHub (s.hubConfig .direct token)).1.brokerHub? d.hubs.length = some hub ∧
      hub.topic = s.topic ∧ hub.phase = .running ∧
      hub.subscription ∈
        (d.buildHub (s.hubConfig .direct token)).1.exchange.broker.subscriptions s.topic
  /-- A larger one makes none, and changes nothing. -/
  exceeds : Channel.maxCapacity < s.capacity →
    d.buildHub (s.hubConfig .direct token) = (d, .error (.unsupported .tooLarge))
  /-- Only a number in the environment is that large. -/
  asked : Channel.maxCapacity < s.capacity →
    ∃ text, valueOf env .capacity = some text ∧ Numeral (utf8 text) s.capacity ∧
      s.capacity < UInt64.size

theorem builds_of_accepted {env : Environment} {s : Settings}
    (accepted : ofEnvironment env = .ok s) (d : Deployment) (token : Token) :
    Builds env s d token := by
  obtain ⟨-, htopic, hcapacity, -⟩ := ofEnvironment_eq_ok_iff.mp accepted
  have hpos := pos_of_gives (by decide) hcapacity
  have hcheck : (s.hubConfig .direct token).check = _ :=
    HubConfig.check_complete (topic_ne_empty_of_gives htopic) (Nat.ne_of_gt hpos) .direct token
  constructor
  · intro hfits
    rw [if_pos hfits] at hcheck
    obtain ⟨hbuilt, hhub, hbroker⟩ := d.buildHub_direct hcheck
    refine ⟨_, hbuilt, hhub, rfl, rfl, ?_⟩
    rw [hbroker, Broker.subscriptions_subscribe]
    show d.exchange.broker.channels.length ∈ if s.topic = s.topic then _ else _
    rw [if_pos rfl]
    exact List.mem_append_right _ List.mem_cons_self
  · intro hexceeds
    rw [if_neg (Nat.not_le.mpr hexceeds)] at hcheck
    rw [Deployment.buildHub, hcheck]
  · exact numeral_of_gives hcapacity

theorem builds_of_accepted_largest :
    ∃ s, ofEnvironment [("ROLLIFY_EVENT_TOPIC", utf8 "rolls"),
        ("ROLLIFY_DELIVERY_CAPACITY", utf8 "+2305843009213693951")] = .ok s ∧
      s.topic = "rolls" ∧ s.capacity = 2305843009213693951 ∧
      (Deployment.empty.newToken.1.buildHub (s.hubConfig .direct ⟨0, []⟩)).2 = .ok 0 := by
  have accepted : ofEnvironment [("ROLLIFY_EVENT_TOPIC", utf8 "rolls"),
      ("ROLLIFY_DELIVERY_CAPACITY", utf8 "+2305843009213693951")] =
      .ok ⟨.memory, "rolls", 2305843009213693951, 2⟩ := rfl
  have builds := builds_of_accepted accepted Deployment.empty.newToken.1 ⟨0, []⟩
  obtain ⟨hub, hbuilt, -⟩ := builds.fits (by decide)
  exact ⟨_, accepted, rfl, rfl, hbuilt⟩

/-- One more is accepted as well, and there is no hub. -/
theorem accepted_without_hub :
    ∃ s, ofEnvironment [("ROLLIFY_DELIVERY_CAPACITY", utf8 "2305843009213693952")] = .ok s ∧
      (Deployment.empty.newToken.1.buildHub (s.hubConfig .direct ⟨0, []⟩)).2 =
        .error (.unsupported .tooLarge) :=
  ⟨⟨.memory, defaultTopic, 2305843009213693952, 2⟩, rfl, rfl⟩

end Settings

end DiceRooms
