import DiceRooms.Proofs.Deployment.Dealings
import DiceRooms.Proofs.Deployment.Interchange

/-!
The serials that services give out. A service takes a serial for every request that passes, in
the order of the requests, whatever else is under way and whatever becomes of the rolls. Every
service counts for itself.
-/
namespace DiceRooms

section
variable {tr : Dealings} {d d' : Deployment} {x : Dealing} {n : Nat}

/-- The service that a creation belongs to, and its serial. -/
def Deployment.tag? (d : Deployment) (n : Nat) : Option (Nat × UInt64) :=
  d.creations[n]?.map fun c => (c.service, c.roll.serial)

/-- The counters of the services and the serials of the creations, told by the calls. -/
structure Counted (tr : Dealings) (d : Deployment) : Prop where
  counter : ∀ {k : Nat} {s : Service}, d.services[k]? = some s →
    s.serial = .ofNat (tr.calls k).length
  unopened : ∀ {k : Nat}, d.services[k]? = none → tr.calls k = []
  tagged : ∀ {n k : Nat} {serial : UInt64}, d.tag? n = some (k, serial) ↔
    ∃ i, (tr.calls k)[i]? = some n ∧ serial = .ofNat (i + 1)

/-- Nobody has called, no service has gone, and no creation has changed its tag. -/
theorem Counted.quiet (counted : Counted tr d) (hcalls : ∀ k, Dealings.callAt k (d, x) = none)
    (hcounter : ∀ {k : Nat} {s : Service}, d'.services[k]? = some s →
      s.serial = .ofNat (tr.calls k).length)
    (hunopened : ∀ {k : Nat}, d'.services[k]? = none → d.services[k]? = none)
    (htag : ∀ n, d'.tag? n = d.tag? n) : Counted (tr ++ [(d, x)]) d' := by
  have calls_eq : ∀ k, Dealings.calls k (tr ++ [(d, x)]) = tr.calls k := by
    intro k
    rw [Dealings.calls_concat, hcalls, Option.toList_none, List.append_nil]
  refine ⟨fun hs => ?_, fun hk => ?_, ?_⟩
  · rw [calls_eq]
    exact hcounter hs
  · rw [calls_eq]
    exact counted.unopened (hunopened hk)
  · intro n k serial
    rw [calls_eq, htag]
    exact counted.tagged

theorem tag?_of_set {c c' : Creation} (hc : d.creations[n]? = some c)
    (creations : d'.creations = d.creations.set n c') (hservice : c'.service = c.service)
    (hserial : c'.roll.serial = c.roll.serial) (m : Nat) : d'.tag? m = d.tag? m := by
  rw [Deployment.tag?, creations, getElem?_set_of_some hc]
  split
  · next heq =>
      rw [Deployment.tag?, ← heq, hc, Option.map_some, Option.map_some, hservice, hserial]
  · rfl

theorem Dealings.calls_of_accepted (tr : Dealings) (d : Deployment) (k : Nat)
    (ids : UInt64 → FreshIds) (now : Instant) {q : Request} (accepted : q.check = .ok ())
    (m : Nat) :
    Dealings.calls m (tr ++ [(d, .act (.requestRoll k ids now q))]) =
      if k = m then tr.calls m ++ [d.creations.length] else tr.calls m := by
  have hok : q.check.isOk = true := by
    rw [accepted]
    rfl
  rw [Dealings.calls_concat, Dealings.callAt]
  split
  · next h =>
      rw [if_pos h.1]
      rfl
  · next h =>
      rw [if_neg fun heq => h ⟨heq, hok⟩]
      exact List.append_nil _

/-- A request that passes takes the next serial of its service. -/
theorem Counted.accepts {k : Nat} {s : Service} {ids : UInt64 → FreshIds} {now : Instant}
    {q : Request} (counted : Counted tr d) (accepted : q.check = .ok ())
    (hs : d.services[k]? = some s)
    (services : d'.services = d.services.set k { s with serial := s.serial + 1 })
    (creations : d'.creations = d.creations ++
      [⟨k, q.draft (s.serial + 1) (ids (s.serial + 1)) now, .drafted⟩]) :
    Counted (tr ++ [(d, .act (.requestRoll k ids now q))]) d' := by
  have calls_eq := Dealings.calls_of_accepted tr d k ids now accepted
  have hserial : s.serial + 1 = .ofNat ((tr.calls k).length + 1) := by
    rw [counted.counter hs, UInt64.ofNat_add]
    rfl
  have htag : ∀ n, d'.tag? n =
      if n = d.creations.length then some (k, s.serial + 1) else d.tag? n := by
    intro n
    rw [Deployment.tag?, creations, getElem?_concat]
    split <;> rfl
  have hfresh : ∀ m i : Nat, (tr.calls m)[i]? ≠ some d.creations.length := by
    intro m i hi
    have htagged := counted.tagged.mpr ⟨i, hi, rfl⟩
    rw [Deployment.tag?, List.getElem?_eq_none (Nat.le_refl _)] at htagged
    cases htagged
  refine ⟨?_, ?_, ?_⟩
  · intro m s' hs'
    rw [calls_eq]
    rw [services, getElem?_set_of_some hs] at hs'
    split at hs'
    · next heq =>
        subst heq
        cases hs'
        rw [if_pos rfl, List.length_append]
        exact hserial
    · next hne =>
        rw [if_neg hne]
        exact counted.counter hs'
  · intro m hm
    rw [services, getElem?_set_of_some hs] at hm
    rw [calls_eq]
    split at hm
    · cases hm
    · next hne =>
        rw [if_neg hne]
        exact counted.unopened hm
  · intro n m serial
    rw [htag, calls_eq]
    by_cases hm : k = m
    · subst hm
      simp only [if_pos, getElem?_concat]
      by_cases hn : n = d.creations.length
      · subst hn
        rw [if_pos rfl]
        constructor
        · rintro ⟨⟩
          exact ⟨_, if_pos rfl, hserial⟩
        · rintro ⟨i, hi, rfl⟩
          split at hi
          · next heq => rw [hserial, heq]
          · exact (hfresh k i hi).elim
      · rw [if_neg hn, counted.tagged]
        refine exists_congr fun i => and_congr_left fun _ => ?_
        split
        · next heq =>
            rw [heq, List.getElem?_eq_none (Nat.le_refl _)]
            exact iff_of_false nofun fun h => hn (Option.some.inj h).symm
        · exact Iff.rfl
    · rw [if_neg hm]
      split
      · next hn =>
          subst hn
          refine iff_of_false (fun h => hm ?_) ?_
          · exact congrArg Prod.fst (Option.some.inj h)
          · rintro ⟨i, hi, -⟩
            exact hfresh m i hi
      · exact counted.tagged

theorem Deployment.Proceeds.keeps {c c' : Creation} {a : Action} (proceeds : d.Proceeds n c a c')
    (keeps : a.KeepsSerial) : c'.service = c.service ∧ c'.roll.serial = c.roll.serial := by
  cases proceeds with
  | thrown drafted throws => exact ⟨rfl, keeps _ _ throws⟩
  | _ => exact ⟨rfl, rfl⟩

theorem callAt_of_not_serves {a : Action} (ha : a.serves = false) (k : Nat) :
    Dealings.callAt k (d, .act a) = none := by
  cases a with
  | requestRoll _ _ _ _ => cases ha
  | _ => rfl

theorem Counted.act {a : Action} (counted : Counted tr d) (keeps : a.KeepsSerial)
    (performed : d.perform a = some d') : Counted (tr ++ [(d, .act a)]) d' := by
  cases Deployment.serves_perform performed with
  | aside ha services creations =>
      refine counted.quiet (callAt_of_not_serves ha) ?_ ?_ fun n => ?_
      · rw [services]
        exact counted.counter
      · rw [services]
        exact id
      · rw [Deployment.tag?, creations, Deployment.tag?]
  | opens services creations =>
      refine counted.quiet (fun _ => rfl) ?_ ?_ fun n => ?_
      · intro k s hs
        rw [services, getElem?_concat] at hs
        split at hs
        · next heq =>
            cases hs
            rw [counted.unopened (List.getElem?_eq_none (Nat.le_of_eq heq.symm))]
            rfl
        · exact counted.counter hs
      · intro k hk
        rw [services, getElem?_concat] at hk
        split at hk
        · cases hk
        · exact hk
      · rw [Deployment.tag?, creations, Deployment.tag?]
  | refuses refused same =>
      subst same
      refine counted.quiet (fun k => if_neg ?_) counted.counter id fun _ => rfl
      rw [refused]
      exact fun h => Bool.noConfusion h.2
  | accepts accepted hs services creations => exact counted.accepts accepted hs services creations
  | proceeds hc proceeds services creations =>
      obtain ⟨hservice, hserial⟩ := proceeds.keeps keeps
      refine counted.quiet (fun _ => Dealings.callAt_of_creation? proceeds.creation?) ?_ ?_
        (tag?_of_set hc creations hservice hserial)
      · rw [services]
        exact counted.counter
      · rw [services]
        exact id

theorem Dealt.counted (dealt : Dealt tr d) : Counted tr d := by
  induction dealt with
  | start =>
      refine ⟨nofun, fun _ => rfl, ?_⟩
      simp [Deployment.tag?, Deployment.empty, Dealings.calls]
  | step before deals ih =>
      cases deals with
      | act keeps own performed => exact ih.act keeps performed
      | hand hc thrown first => exact ih.quiet (fun _ => rfl) ih.counter id fun _ => rfl
      | answer hc thrown handed result =>
          exact ih.quiet (fun _ => rfl) ih.counter id (tag?_of_set hc rfl rfl rfl)

/-! What the calls come to. -/

namespace Deployment

theorem of_result?_ok {r : Roll} (h : d.result? n = some (.ok r)) :
    ∃ c, d.creations[n]? = some c ∧ c.roll = r ∧ c.stage = .ended (.ok ()) := by
  rw [result?] at h
  split at h
  · next hc =>
      cases h
      exact ⟨_, hc, rfl, rfl⟩
  · cases h
  · cases h

theorem result?_of_ended {c : Creation} {result : Except DiceError Unit}
    (hc : d.creations[n]? = some c) (hstage : c.stage = .ended result) :
    d.result? n = some (result.map fun _ => c.roll) := by
  obtain ⟨service, roll, stage⟩ := c
  cases hstage
  rw [result?, hc]
  cases result <;> rfl

theorem of_result?_error {e : DiceError} (h : d.result? n = some (.error e)) :
    ∃ c, d.creations[n]? = some c ∧ c.stage = .ended (.error e) := by
  rw [result?] at h
  split at h
  · cases h
  · next hc =>
      cases h
      exact ⟨_, hc, rfl⟩
  · cases h

end Deployment

/-- The call has returned the roll, or told its notifier of it. -/
def Carries (tr : Dealings) (d : Deployment) (n : Nat) (r : Roll) : Prop :=
  d.result? n = some (.ok r) ∨ (n, r) ∈ tr.notified

theorem Dealt.roll_of_carries {r : Roll} (dealt : Dealt tr d) (carries : Carries tr d n r) :
    ∃ c, d.creations[n]? = some c ∧ c.roll = r := by
  rcases carries with hresult | htold
  · obtain ⟨c, hc, hroll, -⟩ := Deployment.of_result?_ok hresult
    exact ⟨c, hc, hroll⟩
  · obtain ⟨c, hc, hroll, -⟩ := (dealt.follows n).told htold
    exact ⟨c, hc, hroll⟩

theorem toNat_serial {k i : Nat} (few : (tr.calls k).length < 2 ^ 64)
    (hi : (tr.calls k)[i]? = some n) : (UInt64.ofNat (i + 1)).toNat = i + 1 := by
  have hlt := (List.getElem?_eq_some_iff.mp hi).1
  rw [UInt64.toNat_ofNat', Nat.mod_eq_of_lt (Nat.lt_of_le_of_lt hlt few)]

theorem Dealt.creation_of_call {k i : Nat} (dealt : Dealt tr d) (hi : (tr.calls k)[i]? = some n) :
    ∃ c, d.creations[n]? = some c ∧ c.service = k ∧ c.roll.serial = .ofNat (i + 1) := by
  have htag := dealt.counted.tagged.mpr ⟨i, hi, rfl⟩
  obtain ⟨c, hc, heq⟩ := Option.map_eq_some_iff.mp htag
  exact ⟨c, hc, congrArg Prod.fst heq, congrArg Prod.snd heq⟩

theorem Dealt.serial_of_carries {k i : Nat} {r : Roll} (dealt : Dealt tr d)
    (few : (tr.calls k).length < 2 ^ 64) (hi : (tr.calls k)[i]? = some n)
    (carries : Carries tr d n r) : r.serial.toNat = i + 1 := by
  obtain ⟨c, hc, rfl⟩ := dealt.roll_of_carries carries
  obtain ⟨c', hc', -, hserial⟩ := dealt.creation_of_call hi
  cases hc.symm.trans hc'
  rw [hserial, toNat_serial few hi]

theorem Dealt.failed_iff (dealt : Dealt tr d) :
    tr.Failed n ↔ ∃ e, d.result? n = some (.error e) := by
  rw [(dealt.follows n).failed]
  constructor
  · rintro ⟨c, e, hc, hstage⟩
    exact ⟨e, Deployment.result?_of_ended hc hstage⟩
  · rintro ⟨e, hresult⟩
    obtain ⟨c, hc, hstage⟩ := Deployment.of_result?_error hresult
    exact ⟨c, e, hc, hstage⟩

/-- The serials of a service after the dealings. -/
structure Serials (tr : Dealings) (d : Deployment) (k : Nat) : Prop where
  /-- A request that does not pass is refused, and nothing changes. -/
  refused : ∀ {q : Request} {e}, q.check = .error e → k < d.services.length → ∀ ids now,
    d.requestRoll k ids now q = some (d, .error e)
  /-- One that passes is answered with the number of its creation, and is the next call. -/
  accepted : ∀ {q : Request}, q.check = .ok () → k < d.services.length → ∀ ids now,
    ∃ d', d.requestRoll k ids now q = some (d', .ok d.creations.length) ∧
      Dealings.calls k (tr ++ [(d, .act (.requestRoll k ids now q))]) =
        tr.calls k ++ [d.creations.length]
  /-- The calls have the serials from one on, in the order in which they have taken the
  counter. -/
  numbered : ∀ {i n : Nat}, (tr.calls k)[i]? = some n →
    ∃ c, d.creations[n]? = some c ∧ c.service = k ∧ c.roll.serial.toNat = i + 1
  /-- Nothing else has been created. -/
  listed : ∀ {n : Nat} {c : Creation}, d.creations[n]? = some c → c.service = k → n ∈ tr.calls k
  /-- What a call returns, and what it tells its notifier, has the serial of the call. -/
  carried : ∀ {i n : Nat} {r : Roll}, (tr.calls k)[i]? = some n → Carries tr d n r →
    r.serial.toNat = i + 1
  ascending : ∀ {i j n m : Nat} {r r' : Roll}, (tr.calls k)[i]? = some n →
    (tr.calls k)[j]? = some m → Carries tr d n r → Carries tr d m r' →
    (r.serial < r'.serial ↔ i < j) ∧ (r.serial = r'.serial ↔ n = m)
  /-- No notifier is told of a call twice. -/
  once : (tr.notified.map Prod.fst).Nodup
  /-- The serials that no call has returned are those of the calls with which the roller or the
  notifier has failed, or that go on. -/
  missing : ∀ v, 1 ≤ v → v ≤ (tr.calls k).length →
    ((¬ ∃ n ∈ tr.calls k, ∃ r, d.result? n = some (.ok r) ∧ r.serial.toNat = v) ↔
      ∃ n, (tr.calls k)[v - 1]? = some n ∧ (tr.Failed n ∨ d.result? n = none))

theorem Dealt.missing {k : Nat} (dealt : Dealt tr d) (few : (tr.calls k).length < 2 ^ 64) (v : Nat)
    (hfirst : 1 ≤ v) (hlast : v ≤ (tr.calls k).length) :
    (¬ ∃ n ∈ tr.calls k, ∃ r, d.result? n = some (.ok r) ∧ r.serial.toNat = v) ↔
      ∃ n, (tr.calls k)[v - 1]? = some n ∧ (tr.Failed n ∨ d.result? n = none) := by
  constructor
  · intro hmissing
    obtain ⟨n, hn⟩ : ∃ n, (tr.calls k)[v - 1]? = some n :=
      ⟨_, List.getElem?_eq_getElem (by omega)⟩
    refine ⟨n, hn, ?_⟩
    cases hresult : d.result? n with
    | none => exact .inr rfl
    | some result =>
        cases result with
        | error e => exact .inl (dealt.failed_iff.mpr ⟨e, hresult⟩)
        | ok r =>
            have hserial := dealt.serial_of_carries few hn (.inl hresult)
            exact (hmissing ⟨n, List.mem_of_getElem? hn, r, hresult, by omega⟩).elim
  · rintro ⟨n, hn, hnot⟩ ⟨m, hm, r, hresult, hv⟩
    obtain ⟨j, hj⟩ := List.mem_iff_getElem?.mp hm
    have hserial := dealt.serial_of_carries few hj (.inl hresult)
    obtain rfl : v - 1 = j := by omega
    cases hn.symm.trans hj
    rcases hnot with failed | hnone
    · obtain ⟨e, herror⟩ := dealt.failed_iff.mp failed
      cases hresult.symm.trans herror
    · cases hresult.symm.trans hnone

section
variable {k l i j m : Nat} {r r' : Roll}

/-- Serials compare as the ranks of the calls with their services. -/
theorem Dealt.compare (dealt : Dealt tr d) (fewFirst : (tr.calls k).length < 2 ^ 64)
    (fewSecond : (tr.calls l).length < 2 ^ 64) (hi : (tr.calls k)[i]? = some n)
    (hj : (tr.calls l)[j]? = some m) (first : Carries tr d n r) (second : Carries tr d m r') :
    (r.serial < r'.serial ↔ i < j) ∧ (r.serial = r'.serial ↔ i = j) := by
  have hr := dealt.serial_of_carries fewFirst hi first
  have hr' := dealt.serial_of_carries fewSecond hj second
  rw [UInt64.lt_iff_toNat_lt, ← UInt64.toNat_inj, hr, hr']
  omega

end

/-- The calls of a service that pass get its serials in the order in which they have taken the
counter, and the serials that nobody is answered with are those of calls that have failed or have
not come to their end, however the calls have overlapped. -/
theorem serials_of_calls {k : Nat} (dealt : Dealt tr d) (few : (tr.calls k).length < 2 ^ 64) :
    Serials tr d k where
  refused hcheck hk ids now :=
    Deployment.requestRoll_of_refused (List.getElem?_eq_getElem hk) hcheck
  accepted hcheck hk ids now := by
    refine ⟨_, Deployment.requestRoll_of_accepted (List.getElem?_eq_getElem hk) hcheck, ?_⟩
    rw [Dealings.calls_of_accepted tr d k ids now hcheck, if_pos rfl]
  numbered hi := by
    obtain ⟨c, hc, hservice, hserial⟩ := dealt.creation_of_call hi
    exact ⟨c, hc, hservice, hserial ▸ toNat_serial few hi⟩
  listed {n c} hc hservice := by
    have htag : d.tag? n = some (k, c.roll.serial) := by
      rw [Deployment.tag?, hc, Option.map_some, hservice]
    obtain ⟨i, hi, -⟩ := dealt.counted.tagged.mp htag
    exact List.mem_of_getElem? hi
  carried := dealt.serial_of_carries few
  ascending hi hj first second := by
    obtain ⟨hlt, heq⟩ := dealt.compare few few hi hj first second
    refine ⟨hlt, fun h => ?_, ?_⟩
    · obtain rfl := heq.mp h
      exact Option.some.inj (hi.symm.trans hj)
    · rintro rfl
      obtain ⟨c, hc, hr⟩ := dealt.roll_of_carries first
      obtain ⟨c', hc', hr'⟩ := dealt.roll_of_carries second
      cases hc.symm.trans hc'
      rw [← hr, ← hr']
  once := dealt.nodup_notified
  missing := dealt.missing few

def aRequest : Request := ⟨"r", "u", [.d6]⟩

def someIds : UInt64 → FreshIds := fun serial => ⟨toString serial.toNat, fun _ => "die"⟩

/-- Three calls overlap, and a fourth is refused. The dice of the second call are lost. -/
def overlapping : List Action :=
  [.openMemory, .addService ⟨0, []⟩ ⟨0, []⟩, .requestRoll 0 someIds .epoch aRequest,
    .requestRoll 0 someIds .epoch { aRequest with dice := [] },
    .requestRoll 0 someIds .epoch aRequest, .requestRoll 0 someIds .epoch aRequest,
    .throwDice 1 fun _ => .error (.roll "lost"), .throwDice 0 .ok]

/-- The third one is told to the hub and comes to its end. -/
def completing : List Action := [.throwDice 2 .ok, .tellRoll 2, .conclude 0, .endCreation 2]

/-- The first call goes on with a notifier from outside. -/
theorem serials_of_calls_overlapping : ∃ tr d, Dealt tr d ∧ (tr.calls 0).length < 2 ^ 64 ∧
    Serials tr d 0 ∧ tr.calls 0 = [0, 1, 2] ∧ tr.Handed 0 ∧ d.result? 0 = none ∧ tr.Failed 1 ∧
    ∃ r, d.result? 2 = some (.ok r) ∧ r.serial = 3 := by
  obtain ⟨d₁, hd₁⟩ : ∃ d, overlapping.foldlM Deployment.perform .empty = some d := ⟨_, rfl⟩
  obtain ⟨d₂, hd₂⟩ : ∃ d, completing.foldlM Deployment.perform d₁ = some d := by
    cases hd₁
    exact ⟨_, rfl⟩
  have hthrown : d₁.creations[0]? = some ⟨0, aRequest.draft 1 (someIds 1) .epoch, .thrown⟩ := by
    cases hd₁
    rfl
  have keeps₁ : ∀ a ∈ overlapping, a.KeepsSerial := by simp [overlapping, Action.KeepsSerial]
  have keeps₂ : ∀ a ∈ completing, a.KeepsSerial := by simp [completing, Action.KeepsSerial]
  have nobody := Dealings.not_handed_ofActions .empty overlapping
  have handed := (Dealt.of_run (Deployment.run_iff.mpr hd₁) keeps₁).step
    (.hand hthrown rfl (nobody 0))
  have dealt := handed.run (Deployment.run_iff.mpr hd₂) keeps₂ (by
    intro n hn h
    obtain rfl : n = 2 := by simpa [completing] using hn
    exact nobody 2 ((Dealings.handed_concat.mp h).resolve_right nofun))
  let tr : Dealings := Dealings.ofActions .empty overlapping ++ [(d₁, .hand 0)] ++
    Dealings.ofActions d₁ completing
  have hcalls : tr.calls 0 = [0, 1, 2] := by
    cases hd₁
    rfl
  have few : (tr.calls 0).length < 2 ^ 64 := by
    rw [hcalls]
    decide
  have hlost : d₂.result? 1 = some (.error (.roll "lost")) := by
    cases hd₁
    cases hd₂
    rfl
  refine ⟨tr, d₂, dealt, few, serials_of_calls dealt few, hcalls, ⟨d₁, by simp [tr]⟩, ?_,
    dealt.failed_iff.mpr ⟨_, hlost⟩, ?_⟩
  · cases hd₁
    cases hd₂
    rfl
  · cases hd₁
    cases hd₂
    exact ⟨_, rfl, rfl⟩

/-! Several services. -/

/-- How the rolls of two services compare, each of which counts for itself. -/
structure Counts (tr : Dealings) (d : Deployment) (k l : Nat) : Prop where
  /-- Calls of different services create rolls of their own. -/
  apart : k ≠ l → ∀ n ∈ tr.calls k, n ∉ tr.calls l
  /-- The serials are in the order of the ranks that the calls have with their services. -/
  ordered : ∀ {i j n m : Nat} {r r' : Roll}, (tr.calls k)[i]? = some n →
    (tr.calls l)[j]? = some m → Carries tr d n r → Carries tr d m r' →
    (r.serial < r'.serial ↔ i < j)
  /-- Different rolls have one serial just if their calls have one rank with different
  services. -/
  shared : ∀ {i j n m : Nat} {r r' : Roll}, (tr.calls k)[i]? = some n →
    (tr.calls l)[j]? = some m → Carries tr d n r → Carries tr d m r' → n ≠ m →
    (r.serial = r'.serial ↔ k ≠ l ∧ i = j)

/-- Serials tell apart, and put in their order, the rolls of one service, but not those of
several. -/
theorem services_count_apart {k l : Nat} (dealt : Dealt tr d)
    (fewFirst : (tr.calls k).length < 2 ^ 64) (fewSecond : (tr.calls l).length < 2 ^ 64) :
    Counts tr d k l where
  ordered hi hj first second := (dealt.compare fewFirst fewSecond hi hj first second).1
  shared hi hj first second hne := by
    rw [(dealt.compare fewFirst fewSecond hi hj first second).2]
    refine ⟨?_, And.right⟩
    rintro rfl
    refine ⟨?_, rfl⟩
    rintro rfl
    exact hne (Option.some.inj (hi.symm.trans hj))
  apart hne n hn hn' := by
    obtain ⟨i, hi⟩ := List.mem_iff_getElem?.mp hn
    obtain ⟨j, hj⟩ := List.mem_iff_getElem?.mp hn'
    obtain ⟨c, hc, hservice, -⟩ := dealt.creation_of_call hi
    obtain ⟨c', hc', hservice', -⟩ := dealt.creation_of_call hj
    cases hc.symm.trans hc'
    exact hne (hservice.symm.trans hservice')

/-- Two services tell their rolls to one hub, where somebody has subscribed to the room. -/
def sharing : List Action :=
  [.openMemory, .subscribe ⟨0, []⟩ "r" "v" (.outside 0 "viewer"), .addService ⟨0, []⟩ ⟨0, []⟩,
    .addService ⟨0, []⟩ ⟨0, []⟩, .requestRoll 0 (fun _ => ⟨"a", fun _ => "die"⟩) .epoch aRequest,
    .throwDice 0 .ok, .tellRoll 0, .start 0 0, .finish 0 0 .success, .conclude 0, .endCreation 0,
    .requestRoll 1 (fun _ => ⟨"b", fun _ => "die"⟩) .epoch aRequest, .throwDice 1 .ok,
    .tellRoll 1, .start 1 0, .finish 1 0 .success, .conclude 1, .endCreation 1]

/-- The viewer hears two rolls with one serial. -/
theorem serial_repeated_across_services : ∃ d r r', Deployment.Run .empty sharing d ∧
    (Deployment.history .empty sharing).received (.outside 0 "viewer") = [r, r'] ∧
    d.result? 0 = some (.ok r) ∧ d.result? 1 = some (.ok r') ∧ r.room = r'.room ∧ r.id ≠ r'.id ∧
    r.serial = r'.serial :=
  ⟨_, _, _, Deployment.run_iff.mpr rfl, rfl, rfl, rfl, rfl, by decide, rfl⟩

theorem services_count_apart_sharing : ∃ tr d, Dealt tr d ∧ (tr.calls 0).length < 2 ^ 64 ∧
    (tr.calls 1).length < 2 ^ 64 ∧ Counts tr d 0 1 ∧ tr.calls 0 = [0] ∧ tr.calls 1 = [1] := by
  obtain ⟨d, hd⟩ : ∃ d, sharing.foldlM Deployment.perform .empty = some d := ⟨_, rfl⟩
  have keeps : ∀ a ∈ sharing, a.KeepsSerial := by simp [sharing, Action.KeepsSerial]
  have dealt := Dealt.of_run (Deployment.run_iff.mpr hd) keeps
  have first : (Dealings.ofActions .empty sharing).calls 0 = [0] := rfl
  have second : (Dealings.ofActions .empty sharing).calls 1 = [1] := rfl
  have fewFirst : ((Dealings.ofActions .empty sharing).calls 0).length < 2 ^ 64 := by
    rw [first]
    decide
  have fewSecond : ((Dealings.ofActions .empty sharing).calls 1).length < 2 ^ 64 := by
    rw [second]
    decide
  exact ⟨_, d, dealt, fewFirst, fewSecond, services_count_apart dealt fewFirst fewSecond, first,
    second⟩

end

end DiceRooms
