import DiceRooms.Proofs.Json.Grammar
import DiceRooms.Proofs.Json.Text

/-!
The readers of strings and numbers against the grammar. A string is read exactly as it is
spelled. A number is read or passed over as a literal of the grammar, and every such literal
is if it ends where the reader comes to its end.
-/
namespace DiceRooms.Json

open Ascii

/-! Strings. -/

theorem readOctets_pair {h₁ h₂ h₃ h₄ k₁ k₂ k₃ k₄ : UInt8} {u v : Nat}
    (hu : hexUnit? h₁ h₂ h₃ h₄ = some u) (hleading : isLeading u = true)
    (hv : hexUnit? k₁ k₂ k₃ k₄ = some v) (htrailing : isTrailing v = true) (s : Bytes) :
    readOctets (backslash :: letterU :: h₁ :: h₂ :: h₃ :: h₄ ::
        backslash :: letterU :: k₁ :: k₂ :: k₃ :: k₄ :: s) =
      (readOctets s).map fun p => (encodeScalar (pairValue u v) ++ p.1, p.2) := by
  have hunescape : unescape? letterU = none := rfl
  have hnot : isTrailing u = false := by
    simp only [isLeading, isTrailing, Bool.and_eq_true, decide_eq_true_eq] at hleading ⊢
    simp only [Bool.and_eq_false_iff, decide_eq_false_iff_not]
    omega
  rw [readOctets.eq_def]
  simp [hunescape, hu, hnot, hleading, hv, htrailing]
  rfl

theorem readOctets_of_octets {s t rest : Bytes} (h : Octets t s rest) :
    readOctets s = .ok (t, rest) := by
  induction h with
  | close rest => exact readOctets_quote rest
  | plain quoted printable escaped _ ih =>
      rw [readOctets_plain quoted printable escaped, ih]
      rfl
  | short letter _ ih =>
      rw [readOctets_short letter, ih]
      rfl
  | unit digits first second _ ih =>
      rw [readOctets_unit digits second first, ih]
      rfl
  | pair digits first digits' second _ ih =>
      rw [readOctets_pair digits first digits' second, ih]
      rfl

theorem octets_of_readOctets {s t rest : Bytes} (h : readOctets s = .ok (t, rest)) :
    Octets t s rest := by
  -- Of all the ways to go on, five do not end in a fault.
  fun_induction readOctets s generalizing t rest with
  | case2 s => cases h; exact .close s
  | case4 b s hquote hprintable hplain ih =>
      obtain ⟨⟨t, r⟩, hmore, heq⟩ := map_eq_ok_iff.mp h
      cases heq
      exact .plain hquote hprintable hplain (ih hmore)
  | case6 b _ _ hb e s c hletter ih =>
      obtain ⟨⟨t, r⟩, hmore, heq⟩ := map_eq_ok_iff.mp h
      cases heq
      obtain rfl := not_not.mp hb
      exact .short hletter (ih hmore)
  | case10 b _ _ hb e _ he h₁ h₂ h₃ h₄ s u hdigits htrailing hleading ih =>
      obtain ⟨⟨t, r⟩, hmore, heq⟩ := map_eq_ok_iff.mp h
      cases heq
      obtain rfl := not_not.mp hb
      obtain rfl := not_not.mp he
      exact .unit hdigits (Bool.eq_false_iff.mpr hleading) (Bool.eq_false_iff.mpr htrailing)
        (ih hmore)
  | case17 b _ _ hb e _ he h₁ h₂ h₃ h₄ u hdigits _ hleading b' hb' e' he' k₁ k₂ k₃ k₄ s v
      hdigits' htrailing ih =>
      obtain ⟨⟨t, r⟩, hmore, heq⟩ := map_eq_ok_iff.mp h
      obtain ⟨rfl, rfl⟩ := Prod.mk.inj heq
      obtain rfl := not_not.mp hb
      obtain rfl := not_not.mp he
      obtain rfl := not_not.mp hb'
      obtain rfl := not_not.mp he'
      have hfirst : isLeading u = true := not_not.mp hleading
      have hsecond : isTrailing v = true := not_not.mp htrailing
      exact Octets.pair hdigits hfirst hdigits' hsecond (ih hmore)
  | _ => cases h

theorem readText_eq_ok_iff {s rest : Bytes} {t : String} :
    readText s = .ok (t, rest) ↔ Octets (utf8 t) s rest := by
  constructor
  · intro h
    rw [readText] at h
    split at h
    · cases h
    · next octets rest' hoctets =>
        split at h
        · next text htext =>
            cases h
            rw [utf8_of_ofUtf8? htext]
            exact octets_of_readOctets hoctets
        · cases h
  · intro h
    simp only [readText, readOctets_of_octets h, ofUtf8?_utf8]

theorem escaped_of_skipText {s rest : Bytes} (h : skipText s = .ok rest) : Escaped s rest := by
  fun_induction skipText s with
  | case2 => cases h; exact .close _
  | case4 b s hquote hprintable hplain ih => exact .plain hquote hprintable hplain (ih h)
  | case6 b _ _ hb e s hletter ih =>
      obtain ⟨c, hc⟩ := Option.isSome_iff_exists.mp hletter
      obtain rfl := not_not.mp hb
      exact .short hc (ih h)
  | case8 b _ _ hb e _ he h₁ h₂ h₃ h₄ s hdigits ih =>
      obtain ⟨u, hu⟩ := Option.isSome_iff_exists.mp hdigits
      obtain rfl := not_not.mp hb
      obtain rfl := not_not.mp he
      exact .unit hu (ih h)
  | _ => cases h

theorem skipText_of_escaped {s rest : Bytes} (h : Escaped s rest) : skipText s = .ok rest := by
  induction h with
  | close rest => rw [skipText.eq_def]; rfl
  | plain quoted printable escaped _ ih =>
      rw [skipText.eq_def]
      simp only [if_neg quoted, if_neg printable, if_pos escaped, ih]
  | short letter _ ih =>
      rw [skipText.eq_def]
      simp only [letter, ih]
      rfl
  | unit digits _ ih =>
      have hunescape : unescape? letterU = none := rfl
      rw [skipText.eq_def]
      simp only [hunescape, digits, ih]
      rfl

/-- A string that stands for octets has escapes that exist. -/
theorem Octets.escaped {t s rest : Bytes} (h : Octets t s rest) : Escaped s rest := by
  induction h with
  | close rest => exact .close rest
  | plain quoted printable escaped _ ih => exact .plain quoted printable escaped ih
  | short letter _ ih => exact .short letter ih
  | unit digits _ _ _ ih => exact .unit digits ih
  | pair digits _ digits' _ _ ih => exact .unit digits (.unit digits' ih)

theorem Escaped.length_lt {s rest : Bytes} (h : Escaped s rest) : rest.length < s.length := by
  induction h with
  | close rest => exact Nat.lt_succ_self _
  | plain _ _ _ _ ih | short _ _ ih | unit _ _ ih =>
      simp only [List.length_cons]
      omega

/-! Numbers. -/

theorem Digits.cons {ds : Bytes} (h : Digits ds) :
    ∃ d ds', ds = d :: ds' ∧ isDigit d = true := by
  obtain ⟨hne, hall⟩ := h
  cases ds with
  | nil => exact (hne rfl).elim
  | cons d ds' => exact ⟨d, ds', rfl, hall d List.mem_cons_self⟩

/-- The digits that a text starts with. -/
theorem digits_takeWhile {s : Bytes} (h : startsWithDigit s = true) :
    Digits (s.takeWhile isDigit) := by
  refine ⟨?_, List.all_eq_true.mp List.all_takeWhile⟩
  cases s with
  | nil => cases h
  | cons b s =>
      have hb : isDigit b = true := h
      rw [List.takeWhile_cons_of_pos hb]
      exact List.cons_ne_nil b _

theorem digits_of_skipSomeDigits {s rest : Bytes} (h : skipSomeDigits s = .ok rest) :
    ∃ ds, s = ds ++ rest ∧ Digits ds := by
  rw [skipSomeDigits] at h
  split at h
  · next hstarts =>
      cases h
      exact ⟨_, List.takeWhile_append_dropWhile.symm, digits_takeWhile hstarts⟩
  · cases h

theorem skipSomeDigits_of_digits {ds rest : Bytes} (h : Digits ds) (hrest : NoDigitNext rest) :
    skipSomeDigits (ds ++ rest) = .ok rest := by
  obtain ⟨d, ds', rfl, hd⟩ := h.cons
  rw [skipSomeDigits, List.cons_append, if_pos (show startsWithDigit (d :: _) = true from hd),
    ← List.cons_append, dropWhile_digits h.2 hrest]

theorem exponent_of_skipExponent {s rest : Bytes} (h : skipExponent s = .ok rest) :
    ∃ exponent, s = exponent ++ rest ∧ IsExponent exponent := by
  cases s with
  | nil =>
      cases h
      exact ⟨[], rfl, .inl rfl⟩
  | cons b s =>
      rw [skipExponent] at h
      split at h
      · next hmark =>
          obtain ⟨ds, hds, hdigits⟩ := digits_of_skipSomeDigits h
          cases s with
          | nil =>
              rw [skipSign] at hds
              exact (hdigits.1 (List.append_eq_nil_iff.mp hds.symm).1).elim
          | cons c s =>
              rw [skipSign] at hds
              split at hds
              · next hsign =>
                  refine ⟨b :: c :: ds, by rw [hds]; rfl,
                    .inr ⟨b, [c], ds, rfl, hmark, ?_, hdigits⟩⟩
                  rcases hsign with rfl | rfl
                  · exact .inr (.inl rfl)
                  · exact .inr (.inr rfl)
              · exact ⟨b :: ds, by rw [hds]; rfl, .inr ⟨b, [], ds, rfl, hmark, .inl rfl, hdigits⟩⟩
      · cases h
        exact ⟨[], rfl, .inl rfl⟩

theorem skipExponent_of_exponent {exponent rest : Bytes} (h : IsExponent exponent)
    (hrest : LiteralEnds rest) : skipExponent (exponent ++ rest) = .ok rest := by
  rcases h with rfl | ⟨mark, sign, ds, rfl, hmark, hsign, hdigits⟩
  · cases rest with
    | nil => rfl
    | cons b rest =>
        have hnot := (hrest b rfl).2.2
        rw [List.nil_append, skipExponent, if_neg (by rw [hnot]; exact Bool.false_ne_true)]
  · have hsigned : skipSign (sign ++ ds ++ rest) = ds ++ rest := by
      rcases hsign with rfl | rfl | rfl
      · obtain ⟨d, ds', rfl, hd⟩ := hdigits.cons
        have hplus : d ≠ plus := by rintro rfl; cases hd
        have hminus : d ≠ minus := minus_not_digit hd
        rw [List.nil_append, List.cons_append, skipSign,
          if_neg (not_or.mpr ⟨hplus, hminus⟩)]
      · rfl
      · rfl
    rw [List.cons_append, skipExponent, if_pos hmark, hsigned]
    exact skipSomeDigits_of_digits hdigits hrest.noDigitNext

theorem fraction_of_skipFraction {s rest : Bytes} (h : skipFraction s = .ok rest) :
    ∃ fraction exponent, s = fraction ++ exponent ++ rest ∧ IsFraction fraction ∧
      IsExponent exponent := by
  cases s with
  | nil =>
      cases h
      exact ⟨[], [], rfl, .inl rfl, .inl rfl⟩
  | cons b s =>
      rw [skipFraction] at h
      split at h
      · next hpoint =>
          subst hpoint
          obtain ⟨s', hskip, hmore⟩ := bind_eq_ok_iff.mp h
          obtain ⟨ds, rfl, hdigits⟩ := digits_of_skipSomeDigits hskip
          obtain ⟨exponent, rfl, hexponent⟩ := exponent_of_skipExponent hmore
          exact ⟨point :: ds, exponent, by simp, .inr ⟨ds, rfl, hdigits⟩, hexponent⟩
      · obtain ⟨exponent, heq, hexponent⟩ := exponent_of_skipExponent h
        exact ⟨[], exponent, heq, .inl rfl, hexponent⟩

/-- What can follow the digits before the point: neither a digit nor, unless a fraction does,
a point. -/
theorem head_of_exponent {exponent rest : Bytes} (h : IsExponent exponent)
    (hrest : LiteralEnds rest) :
    ∀ b ∈ (exponent ++ rest).head?, isDigit b = false ∧ b ≠ point := by
  rcases h with rfl | ⟨mark, sign, ds, rfl, hmark, -, -⟩
  · exact fun b hb => ⟨(hrest b hb).1, (hrest b hb).2.1⟩
  · intro b hb
    obtain rfl : mark = b := Option.some.inj hb
    simp only [isExponentMark, Bool.or_eq_true, beq_iff_eq] at hmark
    rcases hmark with rfl | rfl <;> decide

theorem skipFraction_of_fraction {fraction exponent rest : Bytes} (h : IsFraction fraction)
    (hexponent : IsExponent exponent) (hrest : LiteralEnds rest) :
    skipFraction (fraction ++ exponent ++ rest) = .ok rest := by
  have hhead := head_of_exponent hexponent hrest
  have hskip := skipExponent_of_exponent hexponent hrest
  rcases h with rfl | ⟨ds, rfl, hdigits⟩
  · rw [List.nil_append]
    cases hs : exponent ++ rest with
    | nil =>
        rw [(List.append_eq_nil_iff.mp hs).2]
        rfl
    | cons b s =>
        have hpoint : b ≠ point := (hhead b (by rw [hs]; rfl)).2
        rw [skipFraction, if_neg hpoint, ← hs, hskip]
  · have hnone : NoDigitNext (exponent ++ rest) := fun b hb => (hhead b hb).1
    have hdrop := skipSomeDigits_of_digits hdigits hnone
    rw [List.append_assoc, List.cons_append, skipFraction, if_pos rfl, hdrop]
    exact hskip

theorem integer_of_skipInteger {s rest : Bytes} (h : skipInteger s = .ok rest) :
    ∃ whole, s = whole ++ rest ∧ IsInteger whole := by
  cases s with
  | nil => cases h
  | cons b s =>
      rw [skipInteger] at h
      split at h
      · next hzero =>
          subst hzero
          split at h
          · cases h
          · cases h
            exact ⟨[zero], rfl, .inl rfl⟩
      · next hzero =>
          split at h
          · next hdigit =>
              cases h
              refine ⟨b :: s.takeWhile isDigit, ?_, .inr ⟨?_, ?_⟩⟩
              · simp [List.takeWhile_append_dropWhile]
              · have hdigits := digits_takeWhile (s := b :: s) hdigit
                rwa [List.takeWhile_cons_of_pos hdigit] at hdigits
              · simpa using hzero
          · cases h

theorem skipInteger_of_integer {whole rest : Bytes} (h : IsInteger whole)
    (hrest : NoDigitNext rest) : skipInteger (whole ++ rest) = .ok rest := by
  rcases h with rfl | ⟨hdigits, hhead⟩
  · have hstarts := startsWithDigit_noDigitNext hrest
    rw [List.singleton_append, skipInteger, if_pos rfl,
      if_neg (by rw [hstarts]; exact Bool.false_ne_true)]
  · have hdrop := dropWhile_digits hdigits.2 hrest
    obtain ⟨d, ds, rfl, hd⟩ := hdigits.cons
    have hzero : d ≠ zero := by simpa using hhead
    rw [List.cons_append, skipInteger, if_neg hzero, if_pos hd]
    rw [List.cons_append, List.dropWhile_cons_of_pos hd] at hdrop
    rw [hdrop]

theorem number_of_skipNumber {s rest : Bytes} (h : skipNumber s = .ok rest) :
    ∃ literal, s = literal ++ rest ∧ IsNumber literal := by
  obtain ⟨s', hinteger, hfraction⟩ := bind_eq_ok_iff.mp h
  obtain ⟨whole, hwhole, hisInteger⟩ := integer_of_skipInteger hinteger
  obtain ⟨fraction, exponent, rfl, hisFraction, hisExponent⟩ :=
    fraction_of_skipFraction hfraction
  cases s with
  | nil => cases hinteger
  | cons b s =>
      by_cases hminus : b = minus
      · subst hminus
        have hs : s = whole ++ (fraction ++ exponent ++ rest) := hwhole
        refine ⟨minus :: whole ++ fraction ++ exponent, by simp [hs], ?_⟩
        exact ⟨[minus], whole, fraction, exponent, rfl, .inr rfl, hisInteger, hisFraction,
          hisExponent⟩
      · have hs : b :: s = whole ++ (fraction ++ exponent ++ rest) := by
          simpa only [if_neg hminus] using hwhole
        refine ⟨whole ++ fraction ++ exponent, by simp [hs], ?_⟩
        exact ⟨[], whole, fraction, exponent, rfl, .inl rfl, hisInteger, hisFraction,
          hisExponent⟩

theorem IsInteger.cons {whole : Bytes} (h : IsInteger whole) :
    ∃ d ds, whole = d :: ds ∧ isDigit d = true := by
  rcases h with rfl | ⟨hdigits, -⟩
  · exact ⟨zero, [], rfl, rfl⟩
  · exact hdigits.cons

theorem skipNumber_of_number {literal rest : Bytes} (h : IsNumber literal)
    (hrest : LiteralEnds rest) : skipNumber (literal ++ rest) = .ok rest := by
  obtain ⟨sign, whole, fraction, exponent, rfl, hsign, hinteger, hfraction, hexponent⟩ := h
  have hnext : NoDigitNext (fraction ++ exponent ++ rest) := by
    rcases hfraction with rfl | ⟨ds, rfl, -⟩
    · exact fun b hb => (head_of_exponent hexponent hrest b hb).1
    · intro b hb
      obtain rfl : point = b := Option.some.inj hb
      rfl
  have hskip := skipInteger_of_integer hinteger hnext
  have hmore := skipFraction_of_fraction hfraction hexponent hrest
  obtain ⟨d, ds, rfl, hd⟩ := hinteger.cons
  have hminus : d ≠ minus := minus_not_digit hd
  rcases hsign with rfl | rfl
  · simp only [List.nil_append, List.cons_append, List.append_assoc, skipNumber, if_neg hminus]
      at hskip hmore ⊢
    rw [hskip]
    exact hmore
  · simp only [List.nil_append, List.cons_append, List.append_assoc, skipNumber, if_true]
      at hskip hmore ⊢
    rw [hskip]
    exact hmore

/-! Natural numbers. -/

theorem gather_spec {acc : Nat} (hacc : acc < UInt64.size) (s : Bytes) :
    ∃ ds, s = ds ++ (gather acc s).2 ∧ (∀ d ∈ ds, isDigit d = true) ∧
      (gather acc s).1 = valueBehind acc ds ∧ valueBehind acc ds < UInt64.size := by
  induction s generalizing acc with
  | nil => exact ⟨[], rfl, nofun, rfl, hacc⟩
  | cons b s ih =>
      rw [gather]
      split
      · next hfits =>
          obtain ⟨ds, heq, hdigits, hvalue, hsmall⟩ := ih hfits.2
          refine ⟨b :: ds, by rw [List.cons_append, ← heq], ?_, hvalue, hsmall⟩
          exact List.forall_mem_cons.mpr ⟨hfits.1, hdigits⟩
      · exact ⟨[], rfl, nofun, rfl, hacc⟩

theorem digit_digitValue {d : UInt8} (h : isDigit d = true) (n : Nat) :
    digit (10 * n + digitValue d) = d := by
  simp only [isDigit, Bool.and_eq_true, decide_eq_true_eq, UInt8.le_iff_toNat_le] at h
  have hlow : (0x30 : UInt8).toNat = 0x30 := rfl
  have hhigh : (0x39 : UInt8).toNat = 0x39 := rfl
  apply UInt8.toNat_inj.mp
  rw [digit_toNat, digitValue]
  omega

theorem digitValue_pos {d : UInt8} (h : isDigit d = true) (hzero : d ≠ zero) :
    0 < digitValue d := by
  simp only [isDigit, Bool.and_eq_true, decide_eq_true_eq, UInt8.le_iff_toNat_le] at h
  have hlow : (0x30 : UInt8).toNat = 0x30 := rfl
  have hne : d.toNat ≠ 0x30 := fun heq => hzero (UInt8.toNat_inj.mp heq)
  rw [digitValue]
  omega

/-- Digits without a leading zero are the decimal form of their value. -/
theorem decimal_valueBehind {ds : Bytes} (h : Digits ds) (hhead : ds.head? ≠ some zero) :
    decimal (valueBehind 0 ds) = ds := by
  obtain ⟨n, hn⟩ : ∃ n, ds.length = n := ⟨_, rfl⟩
  induction n generalizing ds with
  | zero => exact (h.1 (List.eq_nil_of_length_eq_zero hn)).elim
  | succ n ih =>
      rcases List.eq_nil_or_concat ds with rfl | ⟨init, d, hds⟩
      · cases hn
      · rw [List.concat_eq_append] at hds
        subst hds
        have hd : isDigit d = true := h.2 d (by simp)
        have hvalue : valueBehind 0 (init ++ [d]) = 10 * valueBehind 0 init + digitValue d := by
          simp [valueBehind]
        have hsmall : digitValue d < 10 := by
          have := congrArg UInt8.toNat (digit_digitValue hd 0)
          rw [digit_toNat] at this
          rw [digitValue]
          omega
        rw [hvalue]
        cases init with
        | nil =>
            rw [decimal, if_pos (by simpa [valueBehind] using hsmall)]
            exact congrArg (· :: []) (digit_digitValue hd 0)
        | cons a init =>
            have hinit : Digits (a :: init) :=
              ⟨List.cons_ne_nil a init, fun d hd => h.2 d (List.mem_append_left _ hd)⟩
            have hfirst : (a :: init).head? ≠ some zero := hhead
            have ha : a ≠ zero := by simpa using hfirst
            have hpos : 0 < valueBehind 0 (a :: init) := by
              have hle := le_valueBehind (10 * 0 + digitValue a) init
              have hvalue := digitValue_pos (hinit.2 a List.mem_cons_self) ha
              exact Nat.lt_of_lt_of_le (by omega) hle
            rw [decimal, if_neg (by omega), digit_digitValue hd]
            rw [show (10 * valueBehind 0 (a :: init) + digitValue d) / 10 =
              valueBehind 0 (a :: init) by omega]
            rw [ih hinit hfirst (by simpa using hn)]

theorem double_of_approximate {negative : Bool} {significand : Nat} {e : Int} {n : Number}
    (h : approximate negative significand e = .ok n) : ∃ bits, n = .double bits := by
  rw [approximate] at h
  dsimp only at h
  split at h
  · obtain ⟨f, -, h⟩ := bind_eq_ok_iff.mp h
    cases h
    exact ⟨_, rfl⟩
  · cases h
    exact ⟨_, rfl⟩

theorem double_of_readScaled {negative : Bool} {significand : Nat} {e : Int} {s rest : Bytes}
    {n : Number} (h : readScaled negative significand e s = .ok (n, rest)) :
    ∃ bits, n = .double bits := by
  have scaled : ∀ {e : Int} {r : Bytes},
      (approximate negative significand e >>= fun n => .ok (n, r)) = .ok (n, rest) →
      ∃ bits, n = .double bits := by
    intro e r h
    obtain ⟨n', happroximate, h⟩ := bind_eq_ok_iff.mp h
    cases h
    exact double_of_approximate happroximate
  rw [readScaled.eq_def] at h
  dsimp only at h
  split at h
  · split at h
    · obtain ⟨⟨e', r⟩, -, h⟩ := bind_eq_ok_iff.mp h
      exact scaled h
    · exact scaled h
  · exact scaled h

theorem double_of_readDecimals {negative : Bool} {significand : Nat} {e : Int} {s rest : Bytes}
    {n : Number} (h : readDecimals negative significand e s = .ok (n, rest)) :
    ∃ bits, n = .double bits := by
  rw [readDecimals] at h
  split at h
  · cases h
  · exact double_of_readScaled h

/-- A number read as a natural one ends with its digits, and has no more of them. -/
theorem natural_of_readTail {negative : Bool} {significand skipped : Nat} {s rest : Bytes}
    {n : UInt64} (h : readTail negative significand skipped s = .ok (.natural n, rest)) :
    negative = false ∧ skipped = 0 ∧ n = UInt64.ofNat significand ∧ rest = s := by
  have scaled : ∀ {e : Int} {r : Bytes},
      readScaled negative significand e r ≠ .ok (.natural n, rest) := by
    intro e r hscaled
    obtain ⟨bits, hbits⟩ := double_of_readScaled hscaled
    cases hbits
  have whole : ∀ {r : Bytes}, skipped = 0 →
      Except.ok (ε := Fault) (integer negative significand, r) = .ok (.natural n, rest) →
      negative = false ∧ skipped = 0 ∧ n = UInt64.ofNat significand ∧ rest = r := by
    intro r hskipped heq
    obtain ⟨hnumber, rfl⟩ := Prod.mk.inj (Except.ok.inj heq)
    rw [integer] at hnumber
    split at hnumber
    · next hnegative =>
        cases hnumber
        exact ⟨Bool.eq_false_iff.mpr hnegative, hskipped, rfl, rfl⟩
    · split at hnumber <;> cases hnumber
  cases s with
  | nil =>
      rw [readTail] at h
      split at h
      · exact (scaled h).elim
      · next hskipped => exact whole (not_not.mp hskipped) h
  | cons b s =>
      rw [readTail] at h
      split at h
      · obtain ⟨bits, hbits⟩ := double_of_readDecimals h
        cases hbits
      · split at h
        · exact (scaled h).elim
        · next hnot => exact whole (not_not.mp (not_or.mp hnot).2) h

theorem decimal_of_readDigits {negative : Bool} {s rest : Bytes} {n : UInt64}
    (h : readDigits negative s = .ok (.natural n, rest)) :
    negative = false ∧ s = decimal n.toNat ++ rest := by
  cases s with
  | nil => cases h
  | cons b s =>
      rw [readDigits] at h
      split at h
      · next hzero =>
          subst hzero
          split at h
          · cases h
          · obtain ⟨hnegative, -, rfl, rfl⟩ := natural_of_readTail h
            refine ⟨hnegative, ?_⟩
            rw [show decimal (UInt64.ofNat 0).toNat = [zero] from by rw [decimal]; rfl]
            rfl
      · next hzero =>
          split at h
          · next hdigit =>
              obtain ⟨ds, heq, hdigits, hvalue, hsmall⟩ :=
                gather_spec (show 0 < UInt64.size by decide) (b :: s)
              generalize gather 0 (b :: s) = gathered at h heq hvalue
              obtain ⟨significand, r⟩ := gathered
              obtain ⟨hnegative, hskipped, rfl, rfl⟩ := natural_of_readTail h
              dsimp only at heq hvalue
              subst hvalue
              have hnone := List.eq_nil_of_length_eq_zero hskipped
              have hrest : r.dropWhile isDigit = r := by
                have hboth := List.takeWhile_append_dropWhile (p := isDigit) (l := r)
                rwa [hnone] at hboth
              refine ⟨hnegative, ?_⟩
              rw [hrest, UInt64.toNat_ofNat_of_lt' hsmall]
              -- The first digit always fits, so there is one.
              cases ds with
              | nil =>
                  obtain rfl : b :: s = r := heq
                  rw [List.takeWhile_cons_of_pos hdigit] at hnone
                  cases hnone
              | cons d ds =>
                  obtain ⟨rfl, -⟩ := List.cons.inj heq
                  rw [decimal_valueBehind ⟨List.cons_ne_nil b ds, hdigits⟩ (by simpa using hzero)]
                  exact heq
          · cases h

theorem decimal_of_readNumber {s rest : Bytes} {n : UInt64}
    (h : readNumber s = .ok (.natural n, rest)) : s = decimal n.toNat ++ rest := by
  cases s with
  | nil => cases h
  | cons b s =>
      rw [readNumber] at h
      split at h
      · cases (decimal_of_readDigits h).1
      · exact (decimal_of_readDigits h).2

end DiceRooms.Json
