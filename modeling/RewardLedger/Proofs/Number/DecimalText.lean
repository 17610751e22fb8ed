import Mathlib.Data.List.TakeDrop
import RewardLedger.Proofs.Number.Digits

/-!
# Reading decimal numbers back

A finite decimal number whose exponents can be represented is read back from its text with its sign,
its coefficient and its exponent (`ofChars?_chars`), whichever way it was written. Both ways put a
nonempty run of digits in front of the point and the others behind it (`mantissaText`); what is read
from such a text depends on the digits alone and on how many of them stand behind the point
(`readFinite_mantissaText`).
-/

namespace RewardLedger.Decimal

/-! ## Digits with a point -/

/-- Digits behind the point, with the point only if there are any. -/
def fractionText : List Nat → List Char
  | [] => []
  | d :: ds => '.' :: (d :: ds).map digitChar

/-- Digits before and behind the point. -/
def mantissaText (whole fraction : List Nat) : List Char :=
  whole.map digitChar ++ fractionText fraction

/-- Written positionally, a number is a run of digits with some of them behind the point. -/
theorem exists_mantissa_of_positional (c places : Nat) :
    ∃ whole fraction : List Nat, positional (natText c) places = mantissaText whole fraction ∧
      whole ≠ [] ∧ (∀ d ∈ whole ++ fraction, d < 10) ∧ fraction.length = places ∧
      ofDigits (whole ++ fraction) = c := by
  have hlen : (digitsOf c).length = digitCount c := rfl
  have hpos := digitCount_pos c
  by_cases hplaces : places = 0
  · refine ⟨digitsOf c, [], ?_, ?_, ?_, hplaces.symm, ?_⟩
    · rw [positional, if_pos hplaces, mantissaText, fractionText, List.append_nil, natText]
    · intro hnil
      rw [hnil, List.length_nil] at hlen
      omega
    · rw [List.append_nil]
      exact fun _ => lt_of_mem_digitsOf
    · rw [List.append_nil, ofDigits_digitsOf]
  · -- with zeros in front there is a digit before the point
    let ds := List.replicate (places + 1 - digitCount c) 0 ++ digitsOf c
    have hds : ds.length = (places + 1 - digitCount c) + digitCount c := by
      rw [List.length_append, List.length_replicate, hlen]
    have htext : List.replicate (places + 1 - (natText c).length) '0' ++ natText c =
        ds.map digitChar := by
      rw [length_natText, List.map_append, List.map_replicate]
      rfl
    -- the last digits stand behind the point, as many as there are places
    have hfraction : (ds.drop (ds.length - places)).length = places := by
      rw [List.length_drop]
      omega
    refine ⟨ds.take (ds.length - places), ds.drop (ds.length - places), ?_, ?_, ?_, hfraction, ?_⟩
    · rw [positional, if_neg hplaces]
      dsimp only
      rw [htext, List.length_map, ← List.map_take, ← List.map_drop, mantissaText]
      cases hdrop : ds.drop (ds.length - places) with
      | nil =>
        rw [hdrop, List.length_nil] at hfraction
        exact absurd hfraction.symm hplaces
      | cons d rest => rfl
    · intro hnil
      have htake : (ds.take (ds.length - places)).length = ds.length - places := by
        rw [List.length_take]
        omega
      rw [hnil, List.length_nil] at htake
      omega
    · rw [List.take_append_drop]
      intro d hd
      rcases List.mem_append.1 hd with h | h
      · rw [List.eq_of_mem_replicate h]
        decide
      · exact lt_of_mem_digitsOf h
    · rw [List.take_append_drop, ofDigits_replicate_append, ofDigits_digitsOf]

/-- Written scientifically, a number is a run of digits with all but the first of them behind the
point, and the exponent of the first. -/
theorem exists_mantissa_of_scientific (c : Nat) (leading : Int) :
    ∃ whole fraction : List Nat, scientific (natText c) leading =
        mantissaText whole fraction ++
          'E' :: (if leading < 0 then intText leading else '+' :: intText leading) ∧
      whole ≠ [] ∧ (∀ d ∈ whole ++ fraction, d < 10) ∧ fraction.length + 1 = digitCount c ∧
      ofDigits (whole ++ fraction) = c := by
  have hlen : (digitsOf c).length = digitCount c := rfl
  have hpos := digitCount_pos c
  have hof := ofDigits_digitsOf c
  have hlt : ∀ d ∈ digitsOf c, d < 10 := fun _ => lt_of_mem_digitsOf
  cases hds : digitsOf c with
  | nil =>
    rw [hds, List.length_nil] at hlen
    omega
  | cons d rest =>
    rw [hds] at hlen hof hlt
    refine ⟨[d], rest, ?_, List.cons_ne_nil _ _, hlt, hlen, hof⟩
    rw [natText, hds]
    cases rest <;> rfl

/-! ## Reading finite numbers -/

/-- The characters of the texts of finite numbers. -/
def numberChars : List Char := digitChars ++ ['-', '+', '.', 'E']

/-- Digits before and behind the point are written with the characters of numbers. -/
theorem mem_mantissaText {whole fraction : List Nat} (h : ∀ d ∈ whole ++ fraction, d < 10) {c : Char}
    (hc : c ∈ mantissaText whole fraction) : c ∈ digitChars ∨ c = '.' := by
  rw [List.forall_mem_append] at h
  rcases List.mem_append.1 hc with hc | hc
  · exact Or.inl (mem_map_digitChar h.1 c hc)
  · cases fraction with
    | nil => exact absurd hc List.not_mem_nil
    | cons d ds =>
      rcases List.mem_cons.1 hc with rfl | hc
      · exact Or.inr rfl
      · exact Or.inl (mem_map_digitChar h.2 c hc)

/-- A run of digits is split at its point. -/
theorem span_mantissaText {whole : List Nat} (hwhole : ∀ d ∈ whole, d < 10) (fraction : List Nat) :
    (mantissaText whole fraction).span (· != '.') =
      (whole.map digitChar, fractionText fraction) := by
  have hpoint : ∀ c ∈ whole.map digitChar, (c != '.') = true := fun c hc => by
    have all : ∀ c ∈ digitChars, (c != '.') = true :=
      forall_of_all (by decide)
    exact all c (mem_map_digitChar hwhole c hc)
  rw [List.span_eq_takeWhile_dropWhile, mantissaText, List.takeWhile_append_of_pos hpoint,
    List.dropWhile_append_of_pos hpoint]
  cases fraction with
  | nil => simp [fractionText]
  | cons d ds => simp [fractionText]

/-- What stands behind a run of digits: nothing, or an exponent. -/
def Denotes (tail : List Char) (exponent : Int) : Prop :=
  (tail = [] ∧ exponent = 0) ∨ ∃ r, tail = 'E' :: r ∧ signedNumber? r = some exponent

/-- What is read from a run of digits with a point is the number that all of the digits denote; the
digits behind the point lower its exponent. -/
theorem readFinite_mantissaText (negative : Bool) {whole fraction : List Nat} (hne : whole ≠ [])
    (hlt : ∀ d ∈ whole ++ fraction, d < 10) {tail : List Char} {exponent : Int}
    (htail : Denotes tail exponent) {c : Nat} (hc : ofDigits (whole ++ fraction) = c) {e : Int}
    (he : exponent - fraction.length = e) (hrange : inExponentRange c e = true) :
    readFinite negative (mantissaText whole fraction ++ tail) = some (.finite negative c e) := by
  -- no character of the mantissa starts an exponent, so the text is split where the tail starts
  have hsplit : (mantissaText whole fraction ++ tail).span (fun c => c != 'e' && c != 'E') =
      (mantissaText whole fraction, tail) := by
    have hmantissa : ∀ c ∈ mantissaText whole fraction, (c != 'e' && c != 'E') = true :=
      fun c hc => by
        have all : ∀ c ∈ digitChars ++ ['.'], (c != 'e' && c != 'E') = true :=
          forall_of_all (by decide)
        rcases mem_mantissaText hlt hc with hdigit | rfl
        · exact all c (List.mem_append_left _ hdigit)
        · decide
    rw [List.span_eq_takeWhile_dropWhile, List.takeWhile_append_of_pos hmantissa,
      List.dropWhile_append_of_pos hmantissa]
    rcases htail with ⟨rfl, -⟩ | ⟨r, rfl, -⟩
    · simp
    · simp
  rw [List.forall_mem_append] at hlt
  have hfraction : (fractionText fraction).drop 1 = fraction.map digitChar := by
    cases fraction <;> rfl
  unfold readFinite
  rw [hsplit]
  dsimp only
  rw [span_mantissaText hlt.1]
  dsimp only
  rw [hfraction, digitRun?_map_digitChar hlt.1, digitRun?_map_digitChar hlt.2]
  rcases htail with ⟨rfl, rfl⟩ | ⟨r, rfl, hr⟩
  · simp [hne, hc, he, hrange]
  · simp [hr, hne, hc, he, hrange]

/-- An exponent is read back from its text. -/
theorem signedNumber?_intText (i : Int) :
    signedNumber? (if i < 0 then intText i else '+' :: intText i) = some i := by
  have hrun : ∀ n, digitRun? (natText n) = some (digitsOf n) := fun n =>
    digitRun?_map_digitChar fun _ => lt_of_mem_digitsOf
  have hread : ∀ n, ∃ d rest, natText n = d :: rest := fun n => by
    refine List.exists_cons_of_length_pos ?_
    rw [length_natText]
    exact digitCount_pos n
  obtain ⟨d, rest, htext⟩ := hread i.natAbs
  have hdigits := hrun i.natAbs
  rw [htext] at hdigits
  by_cases hi : i < 0
  · rw [if_pos hi, intText, if_pos hi, htext]
    simp only [signedNumber?, hdigits, Option.map_some, ofDigits_digitsOf,
      Int.ofNat_natAbs_of_nonpos (Int.le_of_lt hi), Int.neg_neg, if_true]
  · rw [if_neg hi, intText, if_neg hi, htext]
    simp only [signedNumber?, hdigits, Option.map_some, ofDigits_digitsOf,
      Int.natAbs_of_nonneg (Int.not_lt.mp hi), Bool.false_eq_true, if_false]

/-- A magnitude is read back from its text. -/
theorem readFinite_magnitudeText (negative : Bool) {c : Nat} {e : Int}
    (h : inExponentRange c e = true) :
    readFinite negative (magnitudeText c e) = some (.finite negative c e) := by
  unfold magnitudeText
  dsimp only
  by_cases hplain : e ≤ 0 ∧ -6 ≤ leadingExponent c e
  · obtain ⟨whole, fraction, htext, hne, hlt, hlen, hof⟩ :=
      exists_mantissa_of_positional c (-e).toNat
    have he : (0 : Int) - fraction.length = e := by
      rw [hlen]
      omega
    rw [if_pos hplain, htext, ← List.append_nil (mantissaText whole fraction)]
    exact readFinite_mantissaText negative hne hlt (Or.inl ⟨rfl, rfl⟩) hof he h
  · obtain ⟨whole, fraction, htext, hne, hlt, hlen, hof⟩ :=
      exists_mantissa_of_scientific c (leadingExponent c e)
    have he : leadingExponent c e - fraction.length = e := by
      rw [leadingExponent]
      omega
    rw [if_neg hplain, htext]
    exact readFinite_mantissaText negative hne hlt
      (Or.inr ⟨_, rfl, signedNumber?_intText _⟩) hof he h

/-! ## Reading numbers -/

/-- A magnitude is written with the characters of numbers, and a digit comes first. -/
theorem exists_magnitudeText_eq_cons (c : Nat) (e : Int) :
    ∃ d rest, d ∈ digitChars ∧ magnitudeText c e = d :: rest ∧
      ∀ x ∈ magnitudeText c e, x ∈ numberChars := by
  have hint : ∀ i x, x ∈ intText i → x ∈ numberChars := fun i x hx => by
    unfold intText at hx
    split at hx
    · rcases List.mem_cons.1 hx with rfl | hx
      · decide
      · exact List.mem_append_left _ (mem_natText hx)
    · exact List.mem_append_left _ (mem_natText hx)
  have hfirst : ∀ {whole fraction : List Nat}, whole ≠ [] → (∀ d ∈ whole ++ fraction, d < 10) →
      ∃ d rest, d ∈ digitChars ∧ mantissaText whole fraction = d :: rest ∧
        ∀ x ∈ mantissaText whole fraction, x ∈ numberChars := by
    intro whole fraction hne hlt
    obtain ⟨d, ds, rfl⟩ := List.exists_cons_of_ne_nil hne
    refine ⟨digitChar d, _, digitChar_mem (hlt d (List.mem_append_left _ List.mem_cons_self)), rfl,
      fun x hx => ?_⟩
    rcases mem_mantissaText hlt hx with hdigit | rfl
    · exact List.mem_append_left _ hdigit
    · decide
  -- a mantissa alone, or one with an exponent behind it
  unfold magnitudeText
  dsimp only
  split
  · obtain ⟨whole, fraction, htext, hne, hlt, -⟩ := exists_mantissa_of_positional c (-e).toNat
    rw [htext]
    exact hfirst hne hlt
  · obtain ⟨whole, fraction, htext, hne, hlt, -⟩ :=
      exists_mantissa_of_scientific c (leadingExponent c e)
    obtain ⟨d, rest, hd, hcons, hchars⟩ := hfirst hne hlt
    rw [htext]
    refine ⟨d, rest ++ _, hd, by rw [hcons]; rfl, fun x hx => ?_⟩
    rcases List.mem_append.1 hx with hx | hx
    · exact hchars x hx
    · rcases List.mem_cons.1 hx with rfl | hx
      · decide
      · split at hx
        · exact hint _ x hx
        · rcases List.mem_cons.1 hx with rfl | hx
          · decide
          · exact hint _ x hx

/-- A text that starts with a digit is that of a finite number, if it is one of a number. -/
theorem readMagnitude_of_digit (negative : Bool) {d : Char} (hd : d ∈ digitChars)
    (rest : List Char) : readMagnitude negative (d :: rest) = readFinite negative (d :: rest) := by
  have hletters : ∀ d ∈ digitChars, d.toLower ≠ 'i' ∧ d.toLower ≠ 'n' ∧ d.toLower ≠ 's' :=
    forall_of_all (by decide)
  obtain ⟨hi, hn, hs⟩ := hletters d hd
  unfold readMagnitude
  split
  · next h => exact absurd (List.cons.inj h).1 hi
  · next h => exact absurd (List.cons.inj h).1 hi
  · next h => exact absurd (List.cons.inj h).1 hn
  · next h => exact absurd (List.cons.inj h).1 hs
  · rfl

/-- A text without blanks and underscores is read as it is. -/
theorem trim_filter_of_numberChars {cs : List Char} (h : ∀ c ∈ cs, c ∈ numberChars) :
    (Text.trim cs).filter (· != '_') = cs := by
  have hblank : ∀ c ∈ numberChars, Text.isBlank c = false :=
    forall_of_all (by decide)
  have hscore : ∀ c ∈ numberChars, (c != '_') = true :=
    forall_of_all (by decide)
  have hdrop : ∀ ds : List Char, (∀ c ∈ ds, c ∈ numberChars) → ds.dropWhile Text.isBlank = ds := by
    intro ds hds
    cases ds with
    | nil => rfl
    | cons c rest =>
      rw [List.dropWhile_cons_of_neg]
      rw [hblank c (hds c List.mem_cons_self)]
      decide
  have hreverse : ∀ c ∈ cs.reverse, c ∈ numberChars := fun c hc => h c (List.mem_reverse.1 hc)
  rw [Text.trim, hdrop cs h, hdrop _ hreverse, List.reverse_reverse]
  exact List.filter_eq_self.2 fun c hc => hscore c (h c hc)

/-- A finite number whose exponents can be represented is read back from its text. -/
theorem ofChars?_chars {negative : Bool} {c : Nat} {e : Int} (h : inExponentRange c e = true) :
    ofChars? (Decimal.finite negative c e).chars = some (.finite negative c e) := by
  obtain ⟨d, rest, hd, htext, hchars⟩ := exists_magnitudeText_eq_cons c e
  have hall : ∀ x ∈ (Decimal.finite negative c e).chars, x ∈ numberChars := by
    intro x hx
    rcases List.mem_append.1 hx with hx | hx
    · cases negative with
      | false => exact absurd hx List.not_mem_nil
      | true =>
        rw [List.mem_singleton.1 hx]
        decide
    · exact hchars x hx
  have hread := readFinite_magnitudeText negative h
  rw [htext, ← readMagnitude_of_digit negative hd] at hread
  rw [ofChars?, trim_filter_of_numberChars hall, chars, htext]
  cases negative with
  | true => exact hread
  | false =>
    have hsigns : ∀ d ∈ digitChars, d ≠ '-' ∧ d ≠ '+' :=
      forall_of_all (by decide)
    obtain ⟨hminus, hplus⟩ := hsigns d hd
    split
    · next h => exact absurd (List.cons.inj h).1 hminus
    · next h => exact absurd (List.cons.inj h).1 hplus
    · exact hread

/-- A finite number whose exponents can be represented is what its text denotes. -/
theorem ofText?_text {negative : Bool} {c : Nat} {e : Int} (h : inExponentRange c e = true) :
    ofText? (Decimal.finite negative c e).text = some (.finite negative c e) := by
  rw [ofText?, text, String.toList_ofList, ofChars?_chars h]

end RewardLedger.Decimal
