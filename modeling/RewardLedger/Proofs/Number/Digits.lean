import Mathlib.Data.Nat.Log
import RewardLedger.Number.DecimalText

/-!
# Digits of numbers

How many digits a number has (`digitCount_eq`), and that its digits denote it (`ofDigits_digitsOf`).
As characters digits are read back one by one, with zeros in front or without
(`digitRun?_map_digitChar`, `paddedText_eq`): whatever reads a number from its text comes down to that.
-/

namespace RewardLedger

/-! ## Counting digits -/

/-- Laying out the digits of a number puts as many in front as its logarithm says. -/
theorem length_digitsOnto {fuel n : Nat} (h : n < fuel) (acc : List Nat) :
    (digitsOnto fuel n acc).length = Nat.log 10 n + 1 + acc.length := by
  induction fuel generalizing n acc with
  | zero => exact absurd h (Nat.not_lt_zero n)
  | succ fuel ih =>
    unfold digitsOnto
    by_cases hn : n < 10
    · rw [if_pos hn, Nat.log_of_lt hn, List.length_cons]
      omega
    · have hlog : Nat.log 10 n = Nat.log 10 (n / 10) + 1 :=
        Nat.log_of_one_lt_of_le (by decide) (Nat.le_of_not_lt hn)
      rw [if_neg hn, ih (by omega), hlog, List.length_cons]
      omega

/-- The number of digits is one more than the logarithm. -/
theorem digitCount_eq (n : Nat) : digitCount n = Nat.log 10 n + 1 :=
  length_digitsOnto (Nat.lt_succ_self n) []

/-- A number has some digits. -/
theorem digitCount_pos (n : Nat) : 0 < digitCount n := by
  rw [digitCount_eq]
  exact Nat.succ_pos _

/-- A number with few digits is small. -/
theorem lt_tenTo_iff {n k : Nat} (hk : 0 < k) : n < tenTo k ↔ digitCount n ≤ k := by
  rw [digitCount_eq, Nat.succ_le_iff]
  exact ⟨Nat.log_lt_of_lt_pow' (Nat.ne_of_gt hk), Nat.lt_pow_of_log_lt (by decide)⟩

/-- A larger number has no fewer digits. -/
theorem digitCount_mono {m n : Nat} (h : m ≤ n) : digitCount m ≤ digitCount n := by
  rw [digitCount_eq, digitCount_eq]
  exact Nat.succ_le_succ (Nat.log_mono_right h)

/-- A number of which some digits stay when others are dropped from the end is not used up. -/
theorem div_tenTo_pos {n k : Nat} (hk : 0 < k) (h : k < digitCount n) : 0 < n / tenTo k := by
  refine Nat.div_pos (Nat.le_of_not_lt fun hlt => ?_) (tenTo_pos k)
  exact Nat.not_le_of_lt h ((lt_tenTo_iff hk).1 hlt)

/-- Dropping digits from the end leaves the others. -/
theorem le_digitCount_div {n k p : Nat} (h : digitCount n = p + k) (hp : 0 < p) :
    p ≤ digitCount (n / tenTo k) := by
  by_contra hlt
  rw [Nat.not_le] at hlt
  have hsome := digitCount_pos (n / tenTo k)
  have hsmall : n / tenTo k < tenTo (p - 1) := (lt_tenTo_iff (by omega)).2 (by omega)
  have hn : n < tenTo (p - 1 + k) := by
    rw [Nat.div_lt_iff_lt_mul (tenTo_pos k)] at hsmall
    exact hsmall.trans_eq (Nat.pow_add 10 (p - 1) k).symm
  rw [lt_tenTo_iff (by omega)] at hn
  omega

/-! ## The number that digits denote -/

/-- Going on with digits moves what there is in front of them. -/
theorem foldl_digits (a : Nat) (ds : List Nat) :
    ds.foldl (fun a d => 10 * a + d) a = a * tenTo ds.length + ofDigits ds := by
  induction ds generalizing a with
  | nil => simp [ofDigits, tenTo]
  | cons d ds ih =>
    have htail : ofDigits (d :: ds) = d * tenTo ds.length + ofDigits ds := by
      rw [← ih d, ofDigits, List.foldl_cons, Nat.mul_zero, Nat.zero_add]
    rw [List.foldl_cons, ih, htail, List.length_cons, tenTo_succ, Nat.add_mul, ← Nat.add_assoc,
      Nat.mul_comm 10 a, Nat.mul_assoc, Nat.mul_comm 10 (tenTo _)]

/-- Digits count for more if others stand behind them. -/
theorem ofDigits_append (ds es : List Nat) :
    ofDigits (ds ++ es) = ofDigits ds * tenTo es.length + ofDigits es := by
  rw [ofDigits, List.foldl_append, foldl_digits]
  rfl

/-- A digit in front counts as many times as the number of the others says. -/
theorem ofDigits_cons (d : Nat) (ds : List Nat) :
    ofDigits (d :: ds) = d * tenTo ds.length + ofDigits ds := by
  have hone : ofDigits [d] = d := by simp [ofDigits]
  rw [← List.singleton_append, ofDigits_append, hone]

/-- Zeros in front count for nothing. -/
theorem ofDigits_replicate_append (k : Nat) (ds : List Nat) :
    ofDigits (List.replicate k 0 ++ ds) = ofDigits ds := by
  induction k with
  | zero => rfl
  | succ k ih => rw [List.replicate_succ, List.cons_append, ofDigits_cons, ih, Nat.zero_mul,
      Nat.zero_add]

/-- The digits of a number in front of others denote it, and the others as before. -/
theorem ofDigits_digitsOnto {fuel n : Nat} (h : n < fuel) (acc : List Nat) :
    ofDigits (digitsOnto fuel n acc) = n * tenTo acc.length + ofDigits acc := by
  induction fuel generalizing n acc with
  | zero => exact absurd h (Nat.not_lt_zero n)
  | succ fuel ih =>
    unfold digitsOnto
    by_cases hn : n < 10
    · rw [if_pos hn, ofDigits_cons]
    · have hsplit : n / 10 * 10 + n % 10 = n := Nat.div_add_mod' n 10
      rw [if_neg hn, ih (by omega), ofDigits_cons, List.length_cons, tenTo_succ]
      rw [← Nat.add_assoc, ← Nat.mul_comm 10, ← Nat.mul_assoc, ← Nat.add_mul, hsplit]

/-- The digits of a number denote it. -/
theorem ofDigits_digitsOf (n : Nat) : ofDigits (digitsOf n) = n := by
  have hnone : tenTo ([] : List Nat).length = 1 := rfl
  rw [digitsOf, ofDigits_digitsOnto (Nat.lt_succ_self n), hnone, Nat.mul_one]
  rfl

/-- Laid out are digits only. -/
theorem lt_of_mem_digitsOnto {fuel n : Nat} {acc : List Nat} (hacc : ∀ d ∈ acc, d < 10) :
    ∀ d ∈ digitsOnto fuel n acc, d < 10 := by
  induction fuel generalizing n acc with
  | zero => exact hacc
  | succ fuel ih =>
    unfold digitsOnto
    split
    · next hn => exact List.forall_mem_cons.2 ⟨hn, hacc⟩
    · exact ih (List.forall_mem_cons.2 ⟨Nat.mod_lt _ (by decide), hacc⟩)

/-- Every digit of a number is below ten. -/
theorem lt_of_mem_digitsOf {n d : Nat} (h : d ∈ digitsOf n) : d < 10 :=
  lt_of_mem_digitsOnto (fun _ h => absurd h List.not_mem_nil) d h

/-! ## Digits as characters -/

/-- The characters of digits. -/
def digitChars : List Char := ['0', '1', '2', '3', '4', '5', '6', '7', '8', '9']

/-- A digit has the character at its place. -/
theorem digitChar_mem {d : Nat} (h : d < 10) : digitChar d ∈ digitChars := by
  have all : ∀ e ∈ List.range 10, digitChar e ∈ digitChars := by decide
  exact all d (List.mem_range.2 h)

/-- A digit can be told from its character. -/
theorem decimalValue?_digitChar {d : Nat} (h : d < 10) :
    Text.decimalValue? (digitChar d) = some d := by
  have all : ∀ e ∈ List.range 10, Text.decimalValue? (digitChar e) = some e := by decide
  exact all d (List.mem_range.2 h)

/-- The place of a character of a digit says which digit it is. -/
theorem toNat_digitChar {d : Nat} (h : d < 10) : (digitChar d).toNat - 0x30 = d := by
  have all : ∀ e ∈ List.range 10, (digitChar e).toNat - 0x30 = e := by decide
  exact all d (List.mem_range.2 h)

/-- What a check of the characters of a list finds holds of each of them. -/
theorem forall_of_all {cs : List Char} {P : Char → Prop} [DecidablePred P]
    (h : cs.all (fun c => decide (P c)) = true) : ∀ c ∈ cs, P c :=
  fun c hc => of_decide_eq_true (List.all_eq_true.1 h c hc)

/-- The character of a digit is an ASCII digit. -/
theorem isDigit_of_mem {c : Char} (h : c ∈ digitChars) : c.isDigit = true := by
  have all : ∀ c ∈ digitChars, c.isDigit = true :=
    forall_of_all (by decide)
  exact all c h

/-- Digits that are written one after the other. -/
theorem mem_map_digitChar {ds : List Nat} (hds : ∀ d ∈ ds, d < 10) :
    ∀ c ∈ ds.map digitChar, c ∈ digitChars := by
  intro c hc
  obtain ⟨d, hd, rfl⟩ := List.mem_map.1 hc
  exact digitChar_mem (hds d hd)

/-- The text of a number consists of digits. -/
theorem mem_natText {n : Nat} {c : Char} (h : c ∈ natText n) : c ∈ digitChars :=
  mem_map_digitChar (fun _ => lt_of_mem_digitsOf) c h

/-- Digits are read back from their characters. -/
theorem digitRun?_map_digitChar {ds : List Nat} (hds : ∀ d ∈ ds, d < 10) :
    Decimal.digitRun? (ds.map digitChar) = some ds := by
  induction ds with
  | nil => rfl
  | cons d ds ih =>
    rw [List.forall_mem_cons] at hds
    have hrest : (ds.map digitChar).mapM Text.decimalValue? = some ds := ih hds.2
    rw [Decimal.digitRun?, List.map_cons, List.mapM_cons, decimalValue?_digitChar hds.1, hrest]
    rfl

/-- Different numbers have different texts. -/
theorem natText_injective {m n : Nat} (h : natText m = natText n) : m = n := by
  have hread : ∀ k, Decimal.digitRun? (natText k) = some (digitsOf k) := fun k =>
    digitRun?_map_digitChar fun _ => lt_of_mem_digitsOf
  have hdigits : digitsOf m = digitsOf n :=
    Option.some.inj ((hread m).symm.trans ((congrArg Decimal.digitRun? h).trans (hread n)))
  rw [← ofDigits_digitsOf m, hdigits, ofDigits_digitsOf]

/-- The text of an integer consists of digits, but for its sign. -/
theorem mem_intText {i : Int} {c : Char} (h : c ∈ intText i) : c = '-' ∨ c ∈ digitChars := by
  unfold intText at h
  split at h
  · exact (List.mem_cons.1 h).imp_right mem_natText
  · exact .inr (mem_natText h)

/-- Different integers have different texts. -/
theorem intText_injective {i j : Int} (h : intText i = intText j) : i = j := by
  have hsign : ∀ k n, '-' :: natText k ≠ natText n := by
    intro k n heq
    have hmem : '-' ∈ natText n := heq ▸ List.mem_cons_self
    exact absurd (mem_natText hmem) (by decide)
  unfold intText at h
  split at h
  · split at h
    · have := natText_injective (List.cons.inj h).2
      omega
    · exact absurd h (hsign _ _)
  · split at h
    · exact absurd h.symm (hsign _ _)
    · have := natText_injective h
      omega

/-- The values of ASCII digits are read back from their characters. -/
theorem map_toNat_map_digitChar {ds : List Nat} (hds : ∀ d ∈ ds, d < 10) :
    (ds.map digitChar).map (fun c => c.toNat - 0x30) = ds := by
  rw [List.map_map]
  refine (List.map_congr_left fun d hd => ?_).trans (List.map_id ds)
  exact toNat_digitChar (hds d hd)

/-- The text of a number is not empty. -/
theorem length_natText (n : Nat) : (natText n).length = digitCount n := List.length_map ..

/-! ## Padded digits -/

/-- The digits of a number, with zeros in front up to a width. -/
def paddedDigits (width n : Nat) : List Nat :=
  List.replicate (width - digitCount n) 0 ++ digitsOf n

/-- A padded text is that of padded digits. -/
theorem paddedText_eq (width n : Nat) : paddedText width n = (paddedDigits width n).map digitChar := by
  rw [paddedText, paddedDigits, List.map_append, List.map_replicate]
  rfl

/-- Padded digits are digits. -/
theorem lt_of_mem_paddedDigits {width n d : Nat} (h : d ∈ paddedDigits width n) : d < 10 := by
  rcases List.mem_append.1 h with h | h
  · rw [List.eq_of_mem_replicate h]
    decide
  · exact lt_of_mem_digitsOf h

/-- Padding does not change the number. -/
theorem ofDigits_paddedDigits (width n : Nat) : ofDigits (paddedDigits width n) = n := by
  rw [paddedDigits, ofDigits_replicate_append, ofDigits_digitsOf]

/-- A number that is small enough has as many padded digits as asked for. -/
theorem length_paddedText {width n : Nat} (hwidth : 0 < width) (h : n < tenTo width) :
    (paddedText width n).length = width := by
  have hcount : digitCount n ≤ width := (lt_tenTo_iff hwidth).1 h
  rw [paddedText, List.length_append, List.length_replicate, length_natText]
  omega

end RewardLedger
