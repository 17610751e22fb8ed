import Mathlib.Order.WithBot
import Mathlib.Tactic.NormNum
import RewardLedger.Proofs.Number.Order
import RewardLedger.Proofs.Number.Sum
import RewardLedger.Rule.Evaluation

/-!
# Conditions compare values in one order

The leaves of conditions compare whole numbers, binary floating point numbers and decimal numbers
with one another. Each of these numbers has an exact value, which is a rational number or one of the
two infinities (`Value.exactValue?`), and the operators answer by the order of these values: no
number is converted into another kind on the way. Null, truth values and texts equal only their own
kind, so that equality of scalars is equality of what they stand for (`Value.scalar?`).

From the two come all laws of the operators (`Operator.oneOrder`): numbers are less, equal
or greater, the order and equality are transitive whatever kinds meet, what is no number has no
order, and belonging to a list is equality with one of its items.
-/

namespace RewardLedger

/-! ## Exact values -/

/-- The place on the line from negative to positive infinity. -/
def Extent.position : Extent → WithBot (WithTop ℚ)
  | infinite negative => if negative then ⊥ else ⊤
  | finite x => ((x.toRat : WithTop ℚ) : WithBot (WithTop ℚ))

/-- Places stand in the order in which they lie on the line. -/
theorem Extent.compareValues_compares (a b : Extent) :
    (a.compareValues b).Compares a.position b.position := by
  have hfinite : ∀ x : ℚ, (⊥ : WithBot (WithTop ℚ)) < ((x : WithTop ℚ) : WithBot (WithTop ℚ)) ∧
      ((x : WithTop ℚ) : WithBot (WithTop ℚ)) < ⊤ := fun x =>
    ⟨WithBot.bot_lt_coe _, WithBot.coe_lt_coe.2 (WithTop.coe_lt_top x)⟩
  cases a with
  | infinite n => cases b with
    | infinite n' => cases n <;> cases n' <;> simp [compareValues, position, Ordering.Compares]
    | finite y => cases n <;> simp [compareValues, position, Ordering.Compares, hfinite]
  | finite x => cases b with
    | infinite n' => cases n' <;> simp [compareValues, position, Ordering.Compares, hfinite]
    | finite y =>
      have hmono : StrictMono fun q : ℚ => ((q : WithTop ℚ) : WithBot (WithTop ℚ)) :=
        WithBot.coe_strictMono.comp WithTop.coe_strictMono
      exact hmono.compares.2 (Scaled.compareValues_compares x y)

namespace Value

/-- The value is a number of one of the three kinds; a truth value is none. -/
def isNumber : Value → Bool
  | int _ | float _ | decimal _ => true
  | _ => false

/-- The exact value of a number of any kind. A not-a-number has none, and neither has a truth
value. -/
def exactValue? : Value → Option (WithBot (WithTop ℚ))
  | int i => some ((i : ℚ) : WithTop ℚ)
  | float (.finite negative m e) =>
    some ((if negative then -(m * 2 ^ e) else m * 2 ^ e : ℚ) : WithTop ℚ)
  | float (.infinite negative) => some (if negative then ⊥ else ⊤)
  | decimal (.finite negative c e) =>
    some ((if negative then -(c * 10 ^ e) else c * 10 ^ e : ℚ) : WithTop ℚ)
  | decimal (.infinite negative) => some (if negative then ⊥ else ⊤)
  | _ => none

/-- The exact value of a number is the place at which comparisons look for it. -/
theorem of_exactValue? {v : Value} {x : WithBot (WithTop ℚ)} (h : v.exactValue? = some x) :
    ∃ n a, v.plainNumber? = some n ∧ v.number? = some n ∧ n.extent? = some a ∧ a.position = x := by
  -- a signed coefficient and its powers are the value of a finite number
  have hscaled : ∀ (negative : Bool) (c : Nat) (twos tens : Int),
      Scaled.toRat ⟨if negative then -(c : Int) else c, twos, tens⟩ =
        if negative then -((c : ℚ) * (2 ^ twos * 10 ^ tens))
        else (c : ℚ) * (2 ^ twos * 10 ^ tens) := by
    intro negative c twos tens
    cases negative <;> simp [Scaled.toRat]
  cases v with
  | int i =>
    cases h
    refine ⟨_, _, rfl, rfl, rfl, ?_⟩
    simp [Extent.position, Scaled.toRat]
  | float f => cases f with
    | finite negative m e =>
      cases h
      refine ⟨_, _, rfl, rfl, rfl, ?_⟩
      rw [Extent.position, hscaled, zpow_zero, mul_one]
    | infinite negative =>
      cases h
      exact ⟨_, _, rfl, rfl, rfl, rfl⟩
    | nan => cases h
  | decimal d => cases d with
    | finite negative c e =>
      cases h
      refine ⟨_, _, rfl, rfl, rfl, ?_⟩
      rw [Extent.position, hscaled, zpow_zero, one_mul]
    | infinite negative =>
      cases h
      exact ⟨_, _, rfl, rfl, rfl, rfl⟩
    | nan negative signaling payload => cases h
  | _ => cases h

variable {a b : Value} {x y : WithBot (WithTop ℚ)}

/-- Asking for the order of numbers is answered by their exact values. -/
theorem comparesAs_of_exactValue? (test : Ordering → Bool) (ha : a.exactValue? = some x)
    (hb : b.exactValue? = some y) : a.comparesAs test b = .ok (test (cmp x y)) := by
  obtain ⟨n, p, hn, -, hp, rfl⟩ := of_exactValue? ha
  obtain ⟨m, q, hm, -, hq, rfl⟩ := of_exactValue? hb
  have hvalid : n.orderInvalid m = false := by simp [Number.orderInvalid, hp, hq]
  have hcompare : n.compare? m = some (p.compareValues q) := by
    rw [Number.compare?, hp, hq]
    rfl
  rw [comparesAs, hn, hm]
  dsimp only
  rw [hvalid, hcompare, (Extent.compareValues_compares p q).cmp_eq]
  rfl

/-- Asking for the order of values one of which is no number is answered with no. -/
theorem comparesAs_of_not_isNumber (test : Ordering → Bool)
    (h : (a.isNumber && b.isNumber) = false) : a.comparesAs test b = .ok false := by
  have hnone : ∀ {v : Value}, v.isNumber = false → v.plainNumber? = none := fun {v} hv => by
    cases v <;> first | rfl | cases hv
  rw [comparesAs]
  rcases Bool.and_eq_false_iff.1 h with ha | hb
  · rw [hnone ha]
  · rw [hnone hb]
    cases a.plainNumber? <;> rfl

/-- Numbers are equal if their exact values are. -/
theorem strictEquals_of_exactValue? (ha : a.exactValue? = some x) (hb : b.exactValue? = some y) :
    a.strictEquals b = .ok (decide (x = y)) := by
  have hscalar : a.equals b = a.scalarEquals b := by
    cases a with
    | int _ | float _ | decimal _ => simp only [equals]
    | _ => cases ha
  obtain ⟨n, p, hn, hn', hp, rfl⟩ := of_exactValue? ha
  obtain ⟨m, q, hm, hm', hq, rfl⟩ := of_exactValue? hb
  -- a number with an exact value is no signaling one, which alone could not be compared
  have hsignaling : ∀ {k : Number} {e : Extent}, k.extent? = some e → k.isSignaling = false := by
    intro k e he
    cases k with
    | int _ | float _ => rfl
    | decimal d => cases d <;> first | rfl | cases he
  have hvalid : n.equalityInvalid m = false := by
    rw [Number.equalityInvalid, hsignaling hp, hsignaling hq]
    rfl
  have hsame : n.sameValue m = decide (p.position = q.position) := by
    rw [Bool.eq_iff_iff, decide_eq_true_iff, ← (Extent.compareValues_compares p q).eq_eq,
      Number.sameValue, Number.compare?, hp, hq]
    exact beq_iff_eq.trans Option.some_inj
  have hanswer : a.scalarEquals b = some (decide (p.position = q.position)) := by
    unfold scalarEquals
    rw [hn', hm']
    dsimp only
    rw [hvalid, hsame]
    rfl
  rw [strictEquals, hn, hm]
  dsimp only
  rw [equalTo, hscalar, hanswer]

/-! ## Scalars -/

end Value

/-- What a scalar stands for. -/
inductive Scalar where
  /-- Null. -/
  | null
  /-- A truth value. -/
  | truth (b : Bool)
  /-- A number, of which only the exact value matters. -/
  | number (x : WithBot (WithTop ℚ))
  /-- A text. -/
  | text (s : String)
  deriving DecidableEq

namespace Value

/-- What the value stands for if it is null, a truth value, a text or a number with an exact
value. -/
def scalar? : Value → Option Scalar
  | null => some .null
  | bool b => some (.truth b)
  | str s => some (.text s)
  | v => v.exactValue?.map .number

/-- The values that stand for a scalar. -/
def StandsFor (v : Value) : Scalar → Prop
  | .null => v = null
  | .truth b => v = bool b
  | .number x => v.exactValue? = some x
  | .text s => v = str s

/-- What a scalar stands for tells of which kind it is. -/
theorem of_scalar? {v : Value} {x : Scalar} (h : v.scalar? = some x) : v.StandsFor x := by
  have hnumber : v.exactValue?.map .number = some x → v.StandsFor x := fun h => by
    obtain ⟨r, hr, rfl⟩ := Option.map_eq_some_iff.1 h
    exact hr
  cases v with
  | null | bool _ | str _ =>
    cases h
    rfl
  | _ => exact hnumber h

/-- A scalar that is no number is not counted as one. -/
theorem plainNumber?_of_scalar? {v : Value} {x : Scalar} (h : v.scalar? = some x)
    (hx : ∀ r, x ≠ .number r) : v.plainNumber? = none := by
  have hv := of_scalar? h
  cases x with
  | number r => exact absurd rfl (hx r)
  | null | truth _ | text _ =>
    obtain rfl := hv
    rfl

/-- Truth values are equal if they are the same one. -/
theorem strictEquals_bool (p q : Bool) : (bool p).strictEquals (bool q) = .ok (decide (p = q)) := by
  have hsame : ∀ i j : Int, Number.sameValue (.int i) (.int j) = decide (i = j) := fun i j => by
    rw [Bool.eq_iff_iff, decide_eq_true_iff]
    show (some (Scaled.compareValues ⟨i, 0, 0⟩ ⟨j, 0, 0⟩) == some .eq) = true ↔ i = j
    rw [beq_iff_eq, Option.some_inj, Scaled.compareValues_int, compare_eq_iff_eq]
  cases p <;> cases q
  all_goals
    simp [strictEquals, plainNumber?, kindName, equalTo, equals, scalarEquals, number?,
      Number.equalityInvalid, Number.isSignaling, hsame]

/-- Texts are equal if they are the same text. -/
theorem strictEquals_str (s t : String) : (str s).strictEquals (str t) = .ok (decide (s = t)) := by
  rw [← Bool.beq_eq_decide_eq]
  simp [strictEquals, plainNumber?, number?, kindName, equalTo, equals, scalarEquals]

/-- Scalars are equal if they stand for the same. -/
theorem strictEquals_of_scalar? {a b : Value} {x y : Scalar} (ha : a.scalar? = some x)
    (hb : b.scalar? = some y) : a.strictEquals b = .ok (decide (x = y)) := by
  -- a number equals no other scalar
  have hmixed : ∀ {v w : Value} {r : WithBot (WithTop ℚ)} {z : Scalar}, v.exactValue? = some r →
      w.scalar? = some z → (∀ r', z ≠ .number r') →
        v.strictEquals w = .ok false ∧ w.strictEquals v = .ok false := by
    intro v w r z hv hw hz
    obtain ⟨n, -, hn, -⟩ := of_exactValue? hv
    have hnone := plainNumber?_of_scalar? hw hz
    constructor
    all_goals rw [strictEquals, hn, hnone]
  cases x with
  | number x => cases y with
    | number y =>
      rw [strictEquals_of_exactValue? (of_scalar? ha) (of_scalar? hb)]
      simp
    | null | truth _ | text _ => simp [(hmixed (of_scalar? ha) hb (by simp)).1]
  | null =>
    obtain rfl : a = null := of_scalar? ha
    cases y with
    | number y => simp [(hmixed (of_scalar? hb) ha (by simp)).2]
    | null =>
      obtain rfl : b = null := of_scalar? hb
      simp [strictEquals, plainNumber?, number?, equalTo, equals, scalarEquals]
    | truth _ | text _ =>
      obtain rfl : b = _ := of_scalar? hb
      simp [strictEquals, plainNumber?, number?, kindName]
  | truth p =>
    obtain rfl : a = bool p := of_scalar? ha
    cases y with
    | number y => simp [(hmixed (of_scalar? hb) ha (by simp)).2]
    | truth q =>
      obtain rfl : b = bool q := of_scalar? hb
      simp [strictEquals_bool]
    | null | text _ =>
      obtain rfl : b = _ := of_scalar? hb
      simp [strictEquals, plainNumber?, number?, kindName]
  | text s =>
    obtain rfl : a = str s := of_scalar? ha
    cases y with
    | number y => simp [(hmixed (of_scalar? hb) ha (by simp)).2]
    | text t =>
      obtain rfl : b = str t := of_scalar? hb
      simp [strictEquals_str]
    | null | truth _ =>
      obtain rfl : b = _ := of_scalar? hb
      simp [strictEquals, plainNumber?, number?, kindName]

/-- A scalar is one of several scalars if one of them stands for the same. -/
theorem equalsOneOf_of_scalar? {a : Value} {x : Scalar} (ha : a.scalar? = some x)
    {items : List Value} (hitems : ∀ item ∈ items, item.scalar?.isSome = true) :
    a.equalsOneOf items = .ok (items.any fun item => item.scalar? == some x) := by
  induction items with
  | nil => rfl
  | cons item rest ih =>
    obtain ⟨y, hy⟩ := Option.isSome_iff_exists.1 (hitems item List.mem_cons_self)
    have ih := ih fun i hi => hitems i (List.mem_cons_of_mem _ hi)
    rw [equalsOneOf, strictEquals_of_scalar? ha hy, List.any_cons, hy, ih]
    by_cases hxy : x = y
    · subst hxy
      simp
      rfl
    · have hne : (some y == some x) = false := by simpa using Ne.symm hxy
      rw [hne, decide_eq_false hxy, Bool.false_or]
      rfl

end Value

/-! ## Operators -/

namespace Operator

/-- The operators that ask for the order of two values. -/
def ordering : List Operator := [less, greater, atMost, atLeast]

/-- The operators of leaves agree on one order of numbers and on one equality of scalars. The numbers
are the values with an exact value, and the scalars are null, the truth values, these numbers and the
texts. -/
structure OneOrder : Prop where
  /-- A leaf answers as its operator does for the value that its path leads to. -/
  leaf : ∀ {path : String} {event a : Value}, path ≠ "" → Path.resolve event path = .ok (some a) →
    ∀ op b, (Condition.leaf path (.known op) b).evaluate event = holds op (some a) b
  /-- Numbers are compared by their exact values. -/
  exact : ∀ {a b : Value} {x y : WithBot (WithTop ℚ)}, a.exactValue? = some x →
    b.exactValue? = some y →
    less.holds (some a) b = .ok (decide (x < y)) ∧ equal.holds (some a) b = .ok (decide (x = y)) ∧
      greater.holds (some a) b = .ok (decide (y < x)) ∧
      atMost.holds (some a) b = .ok (decide (x ≤ y)) ∧
      atLeast.holds (some a) b = .ok (decide (y ≤ x))
  /-- Of two numbers the first is less than the second, equal to it or greater, and only one of
  these. -/
  trichotomy : ∀ {a b : Value}, a.exactValue?.isSome = true → b.exactValue?.isSome = true →
    ∃! op, op ∈ [less, equal, greater] ∧ holds op (some a) b = .ok true
  /-- A number is at most another one if it is less or equal. -/
  atMost_iff : ∀ {a b : Value}, a.exactValue?.isSome = true → b.exactValue?.isSome = true →
    (atMost.holds (some a) b = .ok true ↔
      less.holds (some a) b = .ok true ∨ equal.holds (some a) b = .ok true)
  /-- A number is at least another one if it is greater or equal. -/
  atLeast_iff : ∀ {a b : Value}, a.exactValue?.isSome = true → b.exactValue?.isSome = true →
    (atLeast.holds (some a) b = .ok true ↔
      greater.holds (some a) b = .ok true ∨ equal.holds (some a) b = .ok true)
  /-- The order of numbers of any kinds is transitive. -/
  less_trans : ∀ {a b c : Value}, a.exactValue?.isSome = true → b.exactValue?.isSome = true →
    c.exactValue?.isSome = true → less.holds (some a) b = .ok true →
    less.holds (some b) c = .ok true → less.holds (some a) c = .ok true
  /-- Values of which one is no number have no order. -/
  unordered : ∀ {a b : Value}, (a.isNumber && b.isNumber) = false →
    ∀ op ∈ ordering, holds op (some a) b = .ok false
  /-- A scalar equals itself. -/
  equal_refl : ∀ {a : Value}, a.scalar?.isSome = true → equal.holds (some a) a = .ok true
  /-- Equality of scalars does not depend on which of them comes first. -/
  equal_comm : ∀ {a b : Value}, a.scalar?.isSome = true → b.scalar?.isSome = true →
    equal.holds (some a) b = equal.holds (some b) a
  /-- Equality of scalars is transitive, also among numbers of different kinds. -/
  equal_trans : ∀ {a b c : Value}, a.scalar?.isSome = true → b.scalar?.isSome = true →
    c.scalar?.isSome = true → equal.holds (some a) b = .ok true →
    equal.holds (some b) c = .ok true → equal.holds (some a) c = .ok true
  /-- Scalars differ if they are not equal. -/
  notEqual_iff : ∀ {a b : Value}, a.scalar?.isSome = true → b.scalar?.isSome = true →
    ∃ answer, equal.holds (some a) b = .ok answer ∧ notEqual.holds (some a) b = .ok !answer
  /-- A scalar is among several if it equals one of them, and not among them otherwise. -/
  among_iff : ∀ {a : Value} {items : List Value}, a.scalar?.isSome = true →
    (∀ item ∈ items, item.scalar?.isSome = true) →
    ∃ answer, among.holds (some a) (.list items) = .ok answer ∧
      notAmong.holds (some a) (.list items) = .ok (!answer) ∧
      (answer = true ↔ ∃ item ∈ items, equal.holds (some a) item = .ok true)

variable {a b : Value}

/-- Operators decide the order and the equality of numbers by their exact values. -/
theorem holds_of_exactValue? {x y : WithBot (WithTop ℚ)} (ha : a.exactValue? = some x)
    (hb : b.exactValue? = some y) :
    less.holds (some a) b = .ok (decide (x < y)) ∧ equal.holds (some a) b = .ok (decide (x = y)) ∧
      greater.holds (some a) b = .ok (decide (y < x)) ∧
      atMost.holds (some a) b = .ok (decide (x ≤ y)) ∧
      atLeast.holds (some a) b = .ok (decide (y ≤ x)) := by
  have hcompares := cmp_compares x y
  -- an operator that tests the order answers whether the test passes
  have hanswer : ∀ {test : Ordering → Bool} {p : Prop} [Decidable p],
      (test (cmp x y) = true ↔ p) → a.comparesAs test b = .ok (decide p) := fun {test p} _ h => by
    rw [Value.comparesAs_of_exactValue? test ha hb,
      Bool.eq_iff_iff.2 (h.trans decide_eq_true_iff.symm)]
  exact ⟨hanswer (beq_iff_eq.trans hcompares.eq_lt), Value.strictEquals_of_exactValue? ha hb,
    hanswer (beq_iff_eq.trans hcompares.eq_gt), hanswer (bne_iff_ne.trans hcompares.ne_gt),
    hanswer (bne_iff_ne.trans hcompares.ne_lt)⟩

/-- Operators that ask for the order answer no if one of the values is no number. -/
theorem holds_of_not_isNumber (h : (a.isNumber && b.isNumber) = false) {op : Operator}
    (hop : op ∈ ordering) : op.holds (some a) b = .ok false := by
  have hanswer : ∀ test, a.comparesAs test b = .ok false := fun test =>
    Value.comparesAs_of_not_isNumber test h
  rw [ordering, List.mem_cons, List.mem_cons, List.mem_cons, List.mem_singleton] at hop
  rcases hop with rfl | rfl | rfl | rfl
  all_goals exact hanswer _

/-- Of two numbers the first is less than the second, equal to it or greater, and only one of
these. -/
theorem existsUnique_holds (ha : a.exactValue?.isSome = true) (hb : b.exactValue?.isSome = true) :
    ∃! op, op ∈ [less, equal, greater] ∧ holds op (some a) b = .ok true := by
  obtain ⟨x, hx⟩ := Option.isSome_iff_exists.1 ha
  obtain ⟨y, hy⟩ := Option.isSome_iff_exists.1 hb
  obtain ⟨hless, hequal, hgreater, -, -⟩ := holds_of_exactValue? hx hy
  have hiff : ∀ op, op ∈ [less, equal, greater] ∧ holds op (some a) b = .ok true ↔
      op = less ∧ x < y ∨ op = equal ∧ x = y ∨ op = greater ∧ y < x := by
    intro op
    rw [List.mem_cons, List.mem_cons, List.mem_singleton, or_and_right, or_and_right]
    refine or_congr ?_ (or_congr ?_ ?_)
    all_goals
      refine and_congr_right fun hop => ?_
      subst hop
      simp [hless, hequal, hgreater]
  simp only [hiff]
  rcases lt_trichotomy x y with h | h | h
  · exact ⟨less, by simp [h], fun op hop => by simpa [h, h.ne, h.not_gt] using hop⟩
  · exact ⟨equal, by simp [h], fun op hop => by simpa [h] using hop⟩
  · exact ⟨greater, by simp [h], fun op hop => by simpa [h, h.ne', h.not_gt] using hop⟩

/-- Whether a scalar is among others is whether it equals one of them. -/
theorem holds_among {items : List Value} (ha : a.scalar?.isSome = true)
    (hitems : ∀ item ∈ items, item.scalar?.isSome = true) :
    ∃ answer, among.holds (some a) (.list items) = .ok answer ∧
      notAmong.holds (some a) (.list items) = .ok (!answer) ∧
      (answer = true ↔ ∃ item ∈ items, equal.holds (some a) item = .ok true) := by
  obtain ⟨x, hx⟩ := Option.isSome_iff_exists.1 ha
  have hone := Value.equalsOneOf_of_scalar? hx hitems
  refine ⟨_, hone, ?_,
    List.any_eq_true.trans (exists_congr fun item => and_congr_right fun hi => ?_)⟩
  · rw [holds, hone]
    rfl
  · obtain ⟨y, hy⟩ := Option.isSome_iff_exists.1 (hitems item hi)
    rw [holds, Value.strictEquals_of_scalar? hx hy, hy, beq_iff_eq, Option.some_inj,
      Except.ok.injEq, decide_eq_true_iff, eq_comm]

/-- The operators of leaves compare numbers by their exact values, and scalars by what they stand
for. -/
theorem oneOrder : OneOrder where
  leaf hpath hresolve op b := by
    rw [Condition.evaluate, Condition.leafHolds, if_neg hpath, hresolve]
    rfl
  exact ha hb := holds_of_exactValue? ha hb
  -- each law of numbers is the law of their exact values
  trichotomy ha hb := existsUnique_holds ha hb
  atMost_iff ha hb := by
    obtain ⟨x, hx⟩ := Option.isSome_iff_exists.1 ha
    obtain ⟨y, hy⟩ := Option.isSome_iff_exists.1 hb
    obtain ⟨hless, hequal, -, hatMost, -⟩ := holds_of_exactValue? hx hy
    simp only [hless, hequal, hatMost, Except.ok.injEq, decide_eq_true_iff]
    exact le_iff_lt_or_eq
  atLeast_iff ha hb := by
    obtain ⟨x, hx⟩ := Option.isSome_iff_exists.1 ha
    obtain ⟨y, hy⟩ := Option.isSome_iff_exists.1 hb
    obtain ⟨-, hequal, hgreater, -, hatLeast⟩ := holds_of_exactValue? hx hy
    simp only [hgreater, hequal, hatLeast, Except.ok.injEq, decide_eq_true_iff]
    exact le_iff_lt_or_eq.trans (or_congr_right eq_comm)
  less_trans ha hb hc hab hbc := by
    obtain ⟨x, hx⟩ := Option.isSome_iff_exists.1 ha
    obtain ⟨y, hy⟩ := Option.isSome_iff_exists.1 hb
    obtain ⟨z, hz⟩ := Option.isSome_iff_exists.1 hc
    rw [(holds_of_exactValue? hx hy).1, Except.ok.injEq, decide_eq_true_iff] at hab
    rw [(holds_of_exactValue? hy hz).1, Except.ok.injEq, decide_eq_true_iff] at hbc
    rw [(holds_of_exactValue? hx hz).1, decide_eq_true (hab.trans hbc)]
  unordered h op hop := holds_of_not_isNumber h hop
  -- each law of equality is that of what the scalars stand for
  equal_refl ha := by
    obtain ⟨x, hx⟩ := Option.isSome_iff_exists.1 ha
    rw [holds, Value.strictEquals_of_scalar? hx hx, decide_eq_true rfl]
  equal_comm ha hb := by
    obtain ⟨x, hx⟩ := Option.isSome_iff_exists.1 ha
    obtain ⟨y, hy⟩ := Option.isSome_iff_exists.1 hb
    rw [holds, holds, Value.strictEquals_of_scalar? hx hy, Value.strictEquals_of_scalar? hy hx,
      decide_eq_decide.2 eq_comm]
  equal_trans ha hb hc hab hbc := by
    obtain ⟨x, hx⟩ := Option.isSome_iff_exists.1 ha
    obtain ⟨y, hy⟩ := Option.isSome_iff_exists.1 hb
    obtain ⟨z, hz⟩ := Option.isSome_iff_exists.1 hc
    rw [holds, Value.strictEquals_of_scalar? hx hy, Except.ok.injEq, decide_eq_true_iff] at hab
    rw [holds, Value.strictEquals_of_scalar? hy hz, Except.ok.injEq, decide_eq_true_iff] at hbc
    rw [holds, Value.strictEquals_of_scalar? hx hz, decide_eq_true (hab.trans hbc)]
  notEqual_iff ha hb := by
    obtain ⟨x, hx⟩ := Option.isSome_iff_exists.1 ha
    obtain ⟨y, hy⟩ := Option.isSome_iff_exists.1 hb
    refine ⟨_, Value.strictEquals_of_scalar? hx hy, ?_⟩
    rw [holds, Value.strictEquals_of_scalar? hx hy]
    rfl
  among_iff ha hitems := holds_among ha hitems

/-- The floating point number `2 ^ 53` is less than the next whole number, which has no floating
point number of its own, and the floating point number nearest to a tenth is greater than the
decimal number `0.1`. -/
theorem oneOrder_of_near :
    less.holds (some (.float (.finite false 0x10000000000000 1))) (.int 0x20000000000001) =
        .ok true ∧
      greater.holds (some (.float (.finite false 0x1999999999999A (-56))))
        (.decimal (.finite false 1 (-1))) = .ok true := by
  refine ⟨(oneOrder.exact rfl rfl).1.trans ?_, (oneOrder.exact rfl rfl).2.2.1.trans ?_⟩
  · rw [decide_eq_true]
    rw [WithBot.coe_lt_coe, WithTop.coe_lt_coe]
    norm_num
  · rw [decide_eq_true]
    rw [WithBot.coe_lt_coe, WithTop.coe_lt_coe]
    norm_num

end Operator

end RewardLedger
