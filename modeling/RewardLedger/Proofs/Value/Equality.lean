import RewardLedger.Proofs.Number.Order
import RewardLedger.Value.Equality

/-!
# What makes two values the same key

Two values are the same key if what matters of them is the same (`Value.essence?`): the value of a
number of whatever kind, a text, an identifier, a point in time, or for a sequence what matters of
its items (`Value.sameKey_iff`). Being the same key is therefore symmetric and transitive among all
values that can be keys. It is not reflexive: of a not-a-number and of a thing of the surroundings
nothing matters, so they are the same key as nothing (`Value.isUnordered_or_holdsOpaque`).
-/

namespace RewardLedger

/-- What matters of a value when keys are compared. -/
inductive Essence where
  /-- Null. -/
  | null
  /-- A number, of which only the value matters. -/
  | number (value : Bool ⊕ ℚ)
  /-- A text. -/
  | text (s : String)
  /-- An identifier. -/
  | uuid (u : Uuid)
  /-- A point in time, of which it matters whether the offset is known but not which it is. -/
  | time (known : Bool) (micros : Int)
  /-- A sequence. -/
  | sequence (items : List Essence)

namespace Value

mutual

/-- What matters of a value when keys are compared, if anything does. -/
def essence? : Value → Option Essence
  | null => some .null
  | str s => some (.text s)
  | uuid u => some (.uuid u)
  | instant t => some (.time t.offset.isSome t.micros)
  | tuple items => (essences? items).map .sequence
  | v => (v.number?.bind Number.value?).map .number

/-- What matters of the values of a list. -/
def essences? : List Value → Option (List Essence)
  | [] => some []
  | v :: rest => do return (← v.essence?) :: (← essences? rest)

end

/-- What matters of a list of values is what matters of the first and of the others. -/
theorem essences?_cons_eq_some {v : Value} {rest : List Value} {es : List Essence} :
    essences? (v :: rest) = some es ↔
      ∃ e others, v.essence? = some e ∧ essences? rest = some others ∧ es = e :: others := by
  rw [essences?]
  cases v.essence? with
  | none => simp
  | some e => cases essences? rest with
    | none => simp
    | some others => simp [eq_comm]

/-- Of a number its value matters. -/
theorem essence?_of_number? {v : Value} {x : Number} (h : v.number? = some x) :
    v.essence? = x.value?.map .number := by
  cases v <;> simp_all [essence?, number?]

/-- What matters of a value tells of which sort the value is. -/
theorem of_essence? {v : Value} {e : Essence} (h : v.essence? = some e) :
    match e with
    | .null => v = null
    | .number _ => ∃ x, v.number? = some x
    | .text s => v = str s
    | .uuid u => v = uuid u
    | .time .. => ∃ t, v = instant t
    | .sequence es => ∃ items, v = tuple items ∧ essences? items = some es := by
  cases v with
  | null =>
    cases h
    rfl
  | str s =>
    cases h
    rfl
  | uuid u =>
    cases h
    rfl
  | instant t =>
    cases h
    exact ⟨t, rfl⟩
  | tuple items =>
    obtain ⟨es, hes, rfl⟩ := Option.map_eq_some_iff.1 h
    exact ⟨items, rfl, hes⟩
  | bool _ | int _ | float _ | decimal _ =>
    rw [essence?_of_number? rfl] at h
    obtain ⟨value, -, rfl⟩ := Option.map_eq_some_iff.1 h
    exact ⟨_, rfl⟩
  | _ => simp [essence?, number?] at h

/-- Two options hold a common item if they hold the same one. -/
theorem exists_common_iff {α : Type} {a b : α} :
    (∃ e, some a = some e ∧ some b = some e) ↔ a = b :=
  ⟨fun ⟨_, ha, hb⟩ => Option.some.inj (ha.trans hb.symm), fun h => ⟨a, rfl, h ▸ rfl⟩⟩

/-! ## Comparing scalars -/

/-- A signaling not-a-number has no value. -/
theorem value?_of_isSignaling {x : Number} (h : x.isSignaling = true) : x.value? = none := by
  cases x with
  | decimal d => cases d <;> first | rfl | cases h
  | _ => cases h

/-- Numbers are equal if what matters of them is the same. -/
theorem scalarEquals_iff_of_number? {v w : Value} {x y : Number} (hx : v.number? = some x)
    (hy : w.number? = some y) : scalarEquals v w = some true ↔
      ∃ e, v.essence? = some e ∧ w.essence? = some e := by
  rw [essence?_of_number? hx, essence?_of_number? hy]
  unfold scalarEquals
  rw [hx, hy]
  dsimp only
  by_cases hi : x.equalityInvalid y = true
  · -- there is no answer, and one of the two has no value
    rw [if_pos hi]
    rcases Bool.or_eq_true_iff.1 hi with hs | hs
    · simp [value?_of_isSignaling hs]
    · simp [value?_of_isSignaling hs]
  · rw [if_neg hi, Option.some.injEq, Number.sameValue_iff]
    constructor
    · rintro ⟨value, hv, hw⟩
      exact ⟨.number value, by rw [hv]; rfl, by rw [hw]; rfl⟩
    · rintro ⟨e, hv, hw⟩
      obtain ⟨a, ha, rfl⟩ := Option.map_eq_some_iff.1 hv
      obtain ⟨b, hb, hab⟩ := Option.map_eq_some_iff.1 hw
      cases hab
      exact ⟨a, ha, hb⟩

/-- Values that are no numbers, and not both sequences, are equal as scalars if what matters of them
is the same. -/
theorem scalarEquals_iff_of_no_number {v w : Value} (hx : v.number? = none)
    (hy : w.number? = none) (h : ∀ xs ys, v = tuple xs → w ≠ tuple ys) :
    scalarEquals v w = some true ↔ ∃ e, v.essence? = some e ∧ w.essence? = some e := by
  unfold scalarEquals
  rw [hx, hy]
  dsimp only
  -- the kinds that are compared as scalars, and then all others
  split
  · rw [essence?, exists_common_iff]
    simp
  · rw [essence?, essence?, exists_common_iff]
    simp
  · rw [essence?, essence?, exists_common_iff]
    simp
  · rw [essence?, essence?, exists_common_iff]
    simp [Instant.sameTime, Instant.comparable]
  · rename_i hnull hstr huuid hinstant
    refine iff_of_false (by simp) ?_
    rintro ⟨e, hv, hw⟩
    have hv := of_essence? hv
    have hw := of_essence? hw
    cases e with
    | null => exact hnull hv hw
    | number value =>
      obtain ⟨x, hx'⟩ := hv
      rw [hx] at hx'
      cases hx'
    | text s => exact hstr s s hv hw
    | uuid u => exact huuid u u hv hw
    | time known micros =>
      obtain ⟨t, ht⟩ := hv
      obtain ⟨u, hu⟩ := hw
      exact hinstant t u ht hu
    | sequence es =>
      obtain ⟨xs, hxs, -⟩ := hv
      obtain ⟨ys, hys, -⟩ := hw
      exact h xs ys hxs hys

/-- Two values that are not both sequences are equal as scalars if what matters of them is the
same. -/
theorem scalarEquals_iff {v w : Value} (h : ∀ xs ys, v = tuple xs → w ≠ tuple ys) :
    scalarEquals v w = some true ↔ ∃ e, v.essence? = some e ∧ w.essence? = some e := by
  cases hx : v.number? with
  | none => cases hy : w.number? with
    | none => exact scalarEquals_iff_of_no_number hx hy h
    | some y =>
      unfold scalarEquals
      rw [hx, hy]
      refine iff_of_false (by simp) ?_
      rintro ⟨e, hv, hw⟩
      rw [essence?_of_number? hy] at hw
      obtain ⟨value, -, rfl⟩ := Option.map_eq_some_iff.1 hw
      obtain ⟨x, hx'⟩ := of_essence? hv
      rw [hx] at hx'
      cases hx'
  | some x => cases hy : w.number? with
    | none =>
      unfold scalarEquals
      rw [hx, hy]
      refine iff_of_false (by simp) ?_
      rintro ⟨e, hv, hw⟩
      rw [essence?_of_number? hx] at hv
      obtain ⟨value, -, rfl⟩ := Option.map_eq_some_iff.1 hv
      obtain ⟨y, hy'⟩ := of_essence? hw
      rw [hy] at hy'
      cases hy'
    | some y => exact scalarEquals_iff_of_number? hx hy

/-! ## Comparing keys -/

/-- Items that are equal one by one, up to the end of both lists, are the same composite key. -/
theorem itemsEqual_iff {xs ys : List Value} (h : xs.length = ys.length) :
    itemsEqual xs ys = some true ↔ sameKeys xs ys = true := by
  induction xs generalizing ys with
  | nil => cases ys <;> simp_all [itemsEqual, sameKeys]
  | cons x xs ih =>
    cases ys with
    | nil => cases h
    | cons y ys =>
      rw [itemsEqual, sameKeys, sameKey]
      cases he : x.equals y with
      | none => simp
      | some b =>
        have ih := ih (Nat.succ.inj h)
        cases b <;> simp [ih]

/-- Composite keys that are the same have equally many parts. -/
theorem length_eq_of_sameKeys {xs ys : List Value} (h : sameKeys xs ys = true) :
    xs.length = ys.length := by
  induction xs generalizing ys with
  | nil => cases ys <;> simp_all [sameKeys]
  | cons x xs ih =>
    cases ys with
    | nil => simp [sameKeys] at h
    | cons y ys =>
      rw [sameKeys, Bool.and_eq_true] at h
      rw [List.length_cons, List.length_cons, ih h.2]

/-- Sequences are the same key if their items are. -/
theorem sameKey_tuple (xs ys : List Value) : (tuple xs).sameKey (tuple ys) = sameKeys xs ys := by
  rw [sameKey, equals]
  by_cases hl : xs.length = ys.length
  · rw [if_pos hl, Bool.eq_iff_iff, beq_iff_eq, itemsEqual_iff hl]
  · rw [if_neg hl, eq_comm, Bool.eq_false_iff.2 fun h => hl (length_eq_of_sameKeys h)]
    rfl

/-- A key is compared as a scalar with a value unless both are sequences. -/
theorem equals_eq_scalarEquals {v w : Value} (hv : v.hashable = true)
    (h : ∀ xs ys, v = tuple xs → w ≠ tuple ys) : v.equals w = scalarEquals v w := by
  cases v with
  | tuple xs => cases w with
    | tuple ys => exact absurd rfl (h xs ys rfl)
    | _ => simp only [equals]
  | list _ | object _ | map _ => simp [hashable] at hv
  | _ => simp only [equals]

mutual

/-- A value that can be a key is the same key as another value if what matters of the two is the
same. -/
theorem sameKey_iff {v : Value} (hv : v.hashable = true) (w : Value) :
    v.sameKey w = true ↔ ∃ e, v.essence? = some e ∧ w.essence? = some e := by
  by_cases h : ∃ xs ys, v = tuple xs ∧ w = tuple ys
  · obtain ⟨xs, ys, rfl, rfl⟩ := h
    rw [hashable] at hv
    rw [sameKey_tuple, sameKeys_iff hv ys, essence?, essence?]
    constructor
    · rintro ⟨es, hx, hy⟩
      exact ⟨.sequence es, by rw [hx]; rfl, by rw [hy]; rfl⟩
    · rintro ⟨e, hx, hy⟩
      obtain ⟨es, hes, rfl⟩ := Option.map_eq_some_iff.1 hx
      obtain ⟨fs, hfs, heq⟩ := Option.map_eq_some_iff.1 hy
      cases heq
      exact ⟨es, hes, hfs⟩
  · have hne : ∀ xs ys, v = tuple xs → w ≠ tuple ys := fun xs ys hx hy => h ⟨xs, ys, hx, hy⟩
    rw [sameKey, equals_eq_scalarEquals hv hne, beq_iff_eq, scalarEquals_iff hne]
termination_by sizeOf v

/-- Values that can be keys are the same composite key as others if what matters of them is the
same. -/
theorem sameKeys_iff {vs : List Value} (hvs : allHashable vs = true) (ws : List Value) :
    sameKeys vs ws = true ↔ ∃ es, essences? vs = some es ∧ essences? ws = some es := by
  match vs, ws with
  | [], [] => exact iff_of_true rfl ⟨[], rfl, rfl⟩
  | [], w :: ws =>
    refine iff_of_false (by simp [sameKeys]) ?_
    rintro ⟨es, hv, hw⟩
    obtain ⟨e, others, -, -, rfl⟩ := essences?_cons_eq_some.1 hw
    cases hv
  | v :: vs, [] =>
    refine iff_of_false (by simp [sameKeys]) ?_
    rintro ⟨es, hv, hw⟩
    obtain ⟨e, others, -, -, rfl⟩ := essences?_cons_eq_some.1 hv
    cases hw
  | v :: vs, w :: ws =>
    rw [allHashable, Bool.and_eq_true] at hvs
    rw [sameKeys, Bool.and_eq_true, sameKey_iff hvs.1 w, sameKeys_iff hvs.2 ws]
    simp only [essences?_cons_eq_some]
    constructor
    · rintro ⟨⟨e, hv, hw⟩, es, hvs, hws⟩
      exact ⟨e :: es, ⟨e, es, hv, hvs, rfl⟩, e, es, hw, hws, rfl⟩
    · rintro ⟨_, ⟨e, es, hv, hvs, rfl⟩, e', es', hw, hws, heq⟩
      cases heq
      exact ⟨⟨e, hv, hw⟩, es, hvs, hws⟩
termination_by sizeOf vs

end

/-- Null is the same key as itself only. -/
theorem eq_null_of_sameKey {v : Value} (hv : v.hashable = true) (h : v.sameKey null = true) :
    v = null := by
  obtain ⟨e, hve, hn⟩ := (sameKey_iff hv null).1 h
  cases hn
  exact of_essence? hve

/-! ## Values that equal nothing -/

mutual

/-- A value of which something matters can be a key. -/
theorem hashable_of_essence? {v : Value} {e : Essence} (h : v.essence? = some e) :
    v.hashable = true := by
  match v with
  | tuple items =>
    obtain ⟨es, hes, -⟩ := Option.map_eq_some_iff.1 h
    exact allHashable_of_essences? hes
  | list _ | object _ | map _ => simp [essence?, number?] at h
  | decimal d => cases d with
    | nan negative signaling payload => simp [essence?, number?, Number.value?, Number.extent?] at h
    | _ => rfl
  | null | bool _ | int _ | float _ | str _ | uuid _ | instant _ => rfl
  | opaqueThing => rfl
termination_by sizeOf v

/-- Values of which something matters can be a composite key. -/
theorem allHashable_of_essences? {vs : List Value} {es : List Essence}
    (h : essences? vs = some es) : allHashable vs = true := by
  match vs with
  | [] => rfl
  | v :: rest =>
    obtain ⟨e, others, hv, hr, -⟩ := essences?_cons_eq_some.1 h
    rw [allHashable, hashable_of_essence? hv, allHashable_of_essences? hr]
    rfl
termination_by sizeOf vs

end

/-- What is the same key as a key can be a key. -/
theorem hashable_of_sameKey {v w : Value} (hv : v.hashable = true) (h : v.sameKey w = true) :
    w.hashable = true := by
  obtain ⟨e, -, hw⟩ := (sameKey_iff hv w).1 h
  exact hashable_of_essence? hw

mutual

/-- A key of which nothing matters is or holds a not-a-number or a thing of the surroundings. -/
theorem isUnordered_or_holdsOpaque {v : Value} (hv : v.hashable = true) (h : v.essence? = none) :
    v.isUnordered = true ∨ v.holdsOpaque = true := by
  match v with
  | tuple items => exact anyUnordered_or_anyHoldsOpaque hv (Option.map_eq_none_iff.1 h)
  | list _ | object _ | map _ => simp [hashable] at hv
  | bool _ | int _ | float _ | decimal _ =>
    refine .inl ?_
    rw [essence?_of_number? rfl, Option.map_eq_none_iff] at h
    simpa [isUnordered, number?, Number.value?] using h
  | opaqueThing => exact .inr rfl
  | null | str _ | uuid _ | instant _ => cases h
termination_by sizeOf v

/-- Of a composite key of which nothing matters some part is or holds a not-a-number or a thing of
the surroundings. -/
theorem anyUnordered_or_anyHoldsOpaque {vs : List Value} (hvs : allHashable vs = true)
    (h : essences? vs = none) : anyUnordered vs = true ∨ anyHoldsOpaque vs = true := by
  match vs with
  | [] => cases h
  | v :: rest =>
    rw [allHashable, Bool.and_eq_true] at hvs
    rw [anyUnordered, anyHoldsOpaque, Bool.or_eq_true, Bool.or_eq_true]
    cases hv : v.essence? with
    | none => exact (isUnordered_or_holdsOpaque hvs.1 hv).imp .inl .inl
    | some e => cases hr : essences? rest with
      | none => exact (anyUnordered_or_anyHoldsOpaque hvs.2 hr).imp .inr .inr
      | some es =>
        rw [essences?, hv, hr] at h
        cases h
termination_by sizeOf vs

end

/-- A key without a thing of the surroundings in it is the same key as itself, unless there is a
not-a-number in it. -/
theorem sameKey_self_or_isUnordered {v : Value} (hv : v.hashable = true)
    (ho : v.holdsOpaque = false) : v.sameKey v = true ∨ v.isUnordered = true := by
  cases h : v.essence? with
  | some e => exact .inl ((sameKey_iff hv v).2 ⟨e, h, h⟩)
  | none => exact .inr ((isUnordered_or_holdsOpaque hv h).resolve_right (by simp [ho]))

end Value

end RewardLedger
