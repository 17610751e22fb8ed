import RewardLedger.Proofs.Value.Equality

/-!
# Kinds of keys

The laws of tables and indexes hold for all values among which being the same key is symmetric and
transitive. `KeyKind` names such a kind of values, so that the laws need not say which values they
are about. All values that can be keys are one (`Value.IsKey`). Where a look-up has to find the row
of a given key, every value must also be the same key as itself (`KeyKind.Exact`). Texts, identifiers
and whole numbers are such a kind (`Value.IsPlain`), in which the same key is simply the same value.
-/

namespace RewardLedger

/-- All values with the property can be keys, and being the same key is symmetric and transitive
among them. -/
class KeyKind (K : Value → Prop) : Prop where
  /-- The values can be keys. -/
  hashable {v : Value} : K v → v.hashable = true
  /-- Null, which stands for the absence of a key, is not among them. -/
  not_null : ¬ K .null
  /-- The order of two values does not matter. -/
  symm {v w : Value} : K v → K w → v.sameKey w = true → w.sameKey v = true
  /-- Two values that are the same key as a third one are the same key. -/
  trans {u v w : Value} : K u → K v → K w → u.sameKey v = true → v.sameKey w = true →
    u.sameKey w = true

/-- Every value of the kind is found under itself. -/
class KeyKind.Exact (K : Value → Prop) : Prop extends KeyKind K where
  /-- No value is or holds a not-a-number. -/
  ordered {v : Value} : K v → v.isUnordered = false
  /-- Every value is the same key as itself. -/
  refl {v : Value} : K v → v.sameKey v = true

/-- All parts of a composite key are of the kind. -/
def KeyKind.All (K : Value → Prop) (key : List Value) : Prop := ∀ v ∈ key, K v

/-- The value is null or of the kind. -/
def KeyKind.OrNull (K : Value → Prop) (v : Value) : Prop := v = .null ∨ K v

namespace KeyKind

variable {K : Value → Prop} [KeyKind K]

/-- A value of the kind is not null. -/
theorem ne_null {v : Value} (h : K v) : v.isNull = false := by
  cases v with
  | null => exact absurd h not_null
  | _ => rfl

/-- Composite keys of the kind can be keys. -/
theorem allHashable {key : List Value} (h : All K key) : Value.allHashable key = true :=
  Value.allHashable_iff.2 fun v hv => hashable (h v hv)

/-- The order of two composite keys does not matter. -/
theorem sameKeys_symm {a b : List Value} (ha : All K a) (hb : All K b)
    (h : Value.sameKeys a b = true) : Value.sameKeys b a = true := by
  induction a generalizing b with
  | nil => cases b <;> simp_all [Value.sameKeys]
  | cons v rest ih =>
    cases b with
    | nil => simp [Value.sameKeys] at h
    | cons w others =>
      rw [Value.sameKeys, Bool.and_eq_true] at h ⊢
      refine ⟨symm (ha v List.mem_cons_self) (hb w List.mem_cons_self) h.1, ?_⟩
      exact ih (fun u hu => ha u (List.mem_cons_of_mem _ hu))
        (fun u hu => hb u (List.mem_cons_of_mem _ hu)) h.2

/-- Two composite keys that are the same as a third one are the same. -/
theorem sameKeys_trans {a b c : List Value} (ha : All K a) (hb : All K b) (hc : All K c)
    (h : Value.sameKeys a b = true) (h' : Value.sameKeys b c = true) :
    Value.sameKeys a c = true := by
  induction a generalizing b c with
  | nil => cases b <;> cases c <;> simp_all [Value.sameKeys]
  | cons u rest ih =>
    cases b with
    | nil => simp [Value.sameKeys] at h
    | cons v others =>
      cases c with
      | nil => simp [Value.sameKeys] at h'
      | cons w more =>
        rw [Value.sameKeys, Bool.and_eq_true] at h h' ⊢
        refine ⟨trans (ha u List.mem_cons_self) (hb v List.mem_cons_self)
          (hc w List.mem_cons_self) h.1 h'.1, ?_⟩
        exact ih (fun x hx => ha x (List.mem_cons_of_mem _ hx))
          (fun x hx => hb x (List.mem_cons_of_mem _ hx))
          (fun x hx => hc x (List.mem_cons_of_mem _ hx)) h.2 h'.2

/-- Composite keys that are the same are the same as the same keys. -/
theorem sameKeys_congr {a b c : List Value} (ha : All K a) (hb : All K b) (hc : All K c)
    (h : Value.sameKeys a b = true) : Value.sameKeys a c = Value.sameKeys b c := by
  rw [Bool.eq_iff_iff]
  exact ⟨fun hac => sameKeys_trans hb ha hc (sameKeys_symm ha hb h) hac,
    fun hbc => sameKeys_trans ha hb hc h hbc⟩

/-- A composite key of an exact kind is the same key as itself. -/
theorem Exact.sameKeys_refl {K : Value → Prop} [Exact K] {a : List Value} (h : All K a) :
    Value.sameKeys a a = true := by
  induction a with
  | nil => rfl
  | cons v rest ih =>
    have hv : K v := h v List.mem_cons_self
    have hr : All K rest := fun w hw => h w (List.mem_cons_of_mem _ hw)
    rw [Value.sameKeys, refl hv, ih hr]
    rfl

end KeyKind

/-! ## All keys -/

namespace Value

/-- The value can be a key and is not null, which stands for the absence of one. -/
def IsKey (v : Value) : Prop := v.hashable = true ∧ v.isNull = false

/-- All values that can be keys are a kind of keys. -/
instance : KeyKind IsKey where
  hashable h := h.1
  not_null h := by cases h.2
  symm {v w} hv hw h := by
    obtain ⟨e, hve, hwe⟩ := (sameKey_iff hv.1 w).1 h
    exact (sameKey_iff hw.1 v).2 ⟨e, hwe, hve⟩
  trans {u v w} hu hv _ h h' := by
    obtain ⟨e, hue, hve⟩ := (sameKey_iff hu.1 v).1 h
    obtain ⟨e', hve', hwe⟩ := (sameKey_iff hv.1 w).1 h'
    rw [hve] at hve'
    cases hve'
    exact (sameKey_iff hu.1 w).2 ⟨e, hue, hwe⟩

/-- Keys of which being the same is asked among fewer values are a kind of keys. -/
theorem keyKind_of_isKey {K : Value → Prop} (h : ∀ v, K v → v.IsKey) : KeyKind K where
  hashable hv := (h _ hv).1
  not_null hn := KeyKind.not_null (h _ hn)
  symm hv hw hs := KeyKind.symm (h _ hv) (h _ hw) hs
  trans hu hv hw hs hs' := KeyKind.trans (h _ hu) (h _ hv) (h _ hw) hs hs'

/-! ## Plain keys -/

/-- The value is a text, an identifier or a whole number. -/
def IsPlain : Value → Prop
  | str _ | uuid _ | int _ => True
  | _ => False

/-- A text is the same key as itself only. -/
theorem sameKey_str_iff {s : String} {v : Value} : (str s).sameKey v = true ↔ v = str s := by
  rw [sameKey_iff rfl]
  refine ⟨?_, fun h => ⟨.text s, rfl, by rw [h]; rfl⟩⟩
  rintro ⟨e, hs, hv⟩
  cases hs
  exact of_essence? hv

/-- An identifier is the same key as itself only. -/
theorem sameKey_uuid_iff {u : Uuid} {v : Value} : (uuid u).sameKey v = true ↔ v = uuid u := by
  rw [sameKey_iff rfl]
  refine ⟨?_, fun h => ⟨.uuid u, rfl, by rw [h]; rfl⟩⟩
  rintro ⟨e, hs, hv⟩
  cases hs
  exact of_essence? hv

/-- Whole numbers are the same key if they are the same number. -/
theorem sameKey_int (i j : Int) : (int i).sameKey (int j) = true ↔ i = j := by
  rw [sameKey_iff rfl, essence?_of_number? rfl, essence?_of_number? rfl]
  simp [Number.value?, Number.extent?, Extent.value, Scaled.toRat, eq_comm]

/-- Plain values are the same key if they are the same value. -/
theorem sameKey_iff_of_isPlain {v w : Value} (hv : v.IsPlain) (hw : w.IsPlain) :
    v.sameKey w = true ↔ v = w := by
  cases v with
  | str s => rw [sameKey_str_iff, eq_comm]
  | uuid u => rw [sameKey_uuid_iff, eq_comm]
  | int i =>
    cases w with
    | int j => rw [sameKey_int, Value.int.injEq]
    | str t | uuid t =>
      refine ⟨fun h => ?_, fun h => by cases h⟩
      simp only [sameKey, equals] at h
      cases h
    | _ => exact hw.elim
  | _ => exact hv.elim

/-- Plain values are an exact kind of keys. -/
instance : KeyKind.Exact IsPlain where
  toKeyKind := keyKind_of_isKey fun v h => by
    cases v <;> first | exact ⟨rfl, rfl⟩ | exact h.elim
  ordered {v} h := by
    cases v <;> first | exact h.elim | simp [isUnordered, number?, Number.extent?]
  refl h := (sameKey_iff_of_isPlain h h).2 rfl

end Value

end RewardLedger
