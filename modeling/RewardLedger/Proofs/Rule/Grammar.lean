import RewardLedger.Proofs.Rule.Reading

/-!
# What is accepted as a condition

The grammar of conditions is the relation `WellFormed`: a group of either form has a list of operands
that are well-formed, of which there is one, and a leaf has a path and an operator that takes its value.
It has a parameter, the types that mark a leaf of the older form. The documents know one such type
(`MarksLeaf`). Strict reading asks only that the type names no connective, so it accepts what is
well-formed with any other type (`NamesNoConnective`), and all else it refuses (`reads_exactly`).
-/

namespace RewardLedger

namespace Operator

/-- The operator compares with values like this one. -/
def Takes (op : Operator) (value : Value) : Prop :=
  match op with
  | .among | .notAmong => ∃ items, value = .list items ∧ ∀ item ∈ items, item.isPrimitive = true
  | .present | .absent => True
  | _ => value.isPrimitive = true

/-- Nothing is wrong with the values that an operator compares with, and with no others. -/
theorem valueFault?_eq_none_iff {op : Operator} {value : Value} :
    op.valueFault? value = none ↔ op.Takes value := by
  have hlist : value.isPrimitiveList = true ↔
      ∃ items, value = .list items ∧ ∀ item ∈ items, item.isPrimitive = true := by
    cases value with
    | list items => simp [Value.isPrimitiveList]
    | _ => simp [Value.isPrimitiveList]
  cases op with
  | among | notAmong => simp [valueFault?, Takes, ← hlist]
  | present | absent => simp [valueFault?, Takes]
  | _ => simp [valueFault?, Takes]

end Operator

namespace Condition

/-! ## The grammar -/

/-- The parts of a leaf are as they should be. -/
structure LeafParts (path op value : Value) : Prop where
  /-- The path is a text that is not empty. -/
  path : ∃ s, path = .str s ∧ s ≠ ""
  /-- The operator is one of the operators, and it takes the value. -/
  op : ∃ known : Operator, op = .str known.symbol ∧ known.Takes value

/-- The value is a condition, if these types mark the leaves of the older form. -/
inductive WellFormed (MarksLeaf : Value → Prop) : Value → Prop where
  /-- A group in the older form, whose operands are its children. -/
  | olderGroup {fields : Fields} (hform : Older fields) {k : Connective}
      (htype : (fields.get "type").Spells k.symbol) {items : List Value}
      (hitems : fields.get "children" = .list items) (hne : items ≠ [])
      (h : ∀ v ∈ items, WellFormed MarksLeaf v) : WellFormed MarksLeaf (.object fields)
  /-- A leaf in the older form. -/
  | olderLeaf {fields : Fields} (hform : Older fields) (htype : MarksLeaf (fields.get "type"))
      (hparts : LeafParts (fields.get "field") (fields.get "operator") (fields.get "value")) :
      WellFormed MarksLeaf (.object fields)
  /-- A group in the present form. -/
  | group {fields : Fields} (hform : ¬ Older fields) (hgroup : Grouped fields) {k : Connective}
      (hconnective : fields.get "operator" = .str k.symbol) {items : List Value}
      (hitems : fields.get "operands" = .list items) (hne : items ≠ [])
      (h : ∀ v ∈ items, WellFormed MarksLeaf v) : WellFormed MarksLeaf (.object fields)
  /-- A leaf in the present form. -/
  | leaf {fields : Fields} (hform : ¬ Older fields) (hleaf : ¬ Grouped fields)
      (hparts : LeafParts (fields.get "field") (fields.get "op") (fields.get "value")) :
      WellFormed MarksLeaf (.object fields)

/-- The type marks a leaf of the older form, as the documents have it. -/
def MarksLeaf (kind : Value) : Prop := kind.Spells "CONDITION"

/-- The type can be written and names no connective. -/
def NamesNoConnective (kind : Value) : Prop :=
  kind.isWritable = true ∧ ∀ k : Connective, ¬ kind.Spells k.symbol

/-- The type that marks a leaf names no connective. -/
theorem MarksLeaf.namesNoConnective {kind : Value} (h : MarksLeaf kind) : NamesNoConnective kind := by
  obtain ⟨s, rfl, hs⟩ := h
  refine ⟨rfl, ?_⟩
  rintro k ⟨t, heq, ht⟩
  cases heq
  rw [hs] at ht
  cases k <;> exact absurd ht (by decide)

/-- The second value stands in the first one, through lists in the fields of objects. -/
inductive Part : Value → Value → Prop where
  /-- A value stands in itself. -/
  | self (v : Value) : Part v v
  /-- What stands in an item of a list stands in the object that has the list in one of its fields. -/
  | item {fields : Fields} {name : String} {items : List Value} (hitems : fields.get name = .list items)
      {v w : Value} (hv : v ∈ items) (h : Part v w) : Part (.object fields) w

/-- A condition is one for other types too, if these mark every leaf of the older form in it. -/
theorem WellFormed.of_parts {P Q : Value → Prop} {v : Value} (h : WellFormed P v)
    (hPQ : ∀ fields : Fields, Part v (.object fields) → Older fields → P (fields.get "type") →
      Q (fields.get "type")) : WellFormed Q v := by
  induction h with
  | olderGroup hform htype hitems hne _ ih =>
    exact .olderGroup hform htype hitems hne fun v hv => ih v hv fun fields hpart =>
      hPQ fields (.item hitems hv hpart)
  | olderLeaf hform htype hparts => exact .olderLeaf hform (hPQ _ (.self _) hform htype) hparts
  | group hform hgroup hconnective hitems hne _ ih =>
    exact .group hform hgroup hconnective hitems hne fun v hv => ih v hv fun fields hpart =>
      hPQ fields (.item hitems hv hpart)
  | leaf hform hleaf hparts => exact .leaf hform hleaf hparts

/-! ## Strict reading of the parts -/

/-- A path is read if it is a text that is not empty. -/
theorem readPath_strict_eq_ok_iff {path : Value} {s : String} :
    readPath .strict path = .ok s ↔ path = .str s ∧ s ≠ "" := by
  cases path with
  | str t =>
    rw [readPath]
    split
    · next h =>
      subst h
      constructor
      · intro hok
        cases hok
      · rintro ⟨heq, hne⟩
        cases heq
        exact absurd rfl hne
    · next h =>
      constructor
      · intro hok
        cases hok
        exact ⟨rfl, h⟩
      · rintro ⟨heq, -⟩
        cases heq
        rfl
  | _ =>
    constructor
    · intro hok
      cases hok
    · rintro ⟨heq, -⟩
      cases heq

/-- An operator is read if it is one of the operators. -/
theorem readOperator_strict_eq_ok_iff {op : Value} {found : LeafOperator} :
    readOperator .strict op = .ok found ↔
      ∃ known : Operator, op = .str known.symbol ∧ found = .known known := by
  unfold readOperator
  cases hop : Operator.ofValue? op with
  | some known =>
    rw [Operator.ofValue?_eq_some_iff] at hop
    subst hop
    constructor
    · intro h
      cases h
      exact ⟨known, rfl, rfl⟩
    · rintro ⟨other, heq, rfl⟩
      have hsame := congrArg Operator.ofValue? heq
      rw [Operator.ofValue?_eq_some_iff.2 rfl, Operator.ofValue?_eq_some_iff.2 rfl] at hsame
      cases hsame
      rfl
  | none =>
    constructor
    · exact fun h => (refuseName_strict_ne_ok h).elim
    · rintro ⟨known, rfl, -⟩
      rw [Operator.ofValue?_eq_some_iff.2 rfl] at hop
      cases hop

/-- The value of a leaf is accepted if the operator takes it. -/
theorem checkValue_strict_eq_ok_iff {op : Operator} {value : Value} :
    checkValue .strict (.known op) value = .ok () ↔ op.Takes value := by
  rw [← Operator.valueFault?_eq_none_iff, checkValue]
  cases op.valueFault? value with
  | none => exact iff_of_true rfl rfl
  | some fault => exact iff_of_false (by rintro ⟨⟩) (Option.some_ne_none fault)

/-- A leaf is read if its parts are as they should be. -/
theorem exists_readLeaf_iff {path op value : Value} :
    (∃ c, readLeaf .strict path op value = .ok c) ↔ LeafParts path op value := by
  unfold readLeaf
  constructor
  · rintro ⟨c, h⟩
    obtain ⟨s, hs, h⟩ := exists_of_bind_eq_ok h
    obtain ⟨found, hfound, h⟩ := exists_of_bind_eq_ok h
    obtain ⟨_, hchecked, -⟩ := exists_of_bind_eq_ok h
    obtain ⟨known, hop, rfl⟩ := readOperator_strict_eq_ok_iff.1 hfound
    exact ⟨⟨s, readPath_strict_eq_ok_iff.1 hs⟩, known, hop, checkValue_strict_eq_ok_iff.1 hchecked⟩
  · rintro ⟨⟨s, hpath⟩, known, hop, htakes⟩
    refine ⟨.leaf s (.known known) value, ?_⟩
    rw [readPath_strict_eq_ok_iff.2 hpath, readOperator_strict_eq_ok_iff.2 ⟨known, hop, rfl⟩]
    show (do checkValue .strict (.known known) value; pure _) = _
    rw [checkValue_strict_eq_ok_iff.2 htakes]
    rfl

/-- A group is read if its connective is one, and its operands are a list of what is read, of which
there is one. -/
theorem exists_readGroup_iff {connective operands : Value} :
    (∃ c, readGroup .strict connective (readItems .strict operands) = .ok c) ↔
      ∃ k : Connective, connective = .str k.symbol ∧ ∃ items, operands = .list items ∧ items ≠ [] ∧
        ∀ v ∈ items, ∃ c, read .strict v = .ok c := by
  constructor
  · rintro ⟨c, h⟩
    cases hk : Connective.ofValue? connective with
    | none =>
      rw [readGroup, hk] at h
      exact (refuseName_strict_ne_ok h).elim
    | some k =>
      have hconnective := Connective.ofValue?_eq_some_iff.1 hk
      refine ⟨k, hconnective, ?_⟩
      -- what is no list, or a list of nothing, is refused
      by_cases hlist : ∃ items, operands = .list items
      · obtain ⟨items, rfl⟩ := hlist
        have hne : items ≠ [] := by
          rintro rfl
          rw [readGroup, hk] at h
          cases h
        refine ⟨items, rfl, hne, exists_mapM_iff.1 ?_⟩
        rw [hconnective, readGroup_list _ _ hne] at h
        obtain ⟨conditions, hall, -⟩ := exists_of_bind_eq_ok h
        exact ⟨conditions, hall⟩
      · rw [readItems_eq_none fun items hitems => hlist ⟨items, hitems⟩, readGroup, hk] at h
        cases h
  · rintro ⟨k, rfl, items, rfl, hne, hall⟩
    obtain ⟨conditions, hconditions⟩ := exists_mapM_iff.2 hall
    refine ⟨.group k conditions, ?_⟩
    rw [readGroup_list _ _ hne, hconditions]
    rfl

/-! ## Strict reading -/

/-- What is read strictly is what is well-formed with any type that names no connective. -/
theorem exists_read_strict_iff (v : Value) :
    (∃ c, read .strict v = .ok c) ↔ WellFormed NamesNoConnective v := by
  induction v using node_induction with
  | hother v hv =>
    rw [read_of_ne_object _ hv]
    refine iff_of_false ?_ fun h => ?_
    · rintro ⟨c, hc⟩
      cases hc
    · cases h <;> exact hv _ rfl
  | hobject fields ih =>
    -- the forms of an object exclude each other, so each direction has one case for each form
    constructor
    · rintro ⟨c, h⟩
      have hmeant := meant_of fields
      generalize Shape.of fields = shape at hmeant
      cases hmeant with
      | @olderGroup hform k htype =>
        rw [read_olderGroup _ hform htype] at h
        split at h
        · obtain ⟨-, -, items, hitems, hne, hall⟩ := exists_readGroup_iff.1 ⟨c, h⟩
          exact .olderGroup hform htype hitems hne fun v hv => (ih _ items hitems v hv).1 (hall v hv)
        · rw [readGroup, Connective.ofValue?_eq_some_iff.2 rfl] at h
          cases h
      | olderLeaf hform htype =>
        rw [read_olderLeaf _ hform htype] at h
        split at h
        · next hwritable => exact .olderLeaf hform ⟨hwritable, htype⟩ (exists_readLeaf_iff.1 ⟨c, h⟩)
        · cases h
      | group hform hgroup =>
        rw [read_group _ hform hgroup] at h
        obtain ⟨k, hconnective, items, hitems, hne, hall⟩ := exists_readGroup_iff.1 ⟨c, h⟩
        exact .group hform hgroup hconnective hitems hne fun v hv =>
          (ih _ items hitems v hv).1 (hall v hv)
      | leaf hform hleaf hfield =>
        rw [read_leaf _ hform hleaf hfield] at h
        exact .leaf hform hleaf (exists_readLeaf_iff.1 ⟨c, h⟩)
      -- an object of no known form is refused
      | unrecognised hform hgroup hfield =>
        rw [read_unrecognised _ hform hgroup hfield] at h
        cases h
    · intro h
      cases h with
      | @olderGroup _ hform k htype items hitems hne hall =>
        have hread := fun v hv => (ih _ items hitems v hv).2 (hall v hv)
        -- the children are asked for their truth first, and a list with items is true
        have htruthy : (fields.get "children").truthy = true := by
          rw [hitems]
          simpa [Value.truthy] using hne
        rw [read_olderGroup _ hform htype, if_pos htruthy]
        exact exists_readGroup_iff.2 ⟨k, rfl, items, hitems, hne, hread⟩
      | olderLeaf hform htype hparts =>
        rw [read_olderLeaf _ hform htype.2, if_pos htype.1]
        exact exists_readLeaf_iff.2 hparts
      | @group _ hform hgroup k hconnective items hitems hne hall =>
        have hread := fun v hv => (ih _ items hitems v hv).2 (hall v hv)
        rw [read_group _ hform hgroup]
        exact exists_readGroup_iff.2 ⟨k, hconnective, items, hitems, hne, hread⟩
      | leaf hform hleaf hparts =>
        -- a part that is there as a text is there at all
        have hfield : fields.has "field" = true := by
          obtain ⟨s, hs, -⟩ := hparts.path
          rw [Fields.get] at hs
          rw [Fields.has]
          cases hfind : Fields.find? fields "field" with
          | none =>
            rw [hfind] at hs
            cases hs
          | some v => rfl
        rw [read_leaf _ hform hleaf hfield]
        exact exists_readLeaf_iff.2 hparts

/-- What strict reading accepts, and what it does with the rest. -/
structure ReadsExactly (v : Value) : Prop where
  /-- Read is what is well-formed with any type of a leaf that names no connective. -/
  accepted : (∃ c, read .strict v = .ok c) ↔ WellFormed NamesNoConnective v
  /-- All else is refused as a malformed rule, but for a number that cannot be shown in the refusal. -/
  refused : ¬ WellFormed NamesNoConnective v →
    (∃ fault : RuleFault, read .strict v = .error fault.failure) ∨
      (v.isWritable = false ∧ read .strict v = .error .numberTooLong)
  /-- So what the documents accept is read. -/
  documented : WellFormed MarksLeaf v → ∃ c, read .strict v = .ok c
  /-- What is read beyond it has a leaf of the older form with another type. -/
  marked : (∃ c, read .strict v = .ok c) →
    (∀ fields : Fields, Part v (.object fields) → Older fields → NamesNoConnective (fields.get "type") →
      MarksLeaf (fields.get "type")) →
    WellFormed MarksLeaf v

/-- Strict reading accepts the conditions, whatever the types of the leaves of the older form, and
refuses all other values. -/
theorem reads_exactly (v : Value) : ReadsExactly v where
  accepted := exists_read_strict_iff v
  refused hv := by
    cases hread : read .strict v with
    | ok c => exact (hv ((exists_read_strict_iff v).1 ⟨c, hread⟩)).elim
    | error e =>
      obtain ⟨-, fault, rfl⟩ | ⟨hlong, rfl⟩ := failsOnly_read .strict v e hread
      · exact .inl ⟨fault, rfl⟩
      · exact .inr ⟨hlong, rfl⟩
  documented h := (exists_read_strict_iff v).2 (h.of_parts fun _ _ _ => MarksLeaf.namesNoConnective)
  marked hread hparts := ((exists_read_strict_iff v).1 hread).of_parts hparts

/-- A leaf of the older form with a type that marks none. -/
def unmarkedLeaf : Value :=
  .object [("type", .str "XOR"), ("field", .str "x"), ("operator", .str "="), ("value", .int 1)]

/-- A leaf is read although its type does not mark it, and so it is no condition. -/
theorem read_of_unmarkedLeaf :
    read .strict unmarkedLeaf = .ok (.leaf "x" (.known .equal) (.int 1)) ∧
      ¬ WellFormed MarksLeaf unmarkedLeaf := by
  refine ⟨rfl, fun h => ?_⟩
  have hunmarked : ∀ word, word ≠ "XOR" → ¬ (Value.str "XOR").Spells word := by
    rintro word hne ⟨s, heq, rfl⟩
    cases heq
    exact hne (by decide)
  cases h with
  | @olderGroup _ _ k htype => cases k <;> exact hunmarked _ (by decide) htype
  | olderLeaf _ htype => exact hunmarked _ (by decide) htype
  | group hform | leaf hform => exact hform (by simp [Older, Fields.has, Fields.find?])

end Condition

end RewardLedger
