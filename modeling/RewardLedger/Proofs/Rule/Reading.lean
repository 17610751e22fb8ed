import RewardLedger.Proofs.Fault
import RewardLedger.Proofs.Rule.Spelling
import RewardLedger.Proofs.Rule.Written

/-!
# What reading does with an object

An object is read by what it is meant to be, which its fields decide before anything in them is looked
at: `Meant` lists the five cases with their conditions, of which one holds of every object
(`meant_of`). Each case has an equation that says what the object is read as in terms of how the items
of its list of operands are read. `node_induction` is the induction that goes with them: from the items
of the lists in the fields of an object to the object. With it, reading fails only by refusing a fault,
if it is strict, or because a number in the value is too long to be written (`failsOnly_read`).
-/

namespace RewardLedger

/-! ## Symbols -/

/-- A value gives the connective whose symbol it is. -/
theorem Connective.ofValue?_eq_some_iff {v : Value} {k : Connective} :
    ofValue? v = some k ↔ v = .str k.symbol := by
  constructor
  · intro h
    cases v with
    | str s => rw [symbol_of_ofSymbol? h]
    | _ => cases h
  · rintro rfl
    exact ofSymbol?_symbol k

/-- A value gives the operator whose symbol it is. -/
theorem Operator.ofValue?_eq_some_iff {v : Value} {op : Operator} :
    ofValue? v = some op ↔ v = .str op.symbol := by
  constructor
  · intro h
    cases v with
    | str s => rw [symbol_of_ofSymbol? h]
    | _ => cases h
  · rintro rfl
    exact ofSymbol?_symbol op

/-! ## Values that can be written -/

namespace Value

/-- What stands in an object that can be written can be written. -/
theorem isWritable_get {fields : Fields} (h : (object fields).isWritable = true) (name : String) :
    (fields.get name).isWritable = true := by
  rw [isWritable] at h
  induction fields with
  | nil => rfl
  | cons f rest ih =>
    obtain ⟨k, v⟩ := f
    rw [fieldsWritable, Bool.and_eq_true] at h
    rw [Fields.get, Fields.find?]
    split
    · exact h.1
    · exact ih h.2

/-- What stands in a list that can be written can be written. -/
theorem isWritable_of_mem {items : List Value} (h : (list items).isWritable = true) {v : Value}
    (hv : v ∈ items) : v.isWritable = true := by
  rw [isWritable] at h
  induction items with
  | nil => cases hv
  | cons first rest ih =>
    rw [itemsWritable, Bool.and_eq_true] at h
    rcases List.mem_cons.1 hv with rfl | hv
    · exact h.1
    · exact ih h.2 hv

end Value

/-- The failure refuses a fault of a rule, as strict reading does, or a number in the value that cannot
be written. -/
def RuleFault.Refuses (strictness : Strictness) (v : Value) (e : Failure) : Prop :=
  (strictness = .strict ∧ ∃ fault : RuleFault, e = fault.failure) ∨
    (v.isWritable = false ∧ e = .numberTooLong)

/-- What is refused in a part is refused in the whole. -/
theorem RuleFault.Refuses.within {strictness : Strictness} {v part : Value} {e : Failure}
    (h : Refuses strictness part e) (hpart : v.isWritable = true → part.isWritable = true) :
    Refuses strictness v e := by
  refine h.imp_right fun ⟨hlong, he⟩ => ⟨Bool.eq_false_iff.2 fun hv => ?_, he⟩
  rw [hpart hv] at hlong
  cases hlong

namespace Condition

/-! ## What an object is meant to be -/

/-- The object is in the older form. -/
def Older (fields : Fields) : Prop :=
  fields.has "type" = true ∧ fields.has "operands" = false ∧ fields.has "op" = false

/-- The object has the fields of a group in the present form. -/
def Grouped (fields : Fields) : Prop :=
  fields.has "operands" = true ∨ fields.has "operator" = true ∧ fields.has "field" = false

/-- What an object is meant to be, by its fields. -/
inductive Meant (fields : Fields) : Shape → Prop where
  /-- In the older form, a type that names a connective makes a group. -/
  | olderGroup (hform : Older fields) {k : Connective} (htype : (fields.get "type").Spells k.symbol) :
      Meant fields (.group (.str k.symbol) "children")
  /-- In the older form, any other type makes a leaf. -/
  | olderLeaf (hform : Older fields) (htype : ∀ k : Connective, ¬ (fields.get "type").Spells k.symbol) :
      Meant fields (.leaf (fields.get "field") (fields.get "operator") (fields.get "value"))
  /-- A group in the present form. -/
  | group (hform : ¬ Older fields) (hgroup : Grouped fields) :
      Meant fields (.group (fields.get "operator") "operands")
  /-- A leaf in the present form. -/
  | leaf (hform : ¬ Older fields) (hleaf : ¬ Grouped fields) (hfield : fields.has "field" = true) :
      Meant fields (.leaf (fields.get "field") (fields.get "op") (fields.get "value"))
  /-- Something else. -/
  | unrecognised (hform : ¬ Older fields) (hgroup : ¬ Grouped fields)
      (hfield : fields.has "field" = false) : Meant fields .unrecognised

theorem isOlder_eq_true_iff {fields : Fields} : Shape.isOlder fields = true ↔ Older fields := by
  simp [Shape.isOlder, Older, and_assoc]

theorem isGroup_eq_true_iff {fields : Fields} : Shape.isGroup fields = true ↔ Grouped fields := by
  simp [Shape.isGroup, Grouped]

/-- Every object is meant to be what its fields say. -/
theorem meant_of (fields : Fields) : Meant fields (Shape.of fields) := by
  unfold Shape.of
  split
  · next h =>
    have hform := isOlder_eq_true_iff.1 h
    cases hkind : Shape.olderConnective? (fields.get "type") with
    | some k => exact .olderGroup hform (Shape.olderConnective?_eq_some_iff.1 hkind)
    | none =>
      refine .olderLeaf hform fun k hk => ?_
      rw [Shape.olderConnective?_eq_some_iff.2 hk] at hkind
      cases hkind
  · next h =>
    have hform : ¬ Older fields := fun hold => h (isOlder_eq_true_iff.2 hold)
    split
    · next hgroup => exact .group hform (isGroup_eq_true_iff.1 hgroup)
    · next hgroup =>
      have hgroup : ¬ Grouped fields := fun hg => hgroup (isGroup_eq_true_iff.2 hg)
      split
      · next hfield => exact .leaf hform hgroup hfield
      · next hfield => exact .unrecognised hform hgroup (Bool.eq_false_iff.2 hfield)

/-- An object is meant to be one thing only. -/
theorem Meant.eq_of {fields : Fields} {shape : Shape} (h : Meant fields shape) :
    Shape.of fields = shape := by
  have hmeant := meant_of fields
  generalize Shape.of fields = found at hmeant
  -- what an object was found to be excludes all else that it could be meant to be
  cases h with
  | olderGroup hform htype =>
    cases hmeant with
    | olderGroup _ htype' => rw [htype'.unique htype]
    | olderLeaf _ hnone => exact (hnone _ htype).elim
    | group hnot _ | leaf hnot _ _ | unrecognised hnot _ _ => exact (hnot hform).elim
  | olderLeaf hform hnone =>
    cases hmeant with
    | olderGroup _ htype => exact (hnone _ htype).elim
    | olderLeaf => rfl
    | group hnot _ | leaf hnot _ _ | unrecognised hnot _ _ => exact (hnot hform).elim
  | group hnot hgroup =>
    cases hmeant with
    | olderGroup hform _ | olderLeaf hform _ => exact (hnot hform).elim
    | group => rfl
    | leaf _ hleaf _ | unrecognised _ hleaf _ => exact (hleaf hgroup).elim
  | leaf hnot hleaf hfield =>
    cases hmeant with
    | olderGroup hform _ | olderLeaf hform _ => exact (hnot hform).elim
    | group _ hgroup => exact (hleaf hgroup).elim
    | leaf => rfl
    | unrecognised _ _ hnone =>
      rw [hnone] at hfield
      cases hfield
  | unrecognised hnot hgroup hnone =>
    cases hmeant with
    | olderGroup hform _ | olderLeaf hform _ => exact (hnot hform).elim
    | group _ hyes => exact (hgroup hyes).elim
    | leaf _ _ hfield =>
      rw [hnone] at hfield
      cases hfield
    | unrecognised => rfl

/-! ## Operands -/

variable {strictness : Strictness}

/-- The items of a list are read one by one. -/
theorem readItems_list (strictness : Strictness) (items : List Value) :
    readItems strictness (.list items) = some (items.map (read strictness)) := by
  rw [readItems, readAll_eq_map]

/-- A value that is no list has no items. -/
theorem readItems_eq_none {v : Value} (h : ∀ items, v ≠ .list items) :
    readItems strictness v = none := by
  cases v with
  | list items => exact (h items rfl).elim
  | _ =>
    unfold readItems
    rfl

/-- Read is the field of the name. -/
theorem find?_readFields (strictness : Strictness) (fields : Fields) (name : String) :
    ((readFields strictness fields).find? fun r => r.1 = name).map Prod.snd =
      (Fields.find? fields name).map (readItems strictness) := by
  induction fields with
  | nil => rw [readFields]; rfl
  | cons f rest ih =>
    obtain ⟨k, v⟩ := f
    rw [readFields, Fields.find?]
    by_cases hk : k = name
    · simp [hk]
    · rw [List.find?_cons_of_neg (by simpa using hk), if_neg hk]
      exact ih

/-- The operands of a group are the items of the named field. -/
theorem operandsIn_readFields (strictness : Strictness) (fields : Fields) (name : String) :
    operandsIn fields (readFields strictness fields) name =
      if name = "children" ∧ (fields.get name).truthy = false then some []
      else readItems strictness (fields.get name) := by
  have hfind : ((Fields.find? fields name).map (readItems strictness)).getD none =
      readItems strictness (fields.get name) := by
    rw [Fields.get]
    cases Fields.find? fields name with
    | none => exact (readItems_eq_none (v := .null) (by rintro items ⟨⟩)).symm
    | some v => rfl
  rw [operandsIn, find?_readFields, hfind]
  simp

/-- A group of one connective and of operands of which there is one is read by reading them all. -/
theorem readGroup_list (strictness : Strictness) (k : Connective) {items : List Value}
    (hne : items ≠ []) :
    readGroup strictness (.str k.symbol) (readItems strictness (.list items)) =
      (do return group k (← items.mapM (read strictness))) := by
  rw [readItems_list, readGroup, Connective.ofValue?, Connective.ofSymbol?_symbol]
  cases items with
  | nil => exact absurd rfl hne
  | cons first rest =>
    show (do return group k (← ((first :: rest).map (read strictness)).mapM id)) = _
    rw [List.mapM_map]
    rfl

/-! ## Reading an object -/

variable {fields : Fields}

/-- An object in the present form has no type that would have to be written. -/
theorem isUnwritable_of_not_older (h : ¬ Older fields) : Shape.isUnwritable fields = false := by
  rw [Shape.isUnwritable, Bool.eq_false_iff.2 fun hold => h (isOlder_eq_true_iff.1 hold)]
  rfl

/-- A group in the older form is read from its children; whatever is empty stands for an empty list of
them. -/
theorem read_olderGroup (strictness : Strictness) (hform : Older fields) {k : Connective}
    (htype : (fields.get "type").Spells k.symbol) :
    read strictness (.object fields) = readGroup strictness (.str k.symbol)
      (if (fields.get "children").truthy then readItems strictness (fields.get "children")
        else some []) := by
  have hwritable : Shape.isUnwritable fields = false := by
    obtain ⟨s, hs, -⟩ := htype
    rw [Shape.isUnwritable, hs]
    simp [Value.isWritable]
  rw [read, hwritable, if_neg Bool.false_ne_true, (Meant.olderGroup hform htype).eq_of]
  dsimp only
  rw [operandsIn_readFields]
  by_cases h : (fields.get "children").truthy
  · rw [if_pos h, if_neg]
    simp [h]
  · rw [if_neg h, if_pos ⟨rfl, Bool.eq_false_iff.2 h⟩]

/-- A leaf in the older form is read from its parts, if its type can be written. -/
theorem read_olderLeaf (strictness : Strictness) (hform : Older fields)
    (htype : ∀ k : Connective, ¬ (fields.get "type").Spells k.symbol) :
    read strictness (.object fields) =
      if (fields.get "type").isWritable then
        readLeaf strictness (fields.get "field") (fields.get "operator") (fields.get "value")
      else .error .numberTooLong := by
  have hunwritable : Shape.isUnwritable fields = !(fields.get "type").isWritable := by
    rw [Shape.isUnwritable, isOlder_eq_true_iff.2 hform, Bool.true_and]
  rw [read, hunwritable, (Meant.olderLeaf hform htype).eq_of]
  cases (fields.get "type").isWritable <;> rfl

/-- A group in the present form is read from its operands. -/
theorem read_group (strictness : Strictness) (hform : ¬ Older fields) (hgroup : Grouped fields) :
    read strictness (.object fields) =
      readGroup strictness (fields.get "operator") (readItems strictness (fields.get "operands")) := by
  rw [read, isUnwritable_of_not_older hform, if_neg Bool.false_ne_true,
    (Meant.group hform hgroup).eq_of]
  dsimp only
  rw [operandsIn_readFields, if_neg]
  rintro ⟨hname, -⟩
  exact absurd hname (by decide)

/-- A leaf in the present form is read from its parts. -/
theorem read_leaf (strictness : Strictness) (hform : ¬ Older fields) (hleaf : ¬ Grouped fields)
    (hfield : fields.has "field" = true) :
    read strictness (.object fields) =
      readLeaf strictness (fields.get "field") (fields.get "op") (fields.get "value") := by
  rw [read, isUnwritable_of_not_older hform, if_neg Bool.false_ne_true,
    (Meant.leaf hform hleaf hfield).eq_of]

/-- An object that is meant to be nothing is refused. -/
theorem read_unrecognised (strictness : Strictness) (hform : ¬ Older fields) (hgroup : ¬ Grouped fields)
    (hfield : fields.has "field" = false) :
    read strictness (.object fields) =
      refuse strictness (.conditionShape (Text.inOrder (Fields.names fields))) (never "") := by
  rw [read, isUnwritable_of_not_older hform, if_neg Bool.false_ne_true,
    (Meant.unrecognised hform hgroup hfield).eq_of]

/-- A value that is no object is refused. -/
theorem read_of_ne_object (strictness : Strictness) {v : Value} (h : ∀ fields, v ≠ .object fields) :
    read strictness v = refuse strictness (.conditionKind v.kindName) (never "") := by
  cases v with
  | object fields => exact (h fields rfl).elim
  | _ =>
    unfold read
    rfl

/-! ## Induction -/

/-- The items of a list in a field of an object are smaller than the object. -/
theorem sizeOf_item_lt {name : String} {items : List Value} (h : fields.get name = .list items)
    {v : Value} (hv : v ∈ items) : sizeOf v < sizeOf (Value.object fields) := by
  have hfield : sizeOf (Value.list items) < sizeOf fields := by
    induction fields with
    | nil => cases h
    | cons f rest ih =>
      obtain ⟨k, w⟩ := f
      rw [Fields.get, Fields.find?] at h
      split at h
      · rw [← h]
        simp
        omega
      · have := ih h
        simp at this ⊢
        omega
  have hitem := List.sizeOf_lt_of_mem hv
  simp at hfield ⊢
  omega

/-- What holds of every value that is no object, and of an object if it holds of the items of the lists
in its fields, holds of every value. -/
theorem node_induction {P : Value → Prop} (hother : ∀ v : Value, (∀ fields, v ≠ .object fields) → P v)
    (hobject : ∀ fields : Fields,
      (∀ name items, fields.get name = .list items → ∀ v ∈ items, P v) → P (.object fields))
    (v : Value) : P v := by
  cases v with
  | object fields =>
    exact hobject fields fun _ _ hitems w hw => node_induction hother hobject w
  | _ => exact hother _ (by rintro fields ⟨⟩)
termination_by sizeOf v
decreasing_by exact sizeOf_item_lt hitems hw

/-! ## What reading refuses -/

section

open RuleFault (Refuses)

theorem failsOnly_refuse {α : Type} (strictness : Strictness) (fault : RuleFault) (otherwise : α)
    {v : Value} : FailsOnly (Refuses strictness v) (refuse strictness fault otherwise) := by
  cases strictness with
  | strict => exact .error (.inl ⟨rfl, fault, rfl⟩)
  | lenient => exact .ok _

theorem failsOnly_refuseName {α : Type} (strictness : Strictness) (fault : RuleFault) (v : Value)
    (otherwise : String → α) :
    FailsOnly (Refuses strictness v) (refuseName strictness fault v otherwise) := by
  unfold refuseName
  split
  · exact failsOnly_refuse _ _ _
  · next hlong => exact .error (.inr ⟨Bool.eq_false_iff.2 hlong, rfl⟩)

theorem failsOnly_readLeaf (strictness : Strictness) (path op value : Value) :
    FailsOnly (Refuses strictness op) (readLeaf strictness path op value) := by
  have hpath : FailsOnly (Refuses strictness op) (readPath strictness path) := by
    unfold readPath
    split
    · split
      · exact failsOnly_refuse _ _ _
      · exact .ok _
    · exact failsOnly_refuse _ _ _
  have hop : FailsOnly (Refuses strictness op) (readOperator strictness op) := by
    unfold readOperator
    split
    · exact .ok _
    · exact failsOnly_refuseName _ _ _ _
  have hvalue : ∀ found, FailsOnly (Refuses strictness op) (checkValue strictness found value) :=
    fun found => by
      unfold checkValue
      split
      · split
        · exact failsOnly_refuse _ _ _
        · exact .ok _
      · exact .ok _
  exact hpath.bind fun _ => hop.bind fun found => (hvalue found).bind fun _ => .ok _

/-- A group is refused for its connective, for having no operands, or as one of its operands is. -/
theorem failsOnly_readGroup {P : Failure → Prop} (strictness : Strictness) (connective : Value)
    {operands : Option (List (Except Failure Condition))}
    (hrefuses : ∀ e, Refuses strictness connective e → P e)
    (h : ∀ readings, operands = some readings → ∀ r ∈ readings, FailsOnly P r) :
    FailsOnly P (readGroup strictness connective operands) := by
  have hrefuse : ∀ {α : Type} (fault : RuleFault) (otherwise : α),
      FailsOnly P (refuse strictness fault otherwise) := fun _ _ =>
    (failsOnly_refuse _ _ _).mono hrefuses
  unfold readGroup
  split
  · exact (failsOnly_refuseName _ _ _ _).mono hrefuses
  · rename_i kind _
    have hrest : ∀ readings : List (Except Failure Condition),
        (∀ r ∈ readings, FailsOnly P r) → FailsOnly P (do
          if readings.isEmpty then refuse strictness (.noOperands kind.symbol) () else pure ()
          return group kind (← readings.mapM id)) := fun readings hall => by
      have hgroup : FailsOnly P (do return group kind (← readings.mapM id)) :=
        (FailsOnly.mapM hall).bind fun _ => .ok _
      dsimp only
      split
      · exact (hrefuse _ _).bind fun _ => hgroup
      · exact hgroup
    cases operands with
    | some readings => exact hrest readings (h readings rfl)
    | none =>
      cases strictness with
      | strict => exact .error (hrefuses _ (.inl ⟨rfl, _, rfl⟩))
      | lenient => exact hrest [] fun r hr => absurd hr List.not_mem_nil

/-- Reading a condition fails only by refusing a fault, if it is strict, or a number that cannot be
written. -/
theorem failsOnly_read (strictness : Strictness) (v : Value) :
    FailsOnly (Refuses strictness v) (read strictness v) := by
  induction v using node_induction with
  | hother v hv =>
    rw [read_of_ne_object strictness hv]
    exact failsOnly_refuse _ _ _
  | hobject fields ih =>
  have hfield : ∀ name e, Refuses strictness (fields.get name) e →
      Refuses strictness (.object fields) e := fun name _ he =>
    he.within fun hv => Value.isWritable_get hv name
  -- what is refused in an operand is refused in the object
  have hoperands : ∀ name readings, readItems strictness (fields.get name) = some readings →
      ∀ r ∈ readings, FailsOnly (Refuses strictness (.object fields)) r := by
    intro name readings hreadings r hr
    by_cases hlist : ∃ items, fields.get name = .list items
    · obtain ⟨items, hitems⟩ := hlist
      rw [hitems, readItems_list] at hreadings
      cases hreadings
      obtain ⟨w, hw, rfl⟩ := List.mem_map.1 hr
      refine (ih name items hitems w hw).mono fun _ he => he.within fun hv => ?_
      have hitemsWritable := Value.isWritable_get hv name
      rw [hitems] at hitemsWritable
      exact Value.isWritable_of_mem hitemsWritable hw
    · rw [readItems_eq_none fun items hitems => hlist ⟨items, hitems⟩] at hreadings
      cases hreadings
  have hmeant := meant_of fields
  generalize Shape.of fields = shape at hmeant
  cases hmeant with
  | @olderGroup hform k htype =>
    rw [read_olderGroup strictness hform htype]
    refine failsOnly_readGroup strictness _ (fun _ he => he.within fun _ => rfl) ?_
    intro readings hreadings
    split at hreadings
    · exact hoperands _ readings hreadings
    · cases hreadings
      exact fun r hr => absurd hr List.not_mem_nil
  | olderLeaf hform htype =>
    rw [read_olderLeaf strictness hform htype]
    split
    · exact (failsOnly_readLeaf strictness _ _ _).mono (hfield "operator")
    · next hlong => exact .error (hfield "type" _ (.inr ⟨Bool.eq_false_iff.2 hlong, rfl⟩))
  | group hform hgroup =>
    rw [read_group strictness hform hgroup]
    exact failsOnly_readGroup strictness _ (hfield "operator") (hoperands "operands")
  | leaf hform hleaf hpath =>
    rw [read_leaf strictness hform hleaf hpath]
    exact (failsOnly_readLeaf strictness _ _ _).mono (hfield "op")
  | unrecognised hform hgroup hpath =>
    rw [read_unrecognised strictness hform hgroup hpath]
    exact failsOnly_refuse _ _ _

end

end Condition

end RewardLedger
