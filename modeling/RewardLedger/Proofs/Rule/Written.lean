import RewardLedger.Proofs.Sorting
import RewardLedger.Proofs.Store.Rollback
import RewardLedger.Rule.Action

/-!
# Conditions and actions are read back

A condition that was read strictly is proper: its paths are not empty, its operators are known and
fit the values that they compare with, and its groups have operands. The written form of a proper
condition, which is what the store keeps, is read as that condition again, strictly or leniently, and
the same holds of the actions of a rule. So a rule that was made can always be read, and the lenient
reading of stored rules turns none of its conditions into one that never holds.
-/

namespace RewardLedger

namespace Condition

/-! ## Proper conditions -/

/-- The condition is one that is accepted when a rule is made. -/
inductive Proper : Condition → Prop where
  /-- A leaf with a path, whose operator is known and fits its value. -/
  | leaf {path : String} {op : Operator} {value : Value} (hpath : path ≠ "")
    (hvalue : op.valueFault? value = none) : Proper (.leaf path (.known op) value)
  /-- A group with operands, all of which are proper. -/
  | group {connective : Connective} {operands : List Condition} (hne : operands ≠ [])
    (h : ∀ c ∈ operands, Proper c) : Proper (.group connective operands)

/-- What is refused strictly, be it written down or not, is not read. -/
theorem refuseName_strict_ne_ok {α : Type} {fault : RuleFault} {v : Value} {otherwise : String → α}
    {a : α} : refuseName .strict fault v otherwise ≠ .ok a := by
  unfold refuseName
  split
  · exact nofun
  · exact nofun

/-- A leaf that was read strictly is proper. -/
theorem proper_of_readLeaf {path op value : Value} {c : Condition}
    (h : readLeaf .strict path op value = .ok c) : c.Proper := by
  unfold readLeaf at h
  obtain ⟨s, hs, h⟩ := exists_of_bind_eq_ok h
  obtain ⟨found, hfound, h⟩ := exists_of_bind_eq_ok h
  obtain ⟨_, hchecked, h⟩ := exists_of_bind_eq_ok h
  cases h
  have hpath : s ≠ "" := by
    unfold readPath at hs
    split at hs
    · split at hs
      · cases hs
      · rename_i hne
        cases hs
        exact hne
    · cases hs
  unfold readOperator at hfound
  split at hfound
  · cases hfound
    refine .leaf hpath ?_
    unfold checkValue at hchecked
    dsimp only at hchecked
    split at hchecked
    · cases hchecked
    · assumption
  · exact (refuseName_strict_ne_ok hfound).elim

/-- A group that was read strictly is proper if its operands are. -/
theorem proper_of_readGroup {connective : Value} {operands : Option (List (Except Failure Condition))}
    (hproper : ∀ readings, operands = some readings → ∀ c, .ok c ∈ readings → c.Proper)
    {c : Condition} (h : readGroup .strict connective operands = .ok c) : c.Proper := by
  unfold readGroup at h
  split at h
  · exact (refuseName_strict_ne_ok h).elim
  · rename_i kind _
    cases operands with
    | none => cases h
    | some readings =>
      cases readings with
      | nil => cases h
      | cons first rest =>
        have h : (do return group kind (← (first :: rest).mapM id)) = Except.ok c := h
        obtain ⟨conditions, hall, h⟩ := exists_of_bind_eq_ok h
        cases h
        -- each operand is what one of the readings gave
        have hread := forall₂_of_mapM_eq_ok hall
        refine .group ?_ fun c hc => ?_
        · rintro rfl
          cases hread
        · obtain ⟨reading, hreading, rfl⟩ := exists_mem_of_forall₂ hread.flip hc
          exact hproper _ rfl c hreading

/-- The operands of a group were read from a field of the object, or there are none. -/
theorem of_operandsIn {fields : Fields}
    {readings : List (String × Option (List (Except Failure Condition)))} {name : String}
    {operands : List (Except Failure Condition)}
    (h : operandsIn fields readings name = some operands) :
    operands = [] ∨ ∃ r ∈ readings, r.2 = some operands := by
  unfold operandsIn at h
  split at h
  · cases h
    exact .inl rfl
  · cases hfind : readings.find? fun r => r.1 = name with
    | none =>
      rw [hfind] at h
      cases h
    | some r =>
      rw [hfind] at h
      exact .inr ⟨r, List.mem_of_find?_eq_some hfind, h⟩

section

-- the linter does not count the recursive calls, through which the hypotheses are used
set_option linter.unusedSectionVars false

variable {strictness : Strictness} {P : Except Failure Condition → Prop}
  (hleaf : ∀ path op value, P (readLeaf strictness path op value))
  (hgroup : ∀ connective operands,
    (∀ readings, operands = some readings → ∀ r ∈ readings, P r) →
      P (readGroup strictness connective operands))
  (hrefuse : ∀ fault c, P (refuse strictness fault c))
  (hunwritable : P (.error .numberTooLong))

include hleaf hgroup hrefuse hunwritable

-- one statement for each of the functions that read, by recursion on the value that they read
mutual

/-- What holds of the reading of a leaf, of a group if it holds of the readings of its operands, of
what is refused, and of a type that cannot be written, holds of every reading. -/
theorem read_induction : ∀ v : Value, P (read strictness v)
  | .object fields => by
    unfold read
    dsimp only
    split
    · exact hunwritable
    split
    · refine hgroup _ _ fun operands hoperands r hr => ?_
      rcases of_operandsIn hoperands with rfl | ⟨reading, hreading, hsome⟩
      · cases hr
      · exact readFields_induction fields reading hreading operands hsome r hr
    · exact hleaf _ _ _
    · exact hrefuse _ _
  | .null | .bool _ | .int _ | .float _ | .decimal _ | .str _ | .uuid _ | .instant _ | .list _
  | .tuple _ | .map _ | .opaqueThing => by
    unfold read
    exact hrefuse _ _

/-- It holds of the readings of the fields of an object. -/
theorem readFields_induction : ∀ (fields : List (String × Value)),
    ∀ reading ∈ readFields strictness fields, ∀ readings, reading.2 = some readings →
      ∀ r ∈ readings, P r
  | [], reading, hmem, _, _, _, _ => by
    unfold readFields at hmem
    cases hmem
  | (name, v) :: rest, reading, hmem, readings, hsome, r, hr => by
    unfold readFields at hmem
    rcases List.mem_cons.1 hmem with rfl | hmem
    · exact readItems_induction v readings hsome r hr
    · exact readFields_induction rest reading hmem readings hsome r hr

/-- It holds of the readings of the items of a list. -/
theorem readItems_induction : ∀ (v : Value) (readings : List (Except Failure Condition)),
    readItems strictness v = some readings → ∀ r ∈ readings, P r
  | .list items, readings, h, r, hr => by
    unfold readItems at h
    cases h
    exact readAll_induction items r hr
  | .null, _, h, _, _ | .bool _, _, h, _, _ | .int _, _, h, _, _ | .float _, _, h, _, _
  | .decimal _, _, h, _, _ | .str _, _, h, _, _ | .uuid _, _, h, _, _ | .instant _, _, h, _, _
  | .tuple _, _, h, _, _ | .object _, _, h, _, _ | .map _, _, h, _, _
  | .opaqueThing, _, h, _, _ => by
    unfold readItems at h
    cases h

/-- It holds of the readings of several values. -/
theorem readAll_induction : ∀ (items : List Value), ∀ r ∈ readAll strictness items, P r
  | [], r, hr => by
    unfold readAll at hr
    cases hr
  | v :: rest, r, hr => by
    unfold readAll at hr
    rcases List.mem_cons.1 hr with rfl | hr
    · exact read_induction v
    · exact readAll_induction rest r hr

end

end

/-- A condition that was read strictly is proper. -/
theorem Proper.of_read {v : Value} {c : Condition} (h : read .strict v = .ok c) : c.Proper := by
  refine read_induction (P := fun r => ∀ c, r = .ok c → c.Proper)
    (fun _ _ _ _ hread => proper_of_readLeaf hread) (fun _ _ hoperands _ hread => ?_)
    (fun _ _ _ hread => nomatch hread) (fun _ hread => nomatch hread) v c h
  exact proper_of_readGroup (fun readings hreadings c hc => hoperands readings hreadings _ hc c rfl)
    hread

/-! ## Written forms -/

/-- The written form of a leaf is meant to be that leaf. -/
theorem shape_leaf (path op value : Value) :
    Shape.of [("field", path), ("op", op), ("value", value)] = .leaf path op value := by
  simp [Shape.of, Shape.isOlder, Shape.isGroup, Fields.has, Fields.get, Fields.find?]

/-- The written form of a group is meant to be that group. -/
theorem shape_group (connective operands : Value) :
    Shape.of [("operator", connective), ("operands", operands)] = .group connective "operands" := by
  simp [Shape.of, Shape.isOlder, Shape.isGroup, Fields.has, Fields.get, Fields.find?]

/-- The written form of a leaf is in the present form. -/
theorem isUnwritable_leaf (path op value : Value) :
    Shape.isUnwritable [("field", path), ("op", op), ("value", value)] = false := by
  simp [Shape.isUnwritable, Shape.isOlder, Fields.has, Fields.find?]

/-- The written form of a group is in the present form. -/
theorem isUnwritable_group (connective operands : Value) :
    Shape.isUnwritable [("operator", connective), ("operands", operands)] = false := by
  simp [Shape.isUnwritable, Shape.isOlder, Fields.has, Fields.find?]

/-- A group of operands that were all read is read as that group. -/
theorem readGroup_of_ne_nil (strictness : Strictness) (connective : Connective)
    {operands : List Condition} (hne : operands ≠ []) :
    readGroup strictness (.str connective.symbol) (some (operands.map .ok)) =
      .ok (.group connective operands) := by
  have hall : (operands.map Except.ok).mapM id = Except.ok (ε := Failure) operands :=
    mapM_eq_ok (List.forall₂_map_left_iff.2 (List.forall₂_same.2 fun _ _ => rfl))
  rw [readGroup, Connective.ofValue?, Connective.ofSymbol?_symbol]
  cases operands with
  | nil => exact absurd rfl hne
  | cons first rest =>
    show (do return group connective (← ((first :: rest).map Except.ok).mapM id)) = _
    rw [hall]
    rfl

/-- The written form of a proper condition is read as the condition. -/
theorem Proper.read_toValue {c : Condition} (h : c.Proper) (strictness : Strictness) :
    read strictness c.toValue = .ok c := by
  induction h with
  | @leaf path op value hpath hvalue =>
    have hop : readOperator strictness (.str op.symbol) = .ok (.known op) := by
      rw [readOperator, Operator.ofValue?, Operator.ofSymbol?_symbol]
    rw [toValue, read, shape_leaf, isUnwritable_leaf]
    dsimp only
    rw [if_neg Bool.false_ne_true, readLeaf, readPath, if_neg hpath, LeafOperator.symbol, hop]
    simp only [bind, Except.bind, checkValue, hvalue, pure, Except.pure]
  | @group connective operands hne _ ih =>
    have hreadings : readAll strictness (toValues operands) = operands.map .ok := by
      rw [readAll_eq_map, toValues_eq_map, List.map_map]
      exact List.map_congr_left ih
    rw [toValue, read, shape_group, isUnwritable_group,
      ← readGroup_of_ne_nil strictness connective hne]
    simp only [readFields, readItems, hreadings]
    rfl

/-! ## Paths -/

mutual

/-- The paths that the leaves of a condition name. -/
def paths : Condition → List String
  | leaf path _ _ => [path]
  | group _ operands => pathsOf operands

/-- The paths that the leaves of several conditions name. -/
def pathsOf : List Condition → List String
  | [] => []
  | c :: rest => c.paths ++ pathsOf rest

end

end Condition

/-! ## Actions -/

namespace Action

/-- The action is one that is accepted when a rule is made. -/
def Proper (a : Action) : Prop := a.type ∈ types

/-- An action that was read strictly is proper. -/
theorem Proper.of_read {v : Value} {a : Action} (h : read .strict v = .ok a) : a.Proper := by
  unfold read at h
  split at h
  · obtain ⟨params, -, h⟩ := exists_of_bind_eq_ok h
    obtain ⟨type, htype, h⟩ := exists_of_bind_eq_ok h
    cases h
    unfold readType at htype
    split at htype
    · split at htype
      · rename_i hmem
        cases htype
        exact List.contains_iff_mem.1 hmem
      · cases htype
    · exact (Condition.refuseName_strict_ne_ok htype).elim
  · cases h

/-- The actions that were read strictly are proper. -/
theorem Proper.of_readList {v : Value} {actions : List Action}
    (h : readList .strict v = .ok actions) : ∀ a ∈ actions, a.Proper := by
  unfold readList at h
  split at h
  · dsimp only at h
    split at h
    · cases h
    · intro a ha
      obtain ⟨item, -, hread⟩ := exists_mem_of_forall₂ (forall₂_of_mapM_eq_ok h).flip ha
      exact Proper.of_read hread
  · cases h

/-- The written form of a proper action is read as the action. -/
theorem Proper.read_toValue {a : Action} (h : a.Proper) (strictness : Strictness) :
    read strictness a.toValue = .ok a := by
  have htype : readType strictness (.str a.type) = .ok a.type := by
    rw [readType, if_pos (List.contains_iff_mem.2 h)]
  have hget : Fields.get [("type", .str a.type), ("params", .object a.params)] "type" =
      .str a.type := by
    simp [Fields.get, Fields.find?]
  have hparams : readParams strictness [("type", .str a.type), ("params", .object a.params)] =
      .ok a.params := by
    simp [readParams, Fields.find?]
  rw [toValue, read, hparams, hget]
  simp only [bind, Except.bind, htype]
  rfl

/-- The written form of proper actions is read leniently as the actions. -/
theorem readList_listToValue {actions : List Action} (h : ∀ a ∈ actions, a.Proper) :
    readList .lenient (listToValue actions) = .ok actions := by
  have hread : (actions.map toValue).mapM (read .lenient) = .ok actions :=
    mapM_eq_ok (List.forall₂_map_left_iff.2 (List.forall₂_same.2 fun a ha =>
      (h a ha).read_toValue .lenient))
  rw [listToValue, readList]
  cases (actions.map toValue).isEmpty
  · exact hread
  · exact hread

end Action

end RewardLedger
