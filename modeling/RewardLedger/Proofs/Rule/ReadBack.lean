import RewardLedger.Proofs.Rule.Written

/-!
# Strict and lenient reading agree

Strict reading checks more than lenient reading, and where its checks are passed both go the same way.
So what is read strictly is read leniently as the same condition (`Condition.reproduces_read`), in
whichever form it was given and however the forms are mixed, and the same holds of actions
(`Action.reproduces_read`). With the written forms, which are read back in both ways, all readings of
a rule that was made come to what was submitted (`Condition.reads_same`, `Action.reads_same`).
-/

namespace RewardLedger

/-- What the first computation comes to, if it comes to something, the second one comes to. -/
def Reproduces {α : Type} (r r' : Except Failure α) : Prop := ∀ a, r = .ok a → r' = .ok a

namespace Reproduces

variable {α β : Type}

theorem refl (r : Except Failure α) : Reproduces r r := fun _ h => h

/-- A refusal comes to nothing when reading strictly. -/
theorem refuse (fault : RuleFault) (otherwise : α) (r : Except Failure α) :
    Reproduces (Condition.refuse .strict fault otherwise) r := fun _ h => nomatch h

/-- What cannot be done comes to nothing. -/
theorem error (e : Failure) (r : Except Failure α) : Reproduces (.error e) r := fun _ h => nomatch h

/-- A refusal comes to nothing when reading strictly, whether what is refused can be written or not. -/
theorem refuseName (fault : RuleFault) (v : Value) (otherwise : String → α) (r : Except Failure α) :
    Reproduces (Condition.refuseName .strict fault v otherwise) r := fun _ h =>
  (Condition.refuseName_strict_ne_ok h).elim

theorem bind {r r' : Except Failure α} {f f' : α → Except Failure β} (h : Reproduces r r')
    (hf : ∀ a, Reproduces (f a) (f' a)) : Reproduces (r >>= f) (r' >>= f') := by
  intro b hb
  obtain ⟨a, ha, hb⟩ := exists_of_bind_eq_ok hb
  rw [h a ha]
  exact hf a b hb

/-- Computations in a row come to the same results, one by one. -/
theorem mapM {rs rs' : List (Except Failure α)} (h : List.Forall₂ Reproduces rs rs') :
    Reproduces (rs.mapM id) (rs'.mapM id) := by
  induction h with
  | nil => exact refl _
  | cons hr _ ih =>
    rw [List.mapM_cons, List.mapM_cons]
    exact bind hr fun _ => bind ih fun _ => refl _

end Reproduces

/-! ## Conditions -/

namespace Condition

/-- A leaf that is read strictly is read leniently as the same leaf. -/
theorem reproduces_readLeaf (path op value : Value) :
    Reproduces (readLeaf .strict path op value) (readLeaf .lenient path op value) := by
  have hpath : Reproduces (readPath .strict path) (readPath .lenient path) := by
    unfold readPath
    split
    · split
      · exact .refuse _ _ _
      · exact .refl _
    · exact .refuse _ _ _
  have hop : Reproduces (readOperator .strict op) (readOperator .lenient op) := by
    unfold readOperator
    split
    · exact .refl _
    · exact .refuseName _ _ _ _
  have hvalue : ∀ op, Reproduces (checkValue .strict op value) (checkValue .lenient op value) :=
    fun op => by
      unfold checkValue
      split
      · split
        · exact .refuse _ _ _
        · exact .refl _
      · exact .refl _
  exact hpath.bind fun _ => hop.bind fun op => (hvalue op).bind fun _ => .refl _

/-- The lenient readings of operands reproduce the strict ones; nothing corresponds to nothing. -/
def OperandsAgree : Option (List (Except Failure Condition)) →
    Option (List (Except Failure Condition)) → Prop :=
  Option.Rel (List.Forall₂ Reproduces)

/-- A group that is read strictly is read leniently as the same group. -/
theorem reproduces_readGroup (connective : Value)
    {operands operands' : Option (List (Except Failure Condition))}
    (h : OperandsAgree operands operands') :
    Reproduces (readGroup .strict connective operands)
      (readGroup .lenient connective operands') := by
  unfold readGroup
  split
  · exact .refuseName _ _ _ _
  · cases h with
    | none => exact fun _ hread => nomatch hread
    | some hall =>
      cases hall with
      | nil => exact fun _ hread => nomatch hread
      | cons hfirst hrest => exact (Reproduces.mapM (.cons hfirst hrest)).bind fun _ => .refl _

/-- The readings of the fields of an object agree, field by field. -/
def ReadingsAgree : List (String × Option (List (Except Failure Condition))) →
    List (String × Option (List (Except Failure Condition))) → Prop :=
  List.Forall₂ fun r r' => r.1 = r'.1 ∧ OperandsAgree r.2 r'.2

/-- The operands that are read from a named field agree. -/
theorem operandsAgree_operandsIn (fields : Fields)
    {readings readings' : List (String × Option (List (Except Failure Condition)))}
    (h : ReadingsAgree readings readings') (name : String) :
    OperandsAgree (operandsIn fields readings name) (operandsIn fields readings' name) := by
  unfold operandsIn
  split
  · exact .some .nil
  · induction h with
    | nil => exact .none
    | @cons r r' rest rest' hr _ ih =>
      rw [List.find?_cons, List.find?_cons, hr.1]
      split
      · exact hr.2
      · exact ih

-- one statement for each of the functions that read, by recursion on the value that they read
mutual

/-- What is read strictly is read leniently as the same condition. -/
theorem reproduces_read : ∀ v : Value, Reproduces (read .strict v) (read .lenient v)
  | .object fields => by
    unfold read
    dsimp only
    split
    · exact .error _ _
    split
    · exact reproduces_readGroup _ (operandsAgree_operandsIn fields (readingsAgree fields) _)
    · exact reproduces_readLeaf _ _ _
    · exact .refuse _ _ _
  | .null | .bool _ | .int _ | .float _ | .decimal _ | .str _ | .uuid _ | .instant _ | .list _
  | .tuple _ | .map _ | .opaqueThing => by
    unfold read
    exact .refuse _ _ _

/-- The readings of the fields of an object agree. -/
theorem readingsAgree : ∀ fields : List (String × Value),
    ReadingsAgree (readFields .strict fields) (readFields .lenient fields)
  | [] => by
    unfold readFields
    exact .nil
  | (name, v) :: rest => by
    unfold readFields
    exact .cons ⟨rfl, operandsAgree_readItems v⟩ (readingsAgree rest)

/-- The readings of the items of a list agree. -/
theorem operandsAgree_readItems : ∀ v : Value,
    OperandsAgree (readItems .strict v) (readItems .lenient v)
  | .list items => by
    unfold readItems
    exact .some (reproduces_readAll items)
  | .null | .bool _ | .int _ | .float _ | .decimal _ | .str _ | .uuid _ | .instant _ | .tuple _
  | .object _ | .map _ | .opaqueThing => by
    unfold readItems
    exact .none

/-- The readings of several values agree, one by one. -/
theorem reproduces_readAll : ∀ items : List Value,
    List.Forall₂ Reproduces (readAll .strict items) (readAll .lenient items)
  | [] => by
    unfold readAll
    exact .nil
  | v :: rest => by
    unfold readAll
    exact .cons (reproduces_read v) (reproduces_readAll rest)

end

/-- Every reading of a condition, and of its written form, comes to the condition that was read
strictly. -/
structure ReadsSame (v : Value) (c : Condition) : Prop where
  /-- Lenient reading comes to the same condition. -/
  lenient : read .lenient v = .ok c
  /-- The written form is read back. -/
  written : ∀ strictness, read strictness c.toValue = .ok c

/-- A condition that was read strictly is what every other reading comes to. -/
theorem reads_same {v : Value} {c : Condition} (h : read .strict v = .ok c) : ReadsSame v c :=
  ⟨reproduces_read v c h, fun strictness => (Proper.of_read h).read_toValue strictness⟩

end Condition

/-! ## Actions -/

namespace Action

/-- An action that is read strictly is read leniently as the same action. -/
theorem reproduces_read (v : Value) : Reproduces (read .strict v) (read .lenient v) := by
  unfold read
  split
  · rename_i fields
    have hparams : Reproduces (readParams .strict fields) (readParams .lenient fields) := by
      unfold readParams
      split
      · exact .refl _
      · exact .refl _
      · exact .refuse _ _ _
    have htype : Reproduces (readType .strict (Fields.get fields "type"))
        (readType .lenient (Fields.get fields "type")) := by
      unfold readType
      split
      · split
        · exact .refl _
        · exact .refuse _ _ _
      · exact .refuseName _ _ _ _
    exact hparams.bind fun _ => htype.bind fun _ => .refl _
  · exact .refl _

/-- Strict reading of a list of actions reads each of them, and there is one. -/
theorem of_readList {v : Value} {actions : List Action} (h : readList .strict v = .ok actions) :
    actions ≠ [] ∧ ∃ items, v = .list items ∧
      List.Forall₂ (fun item a => read .strict item = .ok a) items actions := by
  unfold readList at h
  split at h
  · rename_i items
    cases items with
    | nil => cases h
    | cons first rest =>
      have hread := forall₂_of_mapM_eq_ok h
      refine ⟨?_, _, rfl, hread⟩
      rintro rfl
      cases hread
  · cases h

/-- A list of actions each of which is read, and of which there is one, is read. -/
theorem readList_of_forall₂ {strictness : Strictness} {items : List Value} {actions : List Action}
    (hne : actions ≠ []) (h : List.Forall₂ (fun item a => read strictness item = .ok a) items actions) :
    readList strictness (.list items) = .ok actions := by
  cases h with
  | nil => exact absurd rfl hne
  | cons hfirst hrest => exact mapM_eq_ok (.cons hfirst hrest)

/-- The written forms of proper actions, of which there is one, are read as the actions. -/
theorem readList_listToValue_of_ne_nil {actions : List Action} (hne : actions ≠ [])
    (h : ∀ a ∈ actions, a.Proper) (strictness : Strictness) :
    readList strictness (listToValue actions) = .ok actions :=
  readList_of_forall₂ hne (List.forall₂_map_left_iff.2 (List.forall₂_same.2 fun a ha =>
    (h a ha).read_toValue strictness))

/-- Every reading of a list of actions, and of their written forms, comes to the actions that were read
strictly. -/
structure ReadsSame (v : Value) (actions : List Action) : Prop where
  /-- Lenient reading comes to the same actions. -/
  lenient : readList .lenient v = .ok actions
  /-- The written forms are read back. -/
  written : ∀ strictness, readList strictness (listToValue actions) = .ok actions

/-- Actions that were read strictly are what every other reading comes to. -/
theorem reads_same {v : Value} {actions : List Action} (h : readList .strict v = .ok actions) :
    ReadsSame v actions := by
  obtain ⟨hne, items, rfl, hread⟩ := of_readList h
  exact ⟨readList_of_forall₂ hne (hread.imp fun item a ha => reproduces_read item a ha),
    readList_listToValue_of_ne_nil hne (Proper.of_readList h)⟩

end Action

end RewardLedger
