import RewardLedger.Proofs.Rule.Reading
import RewardLedger.Rule.Evaluation

/-!
# Malformed conditions

What lenient reading makes of a value that is no condition (`Malformed`). It never fails, unless it has
to write a number that is too long, and what it puts in the place of the value holds for no event, with
one exception: a group of all its operands that has no list of them is read as a group without operands,
and that holds for every event (`outcome_of_malformed`). Apart from it, a malformed operand makes a group
of all false, and any group around that in which all must hold, and it makes no difference to a group of
any, wherever in a condition this stands.
-/

namespace RewardLedger

namespace Condition

/-! ## Written groups -/

/-- The value is written, in either form, as a group of the connective with these operands. -/
inductive GroupOf (k : Connective) (items : List Value) : Value → Prop where
  /-- In the older form the operands are the children. -/
  | older {fields : Fields} (hform : Older fields) (htype : (fields.get "type").Spells k.symbol)
      (hitems : fields.get "children" = .list items) : GroupOf k items (.object fields)
  /-- The present form. -/
  | present {fields : Fields} (hform : ¬ Older fields) (hgroup : Grouped fields)
      (hconnective : fields.get "operator" = .str k.symbol)
      (hitems : fields.get "operands" = .list items) : GroupOf k items (.object fields)

/-- The value is written as a group of the connective, but its operands are missing or no list. -/
inductive LacksOperands (k : Connective) : Value → Prop where
  /-- In the older form the operands are the children. -/
  | older {fields : Fields} (hform : Older fields) (htype : (fields.get "type").Spells k.symbol)
      (hitems : ∀ items, fields.get "children" ≠ .list items) : LacksOperands k (.object fields)
  /-- The present form. -/
  | present {fields : Fields} (hform : ¬ Older fields) (hgroup : Grouped fields)
      (hconnective : fields.get "operator" = .str k.symbol)
      (hitems : ∀ items, fields.get "operands" ≠ .list items) : LacksOperands k (.object fields)

/-- These are no parts of a leaf: the path is no text or empty, or there is no such operator. -/
def NoLeaf (path op : Value) : Prop :=
  (∀ s, path = .str s → s = "") ∨ ∀ known : Operator, op ≠ .str known.symbol

/-- The value itself, apart from what stands in it, has the form of no condition. -/
inductive Malformed : Value → Prop where
  /-- It is no object. -/
  | notObject {v : Value} (h : ∀ fields, v ≠ .object fields) : Malformed v
  /-- It has none of the fields that make a condition. -/
  | unrecognised {fields : Fields} (hform : ¬ Older fields) (hgroup : ¬ Grouped fields)
      (hfield : fields.has "field" = false) : Malformed (.object fields)
  /-- It is a group of no connective. -/
  | connective {fields : Fields} (hform : ¬ Older fields) (hgroup : Grouped fields)
      (h : ∀ k : Connective, fields.get "operator" ≠ .str k.symbol) : Malformed (.object fields)
  /-- It is a group without a list of operands. -/
  | operands {k : Connective} {v : Value} (h : LacksOperands k v) : Malformed v
  /-- It is a leaf without a path or an operator. -/
  | leaf {fields : Fields} (hform : ¬ Older fields) (hleaf : ¬ Grouped fields)
      (hfield : fields.has "field" = true) (h : NoLeaf (fields.get "field") (fields.get "op")) :
      Malformed (.object fields)
  /-- It is such a leaf in the older form. -/
  | olderLeaf {fields : Fields} (hform : Older fields)
      (htype : ∀ k : Connective, ¬ (fields.get "type").Spells k.symbol)
      (h : NoLeaf (fields.get "field") (fields.get "operator")) : Malformed (.object fields)

/-- A group is read leniently by reading its operands, or without any if they are no list. -/
theorem readGroup_lenient (k : Connective) (operands : Option (List (Except Failure Condition))) :
    readGroup .lenient (.str k.symbol) operands =
      (do return group k (← (operands.getD []).mapM id)) := by
  rw [readGroup, Connective.ofValue?_eq_some_iff.2 rfl]
  cases operands with
  | none => rfl
  | some readings => cases readings <;> rfl

/-- A written group is read by reading its operands. -/
theorem GroupOf.read_eq {k : Connective} {items : List Value} {v : Value} (h : GroupOf k items v) :
    read .lenient v = (do return group k (← items.mapM (read .lenient))) := by
  have hmap : ((some (items.map (read .lenient))).getD []).mapM id = items.mapM (read .lenient) := by
    rw [Option.getD_some, List.mapM_map]
    rfl
  cases h with
  | older hform htype hitems =>
    rw [read_olderGroup _ hform htype, readGroup_lenient, hitems]
    cases items with
    | nil => rfl
    | cons first rest =>
      have htruthy : (Value.list (first :: rest)).truthy = true := rfl
      rw [if_pos htruthy, readItems_list, hmap]
  | present hform hgroup hconnective hitems =>
    rw [read_group _ hform hgroup, hconnective, readGroup_lenient, hitems, readItems_list, hmap]

/-- A group that lacks a list of operands is read as a group without operands. -/
theorem LacksOperands.read_eq {k : Connective} {v : Value} (h : LacksOperands k v) :
    read .lenient v = .ok (group k []) := by
  cases h with
  | older hform htype hitems =>
    rw [read_olderGroup _ hform htype, readGroup_lenient, readItems_eq_none hitems]
    split <;> rfl
  | present hform hgroup hconnective hitems =>
    rw [read_group _ hform hgroup, hconnective, readGroup_lenient, readItems_eq_none hitems]
    rfl

/-! ## What is read in the place of a malformed value -/

/-- The value is read as a condition that holds for no event, or it cannot be written. -/
def NeverHolds (v : Value) : Prop :=
  (∃ c, read .lenient v = .ok c ∧ ∀ event, c.evaluate event = .ok false) ∨
    (v.isWritable = false ∧ read .lenient v = .error .numberTooLong)

/-- A path is read leniently as some text, which is empty if the value is no path. -/
theorem exists_readPath_lenient (path : Value) :
    ∃ s, readPath .lenient path = .ok s ∧ ((∀ t, path = .str t → t = "") → s = "") := by
  cases path with
  | str t =>
    rw [readPath]
    split
    · exact ⟨"", rfl, fun _ => rfl⟩
    · exact ⟨t, rfl, fun h => h t rfl⟩
  | _ => exact ⟨"", rfl, fun _ => rfl⟩

/-- What is no leaf is read as a leaf that holds for no event. -/
theorem NoLeaf.readLeaf_cases {path op value : Value} (h : NoLeaf path op) :
    (∃ c, readLeaf .lenient path op value = .ok c ∧ ∀ event, c.evaluate event = .ok false) ∨
      (op.isWritable = false ∧ readLeaf .lenient path op value = .error .numberTooLong) := by
  obtain ⟨s, hs, hempty⟩ := exists_readPath_lenient path
  rw [readLeaf, hs, readOperator]
  cases hop : Operator.ofValue? op with
  | some known =>
    have hpath : s = "" := by
      rcases h with hpath | hnone
      · exact hempty hpath
      · exact (hnone known (Operator.ofValue?_eq_some_iff.1 hop)).elim
    have hread : checkValue .lenient (.known known) value = .ok () := by
      rw [checkValue]
      split <;> rfl
    refine .inl ⟨.leaf s (.known known) value, ?_, fun event => ?_⟩
    · show (do checkValue .lenient (.known known) value; pure _) = _
      rw [hread]
      rfl
    · rw [evaluate, leafHolds, if_pos hpath]
  | none =>
    by_cases hwritable : op.isWritable = true
    · refine .inl ⟨.leaf s (.unknown op.plainText) value, ?_, fun event => ?_⟩
      · rw [refuseName, if_pos hwritable]
        rfl
      · rw [evaluate, leafHolds]
    · refine .inr ⟨Bool.eq_false_iff.2 hwritable, ?_⟩
      rw [refuseName, if_neg hwritable]
      rfl

/-- What lacks operands, unless all of them should hold, is read as what holds for no event. -/
theorem LacksOperands.neverHolds {k : Connective} {v : Value} (h : LacksOperands k v)
    (hk : k ≠ .all) : NeverHolds v := by
  refine .inl ⟨_, h.read_eq, fun event => ?_⟩
  cases k with
  | all => exact absurd rfl hk
  | any => rw [evaluate, anyHolds]

/-- A malformed value is read as what holds for no event, unless it lacks operands all of which should
hold. -/
theorem Malformed.neverHolds {v : Value} (h : Malformed v) (hall : ¬ LacksOperands .all v) :
    NeverHolds v := by
  -- a part that cannot be written stands in the object
  have hwithin : ∀ {fields : Fields} {name : String}, (fields.get name).isWritable = false →
      (Value.object fields).isWritable = false := fun hlong => Bool.eq_false_iff.2 fun hv => by
    rw [Value.isWritable_get hv] at hlong
    cases hlong
  cases h with
  | notObject h =>
    rw [NeverHolds, read_of_ne_object _ h]
    exact .inl ⟨_, rfl, fun event => evaluate_never event ""⟩
  | unrecognised hform hgroup hfield =>
    rw [NeverHolds, read_unrecognised _ hform hgroup hfield]
    exact .inl ⟨_, rfl, fun event => evaluate_never event ""⟩
  | @connective fields hform hgroup h =>
    have hnone : Connective.ofValue? (fields.get "operator") = none :=
      Option.eq_none_iff_forall_ne_some.2 fun k hk => h k (Connective.ofValue?_eq_some_iff.1 hk)
    rw [NeverHolds, read_group _ hform hgroup, readGroup, hnone]
    dsimp only
    rw [refuseName]
    split
    · exact .inl ⟨_, rfl, fun event => evaluate_never event _⟩
    · next hlong => exact .inr ⟨hwithin (Bool.eq_false_iff.2 hlong), rfl⟩
  | @operands k _ h =>
    refine h.neverHolds ?_
    rintro rfl
    exact hall h
  | leaf hform hleaf hfield h =>
    rw [NeverHolds, read_leaf _ hform hleaf hfield]
    exact h.readLeaf_cases.imp_right fun hfails => ⟨hwithin hfails.1, hfails.2⟩
  | olderLeaf hform htype h =>
    rw [NeverHolds, read_olderLeaf _ hform htype]
    split
    · exact h.readLeaf_cases.imp_right fun hfails => ⟨hwithin hfails.1, hfails.2⟩
    · next hlong => exact .inr ⟨hwithin (Bool.eq_false_iff.2 hlong), rfl⟩

/-! ## Operands that hold for no event -/

variable {event : Value}

/-- All of several conditions hold if all of the first ones do and all of the others. -/
theorem allHold_append (cs ds : List Condition) :
    allHold event (cs ++ ds) =
      (do if ← allHold event cs then allHold event ds else pure false) := by
  induction cs with
  | nil =>
    rw [List.nil_append, allHold]
    rfl
  | cons c rest ih =>
    rw [List.cons_append, allHold, allHold, ih]
    cases c.evaluate event with
    | error e => rfl
    | ok b => cases b <;> rfl

/-- One of several conditions holds if one of the first ones does or one of the others. -/
theorem anyHolds_append (cs ds : List Condition) :
    anyHolds event (cs ++ ds) =
      (do if ← anyHolds event cs then pure true else anyHolds event ds) := by
  induction cs with
  | nil =>
    rw [List.nil_append, anyHolds]
    rfl
  | cons c rest ih =>
    rw [List.cons_append, anyHolds, anyHolds, ih]
    cases c.evaluate event with
    | error e => rfl
    | ok b => cases b <;> rfl

/-- With a condition that does not hold not all of several conditions hold, unless it cannot be told for
the ones before it. -/
theorem allHold_of_false {c : Condition} (h : c.evaluate event = .ok false) (cs ds : List Condition) :
    allHold event (cs ++ c :: ds) = (do let _ ← allHold event cs; pure false) := by
  rw [allHold_append, allHold, h]
  cases allHold event cs with
  | error e => rfl
  | ok b => cases b <;> rfl

/-- A condition that does not hold makes no difference to whether one of several conditions holds. -/
theorem anyHolds_of_false {c : Condition} (h : c.evaluate event = .ok false) (cs ds : List Condition) :
    anyHolds event (cs ++ c :: ds) = anyHolds event (cs ++ ds) := by
  rw [anyHolds_append, anyHolds_append, anyHolds, h]
  rfl

/-- Conditions that evaluate alike can stand for each other among several conditions. -/
theorem allHold_congr {c c' : Condition} (h : c.evaluate event = c'.evaluate event)
    (cs ds : List Condition) : allHold event (cs ++ c :: ds) = allHold event (cs ++ c' :: ds) := by
  rw [allHold_append, allHold_append, allHold, allHold, h]

theorem anyHolds_congr {c c' : Condition} (h : c.evaluate event = c'.evaluate event)
    (cs ds : List Condition) : anyHolds event (cs ++ c :: ds) = anyHolds event (cs ++ c' :: ds) := by
  rw [anyHolds_append, anyHolds_append, anyHolds, anyHolds, h]

/-! ## Malformed operands -/

/-- What a group is read as has what its operands are read as in it. -/
theorem GroupOf.exists_of_read {k : Connective} {before after : List Value} {v w : Value}
    (hw : GroupOf k (before ++ v :: after) w) {c : Condition} (hc : read .lenient w = .ok c) :
    ∃ cs d ds, before.mapM (read .lenient) = .ok cs ∧ read .lenient v = .ok d ∧
      after.mapM (read .lenient) = .ok ds ∧ c = .group k (cs ++ d :: ds) := by
  rw [hw.read_eq] at hc
  obtain ⟨all, hall, hc⟩ := exists_of_bind_eq_ok hc
  obtain ⟨cs, d, ds, hcs, hd, hds, rfl⟩ := mapM_append_cons_eq_ok_iff.1 hall
  cases hc
  exact ⟨cs, d, ds, hcs, hd, hds, rfl⟩

/-- Whatever the first value is read as, the second one is read as something that evaluates alike. -/
def ReadsAlike (v v' : Value) : Prop :=
  ∀ c, read .lenient v = .ok c →
    ∃ c', read .lenient v' = .ok c' ∧ ∀ event, c.evaluate event = c'.evaluate event

/-- The second condition is the first one with another value in the place of an operand, however deep it
stands. -/
inductive Replaced (old new : Value) : Value → Value → Prop where
  /-- The value itself is replaced. -/
  | here : Replaced old new old new
  /-- An operand is replaced, or something in it. -/
  | operand {k : Connective} {before after : List Value} {v v' w w' : Value}
      (hw : GroupOf k (before ++ v :: after) w) (hw' : GroupOf k (before ++ v' :: after) w')
      (h : Replaced old new v v') : Replaced old new w w'

/-- With a value that evaluates alike in the place of another, a condition evaluates alike. -/
theorem Replaced.readsAlike {old new v v' : Value} (h : Replaced old new v v')
    (hold : ReadsAlike old new) : ReadsAlike v v' := by
  induction h with
  | here => exact hold
  | @operand k before after v v' w w' hw hw' _ ih =>
    intro c hc
    obtain ⟨cs, d, ds, hcs, hd, hds, rfl⟩ := hw.exists_of_read hc
    obtain ⟨d', hd', heval⟩ := ih d hd
    refine ⟨.group k (cs ++ d' :: ds), ?_, fun event => ?_⟩
    · rw [hw'.read_eq, mapM_append_cons_eq_ok_iff.2 ⟨cs, d', ds, hcs, hd', hds, rfl⟩]
      rfl
    · cases k with
      | all =>
        rw [evaluate, evaluate]
        exact allHold_congr (heval event) cs ds
      | any =>
        rw [evaluate, evaluate]
        exact anyHolds_congr (heval event) cs ds

/-- The first value stands in the second one, and only in groups all of whose operands must hold. -/
inductive Required (v : Value) : Value → Prop where
  /-- A value stands in itself. -/
  | self : Required v v
  /-- What stands in an operand stands in the group. -/
  | operand {before after : List Value} {u w : Value} (hw : GroupOf .all (before ++ u :: after) w)
      (h : Required v u) : Required v w

/-- What the value is read as, if it can be read, holds for no event. -/
theorem NeverHolds.evaluate_eq {v : Value} (h : NeverHolds v) {c : Condition}
    (hc : read .lenient v = .ok c) (event : Value) : c.evaluate event = .ok false := by
  obtain ⟨c', hc', heval⟩ | ⟨-, hlong⟩ := h
  · rw [hc'] at hc
    cases hc
    exact heval event
  · rw [hlong] at hc
    cases hc

/-- A condition that requires one that never holds does not hold. -/
theorem Required.not_holds {v w : Value} (h : Required v w) (hv : NeverHolds v) {c : Condition}
    (hc : read .lenient w = .ok c) (event : Value) : c.evaluate event ≠ .ok true := by
  induction h generalizing c with
  | self =>
    rw [hv.evaluate_eq hc event]
    rintro ⟨⟩
  | operand hw _ ih =>
    obtain ⟨cs, d, ds, -, hd, -, rfl⟩ := hw.exists_of_read hc
    have hfalse := ih hd
    rw [evaluate, allHold_append, allHold]
    intro htrue
    obtain ⟨b, -, htrue⟩ := exists_of_bind_eq_ok htrue
    cases b with
    | false => cases htrue
    | true =>
      obtain ⟨b', hb', htrue⟩ := exists_of_bind_eq_ok htrue
      cases b' with
      | false => cases htrue
      | true => exact hfalse hb'

/-- What a malformed value makes of the conditions in which it stands. -/
structure NeverMatches (v : Value) : Prop where
  /-- By itself it is read as what holds for no event, or has a number in it that cannot be written. -/
  alone : NeverHolds v
  /-- As an operand it makes a group of all false, once it can be told whether the ones before it
  hold. -/
  all : ∀ {before after : List Value} {w : Value}, GroupOf .all (before ++ v :: after) w →
    ∀ c, read .lenient w = .ok c → ∃ cs, before.mapM (read .lenient) = .ok cs ∧
      ∀ event, c.evaluate event = (do let _ ← allHold event cs; pure false)
  /-- Wherever it is required, the whole does not hold. -/
  required : ∀ {w : Value}, Required v w → ∀ c, read .lenient w = .ok c →
    ∀ event, c.evaluate event ≠ .ok true
  /-- As an operand of a group of any it can be left out, wherever the group stands. -/
  any : ∀ {before after : List Value} {w w' : Value}, GroupOf .any (before ++ v :: after) w →
    GroupOf .any (before ++ after) w' → ∀ {whole whole' : Value}, Replaced w w' whole whole' →
      ReadsAlike whole whole'

/-- What never holds is false among all and nothing among any. -/
theorem NeverHolds.neverMatches {v : Value} (h : NeverHolds v) : NeverMatches v where
  alone := h
  all hw c hc := by
    obtain ⟨cs, d, ds, hcs, hd, -, rfl⟩ := hw.exists_of_read hc
    refine ⟨cs, hcs, fun event => ?_⟩
    rw [evaluate]
    exact allHold_of_false (h.evaluate_eq hd event) cs ds
  required hw _ hc event := hw.not_holds h hc event
  any hw hw' := fun hwhole => by
    refine hwhole.readsAlike fun c hc => ?_
    obtain ⟨cs, d, ds, hcs, hd, hds, rfl⟩ := hw.exists_of_read hc
    refine ⟨.group .any (cs ++ ds), ?_, fun event => ?_⟩
    · rw [hw'.read_eq, List.mapM_append, hcs, hds]
      rfl
    · rw [evaluate, evaluate]
      exact anyHolds_of_false (h.evaluate_eq hd event) cs ds

/-- A malformed value never matches, but if it lacks operands all of which should hold, it matches
every event. -/
theorem outcome_of_malformed {v : Value} (h : Malformed v) :
    (¬ LacksOperands .all v → NeverMatches v) ∧
      (LacksOperands .all v →
        ∃ c, read .lenient v = .ok c ∧ ∀ event, c.evaluate event = .ok true) := by
  refine ⟨fun hall => (h.neverHolds hall).neverMatches, fun hall => ⟨_, hall.read_eq, fun event => ?_⟩⟩
  rw [evaluate, allHold]

/-- A leaf of the older form with an operator that does not exist. -/
def strangeLeaf : Value :=
  .object [("type", .str "condition"), ("field", .str "x"), ("operator", .str "~"), ("value", .int 1)]

/-- A leaf with an operator that does not exist never matches. -/
theorem outcome_of_strangeLeaf : Malformed strangeLeaf ∧ NeverMatches strangeLeaf := by
  have holder : Older [("type", .str "condition"), ("field", .str "x"), ("operator", .str "~"),
      ("value", .int 1)] := by
    simp [Older, Fields.has, Fields.find?]
  have htype : ∀ k : Connective, ¬ (Value.str "condition").Spells k.symbol := by
    rintro k ⟨s, heq, hs⟩
    cases heq
    cases k <;> exact absurd hs (by decide)
  have hmalformed : Malformed strangeLeaf := by
    refine .olderLeaf holder htype (.inr fun known hop => ?_)
    have hsymbol := Operator.ofValue?_eq_some_iff.2 hop
    exact absurd hsymbol (by cases known <;> decide)
  refine ⟨hmalformed, (outcome_of_malformed hmalformed).1 fun hlacks => ?_⟩
  cases hlacks with
  | older _ hspells => exact htype _ hspells
  | present hform => exact hform holder

/-- A group that should have operands and has none. -/
def lackingOperands : Value := .object [("operator", .str "AND")]

/-- A group of all its operands that has none is malformed, and yet it matches every event. -/
theorem holds_of_lackingOperands :
    Malformed lackingOperands ∧
      ∃ c, read .lenient lackingOperands = .ok c ∧ ∀ event, c.evaluate event = .ok true := by
  have hlacks : LacksOperands .all lackingOperands := by
    refine .present ?_ ?_ rfl ?_
    · simp [Older, Fields.has, Fields.find?]
    · simp [Grouped, Fields.has, Fields.find?]
    · simp [Fields.get, Fields.find?]
  exact ⟨.operands hlacks, _, hlacks.read_eq, fun event => by rw [evaluate, allHold]⟩

end Condition

end RewardLedger
