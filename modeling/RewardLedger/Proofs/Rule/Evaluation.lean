import RewardLedger.Proofs.Rule.Written
import RewardLedger.Rule.Evaluation

/-!
# Evaluating conditions on JSON events

A proper condition holds for a JSON event or does not, whatever the kinds of the fields are that it
meets (`Condition.Proper.decided`). There is one exception. A part of a path that consists of
digits is read as a number where it meets a list, and digits that do not form a number, or too many of
them, make the evaluation fail. Such a part is called unreadable (`Path.Unreadable`).

Each function that takes part is followed on its own: reading a place, following a path, comparing
two values, an operator, and the two ways of joining operands.
-/

namespace RewardLedger

/-! ## Events -/

/-- The value can be written in JSON and read back: it holds null, truth values, whole numbers, finite
floating point numbers and texts in lists and objects, nested to any depth. -/
inductive Value.IsJson : Value → Prop where
  /-- Null. -/
  | null : IsJson .null
  /-- A truth value. -/
  | bool (b : Bool) : IsJson (.bool b)
  /-- A whole number. -/
  | int (i : Int) : IsJson (.int i)
  /-- A finite floating point number. -/
  | float {x : Binary64} (h : x.isFinite = true) : IsJson (.float x)
  /-- A text. -/
  | str (s : String) : IsJson (.str s)
  /-- A list. -/
  | list {items : List Value} (h : ∀ v ∈ items, IsJson v) : IsJson (.list items)
  /-- An object. -/
  | object {fields : Fields} (h : ∀ f ∈ fields, IsJson f.2) : IsJson (.object fields)

/-- A field of a JSON object is JSON. -/
theorem Value.IsJson.of_find? {fields : Fields} (h : ∀ f ∈ fields, f.2.IsJson) {name : String}
    {v : Value} (hfind : Fields.find? fields name = some v) : v.IsJson := by
  induction fields with
  | nil => cases hfind
  | cons f rest ih =>
    obtain ⟨k, w⟩ := f
    rw [Fields.find?] at hfind
    split at hfind
    · cases hfind
      exact h (k, v) List.mem_cons_self
    · exact ih (fun g hg => h g (List.mem_cons_of_mem _ hg)) hfind

/-! ## Paths -/

namespace Path

/-- The part consists of digits, but not all of them are decimal, or they are more than a number may
have; the failure says which. -/
def Unreadable (part : String) (e : Failure) : Prop :=
  isPlace part = true ∧
    ((∃ c ∈ part.toList, Text.decimalValue? c = none) ∧ e = .notWhole part ∨
      ∃ n, 4300 < n ∧ n ≤ part.toList.length ∧ e = .textTooLong n)

/-- If not every item leads to a result, one of them leads to none. -/
theorem exists_of_mapM_eq_none {α β : Type} {f : α → Option β} {items : List α}
    (h : items.mapM f = none) : ∃ a ∈ items, f a = none := by
  induction items with
  | nil => cases h
  | cons a rest ih =>
    rw [List.mapM_cons] at h
    cases ha : f a with
    | none => exact ⟨a, List.mem_cons_self, ha⟩
    | some b =>
      cases hrest : rest.mapM f with
      | none =>
        obtain ⟨c, hc, hnone⟩ := ih hrest
        exact ⟨c, List.mem_cons_of_mem _ hc, hnone⟩
      | some bs =>
        rw [ha, hrest] at h
        cases h

/-- A part of digits that denotes no place is unreadable. -/
theorem unreadable_of_place {part : String} {e : Failure} (hplace : isPlace part = true)
    (h : place part = .error e) : Unreadable part e := by
  refine ⟨hplace, ?_⟩
  unfold place at h
  dsimp only at h
  split at h
  · rename_i hlong
    cases h
    exact .inr ⟨_, hlong, (List.takeWhile_sublist _).length_le, rfl⟩
  · split at h
    · cases h
    · rename_i hnone
      cases h
      exact .inl ⟨exists_of_mapM_eq_none hnone, rfl⟩

/-- Following a path in a JSON event leads to a JSON value or nowhere, or it fails at an unreadable
part. -/
theorem follow_cases (ps : List String) {v : Value} (hv : v.IsJson) :
    (∃ found, follow ps v = .ok found ∧ ∀ w, found = some w → w.IsJson) ∨
      ∃ part ∈ ps, ∃ e, Unreadable part e ∧ follow ps v = .error e := by
  induction ps generalizing v with
  | nil =>
    refine .inl ⟨some v, rfl, fun w hw => ?_⟩
    cases hw
    exact hv
  | cons part rest ih =>
    -- where the part leads, the rest of the path is followed
    have hnowhere : step part v = .ok none →
        ∃ found, follow (part :: rest) v = .ok found ∧ ∀ w, found = some w → w.IsJson := fun h => by
      refine ⟨none, ?_, fun _ hw => nomatch hw⟩
      rw [follow, h]
      rfl
    have hgo : ∀ o : Option Value, step part v = .ok o → (∀ w, o = some w → w.IsJson) →
        (∃ found, follow (part :: rest) v = .ok found ∧ ∀ w, found = some w → w.IsJson) ∨
          ∃ p ∈ part :: rest, ∃ e, Unreadable p e ∧ follow (part :: rest) v = .error e := by
      intro o ho hjson
      cases o with
      | none => exact .inl (hnowhere ho)
      | some w =>
        have hfollow : follow (part :: rest) v = follow rest w := by
          rw [follow, ho]
          rfl
        rw [hfollow]
        rcases ih (hjson w rfl) with hok | ⟨p, hp, e, he⟩
        · exact .inl hok
        · exact .inr ⟨p, List.mem_cons_of_mem _ hp, e, he⟩
    -- only objects and lists have places; a list has one at each number
    cases hv with
    | object hfields => exact hgo _ rfl fun w hw => .of_find? hfields hw
    | @list items hitems =>
      cases hdigits : isPlace part with
      | false => exact .inl (hnowhere (by rw [step, hdigits]; rfl))
      | true =>
        cases hplace : place part with
        | ok n =>
          refine hgo items[n]? ?_ fun w hw => hitems w (List.mem_of_getElem? hw)
          rw [step, hdigits, hplace]
          rfl
        | error e =>
          refine .inr ⟨part, List.mem_cons_self, e, unreadable_of_place hdigits hplace, ?_⟩
          rw [follow, step, hdigits, hplace]
          rfl
    | null | bool | int | float | str => exact .inl (hnowhere rfl)

end Path

/-! ## Comparing -/

namespace Value

/-- A JSON value can be compared for equality with a primitive value. -/
theorem exists_strictEquals {a b : Value} (ha : a.IsJson) (hb : b.isPrimitive = true) :
    ∃ r, a.strictEquals b = .ok r := by
  -- each kind of JSON value meets each kind of primitive value
  cases ha <;> cases b <;> cases hb
  all_goals
    simp [strictEquals, plainNumber?, number?, kindName, equalTo, equals, scalarEquals,
      Number.equalityInvalid, Number.isSignaling]

/-- A JSON value has an order with a primitive value, or none. -/
theorem exists_comparesAs (test : Ordering → Bool) {a b : Value} (ha : a.IsJson)
    (hb : b.isPrimitive = true) : ∃ r, a.comparesAs test b = .ok r := by
  cases ha <;> cases b <;> cases hb
  all_goals
    simp [comparesAs, plainNumber?, number?, Number.orderInvalid, Number.isDecimal]

/-- A JSON value can be looked for among primitive values. -/
theorem exists_equalsOneOf {a : Value} (ha : a.IsJson) {items : List Value}
    (hitems : ∀ v ∈ items, v.isPrimitive = true) : ∃ r, a.equalsOneOf items = .ok r := by
  induction items with
  | nil => exact ⟨false, rfl⟩
  | cons item rest ih =>
    obtain ⟨same, hsame⟩ := exists_strictEquals ha (hitems item List.mem_cons_self)
    obtain ⟨r, hr⟩ := ih fun v hv => hitems v (List.mem_cons_of_mem _ hv)
    rw [equalsOneOf, hsame]
    cases same with
    | true => exact ⟨true, rfl⟩
    | false => exact ⟨r, hr⟩

end Value

/-! ## Operators -/

/-- An operator that fits its value holds between every JSON field and the value, or does not. -/
theorem Operator.exists_holds {op : Operator} {value : Value} (hvalue : op.valueFault? value = none)
    {field : Option Value} (hfield : ∀ v, field = some v → v.IsJson) :
    ∃ b, op.holds field value = .ok b := by
  -- what `valueFault?` asks of the value, for the operators that compare with one or with a list
  have hprimitive : (∀ fault : RuleFault,
      (if value.isPrimitive then none else some fault) = none → value.isPrimitive = true) := by
    intro fault h
    by_contra hne
    rw [if_neg hne] at h
    cases h
  cases op with
  | present => exact ⟨_, rfl⟩
  | absent => exact ⟨_, rfl⟩
  | equal =>
    cases field with
    | none => exact ⟨false, rfl⟩
    | some v => exact Value.exists_strictEquals (hfield v rfl) (hprimitive _ hvalue)
  | notEqual =>
    cases field with
    | none => exact ⟨true, rfl⟩
    | some v =>
      obtain ⟨r, hr⟩ := Value.exists_strictEquals (hfield v rfl) (hprimitive _ hvalue)
      refine ⟨!r, ?_⟩
      rw [holds, hr]
      rfl
  | greater | less | atLeast | atMost =>
    cases field with
    | none => exact ⟨false, rfl⟩
    | some v => exact Value.exists_comparesAs _ (hfield v rfl) (hprimitive _ hvalue)
  | contains =>
    cases field with
    | none => exact ⟨false, rfl⟩
    | some v =>
      cases v with
      | str s => cases value <;> exact ⟨_, rfl⟩
      | _ => exact ⟨false, rfl⟩
  | among | notAmong =>
    have hitems : ∃ items, value = .list items ∧ ∀ v ∈ items, v.isPrimitive = true := by
      cases value with
      | list items =>
        refine ⟨items, rfl, fun v hv => ?_⟩
        by_contra hne
        have hall : (Value.list items).isPrimitiveList = false :=
          Bool.eq_false_iff.2 fun h => hne (List.all_eq_true.1 h v hv)
        rw [valueFault?, hall] at hvalue
        cases hvalue
      | _ => cases hvalue
    obtain ⟨items, rfl, hitems⟩ := hitems
    cases field with
    | none => exact ⟨_, rfl⟩
    | some v =>
      obtain ⟨r, hr⟩ := Value.exists_equalsOneOf (hfield v rfl) hitems
      simp only [holds, hr]
      exact ⟨_, rfl⟩

/-! ## Conditions -/

namespace Condition

/-- A path of the condition has an unreadable part; the failure says which. -/
def Unreadable (c : Condition) (e : Failure) : Prop :=
  ∃ path ∈ c.paths, ∃ part ∈ Path.parts path, Path.Unreadable part e

/-- A group has the paths of its operands. -/
theorem mem_pathsOf {path : String} {cs : List Condition} {c : Condition} (hc : c ∈ cs)
    (h : path ∈ c.paths) : path ∈ pathsOf cs := by
  induction cs with
  | nil => cases hc
  | cons first rest ih =>
    rw [pathsOf, List.mem_append]
    rcases List.mem_cons.1 hc with rfl | hc
    · exact .inl h
    · exact .inr (ih hc)

/-- A group of which an operand is unreadable is unreadable. -/
theorem Unreadable.group {connective : Connective} {operands : List Condition} {c : Condition}
    {e : Failure} (hc : c ∈ operands) (h : c.Unreadable e) :
    (Condition.group connective operands).Unreadable e := by
  obtain ⟨path, hpath, hpart⟩ := h
  refine ⟨path, ?_, hpart⟩
  rw [paths]
  exact mem_pathsOf hc hpath

/-- The condition holds for the event or does not, or it is unreadable. -/
def Decided (event : Value) (c : Condition) : Prop :=
  (∃ b, c.evaluate event = .ok b) ∨ ∃ e, c.Unreadable e ∧ c.evaluate event = .error e

variable {event : Value}

/-- A leaf that fits its value holds for a JSON event or does not, or its path is unreadable. -/
theorem decided_leaf (hevent : event.IsJson) {path : String} {op : Operator} {value : Value}
    (hpath : path ≠ "") (hvalue : op.valueFault? value = none) :
    (leaf path (.known op) value).Decided event := by
  have heval : (leaf path (.known op) value).evaluate event =
      (do op.holds (← Path.resolve event path) value) := by
    rw [evaluate, leafHolds]
    exact if_neg hpath
  unfold Decided
  rw [heval]
  rcases Path.follow_cases (Path.parts path) hevent with ⟨found, hfound, hjson⟩ | hbad
  · obtain ⟨b, hb⟩ := Operator.exists_holds hvalue hjson
    refine .inl ⟨b, ?_⟩
    rw [Path.resolve, hfound]
    exact hb
  · obtain ⟨part, hpart, e, hunreadable, he⟩ := hbad
    refine .inr ⟨e, ⟨path, ?_, part, hpart, hunreadable⟩, ?_⟩
    · rw [paths]
      exact List.mem_singleton_self _
    · rw [Path.resolve, he]
      rfl

/-- Whether all of several conditions hold is known if it is known of each of them, or one of them is
unreadable. -/
theorem allHold_cases {cs : List Condition} (h : ∀ c ∈ cs, c.Decided event) :
    (∃ b, allHold event cs = .ok b) ∨
      ∃ c ∈ cs, ∃ e, c.Unreadable e ∧ allHold event cs = .error e := by
  induction cs with
  | nil => exact .inl ⟨true, by rw [allHold]⟩
  | cons c rest ih =>
    rw [allHold]
    rcases h c List.mem_cons_self with ⟨b, hb⟩ | ⟨e, hunreadable, he⟩
    · rw [hb]
      cases b with
      | false => exact .inl ⟨false, rfl⟩
      | true =>
        rcases ih fun d hd => h d (List.mem_cons_of_mem _ hd) with hok | ⟨d, hd, hbad⟩
        · exact .inl hok
        · exact .inr ⟨d, List.mem_cons_of_mem _ hd, hbad⟩
    · rw [he]
      exact .inr ⟨c, List.mem_cons_self, e, hunreadable, rfl⟩

/-- Whether one of several conditions holds is known if it is known of each of them, or one of them is
unreadable. -/
theorem anyHolds_cases {cs : List Condition} (h : ∀ c ∈ cs, c.Decided event) :
    (∃ b, anyHolds event cs = .ok b) ∨
      ∃ c ∈ cs, ∃ e, c.Unreadable e ∧ anyHolds event cs = .error e := by
  induction cs with
  | nil => exact .inl ⟨false, by rw [anyHolds]⟩
  | cons c rest ih =>
    rw [anyHolds]
    rcases h c List.mem_cons_self with ⟨b, hb⟩ | ⟨e, hunreadable, he⟩
    · rw [hb]
      cases b with
      | true => exact .inl ⟨true, rfl⟩
      | false =>
        rcases ih fun d hd => h d (List.mem_cons_of_mem _ hd) with hok | ⟨d, hd, hbad⟩
        · exact .inl hok
        · exact .inr ⟨d, List.mem_cons_of_mem _ hd, hbad⟩
    · rw [he]
      exact .inr ⟨c, List.mem_cons_self, e, hunreadable, rfl⟩

/-- A proper condition holds for a JSON event or does not, or it is unreadable. -/
theorem Proper.decided {c : Condition} (h : c.Proper) (hevent : event.IsJson) : c.Decided event := by
  induction h with
  | leaf hpath hvalue => exact decided_leaf hevent hpath hvalue
  | @group connective operands _ _ ih =>
    unfold Decided
    cases connective with
    | all =>
      rw [evaluate]
      rcases allHold_cases ih with hok | ⟨c, hc, e, hunreadable, he⟩
      · exact .inl hok
      · exact .inr ⟨e, hunreadable.group hc, he⟩
    | any =>
      rw [evaluate]
      rcases anyHolds_cases ih with hok | ⟨c, hc, e, hunreadable, he⟩
      · exact .inl hok
      · exact .inr ⟨e, hunreadable.group hc, he⟩

end Condition

end RewardLedger
