import Mathlib.Data.List.TakeWhile
import RewardLedger.Proofs.Number.Digits
import RewardLedger.Proofs.Rule.Evaluation

/-!
# What paths lead to

A value in a nest of objects and lists is addressed by the steps that lead to it: the name of a field
of an object, or the place of an item of a list, written in decimal digits (`Path.Follows`). A path is
such a list of steps with dots between them, and it is one in exactly one way, since no step has a dot
of its own (`Path.existsUnique_isSplit`). A step may be empty, and a step of digits is a name where it
meets an object and a place where it meets a list.

Reading a path finds a value if and only if the steps of the path lead to it
(`Path.resolve_iff_follows`).
-/

namespace RewardLedger

/-- Items all of which lead to a result lead to the results, and only they do. -/
theorem mapM_eq_some_iff {α β : Type} {f : α → Option β} {items : List α} {results : List β} :
    items.mapM f = some results ↔ List.Forall₂ (fun a r => f a = some r) items results := by
  constructor
  · intro h
    induction items generalizing results with
    | nil =>
      cases h
      exact .nil
    | cons a rest ih =>
      rw [List.mapM_cons] at h
      obtain ⟨r, hr, h⟩ := Option.bind_eq_some_iff.1 h
      obtain ⟨rs, hrs, h⟩ := Option.bind_eq_some_iff.1 h
      cases h
      exact .cons hr (ih hrs)
  · intro h
    induction h with
    | nil => rfl
    | cons ha _ ih =>
      rw [List.mapM_cons, ha, ih]
      rfl

/-- The value of a name is that of the first field of the name. -/
theorem Fields.find?_eq_some_iff {fields : Fields} {name : String} {w : Value} :
    fields.find? name = some w ↔
      ∃ before after, fields = before ++ (name, w) :: after ∧ name ∉ Fields.names before := by
  -- by induction on the fields: the name is that of the first one, or it is found behind it
  induction fields with
  | nil =>
    refine iff_of_false (fun h => nomatch h) ?_
    rintro ⟨before, after, h, -⟩
    exact List.append_ne_nil_of_right_ne_nil before (List.cons_ne_nil _ _) h.symm
  | cons f rest ih =>
    obtain ⟨k, u⟩ := f
    rw [Fields.find?]
    split
    · next hk =>
      subst hk
      constructor
      · rintro ⟨⟩
        exact ⟨[], rest, rfl, List.not_mem_nil⟩
      · rintro ⟨_ | ⟨f, before⟩, after, h, hfirst⟩
        · cases h
          rfl
        · cases h
          exact absurd List.mem_cons_self hfirst
    · next hk =>
      rw [ih]
      constructor
      · rintro ⟨before, after, rfl, hfirst⟩
        exact ⟨(k, u) :: before, after, rfl, List.not_mem_cons_of_ne_of_not_mem (Ne.symm hk) hfirst⟩
      · rintro ⟨_ | ⟨f, before⟩, after, h, hfirst⟩
        · cases h
          exact absurd rfl hk
        · cases h
          exact ⟨before, after, rfl, fun hmem => hfirst (List.mem_cons_of_mem _ hmem)⟩

namespace Path

/-! ## Steps and the paths they make -/

/-- The texts are the steps of the path: there is at least one, none has a dot, and with dots between
them they make the path. -/
structure IsSplit (steps : List String) (path : String) : Prop where
  /-- There is a step. -/
  nonempty : steps ≠ []
  /-- No step has a dot. -/
  dotless : ∀ step ∈ steps, '.' ∉ step.toList
  /-- The steps make the path. -/
  joined : ".".intercalate steps = path

/-- What stands between separators has none. -/
theorem notMem_of_mem_splitOn {α : Type} [BEq α] [LawfulBEq α] {sep : α} {items part : List α}
    (h : part ∈ items.splitOn sep) : sep ∉ part := by
  induction items generalizing part with
  | nil =>
    cases List.mem_singleton.1 h
    exact List.not_mem_nil
  | cons a rest ih =>
    rw [List.splitOn, List.splitOnP_cons_eq_if_modifyHead] at h
    split at h
    · rcases List.mem_cons.1 h with rfl | h
      · exact List.not_mem_nil
      · exact ih h
    · next hne =>
      obtain ⟨first, others, hrest⟩ :=
        List.exists_cons_of_ne_nil (List.splitOnP_ne_nil (· == sep) rest)
      rw [hrest, List.modifyHead_cons] at h
      have hmem : ∀ part ∈ first :: others, sep ∉ part := fun part hpart =>
        ih (by rw [List.splitOn, hrest]; exact hpart)
      rcases List.mem_cons.1 h with rfl | h
      · rintro (_ | ⟨_, h⟩)
        · exact hne (beq_self_eq_true sep)
        · exact hmem first List.mem_cons_self h
      · exact hmem part (List.mem_cons_of_mem _ h)

/-- The parts of a path are its steps. -/
theorem isSplit_parts (path : String) : IsSplit (parts path) path where
  nonempty h := List.splitOnP_ne_nil _ _ (List.map_eq_nil_iff.1 h)
  dotless step hstep := by
    obtain ⟨cs, hcs, rfl⟩ := List.mem_map.1 hstep
    rw [String.toList_ofList]
    exact notMem_of_mem_splitOn hcs
  joined := by
    have htexts : String.toList ∘ String.ofList = id := funext fun _ => String.toList_ofList
    rw [← String.toList_inj, String.toList_intercalate, parts, List.map_map, htexts, List.map_id]
    exact List.intercalate_splitOn '.'

/-- The steps of a path are its parts. -/
theorem IsSplit.parts_eq {steps : List String} {path : String} (h : IsSplit steps path) :
    parts path = steps := by
  have htexts : String.ofList ∘ String.toList = id := funext fun _ => String.ofList_toList
  have hsplit : (['.'].intercalate (steps.map String.toList)).splitOn '.' =
      steps.map String.toList := by
    refine List.splitOn_intercalate '.' (fun cs hcs => ?_) (mt List.map_eq_nil_iff.1 h.nonempty)
    obtain ⟨step, hstep, rfl⟩ := List.mem_map.1 hcs
    exact h.dotless step hstep
  have hpath : path.toList = ['.'].intercalate (steps.map String.toList) := by
    rw [← h.joined, String.toList_intercalate]
    rfl
  rw [parts, hpath, hsplit, List.map_map, htexts, List.map_id]

/-- Every path has its steps in exactly one way. -/
theorem existsUnique_isSplit (path : String) : ∃! steps, IsSplit steps path :=
  ⟨parts path, isSplit_parts path, fun _ h => h.parts_eq.symm⟩

/-- A path that goes on has the steps of both of its halves. -/
theorem parts_append (path rest : String) :
    parts (path ++ "." ++ rest) = parts path ++ parts rest := by
  have hpath := isSplit_parts path
  have hrest := isSplit_parts rest
  refine IsSplit.parts_eq ⟨List.append_ne_nil_of_left_ne_nil hpath.nonempty _, ?_, ?_⟩
  · exact List.forall_mem_append.2 ⟨hpath.dotless, hrest.dotless⟩
  · rw [String.intercalate_append_of_ne_nil hpath.nonempty hrest.nonempty, hpath.joined,
      hrest.joined]

/-! ## Where steps lead -/

/-- The text is the number written in decimal digits, of any script and with any zeros in front, but
with no more digits than are read. -/
structure Denotes (text : String) (n : Nat) : Prop where
  /-- There is a digit. -/
  nonempty : text ≠ ""
  /-- There are not too many digits. -/
  readable : text.toList.length ≤ 4300
  /-- The digits are those of the number, the most significant first. -/
  digits : ∃ ds, List.Forall₂ (fun c d => Text.decimalValue? c = some d) text.toList ds ∧
    ofDigits ds = n

/-- A number has the text that is written for it. -/
theorem denotes_natText {n : Nat} (h : digitCount n ≤ 4300) :
    Denotes (String.ofList (natText n)) n where
  nonempty hempty := by
    have hpos := digitCount_pos n
    rw [← length_natText, String.ofList_eq_empty_iff.1 hempty] at hpos
    exact absurd hpos (by decide)
  readable := by
    rw [String.toList_ofList, length_natText]
    exact h
  digits := by
    rw [String.toList_ofList]
    exact ⟨digitsOf n, mapM_eq_some_iff.1 (digitRun?_map_digitChar fun _ => lt_of_mem_digitsOf),
      ofDigits_digitsOf n⟩

/-- The step leads from the first value to the second. -/
inductive Leads : String → Value → Value → Prop where
  /-- The name of a field leads to its value. -/
  | field {name : String} {before after : Fields} {w : Value} (hfirst : name ∉ before.names) :
    Leads name (.object (before ++ (name, w) :: after)) w
  /-- The place of an item leads to the item. -/
  | item {text : String} {n : Nat} {items : List Value} {w : Value} (hn : Denotes text n)
    (hw : items[n]? = some w) : Leads text (.list items) w

/-- The steps lead from the first value to the second, one after the other. -/
inductive Follows : List String → Value → Value → Prop where
  /-- No steps lead nowhere else. -/
  | nil (v : Value) : Follows [] v v
  /-- The first step leads to where the others start. -/
  | cons {step : String} {rest : List String} {v u w : Value} (hstep : Leads step v u)
    (hrest : Follows rest u w) : Follows (step :: rest) v w

/-- In an object whose fields have different names, a name leads to the value of its field. -/
theorem leads_object_iff {name : String} {fields : Fields} {w : Value}
    (hnodup : fields.names.Nodup) : Leads name (.object fields) w ↔ (name, w) ∈ fields := by
  constructor
  · rintro ⟨⟩
    exact List.mem_append_right _ List.mem_cons_self
  · intro h
    obtain ⟨before, after, rfl⟩ := List.append_of_mem h
    refine .field fun hmem => ?_
    rw [Fields.names, List.map_append, List.map_cons, List.nodup_append] at hnodup
    exact hnodup.2.2 name hmem name List.mem_cons_self rfl

/-- A text is read as a place if and only if it is a number written in decimal digits. -/
theorem place_eq_ok_iff {text : String} {n : Nat} :
    isPlace text = true ∧ place text = .ok n ↔ Denotes text n := by
  rw [isPlace, Bool.and_eq_true, bne_iff_ne, List.all_eq_true]
  constructor
  · rintro ⟨⟨hempty, -⟩, h⟩
    unfold place at h
    dsimp only at h
    split at h
    · cases h
    · next hlong =>
      split at h
      · next ds hds =>
        cases h
        have hdigits := mapM_eq_some_iff.1 hds
        -- all characters are digits, so the first ones that are digits are the whole text
        have hall : ∀ c ∈ text.toList, (Text.decimalValue? c).isSome = true := fun c hc => by
          obtain ⟨d, -, hd⟩ := exists_mem_of_forall₂ hdigits hc
          rw [hd]
          rfl
        rw [List.takeWhile_eq_self_iff.2 hall, not_lt] at hlong
        exact ⟨hempty, hlong, ds, hdigits, rfl⟩
      · cases h
  · rintro ⟨hempty, hlong, ds, hdigits, rfl⟩
    refine ⟨⟨hempty, fun c hc => ?_⟩, ?_⟩
    · obtain ⟨d, -, hd⟩ := exists_mem_of_forall₂ hdigits hc
      rw [Text.isDigit, hd]
      rfl
    · have hread : ¬4300 < (text.toList.takeWhile fun c => (Text.decimalValue? c).isSome).length :=
        not_lt.2 ((List.takeWhile_sublist _).length_le.trans hlong)
      unfold place
      dsimp only
      rw [if_neg hread, mapM_eq_some_iff.2 hdigits]

/-- A step is found to lead to a value if and only if it does. -/
theorem step_eq_some_iff {text : String} {v w : Value} :
    step text v = .ok (some w) ↔ Leads text v w := by
  constructor
  · intro h
    unfold step at h
    split at h
    · obtain ⟨before, after, rfl, hfirst⟩ := Fields.find?_eq_some_iff.1 (Except.ok.inj h)
      exact .field hfirst
    · split at h
      · next hplace =>
        split at h
        · next n hn => exact .item (place_eq_ok_iff.1 ⟨hplace, hn⟩) (Except.ok.inj h)
        · cases h
      · cases h
    · cases h
  · rintro (hfirst | ⟨hn, hw⟩)
    · exact congrArg Except.ok (Fields.find?_eq_some_iff.2 ⟨_, _, rfl, hfirst⟩)
    · obtain ⟨hplace, hread⟩ := place_eq_ok_iff.2 hn
      rw [step, if_pos hplace, hread]
      exact congrArg Except.ok hw

/-- Steps are found to lead to a value if and only if they do. -/
theorem follow_eq_some_iff {steps : List String} {v w : Value} :
    follow steps v = .ok (some w) ↔ Follows steps v w := by
  constructor
  · intro h
    induction steps generalizing v with
    | nil =>
      cases h
      exact .nil w
    | cons text rest ih =>
      rw [follow] at h
      obtain ⟨o, ho, h⟩ := exists_of_bind_eq_ok h
      cases o with
      | none => cases h
      | some u => exact .cons (step_eq_some_iff.1 ho) (ih h)
  · intro h
    induction h with
    | nil v => rfl
    | cons hstep _ ih =>
      rw [follow, step_eq_some_iff.2 hstep]
      exact ih

/-- Where steps lead on from where others led is where all of them lead. -/
theorem follow_append {steps more : List String} {v u : Value} (h : Follows steps v u) :
    follow (steps ++ more) v = follow more u := by
  induction h with
  | nil v => rfl
  | cons hstep _ ih =>
    rw [List.cons_append, follow, step_eq_some_iff.2 hstep]
    exact ih

/-- Nothing leads on from a primitive value. -/
theorem follow_of_isPrimitive {steps : List String} (hsteps : steps ≠ []) {v : Value}
    (hv : v.isPrimitive = true) : follow steps v = .ok none := by
  obtain ⟨text, rest, rfl⟩ := List.exists_cons_of_ne_nil hsteps
  have hstep : step text v = .ok none := by
    cases v with
    | null | bool | int | float | str => rfl
    | _ => cases hv
  rw [follow, hstep]
  rfl

/-- **What paths lead to.** In every event, and for every path with its steps:

* reading the path finds a value if and only if the steps lead to it, each of them as the name of a
  field or as the number, in decimal digits, of the place of an item;
* the text of the number of a place has no dot, and it leads to the item there, up to the last item
  and no further (numbers of so many digits that they are not read are no places of any list that
  there can be);
* a path that goes on from a primitive value leads nowhere.

Every path has its steps, and has no others. -/
theorem resolve_iff_follows (event : Value) :
    (∀ path, ∃! steps, IsSplit steps path) ∧
      (∀ steps path, IsSplit steps path →
        ∀ v, resolve event path = .ok (some v) ↔ Follows steps event v) ∧
      (∀ n (items : List Value) v, digitCount n ≤ 4300 → '.' ∉ natText n ∧
        (Leads (String.ofList (natText n)) (.list items) v ↔ items[n]? = some v)) ∧
      ∀ path v, resolve event path = .ok (some v) → v.isPrimitive = true →
        ∀ rest, resolve event (path ++ "." ++ rest) = .ok none := by
  refine ⟨existsUnique_isSplit, fun steps path h v => ?_, fun n items v hn => ?_,
    fun path v h hv rest => ?_⟩
  · rw [resolve, h.parts_eq]
    exact follow_eq_some_iff
  · obtain ⟨hplace, hread⟩ := place_eq_ok_iff.2 (denotes_natText hn)
    have hdigits : '.' ∉ digitChars := by decide
    rw [← step_eq_some_iff, step, if_pos hplace, hread]
    exact ⟨mt mem_natText hdigits, Except.ok.inj, congrArg Except.ok⟩
  · rw [resolve, parts_append, follow_append (follow_eq_some_iff.1 h)]
    exact follow_of_isPrimitive (isSplit_parts rest).nonempty hv

/-- In an object with a list, an object with an empty name and a name of digits, and a list again, the
path of all of these steps leads to the truth value at their end, and nothing leads on from there. -/
theorem resolve_iff_follows_nested :
    let event : Value :=
      .object [("a", .list [.null, .object [("", .object [("1", .list [.bool true])])]])]
    resolve event "a.1..1.0" = .ok (some (.bool true)) ∧ resolve event "a.1..1.0.0" = .ok none := by
  intro event
  obtain ⟨-, hpaths, hplaces, hends⟩ := resolve_iff_follows event
  have hsplit : IsSplit ["a", "1", "", "1", "0"] "a.1..1.0" :=
    ⟨by decide, by decide, by decide⟩
  have hplace : ∀ {n items v}, digitCount n ≤ 4300 → items[n]? = some v →
      Leads (String.ofList (natText n)) (.list items) v := fun hn => (hplaces _ _ _ hn).2.2
  have hfollows : Follows ["a", "1", "", "1", "0"] event (.bool true) :=
    .cons (@Leads.field _ [] _ _ List.not_mem_nil) <|
      .cons (hplace (n := 1) (by decide) rfl) <|
      .cons (@Leads.field _ [] _ _ List.not_mem_nil) <|
      .cons (@Leads.field _ [] _ _ List.not_mem_nil) <|
      .cons (hplace (n := 0) (by decide) rfl) (.nil _)
  have hfound := (hpaths _ _ hsplit _).2 hfollows
  exact ⟨hfound, hends _ _ hfound rfl "0"⟩

end Path

end RewardLedger
