import Mathlib.Logic.Relation
import RewardLedger.Proofs.Ledger.Stored
import RewardLedger.Proofs.Rule.Written
import RewardLedger.Rule.Basic
import RewardLedger.Tables
import RewardLedger.Value.Pairs

/-!
# Stored versions of rules

What the table of rules holds, as records, and the steps by which it changes: a version is switched on
or off, or the next version of a name is added. A version is switched on, and an active one added,
only when no other version of its name is active. From the conditions of the steps follow, by
induction on how the versions came about, the laws of the rule book: identifiers differ
(`Steps.nodup`), the versions of a name are numbered without gaps in the order of their places
(`Steps.numbered`), and at most one of them is active (`Steps.single`).
-/

namespace RewardLedger

/-- A version of a rule as it is stored. -/
structure StoredRule where
  /-- The identifier of the version. -/
  id : Uuid
  /-- The name that all versions share. -/
  name : String
  /-- The number of the version. -/
  version : Nat
  /-- When the actions should happen. -/
  condition : Condition
  /-- What should happen. -/
  actions : List Action
  /-- Whether the version takes part in evaluations, as it was given. -/
  active : Value
  /-- A description, as it was given. -/
  description : Value
  /-- Further particulars. -/
  metadata : Value
  /-- When the version was made. -/
  createdAt : Instant
  /-- The place of the row. -/
  place : Nat
  deriving Repr, Inhabited

namespace StoredRule

/-- The version takes part in evaluations. -/
def isActive (r : StoredRule) : Bool := r.active.truthy

/-- The rule that the version is. -/
def toRule (r : StoredRule) : Rule where
  id := .uuid r.id
  name := .str r.name
  version := .int r.version
  condition := r.condition
  actions := r.actions
  active := r.active
  description := r.description
  metadata := r.metadata.orElse (.object [])
  createdAt := .instant r.createdAt

/-- The columns of the row of a version. -/
def rowColumns : List String :=
  ["id", "name", "version", "conditions", "actions", "is_active", "description", "metadata",
    "created_at", sequenceColumn]

/-- The columns stand for the version. -/
structure IsRow (r : StoredRule) (columns : Fields) : Prop where
  id : columns.find? "id" = some (.uuid r.id)
  name : columns.find? "name" = some (.str r.name)
  version : columns.find? "version" = some (.int r.version)
  condition : columns.find? "conditions" = some r.condition.toValue
  proper : r.condition.Proper
  actions : columns.find? "actions" = some (Action.listToValue r.actions)
  properActions : ∀ a ∈ r.actions, a.Proper
  active : columns.find? "is_active" = some r.active
  description : columns.find? "description" = some r.description
  metadata : columns.find? "metadata" = some r.metadata
  object : r.metadata.asObject = .ok r.metadata
  createdAt : columns.find? "created_at" = some (.instant r.createdAt)
  place : columns.find? sequenceColumn = some (.int r.place)
  others : ∀ c ∉ rowColumns, columns.get c = .null

instance : Stored StoredRule where
  tableName := rulesTable
  keyColumn := "id"
  keyOf r := .uuid r.id
  IsRow := IsRow
  of_agrees ha h := {
    id := ha.find?_of_some h.id
    name := ha.find?_of_some h.name
    version := ha.find?_of_some h.version
    condition := ha.find?_of_some h.condition
    proper := h.proper
    actions := ha.find?_of_some h.actions
    properActions := h.properActions
    active := ha.find?_of_some h.active
    description := ha.find?_of_some h.description
    metadata := ha.find?_of_some h.metadata
    object := h.object
    createdAt := ha.find?_of_some h.createdAt
    place := ha.find?_of_some h.place
    others := fun c hc => (congrFun ha.get_eq c).trans (h.others c hc) }
  get_keyColumn h := by rw [Fields.get, h.id]; rfl
  sameKey_iff _ _ := Value.sameKey_uuid_iff
  hashable_keyOf _ := rfl

/-- A column that a row has is read from it. -/
theorem column_eq {columns : Fields} {name : String} {v : Value} (h : columns.find? name = some v) :
    columns.column name = .ok v := by
  rw [Fields.column, h]

/-- Reading the row of a version gives the rule that it is. -/
theorem IsRow.ofRow {r : StoredRule} {columns : Fields} (h : r.IsRow columns) :
    Rule.ofRow columns = .ok r.toRule := by
  rw [Rule.ofRow, column_eq h.id, column_eq h.name, column_eq h.version, column_eq h.condition,
    column_eq h.actions, column_eq h.active]
  simp only [bind, Except.bind, h.proper.read_toValue .lenient,
    Action.readList_listToValue h.properActions, Fields.get, h.description, h.metadata, h.createdAt]
  rfl

/-! ## Switching -/

/-- The second version is the first one, but for whether it is active. -/
def SameButActive (r r' : StoredRule) : Prop := r' = { r with active := r'.active }

theorem SameButActive.refl (r : StoredRule) : r.SameButActive r := rfl

theorem SameButActive.trans {r r' r'' : StoredRule} (h : r.SameButActive r')
    (h' : r'.SameButActive r'') : r.SameButActive r'' := by
  rw [SameButActive, h', h]

/-- The version, switched if it is the one with the identifier. -/
def switched (id : Uuid) (active : Value) (r : StoredRule) : StoredRule :=
  if r.id = id then { r with active } else r

/-- The version, inactive if its identifier is one of these. -/
def retired (ids : List Uuid) (r : StoredRule) : StoredRule :=
  if r.id ∈ ids then { r with active := .bool false } else r

/-- Switching changes only whether the version is active. -/
theorem switched_eq (id : Uuid) (active : Value) (r : StoredRule) :
    r.SameButActive (r.switched id active) := by
  unfold switched
  split <;> rfl

/-- Retiring changes only whether the version is active. -/
theorem retired_eq (ids : List Uuid) (r : StoredRule) : r.SameButActive (r.retired ids) := by
  unfold retired
  split <;> rfl

@[simp] theorem switched_id (id : Uuid) (active : Value) (r : StoredRule) :
    (r.switched id active).id = r.id := by
  rw [switched_eq]

@[simp] theorem switched_name (id : Uuid) (active : Value) (r : StoredRule) :
    (r.switched id active).name = r.name := by
  rw [switched_eq]

@[simp] theorem switched_version (id : Uuid) (active : Value) (r : StoredRule) :
    (r.switched id active).version = r.version := by
  rw [switched_eq]

@[simp] theorem retired_id (ids : List Uuid) (r : StoredRule) : (r.retired ids).id = r.id := by
  rw [retired_eq]

@[simp] theorem retired_name (ids : List Uuid) (r : StoredRule) :
    (r.retired ids).name = r.name := by
  rw [retired_eq]

@[simp] theorem retired_version (ids : List Uuid) (r : StoredRule) :
    (r.retired ids).version = r.version := by
  rw [retired_eq]

/-- Switching a version off and retiring others is retiring it with the others. -/
theorem retired_switched (id : Uuid) (ids : List Uuid) (r : StoredRule) :
    (r.switched id (.bool false)).retired ids = r.retired (id :: ids) := by
  unfold switched retired
  by_cases hid : r.id = id
  · simp [hid]
  · simp [hid]

/-- A version that is switched is active if it is switched on, and any other one if it was before. -/
theorem isActive_switched {id : Uuid} {active : Value} {r : StoredRule}
    (h : (r.switched id active).isActive = true) :
    r.id = id ∧ active.truthy = true ∨ r.id ≠ id ∧ r.isActive = true := by
  unfold switched at h
  split at h
  · exact .inl ⟨‹_›, h⟩
  · exact .inr ⟨‹_›, h⟩

/-- A version that is active after others have been retired was active before, and is none of them. -/
theorem isActive_retired {ids : List Uuid} {r : StoredRule}
    (h : (r.retired ids).isActive = true) : r.isActive = true ∧ r.id ∉ ids := by
  unfold retired at h
  split at h
  · cases h
  · exact ⟨h, ‹_›⟩

end StoredRule

namespace RuleBook

open StoredRule

/-- The numbers of the versions of a name, in the order of the rows. -/
def versionsOf (name : String) (rules : List StoredRule) : List Nat :=
  (rules.filter (·.name = name)).map (·.version)

/-- One step of the rule book. -/
inductive Step : List StoredRule → List StoredRule → Prop where
  /-- A version is switched on or off; on only if no other version of its name is active. -/
  | switch {rules : List StoredRule} {r : StoredRule} {active : Value} (hr : r ∈ rules)
    (hon : active.truthy = true →
      ∀ o ∈ rules, o.name = r.name → o.id ≠ r.id → o.isActive = false) :
    Step rules (rules.map (switched r.id active))
  /-- The next version of a name is added, when no other version of the name is active. -/
  | add {rules : List StoredRule} {r : StoredRule} (hid : ∀ o ∈ rules, o.id ≠ r.id)
    (hversion : r.version = (versionsOf r.name rules).length + 1)
    (hquiet : ∀ o ∈ rules, o.name = r.name → o.isActive = false) : Step rules (rules ++ [r])

/-- Any number of steps of the rule book. -/
def Steps : List StoredRule → List StoredRule → Prop := Relation.ReflTransGen Step

variable {rules rules' : List StoredRule}

/-! ## What steps keep -/

/-- Changing neither names nor numbers keeps the numbers of the versions of a name. -/
theorem versionsOf_map {f : StoredRule → StoredRule} (hname : ∀ r, (f r).name = r.name)
    (hversion : ∀ r, (f r).version = r.version) (name : String) :
    versionsOf name (rules.map f) = versionsOf name rules := by
  unfold versionsOf
  rw [List.filter_map, List.map_map]
  simp only [Function.comp_def, hname, hversion]

/-- A version that is added is one more version of its name. -/
theorem versionsOf_append (name : String) (r : StoredRule) :
    versionsOf name (rules ++ [r]) =
      versionsOf name rules ++ if r.name = name then [r.version] else [] := by
  unfold versionsOf
  rw [List.filter_append, List.map_append]
  by_cases hname : r.name = name <;> simp [hname]

/-- Steps take no version away, and change no more of it than whether it is active. -/
theorem Steps.exists_same (h : Steps rules rules') {r : StoredRule} (hr : r ∈ rules) :
    ∃ r' ∈ rules', r.SameButActive r' := by
  induction h with
  | refl => exact ⟨r, hr, .refl r⟩
  | tail _ hstep ih =>
    obtain ⟨r', hr', hsame⟩ := ih
    cases hstep with
    | switch _ _ => exact ⟨_, List.mem_map_of_mem hr', hsame.trans (switched_eq _ _ r')⟩
    | add _ _ _ => exact ⟨r', List.mem_append_left _ hr', hsame⟩

/-- Steps take no identifier away. -/
theorem Steps.exists_id (h : Steps rules rules') {r : StoredRule} (hr : r ∈ rules) :
    ∃ r' ∈ rules', r'.id = r.id := by
  obtain ⟨r', hr', hsame⟩ := h.exists_same hr
  exact ⟨r', hr', by rw [hsame]⟩

/-- No two versions have the same identifier. -/
theorem Steps.nodup (h : Steps [] rules) : (rules.map (·.id)).Nodup := by
  induction h with
  | refl => exact .nil
  | tail _ hstep ih =>
    cases hstep with
    | switch _ _ =>
      rw [List.map_map]
      simpa only [Function.comp_def, switched_id] using ih
    | @add r hid _ _ =>
      rw [List.map_append, List.nodup_append]
      refine ⟨ih, List.nodup_singleton _, fun id hmem id' hmem' => ?_⟩
      obtain ⟨o, ho, rfl⟩ := List.mem_map.1 hmem
      rw [List.mem_singleton.1 hmem']
      exact hid o ho

/-- Versions with the same identifier are the same. -/
theorem Steps.eq_of_id (h : Steps [] rules) {r r' : StoredRule} (hr : r ∈ rules) (hr' : r' ∈ rules)
    (hid : r.id = r'.id) : r = r' :=
  List.inj_on_of_nodup_map h.nodup hr hr' hid

/-- The versions of a name are numbered from 1 without gaps, in the order of the rows. -/
theorem Steps.numbered (h : Steps [] rules) (name : String) :
    versionsOf name rules = List.range' 1 (versionsOf name rules).length := by
  induction h with
  | refl => rfl
  | @tail rules _ _ hstep ih =>
    cases hstep with
    | switch _ _ =>
      rw [versionsOf_map (switched_name _ _) (switched_version _ _)]
      exact ih
    | @add r _ hversion _ =>
      rw [versionsOf_append]
      -- the new number continues those of its name and leaves those of others alone
      by_cases hname : r.name = name
      · rw [if_pos hname, List.length_append, List.length_singleton, List.range'_1_concat, ← ih,
          hversion, hname, Nat.add_comm]
      · rw [if_neg hname, List.append_nil]
        exact ih

/-- The number of a version is one of those of its name, which are numbered from 1. -/
theorem Steps.version_mem (h : Steps [] rules) {r : StoredRule} (hr : r ∈ rules) :
    0 < r.version ∧ r.version ≤ (versionsOf r.name rules).length := by
  have hmem : r.version ∈ versionsOf r.name rules :=
    List.mem_map_of_mem (List.mem_filter.2 ⟨hr, decide_eq_true rfl⟩)
  rw [h.numbered r.name, List.mem_range'_1] at hmem
  omega

/-- At most one version of a name is active. -/
theorem Steps.single (h : Steps [] rules) : ∀ r ∈ rules, ∀ r' ∈ rules, r.name = r'.name →
    r.isActive = true → r'.isActive = true → r = r' := by
  induction h with
  | refl => exact fun r hr => nomatch hr
  | @tail rules _ hsteps hstep ih =>
    cases hstep with
    | @switch r active hr hon =>
      -- one that is switched on has no active version of its name beside it
      have hother : ∀ a ∈ rules, ∀ b ∈ rules, a.name = b.name → a.id = r.id →
          active.truthy = true → b.id ≠ r.id → b.isActive ≠ true := by
        intro a ha b hb hname haid hactive hbid hb'
        obtain rfl := Steps.eq_of_id hsteps ha hr haid
        rw [hon hactive b hb hname.symm hbid] at hb'
        cases hb'
      intro x hx y hy hname hxa hya
      obtain ⟨a, ha, rfl⟩ := List.mem_map.1 hx
      obtain ⟨b, hb, rfl⟩ := List.mem_map.1 hy
      rw [switched_name, switched_name] at hname
      rcases isActive_switched hxa with ⟨haid, hactive⟩ | ⟨haid, ha'⟩ <;>
        rcases isActive_switched hya with ⟨hbid, hactive'⟩ | ⟨hbid, hb'⟩
      · rw [Steps.eq_of_id hsteps ha hb (haid.trans hbid.symm)]
      · exact absurd hb' (hother a ha b hb hname haid hactive hbid)
      · exact absurd ha' (hother b hb a ha hname.symm hbid hactive' haid)
      · rw [ih a ha b hb hname ha' hb']
    | @add r _ _ hquiet =>
      intro x hx y hy hname hxa hya
      rcases List.mem_append.1 hx with hx | hx <;> rcases List.mem_append.1 hy with hy | hy
      · exact ih x hx y hy hname hxa hya
      · rw [List.mem_singleton.1 hy] at hname
        rw [hquiet x hx hname] at hxa
        cases hxa
      · rw [List.mem_singleton.1 hx] at hname
        rw [hquiet y hy hname.symm] at hya
        cases hya
      · rw [List.mem_singleton.1 hx, List.mem_singleton.1 hy]

end RuleBook

end RewardLedger
