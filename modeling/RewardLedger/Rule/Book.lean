import RewardLedger.Rule.Basic
import RewardLedger.Tables
import RewardLedger.Value.Arithmetic
import RewardLedger.Value.Pairs

/-!
# The rule book

Rules are never edited. A change makes a new version with the next number and deactivates the older
versions of the name, so that at most one version of a name is active. Only whether a version is
active changes in place.

Arguments come unchecked, as values of any kind; an identifier or a name of the wrong kind is simply
not found.
-/

namespace RewardLedger.RuleBook

/-! ## Order -/

/-- Rules are listed by ascending name and descending version. -/
def listingKey (row : Fields) : Except Failure SortKey := do
  let name ← row.column "name"
  let version ← (← row.column "version").negated
  pure ⟨name, version⟩

/-- The rows of rules to be kept, in listing order. -/
def listed (keep : Fields → Except Failure Bool) : Op (List Fields) := do
  let rows ← Op.query (·.select rulesTable keep)
  Op.ofExcept (sortByKey listingKey rows)

/-! ## Reading -/

/-- The row of the rule with the identifier, which must exist. -/
def row (id : Value) : Op Fields := do
  match ← Op.query (·.get rulesTable id) with
  | some row => pure row
  | none => Op.refuse (.ruleNotFound id)

/-- The rule with the identifier. -/
def get (id : Value) : Op Rule := do Op.ofExcept (Rule.ofRow (← row id))

/-- All rules. -/
def all : Op (List Rule) := do
  let rows ← listed fun _ => .ok true
  Op.ofExcept (rows.mapM Rule.ofRow)

/-- The row is that of an active rule. -/
def isActive (row : Fields) : Except Failure Bool := do return (← row.column "is_active").truthy

/-- The active rules. -/
def active : Op (List Rule) := do
  let rows ← listed isActive
  Op.ofExcept (rows.mapM Rule.ofRow)

/-- The first row of each name, where names found before are passed over. -/
def firstPerName (seen : List Value) : List Fields → Except Failure (List Fields)
  | [] => .ok []
  | row :: rest => do
    let name ← row.column "name"
    unless name.hashable do throw .wrongKind
    if seen.any name.sameKey then firstPerName seen rest
    else return row :: (← firstPerName (name :: seen) rest)

/-- The latest version of each name. -/
def latestPerName : Op (List Rule) := do
  let rows ← listed fun _ => .ok true
  Op.ofExcept (do (← firstPerName [] rows).mapM Rule.ofRow)

/-- The latest version of a name, if there is one. -/
def latest? (name : Value) : Op (Option Rule) := do
  match ← listed (·.columnIs "name" name) with
  | [] => pure none
  | row :: _ => Op.ofExcept (some <$> Rule.ofRow row)

/-! ## Changing -/

/-- The name of a rule is a text with a character that is not blank. -/
def isName : Value → Bool
  | .str s => !(Text.trim s.toList).isEmpty
  | _ => false

/-- The greater of the greatest version so far and that of a row, if they have an order. -/
def greaterVersion (greatest : Option Value) (row : Fields) : Except Failure (Option Value) := do
  let version ← row.column "version"
  match greatest with
  | none => pure (some version)
  | some v => pure (some (if ← version.greaterThan v then version else v))

/-- The number of the next version after those of the rows. -/
def nextVersion (rows : List Fields) : Except Failure Value := do
  match ← rows.foldlM greaterVersion none with
  | none => pure (.int 1)
  | some v => v.successor

/-- Deactivate the rules among the rows that are active. -/
def deactivateAll (rows : List Fields) : Op Unit :=
  rows.forM fun row => do
    if ← Op.ofExcept (isActive row) then
      let id ← Op.ofExcept (row.column "id")
      discard <| Op.change (Store.update rulesTable id [("is_active", .bool false)])

/-- Make a new version of a name, and deactivate the others. -/
def create (name conditions actions : Value) (metadata description : Value := .null)
    (active : Value := .bool true) : Op Rule := do
  unless isName name do throw (RuleFault.failure .name)
  let condition ← Op.ofExcept (Condition.read .strict conditions)
  let actions ← Op.ofExcept (Action.readList .strict actions)
  let (stored, version) ← Op.transaction do
    let previous ← Op.query (·.select rulesTable (·.columnIs "name" name))
    let version ← Op.ofExcept (nextVersion previous)
    deactivateAll previous
    let id ← Op.freshId
    let metadata ← Op.ofExcept (metadata.orElse (.object [])).asObject
    let now ← Op.readClock
    let stored ← Op.change (Store.insert rulesTable [
      ("id", .uuid id), ("name", name), ("description", description), ("version", version),
      ("conditions", condition.toValue), ("actions", Action.listToValue actions),
      ("is_active", active), ("metadata", metadata), ("created_at", .instant now)])
    pure (stored, version)
  Op.log .info "rule_version_created"
    [("rule_id", .str (stored.get "id").plainText), ("name", name), ("version", version)]
  Op.ofExcept (Rule.ofRow stored)

/-- Set whether a rule is active. If it becomes active, the other versions of its name are
deactivated. -/
def setActive (row : Fields) (active : Value) : Op Rule := do
  let id ← Op.ofExcept (row.column "id")
  if active.truthy then
    let name ← Op.ofExcept (row.column "name")
    let others ← Op.query (·.select rulesTable fun r => do
      if ← r.columnIs "name" name then isActive r else pure false)
    others.forM fun other => do
      let otherId ← Op.ofExcept (other.column "id")
      unless ← Op.ofExcept (otherId.equalTo id) do
        discard <| Op.change (Store.update rulesTable otherId [("is_active", .bool false)])
  let updated ← Op.change (Store.update rulesTable id [("is_active", active)])
  Op.log .info "rule_activation_changed" [("rule_id", .str id.plainText), ("is_active", active)]
  Op.ofExcept (Rule.ofRow updated)

/-- What is to be changed of a rule; nothing or null leaves a part as it is. -/
structure Changes where
  /-- The new name. -/
  name : Value := .null
  /-- The new condition, in its written form. -/
  conditions : Option Value := none
  /-- The new actions, in their written form. -/
  actions : Option Value := none
  /-- The new further particulars. -/
  metadata : Value := .null
  /-- The new description. -/
  description : Value := .null
  /-- Whether the rule is to be active. -/
  active : Value := .null
  deriving Repr, Inhabited

/-- More is to be changed than whether the rule is active. -/
def Changes.concernContent (c : Changes) : Bool :=
  !c.name.isNull || !c.description.isNull || !c.metadata.isNull || c.conditions.isSome ||
    c.actions.isSome

/-- The value, or the stored one in its place if it is null. -/
def given (v : Value) (row : Fields) (column : String) : Except Failure Value :=
  if v.isNull then row.column column else .ok v

/-- Apply changes to a rule. A change of whether it is active alone is made in place; any other makes
a new version, which takes over what is not changed. -/
def update (id : Value) (changes : Changes) : Op Rule :=
  Op.transaction do
    let current ← row id
    if changes.concernContent then
      let name ← if changes.name.truthy then pure changes.name
        else Op.ofExcept (current.column "name")
      let conditions ← match changes.conditions with
        | some v => pure v
        | none => Op.ofExcept (current.column "conditions")
      let actions ← match changes.actions with
        | some v => pure v
        | none => Op.ofExcept (current.column "actions")
      let metadata ← Op.ofExcept (given changes.metadata current "metadata")
      let description ← Op.ofExcept (given changes.description current "description")
      let active := if changes.active.isNull then .bool true else changes.active
      create name conditions actions metadata description active
    else if changes.active.isNull then Op.ofExcept (Rule.ofRow current)
    else setActive current changes.active

/-- Deactivate a rule. -/
def deactivate (id : Value) : Op Rule :=
  Op.transaction do setActive (← row id) (.bool false)

end RewardLedger.RuleBook
