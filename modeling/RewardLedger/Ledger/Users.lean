import RewardLedger.Ledger.Records
import RewardLedger.Tables
import RewardLedger.Text.LowerCase
import RewardLedger.World

/-!
# Users

Users are added under an email that no other user has, and found by identifier or email, whatever the
case of its letters. They are never removed, and only their name changes.

Arguments come unchecked, as values of any kind. A row is stored before its columns are checked, so a
name of the wrong kind is a failure that leaves the row behind.
-/

namespace RewardLedger.Users

/-- The email without blanks at its ends and in lower case; only a text has such a form. -/
def normalEmail : Value → Except Failure Value
  | .str s => .ok (.str (String.ofList (Text.lowerCase (Text.trim s.toList))))
  | _ => .error .noPart

/-- Add a user. -/
def create (email : Value) (name : Value := .null) : Op User := do
  let normal ← Op.ofExcept (normalEmail email)
  let id ← Op.freshId
  let now ← Op.readClock
  let stored ← Op.onDuplicate
    (Op.change (Store.insert usersTable [
      ("id", .uuid id), ("email", normal), ("name", name), ("created_at", .instant now)]))
    (Op.refuse (.emailTaken normal.plainText))
  Op.log .info "user_created" [("user_id", .str (stored.get "id").plainText)]
  Op.ofExcept (User.ofRow stored).toExcept

/-- The user with the identifier. -/
def get (id : Value) : Op User := do
  match ← Op.query (·.get usersTable id) with
  | some row => Op.ofExcept (User.ofRow row).toExcept
  | none => Op.refuse (.userNotFound id)

/-- The user with the email. -/
def getByEmail (email : Value) : Op User := do
  let normal ← Op.ofExcept (normalEmail email)
  match ← Op.query (·.findUnique usersTable "email" [normal]) with
  | some row => Op.ofExcept (User.ofRow row).toExcept
  | none => Op.refuse (.emailNotFound email.plainText)

/-- There is a user with the identifier. -/
def has (id : Value) : Op Bool := do return (← Op.query (·.get usersTable id)).isSome

/-- Give a user another name. -/
def rename (id name : Value) : Op User :=
  Op.transaction do
    discard <| get id
    let row ← Op.change (Store.update usersTable id [("name", name)])
    Op.ofExcept (User.ofRow row).toExcept

/-- All users, the last one first. -/
def all : Op (List User) := do
  let rows ← Op.query (·.all usersTable)
  Op.ofExcept (rows.reverse.mapM fun row => (User.ofRow row).toExcept)

end RewardLedger.Users
