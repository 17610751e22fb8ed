import RewardLedger.Ledger.Users
import RewardLedger.Rule.Book

/-!
# Demonstration data

Three users and a rule, for trying the program out. What is there already is left as it is.
-/

namespace RewardLedger.Seed

/-- The emails and names of the users. -/
def users : List (String × String) :=
  [("referrer@example.com", "John Referrer"), ("referred@example.com", "Jane Referred"),
   ("admin@example.com", "Admin")]

/-- The name of the rule. -/
def ruleName : Value := .str "Referral Reward Rule"

/-- The description of the rule. -/
def ruleDescription : Value :=
  .str "Award INR 500 voucher when referrer is paid and referred subscribes"

/-- A comparison of a field with a text. -/
def fieldIs (field value : String) : Value :=
  .object [("field", .str field), ("op", .str "="), ("value", .str value)]

/-- The condition of the rule. -/
def conditions : Value :=
  .object [("operator", .str "AND"), ("operands", .list [
    fieldIs "referrer.status" "PAID", fieldIs "referred.action" "SUBSCRIBED"])]

/-- The actions of the rule. -/
def actions : Value :=
  .list [
    .object [("type", .str "createReward"), ("params", .object [
      ("amount", .int 500), ("currency", .str "INR"), ("type", .str "referral_bonus")])],
    .object [("type", .str "issueVoucher"), ("params", .object [
      ("code", .str "REFERRAL500"), ("value", .int 500), ("currency", .str "INR"),
      ("validDays", .int 30)])]]

/-- Further particulars of the rule. -/
def metadata : Value := .object [("category", .str "referral"), ("priority", .str "high")]

/-- The user with the email, who is added if there is none. -/
def user (email name : String) : Op User :=
  tryCatch (Users.getByEmail (.str email)) fun e =>
    if e.faultKind? = some .userNotFound then Users.create (.str email) (.str name) else throw e

/-- The latest version of the rule, which is made if there is none. -/
def rule : Op Rule := do
  match ← RuleBook.latest? ruleName with
  | some rule => pure rule
  | none => RuleBook.create ruleName conditions actions metadata ruleDescription

/-- Add the users and the rule where they are missing. -/
def run : Op (List User × Rule) := do
  let users ← users.mapM fun u => user u.1 u.2
  let rule ← rule
  Op.log .info "demo_data_seeded"
    [("users", .int users.length), ("rule_id", .str rule.id.plainText)]
  pure (users, rule)

end RewardLedger.Seed
