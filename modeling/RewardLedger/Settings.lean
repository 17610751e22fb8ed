import RewardLedger.Ledger.Config
import RewardLedger.Schema.Kinds
import RewardLedger.Text.LowerCase

/-!
# Settings

Settings are given by the caller, under the name of the environment variable or the name of the
field, or else by the environment. The case of names does not matter, but the exact name comes first.
Those that are not given have defaults.
-/

namespace RewardLedger

/-- What can be set. -/
structure Settings where
  /-- The environment in which the program runs. -/
  environment : String
  /-- How much is logged. -/
  logLevel : String
  /-- The currency of amounts that name none. -/
  currency : String
  /-- The number of places behind the point of amounts. -/
  moneyScale : Int
  /-- The greatest number of digits of amounts. -/
  moneyPrecision : Int
  /-- For how many hours recorded requests must be kept. -/
  retentionHours : Int
  /-- The number of entries of a page that names no limit. -/
  pageDefault : Int
  /-- The greatest number of entries of a page. -/
  pageMax : Int
  /-- Demonstration data are added at the start. -/
  seedDemoData : Bool
  deriving DecidableEq, Repr, Inhabited

namespace Settings

/-- Two names differ in the case of letters at most. -/
def sameName (name other : String) : Bool :=
  Text.lowerCase name.toList == Text.lowerCase other.toList

/-- The value given for a setting and the name that counts as its place: what the caller gives under
the exact name of the variable, else under that of the field, else under either in any case, and
failing these what the last matching variable of the environment holds. -/
def given? (values : Fields) (env : List (String × String)) (envName field : String) :
    Option (String × Value) :=
  let named (name : String) := (Fields.find? values name).map fun v => (name, v)
  (named envName).or <| (named field).or <|
    ((List.find? (fun (v : String × Value) => sameName v.1 envName || sameName v.1 field) values).map
      fun v => (envName, v.2)).or <|
    (env.reverse.find? fun v => sameName v.1 envName).map fun v => (envName, .str v.2)

/-- Check the value given for a setting, if one is given. -/
def setting {α : Type} (values : Fields) (env : List (String × String)) (envName field : String)
    (fallback : α) (check : Check α) : Checked α :=
  match given? values env envName field with
  | some (name, v) => Checked.under (.field name) (check v)
  | none => .valid fallback

/-- Read the settings. -/
def read (values : Fields) (env : List (String × String)) : Checked Settings :=
  Settings.mk
    <$> setting values env "APP_ENV" "app_env" "dev" Check.text
    <*> setting values env "LOG_LEVEL" "log_level" "INFO" Check.text
    <*> setting values env "DEFAULT_CURRENCY" "default_currency" "INR" Check.text
    <*> setting values env "MONEY_SCALE" "money_scale" 2 (Check.intBetween 0 8)
    <*> setting values env "MONEY_PRECISION" "money_precision" 28 (Check.intFrom 1)
    <*> setting values env "IDEMPOTENCY_TTL_HOURS" "idempotency_ttl_hours" 24 (Check.intFrom 1)
    <*> setting values env "LEDGER_PAGE_LIMIT_DEFAULT" "ledger_page_limit_default" 20
      (Check.intFrom 1)
    <*> setting values env "LEDGER_PAGE_LIMIT_MAX" "ledger_page_limit_max" 100 (Check.intFrom 1)
    <*> setting values env "SEED_DEMO_DATA" "seed_demo_data" false Check.bool

/-- The settings as an object. -/
def toValue (s : Settings) : Value :=
  .object [
    ("app_env", .str s.environment), ("log_level", .str s.logLevel),
    ("default_currency", .str s.currency), ("money_scale", .int s.moneyScale),
    ("money_precision", .int s.moneyPrecision),
    ("idempotency_ttl_hours", .int s.retentionHours),
    ("ledger_page_limit_default", .int s.pageDefault),
    ("ledger_page_limit_max", .int s.pageMax), ("seed_demo_data", .bool s.seedDemoData)]

/-- How amounts are kept. -/
def money (s : Settings) : Except Failure Money := 
  Money.make (some s.moneyScale) s.moneyPrecision .halfUp

/-- The greatest number of days that a span of time can have. -/
def longestSpan : Int := 999999999

/-- The microseconds of an hour. -/
def microsPerHour : Int := 3600000000

/-- How the ledger is kept with these settings. -/
def config (s : Settings) : Except Failure Config := do
  let money ← s.money
  if longestSpan < s.retentionHours / 24 then throw .outOfRange
  pure {
    money
    currency := s.currency
    pageMax := s.pageMax
    retention := s.retentionHours * microsPerHour }

end Settings

end RewardLedger
