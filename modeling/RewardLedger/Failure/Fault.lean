import RewardLedger.Status
import RewardLedger.Value.Text

/-!
# Faults of the domain

A fault is a refusal that a caller can understand: the input is wrong, an identifier does not resolve,
or the request collides with what is stored. Each fault has a kind, whose name callers see, and a
message that says what was refused. A fault is one of the causes below or one that a handler of
actions reports in its own words.
-/

namespace RewardLedger

/-- The families that tell a caller whether a retry is safe. -/
inductive Family where
  /-- The input is wrong. -/
  | validation
  /-- An identifier does not resolve. -/
  | notFound
  /-- The request collides with what is stored. -/
  | conflict
  deriving DecidableEq, Repr

/-- The kinds of faults; the first four are the general ones. -/
inductive FaultKind where
  /-- A fault of no family. -/
  | general
  /-- A validation fault of no special kind. -/
  | validation
  /-- A missing thing of no special kind. -/
  | notFound
  /-- A conflict of no special kind. -/
  | conflict
  /-- An amount is no positive number within the precision. -/
  | invalidAmount
  /-- Both parties of a referral are the same user. -/
  | selfReferral
  /-- A rule is malformed. -/
  | malformedRule
  /-- A user does not exist. -/
  | userNotFound
  /-- A reward does not exist. -/
  | rewardNotFound
  /-- A ledger entry does not exist. -/
  | entryNotFound
  /-- A rule does not exist. -/
  | ruleNotFound
  /-- A reward has no credit entry. -/
  | noCreditEntry
  /-- An idempotency key was used for a different request. -/
  | idempotencyConflict
  /-- A ledger entry is void already. -/
  | alreadyVoid
  /-- A ledger entry has been reversed already. -/
  | alreadyReversed
  /-- An email is taken. -/
  | emailAlreadyExists
  /-- A ledger entry belongs to a reward. -/
  | rewardOwnedEntry
  /-- A reward cannot move to the requested state. -/
  | invalidTransition
  /-- A unique constraint would be violated. -/
  | uniqueViolation
  deriving DecidableEq, Repr

namespace FaultKind

/-- The kinds of faults. -/
def all : List FaultKind :=
  [general, validation, notFound, conflict, invalidAmount, selfReferral, malformedRule, userNotFound,
   rewardNotFound, entryNotFound, ruleNotFound, noCreditEntry, idempotencyConflict, alreadyVoid,
   alreadyReversed, emailAlreadyExists, rewardOwnedEntry, invalidTransition, uniqueViolation]

/-- The name of a kind of faults. -/
def name : FaultKind → String
  | general => "CoreError"
  | validation => "ValidationError"
  | notFound => "NotFoundError"
  | conflict => "ConflictError"
  | invalidAmount => "InvalidAmount"
  | selfReferral => "SelfReferral"
  | malformedRule => "MalformedRule"
  | userNotFound => "UserNotFound"
  | rewardNotFound => "RewardNotFound"
  | entryNotFound => "EntryNotFound"
  | ruleNotFound => "RuleNotFound"
  | noCreditEntry => "NoCreditEntry"
  | idempotencyConflict => "IdempotencyConflict"
  | alreadyVoid => "AlreadyVoid"
  | alreadyReversed => "AlreadyReversed"
  | emailAlreadyExists => "EmailAlreadyExists"
  | rewardOwnedEntry => "RewardOwnedEntry"
  | invalidTransition => "InvalidTransition"
  | uniqueViolation => "UniqueViolation"

/-- The kind of a name. -/
def ofName? (name : String) : Option FaultKind := all.find? (·.name = name)

/-- The family of a kind. -/
def family? : FaultKind → Option Family
  | general => none
  | validation | invalidAmount | selfReferral | malformedRule => some .validation
  | notFound | userNotFound | rewardNotFound | entryNotFound | ruleNotFound | noCreditEntry =>
    some .notFound
  | conflict | idempotencyConflict | alreadyVoid | alreadyReversed | emailAlreadyExists
  | rewardOwnedEntry | invalidTransition | uniqueViolation => some .conflict

/-- A kind is found by its name. -/
theorem ofName?_name (k : FaultKind) : ofName? k.name = some k := by cases k <;> decide

end FaultKind

/-- Why a rule is malformed. -/
inductive RuleFault where
  /-- The name is no text with a character that is not blank. -/
  | name
  /-- A condition is a value of this kind instead of an object. -/
  | conditionKind (kind : String)
  /-- An object with these field names is no condition. -/
  | conditionShape (names : List String)
  /-- The operator of a group is neither of the two. -/
  | connective (given : Value)
  /-- The operands of a group are no list. -/
  | operandsKind
  /-- A group with this operator has no operands. -/
  | noOperands (symbol : String)
  /-- The field of a condition is no text, or empty. -/
  | fieldPath
  /-- The operator of a condition is unknown. -/
  | operator (given : Value)
  /-- The operator needs a list of primitive values. -/
  | needsList (symbol : String)
  /-- The operator needs a primitive value and got one of this kind. -/
  | needsPrimitive (symbol kind : String)
  /-- An action is a value of this kind instead of an object. -/
  | actionKind (kind : String)
  /-- The parameters of an action are no object. -/
  | paramsKind
  /-- The type of an action is unknown. -/
  | actionType (given : Value)
  /-- The actions are no list. -/
  | actionsKind
  /-- The list of actions is empty. -/
  | noActions
  deriving Repr

/-- The message of a malformed rule. -/
def RuleFault.message : RuleFault → String
  | name => "Rule name must be a non-empty string"
  | conditionKind kind => "Condition must be an object, got " ++ kind
  | conditionShape names => "Unrecognised condition node: " ++ quotedList names
  | connective given => "Unknown logical operator: " ++ given.literalText
  | operandsKind => "Condition group operands must be a list"
  | noOperands symbol => symbol ++ " group needs at least one operand"
  | fieldPath => "Condition field must be a non-empty dot path"
  | operator given => "Unknown condition operator: " ++ given.literalText
  | needsList symbol => "Operator " ++ Text.quote symbol ++ " needs a list of primitive values"
  | needsPrimitive symbol kind =>
    "Operator " ++ Text.quote symbol ++ " needs a primitive value, got " ++ kind
  | actionKind kind => "Action must be an object, got " ++ kind
  | paramsKind => "Action params must be an object"
  | actionType given => "Unknown action type: " ++ given.literalText
  | actionsKind => "Actions must be a list"
  | noActions => "A rule needs at least one action"

/-- The cause of a refusal. -/
inductive Fault where
  /-- The amount is of a kind that amounts cannot have. -/
  | amountKind (given : Value)
  /-- The amount is no finite number. -/
  | amountFormat (given : Value)
  /-- The amount does not fit the precision. -/
  | amountRange (amount : Decimal)
  /-- The amount is not greater than zero. -/
  | amountNotPositive
  /-- Both parties of a referral are the same user. -/
  | selfReferral
  /-- The rule is malformed. -/
  | malformedRule (fault : RuleFault)
  /-- The page limit is not between 1 and this number. -/
  | pageLimit (greatest : Int)
  /-- The metadata of a reward is no object. -/
  | metadataKind
  /-- The metadata of a reward has no JSON form. -/
  | metadataNotJson
  /-- An action that creates a reward names no amount. -/
  | amountMissing
  /-- No user has the identifier. -/
  | userNotFound (id : Value)
  /-- No user has the email. -/
  | emailNotFound (email : String)
  /-- No user has the identifier of a party in this role. -/
  | partyNotFound (role : String) (id : Value)
  /-- No reward has the identifier. -/
  | rewardNotFound (id : Value)
  /-- No ledger entry has the identifier. -/
  | entryNotFound (id : Value)
  /-- No rule has the identifier. -/
  | ruleNotFound (id : Value)
  /-- The reward has no credit entry. -/
  | noCreditEntry (reward : Value)
  /-- The idempotency key was used for a different request. -/
  | idempotencyConflict
  /-- The ledger entry is void already. -/
  | alreadyVoid (entry : Value)
  /-- The ledger entry has been reversed already. -/
  | alreadyReversed (entry : Value)
  /-- The email is taken. -/
  | emailTaken (email : String)
  /-- The ledger entry belongs to the reward. -/
  | rewardOwnedEntry (entry : Value) (reward : Uuid)
  /-- The reward cannot move from its state to the requested one. -/
  | invalidTransition (current target : RewardStatus)
  /-- What a handler of actions reported. -/
  | reported (kind : FaultKind) (message : String)
  deriving Repr

namespace Fault

/-- The kind of a fault. -/
def kind : Fault → FaultKind
  | amountKind _ | amountFormat _ | amountRange _ | amountNotPositive => .invalidAmount
  | selfReferral => .selfReferral
  | malformedRule _ => .malformedRule
  | pageLimit _ | metadataKind | metadataNotJson | amountMissing => .validation
  | userNotFound _ | emailNotFound _ | partyNotFound .. => .userNotFound
  | rewardNotFound _ => .rewardNotFound
  | entryNotFound _ => .entryNotFound
  | ruleNotFound _ => .ruleNotFound
  | noCreditEntry _ => .noCreditEntry
  | idempotencyConflict => .idempotencyConflict
  | alreadyVoid _ => .alreadyVoid
  | alreadyReversed _ => .alreadyReversed
  | emailTaken _ => .emailAlreadyExists
  | rewardOwnedEntry .. => .rewardOwnedEntry
  | invalidTransition .. => .invalidTransition
  | reported kind _ => kind

/-- The message of a fault. -/
def message : Fault → String
  | amountKind given => "Amount must be a decimal string or integer, got " ++ given.literalText
  | amountFormat given => "Invalid amount format: " ++ given.literalText
  | amountRange amount => "Amount " ++ amount.text ++ " is out of range"
  | amountNotPositive => "Amount must be positive"
  | selfReferral => "Referrer and referred user cannot be the same"
  | malformedRule fault => fault.message
  | pageLimit greatest => "limit must be between 1 and " ++ String.ofList (intText greatest)
  | metadataKind => "Reward metadata must be an object"
  | metadataNotJson =>
    "Reward metadata is not JSON serializable: Unable to serialize unknown type: <class 'object'>"
  | amountMissing => "createReward action needs an amount"
  | userNotFound id => "User with ID " ++ id.plainText ++ " not found"
  | emailNotFound email => "User with email " ++ email ++ " not found"
  | partyNotFound role id => role ++ " with ID " ++ id.plainText ++ " not found"
  | rewardNotFound id => "Reward " ++ id.plainText ++ " not found"
  | entryNotFound id => "Ledger entry with ID " ++ id.plainText ++ " not found"
  | ruleNotFound id => "Rule with ID " ++ id.plainText ++ " not found"
  | noCreditEntry reward => "No credit entry found for reward " ++ reward.plainText
  | idempotencyConflict => "Idempotency key already used with different request data"
  | alreadyVoid entry => "Ledger entry " ++ entry.plainText ++ " is already void"
  | alreadyReversed entry => "Ledger entry " ++ entry.plainText ++ " has already been reversed"
  | emailTaken email => "User with email " ++ email ++ " already exists"
  | rewardOwnedEntry entry reward =>
    "Ledger entry " ++ entry.plainText ++ " belongs to reward " ++ reward.text ++
      "; reverse the reward instead"
  | invalidTransition current target =>
    let allowed := current.next.map RewardStatus.name
    "Invalid status transition from " ++ current.name ++ " to " ++ target.name ++
      ". Allowed transitions: " ++
      (if allowed.isEmpty then "none" else String.intercalate ", " allowed)
  | reported _ message => message

end Fault

end RewardLedger
