import RewardLedger.Schema.Kinds
import RewardLedger.Text.Blank

/-!
# Forms

What the bodies of requests must contain. Fields that a form does not know are ignored. A form is
read completely, so that everything that is wrong with it is told at once.
-/

namespace RewardLedger.Http

/-! ## Emails -/

/-- The character can be part of an email on either side of the `@`. -/
def isEmailChar (c : Char) : Bool := c != '@' && !Text.isWhite c

/-- The characters have a point among them that is neither the first nor the last. -/
def hasInnerPoint (cs : List Char) : Bool := ((cs.drop 1).dropLast).contains '.'

/-- The text has the form of an email: something, an `@`, and something with a point inside. -/
def isEmail (s : String) : Bool :=
  let user := s.toList.takeWhile isEmailChar
  match s.toList.dropWhile isEmailChar with
  | '@' :: domain => !user.isEmpty && domain.all isEmailChar && hasInnerPoint domain
  | _ => false

/-- A text that has the form of an email. -/
def emailCheck : Check String := fun v =>
  (Check.textOf 3 255 v).andThen fun s => if isEmail s then .valid s else .wrong .textMismatch

/-! ## Users -/

/-- A user to be added. -/
structure NewUser where
  /-- The email. -/
  email : String
  /-- The name. -/
  name : Option String
  deriving DecidableEq, Repr, Inhabited

/-- Read a user to be added. -/
def NewUser.read (fs : Fields) : Checked NewUser :=
  NewUser.mk <$> fs.required "email" emailCheck
    <*> fs.defaulting "name" none (Check.optional (Check.textOf 1 255))

/-- Read the new name of a user. -/
def readNewName (fs : Fields) : Checked String := fs.required "name" (Check.textOf 1 255)

/-! ## Rewards -/

/-- A reward to be credited. -/
structure NewReward where
  /-- The key of the request. -/
  key : String
  /-- The user to be rewarded. -/
  referrer : Uuid
  /-- The user who was referred. -/
  referred : Uuid
  /-- The amount. -/
  amount : Decimal
  /-- The currency. -/
  currency : Option String
  /-- Further particulars. -/
  metadata : Fields
  deriving Repr, Inhabited

/-- Read a reward to be credited. -/
def NewReward.read (fs : Fields) : Checked NewReward :=
  NewReward.mk <$> fs.required "idempotency_key" (Check.textOf 1 255)
    <*> fs.required "referrer_id" Check.uuid
    <*> fs.required "referred_id" Check.uuid
    <*> fs.required "amount" Check.decimal
    <*> fs.defaulting "currency" none (Check.optional Check.text)
    <*> fs.defaulting "metadata" [] Check.object

/-- Read the reason for which something is to be taken back. -/
def readReason (fs : Fields) : Checked (Option String) :=
  fs.defaulting "reason" none (Check.optional (Check.textOf 1 500))

/-! ## Rules -/

/-- A rule to be made. -/
structure NewRule where
  /-- The name. -/
  name : String
  /-- The description. -/
  description : Option String
  /-- The condition, in its written form. -/
  conditions : Fields
  /-- The actions, in their written form. -/
  actions : List Fields
  /-- Further particulars. -/
  metadata : Fields
  /-- The version is to be active. -/
  active : Bool
  deriving Repr, Inhabited

/-- A description. -/
def descriptionCheck : Check (Option String) := Check.optional (Check.textOf 0 1000)

/-- Read a rule to be made. -/
def NewRule.read (fs : Fields) : Checked NewRule :=
  NewRule.mk <$> fs.required "name" (Check.textOf 1 255)
    <*> fs.defaulting "description" none descriptionCheck
    <*> fs.required "conditions" Check.object
    <*> fs.required "actions" (Check.objects 1)
    <*> fs.defaulting "metadata" [] Check.object
    <*> fs.defaulting "is_active" true Check.bool

/-- What is to be changed of a rule. -/
structure RuleChange where
  /-- The new name. -/
  name : Option String
  /-- The new description. -/
  description : Option String
  /-- The new condition, in its written form. -/
  conditions : Option Fields
  /-- The new actions, in their written form. -/
  actions : Option (List Fields)
  /-- The new further particulars. -/
  metadata : Option Fields
  /-- Whether the rule is to be active. -/
  active : Option Bool
  deriving Repr, Inhabited

/-- Read what is to be changed of a rule. -/
def RuleChange.read (fs : Fields) : Checked RuleChange :=
  RuleChange.mk <$> fs.defaulting "name" none (Check.optional (Check.textOf 1 255))
    <*> fs.defaulting "description" none descriptionCheck
    <*> fs.defaulting "conditions" none (Check.optional Check.object)
    <*> fs.defaulting "actions" none (Check.optional (Check.objects 0))
    <*> fs.defaulting "metadata" none (Check.optional Check.object)
    <*> fs.defaulting "is_active" none (Check.optional Check.bool)

/-! ## Events -/

/-- Read an event. -/
def readEvent (fs : Fields) : Checked Fields := fs.required "event" Check.object

/-- An event whose actions are to be carried out. -/
structure Occurrence where
  /-- The event. -/
  event : Fields
  /-- The identifier of the event. -/
  eventId : String
  /-- The user who referred another one. -/
  referrer : Uuid
  /-- The user who was referred. -/
  referred : Uuid
  deriving Repr, Inhabited

/-- Read an event whose actions are to be carried out. -/
def Occurrence.read (fs : Fields) : Checked Occurrence :=
  Occurrence.mk <$> readEvent fs
    <*> fs.required "event_id" (Check.textOf 1 255)
    <*> fs.required "referrer_id" Check.uuid
    <*> fs.required "referred_id" Check.uuid

/-- A text without an `@` is no email. -/
theorem isEmail_of_notMem {s : String} (h : '@' ∉ s.toList) : isEmail s = false := by
  simp only [isEmail]
  split
  · next domain he =>
    exact absurd ((List.dropWhile_sublist _).subset (he ▸ List.mem_cons_self)) h
  · rfl

end RewardLedger.Http
