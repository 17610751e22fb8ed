import RewardLedger.Http.Message
import RewardLedger.Schema.Kinds
import RewardLedger.World

/-!
# Routes

A route answers the requests with one method whose paths have one form. The parts of the path that
the form leaves open, the parameters of the query and the body are the arguments of the route, which
it checks in this order; only if all of them are in order there is an operation to perform.
-/

namespace RewardLedger.Http

/-! ## Paths -/

/-- A part of the form of a path. -/
inductive Segment where
  /-- Exactly this text. -/
  | fixed (text : String)
  /-- Any text that is not empty; it is an argument. -/
  | any
  deriving DecidableEq, Repr

namespace Segment

/-- The segment at the end of a path may be followed by a line break. -/
def isLast (text given : String) : Bool := given == text || given == text ++ "\n"

/-- The arguments that the parts of a path give if they have the form. -/
def arguments? : List Segment → List String → Option (List String)
  | [], [] => some []
  | [.fixed text], [given] => if isLast text given then some [] else none
  | .fixed text :: form, given :: parts => if given = text then arguments? form parts else none
  | .any :: form, given :: parts =>
    if given = "" then none else (arguments? form parts).map (given :: ·)
  | _, _ => none

end Segment

/-- The parts of a path, which starts with a slash. -/
def pathParts? (path : String) : Option (List String) :=
  match path.toList.splitOn '/' with
  | [] :: parts => some (parts.map String.ofList)
  | _ => none

/-- The arguments that a path gives if it has the form. -/
def Segment.ofPath? (form : List Segment) (path : String) : Option (List String) :=
  (pathParts? path).bind (Segment.arguments? form)

/-- The path has the form. -/
def Segment.fits (form : List Segment) (path : String) : Bool := (Segment.ofPath? form path).isSome

/-! ## Arguments -/

/-- What a route is given. -/
structure Arguments where
  /-- The open parts of the path. -/
  path : List String
  /-- The parameters of the query. -/
  query : Query
  /-- The value of the body, if there is a body. -/
  body : Option Value
  deriving Repr, Inhabited

namespace Arguments

/-- The identifier that the first open part of the path is. -/
def identifier (a : Arguments) (name : String) : Checked Uuid :=
  Checked.under (.field "path") <| Checked.under (.field name) <|
    Check.uuid (.str (a.path.headD ""))

/-- A parameter of the query with a result that stands in if it is not given. -/
def parameter {α : Type} (a : Arguments) (name : String) (fallback : α) (check : Check α) :
    Checked α :=
  match a.query.find? name with
  | some s => Checked.under (.field "query") (Checked.under (.field name) (check (.str s)))
  | none => .valid fallback

/-- The form that the body is. -/
def form {α : Type} (a : Arguments) (read : Fields → Checked α) : Checked α :=
  Checked.under (.field "body") <|
    match a.body with
    | some v => Check.partsOf read v
    | none => .wrong .missing

/-- The form that the body is, with a result that stands in if there is no body or it is null. -/
def formOr {α : Type} (a : Arguments) (fallback : α) (read : Fields → Checked α) : Checked α :=
  match a.body with
  | none | some .null => .valid fallback
  | some v => Checked.under (.field "body") (Check.partsOf read v)

end Arguments

/-! ## Routes -/

/-- A value to be sent, and its status. -/
structure Answer where
  /-- The status. -/
  status : Nat
  /-- The value. -/
  body : Value
  deriving Repr, Inhabited

/-- A route. -/
structure Route where
  /-- The method. -/
  method : String
  /-- The form of the paths. -/
  form : List Segment
  /-- The route reads the body. -/
  takesBody : Bool
  /-- What is to be done, if the arguments are in order. -/
  respond : Arguments → Checked (Op Answer)

/-- The arguments that a path gives the route, if it has its form. -/
def Route.pathArguments? (r : Route) (path : String) : Option (List String) :=
  Segment.ofPath? r.form path

/-- The path has the form of the route. -/
def Route.fits (r : Route) (path : String) : Bool := Segment.fits r.form path

/-- An open part takes what is given. -/
@[simp] theorem Segment.arguments?_any (form : List Segment) {given : String} (h : given ≠ "")
    (parts : List String) :
    arguments? (.any :: form) (given :: parts) = (arguments? form parts).map (given :: ·) := by
  simp [arguments?, h]

end RewardLedger.Http
