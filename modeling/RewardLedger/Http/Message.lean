import RewardLedger.Http.Query
import RewardLedger.Text.Blank
import RewardLedger.Text.Encoding
import RewardLedger.Text.LowerCase
import RewardLedger.Value.Json
import RewardLedger.Value.JsonText

/-!
# Requests and replies

What the program exchanges with its callers. A request may come with a body, which is read as JSON if
its content type says so. A reply is a value with a status, a list of what is wrong with the request,
a pointer to another path, or the report of a failure that no caller can do anything about.
-/

namespace RewardLedger.Http

/-! ## Requests -/

/-- The body of a request. -/
structure Body where
  /-- The content type, with its parameters. -/
  contentType : String
  /-- The text. -/
  text : String
  deriving DecidableEq, Repr, Inhabited

namespace Body

/-- The type and the subtype that a content type names, in lower case; plain text if it names
none. -/
def mediaType (contentType : String) : String × String :=
  let named := (contentType.toList.takeWhile (· != ';'))
  let parts := ((Text.lowerCase (Text.trim named)).splitOn '/').map String.ofList
  match parts with
  | [type, subtype] => (type, subtype)
  | _ => ("text", "plain")

/-- The content type says that the body is JSON. -/
def isJson (contentType : String) : Bool :=
  match mediaType contentType with
  | ("application", subtype) => subtype == "json" || subtype.endsWith "+json"
  | _ => false

/-- Why the body of a request cannot be read. -/
inductive Fault where
  /-- The body is no JSON from this character on. -/
  | notJson (position : Nat)
  /-- The body does not get as far as being JSON or not. -/
  | unreadable
  deriving DecidableEq, Repr

/-- The text without the byte order mark that may stand at its start. -/
def withoutMark : List Char → List Char
  | '\uFEFF' :: rest => rest
  | cs => cs

/-- The characters of the text in the encoding that its octets seem to be in. -/
def characters? (text : String) : Option (List Char) :=
  let octets := Utf8.encode text.toList
  match Text.Encoding.ofOctets octets with
  | .utf8 => some (withoutMark text.toList)
  | encoding => encoding.decode? octets

/-- Read a text as JSON. -/
def readJson (text : String) : Except Fault Value :=
  match (characters? text).map JsonText.read with
  | some (.ok v) => .ok v
  | some (.error (.invalid position)) => .error (.notJson position)
  | some (.error .numberTooLong) | some (.error .tooDeep) | none => .error .unreadable

/-- The value of a body: nothing if it is empty, and an opaque thing if it is not JSON by its content
type. -/
def read (b : Body) : Except Fault (Option Value) :=
  if b.text = "" then .ok none
  else if isJson b.contentType then some <$> readJson b.text
  else .ok (some .opaqueThing)

end Body

/-- A request. -/
structure Request where
  /-- The method, in capital letters. -/
  method : String
  /-- The path, decoded. -/
  path : String
  /-- The query string. -/
  query : String := ""
  /-- The body, if there is one. -/
  body : Option Body := none
  deriving Repr, Inhabited

/-! ## Replies -/

/-- A reply. -/
inductive Reply where
  /-- A value in JSON. -/
  | json (status : Nat) (body : Value)
  /-- The request is invalid. -/
  | invalid (issues : List Issue)
  /-- The path should be asked for without the slashes at its end. -/
  | redirect
  /-- The request could not be answered. -/
  | crash (cause : Failure)
  deriving Repr

/-- The part of a value that a path leads to, as far as it leads. -/
def reached : List PathStep → Value → Value
  | .field name :: path, .object fields =>
    match fields.find? fun f => f.1 = name with
    | some f => reached path f.2
    | none => .object fields
  | .index place :: path, .list items =>
    match items[place]? with
    | some v => reached path v
    | none => .list items
  | _, v => v

/-- What the reply to an invalid request shows of the body because of an issue. -/
def shownPart? (body : Value) (i : Issue) : Option Value :=
  match i.path with
  | .field "body" :: path => some (reached path body)
  | _ => none

/-- The reply to an invalid request. It would show what is wrong with the body, and so cannot be sent
if that holds a number that is not finite or a lone half of a surrogate pair. -/
def Reply.ofIssues (body : Value) (issues : List Issue) : Reply :=
  let shown := issues.filterMap (shownPart? body)
  if shown.any Value.holdsNonFinite then .crash .notJsonNumber
  else if shown.any fun v => v.halvedText?.isSome then .crash .notUnicode
  else .invalid issues

/-- A reply that only says what is the matter. -/
def Reply.detail (status : Nat) (text : String) : Reply :=
  .json status (.object [("detail", .str text)])

/-- The status with which a kind of faults is reported. -/
def faultStatus (kind : FaultKind) : Nat :=
  match kind.family? with
  | some .notFound => 404
  | some .conflict => 409
  | some .validation => 400
  | none => 500

/-- The reply to a request that failed. -/
def Reply.ofFailure (e : Failure) : Reply :=
  match e.faultKind?, e.message? with
  | some kind, some message =>
    if Text.holdsHalf message then .crash .notUnicode
    else .json (faultStatus kind) (.object [("detail", .str message), ("error", .str kind.name)])
  | _, _ => .crash e

end RewardLedger.Http
