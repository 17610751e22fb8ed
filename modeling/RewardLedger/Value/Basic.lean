import RewardLedger.Instant.Text
import RewardLedger.Number.Order
import RewardLedger.Uuid

/-!
# Values

Columns of rows, events, metadata and the parts of a rule hold values of many kinds, and which kinds
occur is not known in advance. `Value` is their common type. An object is a list of named fields;
the functions on `Fields` look at the first field of a name, and writing a field keeps its place. An
object whose keys are not all texts is a list of entries.
-/

namespace RewardLedger

/-- A value of any kind that a row, an event or a rule can hold. -/
inductive Value where
  /-- The absent value. -/
  | null
  /-- A truth value. -/
  | bool (b : Bool)
  /-- A whole number of any size. -/
  | int (i : Int)
  /-- A binary floating point number. -/
  | float (x : Binary64)
  /-- A decimal number. -/
  | decimal (d : Decimal)
  /-- A text. -/
  | str (s : String)
  /-- An identifier. -/
  | uuid (u : Uuid)
  /-- A point in time. -/
  | instant (t : Instant)
  /-- A list. -/
  | list (items : List Value)
  /-- A fixed sequence, which unlike a list can be part of a key. -/
  | tuple (items : List Value)
  /-- An object with named fields. -/
  | object (fields : List (String × Value))
  /-- An object of which at least one key is no text. -/
  | map (entries : List (Value × Value))
  /-- A thing of the surroundings that has no written form. -/
  | opaqueThing
  deriving Repr, Inhabited

/-- The named fields of an object or the columns of a row. -/
abbrev Fields := List (String × Value)

namespace Fields

/-- The value of the first field of that name. -/
def find? : Fields → String → Option Value
  | [], _ => none
  | (k, v) :: rest, name => if k = name then some v else find? rest name

/-- The value of a field, an absent field counting as null. -/
def get (fs : Fields) (name : String) : Value := (find? fs name).getD .null

/-- There is a field of that name. -/
def has (fs : Fields) (name : String) : Bool := (find? fs name).isSome

/-- Set a field: in its place if there is one of the name, otherwise at the end. -/
def put : Fields → String → Value → Fields
  | [], name, v => [(name, v)]
  | (k, w) :: rest, name, v => if k = name then (k, v) :: rest else (k, w) :: put rest name v

/-- Set several fields, one after the other. -/
def putAll (fs changes : Fields) : Fields := changes.foldl (fun acc c => put acc c.1 c.2) fs

/-- The names of the fields. -/
def names (fs : Fields) : List String := fs.map Prod.fst

/-- Reading the field that was set gives the new value. -/
@[simp] theorem find?_put_self (fs : Fields) (name : String) (v : Value) :
    find? (put fs name v) name = some v := by
  induction fs with
  | nil => simp [put, find?]
  | cons f rest ih =>
    obtain ⟨k, w⟩ := f
    by_cases h : k = name <;> simp [put, find?, h, ih]

/-- Setting a field leaves the others alone. -/
theorem find?_put_of_ne (fs : Fields) {name other : String} (v : Value) (h : other ≠ name) :
    find? (put fs name v) other = find? fs other := by
  induction fs with
  | nil => simp [put, find?, Ne.symm h]
  | cons f rest ih =>
    obtain ⟨k, w⟩ := f
    by_cases hk : k = name
    · subst hk
      simp [put, find?, Ne.symm h]
    · rw [put, if_neg hk, find?, find?, ih]

/-- Reading the field that was set gives the new value. -/
@[simp] theorem get_put_self (fs : Fields) (name : String) (v : Value) :
    get (put fs name v) name = v := by simp [get]

/-- Setting a field leaves the others alone. -/
theorem get_put_of_ne (fs : Fields) {name other : String} (v : Value) (h : other ≠ name) :
    get (put fs name v) other = get fs other := by simp [get, find?_put_of_ne fs v h]

end Fields

namespace Value

/-- The value is null. -/
def isNull : Value → Bool
  | null => true
  | _ => false

/-- The number that the value is, a truth value counting as 0 or 1. -/
def number? : Value → Option Number
  | bool b => some (.int (if b then 1 else 0))
  | int i => some (.int i)
  | float x => some (.float x)
  | decimal d => some (.decimal d)
  | _ => none

/-- The whole number that the value is, a truth value counting as 0 or 1. -/
def whole? : Value → Option Int
  | bool b => some (if b then 1 else 0)
  | int i => some i
  | _ => none

/-- The value counts as true where a condition is expected: null, zero and everything empty do
not. -/
def truthy : Value → Bool
  | null => false
  | bool b => b
  | int i => i != 0
  | float x => !x.isZero
  | decimal d => !d.isZero
  | str s => s != ""
  | list items => !items.isEmpty
  | tuple items => !items.isEmpty
  | object fields => !fields.isEmpty
  | map entries => !entries.isEmpty
  | uuid _ => true
  | instant _ => true
  | opaqueThing => true

/-- The value itself if it counts as true, otherwise the other one. -/
def orElse (v fallback : Value) : Value := if v.truthy then v else fallback

/-- The name of the kind of a value, as messages give it. -/
def kindName : Value → String
  | null => "NoneType"
  | bool _ => "bool"
  | int _ => "int"
  | float _ => "float"
  | decimal _ => "Decimal"
  | str _ => "str"
  | uuid _ => "UUID"
  | instant _ => "datetime"
  | list _ => "list"
  | tuple _ => "tuple"
  | object _ => "dict"
  | map _ => "dict"
  | opaqueThing => "object"

/-- An optional identifier, null standing for none. -/
def ofUuid? (u : Option Uuid) : Value := (u.map uuid).getD null

/-- An optional text, null standing for none. -/
def ofText? (s : Option String) : Value := (s.map str).getD null

end Value

end RewardLedger
