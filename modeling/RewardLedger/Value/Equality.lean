import RewardLedger.Value.Basic

/-!
# Equality of values, and keys

Numbers of all kinds and truth values are equal if they have the same value; other values are equal
if they are of the same kind and have equal parts, objects regardless of the order of their fields.
Comparing a signaling not-a-number with a number is an invalid operation, so equality may have no
answer (`Value.equals`).

Keys of tables and indexes are compared by the same equality (`Value.sameKey`). Lists, objects and
signaling not-a-numbers cannot be keys.
-/

namespace RewardLedger

namespace Value

/-- Equality of two values of which at most one is a list, sequence or object; nothing if it is an
invalid operation. -/
def scalarEquals (a b : Value) : Option Bool :=
  match a.number?, b.number? with
  | some x, some y => if x.equalityInvalid y then none else some (x.sameValue y)
  | none, none =>
    match a, b with
    | null, null => some true
    | str s, str t => some (s == t)
    | uuid u, uuid v => some (u == v)
    | instant s, instant t => some (s.sameTime t)
    | _, _ => some false
  | _, _ => some false

mutual

/-- Equality of two values; nothing if comparing them is an invalid operation. -/
def equals : Value → Value → Option Bool
  | list xs, list ys => if xs.length = ys.length then itemsEqual xs ys else some false
  | tuple xs, tuple ys => if xs.length = ys.length then itemsEqual xs ys else some false
  | object fs, object gs => if fs.length = gs.length then fieldsEqual fs gs else some false
  | map es, map fs => if es.length = fs.length then entriesEqual es fs else some false
  | a, b => scalarEquals a b

/-- Equality of the items of two lists of the same length, up to the first difference. -/
def itemsEqual : List Value → List Value → Option Bool
  | x :: xs, y :: ys => do if ← x.equals y then itemsEqual xs ys else some false
  | _, _ => some true

/-- Every field of the first object has an equal one in the second, up to the first that has not. -/
def fieldsEqual : List (String × Value) → List (String × Value) → Option Bool
  | [], _ => some true
  | (k, v) :: rest, gs =>
    match Fields.find? gs k with
    | none => some false
    | some w => do if ← v.equals w then fieldsEqual rest gs else some false

/-- Every entry of the first object has one with an equal key and an equal value in the second, up
to the first that has not. -/
def entriesEqual : List (Value × Value) → List (Value × Value) → Option Bool
  | [], _ => some true
  | (k, v) :: rest, fs =>
    match fs.find? fun f => k.equals f.1 == some true with
    | none => some false
    | some f => do if ← v.equals f.2 then entriesEqual rest fs else some false

end

mutual

/-- The value is a not-a-number or a sequence that holds one; it equals nothing. -/
def isUnordered : Value → Bool
  | tuple items => anyUnordered items
  | v => v.number?.any fun n => n.extent?.isNone

/-- Some value of a list is or holds a not-a-number. -/
def anyUnordered : List Value → Bool
  | [] => false
  | v :: rest => v.isUnordered || anyUnordered rest

end

mutual

/-- The value is a thing of the surroundings or a sequence that holds one; no copy is equal to it. -/
def holdsOpaque : Value → Bool
  | opaqueThing => true
  | tuple items => anyHoldsOpaque items
  | _ => false

/-- Some value of a list is or holds a thing of the surroundings. -/
def anyHoldsOpaque : List Value → Bool
  | [] => false
  | v :: rest => v.holdsOpaque || anyHoldsOpaque rest

end

/-- The two values are the same key. -/
def sameKey (a b : Value) : Bool := a.equals b == some true

mutual

/-- The value can be a key. -/
def hashable : Value → Bool
  | list _ => false
  | object _ => false
  | map _ => false
  | tuple items => allHashable items
  | decimal d => !d.isSignaling
  | _ => true

/-- All values of a list can be keys. -/
def allHashable : List Value → Bool
  | [] => true
  | v :: rest => v.hashable && allHashable rest

end

/-- Two lists of values are the same composite key. -/
def sameKeys : List Value → List Value → Bool
  | [], [] => true
  | a :: as, b :: bs => a.sameKey b && sameKeys as bs
  | _, _ => false

/-- A list of values can be a composite key if each of them can. -/
theorem allHashable_iff {vs : List Value} :
    allHashable vs = true ↔ ∀ v ∈ vs, v.hashable = true := by
  induction vs with
  | nil => simp [allHashable]
  | cons v rest ih => simp [allHashable, ih]

/-- Texts are the same key if they are the same text. -/
theorem sameKey_str (s t : String) : (str s).sameKey (str t) = (s == t) := by
  cases h : s == t <;> simp [sameKey, equals, scalarEquals, number?, h]

/-- Identifiers are the same key if they are the same identifier. -/
theorem sameKey_uuid (u v : Uuid) : (uuid u).sameKey (uuid v) = (u == v) := by
  cases h : u == v <;> simp [sameKey, equals, scalarEquals, number?, h]

end Value

end RewardLedger
