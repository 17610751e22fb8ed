import RewardLedger.Failure.Basic
import RewardLedger.Value.Equality

/-!
# Values as objects

An object can be given as such or as a sequence of pairs of a key and a value. Anything that can be
gone through is a sequence: a text is one of characters, an object one of its keys.
-/

namespace RewardLedger.Value

/-- The items of a value that can be gone through. -/
def items? : Value → Option (List Value)
  | list vs => some vs
  | tuple vs => some vs
  | str s => some (s.toList.map fun c => str (String.singleton c))
  | object fields => some (fields.map fun f => str f.1)
  | map entries => some (entries.map Prod.fst)
  | _ => none

/-- Set the value of a key: in its place if there is an equal key, which stays, otherwise at the
end. -/
def putEntry : List (Value × Value) → Value → Value → List (Value × Value)
  | [], key, v => [(key, v)]
  | (k, w) :: rest, key, v =>
    if k.sameKey key then (k, v) :: rest else (k, w) :: putEntry rest key v

/-- The entries that pairs give, a later one of a key replacing an earlier one; `place` is that of
the first pair. -/
def entriesOfPairs : (place : Nat) → List Value → List (Value × Value) →
    Except Failure (List (Value × Value))
  | _, [], acc => .ok acc
  | place, pair :: rest, acc =>
    match pair.items? with
    | none => .error .wrongKind
    | some [k, v] =>
      if k.hashable then entriesOfPairs (place + 1) rest (putEntry acc k v)
      else .error .wrongKind
    | some parts => .error (.notPair place parts.length)

/-- An entry as a named field, if its key is a text. -/
def fieldOfEntry? : Value × Value → Option (String × Value)
  | (str name, v) => some (name, v)
  | _ => none

/-- The object with these entries. -/
def ofEntries (entries : List (Value × Value)) : Value :=
  match entries.mapM fieldOfEntry? with
  | some fields => object fields
  | none => map entries

/-- The object that a value is, or that it gives as a sequence of pairs. -/
def asObject : Value → Except Failure Value
  | object fields => .ok (object fields)
  | map entries => .ok (map entries)
  | v =>
    match v.items? with
    | some pairs => do return ofEntries (← entriesOfPairs 0 pairs [])
    | none => .error .wrongKind

/-- An object is itself. -/
@[simp] theorem asObject_object (fields : Fields) : asObject (object fields) = .ok (object fields) :=
  rfl

/-- What a value gives as an object is an object with fields, or else has entries, which it has or had
before. -/
theorem of_asObject {v m : Value} (h : v.asObject = .ok m) :
    (∃ fields, m = object fields) ∨ ∃ entries, m = map entries ∧ (v = m ∨ entries ≠ []) := by
  have hentries : ∀ {r : Except Failure (List (Value × Value))},
      (do return ofEntries (← r)) = .ok m →
        (∃ fields, m = object fields) ∨ ∃ entries, m = map entries ∧ (v = m ∨ entries ≠ []) := by
    intro r hr
    cases r with
    | error e => cases hr
    | ok entries =>
      cases hr
      show (∃ fields, ofEntries entries = object fields) ∨ _
      unfold ofEntries
      split
      · exact .inl ⟨_, rfl⟩
      -- no entries would be no fields
      · next hnone => exact .inr ⟨entries, rfl, .inr fun hnil => by rw [hnil] at hnone; cases hnone⟩
  cases v with
  | object fields =>
    cases h
    exact .inl ⟨fields, rfl⟩
  | map entries =>
    cases h
    exact .inr ⟨entries, rfl, .inl rfl⟩
  | list items | tuple items | str s => exact hentries h
  | _ => cases h

/-- An object that a value gives is an object. -/
theorem asObject_of_asObject {v m : Value} (h : v.asObject = .ok m) : m.asObject = .ok m := by
  obtain ⟨fields, rfl⟩ | ⟨entries, rfl, -⟩ := of_asObject h
  · rfl
  · rfl

/-- An object that is given, or the empty one in its place, is no other empty object. -/
theorem orElse_of_asObject {v m : Value} (h : (v.orElse (object [])).asObject = .ok m) :
    m.orElse (object []) = m := by
  obtain ⟨fields, rfl⟩ | ⟨entries, rfl, hgiven⟩ := of_asObject h
  · rcases fields with - | _
    · rfl
    · rfl
  · rcases entries with - | _
    -- an object without entries that was given would count as absent
    · have hmap : v.orElse (object []) = map [] := hgiven.resolve_right fun hne => hne rfl
      unfold orElse at hmap
      split at hmap
      · next htruthy =>
        rw [hmap] at htruthy
        cases htruthy
      · cases hmap
    · rfl

end RewardLedger.Value
