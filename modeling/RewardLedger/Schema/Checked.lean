import RewardLedger.Failure.Basic

/-!
# Checked parts of records

Reading a record checks all of its parts, so that a reader sees everything that is wrong with it at
once: `Checked` holds either the result or all issues, in the order of the parts, and its
applicative operations collect the issues of both sides.
-/

namespace RewardLedger

/-- The result of reading, or what is wrong with what was read. -/
inductive Checked (α : Type) where
  /-- Nothing is wrong. -/
  | valid (result : α)
  /-- Something is wrong. -/
  | invalid (issues : List Issue)
  deriving Repr

namespace Checked

/-- Apply a function to the result. -/
def map {α β : Type} (f : α → β) : Checked α → Checked β
  | valid a => valid (f a)
  | invalid issues => invalid issues

/-- Apply a checked function to a checked argument, with the issues of both. -/
def seq {α β : Type} (f : Checked (α → β)) (x : Unit → Checked α) : Checked β :=
  match f, x () with
  | valid f, valid a => valid (f a)
  | valid _, invalid issues => invalid issues
  | invalid issues, valid _ => invalid issues
  | invalid issues, invalid more => invalid (issues ++ more)

instance : Applicative Checked where
  pure := valid
  map := map
  seq := seq

/-- Something is wrong right here. -/
def wrong {α : Type} (kind : IssueKind) : Checked α := invalid [⟨[], kind⟩]

/-- The part of a record that is reached by this step. -/
def under {α : Type} (step : PathStep) : Checked α → Checked α
  | valid a => valid a
  | invalid issues => invalid (issues.map (Issue.under step))

/-- Check the result further; nothing further is checked if something is wrong already. -/
def andThen {α β : Type} (x : Checked α) (f : α → Checked β) : Checked β :=
  match x with
  | valid a => f a
  | invalid issues => invalid issues

/-- Check all items of a list. -/
def items {α : Type} (check : Value → Checked α) : (place : Nat) → List Value → Checked (List α)
  | _, [] => valid []
  | place, v :: rest =>
    List.cons <$> under (.index place) (check v) <*> items check (place + 1) rest

/-- The result, with the issues as a failure. -/
def toExcept {α : Type} : Checked α → Except Failure α
  | valid a => .ok a
  | invalid issues => .error (.malformed issues)

/-- A function applied to a valid argument is valid. -/
@[simp] theorem seq_valid {α β : Type} (f : α → β) (a : α) :
    (valid f <*> valid a : Checked β) = valid (f a) := rfl

/-- The issues of a checked function come first. -/
@[simp] theorem seq_invalid {α β : Type} (issues more : List Issue) :
    ((invalid issues : Checked (α → β)) <*> (invalid more : Checked α)) =
      invalid (issues ++ more) := rfl

/-- The result is that of what is valid. -/
theorem toExcept_eq_ok {α : Type} {x : Checked α} {a : α} : x.toExcept = .ok a ↔ x = valid a := by
  cases x with
  | valid b => exact ⟨fun h => by cases h; rfl, fun h => by cases h; rfl⟩
  | invalid issues => exact ⟨nofun, nofun⟩

/-- A function applied to an argument is valid if both are. -/
theorem seq_eq_valid {α β : Type} {f : Checked (α → β)} {x : Checked α} {b : β} :
    (f <*> x) = valid b ↔ ∃ g a, f = valid g ∧ x = valid a ∧ g a = b := by
  constructor
  · intro h
    cases f with
    | valid g => cases x with
      | valid a =>
        cases h
        exact ⟨g, a, rfl, rfl, rfl⟩
      | invalid issues => cases h
    | invalid issues => cases x with
      | valid a => cases h
      | invalid more => cases h
  · rintro ⟨g, a, rfl, rfl, rfl⟩
    rfl

/-- A function of a result is valid if the result is. -/
theorem map_eq_valid {α β : Type} {f : α → β} {x : Checked α} {b : β} :
    (f <$> x) = valid b ↔ ∃ a, x = valid a ∧ f a = b := by
  constructor
  · intro h
    cases x with
    | valid a =>
      cases h
      exact ⟨a, rfl, rfl⟩
    | invalid issues => cases h
  · rintro ⟨a, rfl, rfl⟩
    rfl

/-- A part has the result that it has wherever it stands. -/
theorem under_eq_valid {α : Type} {step : PathStep} {x : Checked α} {a : α} :
    under step x = valid a ↔ x = valid a := by
  cases x with
  | valid a => exact Iff.rfl
  | invalid issues => exact ⟨nofun, nofun⟩

end Checked

/-- A check of a value. -/
abbrev Check (α : Type) := Value → Checked α

/-! ## Fields of records -/

/-- A field that must be there. -/
def Fields.required {α : Type} (fs : Fields) (name : String) (check : Check α) : Checked α :=
  Checked.under (.field name) <|
    match fs.find? name with
    | some v => check v
    | none => .wrong .missing

/-- A field with a result that stands in if the field is not there. -/
def Fields.defaulting {α : Type} (fs : Fields) (name : String) (fallback : α) (check : Check α) :
    Checked α :=
  match fs.find? name with
  | some v => Checked.under (.field name) (check v)
  | none => .valid fallback

end RewardLedger
