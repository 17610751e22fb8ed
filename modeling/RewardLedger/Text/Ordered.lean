/-!
# Texts in ascending order
-/

namespace RewardLedger.Text

/-- Insert a text into a list in ascending order. -/
def insertInOrder (s : String) : List String → List String
  | [] => [s]
  | t :: rest => if t < s then t :: insertInOrder s rest else s :: t :: rest

/-- The texts in ascending order. -/
def inOrder (texts : List String) : List String := texts.foldr insertInOrder []

/-- Inserting adds one text. -/
theorem length_insertInOrder (s : String) (texts : List String) :
    (insertInOrder s texts).length = texts.length + 1 := by
  induction texts with
  | nil => rfl
  | cons t rest ih =>
    by_cases h : t < s
    · simp [insertInOrder, h, ih]
    · simp [insertInOrder, h]

/-- Only of no texts is the list in order empty. -/
theorem inOrder_eq_nil {texts : List String} : inOrder texts = [] ↔ texts = [] := by
  constructor
  · intro h
    cases texts with
    | nil => rfl
    | cons s rest =>
      have hl := length_insertInOrder s (inOrder rest)
      rw [show insertInOrder s (inOrder rest) = [] from h] at hl
      cases hl
  · rintro rfl
    rfl

end RewardLedger.Text
