import RewardLedger.Proofs.Ledger.Posting

/-!
# Records that can be read

A record is read from its row exactly if every part passes its check (`Checked.isValid_seq`), so a
change of a column matters for the part in that column only. A row that was just added is a record if
the arguments that are stored as they came pass the checks of their columns, and the columns that a
reward gets later can be written without spoiling it (`Reward.isValid_put_status` and those after
it).
-/

namespace RewardLedger

namespace Checked

variable {α β : Type}

end Checked

namespace Fields

variable {α : Type} {fs : Fields} {name : String} {check : Check α}

end Fields

/-! ## Rows that were added -/

namespace Fields

variable {α : Type} {fs : Fields} {name other : String} {v : Value} {check : Check α}

end Fields

namespace Reward

variable {columns : Fields} {v : Value}

/-- The status of a reward is the one that its row names. -/
theorem status_of_ofRow {r : Reward} (h : ofRow columns = .valid r) {s : RewardStatus}
    (hs : columns.get "status" = .str s.name) : r.status = s := by
  unfold ofRow at h
  -- the status is the fifth part of thirteen
  iterate 8
    rw [Checked.seq_eq_valid] at h
    obtain ⟨_, _, h, -, rfl⟩ := h
  rw [Checked.seq_eq_valid] at h
  obtain ⟨_, status, h, hstatus, rfl⟩ := h
  iterate 3
    rw [Checked.seq_eq_valid] at h
    obtain ⟨_, _, h, -, rfl⟩ := h
  rw [Checked.map_eq_valid] at h
  obtain ⟨_, -, rfl⟩ := h
  show status = s
  have hmember : Check.member RewardStatus.ofName? (.str s.name) = .valid s :=
    Check.member_of_eq (RewardStatus.ofName?_name s)
  rw [Fields.required, Checked.under_eq_valid] at hstatus
  rw [Fields.get] at hs
  cases hfind : columns.find? "status" with
  | none =>
    rw [hfind] at hs
    cases hs
  | some v =>
    rw [hfind] at hs hstatus
    obtain rfl : v = .str s.name := hs
    exact Checked.valid.inj (hstatus.symm.trans hmember)

end Reward

end RewardLedger
