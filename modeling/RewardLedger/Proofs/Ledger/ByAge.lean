import RewardLedger.Proofs.Ledger.Lockstep
import RewardLedger.Proofs.Ledger.Paging

/-!
# The entries of a reward in the order in which they are read

The entries of a reward are read oldest first. What is read depends only on these entries and on the
order in which they were added (`Ledger.perform_entriesForReward`): the places of their rows in the
store, which also tell how many other rows were added in between, do not matter. The same holds of the
oldest credit (`Rewards.perform_oldestCredit`), whether it is found or the times cannot be compared.
-/

namespace RewardLedger

variable {cfg : Config} {base : Option Store} {b : Books} {w : World}

/-- Of keys with whole numbers as their second parts only the order of these numbers matters. -/
theorem SortKey.lessThan_int_congr (s t : Value) {i j i' j' : Int} (hlt : i < j ↔ i' < j')
    (heq : i = j ↔ i' = j') :
    (SortKey.mk s (.int i)).lessThan ⟨t, .int j⟩ = (SortKey.mk s (.int i')).lessThan ⟨t, .int j'⟩ := by
  have hless : ∀ i j : Int, (Value.int i).lessThan (.int j) = .ok (decide (i < j)) := fun i j => by
    rw [Value.lessThan, Value.related_int, OrderRelation.admits_less]
  simp only [lessThan, Value.equalTo_int, hless, decide_eq_decide.2 hlt, decide_eq_decide.2 heq]

namespace Ledger

/-- The key by which the entry in a position is put in order. -/
def ageKey (es : List LedgerEntry) (i : Fin es.length) : SortKey :=
  ⟨.instant es[i].createdAt, .int i⟩

/-- The entries in the order of their times; entries with the same time keep their order. -/
def byAge (es : List LedgerEntry) : Except Failure (List LedgerEntry) := do
  let order ← sortByKey (fun i => .ok (ageKey es i)) (List.finRange es.length)
  pure (order.map fun i => es[i])

/-- Putting entries in order is sorting their positions. -/
theorem byAge_eq (es : List LedgerEntry) :
    byAge es = (Sorting.sortWith (fun i j => (ageKey es i).lessThan (ageKey es j))
      (List.finRange es.length)).map (List.map fun i => es[i]) := by
  have hsort : sortByKey (fun i => .ok (ageKey es i)) ((List.finRange es.length).map id) =
      (Sorting.sortWith (fun i j => (ageKey es i).lessThan (ageKey es j))
        (List.finRange es.length)).map (List.map id) := sortOn_map fun _ _ => rfl
  rw [List.map_id] at hsort
  rw [byAge, hsort]
  cases Sorting.sortWith (fun i j => (ageKey es i).lessThan (ageKey es j))
    (List.finRange es.length) with
  | error e => rfl
  | ok order => exact congrArg (fun order => Except.ok (List.map _ order)) (List.map_id order)

/-- Putting entries in order rearranges them. -/
theorem perm_of_byAge {es sorted : List LedgerEntry} (h : byAge es = .ok sorted) :
    sorted.Perm es := by
  obtain ⟨order, horder, h⟩ := exists_of_bind_eq_ok h
  cases h
  have hperm := (perm_of_sortByKey horder).map fun i : Fin es.length => es[i]
  exact hperm.trans (.of_eq (List.map_getElem_finRange es))

/-- Rows in ascending places are read in the order of their entries. -/
theorem oldestFirst_eq {rows : List Fields} {placed : List PlacedEntry}
    (hrows : List.Forall₂ (fun row p => PlacedEntry.IsRow p row) rows placed)
    (hplaces : placed.Pairwise fun p q => p.place < q.place) :
    oldestFirst rows = byAge (placed.map PlacedEntry.entry) := by
  let es := placed.map PlacedEntry.entry
  have hes : es.length = placed.length := List.length_map _
  have hlength : es.length = rows.length := hes.trans hrows.length_eq.symm
  let rowAt (i : Fin es.length) : Fields := rows.get ⟨i.1, hlength ▸ i.2⟩
  let placedAt (i : Fin es.length) : PlacedEntry := placed.get ⟨i.1, hes ▸ i.2⟩
  have hentry : ∀ i : Fin es.length, (placedAt i).entry = es[i] := fun i =>
    (List.getElem_map PlacedEntry.entry).symm
  have hisRow : ∀ i, (placedAt i).IsRow (rowAt i) := fun i => hrows.get _ _
  have hmono : StrictMono fun i => (placedAt i).place := fun i j hij =>
    List.pairwise_iff_getElem.1 hplaces _ _ _ _ hij
  have hrowsAt : rows = (List.finRange es.length).map rowAt := by
    refine List.ext_getElem (by rw [List.length_map, List.length_finRange, hlength]) fun i _ _ => ?_
    rw [List.getElem_map, List.getElem_finRange]
    rfl
  -- the keys of rows and of positions compare alike, so both are sorted as the positions are
  have hcompare : (fun i j => (SortKey.mk (.instant (placedAt i).entry.createdAt)
        (.int (placedAt i).place)).lessThan ⟨.instant (placedAt j).entry.createdAt,
          .int (placedAt j).place⟩) = fun i j => (ageKey es i).lessThan (ageKey es j) := by
    funext i j
    rw [hentry, hentry]
    refine SortKey.lessThan_int_congr _ _ ?_ ?_
    · rw [Int.ofNat_lt, Int.ofNat_lt]
      exact hmono.lt_iff_lt
    · rw [Int.ofNat_inj, Int.ofNat_inj]
      exact hmono.injective.eq_iff.trans Fin.ext_iff
  have hkey : ∀ i ∈ List.finRange es.length, timeKey (rowAt i) =
      .ok ⟨.instant (placedAt i).entry.createdAt, .int (placedAt i).place⟩ :=
    fun i _ => timeKey_eq (hisRow i)
  have hsort : sortOn SortKey.lessThan timeKey ((List.finRange es.length).map rowAt) = _ :=
    sortOn_map hkey
  rw [← hrowsAt, hcompare] at hsort
  rw [oldestFirst, sortByKey, hsort, byAge_eq]
  cases Sorting.sortWith (fun i j => (ageKey es i).lessThan (ageKey es j))
    (List.finRange es.length) with
  | error e => rfl
  | ok order =>
    refine mapM_eq_ok ?_
    rw [List.forall₂_map_left_iff, List.forall₂_map_right_iff, List.forall₂_same]
    intro i _
    rw [← hentry i]
    exact entryOf_eq (hisRow i).entry

/-- The row of an entry tells whether the entry belongs to a reward. -/
theorem columnIs_rewardId {e : LedgerEntry} {columns : Fields} (h : e.IsRow columns) (id : Uuid) :
    columns.columnIs "reward_id" (.uuid id) = .ok (decide (e.rewardId = some id)) := by
  rw [Fields.columnIs, Fields.column, h.rewardId]
  cases e.rewardId with
  | none =>
    refine (Value.equalTo_null (.uuid id)).trans (congrArg Except.ok ?_)
    simp [Value.sameKey, Value.equals, Value.scalarEquals, Value.number?]
  | some owner =>
    refine (Value.equalTo_uuid owner (.uuid id)).trans (congrArg Except.ok ?_)
    rw [Bool.eq_iff_iff, Value.sameKey_uuid_iff, decide_eq_true_eq, Value.uuid.injEq,
      Option.some.injEq, eq_comm]

open Op

/-- The entries of a reward are read in the order of their times. -/
theorem perform_entriesForReward (h : w.Holds cfg base b) (id : Uuid) :
    (entriesForReward (.uuid id)).perform w = (byAge (b.tagged id), w) := by
  obtain ⟨placed, hlists, hmap, hplaces⟩ := h.held.entries.exists_placed h.sound
  have hkeep : ∀ (p : PlacedEntry) (columns : Fields), Stored.IsRow p columns →
      columns.columnIs "reward_id" (.uuid id) = .ok (decide (p.entry.rewardId = some id)) :=
    fun _ _ hp => columnIs_rewardId (PlacedEntry.IsRow.entry hp) id
  obtain ⟨rows, hselect, hrows⟩ := hlists.select h.sound hkeep
  have hown : (placed.filter fun p => decide (p.entry.rewardId = some id)).map PlacedEntry.entry =
      b.tagged id := by
    rw [Books.tagged, ← hmap, List.filter_map]
    rfl
  rw [entriesForReward, perform_bind, rowsWith, perform_query,
    show w.store.select entriesTable (·.columnIs "reward_id" (.uuid id)) = .ok rows from hselect]
  dsimp only
  rw [perform_ofExcept, oldestFirst_eq hrows (hplaces.filter _), hown]

end Ledger

/-- The oldest credit of a reward, if the times of its entries can be compared. -/
def Books.oldestCredit (b : Books) (id : Uuid) : Except Failure (Option LedgerEntry) :=
  (Ledger.byAge (b.tagged id)).map fun es => es.find? fun e => e.entryType = .credit

/-- The oldest credit of a reward is a credit that belongs to it. -/
theorem Books.of_oldestCredit {id : Uuid} {e : LedgerEntry} (h : b.oldestCredit id = .ok (some e)) :
    e ∈ b.entries ∧ e.rewardId = some id ∧ e.entryType = .credit := by
  unfold oldestCredit at h
  cases hsorted : Ledger.byAge (b.tagged id) with
  | error _ =>
    rw [hsorted] at h
    cases h
  | ok sorted =>
    rw [hsorted] at h
    have hfind : sorted.find? (fun e => e.entryType = .credit) = some e := Except.ok.inj h
    have hcredit := List.find?_some hfind
    have hmem := (Ledger.perm_of_byAge hsorted).subset (List.mem_of_find?_eq_some hfind)
    obtain ⟨hmem, htag⟩ := List.mem_filter.1 hmem
    exact ⟨hmem, of_decide_eq_true htag, of_decide_eq_true hcredit⟩

/-- The oldest credit of a reward is found among its entries, whatever else is in the store. -/
theorem Rewards.perform_oldestCredit (h : w.Holds cfg base b) (id : Uuid) :
    (oldestCredit (.uuid id)).perform w = (b.oldestCredit id, w) := by
  rw [oldestCredit, Op.perform_bind, Ledger.perform_entriesForReward h, Books.oldestCredit]
  cases Ledger.byAge (b.tagged id) with
  | error _ => rfl
  | ok es => rfl

end RewardLedger
