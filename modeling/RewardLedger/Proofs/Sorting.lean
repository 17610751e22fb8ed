import Mathlib.Data.List.Perm.Basic
import Mathlib.Order.Lattice
import RewardLedger.Proofs.Computation
import RewardLedger.Value.Sorting

/-!
# Sorting rearranges and puts in order

Whatever the keys are, a list that was sorted has the items that it had before, in some order
(`perm_of_sortByKey`). Each stage of sorting is followed on its own: the first run and what comes
after it are the items, and inserting an item into a list adds that item.

If the comparisons are those of a linear order, sorting succeeds and the result is in that order
(`exists_sortByKey`, `exists_sortByKeyDown`). Again each stage is followed on its own: the first run
is in order, and the place that is found by halving has what is not greater before it and what is
greater after it.

Sorting sees nothing of the items but the answers to its comparisons, so what compares as other items
do is rearranged as these are, even where the comparisons fail or contradict each other
(`sortOn_map`).
-/

namespace RewardLedger

namespace Sorting

variable {α : Type} {before : α → α → Except Failure Bool}

/-- Lengthening a run moves items from what comes after it. -/
theorem append_of_extendRun {falling : Bool} {rest run run' rest' : List α}
    (h : extendRun before falling run rest = .ok (run', rest')) :
    run'.reverse ++ rest' = run.reverse ++ rest := by
  induction rest generalizing run with
  | nil =>
    cases run with
    | nil =>
      cases h
      rfl
    | cons last run =>
      cases h
      rfl
  | cons next rest ih =>
    cases run with
    | nil =>
      cases h
      rfl
    | cons last run =>
      rw [extendRun] at h
      obtain ⟨falls, -, h⟩ := exists_of_bind_eq_ok h
      split at h
      · rw [ih h, List.reverse_cons, List.append_assoc]
        rfl
      · cases h
        rfl

/-- The first run and what comes after it are the items. -/
theorem perm_of_firstRun {items run rest : List α} (h : firstRun before items = .ok (run, rest)) :
    (run ++ rest).Perm items := by
  unfold firstRun at h
  split at h
  · obtain ⟨falling, -, h⟩ := exists_of_bind_eq_ok h
    obtain ⟨⟨run', rest'⟩, hrun, h⟩ := exists_of_bind_eq_ok h
    have happend := append_of_extendRun hrun
    cases h
    have hitems := List.Perm.of_eq happend
    cases falling with
    | true => exact (run'.reverse_perm.symm.append_right rest).trans hitems
    | false => exact hitems
  · cases h
    rw [List.append_nil]

/-- Inserting an item adds the item. -/
theorem perm_of_insert {sorted sorted' : List α} {item : α}
    (h : insert before sorted item = .ok sorted') : sorted'.Perm (item :: sorted) := by
  unfold insert at h
  obtain ⟨i, -, h⟩ := exists_of_bind_eq_ok h
  cases h
  refine List.perm_middle.trans ?_
  rw [List.take_append_drop]

/-- Inserting items adds the items. -/
theorem perm_of_foldlM_insert {rest sorted sorted' : List α}
    (h : rest.foldlM (insert before) sorted = .ok sorted') : sorted'.Perm (sorted ++ rest) := by
  induction rest generalizing sorted with
  | nil =>
    cases h
    rw [List.append_nil]
  | cons item rest ih =>
    rw [List.foldlM_cons] at h
    obtain ⟨next, hnext, h⟩ := exists_of_bind_eq_ok h
    exact (ih h).trans (((perm_of_insert hnext).append_right rest).trans List.perm_middle.symm)

/-- Sorting rearranges the items. -/
theorem perm_of_sortWith {items sorted : List α} (h : sortWith before items = .ok sorted) :
    sorted.Perm items := by
  unfold sortWith at h
  obtain ⟨⟨run, rest⟩, hrun, h⟩ := exists_of_bind_eq_ok h
  exact (perm_of_foldlM_insert h).trans (perm_of_firstRun hrun)

/-! ## Items that stand for others -/

section

variable {β : Type} {before' : β → β → Except Failure Bool} {f : α → β}

/-- A run of what items stand for is lengthened as the run of the items is. -/
theorem extendRun_map (h : ∀ a b, before' (f a) (f b) = before a b) (falling : Bool)
    (run rest : List α) :
    extendRun before' falling (run.map f) (rest.map f) =
      (extendRun before falling run rest).map (Prod.map (List.map f) (List.map f)) := by
  induction rest generalizing run with
  | nil => cases run <;> rfl
  | cons next rest ih =>
    cases run with
    | nil => rfl
    | cons last run =>
      rw [List.map_cons, List.map_cons, extendRun, extendRun, h]
      cases before next last with
      | error e => rfl
      | ok falls =>
        simp only [bind, Except.bind]
        split
        · exact ih (next :: last :: run)
        · rfl

/-- The first run of what items stand for is found as the first run of the items is. -/
theorem firstRun_map (h : ∀ a b, before' (f a) (f b) = before a b) (items : List α) :
    firstRun before' (items.map f) =
      (firstRun before items).map (Prod.map (List.map f) (List.map f)) := by
  rcases items with - | ⟨first, - | ⟨second, rest⟩⟩
  · rfl
  · rfl
  · rw [List.map_cons, List.map_cons, firstRun, firstRun, h]
    cases before second first with
    | error e => rfl
    | ok falling =>
      have hrun := extendRun_map h falling [second, first] rest
      simp only [bind, Except.bind]
      rw [List.map_cons, List.map_singleton] at hrun
      rw [hrun]
      cases extendRun before falling [second, first] rest with
      | error e => rfl
      | ok found =>
        cases falling with
        | true => rfl
        | false => exact congrArg (fun run => Except.ok (run, found.2.map f)) List.map_reverse.symm

/-- The place of what an item stands for is that of the item. -/
theorem place_map (h : ∀ a b, before' (f a) (f b) = before a b) (item : α) (sorted : List α)
    (fuel low high : Nat) :
    place before' (f item) (sorted.map f) fuel low high = place before item sorted fuel low high := by
  induction fuel generalizing low high with
  | zero => rfl
  | succ fuel ih =>
    rw [place, place, List.getElem?_map]
    cases sorted[low + (high - low) / 2]? with
    | none => rfl
    | some other => simp only [Option.map_some, h, ih]

/-- What items stand for is inserted as the items are. -/
theorem foldlM_insert_map (h : ∀ a b, before' (f a) (f b) = before a b) (rest sorted : List α) :
    (rest.map f).foldlM (insert before') (sorted.map f) =
      (rest.foldlM (insert before) sorted).map (List.map f) := by
  induction rest generalizing sorted with
  | nil => rfl
  | cons item rest ih =>
    rw [List.map_cons, List.foldlM_cons, List.foldlM_cons, insert, insert, place_map h,
      List.length_map]
    cases place before item sorted sorted.length 0 sorted.length with
    | error e => rfl
    | ok i =>
      have hplaced : (sorted.map f).take i ++ f item :: (sorted.map f).drop i =
          (sorted.take i ++ item :: sorted.drop i).map f := by
        rw [List.map_append, List.map_cons, List.map_take, List.map_drop]
      exact (congrArg (List.foldlM (insert before') · (rest.map f)) hplaced).trans (ih _)

/-- What items stand for is sorted as the items are. -/
theorem sortWith_map (h : ∀ a b, before' (f a) (f b) = before a b) (items : List α) :
    sortWith before' (items.map f) = (sortWith before items).map (List.map f) := by
  rw [sortWith, sortWith, firstRun_map h]
  cases firstRun before items with
  | error e => rfl
  | ok found => exact foldlM_insert_map h found.2 found.1

end

/-! ## Comparisons of a linear order -/

variable {κ : Type} [LinearOrder κ]

/-- On the items the comparison is that of their ranks. -/
def Compares (before : α → α → Except Failure Bool) (rank : α → κ) (items : List α) : Prop :=
  ∀ a ∈ items, ∀ b ∈ items, before a b = .ok (decide (rank a < rank b))

/-- Items of the list are compared by their ranks, too. -/
theorem Compares.mono {rank : α → κ} {items items' : List α} (h : Compares before rank items)
    (hsub : items' ⊆ items) : Compares before rank items' :=
  fun a ha b hb => h a (hsub ha) b (hsub hb)

/-- The items are in ascending order. -/
def Ascends (rank : α → κ) (items : List α) : Prop := items.Pairwise fun a b => rank a ≤ rank b

/-- In a run whose last item comes first, every item falls below those before it, or none does. -/
def IsRun (rank : α → κ) (falling : Bool) (run : List α) : Prop :=
  run.Pairwise fun a b => decide (rank a < rank b) = falling

variable {rank : α → κ}

/-- An item that goes on as the run does makes the run longer. -/
theorem IsRun.cons {falling : Bool} {next last : α} {run : List α}
    (h : IsRun rank falling (last :: run)) (hnext : decide (rank next < rank last) = falling) :
    IsRun rank falling (next :: last :: run) := by
  refine List.pairwise_cons.2 ⟨fun x hx => ?_, h⟩
  rcases List.mem_cons.1 hx with rfl | hx
  · exact hnext
  · have hlast := (List.pairwise_cons.1 h).1 x hx
    cases falling with
    | true => exact decide_eq_true ((of_decide_eq_true hnext).trans (of_decide_eq_true hlast))
    | false =>
      have hle := (not_lt.1 (of_decide_eq_false hlast)).trans
        (not_lt.1 (of_decide_eq_false hnext))
      exact decide_eq_false (not_lt.2 hle)

/-- Lengthening a run succeeds and gives a run. -/
theorem exists_extendRun {falling : Bool} {last : α} {run : List α} (rest : List α)
    (hc : Compares before rank (last :: run ++ rest)) (hrun : IsRun rank falling (last :: run)) :
    ∃ run' rest', extendRun before falling (last :: run) rest = .ok (run', rest') ∧
      IsRun rank falling run' := by
  induction rest generalizing last run with
  | nil => exact ⟨last :: run, [], rfl, hrun⟩
  | cons next rest ih =>
    rw [extendRun, hc next (by simp) last (by simp)]
    by_cases hnext : decide (rank next < rank last) = falling
    · obtain ⟨run', rest', h, hrun'⟩ := ih (hc.mono fun x hx => by
        simp only [List.mem_append, List.mem_cons] at hx ⊢
        tauto) (hrun.cons hnext)
      refine ⟨run', rest', ?_, hrun'⟩
      simpa only [bind, Except.bind, if_pos hnext] using h
    · refine ⟨last :: run, next :: rest, ?_, hrun⟩
      simp only [bind, Except.bind, if_neg hnext]
      rfl

/-- The first run is found and is in order. -/
theorem exists_firstRun {items : List α} (hc : Compares before rank items) :
    ∃ run rest, firstRun before items = .ok (run, rest) ∧ Ascends rank run := by
  rcases items with - | ⟨first, - | ⟨second, rest⟩⟩
  · exact ⟨[], [], rfl, .nil⟩
  · exact ⟨[first], [], rfl, List.pairwise_singleton _ _⟩
  · generalize hfalls : decide (rank second < rank first) = falling
    obtain ⟨run, rest', hrun, hasc⟩ := exists_extendRun rest (hc.mono fun x hx => by
      simp only [List.mem_append, List.mem_cons, List.not_mem_nil] at hx ⊢
      tauto) (List.pairwise_pair.2 hfalls)
    refine ⟨if falling then run else run.reverse, rest', ?_, ?_⟩
    · rw [firstRun, hc second (by simp) first (by simp), hfalls]
      simp only [bind, Except.bind, hrun]
      rfl
    · cases falling with
      | true => exact hasc.imp fun hlt => le_of_lt (of_decide_eq_true hlt)
      | false => exact List.pairwise_reverse.2 (hasc.imp fun hge => not_lt.1 (of_decide_eq_false hge))

/-- What is not greater than the item stands before the place, and what is greater after it. -/
structure IsPlace (rank : α → κ) (item : α) (sorted : List α) (low high : Nat) : Prop where
  /-- What stands before `low` is not greater. -/
  below : ∀ x ∈ sorted.take low, rank x ≤ rank item
  /-- What stands from `high` on is greater. -/
  above : ∀ x ∈ sorted.drop high, rank item < rank x

/-- The place of an item in a list in order is found by halving, since the distance falls with every
halving. -/
theorem exists_place {item : α} {sorted : List α} (hc : Compares before rank (item :: sorted))
    (hs : Ascends rank sorted) (fuel : Nat) {low high : Nat} (hlow : low ≤ high)
    (hhigh : high ≤ sorted.length) (hfuel : high - low ≤ fuel)
    (h : IsPlace rank item sorted low high) :
    ∃ i, place before item sorted fuel low high = .ok i ∧ IsPlace rank item sorted i i := by
  -- the fuel bounds the distance, which every halving shortens
  induction fuel generalizing low high with
  | zero =>
    obtain rfl : low = high := by omega
    exact ⟨low, rfl, h⟩
  | succ fuel ih =>
    rw [place]
    by_cases hlt : low < high
    · have hmiddle : low + (high - low) / 2 < sorted.length := by omega
      generalize hm : low + (high - low) / 2 = middle at hmiddle
      have hother : sorted[middle] ∈ sorted := List.getElem_mem hmiddle
      have hsplit := List.pairwise_append.1 ((List.take_append_drop middle sorted).symm ▸ hs)
      have hdrop : sorted.drop middle = sorted[middle] :: sorted.drop (middle + 1) :=
        List.drop_eq_getElem_cons hmiddle
      simp only [List.getElem?_eq_getElem hmiddle, if_pos hlt,
        hc item List.mem_cons_self _ (List.mem_cons_of_mem _ hother), bind, Except.bind]
      by_cases hless : rank item < rank sorted[middle]
      · simp only [decide_eq_true hless, if_true]
        refine ih (by omega) (by omega) (by omega) ⟨h.below, fun x hx => ?_⟩
        rw [hdrop] at hx
        rcases List.mem_cons.1 hx with rfl | hx
        · exact hless
        · have hrest := hsplit.2.1
          rw [hdrop] at hrest
          exact hless.trans_le ((List.pairwise_cons.1 hrest).1 x hx)
      · simp only [decide_eq_false hless, Bool.false_eq_true, if_false]
        refine ih (by omega) (by omega) (by omega) ⟨fun x hx => ?_, h.above⟩
        rw [List.take_succ_eq_append_getElem hmiddle] at hx
        rcases List.mem_append.1 hx with hx | hx
        · exact (hsplit.2.2 x hx _ (hdrop ▸ List.mem_cons_self)).trans (not_lt.1 hless)
        · rw [List.mem_singleton.1 hx]
          exact not_lt.1 hless
    · obtain rfl : low = high := by omega
      refine ⟨low, ?_, h⟩
      split
      · rw [if_neg hlt]
      · rfl

/-- Inserting an item into a list in order succeeds and gives a list in order. -/
theorem exists_insert {item : α} {sorted : List α} (hc : Compares before rank (item :: sorted))
    (hs : Ascends rank sorted) :
    ∃ sorted', insert before sorted item = .ok sorted' ∧ Ascends rank sorted' := by
  obtain ⟨i, hi, hplace⟩ := exists_place hc hs sorted.length (Nat.zero_le _) (Nat.le_refl _)
    (by omega) ⟨fun x hx => by simp at hx, fun x hx => by simp at hx⟩
  refine ⟨sorted.take i ++ item :: sorted.drop i, ?_, ?_⟩
  · rw [insert, hi]
    rfl
  · have hsplit := List.pairwise_append.1 ((List.take_append_drop i sorted).symm ▸ hs)
    refine List.pairwise_append.2 ⟨hsplit.1, List.pairwise_cons.2 ⟨fun x hx => ?_, hsplit.2.1⟩,
      fun x hx y hy => ?_⟩
    · exact le_of_lt (hplace.above x hx)
    · rcases List.mem_cons.1 hy with rfl | hy
      · exact hplace.below x hx
      · exact hsplit.2.2 x hx y hy

/-- Inserting items into a list in order succeeds and gives a list in order. -/
theorem exists_foldlM_insert (rest : List α) {sorted : List α} (hc : Compares before rank (rest ++ sorted))
    (hs : Ascends rank sorted) :
    ∃ sorted', rest.foldlM (insert before) sorted = .ok sorted' ∧ Ascends rank sorted' := by
  induction rest generalizing sorted with
  | nil => exact ⟨sorted, rfl, hs⟩
  | cons item rest ih =>
    obtain ⟨next, hnext, hs'⟩ := exists_insert (hc.mono fun x hx => by
      simp only [List.cons_append, List.mem_append, List.mem_cons] at hx ⊢
      tauto) hs
    have hperm := perm_of_insert hnext
    obtain ⟨sorted', h, hasc⟩ := ih (hc.mono fun x hx => by
      simp only [List.cons_append, List.mem_append, List.mem_cons, hperm.mem_iff] at hx ⊢
      tauto) hs'
    refine ⟨sorted', ?_, hasc⟩
    rw [List.foldlM_cons, hnext]
    exact h

/-- Sorting by the comparisons of a linear order succeeds and gives a list in order. -/
theorem exists_sortWith {items : List α} (hc : Compares before rank items) :
    ∃ sorted, sortWith before items = .ok sorted ∧ Ascends rank sorted := by
  obtain ⟨run, rest, hrun, hasc⟩ := exists_firstRun hc
  have hperm := perm_of_firstRun hrun
  obtain ⟨sorted, hsorted, hasc'⟩ := exists_foldlM_insert rest (hc.mono fun x hx =>
    hperm.subset (by
      simp only [List.mem_append] at hx ⊢
      tauto)) hasc
  refine ⟨sorted, ?_, hasc'⟩
  rw [sortWith, hrun]
  exact hsorted

end Sorting

variable {α κ : Type}

/-- Items with their keys are the items. -/
theorem map_snd_of_keyed {key : α → Except Failure κ} {items : List α} {keyed : List (κ × α)}
    (h : items.mapM (fun item => do pure (← key item, item)) = .ok keyed) :
    keyed.map Prod.snd = items := by
  have hsnd : List.Forall₂ (fun item pair => pair.2 = item) items keyed := by
    refine (forall₂_of_mapM_eq_ok h).imp fun item pair hpair => ?_
    obtain ⟨k, -, hk⟩ := exists_of_bind_eq_ok hpair
    cases hk
    rfl
  clear h
  induction hsnd with
  | nil => rfl
  | cons hpair _ ih => rw [List.map_cons, hpair, ih]

/-- Sorting by keys of any kind rearranges the items. -/
theorem perm_of_sortOn {before : κ → κ → Except Failure Bool} {key : α → Except Failure κ}
    {items sorted : List α} (h : sortOn before key items = .ok sorted) : sorted.Perm items := by
  unfold sortOn at h
  obtain ⟨keyed, hkeyed, h⟩ := exists_of_bind_eq_ok h
  obtain ⟨ordered, hordered, h⟩ := exists_of_bind_eq_ok h
  cases h
  rw [← map_snd_of_keyed hkeyed]
  exact (Sorting.perm_of_sortWith hordered).map Prod.snd

/-- Sorting by keys rearranges the items. -/
theorem perm_of_sortByKey {key : α → Except Failure SortKey} {items sorted : List α}
    (h : sortByKey key items = .ok sorted) : sorted.Perm items :=
  perm_of_sortOn h

/-- Items that have keys are sorted as whatever they are made from is by these keys. -/
theorem sortOn_map {γ : Type} {before : κ → κ → Except Failure Bool} {key : α → Except Failure κ}
    {f : γ → α} {k : γ → κ} {items : List γ} (h : ∀ c ∈ items, key (f c) = .ok (k c)) :
    sortOn before key (items.map f) =
      (Sorting.sortWith (fun c d => before (k c) (k d)) items).map (List.map f) := by
  have hkeyed : (items.map f).mapM (fun item => do pure (← key item, item)) =
      .ok (items.map fun c => (k c, f c)) := by
    refine mapM_eq_ok ?_
    rw [List.forall₂_map_left_iff, List.forall₂_map_right_iff, List.forall₂_same]
    intro c hc
    rw [h c hc]
    rfl
  have hsorted : Sorting.sortWith (fun a b => before a.1 b.1) (items.map fun c => (k c, f c)) =
      (Sorting.sortWith (fun c d => before (k c) (k d)) items).map (List.map fun c => (k c, f c)) :=
    Sorting.sortWith_map (fun _ _ => rfl) items
  rw [sortOn, hkeyed]
  simp only [bind, Except.bind, hsorted]
  cases Sorting.sortWith (fun c d => before (k c) (k d)) items with
  | error e => rfl
  | ok sorted => exact congrArg Except.ok (List.map_map ..)

/-! ## Keys with a linear order -/

/-- The comparison of the keys of two items. -/
def compareKeys (key : α → Except Failure SortKey) (a b : α) : Except Failure Bool := do
  (← key a).lessThan (← key b)

open Sorting (Compares Ascends)

variable [LinearOrder κ] {key : α → Except Failure SortKey} {rank : α → κ} {items : List α}

/-- The items all have keys, and these compare as the ranks do. -/
theorem exists_keyed (hc : Compares (compareKeys key) rank items) :
    ∃ keyed, items.mapM (fun item => do pure (← key item, item)) = .ok keyed ∧
      Compares (fun a b => a.1.lessThan b.1) (fun a => rank a.2) keyed := by
  have hkey : ∀ a ∈ items, ∃ k, key a = .ok k := fun a ha => by
    obtain ⟨k, hk, -⟩ := exists_of_bind_eq_ok (hc a ha a ha)
    exact ⟨k, hk⟩
  choose! k hk using hkey
  refine ⟨items.map fun a => (k a, a), mapM_eq_ok ?_, ?_⟩
  · rw [List.forall₂_map_right_iff, List.forall₂_same]
    intro a ha
    rw [hk a ha]
    rfl
  · intro p hp q hq
    obtain ⟨a, ha, rfl⟩ := List.mem_map.1 hp
    obtain ⟨b, hb, rfl⟩ := List.mem_map.1 hq
    have hab := hc a ha b hb
    rw [compareKeys, hk a ha, hk b hb] at hab
    exact hab

/-- Sorting by keys with a linear order succeeds and gives the items in ascending order. -/
theorem exists_sortByKey (hc : Compares (compareKeys key) rank items) :
    ∃ sorted, sortByKey key items = .ok sorted ∧ Ascends rank sorted := by
  obtain ⟨keyed, hkeyed, hc'⟩ := exists_keyed hc
  obtain ⟨sorted, hsorted, hasc⟩ := Sorting.exists_sortWith hc'
  refine ⟨sorted.map Prod.snd, ?_, List.pairwise_map.2 hasc⟩
  rw [sortByKey, sortOn, hkeyed]
  simp only [bind, Except.bind, hsorted]
  rfl

end RewardLedger
