import Mathlib.Data.List.Sort
import Mathlib.Data.Prod.Lex
import RewardLedger.Proofs.Ledger.Lifecycle
import RewardLedger.Proofs.Number.Order

/-!
# Pages of a user's entries

The entries of a user are sorted by the time at which they were made and by the place of their rows.
That is a linear order if the times can be compared with each other, and since the places ascend as
entries are added it can be read off the books: `Ledger.recency` counts the time of an entry first and
its position among the identifiers of all entries second. So reading all entries of a user gives them
in that order (`Ledger.ends_entriesForUser_ok`), and a page holds the newest of those that come after
the one with the cursor (`Ledger.ends_listByUser_ok`).
-/

namespace RewardLedger

/-! ## Comparing numbers and times -/

namespace Value

/-- Whole numbers can be compared. -/
theorem equalTo_int (i j : Int) : (int i).equalTo (int j) = .ok (decide (i = j)) := by
  have hcompare : (Number.int i).compare? (.int j) = some (compare i j) :=
    congrArg some (Scaled.compareValues_int i j)
  have hsame : (Number.int i).sameValue (.int j) = decide (i = j) := by
    rw [Number.sameValue, hcompare, Bool.eq_iff_iff, beq_iff_eq, Option.some.injEq,
      compare_eq_iff_eq, decide_eq_true_eq]
  simp only [equalTo, equals, scalarEquals, number?, Number.equalityInvalid, Number.isSignaling,
    Bool.or_self, hsame, Bool.false_eq_true, if_false]

/-- Whole numbers have an order. -/
theorem related_int (r : OrderRelation) (i j : Int) :
    (int i).related r (int j) = .ok (r.admits (compare i j)) := by
  have hcompare : (Number.int i).compare? (.int j) = some (compare i j) :=
    congrArg some (Scaled.compareValues_int i j)
  simp only [related, scalarsRelated, number?, Number.orderInvalid, Number.isDecimal, Bool.or_self,
    Bool.false_and, hcompare, Bool.false_eq_true, if_false, Option.any_some]

/-- Times can be compared, and are equal if they are the same time. -/
theorem equalTo_instant (s t : Instant) : (instant s).equalTo (instant t) = .ok (s.sameTime t) := by
  simp only [equalTo, equals, scalarEquals, number?]

/-- Times have an order if their offsets are both known or both not. -/
theorem related_instant (r : OrderRelation) {s t : Instant} (h : s.comparable t = true) :
    (instant s).related r (instant t) = .ok (r.admits (compare s.micros t.micros)) := by
  simp only [related, scalarsRelated, number?, h, if_true]

end Value

/-- What is admitted by being less is what is less. -/
theorem OrderRelation.admits_less {α : Type} [LinearOrder α] (a b : α) :
    OrderRelation.less.admits (compare a b) = decide (a < b) := by
  rw [OrderRelation.admits, Bool.eq_iff_iff, beq_iff_eq, compare_lt_iff_lt, decide_eq_true_eq]

/-- What is admitted by being greater is what is greater. -/
theorem OrderRelation.admits_greater {α : Type} [LinearOrder α] (a b : α) :
    OrderRelation.greater.admits (compare a b) = decide (b < a) := by
  rw [OrderRelation.admits, Bool.eq_iff_iff, beq_iff_eq, compare_gt_iff_gt, decide_eq_true_eq]

/-! ## Entries and their places -/

/-- An entry together with the place of its row. -/
structure PlacedEntry where
  /-- The place. -/
  place : Nat
  /-- The entry. -/
  entry : LedgerEntry

/-- The columns stand for the entry in its place. -/
structure PlacedEntry.IsRow (p : PlacedEntry) (columns : Fields) : Prop where
  /-- They stand for the entry. -/
  entry : p.entry.IsRow columns
  /-- They carry the place. -/
  place : columns.find? sequenceColumn = some (.int p.place)

instance : Stored PlacedEntry where
  tableName := entriesTable
  keyColumn := "id"
  keyOf p := .uuid p.entry.id
  IsRow := PlacedEntry.IsRow
  of_agrees {p a b} ha h := by
    have hentry : Stored.IsRow p.entry b := h.entry
    exact ⟨Stored.of_agrees ha hentry, ha.find?_of_some h.place⟩
  get_keyColumn h := by rw [Fields.get, h.entry.id]; rfl
  sameKey_iff _ _ := Value.sameKey_uuid_iff
  hashable_keyOf _ := rfl

namespace Store

variable {K : Value → Prop} {s : Store} {es : List LedgerEntry}

/-- Every row has a place, and the places ascend as entries are added. -/
theorem Lists.exists_placed (h : s.Lists es) (hs : s.Sound K) :
    ∃ placed : List PlacedEntry, s.Lists placed ∧ placed.map PlacedEntry.entry = es ∧
      placed.Pairwise fun p q => p.place < q.place := by
  obtain ⟨t, ht, hkey, hrows⟩ := h
  have hsound := (hs _ t ht).1.rowsSound
  -- the place of an entry is that of its row
  have hplaced : ∃ placed : List PlacedEntry, placed.map PlacedEntry.entry = es ∧
      List.Forall₂ (fun row p => row.seq = p.place ∧ p.entry.IsRow row.columns) t.rows placed := by
    clear hsound hkey ht
    generalize t.rows = rows at hrows
    induction hrows with
    | nil => exact ⟨[], rfl, .nil⟩
    | @cons row e _ _ he _ ih =>
      obtain ⟨placed, hmap, hrest⟩ := ih
      exact ⟨⟨row.seq, e⟩ :: placed, by rw [List.map_cons, hmap], .cons ⟨rfl, he⟩ hrest⟩
  obtain ⟨placed, hmap, hboth⟩ := hplaced
  have hname : s.table? (Stored.tableName PlacedEntry) = some t := ht
  refine ⟨placed, ⟨t, hname, hkey, ?_⟩, hmap, ?_⟩
  · have hmem : List.Forall₂ (fun row p => row ∈ t.rows ∧ row.seq = p.place ∧
        LedgerEntry.IsRow p.entry row.columns) t.rows placed :=
      (List.forall₂_and_left _ _).2 ⟨fun row hrow => hrow, hboth⟩
    refine hmem.imp fun row p ⟨hrow, hseq, he⟩ => ⟨he, ?_⟩
    have hget := hsound.get_seq row hrow
    rw [hseq, Fields.get] at hget
    cases hfind : row.columns.find? sequenceColumn with
    | none =>
      rw [hfind] at hget
      cases hget
    | some v =>
      rw [hfind] at hget
      exact congrArg some hget
  · refine pairwise_of_forall₂ hboth hsound.seqs ?_
    rintro row row' p q ⟨hp, -⟩ ⟨hq, -⟩ hlt
    rwa [← hp, ← hq]

end Store

namespace Ledger

/-! ## The order of entries -/

/-- How recent an entry is: its time counts first, and then its position among the identifiers of
entries in the order in which these were added. -/
def recency (ids : List Uuid) (e : LedgerEntry) : ℤ ×ₗ ℕ :=
  toLex (e.createdAt.micros, ids.idxOf e.id)

variable {ids : List Uuid} {es own : List LedgerEntry}

/-- An identifier comes before another one as it stands before it. -/
theorem pairwise_idxOf (h : ids.Nodup) : ids.Pairwise fun a b => ids.idxOf a < ids.idxOf b := by
  rw [List.pairwise_iff_getElem]
  intro i j hi hj hlt
  rwa [h.idxOf_getElem, h.idxOf_getElem]

/-- Positions ascend as entries are added. -/
theorem pairwise_idxOf_id (hids : (es.map LedgerEntry.id).Sublist ids) (h : ids.Nodup) :
    es.Pairwise fun e e' => ids.idxOf e.id < ids.idxOf e'.id := by
  have hpositions := (pairwise_idxOf h).sublist hids
  rwa [List.pairwise_map] at hpositions

/-- The places of entries stand in the order of their positions. -/
theorem place_lt_iff {placed : List PlacedEntry}
    (hplaces : placed.Pairwise fun p q => p.place < q.place)
    (hids : ((placed.map PlacedEntry.entry).map LedgerEntry.id).Sublist ids) (h : ids.Nodup) :
    ∀ p ∈ placed, ∀ q ∈ placed,
      p.place < q.place ↔ ids.idxOf p.entry.id < ids.idxOf q.entry.id := by
  have hpositions := List.pairwise_map.1 (pairwise_idxOf_id hids h)
  have hboth := hplaces.and hpositions
  refine List.Pairwise.forall_of_forall_of_flip (fun p _ => by simp) ?_ ?_
  · exact hboth.imp fun ⟨hp, hi⟩ => iff_of_true hp hi
  · exact hboth.imp fun ⟨hp, hi⟩ => iff_of_false (Nat.lt_asymm hp) (Nat.lt_asymm hi)

/-- The key of a row is the time of its entry and its place. -/
theorem timeKey_eq {p : PlacedEntry} {row : Fields} (h : p.IsRow row) :
    timeKey row = .ok ⟨.instant p.entry.createdAt, .int p.place⟩ := by
  rw [timeKey, Fields.column, Fields.column, h.entry.createdAt, h.place]
  rfl

/-- The keys of rows compare as the entries do. -/
theorem compareKeys_timeKey {p q : PlacedEntry} {row row' : Fields}
    (hp : p.IsRow row) (hq : q.IsRow row')
    (hc : p.entry.createdAt.comparable q.entry.createdAt = true)
    (hplace : p.place < q.place ↔ ids.idxOf p.entry.id < ids.idxOf q.entry.id) :
    compareKeys timeKey row row' =
      .ok (decide (recency ids p.entry < recency ids q.entry)) := by
  rw [compareKeys, timeKey_eq hp, timeKey_eq hq]
  simp only [bind, Except.bind, SortKey.lessThan, Value.equalTo_instant, Value.equalTo_int,
    Value.lessThan, Value.related_instant _ hc, Value.related_int, OrderRelation.admits_less,
    Instant.sameTime, hc, Bool.true_and]
  by_cases hmicros : p.entry.createdAt.micros = q.entry.createdAt.micros
  · simp only [hmicros, beq_self_eq_true, if_true, recency, Prod.Lex.toLex_lt_toLex, lt_irrefl,
      false_or, true_and, Nat.cast_inj]
    by_cases hsame : p.place = q.place
    · have hnot : ¬ids.idxOf p.entry.id < ids.idxOf q.entry.id := by
        rw [← hplace, hsame]
        exact lt_irrefl _
      simp [hsame, hnot, pure, Except.pure]
    · simp [hsame, ← hplace]
  · have hlex : recency ids p.entry < recency ids q.entry ↔
        p.entry.createdAt.micros < q.entry.createdAt.micros := by
      simp [recency, Prod.Lex.toLex_lt_toLex, hmicros]
    simp [beq_eq_false_iff_ne.2 hmicros, hlex]

/-- Entries with different identifiers, one of which is among those that are counted, differ in how
recent they are. -/
theorem recency_ne {e e' : LedgerEntry} (he : e.id ∈ ids) (hne : e.id ≠ e'.id) :
    recency ids e ≠ recency ids e' := by
  intro heq
  have hidx : ids.idxOf e.id = ids.idxOf e'.id := congrArg (fun x => (ofLex x).2) heq
  exact hne ((List.idxOf_inj he).1 hidx)

/-- The first list has the entries of the second one, the most recent first. -/
structure NewestFirst (ids : List Uuid) (own es : List LedgerEntry) : Prop where
  /-- They are the same entries. -/
  perm : own.Perm es
  /-- Every entry is more recent than those after it. -/
  descends : own.Pairwise fun e e' => recency ids e' < recency ids e

/-- There is only one way to put entries in that order. -/
theorem NewestFirst.unique {own' : List LedgerEntry} (h : NewestFirst ids own es)
    (h' : NewestFirst ids own' es) : own = own' :=
  (h.perm.trans h'.perm.symm).eq_of_pairwise
    (fun _ _ _ _ hlt hgt => absurd (hlt.trans hgt) (lt_irrefl _)) h.descends h'.descends

/-- Entries that are at least as recent as those after them are more recent if their identifiers
differ. -/
theorem descends_of_le (hids : own.map LedgerEntry.id ⊆ ids) (h : (own.map LedgerEntry.id).Nodup)
    (hle : own.Pairwise fun e e' => recency ids e' ≤ recency ids e) :
    own.Pairwise fun e e' => recency ids e' < recency ids e := by
  refine List.Pairwise.imp_of_mem ?_ (hle.and (List.pairwise_map.1 h))
  rintro e e' he - ⟨hle, hne⟩
  exact lt_of_le_of_ne hle (recency_ne (hids (List.mem_map_of_mem he)) hne).symm

/-- Entries can be put in that order. -/
theorem exists_newestFirst (hids : es.map LedgerEntry.id ⊆ ids)
    (h : (es.map LedgerEntry.id).Nodup) : ∃ own, NewestFirst ids own es := by
  let r : LedgerEntry → LedgerEntry → Prop := fun e e' => recency ids e' ≤ recency ids e
  have : Std.Total r := ⟨fun _ _ => le_total _ _⟩
  have : IsTrans LedgerEntry r := ⟨fun _ _ _ h h' => h'.trans h⟩
  have hperm := es.perm_insertionSort r
  have hmap := hperm.map LedgerEntry.id
  exact ⟨es.insertionSort r, hperm, descends_of_le (fun _ hx => hids (hmap.subset hx))
    (hmap.nodup_iff.2 h) (es.pairwise_insertionSort r)⟩

/-! ## Sorting rows -/

/-- How recent the entry of a row is. -/
def rowRecency (ids : List Uuid) (row : Fields) : ℤ ×ₗ ℕ :=
  match entryOf row with
  | .ok e => recency ids e
  | .error _ => toLex (0, 0)

/-- A row is as recent as the entry that it stands for. -/
theorem rowRecency_eq {e : LedgerEntry} {row : Fields} (h : e.IsRow row) :
    rowRecency ids row = recency ids e := by
  rw [rowRecency, entryOf_eq h]

/-- Rows that were sorted by how recent they are stand for the entries in that order. -/
theorem forall₂_of_sorted {rows sorted : List Fields} (hperm : sorted.Perm rows)
    (hasc : Sorting.Ascends (rowRecency ids) sorted.reverse)
    (hrows : List.Forall₂ (fun row e => LedgerEntry.IsRow e row) rows es)
    (hown : NewestFirst ids own es) (hids : es.map LedgerEntry.id ⊆ ids)
    (h : (es.map LedgerEntry.id).Nodup) :
    List.Forall₂ (fun row e => LedgerEntry.IsRow e row) sorted own := by
  obtain ⟨own', hsorted, hperm'⟩ := List.perm_comp_forall₂ hperm hrows
  have hdescends : own'.Pairwise fun e e' => recency ids e' ≤ recency ids e := by
    refine Store.pairwise_of_forall₂ hsorted (List.pairwise_reverse.1 hasc) ?_
    intro row row' e e' he he' hle
    rwa [rowRecency_eq he, rowRecency_eq he'] at hle
  have hmap := hperm'.map LedgerEntry.id
  have hown' : NewestFirst ids own' es :=
    ⟨hperm', descends_of_le (fun _ hx => hids (hmap.subset hx)) (hmap.nodup_iff.2 h) hdescends⟩
  rwa [hown.unique hown']

/-! ## The rows of a user -/

variable {cfg : Config} {base : Option Store} {b : Books} {w : World} {u : Uuid}

/-- The entries of a user. -/
def ofUser (u : Uuid) (es : List LedgerEntry) : List LedgerEntry := es.filter fun e => e.userId = u

/-- The times of all entries can be compared with each other. -/
def Comparable (es : List LedgerEntry) : Prop :=
  ∀ e ∈ es, ∀ e' ∈ es, e.createdAt.comparable e'.createdAt = true

/-- What is known of the rows of a user. -/
structure UserRows (ids : List Uuid) (s : Store) (u : Uuid) (es : List LedgerEntry)
    (rows : List Fields) : Prop where
  /-- They are found by the user. -/
  selected : s.select entriesTable (·.columnIs "user_id" (.uuid u)) = .ok rows
  /-- They stand for the entries of the user. -/
  stand : List.Forall₂ (fun row e => LedgerEntry.IsRow e row) rows (ofUser u es)
  /-- Their keys compare as the entries do. -/
  compares : Sorting.Compares (compareKeys timeKey) (rowRecency ids) rows
  /-- The row of an entry of the user is found by its identifier, and its key can be compared with
  those of the others. -/
  anchored : ∀ a ∈ ofUser u es, ∃ anchor, s.get entriesTable (.uuid a.id) = .ok (some anchor) ∧
    a.IsRow anchor ∧
    ∀ row ∈ rows, compareKeys timeKey row anchor =
      .ok (decide (rowRecency ids row < recency ids a))

/-- The keys of the rows of two entries of a user compare as the entries do. -/
theorem compareKeys_of_placed {placed : List PlacedEntry}
    (hplaces : placed.Pairwise fun p q => p.place < q.place)
    (hids : ((placed.map PlacedEntry.entry).map LedgerEntry.id).Sublist ids) (hnodup : ids.Nodup)
    (hc : Comparable (ofUser u (placed.map PlacedEntry.entry))) {p q : PlacedEntry} (hp : p ∈ placed)
    (hpu : p.entry.userId = u) (hq : q ∈ placed) (hqu : q.entry.userId = u) {row row' : Fields}
    (hrow : p.IsRow row) (hrow' : q.IsRow row') :
    compareKeys timeKey row row' =
      .ok (decide (recency ids p.entry < recency ids q.entry)) := by
  have hmem : ∀ x ∈ placed, x.entry.userId = u →
      x.entry ∈ ofUser u (placed.map PlacedEntry.entry) := fun x hx hxu =>
    List.mem_filter.2 ⟨List.mem_map_of_mem hx, decide_eq_true hxu⟩
  exact compareKeys_timeKey hrow hrow' (hc _ (hmem p hp hpu) _ (hmem q hq hqu))
    (place_lt_iff hplaces hids hnodup p hp q hq)

/-- The rows of a user are found and have an order if the times of the entries can be compared. -/
theorem exists_userRows (h : w.Holds cfg base b) (hids : (b.entries.map LedgerEntry.id).Sublist ids)
    (hnodup : ids.Nodup) (hc : Comparable (ofUser u b.entries)) :
    ∃ rows, UserRows ids w.store u b.entries rows := by
  -- an entry alone does not tell its place, so the rows are listed with their places first
  obtain ⟨placed, hlists, hmap, hplaces⟩ := h.held.entries.exists_placed h.sound
  have hkeep : ∀ (p : PlacedEntry) (columns : Fields), Stored.IsRow p columns →
      columns.columnIs "user_id" (.uuid u) = .ok (decide (p.entry.userId = u)) := by
    intro p columns hp
    have hp : p.IsRow columns := hp
    rw [Fields.columnIs, Fields.column, hp.entry.userId]
    refine (Value.equalTo_uuid p.entry.userId (.uuid u)).trans (congrArg Except.ok ?_)
    rw [Bool.eq_iff_iff, Value.sameKey_uuid_iff, decide_eq_true_eq, Value.uuid.injEq, eq_comm]
  obtain ⟨rows, hselect, hrows⟩ := hlists.select h.sound hkeep
  have hmapOf : (placed.filter fun p => decide (p.entry.userId = u)).map PlacedEntry.entry =
      ofUser u b.entries := by
    rw [ofUser, ← hmap, List.filter_map]
    rfl
  rw [← hmap] at hids hc
  have hbeside : ∀ row ∈ rows, ∃ p ∈ placed, p.entry.userId = u ∧ p.IsRow row := by
    intro row hrow
    obtain ⟨p, hp, hR⟩ := exists_mem_of_forall₂ hrows hrow
    obtain ⟨hp, hpu⟩ := List.mem_filter.1 hp
    exact ⟨p, hp, of_decide_eq_true hpu, hR⟩
  refine ⟨rows, hselect, ?_, ?_, ?_⟩
  · rw [← hmapOf, List.forall₂_map_right_iff]
    exact hrows.imp fun row p hp => hp.entry
  · intro row hrow row' hrow'
    obtain ⟨p, hp, hpu, hR⟩ := hbeside row hrow
    obtain ⟨q, hq, hqu, hQ⟩ := hbeside row' hrow'
    rw [rowRecency_eq hR.entry, rowRecency_eq hQ.entry]
    exact compareKeys_of_placed hplaces hids hnodup hc hp hpu hq hqu hR hQ
  · intro a ha
    rw [← hmapOf] at ha
    obtain ⟨q, hq, rfl⟩ := List.mem_map.1 ha
    obtain ⟨hq, hqu⟩ := List.mem_filter.1 hq
    obtain ⟨anchor, hget, hQ⟩ := hlists.get_keyOf h.sound hq
    have hQ : q.IsRow anchor := hQ
    refine ⟨anchor, hget, hQ.entry, fun row hrow => ?_⟩
    obtain ⟨p, hp, hpu, hR⟩ := hbeside row hrow
    rw [rowRecency_eq hR.entry]
    exact compareKeys_of_placed hplaces hids hnodup hc hp hpu hq (of_decide_eq_true hqu) hR hQ

/-! ## Reading all entries -/

/-- The rows of a user that were sorted stand for the entries in that order. -/
theorem UserRows.forall₂_of_sorted {rows sorted : List Fields}
    (hrows : UserRows ids w.store u b.entries rows)
    (hids : (b.entries.map LedgerEntry.id).Sublist ids) (hnodup : ids.Nodup)
    (hown : NewestFirst ids own (ofUser u b.entries)) (hperm : sorted.Perm rows)
    (hasc : Sorting.Ascends (rowRecency ids) sorted.reverse) :
    List.Forall₂ (fun row e => LedgerEntry.IsRow e row) sorted own := by
  have hsub : ((ofUser u b.entries).map LedgerEntry.id).Sublist (b.entries.map LedgerEntry.id) :=
    List.filter_sublist.map _
  exact Ledger.forall₂_of_sorted hperm hasc hrows.stand hown
    (fun _ hx => hids.subset (hsub.subset hx)) ((hnodup.sublist hids).sublist hsub)

open Op

/-- All entries of a user are read in the order in which they were made. -/
theorem ends_entriesForUser_ok (h : w.Holds cfg base b)
    (hids : (b.entries.map LedgerEntry.id).Sublist ids) (hnodup : ids.Nodup)
    (hc : Comparable (ofUser u b.entries)) (hown : NewestFirst ids own (ofUser u b.entries)) :
    (entriesForUser (.uuid u)).Ends w (fun es w' => es = own.reverse ∧ w' = w)
      fun _ _ => False := by
  obtain ⟨rows, hrows⟩ := exists_userRows h hids hnodup hc
  obtain ⟨sorted, hsorted, hasc⟩ := exists_sortByKey hrows.compares
  refine ends_bind (ends_query_ok hrows.selected ?_)
  have hperm := perm_of_sortByKey hsorted
  have hstand := hrows.forall₂_of_sorted hids hnodup hown (sorted.reverse_perm.trans hperm)
    (by rwa [List.reverse_reverse])
  have hread : sorted.mapM entryOf = .ok own.reverse := by
    refine mapM_eq_ok ?_
    rw [← List.forall₂_reverse_iff, List.reverse_reverse]
    exact hstand.imp fun row e he => entryOf_eq he
  refine ends_ofExcept_ok ?_ ⟨rfl, rfl⟩
  rw [oldestFirst, hsorted]
  exact hread

/-! ## Reading pages -/

/-- A page of the entries, the newest of which come first. -/
def pageOf (u : Uuid) (limit : Int) (rest : List LedgerEntry) : LedgerPage where
  userId := u
  entries := rest.take limit.toNat
  limit := limit
  hasMore := decide (limit < rest.length)
  nextCursor :=
    if limit < rest.length then (rest.take limit.toNat).getLast?.map LedgerEntry.id else none

/-- The entries that are left to be read after an entry, or from the start. -/
def left (ids : List Uuid) (own : List LedgerEntry) : Option LedgerEntry → List LedgerEntry
  | none => own
  | some a => own.filter fun e => recency ids e < recency ids a

/-- Behind the last of the first entries are those that are less recent than it. -/
theorem filter_recency_lt {l : List LedgerEntry}
    (hl : l.Pairwise fun e e' => recency ids e' < recency ids e) {n : Nat} {a : LedgerEntry}
    (ha : (l.take n).getLast? = some a) :
    (l.filter fun e => recency ids e < recency ids a) = l.drop n := by
  obtain ⟨init, hinit⟩ := List.getLast?_eq_some_iff.1 ha
  have hl' := hl
  rw [← List.take_append_drop n l, List.pairwise_append, hinit] at hl'
  obtain ⟨hfirst, -, hlast⟩ := hl'
  conv_lhs => rw [← List.take_append_drop n l]
  rw [List.filter_append, hinit]
  have hnone : ((init ++ [a]).filter fun e => decide (recency ids e < recency ids a)) = [] := by
    refine List.filter_eq_nil_iff.2 fun e he => ?_
    rw [decide_eq_true_eq]
    rcases List.mem_append.1 he with he | he
    · exact lt_asymm ((List.pairwise_append.1 hfirst).2.2 e he a List.mem_cons_self)
    · rw [List.mem_singleton.1 he]
      exact lt_irrefl _
  have hall : ((l.drop n).filter fun e => decide (recency ids e < recency ids a)) = l.drop n :=
    List.filter_eq_self.2 fun e he => decide_eq_true
      (hlast a (List.mem_append_right _ List.mem_cons_self) e he)
  rw [hnone, hall, List.nil_append]

/-- The entries that are left stand in their order. -/
theorem NewestFirst.left_descends (h : NewestFirst ids own es) (anchor : Option LedgerEntry) :
    (left ids own anchor).Pairwise fun e e' => recency ids e' < recency ids e := by
  cases anchor with
  | none => exact h.descends
  | some a => exact h.descends.filter _

/-- What is left are the entries that are less recent. -/
theorem NewestFirst.mem_left (h : NewestFirst ids own es) {anchor : Option LedgerEntry}
    {e : LedgerEntry} :
    e ∈ left ids own anchor ↔ e ∈ es ∧ ∀ a ∈ anchor, recency ids e < recency ids a := by
  cases anchor with
  | none => simp [left, h.perm.mem_iff]
  | some a => simp [left, h.perm.mem_iff]

/-- After the last entry of a page is left what was left after the page. -/
theorem NewestFirst.left_eq_drop (h : NewestFirst ids own es) {anchor : Option LedgerEntry}
    {n : Nat} {a : LedgerEntry} (ha : ((left ids own anchor).take n).getLast? = some a) :
    left ids own (some a) = (left ids own anchor).drop n := by
  have hless := (h.mem_left.1 (List.mem_of_mem_take (List.mem_of_getLast? ha))).2
  rw [← filter_recency_lt (h.left_descends anchor) ha]
  cases anchor with
  | none => rfl
  | some c =>
    rw [left, left, List.filter_filter]
    refine List.filter_congr fun e _ => ?_
    rw [Bool.eq_iff_iff, Bool.and_eq_true, decide_eq_true_eq, decide_eq_true_eq]
    exact ⟨fun hlt => ⟨hlt, hlt.trans (hless c rfl)⟩, And.left⟩

end Ledger

end RewardLedger
