import Mathlib.Data.String.Basic
import RewardLedger.Proofs.Rule.Changing

/-!
# Listings of versions

Versions are listed by ascending name and descending number, and the two together tell versions
apart, so there is one listing of the versions that a world holds (`RuleBook.Listing`). All four ways
of listing rules are read off it: all of them, those that are active, those with the last number of
their name, and the one of these that has a given name.
-/

namespace RewardLedger

open StoredRule Op

namespace StoredRule

/-- What versions are listed by: the name counts first, and then the number, of which the greatest
comes first. -/
def rank (r : StoredRule) : String ×ₗ ℤ := toLex (r.name, -(r.version : ℤ))

/-- A version comes before another one if its name does or, of the same name, its number is greater. -/
theorem rank_lt_iff {r r' : StoredRule} :
    r.rank < r'.rank ↔ r.name < r'.name ∨ r.name = r'.name ∧ r'.version < r.version := by
  rw [rank, rank, Prod.Lex.toLex_lt_toLex]
  simp

/-- Versions of the same rank have the same name and number. -/
theorem eq_of_rank_eq {r r' : StoredRule} (h : r.rank = r'.rank) :
    r.name = r'.name ∧ r.version = r'.version := by
  have hpair := Prod.mk.inj (toLex.injective h)
  exact ⟨hpair.1, by simpa using hpair.2⟩

/-- What the row of a version is listed by. -/
def rowRank (columns : Fields) : String ×ₗ ℤ :=
  match columns.find? "name", columns.find? "version" with
  | some (.str name), some (.int version) => toLex (name, -version)
  | _, _ => toLex ("", 0)

/-- A row has the rank of the version that it stands for. -/
theorem IsRow.rowRank {r : StoredRule} {columns : Fields} (h : r.IsRow columns) :
    StoredRule.rowRank columns = r.rank := by
  rw [StoredRule.rowRank, h.name, h.version]
  rfl

/-- The keys by which rows are listed compare as the versions do. -/
theorem IsRow.compareKeys {r r' : StoredRule} {columns columns' : Fields} (h : r.IsRow columns)
    (h' : r'.IsRow columns') :
    compareKeys RuleBook.listingKey columns columns' = .ok (decide (r.rank < r'.rank)) := by
  have hkey : ∀ {q : StoredRule} {row : Fields}, q.IsRow row →
      RuleBook.listingKey row = .ok ⟨.str q.name, .int (-q.version)⟩ := fun hq => by
    rw [RuleBook.listingKey, column_eq hq.name, column_eq hq.version]
    rfl
  rw [RewardLedger.compareKeys, hkey h, hkey h']
  simp only [bind, Except.bind, SortKey.lessThan, Value.equalTo_str, Value.sameKey_str,
    Value.equalTo_int]
  -- the numbers are compared if the names are the same
  by_cases hname : r.name = r'.name
  · have hlt : r.rank < r'.rank ↔ r'.version < r.version := by simp [rank_lt_iff, hname]
    by_cases hversion : r.version = r'.version
    · simp [hname, hversion, hlt, pure, Except.pure]
    · simp only [hname, beq_self_eq_true, if_true, neg_inj, Nat.cast_inj, hversion, decide_false,
        Bool.false_eq_true, if_false, Value.lessThan, Value.related_int, OrderRelation.admits_less,
        neg_lt_neg_iff, Nat.cast_lt, hlt]
  · have hlt : r.rank < r'.rank ↔ r.name < r'.name := by simp [rank_lt_iff, hname]
    simp only [beq_eq_false_iff_ne.2 hname, Bool.false_eq_true, if_false, Value.lessThan_str, hlt]
    exact congrArg Except.ok (OrderRelation.admits_less r.name r'.name)

end StoredRule

namespace RuleBook

variable {base : Option Store} {rules all : List StoredRule} {w : World}

/-- Versions of the same name and number are the same. -/
theorem Steps.eq_of_version (h : Steps [] rules) {r r' : StoredRule} (hr : r ∈ rules)
    (hr' : r' ∈ rules) (hname : r.name = r'.name) (hversion : r.version = r'.version) : r = r' := by
  have hnodup : (versionsOf r.name rules).Nodup := by
    rw [h.numbered r.name]
    exact List.nodup_range'
  exact List.inj_on_of_nodup_map hnodup (List.mem_filter.2 ⟨hr, decide_eq_true rfl⟩)
    (List.mem_filter.2 ⟨hr', decide_eq_true hname.symm⟩) hversion

/-! ## The listing -/

/-- The second list has the versions of the first one by ascending name and descending number. -/
structure Listing (rules all : List StoredRule) : Prop where
  /-- They are the same versions. -/
  perm : all.Perm rules
  /-- Every version comes before those after it. -/
  ascends : all.Pairwise fun r r' => r.rank < r'.rank

/-- No two of the versions have the same name and number. -/
def Distinct (rules : List StoredRule) : Prop := rules.Pairwise fun r r' => r.rank ≠ r'.rank

/-- Versions that steps lead to differ in their names and numbers. -/
theorem Steps.distinct (h : Steps [] rules) : Distinct rules := by
  refine List.Pairwise.imp_of_mem ?_ (List.Nodup.of_map _ h.nodup)
  intro r r' hr hr' hne heq
  obtain ⟨hname, hversion⟩ := eq_of_rank_eq heq
  exact hne (h.eq_of_version hr hr' hname hversion)

/-- Distinct versions in which each comes no later than those after it are listed. -/
theorem Distinct.listing (h : Distinct rules) (hperm : all.Perm rules)
    (hle : all.Pairwise fun r r' => r.rank ≤ r'.rank) : Listing rules all :=
  ⟨hperm, (hle.and (h.perm hperm.symm Ne.symm)).imp fun h => lt_of_le_of_ne h.1 h.2⟩

/-- Distinct versions have a listing. -/
theorem Distinct.exists_listing (h : Distinct rules) : ∃ all, Listing rules all := by
  let before : StoredRule → StoredRule → Prop := fun r r' => r.rank ≤ r'.rank
  have : Std.Total before := ⟨fun _ _ => le_total _ _⟩
  have : IsTrans StoredRule before := ⟨fun _ _ _ h h' => h.trans h'⟩
  exact ⟨rules.insertionSort before,
    h.listing (rules.perm_insertionSort before) (rules.pairwise_insertionSort before)⟩

/-- Versions that steps lead to have a listing. -/
theorem Steps.exists_listing (h : Steps [] rules) : ∃ all, Listing rules all :=
  h.distinct.exists_listing

/-- Versions have only one listing. -/
theorem Listing.unique {all' : List StoredRule} (h : Listing rules all) (h' : Listing rules all') :
    all = all' :=
  (h.perm.trans h'.perm.symm).eq_of_pairwise
    (fun _ _ _ _ hlt hgt => absurd (hlt.trans hgt) (lt_irrefl _)) h.ascends h'.ascends

/-- The listing of some of the versions is found in the listing of all. -/
theorem Listing.filter (h : Listing rules all) (p : StoredRule → Bool) :
    Listing (rules.filter p) (all.filter p) :=
  ⟨h.perm.filter p, h.ascends.filter p⟩

/-- Rows that have been sorted stand for the versions in the order of the listing. -/
theorem rowsOf_of_sorted (h : Distinct rules) (hall : Listing rules all) {p : StoredRule → Bool}
    {rows sorted : List Fields} (hrows : RowsOf rows (rules.filter p)) (hperm : sorted.Perm rows)
    (hasc : Sorting.Ascends rowRank sorted) : RowsOf sorted (all.filter p) := by
  -- the rows stand for the versions in some order, and in ascending order there is but one listing
  obtain ⟨kept, hkept, hperm'⟩ := List.perm_comp_forall₂ hperm hrows
  have hle : kept.Pairwise fun r r' => r.rank ≤ r'.rank := by
    refine Store.pairwise_of_forall₂ hkept hasc ?_
    intro columns columns' r r' hr hr' hle
    rwa [hr.rowRank, hr'.rowRank] at hle
  have hdistinct : Distinct (rules.filter p) := h.filter p
  rwa [← (hdistinct.listing hperm' hle).unique (hall.filter p)]

/-- The rows of the versions to be kept are read in the order of the listing. -/
theorem ends_listed_of_lists {K : Value → Prop} (hlists : w.store.Lists rules)
    (hs : w.store.Sound K) (hd : Distinct rules) (hall : Listing rules all)
    {keep : Fields → Except Failure Bool} {p : StoredRule → Bool}
    (hp : ∀ r columns, IsRow r columns → keep columns = .ok (p r)) :
    (listed keep).Ends w (fun rows w' => RowsOf rows (all.filter p) ∧ w' = w)
      fun _ _ => False := by
  obtain ⟨rows, hselect, hrows⟩ := hlists.select hs hp
  have hcompares : Sorting.Compares (compareKeys listingKey) rowRank rows := by
    intro row hrow row' hrow'
    obtain ⟨r, -, hr⟩ := exists_mem_of_forall₂ hrows hrow
    obtain ⟨r', -, hr'⟩ := exists_mem_of_forall₂ hrows hrow'
    rw [IsRow.rowRank hr, IsRow.rowRank hr']
    exact IsRow.compareKeys hr hr'
  obtain ⟨sorted, hsorted, hasc⟩ := exists_sortByKey hcompares
  exact ends_bind (ends_query_ok hselect (ends_ofExcept_ok hsorted
    ⟨rowsOf_of_sorted hd hall hrows (perm_of_sortByKey hsorted) hasc, rfl⟩))

/-- In a world that holds versions the rows of those to be kept are read in the order of the
listing. -/
theorem ends_listed (h : w.HoldsRules base rules) (hall : Listing rules all)
    {keep : Fields → Except Failure Bool} {p : StoredRule → Bool}
    (hp : ∀ r columns, IsRow r columns → keep columns = .ok (p r)) :
    (listed keep).Ends w (fun rows w' => RowsOf rows (all.filter p) ∧ w' = w)
      fun _ _ => False :=
  ends_listed_of_lists h.lists h.sound h.reached.distinct hall hp

/-- Rows that stand for versions are read as the rules that these are. -/
theorem mapM_ofRow {rows : List Fields} {olds : List StoredRule} (h : RowsOf rows olds) :
    rows.mapM Rule.ofRow = .ok (olds.map toRule) :=
  mapM_eq_ok (List.forall₂_map_right_iff.2 (h.imp fun _ _ hr => IsRow.ofRow hr))

/-! ## All rules and the active ones -/

/-- All rules and the active ones are read in the order of the listing. -/
theorem perform_of_lists {K : Value → Prop} (hlists : w.store.Lists rules) (hs : w.store.Sound K)
    (hd : Distinct rules) (hall : Listing rules all) :
    RuleBook.all.perform w = (.ok (all.map toRule), w) ∧
      active.perform w = (.ok ((all.filter StoredRule.isActive).map toRule), w) := by
  have hread : ∀ (keep : Fields → Except Failure Bool) (p : StoredRule → Bool),
      (∀ r columns, IsRow r columns → keep columns = .ok (p r)) →
        (do Op.ofExcept ((← listed keep).mapM Rule.ofRow)).perform w =
          (.ok ((all.filter p).map toRule), w) := by
    intro keep p hp
    refine Ends.perform_eq (ends_bind ((ends_listed_of_lists hlists hs hd hall hp).mono ?_
      fun _ _ hbad => hbad.elim))
    rintro rows w' ⟨hrows, rfl⟩
    exact ends_ofExcept_ok (mapM_ofRow hrows) ⟨rfl, rfl⟩
  refine ⟨?_, hread _ _ fun _ _ hr => IsRow.isActive hr⟩
  have hevery := hread (fun _ => .ok true) (fun _ => true) fun _ _ _ => rfl
  rwa [List.filter_true] at hevery

/-- All rules are read in the order of the listing. -/
theorem perform_all (h : w.HoldsRules base rules) (hall : Listing rules all) :
    RuleBook.all.perform w = (.ok (all.map toRule), w) :=
  (perform_of_lists h.lists h.sound h.reached.distinct hall).1

/-- The active rules are read in the order of the listing. -/
theorem perform_active (h : w.HoldsRules base rules) (hall : Listing rules all) :
    active.perform w = (.ok ((all.filter StoredRule.isActive).map toRule), w) :=
  (perform_of_lists h.lists h.sound h.reached.distinct hall).2

/-! ## The latest versions -/

/-- The first version of each name, where names found before are passed over. -/
def firstOf (seen : List String) : List StoredRule → List StoredRule
  | [] => []
  | r :: rest => if r.name ∈ seen then firstOf seen rest else r :: firstOf (r.name :: seen) rest

/-- The first row of each name stands for the first version of the name. -/
theorem firstPerName_eq {rows : List Fields} {olds : List StoredRule} (h : RowsOf rows olds)
    (seen : List String) :
    ∃ kept, firstPerName (seen.map Value.str) rows = .ok kept ∧ RowsOf kept (firstOf seen olds) := by
  induction h generalizing seen with
  | nil => exact ⟨[], rfl, .nil⟩
  | @cons columns r rest olds hr _ ih =>
    have hseen : (seen.map Value.str).any (Value.str r.name).sameKey = decide (r.name ∈ seen) := by
      rw [Bool.eq_iff_iff, List.any_map, List.any_eq_true, decide_eq_true_eq]
      simp only [Function.comp_def, Value.sameKey_str, beq_iff_eq, exists_eq_right']
    rw [firstPerName, column_eq hr.name]
    simp only [bind, Except.bind, Value.hashable, hseen, firstOf]
    by_cases hmem : r.name ∈ seen
    · obtain ⟨kept, hkept, hrows⟩ := ih seen
      refine ⟨kept, ?_, ?_⟩
      · simpa [hmem, pure, Except.pure] using hkept
      · rwa [if_pos hmem]
    · obtain ⟨kept, hkept, hrows⟩ := ih (r.name :: seen)
      rw [List.map_cons] at hkept
      refine ⟨columns :: kept, ?_, ?_⟩
      · simp [hmem, pure, Except.pure, hkept]
      · rw [if_neg hmem]
        exact .cons hr hrows

/-- If the numbers of each name descend, the first version of a name is the one with the greatest
number. -/
theorem firstOf_eq_filter {olds : List StoredRule}
    (h : olds.Pairwise fun r r' => r.name = r'.name → r'.version < r.version)
    (seen : List String) :
    firstOf seen olds = olds.filter fun r =>
      decide (r.name ∉ seen ∧ ∀ o ∈ olds, o.name = r.name → o.version ≤ r.version) := by
  induction olds generalizing seen with
  | nil => rfl
  | cons r rest ih =>
    obtain ⟨hr, hrest⟩ := List.pairwise_cons.1 h
    rw [firstOf]
    by_cases hmem : r.name ∈ seen
    · -- a version whose name was found before changes nothing for those after it
      rw [if_pos hmem, ih hrest, List.filter_cons_of_neg (by simp [hmem])]
      refine List.filter_congr fun x _ => decide_eq_decide.2 (and_congr_right fun hx => ?_)
      have hne : r.name ≠ x.name := fun hname => hx (hname ▸ hmem)
      simp [hne]
    · -- the first version of a name has the greatest number, so no other one of the name is kept
      have hfirst : r.name ∉ seen ∧ ∀ o ∈ r :: rest, o.name = r.name → o.version ≤ r.version := by
        refine ⟨hmem, fun o ho hname => ?_⟩
        rcases List.mem_cons.1 ho with rfl | ho
        · exact Nat.le_refl _
        · exact (hr o ho hname.symm).le
      rw [if_neg hmem, List.filter_cons_of_pos (by simpa using hfirst), ih hrest]
      refine congrArg (r :: ·) (List.filter_congr fun x hx => decide_eq_decide.2 ?_)
      simp only [List.mem_cons, not_or, forall_eq_or_imp]
      constructor
      · rintro ⟨⟨hne, hx⟩, hgreatest⟩
        exact ⟨hx, fun hname => absurd hname.symm hne, hgreatest⟩
      · rintro ⟨hx, hle, hgreatest⟩
        refine ⟨⟨fun hname => ?_, hx⟩, hgreatest⟩
        exact absurd (hle hname.symm) (Nat.not_le.2 (hr x ‹_› hname.symm))

/-- The version has the last number of its name. -/
def isLatest (rules : List StoredRule) (r : StoredRule) : Bool :=
  r.version = (versionsOf r.name rules).length

/-- There is a version with the last number of each name. -/
theorem Steps.exists_latest (h : Steps [] rules) {r : StoredRule} (hr : r ∈ rules) :
    ∃ o ∈ rules, o.name = r.name ∧ isLatest rules o = true := by
  have hpositive := h.version_mem hr
  have hmem : (versionsOf r.name rules).length ∈ versionsOf r.name rules := by
    have hrange : (versionsOf r.name rules).length ∈
        List.range' 1 (versionsOf r.name rules).length := by
      rw [List.mem_range'_1]
      omega
    rwa [← h.numbered r.name] at hrange
  obtain ⟨o, ho, hlast⟩ := List.mem_map.1 hmem
  obtain ⟨ho, hname⟩ := List.mem_filter.1 ho
  have hname : o.name = r.name := of_decide_eq_true hname
  exact ⟨o, ho, hname, decide_eq_true (by rw [hlast, hname])⟩

/-- A version has the last number of its name if no other one has a greater number. -/
theorem Steps.isLatest_iff (h : Steps [] rules) {r : StoredRule} (hr : r ∈ rules) :
    isLatest rules r = true ↔ ∀ o ∈ rules, o.name = r.name → o.version ≤ r.version := by
  rw [isLatest, decide_eq_true_eq]
  constructor
  · intro hlast o ho hname
    rw [hlast, ← hname]
    exact (h.version_mem ho).2
  · intro hgreatest
    obtain ⟨o, ho, hname, hlast⟩ := h.exists_latest hr
    rw [isLatest, decide_eq_true_eq, hname] at hlast
    exact Nat.le_antisymm (h.version_mem hr).2 (hlast ▸ hgreatest o ho hname)

/-- In a listing the numbers of each name descend. -/
theorem Listing.descends (h : Listing rules all) :
    all.Pairwise fun r r' => r.name = r'.name → r'.version < r.version :=
  h.ascends.imp fun {r r'} hlt hname => by simpa [rank_lt_iff, hname] using hlt

/-- The latest versions are listed by ascending name, of which each occurs once. -/
theorem Listing.latest_names (h : Listing rules all) :
    (all.filter (isLatest rules)).Pairwise fun r r' => r.name < r'.name := by
  refine List.Pairwise.imp_of_mem ?_ (h.ascends.filter (isLatest rules))
  intro r r' hmem hmem' hlt
  obtain ⟨hall, hlast⟩ := List.mem_filter.1 hmem
  obtain ⟨hall', hlast'⟩ := List.mem_filter.1 hmem'
  rcases rank_lt_iff.1 hlt with hname | ⟨hname, hversion⟩
  · exact hname
  · rw [isLatest, decide_eq_true_eq] at hlast hlast'
    rw [hlast, hlast', hname] at hversion
    exact absurd hversion (lt_irrefl _)

/-- The latest version of each name is read in the order of the listing. -/
theorem perform_latestPerName (h : w.HoldsRules base rules) (hall : Listing rules all) :
    latestPerName.perform w = (.ok ((all.filter (isLatest rules)).map toRule), w) := by
  refine Ends.perform_eq (ends_bind ((ends_listed h hall (p := fun _ => true)
    fun _ _ _ => rfl).mono ?_ fun _ _ hbad => hbad.elim))
  rintro rows w' ⟨hrows, rfl⟩
  rw [List.filter_true] at hrows
  obtain ⟨kept, hkept, hfirst⟩ := firstPerName_eq hrows []
  have hlatest : firstOf [] all = all.filter (isLatest rules) := by
    rw [firstOf_eq_filter hall.descends]
    refine List.filter_congr fun r hr => ?_
    rw [Bool.eq_iff_iff, decide_eq_true_eq, h.reached.isLatest_iff (hall.perm.subset hr)]
    simp [hall.perm.mem_iff]
  rw [hlatest] at hfirst
  refine ends_ofExcept_ok ?_ ⟨rfl, rfl⟩
  rw [List.map_nil] at hkept
  rw [hkept]
  exact mapM_ofRow hfirst

/-- The first version of a name in the listing is the latest one of the name. -/
theorem Listing.head?_filter_name (hr : Steps [] rules) (h : Listing rules all) (name : String) :
    (all.filter (·.name = name)).head? =
      (all.filter (isLatest rules)).find? (·.name = name) := by
  have hdescends := h.descends.filter fun r => decide (r.name = name)
  generalize hnamed : all.filter (·.name = name) = named at hdescends
  have hmem : ∀ r, r ∈ named ↔ r ∈ rules ∧ r.name = name := fun r => by
    rw [← hnamed, List.mem_filter, h.perm.mem_iff, decide_eq_true_eq]
  cases named with
  | nil =>
    refine (List.find?_eq_none.2 fun r hr' hname => ?_).symm
    exact absurd ((hmem r).2 ⟨h.perm.subset (List.mem_filter.1 hr').1, of_decide_eq_true hname⟩)
      List.not_mem_nil
  | cons r rest =>
    obtain ⟨hrules, hname⟩ := (hmem r).1 List.mem_cons_self
    have hlast : isLatest rules r = true := by
      refine (hr.isLatest_iff hrules).2 fun o ho hon => ?_
      rcases List.mem_cons.1 ((hmem o).2 ⟨ho, hon.trans hname⟩) with rfl | hrest
      · exact Nat.le_refl _
      · exact ((List.pairwise_cons.1 hdescends).1 o hrest hon.symm).le
    have hfound : r ∈ all.filter (isLatest rules) :=
      List.mem_filter.2 ⟨h.perm.mem_iff.2 hrules, hlast⟩
    cases hfind : (all.filter (isLatest rules)).find? (·.name = name) with
    | none => exact absurd (decide_eq_true hname) (List.find?_eq_none.1 hfind r hfound)
    | some o =>
      -- both are the last one of the name
      have ho := List.mem_filter.1 (List.mem_of_find?_eq_some hfind)
      have hon : o.name = name := by simpa using List.find?_some hfind
      have hversion := ho.2
      rw [isLatest, decide_eq_true_eq, hon] at hversion
      rw [isLatest, decide_eq_true_eq, hname] at hlast
      exact congrArg some (hr.eq_of_version hrules (h.perm.subset ho.1) (hname.trans hon.symm)
        (hlast.trans hversion.symm))

/-- Asking for the latest version of a name gives the one that is listed among the latest ones. -/
theorem perform_latest? (h : w.HoldsRules base rules) (hall : Listing rules all) (name : String) :
    (latest? (.str name)).perform w =
      (.ok (((all.filter (isLatest rules)).find? (·.name = name)).map toRule), w) := by
  rw [← hall.head?_filter_name h.reached name]
  refine Ends.perform_eq (ends_bind ((ends_listed h hall
    fun _ _ hr => IsRow.columnIs_name hr name).mono ?_ fun _ _ hbad => hbad.elim))
  rintro rows w' ⟨hrows, rfl⟩
  generalize all.filter (·.name = name) = named at hrows
  cases hrows with
  | nil => exact ends_pure ⟨rfl, rfl⟩
  | cons hr _ =>
    refine ends_ofExcept_ok ?_ ⟨rfl, rfl⟩
    rw [IsRow.ofRow hr]
    rfl

/-! ## Places -/

/-- The rows stand in the order in which they were added. -/
theorem places_ascend (h : w.HoldsRules base rules) :
    rules.Pairwise fun r r' => r.place < r'.place := by
  obtain ⟨t, ht, -⟩ := id h.lists
  have hrows := (h.sound _ t ht).1.rowsSound
  refine Store.pairwise_of_forall₂ (h.lists.forall₂_mem h.sound ht) hrows.seqs ?_
  have hplace : ∀ {row : Row} {r : StoredRule}, row ∈ t.rows → IsRow r row.columns →
      row.seq = r.place := fun {row r} hrow hr => by
    have hget := hrows.get_seq row hrow
    rw [Fields.get, hr.place] at hget
    exact Int.ofNat.inj (Value.int.inj hget).symm
  rintro row row' r r' ⟨hrow, hr, -⟩ ⟨hrow', hr', -⟩ hlt
  rwa [hplace hrow hr, hplace hrow' hr'] at hlt

end RuleBook

end RewardLedger
