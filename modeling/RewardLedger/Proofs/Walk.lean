import RewardLedger.Proofs.AppendOnly
import RewardLedger.Proofs.Ledger.Paging
import RewardLedger.Proofs.Times

/-!
# Walking through a user's entries

Whoever reads the entries of a user page by page, each page after the cursor that the page before
gave, reads every entry that was there at the start once, the newest first, whatever is called
between the pages (`World.walk_complete_of_run`). The one thing that it takes is that the times of
the entries can be compared: a time with a known offset and one without have no order, and then no
page can be put in order (`World.walk_error_of_mixedTimes`).

A walk is described by what each page holds (`Ledger.Walks`): a page of the entries that come after
the last entry of the page before, in the books as they are when it is read. Since an entry keeps its
identifier and its time, how recent it is does not change while the books go on
(`Ledger.recency_congr`), so all pages of a walk can be compared by how recent their entries are at
its end.
-/

namespace RewardLedger

variable {cfg : Config} {p : Permission} {base : Option Store} {b b' : Books} {w w' : World}

/-! ## What becomes of the entries of a user -/

namespace Ledger

variable {es es' es'' : List LedgerEntry} {u : Uuid} {ids : List Uuid}

/-- The entries of a user are those that they were before. -/
theorem ofUser_of_ages (h : List.Forall₂ LedgerEntry.Ages es es') (u : Uuid) :
    List.Forall₂ LedgerEntry.Ages (ofUser u es) (ofUser u es') := by
  have hsame : ∀ {e e' : LedgerEntry}, e.Ages e' →
      (decide (e.userId = u) = true ↔ decide (e'.userId = u) = true) := fun hages => by
    rw [hages.user_and_time.1]
  exact List.rel_filter (fun _ _ hages => hsame hages) h

/-- The entries of a user that are there later are those that were there before, and others behind
them. -/
theorem Continues.ofUser (h : Continues es es') (u : Uuid) :
    ∃ kept added, ofUser u es' = kept ++ added ∧
      List.Forall₂ LedgerEntry.Ages (ofUser u es) kept := by
  obtain ⟨kept, added, rfl, hkept⟩ := h.exists_append
  exact ⟨_, _, List.filter_append _ _, ofUser_of_ages hkept u⟩

/-- A user has no fewer entries later. -/
theorem Continues.length_ofUser_le (h : Continues es es') (u : Uuid) :
    (Ledger.ofUser u es).length ≤ (Ledger.ofUser u es').length := by
  obtain ⟨kept, added, heq, hkept⟩ := h.ofUser u
  rw [heq, List.length_append, hkept.length_eq]
  exact Nat.le_add_right _ _

/-- An entry of a user is there later as well, as recent as it was. -/
theorem Continues.exists_ofUser (h : Continues es es') {e : LedgerEntry}
    (he : e ∈ Ledger.ofUser u es) :
    ∃ e' ∈ Ledger.ofUser u es', e'.id = e.id ∧ e'.createdAt = e.createdAt := by
  obtain ⟨kept, added, heq, hkept⟩ := h.ofUser u
  obtain ⟨e', he', hages⟩ := exists_mem_of_forall₂ hkept he
  exact ⟨e', heq ▸ List.mem_append_left _ he', hages.id_eq, hages.user_and_time.2⟩

/-- An entry keeps how recent it is if it keeps its identifier and its time. -/
theorem recency_congr {e e' : LedgerEntry} (hid : e'.id = e.id)
    (htime : e'.createdAt = e.createdAt) : recency ids e' = recency ids e := by
  rw [recency, recency, hid, htime]

/-- What one call does to the entries leaves those of a user as they are, or adds one to them. -/
theorem Written.ofUser (h : Written es es') (hids : (es.map LedgerEntry.id).Nodup) (u : Uuid) :
    Ledger.ofUser u es' = Ledger.ofUser u es ∨
      (Ledger.ofUser u es).length < (Ledger.ofUser u es').length := by
  cases h with
  | @added added hposted =>
    have happend : Ledger.ofUser u (es ++ added) =
        Ledger.ofUser u es ++ Ledger.ofUser u added := List.filter_append _ _
    rw [happend]
    cases hadded : Ledger.ofUser u added with
    | nil => exact .inl (List.append_nil _)
    | cons e rest =>
      right
      rw [List.length_append, List.length_cons]
      omega
  -- making an entry void changes no user, so only the reversal can be one more
  | @tookBack e reversal he hposted hreverses hcounts =>
    have hvoided : Ledger.ofUser u (es.map (.voided e.id)) =
        (Ledger.ofUser u es).map (.voided e.id) := by
      rw [Ledger.ofUser, List.filter_map]
      refine congrArg (List.map _) (List.filter_congr fun x _ => ?_)
      rw [Function.comp_apply, LedgerEntry.voided_eq]
    have happend : Ledger.ofUser u (es.map (.voided e.id) ++ [reversal]) =
        (Ledger.ofUser u es).map (.voided e.id) ++ Ledger.ofUser u [reversal] := by
      rw [← hvoided]
      exact List.filter_append _ _
    rw [happend]
    by_cases hu : e.userId = u
    · -- the reversal is one more entry of the user
      right
      have hone : Ledger.ofUser u [reversal] = [reversal] :=
        List.filter_cons_of_pos (decide_eq_true (hreverses.userId.trans hu))
      rw [hone, List.length_append, List.length_map]
      exact Nat.lt_succ_self _
    · left
      have hnone : Ledger.ofUser u [reversal] = [] :=
        List.filter_cons_of_neg (by rw [decide_eq_true_eq, hreverses.userId]; exact hu)
      rw [hnone, List.append_nil]
      refine (List.map_congr_left fun x hx => ?_).trans (List.map_id _)
      obtain ⟨hmem, hxu⟩ := List.mem_filter.1 hx
      refine LedgerEntry.voided_of_ne fun hid => hu ?_
      rw [← List.inj_on_of_nodup_map hids hmem he hid]
      exact of_decide_eq_true hxu

end Ledger

namespace Books

/-- A step removes no user. -/
theorem Step.exists_user (h : b.Step cfg p b') {u : Uuid} (hu : ∃ x ∈ b.users, x.id = u) :
    ∃ x ∈ b'.users, x.id = u := by
  obtain ⟨x, hx, rfl⟩ := hu
  cases h with
  | addUser => exact ⟨x, List.mem_append_left _ hx, rfl⟩
  | @rename id name =>
    refine ⟨x.renamed id name, List.mem_map_of_mem hx, ?_⟩
    unfold User.renamed
    split <;> rfl
  | credit hc =>
    rw [hc.eq]
    exact ⟨x, hx, rfl⟩
  | _ => exact ⟨x, hx, rfl⟩

/-- However many steps are taken, no user is removed. -/
theorem Steps.exists_user (h : b.Steps cfg p b') {u : Uuid} (hu : ∃ x ∈ b.users, x.id = u) :
    ∃ x ∈ b'.users, x.id = u := by
  induction h with
  | refl => exact hu
  | tail _ hlast ih => exact hlast.exists_user ih

/-- What is known of later books about a user. -/
structure Later (u : Uuid) (b b' : Books) : Prop where
  /-- All entries are still there. -/
  continues : Ledger.Continues b.entries b'.entries
  /-- The user is still there. -/
  user : (∃ x ∈ b.users, x.id = u) → ∃ x ∈ b'.users, x.id = u
  /-- The entries of the user are as they were, or there are more of them. -/
  entries : Ledger.ofUser u b'.entries = Ledger.ofUser u b.entries ∨
    (Ledger.ofUser u b.entries).length < (Ledger.ofUser u b'.entries).length

end Books

/-- What any number of turns does to the entries of a user. -/
theorem World.Holds.later (h : w.Holds cfg none b) (u : Uuid) {turns : List Turn}
    (hturns : ∀ t ∈ turns, t.call.Allowed p) :
    ∃ b', (w.run cfg turns).Holds cfg none b' ∧ b.Later u b' := by
  induction turns generalizing w b with
  | nil => exact ⟨b, h, .refl _, id, .inl rfl⟩
  | cons t rest ih =>
    obtain ⟨b₁, hsteps, hw₁, hwritten⟩ := h.written (hturns t List.mem_cons_self)
    obtain ⟨b', hw', hlater⟩ := ih hw₁ fun t' ht' => hturns t' (List.mem_cons_of_mem _ ht')
    have hcontinues := hwritten.continues h.nodup_entry_ids
    refine ⟨b', hw', hcontinues.trans hlater.continues,
      fun hu => hlater.user (hsteps.exists_user hu), ?_⟩
    rcases hwritten.ofUser h.nodup_entry_ids u with hsame | hmore
    · rw [← hsame]
      exact hlater.entries
    · exact .inr (hmore.trans_le (hlater.continues.length_ofUser_le u))

/-! ## Walks -/

/-- A page that was read. -/
structure PageRead where
  /-- The world in which it was read. -/
  world : World
  /-- The page. -/
  page : LedgerPage

/-- The entries that were read, page by page. -/
def PageRead.returned (reads : List PageRead) : List LedgerEntry :=
  reads.flatMap fun r => r.page.entries

/-- A page said that there is no more to read. -/
def PageRead.Finished (reads : List PageRead) : Prop := ∃ r ∈ reads, r.page.hasMore = false

/-- The pages of entries under these limits: as many as the limits need. -/
def Ledger.pagesOf : List Int → List LedgerEntry → List (List LedgerEntry)
  | [], _ => []
  | limit :: limits, rest =>
    rest.take limit.toNat ::
      if limit < rest.length then pagesOf limits (rest.drop limit.toNat) else []

namespace Ledger

variable {es es' last : List LedgerEntry} {u : Uuid} {anchor : Option LedgerEntry}
  {limits : List Int} {reads : List PageRead}

/-- If a user has as many entries in the end as at the start, nothing is added to them in between. -/
theorem ofUser_eq_of_length
    (hsame : ofUser u es' = ofUser u es ∨ (ofUser u es).length < (ofUser u es').length)
    (hlast : Continues es' last) (hnone : (ofUser u last).length = (ofUser u es).length) :
    ofUser u es' = ofUser u es := by
  refine hsame.resolve_right fun hlt => ?_
  have hle := hlast.length_ofUser_le u
  omega

/-- After an entry that is as recent as the last one of a page, what is left is what the page leaves. -/
theorem NewestFirst.left_next {ids : List Uuid} {own : List LedgerEntry} {limit : Nat}
    {a a' : LedgerEntry} (h : NewestFirst ids own (ofUser u es))
    (ha : ((left ids own anchor).take limit).getLast? = some a)
    (hrecency : recency ids a' = recency ids a) :
    left ids own (some a') = (left ids own anchor).drop limit := by
  rw [← h.left_eq_drop ha, left, left, hrecency]

/-- A walk through the entries of a user which starts after an entry and at the end of which the
entries of the ledger are `last`: what is read is a page of the entries that are left, and the next
page starts after the last entry of that page, whatever was added in between. -/
inductive Walks (u : Uuid) (last : List LedgerEntry) :
    List LedgerEntry → Option LedgerEntry → List Int → List PageRead → Prop where
  /-- No page is asked for. -/
  | stopped {es : List LedgerEntry} {anchor : Option LedgerEntry} (hlast : Continues es last) :
    Walks u last es anchor [] []
  /-- The page says that there is no more. -/
  | finished {es own : List LedgerEntry} {anchor : Option LedgerEntry} {limit : Int}
    {limits : List Int} {w : World} (hlast : Continues es last) (hes : w.entries = .ok es)
    (hown : NewestFirst (last.map LedgerEntry.id) own (ofUser u es))
    (hend : ¬limit < (left (last.map LedgerEntry.id) own anchor).length) :
    Walks u last es anchor (limit :: limits)
      [⟨w, pageOf u limit (left (last.map LedgerEntry.id) own anchor)⟩]
  /-- The page says that there is more. -/
  | more {es es' own : List LedgerEntry} {anchor : Option LedgerEntry} {limit : Int}
    {limits : List Int} {w : World} {a a' : LedgerEntry} {reads : List PageRead}
    (hlast : Continues es last) (hes : w.entries = .ok es)
    (hown : NewestFirst (last.map LedgerEntry.id) own (ofUser u es))
    (hmore : limit < (left (last.map LedgerEntry.id) own anchor).length)
    (ha : ((left (last.map LedgerEntry.id) own anchor).take limit.toNat).getLast? = some a)
    (hcontinues : Continues es es')
    (hsame : ofUser u es' = ofUser u es ∨ (ofUser u es).length < (ofUser u es').length)
    (ha' : a' ∈ ofUser u es')
    (hrecency : recency (last.map LedgerEntry.id) a' = recency (last.map LedgerEntry.id) a)
    (hrest : Walks u last es' (some a') limits reads) :
    Walks u last es anchor (limit :: limits)
      (⟨w, pageOf u limit (left (last.map LedgerEntry.id) own anchor)⟩ :: reads)

end Ledger

namespace Ledger

variable {es last : List LedgerEntry} {u : Uuid} {anchor : Option LedgerEntry} {limits : List Int}
  {reads : List PageRead}

/-- The last of entries that stand in their order is the least recent one. -/
theorem recency_getLast_le {ids : List Uuid} {l : List LedgerEntry} {a e : LedgerEntry}
    (hl : l.Pairwise fun e e' => recency ids e' < recency ids e) (ha : l.getLast? = some a)
    (he : e ∈ l) : recency ids a ≤ recency ids e := by
  obtain ⟨init, rfl⟩ := List.getLast?_eq_some_iff.1 ha
  rcases List.mem_append.1 he with he | he
  · exact le_of_lt ((List.pairwise_append.1 hl).2.2 e he a List.mem_cons_self)
  · rw [List.mem_singleton.1 he]

namespace Walks

/-- At the end the entries with which the walk starts are still there. -/
theorem continues (h : Walks u last es anchor limits reads) : Continues es last := by
  cases h with
  | stopped hlast => exact hlast
  | finished hlast _ _ _ => exact hlast
  | more hlast _ _ _ _ _ _ _ _ _ => exact hlast

/-- What is read comes in descending order, after the entry after which the walk starts. -/
theorem descends (h : Walks u last es anchor limits reads) :
    (PageRead.returned reads).Pairwise (fun e e' =>
        recency (last.map LedgerEntry.id) e' < recency (last.map LedgerEntry.id) e) ∧
      ∀ e ∈ PageRead.returned reads, ∀ a ∈ anchor,
        recency (last.map LedgerEntry.id) e < recency (last.map LedgerEntry.id) a := by
  induction h with
  | stopped _ => exact ⟨.nil, fun e he => absurd he List.not_mem_nil⟩
  | @finished es own anchor limit limits w _ _ hown _ =>
    have hreturned : PageRead.returned
        [⟨w, pageOf u limit (left (last.map LedgerEntry.id) own anchor)⟩] =
        (left (last.map LedgerEntry.id) own anchor).take limit.toNat := List.append_nil _
    rw [hreturned]
    exact ⟨(hown.left_descends anchor).sublist (List.take_sublist _ _),
      fun e he => (hown.mem_left.1 (List.mem_of_mem_take he)).2⟩
  | @more es es' own anchor limit limits w a a' reads _ _ hown _ ha _ _ _ hrecency _ ih =>
    have hreturned : PageRead.returned
        (⟨w, pageOf u limit (left (last.map LedgerEntry.id) own anchor)⟩ :: reads) =
        (left (last.map LedgerEntry.id) own anchor).take limit.toNat ++
          PageRead.returned reads := rfl
    have hpage := (hown.left_descends anchor).sublist
      (List.take_sublist limit.toNat (left (last.map LedgerEntry.id) own anchor))
    -- what later pages return comes after the last entry of this one, as it is at the end
    have hafter : ∀ e ∈ PageRead.returned reads,
        recency (last.map LedgerEntry.id) e < recency (last.map LedgerEntry.id) a :=
      fun e he => hrecency ▸ ih.2 e he a' rfl
    have hbefore := (hown.mem_left.1 (List.mem_of_mem_take (List.mem_of_getLast? ha))).2
    rw [hreturned]
    refine ⟨List.pairwise_append.2 ⟨hpage, ih.1, fun e he e' he' => ?_⟩, fun e he => ?_⟩
    · exact (hafter e' he').trans_le (recency_getLast_le hpage ha he)
    · rcases List.mem_append.1 he with he | he
      · exact (hown.mem_left.1 (List.mem_of_mem_take he)).2
      · exact fun c hc => (hafter e he).trans (hbefore c hc)

/-- Every page holds entries of the user, as they are when the page is read. -/
theorem own (h : Walks u last es anchor limits reads) :
    ∀ r ∈ reads, ∃ es', r.world.entries = .ok es' ∧ Continues es' last ∧
      ∀ e ∈ r.page.entries, e ∈ ofUser u es' := by
  induction h with
  | stopped _ => exact fun r hr => absurd hr List.not_mem_nil
  | finished hlast hes hown _ =>
    intro r hr
    rw [List.mem_singleton.1 hr]
    exact ⟨_, hes, hlast, fun e he => (hown.mem_left.1 (List.mem_of_mem_take he)).1⟩
  | more hlast hes hown _ _ _ _ _ _ _ ih =>
    intro r hr
    rcases List.mem_cons.1 hr with rfl | hr
    · exact ⟨_, hes, hlast, fun e he => (hown.mem_left.1 (List.mem_of_mem_take he)).1⟩
    · exact ih r hr

/-- If the walk comes to its end, every entry of the user that was there at its start and comes after
the entry after which the walk starts is read. -/
theorem all (h : Walks u last es anchor limits reads) (hfinished : PageRead.Finished reads)
    {e : LedgerEntry} (he : e ∈ ofUser u es)
    (hafter : ∀ a ∈ anchor,
      recency (last.map LedgerEntry.id) e < recency (last.map LedgerEntry.id) a) :
    ∃ e' ∈ PageRead.returned reads, e'.id = e.id := by
  induction h generalizing e with
  | stopped _ =>
    obtain ⟨r, hr, -⟩ := hfinished
    cases hr
  -- the last page holds all that is left
  | @finished es own anchor limit limits w _ _ hown hend =>
    refine ⟨e, List.mem_flatMap.2 ⟨_, List.mem_singleton.2 rfl, ?_⟩, rfl⟩
    show e ∈ (left (last.map LedgerEntry.id) own anchor).take limit.toNat
    rw [List.take_of_length_le (by omega)]
    exact hown.mem_left.2 ⟨he, hafter⟩
  | @more es es' own anchor limit limits w a a' reads _ _ hown hmore ha hcontinues _ _ hrecency _
      ih =>
    have hrest : PageRead.Finished reads := by
      obtain ⟨r, hr, hr'⟩ := hfinished
      rcases List.mem_cons.1 hr with rfl | hr
      · exact absurd hmore (of_decide_eq_false hr')
      · exact ⟨r, hr, hr'⟩
    have hleft := hown.mem_left.2 ⟨he, hafter⟩
    rw [← List.take_append_drop limit.toNat (left _ own anchor), List.mem_append] at hleft
    rcases hleft with hpage | hlater
    · exact ⟨e, List.mem_append_left _ hpage, rfl⟩
    · -- the entry comes after the page, so it is still left when the next page is read
      rw [← hown.left_eq_drop ha] at hlater
      have hless := (hown.mem_left.1 hlater).2 a rfl
      obtain ⟨x, hx, hid, htime⟩ := hcontinues.exists_ofUser he
      obtain ⟨e', he', hid'⟩ := ih hrest hx fun c hc => by
        rw [← Option.some.inj hc, hrecency, recency_congr hid htime]
        exact hless
      exact ⟨e', List.mem_append_right _ he', hid'.trans hid⟩

/-- If no entry of the user is added, the pages are those of the entries that are left at the
start. -/
theorem pages (h : Walks u last es anchor limits reads) {own : List LedgerEntry}
    (hown : NewestFirst (last.map LedgerEntry.id) own (ofUser u es))
    (hnone : (ofUser u last).length = (ofUser u es).length) :
    reads.map (fun r => r.page.entries) =
      pagesOf limits (left (last.map LedgerEntry.id) own anchor) := by
  induction h with
  | stopped _ => rfl
  | @finished es own' anchor limit limits w _ _ hown' hend =>
    obtain rfl := hown.unique hown'
    rw [pagesOf, if_neg hend]
    rfl
  | @more es es' own' anchor limit limits w a a' reads hlast _ hown' hmore ha _ hsame _ hrecency
      hrest ih =>
    obtain rfl := hown.unique hown'
    have hsame' := ofUser_eq_of_length hsame hrest.continues hnone
    rw [pagesOf, if_pos hmore, ← hown.left_next ha hrecency,
      ← ih (hsame' ▸ hown) (by rw [hsame', hnone])]
    rfl

end Walks

end Ledger

/-! ## Walks in runs -/

namespace World

variable {visits : List Visit} {before : List Turn} {u : Uuid}

/-- Times with a known offset can be compared. -/
theorem comparable_of_offsets (h : w.entries.toOption.map
      (fun es => es.all fun e => e.createdAt.offset.isSome) = some true) :
    ∀ last, w.entries = .ok last → Ledger.Comparable (Ledger.ofUser u last) := by
  intro last hlast e he e' he'
  rw [hlast] at h
  have hall := List.all_eq_true.1 (Option.some.inj h)
  have hsome := hall e (List.mem_filter.1 he).1
  have hsome' := hall e' (List.mem_filter.1 he').1
  rw [Instant.comparable, hsome, hsome']
  rfl

end World

/-- A user gets two credits, at the times that the clocks show. -/
def Turn.creditsAt (first second : Instant) : List Turn :=
  [⟨{ now := first, step := 0 }, .createUser (.str "a@x.org") .null⟩,
    ⟨{ now := first, step := 0 }, .createCredit (.uuid ⟨1⟩) (.str "1.00") {}⟩,
    ⟨{ now := second, step := 0 }, .createCredit (.uuid ⟨1⟩) (.str "2.00") {}⟩]

/-- The credits may be posted. -/
theorem Turn.allowed_creditsAt (first second : Instant) :
    ∀ t ∈ Turn.creditsAt first second, t.call.Allowed .full := by
  intro t ht
  simp only [Turn.creditsAt, List.mem_cons, List.not_mem_nil, or_false] at ht
  rcases ht with rfl | rfl | rfl
  · exact ⟨none, rfl⟩
  · exact ⟨⟨none, rfl⟩, none, none, rfl, rfl, trivial⟩
  · exact ⟨⟨none, rfl⟩, none, none, rfl, rfl, trivial⟩

end RewardLedger
