import RewardLedger.Proofs.AppendOnly

/-!
# Reversals and what they take back

Taking an entry back posts a reversal of it and makes it void in one go, so an entry that is void has
a reversal with the same user, reward, amount and currency. An entry that is posted by hand is only
asked for an entry that is there and counts: it may point at one without being a reversal of it, or be
a reversal that points at none, and then the entry that it points at stays posted.

So what holds of an entry that points at another one depends on whether it may have been posted by
hand (`Books.Paired`). Where neither reversals nor entries that point at others are posted by hand,
reversals and void entries belong together one to one (`Books.ReversalsFormed`).
-/

namespace RewardLedger

variable {cfg : Config} {p : Permission} {b b' : Books}

/-- The entry is a reversal, or it points at another entry. -/
def LedgerEntry.TakesBack (e : LedgerEntry) : Prop :=
  e.entryType = .reversal ∨ ∃ id, e.reversalOf = some id

/-- The key of an entry in the index of what is taken back. -/
def LedgerEntry.reversalKey? (e : LedgerEntry) : Option (List Value) :=
  e.reversalOf.map fun id => [.uuid id]

namespace Books

/-- Making entries void does not matter for which entry takes which back. -/
theorem Reverses.voided {reversal e : LedgerEntry} (h : Reverses reversal e) (id id' : Uuid) :
    Reverses (reversal.voided id) (e.voided id') := by
  rw [LedgerEntry.voided_eq, LedgerEntry.voided_eq id' e]
  exact ⟨h.entryType, h.userId, h.rewardId, h.amount, h.currency, h.reversalOf⟩

/-- Entries that point at others point at entries that are there. But for what may be posted by hand,
reversals and entries that point at others take entries back that are void; and every void entry has
been taken back by a reversal. -/
structure Paired (p : Permission) (b : Books) : Prop where
  /-- What an entry points at is there. -/
  targets : ∀ e ∈ b.entries, ∀ id, e.reversalOf = some id → ∃ o ∈ b.entries, o.id = id
  /-- What was not posted by hand takes an entry back that is void. -/
  reversals : ∀ e ∈ b.entries, e.TakesBack → p.posts e.entryType e.rewardId e.reversalOf ∨
    ∃ o ∈ b.entries, Reverses e o ∧ o.status = .void
  /-- A void entry has been taken back. -/
  voids : ∀ o ∈ b.entries, o.status = .void → ∃ e ∈ b.entries, Reverses e o

namespace Paired

/-- Empty books are paired. -/
theorem empty : Paired p {} :=
  ⟨fun _ h => absurd h List.not_mem_nil, fun _ h => absurd h List.not_mem_nil,
    fun _ h => absurd h List.not_mem_nil⟩

/-- Only the entries matter. -/
theorem of_entries_eq (h : b.Paired p) (he : b'.entries = b.entries) : b'.Paired p := by
  obtain ⟨h1, h2, h3⟩ := h
  exact ⟨he ▸ h1, he ▸ h2, he ▸ h3⟩

/-- Adding an entry keeps books paired, if an entry that takes another one back may be posted. -/
theorem addEntry (h : b.Paired p) {e : LedgerEntry} (hposted : e.status = .posted)
    (htarget : ∀ id, e.reversalOf = some id → ∃ o ∈ b.entries, o.id = id)
    (hposts : e.TakesBack → p.posts e.entryType e.rewardId e.reversalOf) (n : Nat) :
    Paired p { b with entries := b.entries ++ [e], issued := n } where
  targets x hx id hid := by
    obtain ⟨o, ho, hoid⟩ : ∃ o ∈ b.entries, o.id = id := by
      rcases List.mem_append.1 hx with hx | hx
      · exact h.targets x hx id hid
      · rw [List.mem_singleton.1 hx] at hid
        exact htarget id hid
    exact ⟨o, List.mem_append_left _ ho, hoid⟩
  reversals x hx htakes := by
    rcases List.mem_append.1 hx with hx | hx
    · refine (h.reversals x hx htakes).imp_right ?_
      rintro ⟨o, ho, hcancels⟩
      exact ⟨o, List.mem_append_left _ ho, hcancels⟩
    · rw [List.mem_singleton.1 hx] at htakes ⊢
      exact .inl (hposts htakes)
  voids o ho hvoid := by
    rcases List.mem_append.1 ho with ho | ho
    · obtain ⟨x, hx, hreverses⟩ := h.voids o ho hvoid
      exact ⟨x, List.mem_append_left _ hx, hreverses⟩
    · rw [List.mem_singleton.1 ho, hposted] at hvoid
      cases hvoid

/-- Adding an entry that takes nothing back keeps books paired. -/
theorem addPlain (h : b.Paired p) {e : LedgerEntry} (hposted : e.status = .posted)
    (htype : e.entryType ≠ .reversal) (hof : e.reversalOf = none) (n : Nat) :
    Paired p { b with entries := b.entries ++ [e], issued := n } := by
  refine h.addEntry hposted (fun id hid => nomatch hof.symm.trans hid) ?_ n
  rintro (hreversal | ⟨id, hid⟩)
  · exact absurd hreversal htype
  · cases hof.symm.trans hid

/-- Taking an entry back keeps books paired. -/
theorem reversed (h : b.Paired p) (hb : b.Numbered) {e reversal : LedgerEntry} (he : e ∈ b.entries)
    (hr : Reverses reversal e) (hposted : reversal.status = .posted)
    (hfresh : b.issued < reversal.id.value) (n : Nat) : (b.reversed e reversal n).Paired p := by
  have hmem : ∀ {x : LedgerEntry}, x ∈ b.entries →
      x.voided e.id ∈ (b.reversed e reversal n).entries := fun hx =>
    List.mem_map_of_mem (List.mem_append_left _ hx)
  have hreversal : reversal.voided e.id ∈ (b.reversed e reversal n).entries :=
    List.mem_map_of_mem (List.mem_append_right _ (List.mem_singleton_self _))
  have hvoid : (e.voided e.id).status = .void := by rw [LedgerEntry.voided_self]
  have hkept : ∀ {o : LedgerEntry}, o.status = .void → (o.voided e.id).status = .void := by
    intro o ho
    unfold LedgerEntry.voided
    split
    · rfl
    · exact ho
  refine ⟨fun x hx id hid => ?_, fun x hx htakes => ?_, fun x hx hxvoid => ?_⟩
  all_goals obtain ⟨y, hy, rfl⟩ := List.mem_map.1 hx
  · -- what an entry takes back is still there, and so is the entry taken back now
    rw [LedgerEntry.voided_eq] at hid
    obtain ⟨o, ho, hoid⟩ : ∃ o ∈ b.entries, o.id = id := by
      rcases List.mem_append.1 hy with hy | hy
      · exact h.targets y hy id hid
      · rw [List.mem_singleton.1 hy] at hid
        exact ⟨e, he, Option.some.inj (hr.reversalOf.symm.trans hid)⟩
    exact ⟨_, hmem ho, (LedgerEntry.voided_id _ _).trans hoid⟩
  · -- what was posted by hand stays so, and what takes an entry back still does
    rw [LedgerEntry.voided_eq] at htakes
    rcases List.mem_append.1 hy with hy | hy
    · rcases h.reversals y hy htakes with hposts | ⟨o, ho, hreverses, hovoid⟩
      · left
        rw [LedgerEntry.voided_eq]
        exact hposts
      · exact .inr ⟨_, hmem ho, hreverses.voided _ _, hkept hovoid⟩
    · rw [List.mem_singleton.1 hy]
      exact .inr ⟨_, hmem he, hr.voided _ _, hvoid⟩
  · -- the entry that is taken back now, or one that was void before
    by_cases hid : y.id = e.id
    · have hyb : y ∈ b.entries := by
        rcases List.mem_append.1 hy with hy | hy
        · exact hy
        · rw [List.mem_singleton.1 hy] at hid
          exact absurd hid.symm (hb.entry_ne hfresh e he)
      obtain rfl := hb.eq_of_entry_id hyb he hid
      exact ⟨_, hreversal, hr.voided _ _⟩
    · rw [LedgerEntry.voided_of_ne hid] at hxvoid
      rcases List.mem_append.1 hy with hy | hy
      · obtain ⟨x, hx, hreverses⟩ := h.voids y hy hxvoid
        exact ⟨_, hmem hx, hreverses.voided _ _⟩
      · rw [List.mem_singleton.1 hy, hposted] at hxvoid
        cases hxvoid

/-- Every step keeps books paired. -/
theorem step (hb : b.Numbered) (h : b.Paired p) (hs : Step cfg p b b') : b'.Paired p := by
  cases hs with
  | issue | addUser | rename | record | confirm => exact h.of_entries_eq rfl
  | post hposts hpost _ =>
    refine h.addEntry hpost.posted (fun id hid => ?_) (fun _ => hposts) _
    obtain ⟨o, ho, hoid, -⟩ := hpost.target id hid
    exact ⟨o, ho, hoid⟩
  | takeBack he _ _ _ hreverses hpost _ =>
    exact h.reversed hb he hreverses hpost.posted hpost.fresh _
  | credit hc =>
    refine (h.addPlain hc.can.posted (fun htype => ?_) hc.reversalOf b'.issued).of_entries_eq ?_
    · cases hc.entryType.symm.trans htype
    · rw [hc.eq]
  | pay _ _ hpost _ htype _ _ _ _ hof =>
    refine (h.addPlain hpost.posted (fun hreversal => ?_) hof b.issued).of_entries_eq rfl
    cases htype.symm.trans hreversal
  | reverse _ _ he _ _ _ _ hreverses hpost _ =>
    exact (h.reversed hb he hreverses hpost.posted hpost.fresh b.issued).of_entries_eq rfl

end Paired

/-- No two entries point at the same entry. -/
def Unshared (b : Books) : Prop :=
  ∀ e ∈ b.entries, ∀ e' ∈ b.entries, ∀ id, e.reversalOf = some id → e'.reversalOf = some id → e = e'

/-- Reversals and void entries belong together. -/
structure ReversalsFormed (b : Books) : Prop where
  /-- An entry that points at another one takes it back, and that one is void. -/
  points : ∀ e ∈ b.entries, ∀ id, e.reversalOf = some id →
    ∃ o ∈ b.entries, o.id = id ∧ Reverses e o ∧ o.status = .void
  /-- No two entries point at the same entry. -/
  unshared : b.Unshared
  /-- A reversal points at an entry. -/
  reversals : ∀ e ∈ b.entries, e.entryType = .reversal → ∃ id, e.reversalOf = some id
  /-- An entry points at a void entry. -/
  voids : ∀ o ∈ b.entries, o.status = .void → ∃ e ∈ b.entries, e.reversalOf = some o.id

/-- Where nothing that takes an entry back is posted by hand, reversals and void entries belong
together. -/
theorem Paired.reversalsFormed (h : b.Paired p) (hunshared : b.Unshared)
    (hp : ∀ t tag of, p.posts t tag of → t ≠ .reversal ∧ of = none) : b.ReversalsFormed := by
  have hpairs : ∀ e ∈ b.entries, e.TakesBack →
      ∃ o ∈ b.entries, Reverses e o ∧ o.status = .void := by
    intro e he htakes
    refine (h.reversals e he htakes).resolve_left fun hposts => ?_
    obtain ⟨htype, hof⟩ := hp _ _ _ hposts
    rcases htakes with hreversal | ⟨id, hid⟩
    · exact htype hreversal
    · cases hof.symm.trans hid
  refine ⟨fun e he id hid => ?_, hunshared, fun e he htype => ?_, fun o ho hvoid => ?_⟩
  · obtain ⟨o, ho, hreverses, hvoid⟩ := hpairs e he (.inr ⟨id, hid⟩)
    exact ⟨o, ho, Option.some.inj (hreverses.reversalOf.symm.trans hid), hreverses, hvoid⟩
  · obtain ⟨o, -, hreverses, -⟩ := hpairs e he (.inl htype)
    exact ⟨o.id, hreverses.reversalOf⟩
  · obtain ⟨e, he, hreverses⟩ := h.voids o ho hvoid
    exact ⟨e, he, hreverses.reversalOf⟩

end Books

namespace World

variable {base : Option Store} {w : World}

/-- The store lets no two entries point at the same entry. -/
theorem Holds.unshared (h : w.Holds cfg base b) : b.Unshared := by
  have hentries := h.held.entries
  obtain ⟨t, ht, -⟩ := id hentries
  -- no two rows have the same key in the index of what is taken back
  have hindex : ("reversal_of_entry_id", ["reversal_of_entry_id"]) ∈ t.schema.indexes := by
    rw [h.schema_eq entriesTable ht rfl]
    exact List.mem_singleton_self _
  have hkey : ∀ (e : LedgerEntry) columns, Stored.IsRow e columns → ∀ key,
      e.reversalKey? = some key → KeyKind.All Value.IsPlain key ∧
        columns.hasKey ["reversal_of_entry_id"] key = true := by
    intro e columns (hrow : e.IsRow columns) key hkey
    obtain ⟨id, hid, rfl⟩ := Option.map_eq_some_iff.1 hkey
    refine ⟨fun v hv => by rw [List.mem_singleton.1 hv]; trivial, ?_⟩
    rw [Fields.hasKey, Fields.keyIn?, List.map_singleton, Fields.get, hrow.reversalOf, hid]
    simp [Value.ofUuid?, Value.isNull, Value.sameKeys, Value.sameKey_uuid]
  have hpairwise := hentries.pairwise_hasKey h.sound ht hindex hkey
  intro e he e' he' id hid hid'
  by_contra hne
  have : Std.Symm fun e e' : LedgerEntry => ∀ key, e.reversalKey? = some key →
      e'.reversalKey? ≠ some key := ⟨fun x y hxy key hy hx => hxy key hx hy⟩
  refine hpairwise.forall he he' hne [.uuid id] ?_ ?_
  · exact Option.map_eq_some_iff.2 ⟨id, hid, rfl⟩
  · exact Option.map_eq_some_iff.2 ⟨id, hid', rfl⟩

end World

/-! ## Runs -/

/-- Everything may be asked for but to post by hand a reversal, or an entry that points at another
one. -/
def Permission.forward : Permission where
  posts t _ of := t ≠ .reversal ∧ of = none
  onBehalf := True
  records := True

namespace World

/-- After every run the entries that point at others point at entries that are there, no two of them
at the same one; but for what may have been posted by hand they take back what they point at, which is
void; and every void entry has been taken back. Where neither reversals nor entries that point at
others may be posted by hand, reversals and void entries belong together. -/
theorem reversals_of_run {w : World} (hw : w.IsNew) {turns : List Turn}
    (hturns : ∀ t ∈ turns, t.call.Allowed p) :
    ∃ b : Books, b.Held (w.run cfg turns).store ∧ b.Paired p ∧ b.Unshared ∧
      ((∀ t tag of, p.posts t tag of → t ≠ .reversal ∧ of = none) → b.ReversalsFormed) := by
  obtain ⟨b, hsteps, hholds⟩ : ∃ b, Books.Steps cfg p {} b ∧
      (w.run cfg turns).Holds cfg none b := exists_steps_of_run hw hturns
  have hpaired : b.Paired p :=
    (hsteps.keeps .empty .empty fun b b' hb h hs => Books.Paired.step hb h hs).2
  exact ⟨b, hholds.held, hpaired, hholds.unshared, hpaired.reversalsFormed hholds.unshared⟩

end World

/-- A credit of a user is taken back, and what takes it back is taken back, too. -/
def Turn.backAndForth : List Turn :=
  let clock : Clock := { now := ⟨0, some 0⟩, step := 1 }
  [⟨clock, .createUser (.str "a@x.org") .null⟩,
    ⟨clock, .createCredit (.uuid ⟨1⟩) (.str "5") {}⟩, ⟨clock, .reverseEntry (.uuid ⟨2⟩) .null .null⟩,
    ⟨clock, .reverseEntry (.uuid ⟨3⟩) .null .null⟩]

namespace World

/-- After a reversal has been taken back, reversals and void entries belong together. -/
theorem reversals_of_backAndForth :
    (∀ t ∈ Turn.backAndForth, t.call.Allowed .forward) ∧
      ∃ b : Books, b.Held
        ((fresh { now := ⟨0, some 0⟩, step := 1 }).run .rupees Turn.backAndForth).store ∧
        b.ReversalsFormed := by
  have hallowed : ∀ t ∈ Turn.backAndForth, t.call.Allowed .forward := by
    intro t ht
    simp only [Turn.backAndForth, List.mem_cons, List.not_mem_nil, or_false] at ht
    rcases ht with rfl | rfl | rfl | rfl
    · exact ⟨none, rfl⟩
    · exact ⟨⟨none, rfl⟩, none, none, rfl, rfl, by decide, rfl⟩
    · exact .inl rfl
    · exact .inl rfl
  obtain ⟨b, hheld, -, -, hformed⟩ := reversals_of_run (isNew_fresh _) hallowed
  exact ⟨hallowed, b, hheld, hformed fun _ _ _ hposts => hposts⟩

end World

/-- A reversal of a credit is posted by hand, with another amount and another currency. -/
def Turn.reversalPosted : List Turn :=
  let clock : Clock := { now := ⟨0, some 0⟩, step := 1 }
  [⟨clock, .createUser (.str "a@x.org") .null⟩,
    ⟨clock, .createCredit (.uuid ⟨1⟩) (.str "5") {}⟩,
    ⟨clock, .createEntry (.uuid ⟨1⟩) (.str "REVERSAL") (.str "7")
      { currency := .str "USD", reversalOf := .uuid ⟨2⟩ }⟩]

/-- A reversal that is posted by hand leaves what it points at posted, and need not have its amount or
its currency. -/
theorem World.posted_of_reversalPosted :
    ((fresh { now := ⟨0, some 0⟩, step := 1 }).run .rupees Turn.reversalPosted).entries.toOption.map
      (fun entries => entries.map fun e =>
        [e.id.text, e.entryType.name, e.amount.text, e.currency, e.status.name,
          (Value.ofUuid? e.reversalOf).plainText]) =
      some [["00000000-0000-0000-0000-000000000002", "CREDIT", "5.00", "INR", "POSTED", "None"],
        ["00000000-0000-0000-0000-000000000003", "REVERSAL", "7.00", "USD", "POSTED",
          "00000000-0000-0000-0000-000000000002"]] := by
  decide +kernel

end RewardLedger
