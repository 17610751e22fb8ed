import RewardLedger.Proofs.Ledger.Steps
import RewardLedger.Proofs.Run

/-!
# The ledger is append-only

Whatever is called, no entry is removed or moved and no field of an entry changes but its status,
which changes from posted to void and never back (`LedgerEntry.Ages`). A call that makes an entry void
does so to this one entry, and adds one entry only, its reversal (`Ledger.Written`).

Both are read off from what one step of the books does to the entries (`Books.Step.written`): a call
does one step, or several that only add entries, so it takes no more than one entry back.
-/

namespace RewardLedger

variable {cfg : Config} {p : Permission} {base : Option Store} {b b' : Books} {w : World}

/-! ## Entries over time -/

namespace LedgerEntry

/-- The entry as it was and as it is later: the same, or made void in between. -/
def Ages (e e' : LedgerEntry) : Prop :=
  e' = e ∨ e.status = .posted ∧ e' = { e with status := .void }

variable {e e' e'' : LedgerEntry}

/-- An entry that nothing happens to stays the same. -/
theorem Ages.refl (e : LedgerEntry) : e.Ages e := .inl rfl

/-- What happens to an entry later happens to it at most once, too. -/
theorem Ages.trans (h : e.Ages e') (h' : e'.Ages e'') : e.Ages e'' := by
  rcases h with rfl | ⟨hposted, rfl⟩
  · exact h'
  · rcases h' with rfl | ⟨hcounts, -⟩
    · exact .inr ⟨hposted, rfl⟩
    · cases hcounts

/-- An entry keeps its identifier. -/
theorem Ages.id_eq (h : e.Ages e') : e'.id = e.id := by
  rcases h with rfl | ⟨-, rfl⟩
  · rfl
  · rfl

/-- Whose an entry is and when it was made does not change over time. -/
theorem Ages.user_and_time (h : e.Ages e') :
    e'.userId = e.userId ∧ e'.createdAt = e.createdAt := by
  rcases h with rfl | ⟨-, rfl⟩
  · exact ⟨rfl, rfl⟩
  · exact ⟨rfl, rfl⟩

/-- An entry whose status changes counts before and is void afterwards. -/
theorem Ages.of_status_ne (h : e.Ages e') (hne : e.status ≠ e'.status) :
    e.status = .posted ∧ e'.status = .void := by
  rcases h with rfl | ⟨hposted, rfl⟩
  · exact absurd rfl hne
  · exact ⟨hposted, rfl⟩

/-- A void entry stays void. -/
theorem Ages.status_eq_void (h : e.Ages e') (hvoid : e.status = .void) : e'.status = .void := by
  rcases h with rfl | ⟨-, rfl⟩
  · exact hvoid
  · rfl

/-- Making an entry void that counts, or another one, happens to entries over time. -/
theorem ages_voided {id : Uuid} (h : e.id = id → e.status = .posted) : e.Ages (e.voided id) := by
  by_cases hid : e.id = id
  · obtain rfl := hid
    exact .inr ⟨h rfl, voided_self e⟩
  · exact .inl (voided_of_ne hid)

end LedgerEntry

namespace Ledger

/-- All entries are still there, each in its place and unchanged but in its status; others may stand
behind them. -/
def Continues (es es' : List LedgerEntry) : Prop :=
  ∀ (n : Nat) (e : LedgerEntry), es[n]? = some e → ∃ e', es'[n]? = some e' ∧ e.Ages e'

/-- What one call does to the entries: it adds entries that count and changes none, or it makes one
entry void and adds the reversal of that entry. -/
inductive Written (es : List LedgerEntry) : List LedgerEntry → Prop where
  /-- Entries are added. -/
  | added {added : List LedgerEntry} (hposted : ∀ e ∈ added, e.status = .posted) :
    Written es (es ++ added)
  /-- An entry is taken back. -/
  | tookBack {e reversal : LedgerEntry} (he : e ∈ es) (hposted : e.status = .posted)
    (hreverses : Books.Reverses reversal e) (hcounts : reversal.status = .posted) :
    Written es (es.map (.voided e.id) ++ [reversal])

variable {es es' es'' : List LedgerEntry}

/-- Entries that nothing happens to are all still there. -/
theorem Continues.refl (es : List LedgerEntry) : Continues es es := fun _ e he => ⟨e, he, .refl e⟩

/-- What is still there later is still there after that. -/
theorem Continues.trans (h : Continues es es') (h' : Continues es' es'') : Continues es es'' := by
  intro n e he
  obtain ⟨e', he', hages⟩ := h n e he
  obtain ⟨e'', he'', hages'⟩ := h' n e' he'
  exact ⟨e'', he'', hages.trans hages'⟩

/-- The entries that are there later are those that were there before, and others behind them. -/
theorem Continues.exists_append (h : Continues es es') :
    ∃ kept added, es' = kept ++ added ∧ List.Forall₂ LedgerEntry.Ages es kept := by
  induction es generalizing es' with
  | nil => exact ⟨[], es', rfl, .nil⟩
  | cons e rest ih =>
    obtain ⟨e', he', hages⟩ := h 0 e rfl
    cases es' with
    | nil => cases he'
    | cons x rest' =>
      cases he'
      obtain ⟨kept, added, rfl, hkept⟩ := ih fun n y hy => h (n + 1) y hy
      exact ⟨e' :: kept, added, rfl, .cons hages hkept⟩

/-- What does not change of an entry over time is the same in all of them. -/
theorem map_eq_of_ages {α : Type} {f : LedgerEntry → α} (hf : ∀ e e', e.Ages e' → f e' = f e)
    (h : List.Forall₂ LedgerEntry.Ages es es') : es'.map f = es.map f := by
  induction h with
  | nil => rfl
  | cons hages _ ih => rw [List.map_cons, List.map_cons, hf _ _ hages, ih]

/-- What does not change of the entries that were there before comes first. -/
theorem Continues.map_prefix (h : Continues es es') {α : Type} {f : LedgerEntry → α}
    (hf : ∀ e e', e.Ages e' → f e' = f e) : es.map f <+: es'.map f := by
  obtain ⟨kept, added, rfl, hkept⟩ := h.exists_append
  rw [List.map_append, map_eq_of_ages hf hkept]
  exact List.prefix_append _ _

/-- No call removes an entry or changes more of it than its status. -/
theorem Written.continues (h : Written es es') (hids : (es.map LedgerEntry.id).Nodup) :
    Continues es es' := by
  intro n e he
  have hn : n < es.length := (List.getElem?_eq_some_iff.1 he).1
  cases h with
  | added _ =>
    refine ⟨e, ?_, .refl e⟩
    rw [List.getElem?_append_left hn, he]
  | @tookBack voided reversal hvoided hposted _ _ =>
    refine ⟨e.voided voided.id, ?_, LedgerEntry.ages_voided fun hid => ?_⟩
    · rw [List.getElem?_append_left (by rw [List.length_map]; exact hn), List.getElem?_map, he]
      rfl
    · rw [List.inj_on_of_nodup_map hids (List.mem_of_getElem? he) hvoided hid]
      exact hposted

/-- The entry whose status a call changes counted before the call and is void after it. -/
theorem Written.of_status_ne (h : Written es es') (hids : (es.map LedgerEntry.id).Nodup)
    (hids' : (es'.map LedgerEntry.id).Nodup) {e e' : LedgerEntry} (he : e ∈ es) (he' : e' ∈ es')
    (hid : e'.id = e.id) (hne : e.status ≠ e'.status) :
    e.status = .posted ∧ e'.status = .void := by
  obtain ⟨n, hn⟩ := List.getElem?_of_mem he
  obtain ⟨x, hx, hages⟩ := h.continues hids n e hn
  have hsame : x = e' := List.inj_on_of_nodup_map hids' (List.mem_of_getElem? hx) he'
    (hages.id_eq.trans hid.symm)
  rw [hsame] at hages
  exact hages.of_status_ne hne

/-- A void entry is void later, too. -/
theorem Continues.status_eq_void (h : Continues es es') (hids' : (es'.map LedgerEntry.id).Nodup)
    {e e' : LedgerEntry} (he : e ∈ es) (he' : e' ∈ es') (hid : e'.id = e.id)
    (hvoid : e.status = .void) : e'.status = .void := by
  obtain ⟨n, hn⟩ := List.getElem?_of_mem he
  obtain ⟨x, hx, hages⟩ := h n e hn
  have hsame : x = e' := List.inj_on_of_nodup_map hids' (List.mem_of_getElem? hx) he'
    (hages.id_eq.trans hid.symm)
  rw [hsame] at hages
  exact hages.status_eq_void hvoid

end Ledger

/-! ## Steps and calls -/

namespace Books

open Ledger (Written)

/-- Posting a reversal and making the entry void that it takes back takes that entry back. -/
theorem entries_reversed (hb : b.Proper cfg) {e reversal : LedgerEntry} {n : Nat}
    (he : e ∈ b.entries) (hfresh : b.issued < reversal.id.value) :
    (b.reversed e reversal n).entries = b.entries.map (.voided e.id) ++ [reversal] := by
  -- the reversal has a new identifier, so it is not the one that becomes void
  have hne : reversal.id ≠ e.id := fun hid =>
    absurd (hid ▸ hb.entries e he) (Nat.not_le_of_lt hfresh)
  rw [reversed, List.map_append, List.map_singleton, LedgerEntry.voided_of_ne hne]

/-- One step adds entries, or takes one back. -/
theorem Step.written (h : b.Step cfg p b') (hb : b.Proper cfg) : Written b.entries b'.entries := by
  have hnone : Written b.entries (b.entries ++ []) :=
    .added fun e he => absurd he List.not_mem_nil
  have hone : ∀ {e : LedgerEntry}, e.status = .posted → Written b.entries (b.entries ++ [e]) :=
    fun he => .added fun x hx => List.mem_singleton.1 hx ▸ he
  rw [List.append_nil] at hnone
  cases h with
  | issue _ | addUser _ _ | rename | confirm _ _ | record _ _ => exact hnone
  | post _ hpost _ => exact hone hpost.posted
  | pay _ _ hpost _ _ _ _ _ _ _ => exact hone hpost.posted
  | credit hc =>
    rw [hc.eq]
    exact hone hc.can.posted
  | takeBack he _ hposted _ hreverses hpost _ =>
    rw [entries_reversed hb he hpost.fresh]
    exact .tookBack he hposted hreverses hpost.posted
  | reverse _ _ he _ _ hposted _ hreverses hpost _ =>
    rw [withReward, entries_reversed hb he hpost.fresh]
    exact .tookBack he hposted hreverses hpost.posted

/-- Any number of steps that only add entries add entries. -/
theorem exists_added (h : Relation.ReflTransGen (Grow cfg p) b b') :
    ∃ added, b'.entries = b.entries ++ added ∧ ∀ e ∈ added, e.status = .posted := by
  induction h with
  | refl => exact ⟨[], (List.append_nil _).symm, fun _ he => absurd he List.not_mem_nil⟩
  | tail _ hlast ih =>
    obtain ⟨added, heq, hposted⟩ := ih
    obtain ⟨-, more, heq', hposted'⟩ := hlast
    refine ⟨added ++ more, by rw [heq', heq, List.append_assoc], fun e he => ?_⟩
    rcases List.mem_append.1 he with he | he
    · exact hposted e he
    · exact hposted' e he

/-- One call adds entries, or takes one back. -/
theorem Effect.written (h : b.Effect cfg p b') (hb : b.Proper cfg) :
    Written b.entries b'.entries := by
  cases h with
  | one h => exact h.written hb
  | several h =>
    obtain ⟨added, heq, hposted⟩ := exists_added h
    rw [heq]
    exact .added hposted

end Books

/-! ## Runs -/

/-- Everything may be asked for. -/
def Permission.full : Permission where
  posts _ _ _ := True
  onBehalf := True
  records := True

namespace World

/-- The entries of the ledger, in the order in which they were added. -/
def entries (w : World) : Except Failure (List LedgerEntry) := do
  (← w.store.all entriesTable).mapM Ledger.entryOf

/-- The entries of the ledger are those of the books. -/
theorem Holds.entries_eq (h : w.Holds cfg base b) : w.entries = .ok b.entries := by
  obtain ⟨rows, hall, hrows⟩ := h.held.entries.all h.sound
  have hread : rows.mapM Ledger.entryOf = .ok b.entries :=
    mapM_eq_ok (hrows.imp fun columns e he => by
      have he : e.IsRow columns := he
      rw [Ledger.entryOf, he.ofRow]
      rfl)
  have hall : w.store.all entriesTable = .ok rows := hall
  rw [entries, hall]
  exact hread

/-- Two lists of books that a world holds have the same entries. -/
theorem Holds.entries_unique (h : w.Holds cfg base b) (h' : w.Holds cfg base b') :
    b.entries = b'.entries := Except.ok.inj (h.entries_eq.symm.trans h'.entries_eq)

/-- The turn changes the status of the entry with the identifier. -/
def ChangesStatus (cfg : Config) (w : World) (t : Turn) (id : Uuid) : Prop :=
  ∃ es es', w.entries = .ok es ∧ (w.after cfg t).entries = .ok es' ∧
    ∃ e ∈ es, ∃ e' ∈ es', e.id = id ∧ e'.id = id ∧ e.status ≠ e'.status

/-- Turns that are taken one after the other. -/
theorem run_append (cfg : Config) (w : World) (earlier later : List Turn) :
    w.run cfg (earlier ++ later) = (w.run cfg earlier).run cfg later := List.foldl_append

/-- What a turn does to the entries. -/
theorem Holds.written (h : w.Holds cfg none b) {t : Turn} (ht : t.call.Allowed p) :
    ∃ b', b.Steps cfg p b' ∧ (w.after cfg t).Holds cfg none b' ∧
      Ledger.Written b.entries b'.entries := by
  obtain ⟨b', heffect, hw'⟩ := h.after ht
  exact ⟨b', heffect.steps, hw', heffect.written h.proper⟩

/-- No two entries of books that a world holds have the same identifier. -/
theorem Holds.nodup_entry_ids (h : w.Holds cfg base b) : (b.entries.map LedgerEntry.id).Nodup := by
  have hkeys := h.held.entries.pairwise_keyOf h.sound
  rw [List.Nodup, List.pairwise_map]
  exact hkeys.imp fun hne hid => hne (congrArg Value.uuid hid)

/-- An entry whose status a turn changes counts before the turn and is void after it. -/
theorem ChangesStatus.exists_entry {t : Turn} {id : Uuid} (hc : w.ChangesStatus cfg t id)
    (h : w.Holds cfg none b) (h' : (w.after cfg t).Holds cfg none b')
    (hwritten : Ledger.Written b.entries b'.entries) :
    ∃ e ∈ b.entries, ∃ e' ∈ b'.entries, e.id = id ∧ e'.id = id ∧ e.status = .posted ∧
      e'.status = .void := by
  obtain ⟨es, es', hes, hes', e, he, e', he', hid, hid', hne⟩ := hc
  obtain rfl : b.entries = es := Except.ok.inj (h.entries_eq.symm.trans hes)
  obtain rfl : b'.entries = es' := Except.ok.inj (h'.entries_eq.symm.trans hes')
  obtain ⟨hposted, hvoid⟩ := hwritten.of_status_ne h.nodup_entry_ids h'.nodup_entry_ids he he'
    (hid'.trans hid.symm) hne
  exact ⟨e, he, e', he', hid, hid', hposted, hvoid⟩

/-- All entries are still there after any number of turns. -/
theorem Holds.continues (h : w.Holds cfg none b) {turns : List Turn}
    (hturns : ∀ t ∈ turns, t.call.Allowed p) :
    ∃ b', (w.run cfg turns).Holds cfg none b' ∧ Ledger.Continues b.entries b'.entries := by
  induction turns generalizing w b with
  | nil => exact ⟨b, h, .refl _⟩
  | cons t rest ih =>
    obtain ⟨b₁, -, hw₁, hwritten⟩ := h.written (hturns t List.mem_cons_self)
    obtain ⟨b', hw', hcontinues⟩ := ih hw₁ fun t' ht' => hturns t' (List.mem_cons_of_mem _ ht')
    exact ⟨b', hw', (hwritten.continues h.nodup_entry_ids).trans hcontinues⟩

/-- The ledger is append-only. In every run, the entries that are there at some time are there at
every later time, each in its place and with all fields but its status; a call that changes the status
of an entry makes that one entry void, which counted before, and adds one entry, a reversal that
counts, points at the entry and has its user, reward, amount and currency; and no two calls change the
status of the same entry. -/
theorem entries_append_only (hw : w.IsNew) {turns : List Turn}
    (hturns : ∀ t ∈ turns, t.call.Allowed .full) :
    (∀ earlier later, turns = earlier ++ later → ∃ es es', (w.run cfg earlier).entries = .ok es ∧
        (w.run cfg turns).entries = .ok es' ∧ Ledger.Continues es es') ∧
      (∀ earlier t later, turns = earlier ++ t :: later → ∃ es es',
        (w.run cfg earlier).entries = .ok es ∧ (w.run cfg (earlier ++ [t])).entries = .ok es' ∧
        (es.map LedgerEntry.id).Nodup ∧ (es'.map LedgerEntry.id).Nodup ∧ Ledger.Written es es') ∧
      ∀ earlier t between t' later id, turns = earlier ++ t :: (between ++ t' :: later) →
        (w.run cfg earlier).ChangesStatus cfg t id →
        ¬ (w.run cfg (earlier ++ t :: between)).ChangesStatus cfg t' id := by
  refine ⟨?_, ?_, ?_⟩
  · rintro earlier later rfl
    obtain ⟨b, hb, -⟩ := hw.holds.continues fun t ht => hturns t (List.mem_append_left _ ht)
    obtain ⟨b', hb', hcontinues⟩ := hb.continues fun t ht => hturns t (List.mem_append_right _ ht)
    rw [← run_append] at hb'
    exact ⟨_, _, hb.entries_eq, hb'.entries_eq, hcontinues⟩
  · rintro earlier t later rfl
    obtain ⟨b, hb, -⟩ := hw.holds.continues fun t ht => hturns t (List.mem_append_left _ ht)
    obtain ⟨b', -, hb', hwritten⟩ :=
      hb.written (hturns t (List.mem_append_right _ List.mem_cons_self))
    rw [show (w.run cfg earlier).after cfg t = w.run cfg (earlier ++ [t]) from
      (run_append cfg w earlier [t]).symm] at hb'
    exact ⟨_, _, hb.entries_eq, hb'.entries_eq, hb.nodup_entry_ids, hb'.nodup_entry_ids, hwritten⟩
  · rintro earlier t between t' later id rfl hchanges hchanges'
    obtain ⟨b, hb, -⟩ := hw.holds.continues fun t ht => hturns t (List.mem_append_left _ ht)
    obtain ⟨b₁, -, hb₁, hwritten⟩ :=
      hb.written (hturns t (List.mem_append_right _ List.mem_cons_self))
    obtain ⟨b₂, hb₂, hcontinues⟩ := hb₁.continues fun x (hx : x ∈ between) => hturns x
      (List.mem_append_right _ (List.mem_cons_of_mem _ (List.mem_append_left _ hx)))
    rw [show ((w.run cfg earlier).after cfg t).run cfg between =
      w.run cfg (earlier ++ t :: between) from (run_append cfg w earlier (t :: between)).symm] at hb₂
    obtain ⟨b₃, -, hb₃, hwritten'⟩ := hb₂.written (hturns t' (List.mem_append_right _
      (List.mem_cons_of_mem _ (List.mem_append_right _ List.mem_cons_self))))
    -- the first turn makes the entry void, so it does not count before the second one
    obtain ⟨-, -, e₁, he₁, -, hid₁, -, hvoid⟩ := hchanges.exists_entry hb hb₁ hwritten
    obtain ⟨e₂, he₂, -, -, hid₂, -, hposted, -⟩ := hchanges'.exists_entry hb₂ hb₃ hwritten'
    have hstill := hcontinues.status_eq_void hb₂.nodup_entry_ids he₁ he₂ (hid₂.trans hid₁.symm) hvoid
    rw [hposted] at hstill
    cases hstill

end World

/-- An amount is credited by hand and taken back, and then asked to be taken back once more, which is
refused. -/
def Turn.takenBackTwice : List Turn :=
  let clock : Clock := { now := ⟨0, some 0⟩, step := 1 }
  [⟨clock, .createUser (.str "a@x.org") .null⟩,
    ⟨clock, .createCredit (.uuid ⟨1⟩) (.str "10.00") {}⟩,
    ⟨clock, .reverseEntry (.uuid ⟨2⟩) .null .null⟩,
    ⟨clock, .reverseEntry (.uuid ⟨2⟩) .null .null⟩]

/-- The credit is still there after it was taken back. -/
theorem World.entries_continue_of_takenBackTwice :
    (∀ t ∈ Turn.takenBackTwice, t.call.Allowed .full) ∧
      ∃ es es', ((fresh { now := ⟨0, some 0⟩, step := 1 }).run .rupees
          (Turn.takenBackTwice.take 2)).entries = .ok es ∧
        ((fresh { now := ⟨0, some 0⟩, step := 1 }).run .rupees
          Turn.takenBackTwice).entries = .ok es' ∧
        Ledger.Continues es es' := by
  have hallowed : ∀ t ∈ Turn.takenBackTwice, t.call.Allowed .full := by
    intro t ht
    simp only [Turn.takenBackTwice, List.mem_cons, List.not_mem_nil, or_false] at ht
    rcases ht with rfl | rfl | rfl | rfl
    · exact ⟨none, rfl⟩
    · exact ⟨⟨none, rfl⟩, none, none, rfl, rfl, trivial⟩
    · exact .inr trivial
    · exact .inr trivial
  exact ⟨hallowed, (entries_append_only (isNew_fresh _) hallowed).1 _ (Turn.takenBackTwice.drop 2)
    (List.take_append_drop 2 _).symm⟩

example : ((World.fresh { now := ⟨0, some 0⟩, step := 1 }).run .rupees
    Turn.takenBackTwice).entries.toOption.map (fun es => es.map LedgerEntry.status) =
    some [.void, .posted] := by decide +kernel

end RewardLedger
