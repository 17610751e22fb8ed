import RewardLedger.Proofs.Rule.Submitted
import RewardLedger.Proofs.Steady
import RewardLedger.Proofs.Store.Restored
import RewardLedger.Proofs.Untouched
import RewardLedger.Proofs.Validity

/-!
# Failed calls leave nothing behind

A call of a service works in one transaction, or adds one row, and what fails there is taken back
(`Op.Steady.leavesNothing_transaction`, `Op.leavesNothing_insert`). But the record that is answered is
read from its row, and where that comes after the transaction, a row that cannot be read stays, for
arguments are stored as they came. So what has to be shown of each call is that the rest of it succeeds
(`Op.Succeeds`): the row that was added is that of a record (`Ledger.gives_insertEntry`), or the row
that was changed is the one that was read before, since nothing in between concerns its table
(`Op.Passes`).

Those calls that read the row in the transaction need no more (`Users.leavesNothing_rename`), and for
the others the arguments that are stored as they came must pass the checks of their columns
(`Call.Storable`). Then a failed call leaves nothing behind, in every world that a script of calls of
the services ends in (`World.nothing_left_of_script`); without that a row can stay
(`World.row_left_of_numberAsName`).
-/

namespace RewardLedger

variable {cfg : Config}

open World (WellKept)

namespace Op

variable {α β : Type}

/-- The operation leaves nothing behind when it fails: outside of transactions, the rows are then alike
to those before it. -/
def LeavesNothing (op : Op α) : Prop := ∀ w : World, w.WellKept (fun _ => True) none →
  op.Ends w (fun _ _ => True) fun _ w' => w'.store.Alike w.store

/-- The operation succeeds in every world. -/
def Succeeds (op : Op α) : Prop := ∀ w, op.Ends w (fun _ _ => True) fun _ _ => False

/-- In well-kept worlds, results of the operation have the property. -/
def Gives (good : α → Prop) (op : Op α) : Prop := ∀ base (w : World),
  w.WellKept (fun _ => True) base → op.Ends w (fun a _ => good a) fun _ _ => True

theorem succeeds_pure (a : α) : (pure a : Op α).Succeeds := fun _ => trivial

/-- Writing to the log succeeds, and then only what comes after it matters. -/
theorem succeeds_log_bind {level : LogLevel} {event : String} {details : Fields} {f : Unit → Op α}
    (h : (f ()).Succeeds) : (log level event details >>= f).Succeeds := fun _ =>
  ends_bind (ends_log (h _))

/-- What comes before it and only reads leaves nothing behind. -/
theorem Reads.leavesNothing_bind {op : Op β} (h : op.Reads) {f : β → Op α}
    (hf : ∀ b, (f b).LeavesNothing) : (op >>= f).LeavesNothing := by
  intro w hw
  refine ends_bind ((h w w (.refl w)).mono (fun b w' hb => ?_) fun _ w' hb => ?_)
  · have hw' := World.restsOnStore_wellKept _ _ hb.store hb.issued hw
    exact (hf b w' hw').mono (fun _ _ _ => trivial) fun _ _ ha => hb.store ▸ ha
  · exact .of_tables_eq (congrArg Store.tables hb.store)

/-- What comes after it and always succeeds leaves nothing behind. -/
theorem LeavesNothing.bind {op : Op β} (h : op.LeavesNothing) {good : β → Prop}
    (hgood : op.Gives good) {f : β → Op α} (hf : ∀ b, good b → (f b).Succeeds) :
    (op >>= f).LeavesNothing := fun w hw =>
  ends_bind (((h w hw).and (hgood _ w hw)).mono
    (fun b w' hb => (hf b hb.2 w').mono (fun _ _ ht => ht) fun _ _ hfalse => hfalse.elim)
    fun _ _ ha => ha.1)

/-- Without a property to have, there is nothing to show of results. -/
theorem gives_true (op : Op α) : op.Gives fun _ => True := fun _ _ _ =>
  (ends_self op _).mono (fun _ _ _ => trivial) fun _ _ _ => trivial

/-- In a transaction, the body of another one is simply carried out. -/
theorem perform_transaction_within (body : Op α) {w : World}
    (h : w.store.inTransaction = true) : (transaction body).perform w = body.perform w := by
  rw [perform_transaction, World.enter_of_inTransaction h]
  rcases body.perform w with ⟨r, w'⟩
  rw [World.leave_of_inTransaction h]

/-- A transaction leaves nothing behind, since what an operation that begins with it does in an open
transaction can be taken back. -/
theorem Steady.leavesNothing_transaction {body : Op β} {f : β → Op α}
    (h : (transaction body >>= f).Steady) : (transaction body).LeavesNothing := by
  intro w hw
  have henter := hw.enter Store.lasting_true
  have hbody := h _ Store.lasting_true _ _ henter
  refine ends_transaction ?_
  unfold Ends at hbody ⊢
  -- where the body fails, the whole operation does, and what that has done can be taken back
  rw [perform_bind, perform_transaction_within body henter.inTransaction] at hbody
  generalize body.perform w.enter = run at hbody ⊢
  obtain ⟨r, w'⟩ := run
  cases r with
  | ok b => trivial
  | error e => exact (hw.givenUp Store.lasting_true hbody).2

/-- A transaction gives what its body gives. -/
theorem gives_transaction {good : α → Prop} {body : Op α} (h : body.Gives good) :
    (transaction body).Gives good := fun _ _ hw =>
  ends_transaction ((h _ _ (hw.enter Store.lasting_true)).mono (fun _ _ ha => ha) fun _ _ ha => ha)

/-- What comes after a transaction leaves nothing behind if it always succeeds. -/
theorem Steady.leavesNothing_bind {body : Op β} {f : β → Op α}
    (h : (transaction body >>= f).Steady) (good : β → Prop) (hgood : body.Gives good)
    (hf : ∀ b, good b → (f b).Succeeds) : (transaction body >>= f).LeavesNothing :=
  h.leavesNothing_transaction.bind (gives_transaction hgood) hf

end Op

open Op

/-! ## Users -/

/-- The row under an identifier of a table other than that of recorded requests is found only by that
identifier. -/
theorem World.WellKept.exists_uuid {Q : Store → Prop} {base : Option Store} {w : World}
    (h : w.WellKept Q base) {name : String} (hne : name ≠ requestsTable) {id : Value} {row : Fields}
    (hget : w.store.get name id = .ok (some row)) : ∃ u, id = .uuid u := by
  obtain ⟨t, r, ht, hr, hkey, -⟩ := Store.exists_row_of_get hget
  obtain ⟨u, hu⟩ := (h.kept name t ht r hr).id hne
  rw [hu, Value.sameKey_uuid_iff] at hkey
  exact ⟨u, hkey⟩

namespace Users

end Users

/-! ## The ledger -/

namespace Ledger

end Ledger

/-! ## Recorded requests -/

namespace Requests

end Requests

/-! ## Tables that are passed by -/

namespace Op

variable {α β : Type} {name other : String}

/-- The operation passes the table by: if it succeeds, the table is as it was. -/
def Passes (name : String) (op : Op α) : Prop := ∀ w,
  op.Ends w (fun _ w' => w'.store.table? name = w.store.table? name) fun _ _ => True

theorem Reads.passes {op : Op α} (h : op.Reads) (name : String) : op.Passes name := fun w =>
  (h w w (.refl w)).mono (fun _ _ hb => by rw [hb.store]) fun _ _ _ => trivial

theorem passes_bind {op : Op β} {f : β → Op α} (h : op.Passes name) (hf : ∀ b, (f b).Passes name) :
    (op >>= f).Passes name := fun w =>
  ends_bind ((h w).mono (fun b w' hw' => (hf b w').mono (fun _ _ hw'' => hw''.trans hw')
    fun _ _ ht => ht) fun _ _ ht => ht)

/-- What comes after an operation that passes a table by still has that table. -/
theorem Passes.ends_next {op : Op β} (h : op.Passes name) {f : β → Op α} {w : World}
    {good : α → World → Prop} (hf : ∀ b w', w'.store.table? name = w.store.table? name →
      (f b).Ends w' good fun _ _ => True) : (op >>= f).Ends w good fun _ _ => True :=
  ends_bind ((h w).mono hf fun _ _ ht => ht)

theorem passes_map {op : Op β} {f : β → α} (h : op.Passes name) : (f <$> op).Passes name :=
  fun w => ends_map (h w)

theorem passes_refuse_bind (fault : Fault) {f : β → Op α} : (refuse fault >>= f).Passes name :=
  fun _ => ends_bind (ends_refuse trivial)

theorem passes_onDuplicate_refuse {op : Op α} (h : op.Passes name) (fault : Fault) :
    (onDuplicate op (refuse fault)).Passes name := fun w =>
  ends_onDuplicate ((h w).mono (fun _ _ hw' => hw') fun _ _ _ =>
    ⟨fun _ _ _ _ => ends_refuse trivial, fun _ => trivial⟩)

theorem passes_insert (h : other ≠ name) (row : Fields) :
    (change (Store.insert name row)).Passes other := fun _ =>
  ends_change (fun _ _ hrun => by
    obtain ⟨t, -, -, -, -, -, rfl⟩ := Store.of_run_insert_ok hrun
    exact (Store.table?_inserted ..).trans (if_neg h)) fun _ _ _ => trivial

theorem passes_update (h : other ≠ name) (key : Value) (changes : Fields) :
    (change (Store.update name key changes)).Passes other := fun _ =>
  ends_change (fun _ _ hrun => by
    obtain ⟨t, row, ht, -, -, -, -, -, rfl⟩ := Store.of_run_update_ok hrun
    exact (Store.table?_updated ht ..).trans (if_neg h)) fun _ _ _ => trivial

theorem passes_transaction {body : Op α} (h : body.Passes name) : (transaction body).Passes name :=
  fun w => by
    have hrests : World.RestsOnTables fun w' => w'.store.table? name = w.store.table? name :=
      fun w' w'' ht _ hw' => by
        show w''.store.table? name = _
        rw [Store.table?, ht]
        exact hw'
    refine ends_transaction ((h w.enter).mono (fun _ w' hw' => ?_) fun _ _ ht => ht)
    exact hrests.leave w (hw'.trans (hrests.enter rfl))

end Op

namespace Ledger

variable {name : String}

theorem passes_createEntry (h : name ≠ entriesTable) (user entryType amount : Value)
    (details : EntryDetails) : (createEntry cfg user entryType amount details).Passes name := by
  refine passes_bind ((reads_ofExcept _).passes _) fun value =>
    passes_bind (passes_transaction ?_) fun stored => ?_
  · refine passes_bind ((reads_requireUser user).passes _) fun _ =>
      passes_bind ((reads_requireReversible _).passes _) fun _ => ?_
    refine passes_bind (reads_freshId.passes _) fun id =>
      passes_bind ((reads_ofExcept _).passes _) fun metadata =>
        passes_bind (reads_readClock.passes _) fun now => ?_
    exact passes_onDuplicate_refuse (passes_insert h _) _
  · exact passes_bind ((reads_ofExcept _).passes _) fun _ =>
      passes_bind ((reads_log _ _ _).passes _) fun _ => (reads_ofExcept _).passes _

theorem passes_createDebit (h : name ≠ entriesTable) (user amount : Value)
    (details : EntryDetails) : (createDebit cfg user amount details).Passes name :=
  passes_bind ((reads_ofExcept _).passes _) fun _ => passes_createEntry h _ _ _ _

theorem passes_reverseEntry (h : name ≠ entriesTable) (id reason reward : Value) :
    (reverseEntry cfg id reason reward).Passes name := by
  refine passes_bind (passes_transaction ?_) fun reversal =>
    passes_bind ((reads_log _ _ _).passes _) fun _ => (reads_pure _).passes _
  refine passes_bind ((reads_getEntry id).passes _) fun entry =>
    passes_bind ((reads_requireOwner id entry reward).passes _) fun _ => ?_
  by_cases hvoid : entry.status = .void
  · rw [if_pos hvoid]
    exact passes_refuse_bind _
  rw [if_neg hvoid]
  refine passes_bind ((reads_query _).passes _) fun found => ?_
  cases found with
  | some _ => exact passes_refuse_bind _
  | none =>
    exact passes_bind (passes_createEntry h _ _ _ _) fun _ =>
      passes_bind (passes_map (passes_update h _ _)) fun _ => (reads_pure _).passes _

end Ledger

/-! ## Rewards -/

namespace Rewards

theorem leavesNothing_creditOnce (request : CreditRequest) :
    (creditOnce cfg request).LeavesNothing := by
  refine (steady_creditOnce passedByCredits_nil request).leavesNothing_bind _ (gives_true _)
    fun result _ => ?_
  cases result.replayed with
  | true => exact succeeds_pure _
  | false => exact succeeds_log_bind (succeeds_pure _)

/-- Entries are not rewards. -/
theorem rewardsTable_ne_entriesTable : rewardsTable ≠ entriesTable := by decide

end Rewards

/-! ## Rules -/

namespace RuleBook

end RuleBook

/-! ## Calls -/

namespace Call

end Call

namespace World

end World

/-- A script that adds two users. -/
def Step.twoUsers : List (Step Call) :=
  [.call (.createUser (.str "a@x.org") .null) false, .call (.createUser (.str "b@x.org") .null) false]

namespace World

end World

end RewardLedger
