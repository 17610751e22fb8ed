import RewardLedger.Proofs.Ledger.Books
import RewardLedger.Proofs.Reading

/-!
# What leaves the books alone

An operation works aside from the books if a world holds the same books before and after it, whether
it succeeds or fails, in a transaction or not; only identifiers may have been given out
(`Op.Aside`). All operations that only read do (`Op.Reads.aside`), among them those of users, of the
ledger, of recorded requests and of rewards that are told apart here.
-/

namespace RewardLedger

namespace World

variable {cfg : Config} {base : Option Store} {b : Books} {w : World}

/-- The world holds the books, with more identifiers given out at most. -/
def HoldsBeside (cfg : Config) (base : Option Store) (b : Books) (w : World) : Prop :=
  ∃ n, b.issued ≤ n ∧ w.Holds cfg base { b with issued := n }

/-- A world that holds books holds them beside others. -/
theorem Holds.beside (h : w.Holds cfg base b) : w.HoldsBeside cfg base b :=
  ⟨b.issued, Nat.le_refl _, h⟩

/-- Which books a world holds rests on the store. -/
theorem restsOnStore_holdsBeside (cfg : Config) (base : Option Store) (b : Books) :
    RestsOnStore (HoldsBeside cfg base b) := by
  rintro w w' hs hi ⟨n, hn, hw⟩
  have hle : n ≤ w'.issued := Nat.le_trans (Nat.le_of_eq hw.issued) hi
  exact ⟨w'.issued, Nat.le_trans hn hle, (hw.issue hi).congr hs rfl⟩

/-- What is left to say after a failure rests on the store. -/
theorem restsOnStore_undone (cfg : Config) (base : Option Store) (b : Books) :
    RestsOnStore (Undone cfg base b) := by
  intro w w' hs hi h
  cases base with
  | none => exact restsOnStore_holdsBeside cfg none b hs hi h
  | some s₀ =>
    obtain ⟨hsound, hsince, hdeclared, hissued⟩ := h
    exact ⟨hs ▸ hsound, hs ▸ hsince, hs ▸ hdeclared, Nat.le_trans hissued hi⟩

end World

namespace Op

variable {α β : Type} {cfg : Config}

/-! ## Aside from the books -/

/-- The operation leads from worlds that hold books to worlds that hold the same books, but for the
number of identifiers given out. -/
def Aside (cfg : Config) (op : Op α) : Prop :=
  ∀ base b, op.Keeps (World.HoldsBeside cfg base b)

/-- A transaction works aside from the books if its body does. -/
theorem aside_transaction {op : Op α} (h : op.Aside cfg) : (transaction op).Aside cfg := by
  rintro base b w ⟨n, hn, hw⟩
  refine ends_transaction ((h _ _ _ hw.enter.beside).mono ?_ ?_)
  · rintro _ w' ⟨m, hm, hw'⟩
    exact ⟨m, Nat.le_trans hn hm, hw.leave hw'⟩
  · rintro _ w' ⟨m, hm, hw'⟩
    cases base with
    | none =>
      have hundone : w'.Undone cfg (some w.store) { b with issued := n } :=
        ⟨hw'.sound, hw'.within, hw'.declared, Nat.le_trans hm (Nat.le_of_eq hw'.issued)⟩
      have hle : n ≤ w'.issued := Nat.le_trans hm (Nat.le_of_eq hw'.issued)
      exact ⟨w'.issued, Nat.le_trans hn hle, hw.rollBack hundone⟩
    | some s₀ =>
      rw [World.leave_of_within hw.within]
      exact ⟨m, Nat.le_trans hn hm, hw'⟩

variable {op : Op β} {f : β → Op α}

theorem aside_pure (a : α) : (pure a : Op α).Aside cfg := fun _ _ => keeps_pure a

theorem aside_ofExcept (r : Except Failure α) : (ofExcept r).Aside cfg := fun _ _ =>
  keeps_ofExcept r

theorem aside_query (question : Store → Except Failure α) : (query question).Aside cfg :=
  fun _ _ => keeps_query question

theorem aside_bind (h : op.Aside cfg) (hf : ∀ b, (f b).Aside cfg) : (op >>= f).Aside cfg :=
  fun base b => keeps_bind (h base b) fun x => hf x base b

theorem aside_map {g : β → α} (h : op.Aside cfg) : (g <$> op).Aside cfg := fun base b =>
  keeps_map (h base b)

theorem aside_forM {f : β → Op PUnit} (h : ∀ b, (f b).Aside cfg) (items : List β) :
    (items.forM f).Aside cfg := fun base b => keeps_forM (fun x => h x base b) items

theorem aside_freshId : freshId.Aside cfg := fun base b =>
  keeps_freshId (World.restsOnStore_holdsBeside cfg base b)

theorem aside_readClock : readClock.Aside cfg := fun base b =>
  keeps_readClock (World.restsOnStore_holdsBeside cfg base b)

theorem aside_log (level : LogLevel) (event : String) (details : Fields) :
    (log level event details).Aside cfg := fun base b =>
  keeps_log (World.restsOnStore_holdsBeside cfg base b) level event details

/-- What only reads works aside from the books. -/
theorem Reads.aside {op : Op α} (h : op.Reads) : op.Aside cfg := fun base b =>
  h.keeps fun _ _ hb => World.restsOnStore_holdsBeside cfg base b hb.store hb.issued

end Op

variable {cfg : Config}

open Op

/-! ## Users -/

namespace Users

theorem reads_get (id : Value) : (get id).Reads := reads_row

theorem reads_getByEmail (email : Value) : (getByEmail email).Reads :=
  reads_bind (reads_ofExcept _) fun _ => reads_row

theorem reads_has (id : Value) : (has id).Reads :=
  reads_bind (reads_query _) fun _ => reads_pure _

theorem reads_all : all.Reads := reads_query_ofExcept

end Users

/-! ## The ledger -/

namespace Ledger

/-- Requiring a user does not change the world. -/
theorem keeps_requireUser {P : World → Prop} (id : Value) : (requireUser id).Keeps P := by
  refine keeps_bind (keeps_query _) fun row => ?_
  cases row with
  | none => exact keeps_refuse _
  | some _ => exact keeps_pure _

theorem reads_requireUser (id : Value) : (requireUser id).Reads := fun _ => keeps_requireUser id

theorem reads_getEntry (id : Value) : (getEntry id).Reads := reads_row

theorem reads_rowsWith (column : String) (v : Value) : (rowsWith column v).Reads :=
  reads_query _

theorem reads_entriesForUser (user : Value) : (entriesForUser user).Reads :=
  reads_bind (reads_rowsWith _ _) fun _ => reads_ofExcept _

theorem reads_entriesForReward (reward : Value) : (entriesForReward reward).Reads :=
  reads_bind (reads_rowsWith _ _) fun _ => reads_ofExcept _

theorem reads_calculateBalance (user currency : Value) :
    (calculateBalance cfg user currency).Reads :=
  reads_bind (reads_requireUser user) fun _ =>
    reads_bind (reads_entriesForUser user) fun _ => reads_ofExcept _

theorem reads_getBalance (user currency : Value) : (getBalance cfg user currency).Reads := by
  refine reads_bind (reads_transaction ?_) fun entries =>
    reads_bind (reads_ofExcept _) fun _ => reads_ofExcept _
  exact reads_bind (reads_requireUser user) fun _ =>
    reads_bind (reads_entriesForUser user) fun _ => reads_pure _

theorem reads_rowsAfter (user cursor : Value) (rows : List Fields) :
    (rowsAfter user cursor rows).Reads := by
  unfold rowsAfter
  cases cursor.isNull with
  | true => exact reads_pure _
  | false =>
    refine reads_bind (reads_query _) fun anchor => ?_
    cases anchor with
    | none => exact reads_refuse _
    | some anchor =>
      refine reads_bind (reads_ofExcept _) fun same => ?_
      cases same with
      | true => exact reads_bind (reads_ofExcept _) fun _ => reads_ofExcept _
      | false => exact reads_bind (reads_refuse _) fun _ => reads_bind (reads_ofExcept _) fun _ =>
          reads_ofExcept _

theorem reads_listByUser (user cursor limit : Value) :
    (listByUser cfg user cursor limit).Reads := by
  refine reads_bind (reads_ofExcept _) fun _ => reads_bind (reads_transaction ?_) fun rows =>
    reads_bind (reads_ofExcept _) fun _ => reads_bind (reads_ofExcept _) fun _ =>
      reads_ofExcept _
  exact reads_bind (reads_requireUser user) fun _ => reads_bind (reads_rowsWith _ _) fun _ =>
    reads_bind (reads_ofExcept _) fun _ => reads_rowsAfter _ _ _

end Ledger

/-! ## Recorded requests -/

namespace Requests

theorem reads_check (key fingerprint : Value) : (check key fingerprint).Reads := by
  refine reads_bind (reads_query _) fun row => ?_
  cases row with
  | none => exact reads_pure _
  | some row =>
    refine reads_bind (reads_ofExcept _) fun same => ?_
    cases same with
    | true => exact reads_bind (reads_ofExcept _) fun _ => reads_pure _
    | false => exact reads_bind (reads_log _ _ _) fun _ => reads_refuse _

theorem reads_get? (key : Value) : (get? key).Reads := by
  refine reads_bind (reads_query _) fun row => ?_
  cases row with
  | none => exact reads_pure _
  | some _ => exact reads_ofExcept _

theorem reads_orNow (now : Value) : (orNow now).Reads := by
  unfold orNow
  split
  · exact reads_pure _
  · exact reads_bind reads_readClock fun _ => reads_pure _

theorem reads_expired (now : Value) : (expired now).Reads :=
  reads_bind (reads_orNow now) fun _ => reads_query_ofExcept

end Requests

/-! ## Rewards -/

namespace Rewards

theorem reads_get (id : Value) : (get id).Reads := reads_row

theorem reads_all (status limit : Value) : (all status limit).Reads :=
  reads_bind (reads_query _) fun _ => reads_bind (reads_ofExcept _) fun _ => reads_ofExcept _

theorem reads_entriesFor (id : Value) : (entriesFor id).Reads :=
  reads_bind (reads_map (reads_get id)) fun _ => Ledger.reads_entriesForReward id

theorem reads_oldestCredit (id : Value) : (oldestCredit id).Reads :=
  reads_bind (Ledger.reads_entriesForReward id) fun _ => reads_pure _

end Rewards

end RewardLedger
