import RewardLedger.Proofs.Computation
import RewardLedger.World

/-!
# What operations come to

`Op.perform` opens an operation into its result and the world after it. `Op.Ends` says of a run that
its result and the world after it are as `good` asks if it succeeds, and as `bad` asks if it fails;
what an operation did before it failed stays done, so both ends speak of the world. There is one rule
for each way in which operations are put together, and `ends_transaction` leaves the closing of the
transaction to the conditions, which is where the store is kept or taken back.
-/

namespace RewardLedger

/-- Whether a lookup found something can be computed, whatever it found. -/
theorem exists_eq_ok_some {α : Type} {r : Except Failure (Option α)}
    (h : r.toOption.map Option.isSome = some true) : ∃ a, r = .ok (some a) := by
  cases r with
  | error f => cases h
  | ok found =>
    cases found with
    | none => cases h
    | some a => exact ⟨a, rfl⟩

namespace Op

variable {α β : Type}

/-! ## Running -/

/-- The second operation runs in the world that the first one leaves, if that one succeeds. -/
theorem perform_bind (op : Op α) (f : α → Op β) (w : World) :
    (op >>= f).perform w =
      match op.perform w with
      | (.ok a, w') => (f a).perform w'
      | (.error e, w') => (.error e, w') := by
  simp only [perform, ExceptT.run, StateT.run, bind, ExceptT.bind, ExceptT.mk, StateT.bind,
    ExceptT.bindCont]
  rcases op w with ⟨r, w'⟩
  cases r with
  | ok a => rfl
  | error e => rfl

/-- A function of a result does not look at the world. -/
theorem perform_map (f : α → β) (op : Op α) (w : World) :
    (f <$> op).perform w =
      match op.perform w with
      | (.ok a, w') => (.ok (f a), w')
      | (.error e, w') => (.error e, w') := by
  rw [map_eq_pure_bind, perform_bind]
  rfl

/-- A failure leaves the world alone. -/
@[simp] theorem perform_throw (e : Failure) (w : World) :
    (throw e : Op α).perform w = (.error e, w) := rfl

/-- A refusal leaves the world alone. -/
@[simp] theorem perform_refuse (fault : Fault) (w : World) :
    (refuse fault : Op α).perform w = (.error (.fault fault), w) := rfl

/-- A computation that does not look at the world leaves it alone. -/
@[simp] theorem perform_ofExcept (r : Except Failure α) (w : World) :
    (ofExcept r).perform w = (r, w) := by
  cases r <;> rfl

/-- A question leaves the world alone. -/
@[simp] theorem perform_query (question : Store → Except Failure α) (w : World) :
    (query question).perform w = (question w.store, w) := by
  rw [query, perform_bind]
  exact perform_ofExcept _ _

/-- A change of the store changes nothing else. -/
theorem perform_change (action : StoreM α) (w : World) :
    (change action).perform w =
      ((action.run.run w.store).1, { w with store := (action.run.run w.store).2 }) := by
  have h : (change action).perform w =
      (ofExcept (action.run.run w.store).1).perform
        { w with store := (action.run.run w.store).2 } := rfl
  rw [h, perform_ofExcept]

/-- A fresh identifier is the number of identifiers given out, itself included. -/
@[simp] theorem perform_freshId (w : World) :
    freshId.perform w = (.ok ⟨w.issued + 1⟩, { w with issued := w.issued + 1 }) := rfl

/-- Reading the clock gives its next reading, if it has one. -/
theorem perform_readClock (w : World) :
    readClock.perform w =
      match w.clock.read? with
      | some (t, clock) => (.ok t, { w with clock })
      | none => (.error .outOfRange, w) := by
  have h : readClock.perform w =
      (match w.clock.read? with
        | some (t, clock) => (do set { w with clock }; pure t : Op Instant)
        | none => throw Failure.outOfRange).perform w := rfl
  rw [h]
  cases w.clock.read? <;> rfl

/-- A record of the log is put in front of the others. -/
@[simp] theorem perform_log (level : LogLevel) (event : String) (details : Fields) (w : World) :
    (log level event details).perform w =
      (.ok (), { w with log := ⟨level, event, details⟩ :: w.log }) := rfl

/-- What handles a failure runs in the world that the failing operation leaves. -/
theorem perform_tryCatch (op : Op α) (handler : Failure → Op α) (w : World) :
    (tryCatch op handler).perform w =
      match op.perform w with
      | (.ok a, w') => (.ok a, w')
      | (.error e, w') => (handler e).perform w' := by
  show (ExceptT.tryCatch op handler) w = _
  simp only [perform, ExceptT.run, StateT.run, ExceptT.tryCatch, ExceptT.mk, bind, StateT.bind]
  rcases op w with ⟨r, w'⟩
  cases r with
  | ok a => rfl
  | error e => rfl

/-- A transaction runs its body in the world that it opens, and closes the world after it. -/
theorem perform_transaction (body : Op α) (w : World) :
    (transaction body).perform w =
      ((body.perform w.enter).1,
        World.leave w (body.perform w.enter).2 (body.perform w.enter).1.isOk) := rfl

/-- Opening a transaction keeps the tables. -/
theorem table?_enter (w : World) (name : String) :
    w.enter.store.table? name = w.store.table? name := by
  rw [World.enter]
  split
  · rfl
  · rfl

/-- Keeping a transaction keeps the tables. -/
theorem table?_leave (w w' : World) (name : String) :
    (World.leave w w' true).store.table? name = w'.store.table? name := by
  rw [World.leave]
  split
  · rfl
  · rfl

/-! ## Ends -/

/-- Performed in the world, the operation ends with a result and a world that `good` admits, or with
a failure and a world that `bad` admits. -/
def Ends (op : Op α) (w : World) (good : α → World → Prop) (bad : Failure → World → Prop) : Prop :=
  match op.perform w with
  | (.ok a, w') => good a w'
  | (.error e, w') => bad e w'

variable {op : Op α} {w : World} {good : α → World → Prop} {bad : Failure → World → Prop}

/-- A run that succeeds is as `good` asks. -/
theorem Ends.good_of_ok (h : op.Ends w good bad) {a : α} {w' : World}
    (hr : op.perform w = (.ok a, w')) : good a w' := by
  simpa only [Ends, hr] using h

/-- A run that fails is as `bad` asks. -/
theorem Ends.bad_of_error (h : op.Ends w good bad) {e : Failure} {w' : World}
    (hr : op.perform w = (.error e, w')) : bad e w' := by
  simpa only [Ends, hr] using h

/-- A run that can only succeed, with one result and one world after it, does so. -/
theorem Ends.perform_eq {a : α} {w₁ : World}
    (h : op.Ends w (fun x w' => x = a ∧ w' = w₁) fun _ _ => False) :
    op.perform w = (.ok a, w₁) := by
  unfold Ends at h
  split at h
  · rename_i hr
    rw [hr, h.1, h.2]
  · exact h.elim

/-- What both ends ask may be weakened. -/
theorem Ends.mono {good' : α → World → Prop} {bad' : Failure → World → Prop}
    (h : op.Ends w good bad) (hg : ∀ a w', good a w' → good' a w')
    (hb : ∀ e w', bad e w' → bad' e w') : op.Ends w good' bad' := by
  unfold Ends at h ⊢
  split at h
  · exact hg _ _ h
  · exact hb _ _ h

/-- What two accounts of a run ask holds together. -/
theorem Ends.and {good' : α → World → Prop} {bad' : Failure → World → Prop}
    (h : op.Ends w good bad) (h' : op.Ends w good' bad') :
    op.Ends w (fun a w' => good a w' ∧ good' a w') fun e w' => bad e w' ∧ bad' e w' := by
  unfold Ends at h h' ⊢
  generalize op.perform w = run at h h' ⊢
  obtain ⟨r, w'⟩ := run
  cases r with
  | ok a => exact ⟨h, h'⟩
  | error e => exact ⟨h, h'⟩

/-- What both ends ask of the world holds of the world after the run. -/
theorem Ends.perform_snd {P : World → Prop}
    (h : op.Ends w (fun _ w' => P w') fun _ w' => P w') : P (op.perform w).2 := by
  unfold Ends at h
  split at h
  · rename_i hr
    rwa [hr]
  · rename_i hr
    rwa [hr]

/-- Every run ends with its own result. -/
theorem ends_self (op : Op α) (w : World) :
    op.Ends w (fun a w' => op.perform w = (.ok a, w')) fun e w' => op.perform w = (.error e, w') := by
  unfold Ends
  split
  · assumption
  · assumption

theorem ends_pure {a : α} (h : good a w) : (pure a : Op α).Ends w good bad := h

/-- A sequence ends well if the second operation does in the world that the first one leaves. -/
theorem ends_bind {op : Op β} {f : β → Op α}
    (h : op.Ends w (fun b w' => (f b).Ends w' good bad) bad) : (op >>= f).Ends w good bad := by
  unfold Ends at h
  unfold Ends
  rw [perform_bind]
  generalize op.perform w = run at h ⊢
  obtain ⟨r, w'⟩ := run
  cases r with
  | ok b => exact h
  | error e => exact h

/-- A function of the result changes what the good end asks. -/
theorem ends_map {op : Op β} {f : β → α} (h : op.Ends w (fun b w' => good (f b) w') bad) :
    (f <$> op).Ends w good bad := by
  rw [map_eq_pure_bind]
  exact ends_bind h

theorem ends_throw {e : Failure} (h : bad e w) : (throw e : Op α).Ends w good bad := h

theorem ends_refuse {fault : Fault} (h : bad (.fault fault) w) :
    (refuse fault : Op α).Ends w good bad := h

/-- A computation that does not look at the world ends as it does. -/
theorem ends_ofExcept {r : Except Failure α} (hg : ∀ a, r = .ok a → good a w)
    (hb : ∀ e, r = .error e → bad e w) : (ofExcept r).Ends w good bad := by
  unfold Ends
  rw [perform_ofExcept]
  cases r with
  | ok a => exact hg a rfl
  | error e => exact hb e rfl

/-- A question ends as the store answers it. -/
theorem ends_query {question : Store → Except Failure α}
    (hg : ∀ a, question w.store = .ok a → good a w)
    (hb : ∀ e, question w.store = .error e → bad e w) : (query question).Ends w good bad := by
  unfold Ends
  rw [perform_query]
  cases h : question w.store with
  | ok a => exact hg a h
  | error e => exact hb e h

/-- A computation that is known to succeed ends well if its result is good. -/
theorem ends_ofExcept_ok {r : Except Failure α} {a : α} (h : r = .ok a) (hg : good a w) :
    (ofExcept r).Ends w good bad := by
  rw [h]
  exact ends_pure hg

/-- A question to which the answer is known ends well if the answer is good. -/
theorem ends_query_ok {question : Store → Except Failure α} {a : α}
    (h : question w.store = .ok a) (hg : good a w) : (query question).Ends w good bad := by
  unfold Ends
  rw [perform_query, h]
  exact hg

/-- A change of the store ends as the change does. -/
theorem ends_change {action : StoreM α}
    (hg : ∀ a s, action.run.run w.store = (.ok a, s) → good a { w with store := s })
    (hb : ∀ e s, action.run.run w.store = (.error e, s) → bad e { w with store := s }) :
    (change action).Ends w good bad := by
  unfold Ends
  rw [perform_change]
  rcases h : action.run.run w.store with ⟨r, s⟩
  cases r with
  | ok a => exact hg a s h
  | error e => exact hb e s h

/-- A fresh identifier is one more than the number given out so far. -/
theorem ends_freshId {good : Uuid → World → Prop}
    (h : good ⟨w.issued + 1⟩ { w with issued := w.issued + 1 }) : freshId.Ends w good bad := h

/-- Reading the clock changes the clock at most. -/
theorem ends_readClock {good : Instant → World → Prop}
    (hg : ∀ t clock, w.clock.read? = some (t, clock) → good t { w with clock })
    (hb : w.clock.read? = none → bad .outOfRange w) : readClock.Ends w good bad := by
  unfold Ends
  rw [perform_readClock]
  cases h : w.clock.read? with
  | none => exact hb h
  | some p => exact hg p.1 p.2 h

theorem ends_log {good : Unit → World → Prop} {level : LogLevel} {event : String}
    {details : Fields} (h : good () { w with log := ⟨level, event, details⟩ :: w.log }) :
    (log level event details).Ends w good bad := h

/-- What handles a failure must end well in the world that the failing operation leaves. -/
theorem ends_tryCatch {handler : Failure → Op α}
    (h : op.Ends w good fun e w' => (handler e).Ends w' good bad) :
    (tryCatch op handler).Ends w good bad := by
  unfold Ends at h
  unfold Ends
  rw [perform_tryCatch]
  generalize op.perform w = run at h ⊢
  obtain ⟨r, w'⟩ := run
  cases r with
  | ok a => exact h
  | error e => exact h

/-- Only a violated unique constraint leads to the other operation. -/
theorem ends_onDuplicate {other : Op α}
    (h : op.Ends w good fun e w' =>
      (∀ table index key, e = .duplicate table index key → other.Ends w' good bad) ∧
        ((∀ table index key, e ≠ .duplicate table index key) → bad e w')) :
    (onDuplicate op other).Ends w good bad := by
  unfold onDuplicate
  apply ends_tryCatch
  refine h.mono (fun a w' ha => ha) fun e w' he => ?_
  split
  · exact he.1 _ _ _ rfl
  · rename_i hne
    exact ends_throw (he.2 hne)

/-- A transaction ends as its body does, in the closed world. -/
theorem ends_transaction
    (h : op.Ends w.enter (fun a w' => good a (World.leave w w' true))
      fun e w' => bad e (World.leave w w' false)) : (transaction op).Ends w good bad := by
  unfold Ends at h
  unfold Ends
  rw [perform_transaction]
  generalize op.perform w.enter = run at h ⊢
  obtain ⟨r, w'⟩ := run
  cases r with
  | ok a => exact h
  | error e => exact h

/-! ## Keeping -/

/-- Whatever it comes to, the operation leads from worlds with the property to worlds with the
property. -/
def Keeps (P : World → Prop) (op : Op α) : Prop :=
  ∀ w, P w → op.Ends w (fun _ w' => P w') fun _ w' => P w'

end Op

/-- The property rests on the store, and giving identifiers out does not spoil it. -/
def World.RestsOnStore (P : World → Prop) : Prop :=
  ∀ ⦃w w' : World⦄, w'.store = w.store → w.issued ≤ w'.issued → P w → P w'

namespace Op

variable {α β : Type} {P : World → Prop}

theorem keeps_pure (a : α) : Keeps P (pure a : Op α) := fun _ h => ends_pure h

theorem keeps_throw (e : Failure) : Keeps P (throw e : Op α) := fun _ h => ends_throw h

theorem keeps_refuse (fault : Fault) : Keeps P (refuse fault : Op α) := fun _ h => ends_refuse h

theorem keeps_ofExcept (r : Except Failure α) : Keeps P (ofExcept r) := fun _ h =>
  ends_ofExcept (fun _ _ => h) fun _ _ => h

theorem keeps_query (question : Store → Except Failure α) : Keeps P (query question) := fun _ h =>
  ends_query (fun _ _ => h) fun _ _ => h

/-- A sequence keeps what both of its parts keep. -/
theorem keeps_bind {op : Op β} {f : β → Op α} (h : op.Keeps P) (hf : ∀ b, (f b).Keeps P) :
    (op >>= f).Keeps P := fun w hw =>
  ends_bind ((h w hw).mono (fun b w' hw' => hf b w' hw') fun _ _ hw' => hw')

/-- A function of the result does not look at the world. -/
theorem keeps_map {op : Op β} {f : β → α} (h : op.Keeps P) : (f <$> op).Keeps P := fun w hw =>
  ends_map (h w hw)

/-- What handles a failure must keep the property, too. -/
theorem keeps_tryCatch {op : Op α} {handler : Failure → Op α} (h : op.Keeps P)
    (hh : ∀ e, (handler e).Keeps P) : (tryCatch op handler).Keeps P := fun w hw =>
  ends_tryCatch ((h w hw).mono (fun _ _ hw' => hw') fun e w' hw' => hh e w' hw')

/-- What is done instead must keep the property, too. -/
theorem keeps_onDuplicate {op other : Op α} (h : op.Keeps P) (ho : other.Keeps P) :
    (onDuplicate op other).Keeps P := by
  refine keeps_tryCatch h fun e => ?_
  split
  · exact ho
  · exact keeps_throw _

/-- Doing something for each item keeps what is kept for one. -/
theorem keeps_mapM {f : β → Op α} (h : ∀ b, (f b).Keeps P) (items : List β) :
    (items.mapM f).Keeps P := by
  induction items with
  | nil =>
    rw [List.mapM_nil]
    exact keeps_pure _
  | cons b rest ih =>
    rw [List.mapM_cons]
    exact keeps_bind (h b) fun a => keeps_bind ih fun as => keeps_pure _

/-- Doing something for each item keeps what is kept for one. -/
theorem keeps_forM {f : β → Op PUnit} (h : ∀ b, (f b).Keeps P) (items : List β) :
    (items.forM f).Keeps P := by
  induction items with
  | nil => exact keeps_pure _
  | cons b rest ih =>
    exact keeps_bind (h b) fun _ => ih

/-- Giving out an identifier does not spoil what rests on the store. -/
theorem keeps_freshId (hP : World.RestsOnStore P) : freshId.Keeps P := fun w h =>
  ends_freshId (hP (w := w) rfl (Nat.le_succ _) h)

/-- The clock does not matter for what rests on the store. -/
theorem keeps_readClock (hP : World.RestsOnStore P) : readClock.Keeps P := fun w h =>
  ends_readClock (fun _ _ _ => hP (w := w) rfl (Nat.le_refl _) h) fun _ => h

/-- The log does not matter for what rests on the store. -/
theorem keeps_log (hP : World.RestsOnStore P) (level : LogLevel) (event : String)
    (details : Fields) : (log level event details).Keeps P := fun w h =>
  ends_log (hP (w := w) rfl (Nat.le_refl _) h)

end Op

end RewardLedger
