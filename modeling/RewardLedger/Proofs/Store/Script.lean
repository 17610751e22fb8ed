import RewardLedger.Call
import RewardLedger.Proofs.Operation
import RewardLedger.Proofs.Store.Change
import RewardLedger.Script

/-!
# Scripts of store calls

What a script of store calls does to the store comes down to the calls that it makes. Inside an open
transaction a step does to the store what its calls do one after the other, whatever transactions
there are in the step and whichever of them fail (`Step.run_of_inTransaction`): an inner transaction neither
keeps nor takes back anything of its own. Calls that offer only keys of one kind lead from a sound
store to one that follows it (`StoreCall.follows_afterAll`).

What every call and the opening and closing of transactions preserve is preserved by every step, and
holds in every world on the way, whatever the calls are (`Step.Preserved`).
-/

namespace RewardLedger

/-! ## Stores that have been declared -/

/-- The table that is declared so, without rows. -/
def Schema.empty (σ : Schema) : Table where
  primaryKey := σ.primaryKey
  mutableColumns := σ.mutableColumns
  indexes := σ.indexes.map fun ix => { name := ix.1, columns := ix.2 }

/-- The table that is declared so is declared so. -/
@[simp] theorem Schema.schema_empty (σ : Schema) : σ.empty.schema = σ := by
  simp [Table.schema, empty, Function.comp_def]

namespace Store

variable {K : Value → Prop} {tables : List (String × Schema)} {s s' : Store}

/-- The store with tables that are declared so, in which nothing has been done yet. -/
def declared (tables : List (String × Schema)) : Store where
  tables := tables.map fun d => (d.1, d.2.empty)

/-- The declaration of a name, if there is one. -/
def schema? (tables : List (String × Schema)) (name : String) : Option Schema :=
  (tables.find? fun d => d.1 = name).map Prod.snd

/-- The tables of the store are the declared ones. -/
def IsDeclared (tables : List (String × Schema)) (s : Store) : Prop :=
  ∀ name, (s.table? name).map Table.schema = schema? tables name

/-- The table of a store in which nothing has been done yet is empty. -/
theorem table?_declared (tables : List (String × Schema)) (name : String) :
    (declared tables).table? name = (schema? tables name).map Schema.empty := by
  simp [declared, table?, schema?, List.find?_map, Function.comp_def]

/-- The tables of a store in which nothing has been done yet are the declared ones. -/
theorem isDeclared_declared (tables : List (String × Schema)) :
    (declared tables).IsDeclared tables := by
  intro name
  rw [table?_declared, Option.map_map]
  simp [Function.comp_def]

/-- A table of a store has been declared. -/
theorem IsDeclared.mem (h : s.IsDeclared tables) {name : String} {t : Table}
    (ht : s.table? name = some t) : (name, t.schema) ∈ tables := by
  have hname := h name
  rw [ht, Option.map_some, eq_comm] at hname
  obtain ⟨d, hd, hσ⟩ := Option.map_eq_some_iff.1 hname
  have hd' : d.1 = name := by simpa using List.find?_some hd
  rw [← hσ, ← hd']
  exact List.mem_of_find?_eq_some hd

/-- A store in which nothing has been done yet is sound. -/
theorem sound_declared (h : ∀ d ∈ tables, d.2.Proper) : (declared tables).Sound K := by
  intro name t ht
  have hmem := (isDeclared_declared tables).mem ht
  rw [table?_declared] at ht
  obtain ⟨σ, -, rfl⟩ := Option.map_eq_some_iff.1 ht
  rw [Schema.schema_empty] at hmem
  refine ⟨Table.sound_of_empty ?_ rfl fun ix hix => ?_, fun r hr => by cases hr⟩
  · rw [Schema.schema_empty]
    exact h _ hmem
  · obtain ⟨_, -, rfl⟩ := List.mem_map.1 hix
    rfl

/-- What follows a store is declared as it is. -/
theorem IsDeclared.follows (hd : s.IsDeclared tables) (h : s.Follows K s') :
    s'.IsDeclared tables :=
  fun name => (h.schema_eq name).trans (hd name)

/-- What is alike to a store is declared as it is. -/
theorem IsDeclared.of_alike (hd : s.IsDeclared tables) (h : s'.Alike s) : s'.IsDeclared tables :=
  fun name => (h.schema_eq name).trans (hd name)

end Store

/-! ## Calls -/

namespace StoreCall

variable {K : Value → Prop} {tables : List (String × Schema)} {s s' : Store} {call : StoreCall}

/-- The store that a call leaves. -/
def after (s : Store) : StoreCall → Store
  | insert table (.object row) => ((Store.insert table row).run.run s).2
  | update table key changes => ((Store.update table key changes).run.run s).2
  | _ => s

/-- The store that calls leave one after the other. -/
def afterAll (s : Store) (calls : List StoreCall) : Store := calls.foldl after s

/-- A call does nothing to the world but what it does to the store. -/
theorem ends_perform (call : StoreCall) (w : World) :
    call.perform.Ends w (fun _ w' => w' = { w with store := call.after w.store })
      fun _ w' => w' = { w with store := call.after w.store } := by
  cases call with
  | insert table row =>
    refine Op.ends_bind ?_
    show ((fun _ => PUnit.unit) <$> Op.query (·.table table) : Op PUnit).Ends w _ _
    refine Op.ends_map (Op.ends_query (fun t ht => ?_) fun e he => ?_)
    · -- only an object can be added, and anything else is refused after the table was found
      cases row with
      | object fields =>
        refine Op.ends_bind (Op.ends_ofExcept (fun row hrow => ?_) fun e he => by cases he)
        cases hrow
        refine Op.ends_map (Op.ends_change (fun _ s' hr => ?_) fun _ s' hr => ?_)
        · rw [after, hr]
        · rw [after, hr]
      | _ =>
        exact Op.ends_bind (Op.ends_ofExcept (fun _ h => by cases h) fun _ _ => rfl)
    · -- there is no such table, and the insert would say so too
      have hnone : w.store.table? table = none := by
        rw [Store.table] at he
        split at he
        · cases he
        · assumption
      cases row with
      | object fields =>
        rw [after, Store.run_insert_none hnone]
      | _ => rfl
  | update table key changes =>
    refine Op.ends_map (Op.ends_change (fun _ s' hr => ?_) fun _ s' hr => ?_)
    · rw [after, hr]
    · rw [after, hr]
  | get table key => exact Op.ends_map (Op.ends_query (fun _ _ => rfl) fun _ _ => rfl)
  | findUnique table index key => exact Op.ends_map (Op.ends_query (fun _ _ => rfl) fun _ _ => rfl)
  | select table columns => exact Op.ends_map (Op.ends_query (fun _ _ => rfl) fun _ _ => rfl)
  | count table => exact Op.ends_map (Op.ends_query (fun _ _ => rfl) fun _ _ => rfl)
  | inTransaction => rfl

/-- The world after a call is the one before with the store that the call leaves. -/
theorem perform_snd (call : StoreCall) (w : World) :
    (call.perform.perform w).2 = { w with store := call.after w.store } :=
  (call.ends_perform w).perform_snd

/-- What the call offers for the columns of keys is null or of the kind. -/
def Offers (K : Value → Prop) (tables : List (String × Schema)) : StoreCall → Prop
  | insert table (.object row) => ∀ σ, (table, σ) ∈ tables →
      KeyKind.OrNull K (Fields.get row σ.primaryKey) ∧
        ∀ ix ∈ σ.indexes, Fields.FitsKey K row ix.2
  | update table _ changes => ∀ σ, (table, σ) ∈ tables → ∀ ix ∈ σ.indexes,
      ∀ change ∈ changes, change.1 ∈ ix.2 → KeyKind.OrNull K change.2
  | _ => True

/-- The calls of two lists are made one after the other. -/
theorem afterAll_append (s : Store) (calls calls' : List StoreCall) :
    afterAll s (calls ++ calls') = afterAll (afterAll s calls) calls' :=
  List.foldl_append

/-- A call neither opens nor closes a transaction and gives no place back. -/
theorem frame_after (s : Store) (call : StoreCall) :
    (call.after s).inTransaction = s.inTransaction ∧ s.nextSeq ≤ (call.after s).nextSeq := by
  cases call with
  | insert table row =>
    cases row with
    | object row => exact Store.frame_of_run_insert rfl
    | _ => exact ⟨rfl, Nat.le_refl _⟩
  | update table key changes =>
    cases hr : (Store.update table key changes).run.run s with
    | mk result s' =>
      obtain ⟨hopen, hnext⟩ := Store.frame_of_run_update hr
      rw [after, hr]
      exact ⟨hopen, Nat.le_of_eq hnext.symm⟩
  | _ => exact ⟨rfl, Nat.le_refl _⟩

/-- Calls neither open nor close a transaction and give no place back. -/
theorem frame_afterAll (s : Store) (calls : List StoreCall) :
    (afterAll s calls).inTransaction = s.inTransaction ∧
      s.nextSeq ≤ (afterAll s calls).nextSeq := by
  induction calls generalizing s with
  | nil => exact ⟨rfl, Nat.le_refl _⟩
  | cons call rest ih =>
    obtain ⟨hopen, hnext⟩ := frame_after s call
    obtain ⟨hopen', hnext'⟩ := ih (call.after s)
    exact ⟨hopen'.trans hopen, hnext.trans hnext'⟩

/-- What a call does to the tables does not depend on the changes that would be taken back. -/
theorem after_congr (h : s'.tables = s.tables) (hn : s'.nextSeq = s.nextSeq)
    (call : StoreCall) :
    (call.after s').tables = (call.after s).tables ∧
      (call.after s').nextSeq = (call.after s).nextSeq := by
  cases call with
  | insert table row =>
    cases row with
    | object row => exact Store.insert_congr h hn row
    | _ => exact ⟨h, hn⟩
  | update table key changes => exact Store.update_congr h hn key changes
  | _ => exact ⟨h, hn⟩

/-- What calls do to the tables does not depend on the changes that would be taken back. -/
theorem afterAll_congr (h : s'.tables = s.tables) (hn : s'.nextSeq = s.nextSeq)
    (calls : List StoreCall) :
    (afterAll s' calls).tables = (afterAll s calls).tables ∧
      (afterAll s' calls).nextSeq = (afterAll s calls).nextSeq := by
  induction calls generalizing s s' with
  | nil => exact ⟨h, hn⟩
  | cons call rest ih =>
    obtain ⟨h', hn'⟩ := after_congr h hn call
    exact ih h' hn'

variable [KeyKind K]

/-- A store follows if a call is made that offers keys of the kind only. -/
theorem follows_after (hs : s.Sound K) (hd : s.IsDeclared tables) (ho : call.Offers K tables) :
    s.Follows K (call.after s) := by
  cases call with
  | insert table row =>
    cases row with
    | object row =>
      exact Store.follows_of_run_insert hs (fun t ht => ho _ (hd.mem ht)) rfl
    | _ => exact .refl hs
  | update table key changes =>
    refine Store.follows_of_run_update hs (fun t ht row hr ix hix c hc => ?_) rfl
    rcases Fields.get_putAll row.columns changes c with h | ⟨change, hchange, rfl, h⟩
    · rw [KeyKind.OrNull, h]
      exact (hs table t ht).1.rowsSound.fits ix hix row hr c hc
    · rw [KeyKind.OrNull, h]
      exact ho _ (hd.mem ht) ix hix change hchange hc
  | _ => exact .refl hs

/-- A store follows if calls are made that offer keys of the kind only. -/
theorem follows_afterAll {calls : List StoreCall} (hs : s.Sound K) (hd : s.IsDeclared tables)
    (ho : ∀ call ∈ calls, call.Offers K tables) : s.Follows K (afterAll s calls) := by
  induction calls generalizing s with
  | nil => exact .refl hs
  | cons call rest ih =>
    have hfirst := follows_after hs hd (ho call List.mem_cons_self)
    exact hfirst.trans (ih hfirst.sound (hd.follows hfirst)
      fun call h => ho call (List.mem_cons_of_mem _ h))

end StoreCall

/-! ## Steps -/

namespace Step

variable {κ : Type} {P : κ → Prop}

mutual

/-- Every call of the step has the property. -/
def Calls (P : κ → Prop) : Step κ → Prop
  | .call action _ => P action
  | .transaction steps _ _ => CallsOf P steps

/-- Every call of the steps has the property. -/
def CallsOf (P : κ → Prop) : List (Step κ) → Prop
  | [] => True
  | step :: rest => step.Calls P ∧ CallsOf P rest

end

mutual

/-- The calls that the step has made according to its report. -/
def made : Step κ → Report → List κ
  | .call action _, _ => [action]
  | .transaction steps _ _, .transaction reports _ => madeOf steps reports
  | .transaction .., .call .. => []

/-- The calls that the steps have made according to their reports. -/
def madeOf : List (Step κ) → List Report → List κ
  | step :: rest, report :: reports => step.made report ++ madeOf rest reports
  | _, _ => []

end

/-- Without reports no calls have been made. -/
theorem madeOf_nil (steps : List (Step κ)) : madeOf steps [] = [] := by
  cases steps <;> rfl

mutual

/-- The calls that a step has made are calls of the step. -/
theorem Calls.of_made : ∀ {step : Step κ} {report : Report}, step.Calls P →
    ∀ action ∈ step.made report, P action
  | .call _ _, _, h, action, hm => by
    rw [made, List.mem_singleton] at hm
    exact hm ▸ h
  | .transaction steps _ _, .transaction reports _, h, action, hm =>
    CallsOf.of_madeOf (show CallsOf P steps from h) action hm

/-- The calls that steps have made are calls of the steps. -/
theorem CallsOf.of_madeOf : ∀ {steps : List (Step κ)} {reports : List Report}, CallsOf P steps →
    ∀ action ∈ madeOf steps reports, P action
  | step :: rest, report :: reports, h, action, hm => by
    rcases List.mem_append.1 hm with hm | hm
    · exact Calls.of_made h.1 action hm
    · exact CallsOf.of_madeOf h.2 action hm

end

/-! ### Worlds on the way -/

variable (perform : κ → Op Value)

mutual

/-- The worlds that a step leads through: the one after each call that it makes, those in which it
opens transactions, and the one in which it ends. -/
def worlds : Step κ → World → List World
  | .call action _, w => [((perform action).perform w).2]
  | .transaction steps abandon caught, w =>
    worldsOf steps w.enter ++ [((Step.transaction steps abandon caught).run perform w).2]

/-- The worlds that the steps of a body lead through, from the one in which the body begins. -/
def worldsOf : List (Step κ) → World → List World
  | [], w => [w]
  | step :: rest, w =>
    w :: step.worlds w ++
      match (step.run perform w).1.failure?, step.isCaught with
      | some _, false => []
      | _, _ => worldsOf rest (step.run perform w).2

end

/-- The worlds that a script leads through, from the one in which it begins. -/
def worldsOfAll : List (Step κ) → World → List World
  | [], w => [w]
  | step :: rest, w => w :: step.worlds perform w ++ worldsOfAll rest (step.run perform w).2

/-! ### What steps preserve -/

/-- Calls with the property `P` preserve that a world holds something, which they move on as `R` allows,
and so does opening a transaction and closing it again, whether it is kept or given up. What a world
holds may depend on the store before the open transaction. -/
structure Preserved {α : Type} (P : κ → Prop) (R : α → α → Prop)
    (H : Option Store → α → World → Prop) : Prop where
  /-- What is held may stay as it is. -/
  refl : ∀ a, R a a
  /-- What is moved on twice is moved on. -/
  trans : ∀ {a a' a''}, R a a' → R a' a'' → R a a''
  /-- A call preserves it. -/
  call : ∀ {action base a w}, P action → H base a w →
    ∃ a', R a a' ∧ H base a' ((perform action).perform w).2
  /-- Opening a transaction preserves it as it is. -/
  enter : ∀ {base a w}, H base a w → H (some (base.getD w.store)) a w.enter
  /-- Closing a transaction preserves it. -/
  leave : ∀ {base a a' w w'}, H base a w → R a a' → H (some (base.getD w.store)) a' w' →
    ∀ keep, ∃ a', R a a' ∧ H base a' (World.leave w w' keep)

namespace Preserved

variable {perform} {α : Type} {R : α → α → Prop} {H : Option Store → α → World → Prop}

mutual

/-- A step preserves what its calls preserve. -/
theorem run (hp : Preserved perform P R H) : ∀ (step : Step κ) {base : Option Store} {a : α}
    {w : World}, step.Calls P → H base a w → ∃ a', R a a' ∧ H base a' (step.run perform w).2
  | .call _ _, _, _, _, hcalls, h => hp.call hcalls h
  | .transaction steps _ _, _, _, _, hcalls, h => by
    obtain ⟨a', hmoved, h'⟩ := runBody hp steps (show CallsOf P steps from hcalls) (hp.enter h)
    rw [Step.run]
    exact hp.leave h hmoved h' _

/-- The steps of a body preserve what their calls preserve. -/
theorem runBody (hp : Preserved perform P R H) : ∀ (steps : List (Step κ)) {base : Option Store}
    {a : α} {w : World}, CallsOf P steps → H base a w →
      ∃ a', R a a' ∧ H base a' (Step.runBody perform steps w).2.2
  | [], _, a, _, _, h => ⟨a, hp.refl a, h⟩
  | step :: rest, _, _, w, hcalls, h => by
    obtain ⟨a', hmoved, h'⟩ := run hp step hcalls.1 h
    rw [Step.runBody]
    -- the body ends with a step that fails, and what was done before it stays until it is closed
    generalize step.run perform w = run at h'
    obtain ⟨report, w'⟩ := run
    dsimp only at h' ⊢
    split
    · exact ⟨a', hmoved, h'⟩
    · obtain ⟨a'', hmoved', h''⟩ := runBody hp rest hcalls.2 h'
      exact ⟨a'', hp.trans hmoved hmoved', h''⟩

end

mutual

/-- It holds in the worlds that a step leads through. -/
theorem exists_of_worlds (hp : Preserved perform P R H) : ∀ (step : Step κ) {base : Option Store}
    {a : α} {w : World}, step.Calls P → H base a w →
      ∀ w' ∈ step.worlds perform w, ∃ base a, H base a w'
  | .call _ _, base, _, _, hcalls, h, w', hmem => by
    rw [worlds, List.mem_singleton] at hmem
    obtain ⟨a', -, h'⟩ := hp.call hcalls h
    exact ⟨base, a', hmem ▸ h'⟩
  | .transaction steps abandon caught, base, _, _, hcalls, h, w', hmem => by
    rw [worlds] at hmem
    rcases List.mem_append.1 hmem with hmem | hmem
    · exact exists_of_worldsOf hp steps hcalls (hp.enter h) w' hmem
    · obtain ⟨a', -, h'⟩ := hp.run (.transaction steps abandon caught) hcalls h
      exact ⟨base, a', List.mem_singleton.1 hmem ▸ h'⟩

/-- It holds in the worlds that the steps of a body lead through. -/
theorem exists_of_worldsOf (hp : Preserved perform P R H) : ∀ (steps : List (Step κ))
    {base : Option Store} {a : α} {w : World}, CallsOf P steps → H base a w →
      ∀ w' ∈ worldsOf perform steps w, ∃ base a, H base a w'
  | [], base, a, _, _, h, w', hmem => by
    rw [worldsOf, List.mem_singleton] at hmem
    exact ⟨base, a, hmem ▸ h⟩
  | step :: rest, base, a, _, hcalls, h, w', hmem => by
    rw [worldsOf, List.cons_append] at hmem
    rcases List.mem_cons.1 hmem with rfl | hmem
    · exact ⟨base, a, h⟩
    rcases List.mem_append.1 hmem with hmem | hmem
    · exact exists_of_worlds hp step hcalls.1 h w' hmem
    · obtain ⟨a', -, h'⟩ := hp.run step hcalls.1 h
      split at hmem
      · cases hmem
      · exact exists_of_worldsOf hp rest hcalls.2 h' w' hmem

end

/-- It holds in the worlds that a script leads through. -/
theorem exists_of_worldsOfAll (hp : Preserved perform P R H) {steps : List (Step κ)}
    {base : Option Store} {a : α} {w : World} (hcalls : CallsOf P steps) (h : H base a w) :
    ∀ w' ∈ worldsOfAll perform steps w, ∃ base a, H base a w' := by
  induction steps generalizing a w with
  | nil =>
    intro w' hmem
    exact ⟨base, a, List.mem_singleton.1 hmem ▸ h⟩
  | cons step rest ih =>
    intro w' hmem
    rw [worldsOfAll, List.cons_append] at hmem
    -- the world before the step, one that the step leads through, or one after it
    rcases List.mem_cons.1 hmem with rfl | hmem
    · exact ⟨base, a, h⟩
    rcases List.mem_append.1 hmem with hmem | hmem
    · exact hp.exists_of_worlds step hcalls.1 h w' hmem
    · obtain ⟨a', -, h'⟩ := hp.run step hcalls.1 h
      exact ih hcalls.2 h' w' hmem

/-- A script preserves what its calls preserve. -/
theorem runAll (hp : Preserved perform P R H) {steps : List (Step κ)} {base : Option Store} {a : α}
    {w : World} (hcalls : CallsOf P steps) (h : H base a w) :
    ∃ a', R a a' ∧ H base a' (Step.runAll perform steps w).2 := by
  induction steps generalizing a w with
  | nil => exact ⟨a, hp.refl a, h⟩
  | cons step rest ih =>
    obtain ⟨a', hmoved, h'⟩ := hp.run step hcalls.1 h
    obtain ⟨a'', hmoved', h''⟩ := ih hcalls.2 h'
    exact ⟨a'', hp.trans hmoved hmoved', h''⟩

end Preserved

/-! ### In an open transaction -/

mutual

/-- In an open transaction a step does to the store what the calls do that it makes, and nothing
else. -/
theorem run_of_inTransaction : ∀ (step : Step StoreCall) {w : World},
    w.store.inTransaction = true → (step.run StoreCall.perform w).2 = { w with
      store := StoreCall.afterAll w.store (step.made (step.run StoreCall.perform w).1) }
  | .call action caught, w, _ => by
    rw [Step.run, made, action.perform_snd]
    rfl
  | .transaction steps abandon caught, w, hw => by
    have henter : w.enter = w := by rw [World.enter, if_pos hw]
    have hbody := runBody_of_inTransaction steps hw
    rw [Step.run, henter]
    simp only [World.leave, hw, if_true, made]
    exact hbody

/-- In an open transaction the steps of a body do to the store what the calls do that they make, and
nothing else. -/
theorem runBody_of_inTransaction : ∀ (steps : List (Step StoreCall)) {w : World},
    w.store.inTransaction = true → (runBody StoreCall.perform steps w).2.2 = { w with
      store := StoreCall.afterAll w.store
        (madeOf steps (runBody StoreCall.perform steps w).1) }
  | [], w, _ => rfl
  | step :: rest, w, hw => by
    have hfirst := run_of_inTransaction step hw
    rw [runBody]
    generalize step.run StoreCall.perform w = run at hfirst ⊢
    obtain ⟨report, w'⟩ := run
    dsimp only at hfirst ⊢
    subst hfirst
    have hrest := runBody_of_inTransaction rest
      (w := { w with store := StoreCall.afterAll w.store (step.made report) })
      ((StoreCall.frame_afterAll _ _).1.trans hw)
    split
    · rw [madeOf, madeOf_nil, List.append_nil]
    · rw [hrest, madeOf, StoreCall.afterAll_append]

end

mutual

/-- In an open transaction a step leads through worlds whose stores calls of it lead to. -/
theorem exists_calls_of_worlds {P : StoreCall → Prop} : ∀ (step : Step StoreCall) {w : World},
    w.store.inTransaction = true → step.Calls P → ∀ w' ∈ step.worlds StoreCall.perform w,
      ∃ calls, (∀ call ∈ calls, P call) ∧ w'.store = StoreCall.afterAll w.store calls
  | .call action caught, w, hw, hP, w', hmem => by
    rw [worlds, List.mem_singleton] at hmem
    exact ⟨[action], List.forall_mem_singleton.2 hP, by rw [hmem, action.perform_snd]; rfl⟩
  | .transaction steps abandon caught, w, hw, hP, w', hmem => by
    have henter : w.enter = w := by rw [World.enter, if_pos hw]
    rw [worlds, henter] at hmem
    rcases List.mem_append.1 hmem with hmem | hmem
    · exact exists_calls_of_worldsOf steps hw hP w' hmem
    · rw [List.mem_singleton.1 hmem, run_of_inTransaction _ hw]
      exact ⟨_, Calls.of_made hP, rfl⟩

/-- In an open transaction the steps of a body lead through worlds whose stores calls of them lead
to. -/
theorem exists_calls_of_worldsOf {P : StoreCall → Prop} : ∀ (steps : List (Step StoreCall))
    {w : World}, w.store.inTransaction = true → CallsOf P steps →
      ∀ w' ∈ worldsOf StoreCall.perform steps w,
        ∃ calls, (∀ call ∈ calls, P call) ∧ w'.store = StoreCall.afterAll w.store calls
  | [], w, hw, _, w', hmem => by
    rw [worldsOf, List.mem_singleton] at hmem
    exact ⟨[], by simp, by rw [hmem]; rfl⟩
  | step :: rest, w, hw, hP, w', hmem => by
    rw [worldsOf, List.cons_append] at hmem
    rcases List.mem_cons.1 hmem with rfl | hmem
    · exact ⟨[], by simp, rfl⟩
    rcases List.mem_append.1 hmem with hmem | hmem
    · exact exists_calls_of_worlds step hw hP.1 w' hmem
    · have hfirst := run_of_inTransaction step hw
      have hopen : (step.run StoreCall.perform w).2.store.inTransaction = true := by
        rw [hfirst]
        exact (StoreCall.frame_afterAll _ _).1.trans hw
      split at hmem
      · cases hmem
      · obtain ⟨calls, hcalls, hstore⟩ := exists_calls_of_worldsOf rest hopen hP.2 w' hmem
        refine ⟨step.made (step.run StoreCall.perform w).1 ++ calls, fun call h => ?_, ?_⟩
        · rcases List.mem_append.1 h with h | h
          · exact Calls.of_made hP.1 call h
          · exact hcalls call h
        · rw [hstore, hfirst, StoreCall.afterAll_append]

end

/-! ### At rest -/

/-- A transaction at rest opens the store, runs its body, and keeps or takes back what that did. -/
theorem run_transaction {w : World} (hw : w.store.undo = none) (steps : List (Step StoreCall))
    (abandon caught : Bool) {reports : List Report} {failure : Option Failure} {w' : World}
    (hbody : runBody StoreCall.perform steps { w with store := w.store.opened } =
      (reports, failure, w')) {outcome : Option Failure}
    (ho : outcome = (failure <|> if abandon then some .abandoned else none)) :
    (Step.transaction steps abandon caught).run StoreCall.perform w =
      (.transaction reports outcome, { w' with
        store := if outcome.isNone then w'.store.committed else w'.store.rolledBack }) := by
  rw [Step.run, World.enter_of_undo_none hw, hbody]
  cases hkeep : outcome.isNone with
  | true => simp only [← ho, hkeep, World.leave_kept hw, if_true]
  | false => simp only [← ho, hkeep, World.leave_givenUp hw, Bool.false_eq_true, if_false]

/-- A transaction at rest keeps or takes back what some of its calls have done in the opened store. -/
theorem exists_calls_of_transaction {P : StoreCall → Prop} {w : World} (hw : w.store.undo = none)
    {steps : List (Step StoreCall)} (ho : CallsOf P steps) (abandon caught : Bool) :
    ∃ calls, (∀ call ∈ calls, P call) ∧
      let after := ((Step.transaction steps abandon caught).run StoreCall.perform w).2.store
      (after = (StoreCall.afterAll w.store.opened calls).committed ∨
        after = (StoreCall.afterAll w.store.opened calls).rolledBack) := by
  have hbody := runBody_of_inTransaction steps (w := { w with store := w.store.opened }) rfl
  generalize hrun : runBody StoreCall.perform steps { w with store := w.store.opened } =
    body at hbody
  obtain ⟨reports, failure, w'⟩ := body
  dsimp only at hbody
  obtain ⟨outcome, houtcome⟩ : ∃ outcome : Option Failure,
      outcome = (failure <|> if abandon then some .abandoned else none) := ⟨_, rfl⟩
  refine ⟨madeOf steps reports, ho.of_madeOf, ?_⟩
  rw [run_transaction hw steps abandon caught hrun houtcome, hbody]
  cases outcome with
  | none => exact .inl rfl
  | some e => exact .inr rfl

/-- Calls at rest do to the store what they do one after the other, and nothing else. -/
theorem runAll_calls (calls : List StoreCall) (w : World) :
    (runAll StoreCall.perform (calls.map (Step.call · true)) w).2 =
      { w with store := StoreCall.afterAll w.store calls } := by
  induction calls generalizing w with
  | nil => rfl
  | cons call rest ih =>
    rw [List.map_cons, runAll, Step.run]
    dsimp only
    rw [ih, call.perform_snd]
    rfl

end Step

/-- Between the steps of a script the store is sound, its tables are declared as they were, and no
transaction is open. -/
structure Store.Resting (K : Value → Prop) (tables : List (String × Schema)) (s : Store) :
    Prop where
  /-- The store is sound. -/
  sound : s.Sound K
  /-- The tables are declared so. -/
  isDeclared : s.IsDeclared tables
  /-- No transaction is open. -/
  undo_eq_none : s.undo = none

namespace Store.Resting

variable {K : Value → Prop} [KeyKind K] {tables : List (String × Schema)} {w : World}

omit [KeyKind K] in
/-- A store in which nothing has been done yet is at rest. -/
theorem declared (h : ∀ d ∈ tables, d.2.Proper) : (Store.declared tables).Resting K tables :=
  ⟨sound_declared h, isDeclared_declared tables, rfl⟩

/-- The calls of a body lead from the opened store to one that follows it. -/
theorem follows_body (h : w.store.Resting K tables) {calls : List StoreCall}
    (ho : ∀ call ∈ calls, call.Offers K tables) :
    w.store.opened.Follows K (StoreCall.afterAll w.store.opened calls) :=
  StoreCall.follows_afterAll (h.sound.of_tables_eq rfl (Nat.le_refl _)) h.isDeclared ho

/-- Giving a body up leads back to a sound store that is alike to the one at its start. -/
theorem rolledBack (h : w.store.Resting K tables) {calls : List StoreCall}
    (ho : ∀ call ∈ calls, call.Offers K tables) :
    (StoreCall.afterAll w.store.opened calls).rolledBack.Resting K tables ∧
      (StoreCall.afterAll w.store.opened calls).rolledBack.Alike w.store := by
  have hf := h.follows_body ho
  obtain ⟨hsound, halike, hundo⟩ := (hf.since _ (since_opened w.store)).rolledBack hf.sound
  exact ⟨⟨hsound, h.isDeclared.of_alike halike, hundo⟩, halike⟩

/-- Keeping what a body did leads to a sound store. -/
theorem committed (h : w.store.Resting K tables) {calls : List StoreCall}
    (ho : ∀ call ∈ calls, call.Offers K tables) :
    (StoreCall.afterAll w.store.opened calls).committed.Resting K tables := by
  have hf := h.follows_body ho
  have hd : (StoreCall.afterAll w.store.opened calls).IsDeclared tables :=
    IsDeclared.follows (s := w.store.opened) h.isDeclared hf
  exact ⟨hf.sound.of_tables_eq rfl (Nat.le_refl _), hd, rfl⟩

/-- A step leads from a store at rest to a store at rest. -/
theorem run (h : w.store.Resting K tables) {step : Step StoreCall}
    (ho : step.Calls (StoreCall.Offers K tables)) :
    (step.run StoreCall.perform w).2.store.Resting K tables := by
  cases step with
  | call action caught =>
    rw [Step.run, action.perform_snd]
    have hf := StoreCall.follows_after h.sound h.isDeclared ho
    exact ⟨hf.sound, h.isDeclared.follows hf, hf.undo_eq_none h.undo_eq_none⟩
  | transaction steps abandon caught =>
    obtain ⟨calls, hcalls, hstore | hstore⟩ :=
      Step.exists_calls_of_transaction h.undo_eq_none ho abandon caught
    · rw [hstore]
      exact h.committed hcalls
    · rw [hstore]
      exact (h.rolledBack hcalls).1

/-- A script leads from a store at rest to a store at rest. -/
theorem runAll (h : w.store.Resting K tables) {steps : List (Step StoreCall)}
    (ho : Step.CallsOf (StoreCall.Offers K tables) steps) :
    (Step.runAll StoreCall.perform steps w).2.store.Resting K tables := by
  induction steps generalizing w with
  | nil => exact h
  | cons step rest ih => exact ih (h.run ho.1) ho.2

end Store.Resting

end RewardLedger
