import RewardLedger.Proofs.Operation

/-!
# Operations that only read

What reading the clock gives is followed from one state of the clock to another (`Clock.Reads`). An
operation only reads if all it does to the world is to read the clock, to give out identifiers and to
write to the log (`Op.Reads`): the store is the same afterwards, also if the operation fails or runs a
transaction.
-/

namespace RewardLedger

/-! ## Readings of the clock -/

/-- Reading the clock in the first state as often as there are readings gives these readings, and
leaves the clock in the second state. -/
inductive Clock.Reads : Clock → List Instant → Clock → Prop where
  /-- The clock is not read. -/
  | none (c : Clock) : Reads c [] c
  /-- The clock is read, and then perhaps again. -/
  | next {c c' c'' : Clock} {t : Instant} {ts : List Instant} (h : c.read? = some (t, c'))
    (hrest : Reads c' ts c'') : Reads c (t :: ts) c''

/-- Readings that follow on each other. -/
theorem Clock.Reads.trans {c c' c'' : Clock} {ts ts' : List Instant} (h : c.Reads ts c')
    (h' : c'.Reads ts' c'') : c.Reads (ts ++ ts') c'' := by
  induction h with
  | none _ => exact h'
  | next hread _ ih => exact .next hread (ih h')

/-- A clock that stands still always gives the same reading. -/
theorem Clock.Reads.eq_now {c c' : Clock} {ts : List Instant} (h : c.Reads ts c')
    (hplanned : c.planned = []) (hstep : c.step = 0) : ∀ t ∈ ts, t = c.now := by
  induction h with
  | none _ => exact fun t ht => absurd ht List.not_mem_nil
  | @next c c₁ _ t _ hread _ ih =>
    have hsame : t = c.now ∧ c₁ = c := by
      obtain ⟨now, step, planned⟩ := c
      obtain rfl : planned = [] := hplanned
      obtain rfl : step = 0 := hstep
      obtain ⟨next, hnext, heq⟩ := Option.map_eq_some_iff.1 hread
      rw [Instant.later?, Int.add_zero] at hnext
      split at hnext
      · cases hnext
        exact ⟨(Prod.mk.inj heq).1.symm, (Prod.mk.inj heq).2.symm⟩
      · cases hnext
    obtain ⟨rfl, rfl⟩ := hsame
    intro x hx
    rcases List.mem_cons.1 hx with rfl | hx
    · rfl
    · exact ih hplanned hstep x hx

namespace World

/-- The second world has the store of the first one; the clock may have been read, identifiers given
out and the log written in between. -/
structure Beside (w w' : World) : Prop where
  /-- The store is the same. -/
  store : w'.store = w.store
  /-- Identifiers are given out only. -/
  issued : w.issued ≤ w'.issued
  /-- The clock is read only. -/
  clock : ∃ ts, w.clock.Reads ts w'.clock

/-- Nothing happens to the world. -/
theorem Beside.refl (w : World) : w.Beside w := ⟨rfl, Nat.le_refl _, [], .none _⟩

/-- What is beside a world that is beside another is beside the other, too. -/
theorem Beside.trans {w w' w'' : World} (h : w.Beside w') (h' : w'.Beside w'') : w.Beside w'' := by
  obtain ⟨ts, hts⟩ := h.clock
  obtain ⟨ts', hts'⟩ := h'.clock
  exact ⟨h'.store.trans h.store, Nat.le_trans h.issued h'.issued, ts ++ ts', hts.trans hts'⟩

/-- A transaction in which the store stays the same leaves it as it was. -/
theorem Beside.leave {w w' : World} (h : w.enter.Beside w') (keep : Bool) :
    w.Beside (World.leave w w' keep) := by
  obtain ⟨hstore, hissued, ts, hts⟩ := h
  unfold World.enter at hstore hissued hts
  unfold World.leave
  cases hopen : w.store.inTransaction with
  | true =>
    rw [hopen] at hstore hissued hts
    exact ⟨hstore, hissued, ts, hts⟩
  | false =>
    rw [hopen] at hstore hissued hts
    have hundo : w.store.undo = none :=
      Option.isNone_iff_eq_none.1 (Option.isSome_eq_false_iff.1 hopen)
    have hstore : w'.store = w.store.opened := hstore
    have hback : w.store = { w.store with undo := none } :=
      congrArg (fun undo => { w.store with undo }) hundo
    refine ⟨?_, hissued, ts, hts⟩
    cases keep with
    | true =>
      show w'.store.committed = w.store
      rw [hstore]
      exact hback.symm
    | false =>
      show w'.store.rolledBack = w.store
      rw [hstore]
      exact hback.symm

end World

namespace Op

variable {α β : Type}

/-! ## Operations that only read -/

/-- The operation does nothing to the world but to read the clock, to give out identifiers and to
write to the log, whether it succeeds or fails. -/
def Reads (op : Op α) : Prop := ∀ w, op.Keeps (World.Beside w)

variable {op : Op β} {f : β → Op α}

/-- What does not matter for a property does not spoil it. -/
theorem Reads.keeps {op : Op α} (h : op.Reads) {P : World → Prop}
    (hP : ∀ w w', w.Beside w' → P w → P w') : op.Keeps P := fun w hw =>
  (h w w (.refl w)).mono (fun _ w' hb => hP w w' hb hw) fun _ w' hb => hP w w' hb hw

theorem reads_pure (a : α) : (pure a : Op α).Reads := fun _ => keeps_pure a

theorem reads_refuse (fault : Fault) : (refuse fault : Op α).Reads := fun _ => keeps_refuse fault

theorem reads_ofExcept (r : Except Failure α) : (ofExcept r).Reads := fun _ => keeps_ofExcept r

theorem reads_query (question : Store → Except Failure α) : (query question).Reads := fun _ =>
  keeps_query question

theorem reads_bind (h : op.Reads) (hf : ∀ b, (f b).Reads) : (op >>= f).Reads := fun w =>
  keeps_bind (h w) fun b => hf b w

theorem reads_map {g : β → α} (h : op.Reads) : (g <$> op).Reads := fun w => keeps_map (h w)

/-- Reading the clock only reads. -/
theorem reads_readClock : readClock.Reads := fun _ _ hw => ends_readClock
  (fun t _ hread => hw.trans ⟨rfl, Nat.le_refl _, [t], .next hread (.none _)⟩) fun _ => hw

/-- Writing to the log only reads. -/
theorem reads_log (level : LogLevel) (event : String) (details : Fields) :
    (log level event details).Reads := fun _ _ hw =>
  ends_log (hw.trans ⟨rfl, Nat.le_refl _, [], .none _⟩)

/-- Giving an identifier out only reads. -/
theorem reads_freshId : freshId.Reads := fun _ _ hw =>
  ends_freshId (hw.trans ⟨rfl, Nat.le_succ _, [], .none _⟩)

/-- A transaction only reads if its body does. -/
theorem reads_transaction {op : Op α} (h : op.Reads) : (transaction op).Reads := fun _ w hw =>
  ends_transaction ((h w.enter w.enter (.refl _)).mono (fun _ _ hb => hw.trans (hb.leave true))
    fun _ _ hb => hw.trans (hb.leave false))

/-- A question whose answer is worked on further without looking at the world. -/
theorem reads_query_ofExcept {question : Store → Except Failure β} {g : β → Except Failure α} :
    (do ofExcept (g (← query question)) : Op α).Reads :=
  reads_bind (reads_query question) fun x => reads_ofExcept (g x)

/-- A row that must be there, or is refused, is read without looking at the world again. -/
theorem reads_row {question : Store → Except Failure (Option Fields)}
    {read : Fields → Except Failure α} {fault : Fault} :
    (do
      match ← query question with
      | some row => ofExcept (read row)
      | none => refuse fault : Op α).Reads := by
  refine reads_bind (reads_query question) fun row => ?_
  cases row with
  | some row => exact reads_ofExcept _
  | none => exact reads_refuse _

end Op

end RewardLedger
