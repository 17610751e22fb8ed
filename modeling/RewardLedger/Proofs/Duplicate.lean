import RewardLedger.Proofs.Fault

/-!
# Where violated unique constraints come from

Only the changes of the store violate unique constraints. Everything that merely computes or looks
something up fails for other reasons (`NoDuplicate`), so where a violated constraint matters, only
the changes have to be looked at.
-/

namespace RewardLedger

/-- The failure is a violated unique constraint. -/
def Failure.isDuplicate : Failure → Bool
  | .duplicate .. => true
  | _ => false

/-- A violated unique constraint belongs to the domain. -/
theorem Failure.isFault_of_isDuplicate {e : Failure} (h : e.isDuplicate = true) :
    e.isFault = true := by
  cases e with
  | duplicate => rfl
  | _ => cases h

/-- What is outside of the domain is no violated unique constraint. -/
theorem Failure.isDuplicate_eq_false {e : Failure} (h : e.isFault = false) :
    e.isDuplicate = false :=
  Bool.eq_false_iff.2 fun hd => Bool.false_ne_true (h.symm.trans (isFault_of_isDuplicate hd))

/-- Nothing that is no violated constraint is taken for one. -/
theorem Failure.absurd_isDuplicate {e : Failure} {P : Prop} (h : e.isDuplicate = false)
    (hd : e.isDuplicate = true) : P :=
  absurd (h.symm.trans hd) Bool.false_ne_true

/-- If the computation fails, it is not for a violated unique constraint. -/
abbrev NoDuplicate {α : Type} (r : Except Failure α) : Prop :=
  FailsOnly (fun e => e.isDuplicate = false) r

/-- What meets no fault violates no constraint. -/
theorem FailsOnly.noDuplicate {α : Type} {r : Except Failure α} (h : NoFault r) : NoDuplicate r :=
  h.mono fun _ => Failure.isDuplicate_eq_false

open FailsOnly

/-- A row that has a primary key, and whose keys are of the kind, is refused only because a key is
taken. -/
theorem Store.isDuplicate_of_run_insert {K : Value → Prop} [KeyKind K] {s s' : Store} {name : String}
    {t : Table} {row : Fields} {e : Failure} (hs : s.Sound K) (ht : s.table? name = some t)
    (hkey : K (row.get t.primaryKey)) (hf : s.FitsTable K name row)
    (h : (insert name row).run.run s = (.error e, s')) : e.isDuplicate = true := by
  have hsame : ∀ {t'}, s.table? name = some t' → t = t' := fun ht' =>
    Option.some.inj (ht.symm.trans ht')
  cases insertRun h with
  | noTable hnone => cases hnone.symm.trans ht
  | noKey ht' hnull =>
    obtain rfl := hsame ht'
    exact absurd ((KeyKind.ne_null hkey).symm.trans hnull) Bool.false_ne_true
  | wrongKind ht' hkind =>
    obtain rfl := hsame ht'
    exact absurd (hkind.symm.trans (KeyKind.hashable hkey)) Bool.false_ne_true
  | taken => rfl
  | refused ht' _ _ hn =>
    obtain rfl := hsame ht'
    -- the columns of an index do not tell places
    have hsound := (hs name t ht).1
    obtain ⟨ix, -, key, pk, -, -, rfl⟩ := Table.duplicate_of_refusal? hn fun ix hix =>
      ((hf t ht).2 _ (Table.mem_schema hix)).put (hsound.proper.index_ne _ (Table.mem_schema hix)) _
    rfl

/-! ## Amounts and requests -/

/-- Rounding an amount violates no constraint. -/
theorem noDuplicate_quantize (m : Money) (d : Decimal) : NoDuplicate (m.quantize d) := by
  have hmap : ∀ {α : Type} (r : Except ArithmeticFault α),
      NoDuplicate (r.mapError Failure.arithmetic) := fun r => by
    cases r with
    | ok a => exact ok a
    | error cause => exact error rfl
  have hquantum : NoDuplicate m.quantum := by
    unfold Money.quantum
    split
    · exact hmap _
    · exact error rfl
  have hrounded : NoDuplicate (do
      (m.context.quantize d (← m.quantum)).mapError Failure.arithmetic) :=
    hquantum.bind fun _ => hmap _
  unfold Money.quantize
  dsimp only
  split
  · exact error rfl
  · exact hrounded

/-- Reading an amount violates no constraint. -/
theorem noDuplicate_parse (m : Money) (v : Value) : NoDuplicate (m.parse v) := by
  have hread : NoDuplicate (Money.readNumber v) := by
    unfold Money.readNumber
    split
    · exact error rfl
    · exact error rfl
    · exact ok _
    · split
      · exact error rfl
      · exact ok _
    · split
      · exact ok _
      · exact error rfl
  refine hread.bind fun d => ?_
  split
  · exact noDuplicate_quantize m d
  · exact error rfl

/-- Reading a positive amount violates no constraint. -/
theorem noDuplicate_positive (m : Money) (v : Value) : NoDuplicate (m.positive v) := by
  refine (noDuplicate_parse m v).bind fun d => ?_
  split
  · exact ok _
  · exact error rfl

/-- The fingerprint of a request violates no constraint. -/
theorem noDuplicate_fingerprint (cfg : Config) (referrer referred amount currency : Value) :
    NoDuplicate (Requests.fingerprint cfg referrer referred amount currency) := by
  have htext : NoDuplicate (Requests.canonicalText cfg referrer referred amount currency) := by
    refine (noDuplicate_parse cfg.money amount).bind fun value => ?_
    dsimp only
    split
    · exact ok _
    · exact error rfl
  exact htext.bind fun _ => ok _

/-- Checking the particulars of a reward violates no constraint. -/
theorem noDuplicate_checkMetadata (metadata : Value) :
    NoDuplicate (Rewards.checkMetadata metadata) := by
  have hjson : NoDuplicate (Rewards.requireJson metadata) := by
    unfold Rewards.requireJson
    split
    · exact ok _
    · exact error rfl
    · rename_i he
      exact error ((noFault_jsonForm metadata).noDuplicate _ he)
  unfold Rewards.checkMetadata
  split
  · exact ok _
  · exact hjson
  · exact hjson
  · exact error rfl

/-- Checking a request violates no constraint. -/
theorem noDuplicate_checkRequest (cfg : Config)
    (referrer referred amount key currency metadata : Value) :
    NoDuplicate (Rewards.checkRequest cfg referrer referred amount key currency metadata) := by
  have hrest : NoDuplicate (do
      let value ← cfg.money.positive amount
      let currency := cfg.currencyOf currency
      let metadata ← Rewards.checkMetadata metadata
      let fingerprint ← Requests.fingerprint cfg referrer referred (.decimal value) currency
      pure ({ referrer, referred, amount := value, currency, key, fingerprint, metadata } :
        Rewards.CreditRequest)) :=
    (noDuplicate_positive cfg.money amount).bind fun _ =>
      (noDuplicate_checkMetadata metadata).bind fun _ =>
        (noDuplicate_fingerprint cfg _ _ _ _).bind fun _ => ok _
  refine (noFault_equalTo referrer referred).noDuplicate.bind fun same => ?_
  cases same with
  | true => exact error rfl
  | false => exact hrest

/-! ## Operations -/

namespace Op

variable {α β : Type}

/-- The operation does not end with a violated unique constraint. -/
def NeverDuplicate (op : Op α) : Prop :=
  ∀ w, op.Ends w (fun _ _ => True) fun e _ => e.isDuplicate = false

theorem neverDuplicate_pure (a : α) : NeverDuplicate (pure a : Op α) := fun _ => ends_pure trivial

theorem neverDuplicate_refuse (fault : Fault) : NeverDuplicate (refuse fault : Op α) := fun _ =>
  ends_refuse rfl

theorem neverDuplicate_ofExcept {r : Except Failure α} (h : NoDuplicate r) :
    NeverDuplicate (ofExcept r) := fun _ => ends_ofExcept (fun _ _ => trivial) h

theorem neverDuplicate_query {question : Store → Except Failure α}
    (h : ∀ s, NoDuplicate (question s)) : NeverDuplicate (query question) := fun w =>
  ends_query (fun _ _ => trivial) (h w.store)

theorem neverDuplicate_bind {op : Op β} {f : β → Op α} (h : op.NeverDuplicate)
    (hf : ∀ b, (f b).NeverDuplicate) : (op >>= f).NeverDuplicate := fun w =>
  ends_bind ((h w).mono (fun b w' _ => hf b w') fun _ _ he => he)

theorem neverDuplicate_freshId : freshId.NeverDuplicate := fun _ => ends_freshId trivial

theorem neverDuplicate_readClock : readClock.NeverDuplicate := fun _ =>
  ends_readClock (fun _ _ _ => trivial) fun _ => rfl

theorem neverDuplicate_log (level : LogLevel) (event : String) (details : Fields) :
    (log level event details).NeverDuplicate := fun _ => ends_log trivial

theorem neverDuplicate_transaction {op : Op α} (h : op.NeverDuplicate) :
    (transaction op).NeverDuplicate := fun w =>
  ends_transaction ((h w.enter).mono (fun _ _ h => h) fun _ _ h => h)

/-- A violated unique constraint that is refused for another reason is not reported. -/
theorem neverDuplicate_orRefuse (op : Op α) (fault : Fault) :
    (onDuplicate op (refuse fault)).NeverDuplicate := by
  intro w
  refine ends_onDuplicate ((ends_self op w).mono (fun _ _ _ => trivial) fun e w' _ =>
    ⟨fun _ _ _ _ => ends_refuse rfl, fun hne => ?_⟩)
  cases e with
  | duplicate table index key => exact absurd rfl (hne table index key)
  | _ => rfl

end Op

open Op

/-- Requiring a user reports no taken key. -/
theorem Ledger.neverDuplicate_userOrRefuse (id : Value) (fault : Fault) :
    (do if (← query (·.get usersTable id)).isNone then refuse fault : Op Unit).NeverDuplicate := by
  refine neverDuplicate_bind (neverDuplicate_query fun s => (noFault_get s _ _).noDuplicate) fun row => ?_
  cases row with
  | none => exact neverDuplicate_refuse _
  | some _ => exact neverDuplicate_pure _

/-- Adding an entry reports a taken key as a reversal that exists already. -/
theorem Ledger.neverDuplicate_createEntry (cfg : Config) (user entryType amount : Value)
    (details : EntryDetails) : (createEntry cfg user entryType amount details).NeverDuplicate := by
  refine neverDuplicate_bind (neverDuplicate_ofExcept (noDuplicate_positive _ _)) fun value => ?_
  refine neverDuplicate_bind (neverDuplicate_transaction ?_) fun stored => ?_
  · -- inside the transaction a taken key is met by the insert alone, which reports it otherwise
    refine neverDuplicate_bind (neverDuplicate_userOrRefuse user _) fun _ => ?_
    refine neverDuplicate_bind ?_ fun _ => ?_
    · unfold requireReversible
      cases details.reversalOf.isNull with
      | true => exact neverDuplicate_pure _
      | false =>
        refine neverDuplicate_bind (neverDuplicate_query fun s => (noFault_get s _ _).noDuplicate)
          fun row => ?_
        cases row with
        | none => exact neverDuplicate_refuse _
        | some columns =>
          refine neverDuplicate_bind (neverDuplicate_ofExcept (noFault_columnIs _ _ _).noDuplicate)
            fun isVoid => ?_
          cases isVoid with
          | true => exact neverDuplicate_refuse _
          | false => exact neverDuplicate_pure _
    · refine neverDuplicate_bind neverDuplicate_freshId fun id => ?_
      refine neverDuplicate_bind (neverDuplicate_ofExcept (noFault_asObject _).noDuplicate) fun _ => ?_
      exact neverDuplicate_bind neverDuplicate_readClock fun now => neverDuplicate_orRefuse _ _
  · have htype : NoDuplicate (typeName entryType) := by
      unfold typeName
      split
      · split
        · exact ok _
        · exact error rfl
      · exact error rfl
    refine neverDuplicate_bind (neverDuplicate_ofExcept htype) fun name => ?_
    exact neverDuplicate_bind (neverDuplicate_log _ _ _) fun _ =>
      neverDuplicate_ofExcept (noFault_toExcept _).noDuplicate

/-- Adding a credit reports no taken key. -/
theorem Ledger.neverDuplicate_createCredit (cfg : Config) (user amount : Value)
    (details : EntryDetails) : (createCredit cfg user amount details).NeverDuplicate :=
  neverDuplicate_bind (neverDuplicate_ofExcept (noFault_taggedMetadata _ _).noDuplicate) fun _ =>
    neverDuplicate_createEntry _ _ _ _ _

end RewardLedger
