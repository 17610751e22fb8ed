import RewardLedger.Proofs.Ledger.Posting
import RewardLedger.Proofs.Ledger.Reading
import RewardLedger.Rule.Engine

/-!
# Rules work aside from the books

Rules are kept in a table of their own, so whatever is done to them, the books stay as they are. What
has to be seen is that the store stays sound: a rule is added under a name that is a text and with a
version that is a whole number (`isPlain_of_nextVersion`), and the columns that change are in no
index.
-/

namespace RewardLedger

variable {cfg : Config} {base : Option Store} {b : Books} {w : World}

open Op

/-! ## The table of rules -/

/-- Changing whether a rule is active leaves the books alone. -/
theorem aside_activate (id active : Value) :
    (change (Store.update rulesTable id [("is_active", active)])).Aside cfg := by
  rintro base b w ⟨n, hn, hw⟩
  have hfree : ∀ ix ∈ [("name_version", ["name", "version"])], ∀ c ∈ ix.2, c ∉ ["is_active"] := by
    decide
  refine ends_update hw rulesTable rfl (by exact hfree) ?_ fun _ _ hw' => ⟨n, hn, hw'⟩
  intro t row ht _ _ hfollows
  refine ⟨n, hn, hw.follows hfollows ?_ hw.issued hw.proper⟩
  exact ⟨hw.held.users.updated_of_ne ht (by decide), hw.held.entries.updated_of_ne ht (by decide),
    hw.held.rewards.updated_of_ne ht (by decide), hw.held.requests.updated_of_ne ht (by decide)⟩

/-- Adding a rule under a plain name and with a plain version leaves the books alone. -/
theorem aside_insertRule {id : Uuid} {name version : Value} (hname : name.IsPlain)
    (hversion : version.IsPlain) (description conditions actions active metadata now : Value) :
    (change (Store.insert rulesTable [
      ("id", .uuid id), ("name", name), ("description", description), ("version", version),
      ("conditions", conditions), ("actions", actions), ("is_active", active),
      ("metadata", metadata), ("created_at", now)])).Aside cfg := by
  rintro base b w ⟨n, hn, hw⟩
  refine ends_insert hw (hw.declared.fitsTable rfl ?_ fun ix hix c hc => ?_) ?_
    fun _ _ _ hw' => ⟨n, hn, hw'⟩
  · exact Or.inr trivial
  · -- besides the identifier the name and the version are a key
    rw [List.mem_singleton.1 hix] at hc
    rcases List.mem_cons.1 hc with rfl | hc
    · exact Or.inr hname
    · rw [List.mem_singleton.1 hc]
      exact Or.inr hversion
  · intro t columns _ _ _ _ hfollows
    refine ⟨n, hn, hw.follows hfollows ?_ hw.issued hw.proper⟩
    exact ⟨hw.held.users.inserted_of_ne (by decide) _ _,
      hw.held.entries.inserted_of_ne (by decide) _ _,
      hw.held.rewards.inserted_of_ne (by decide) _ _,
      hw.held.requests.inserted_of_ne (by decide) _ _⟩

namespace RuleBook

/-! ## Versions -/

/-- The version of a rule that is stored is null or plain. -/
theorem orNull_version (h : w.Holds cfg base b) {keep : Fields → Except Failure Bool}
    {rows : List Fields} (hrows : w.store.select rulesTable keep = .ok rows) :
    ∀ row ∈ rows, KeyKind.OrNull Value.IsPlain (row.get "version") := by
  obtain ⟨t, ht, hmem⟩ := h.sound.of_select hrows
  have hschema := h.schema_eq rulesTable ht rfl
  intro row hrow
  obtain ⟨r, hr, rfl⟩ := hmem row hrow
  have hindex : ("name_version", ["name", "version"]) ∈ t.schema.indexes := by
    rw [hschema]
    exact List.mem_singleton_self _
  exact (h.sound _ t ht).1.rowsSound.fits _ hindex r hr "version" (by simp)

/-- The greatest version of rows is the version of one of them. -/
theorem orNull_of_greaterVersion {rows : List Fields}
    (hrows : ∀ row ∈ rows, KeyKind.OrNull Value.IsPlain (row.get "version"))
    {greatest found : Option Value} (hg : ∀ v, greatest = some v → KeyKind.OrNull Value.IsPlain v)
    (h : rows.foldlM greaterVersion greatest = .ok found) :
    ∀ v, found = some v → KeyKind.OrNull Value.IsPlain v := by
  induction rows generalizing greatest with
  | nil =>
    cases h
    exact hg
  | cons row rest ih =>
    rw [List.foldlM_cons] at h
    cases hstep : greaterVersion greatest row with
    | error e =>
      rw [hstep] at h
      cases h
    | ok next =>
      rw [hstep] at h
      refine ih (fun r hr => hrows r (List.mem_cons_of_mem _ hr)) ?_ h
      -- the next greatest version is the one so far or that of the row
      have hrow := hrows row List.mem_cons_self
      unfold greaterVersion Fields.column at hstep
      unfold Fields.get at hrow
      cases hversion : row.find? "version" with
      | none =>
        rw [hversion] at hstep
        cases hstep
      | some version =>
        rw [hversion] at hstep hrow
        cases greatest with
        | none =>
          cases hstep
          rintro v ⟨⟩
          exact hrow
        | some v₀ =>
          simp only [bind, Except.bind] at hstep
          cases hgreater : version.greaterThan v₀ with
          | error e =>
            rw [hgreater] at hstep
            cases hstep
          | ok greater =>
            rw [hgreater] at hstep
            cases hstep
            rintro v ⟨⟩
            cases greater with
            | true => exact hrow
            | false => exact hg v₀ rfl

/-- The number of the next version is a whole number. -/
theorem isPlain_of_nextVersion {rows : List Fields}
    (hrows : ∀ row ∈ rows, KeyKind.OrNull Value.IsPlain (row.get "version")) {version : Value}
    (h : nextVersion rows = .ok version) : version.IsPlain := by
  unfold nextVersion at h
  cases hfound : rows.foldlM greaterVersion none with
  | error e =>
    rw [hfound] at h
    cases h
  | ok found =>
    rw [hfound] at h
    cases found with
    | none =>
      cases h
      trivial
    | some v =>
      have hnone : ∀ v, (none : Option Value) = some v → KeyKind.OrNull Value.IsPlain v :=
        fun _ hn => nomatch hn
      have hv := orNull_of_greaterVersion hrows hnone hfound v rfl
      have h : v.successor = .ok version := h
      cases v with
      | int i =>
        cases h
        trivial
      | null | str _ | uuid _ => cases h
      | _ => exact (hv.elim (fun hn => nomatch hn) fun hp => hp.elim)

/-! ## Changing -/

theorem aside_deactivateAll (rows : List Fields) : (deactivateAll rows).Aside cfg := by
  refine aside_forM (fun row => ?_) rows
  refine aside_bind (aside_ofExcept _) fun active => ?_
  cases active with
  | true => exact aside_bind (aside_ofExcept _) fun _ => aside_map (aside_activate _ _)
  | false => exact aside_pure _

/-- The name of a rule is plain. -/
theorem isPlain_of_isName {name : Value} (h : isName name = true) : name.IsPlain := by
  cases name with
  | str _ => trivial
  | _ => cases h

/-- Making a new version leaves the books alone. -/
theorem aside_create (name conditions actions metadata description active : Value) :
    (create name conditions actions metadata description active).Aside cfg := by
  unfold create
  cases hname : isName name with
  | false => exact fun base b w hw => ends_bind (ends_throw hw)
  | true =>
    refine aside_bind (aside_ofExcept _) fun condition => ?_
    refine aside_bind (aside_ofExcept _) fun actions => ?_
    refine aside_bind (aside_transaction ?_) fun stored =>
      aside_bind (aside_log _ _ _) fun _ => aside_ofExcept _
    rintro base b w ⟨n, hn, hw⟩
    have hkept : w.HoldsBeside cfg base b := ⟨n, hn, hw⟩
    refine ends_bind (ends_query (fun previous hprevious => ?_) fun _ _ => hkept)
    refine ends_bind (ends_ofExcept (fun version hversion => ?_) fun _ _ => hkept)
    have hplain := isPlain_of_nextVersion (orNull_version hw hprevious) hversion
    refine aside_bind (aside_deactivateAll previous) (fun _ => ?_) base b w hkept
    refine aside_bind aside_freshId fun id => ?_
    refine aside_bind (aside_ofExcept _) fun metadata => ?_
    refine aside_bind aside_readClock fun now => ?_
    exact aside_bind (aside_insertRule (isPlain_of_isName hname) hplain _ _ _ _ _ _) fun _ =>
      aside_pure _

/-- Setting whether a rule is active leaves the books alone. -/
theorem aside_setActive (row : Fields) (active : Value) : (setActive row active).Aside cfg := by
  have hrest : ∀ id : Value, (do
      let updated ← change (Store.update rulesTable id [("is_active", active)])
      log .info "rule_activation_changed" [("rule_id", .str id.plainText), ("is_active", active)]
      Op.ofExcept (Rule.ofRow updated) : Op Rule).Aside cfg := fun id =>
    aside_bind (aside_activate id active) fun _ => aside_bind (aside_log _ _ _) fun _ =>
      aside_ofExcept _
  refine aside_bind (aside_ofExcept _) fun id => ?_
  cases active.truthy with
  | false => exact hrest id
  | true =>
    refine aside_bind (aside_ofExcept _) fun name => ?_
    refine aside_bind (aside_query _) fun others => ?_
    refine aside_bind (aside_forM (fun other => ?_) others) fun _ => hrest id
    refine aside_bind (aside_ofExcept _) fun otherId => ?_
    refine aside_bind (aside_ofExcept _) fun same => ?_
    cases same with
    | true => exact aside_pure _
    | false => exact aside_map (aside_activate _ _)

theorem reads_row (id : Value) : (row id).Reads := by
  refine reads_bind (reads_query _) fun found => ?_
  cases found with
  | some _ => exact reads_pure _
  | none => exact reads_refuse _

/-- Making a version that takes over what is not changed leaves the books alone. -/
theorem aside_createFrom (current : Fields) (changes : Changes)
    (name conditions actions active : Value) :
    (do
      let metadata ← Op.ofExcept (given changes.metadata current "metadata")
      let description ← Op.ofExcept (given changes.description current "description")
      create name conditions actions metadata description active : Op Rule).Aside cfg :=
  aside_bind (aside_ofExcept _) fun _ => aside_bind (aside_ofExcept _) fun _ =>
    aside_create _ _ _ _ _ _

/-- Applying changes to a rule leaves the books alone. -/
theorem aside_update (id : Value) (changes : Changes) : (update id changes).Aside cfg := by
  refine aside_transaction (aside_bind (reads_row id).aside fun current => ?_)
  cases changes.concernContent with
  | false =>
    cases changes.active.isNull with
    | true => exact aside_ofExcept _
    | false => exact aside_setActive _ _
  | true =>
    -- each part is given or taken from the row, and neither looks at the world
    cases changes.name.truthy <;> cases changes.conditions <;> cases changes.actions
    all_goals
      refine aside_bind (by first | exact aside_pure _ | exact aside_ofExcept _) fun name => ?_
      refine aside_bind (by first | exact aside_pure _ | exact aside_ofExcept _) fun conds => ?_
      refine aside_bind (by first | exact aside_pure _ | exact aside_ofExcept _) fun actions => ?_
      exact aside_createFrom _ _ _ _ _ _

theorem aside_deactivate (id : Value) : (deactivate id).Aside cfg :=
  aside_transaction (aside_bind (reads_row id).aside fun current => aside_setActive current _)

/-! ## Reading -/

theorem reads_get (id : Value) : (get id).Reads :=
  reads_bind (reads_row id) fun _ => reads_ofExcept _

theorem reads_listed (keep : Fields → Except Failure Bool) : (listed keep).Reads :=
  reads_query_ofExcept

theorem reads_all : all.Reads := reads_bind (reads_listed _) fun _ => reads_ofExcept _

theorem reads_active : active.Reads := reads_bind (reads_listed _) fun _ => reads_ofExcept _

theorem reads_latestPerName : latestPerName.Reads :=
  reads_bind (reads_listed _) fun _ => reads_ofExcept _

theorem reads_latest? (name : Value) : (latest? name).Reads := by
  refine reads_bind (reads_listed _) fun rows => ?_
  cases rows with
  | nil => exact reads_pure _
  | cons _ _ => exact reads_ofExcept _

end RuleBook

/-! ## The rule engine -/

namespace RuleEngine

theorem reads_evaluate (event : Value) : (evaluate event).Reads :=
  reads_bind RuleBook.reads_active fun _ => reads_bind (reads_ofExcept _) fun _ =>
    reads_bind (reads_log _ _ _) fun _ => reads_pure _

theorem reads_explain (event : Value) : (explain event).Reads :=
  reads_bind RuleBook.reads_active fun _ => reads_ofExcept _

end RuleEngine

end RewardLedger
