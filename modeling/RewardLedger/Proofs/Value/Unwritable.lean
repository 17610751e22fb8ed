import RewardLedger.Proofs.Computation
import RewardLedger.Value.Json

/-!
# What cannot be written in JSON

A value has no JSON form exactly if something in it, at whatever depth, cannot be written
(`Value.exists_jsonForm_iff`). There are two reasons: an opaque thing has no form at all, and a name of
a field cannot hold a lone half of a surrogate pair (`Value.Unwritable.reason`).
-/

namespace RewardLedger.Value

variable {v : Value} {e : Failure}

/-- Something in the value cannot be written in JSON, for that reason. -/
inductive Unwritable : Value → Failure → Prop where
  /-- An opaque thing has no form. -/
  | opaqueThing : Unwritable .opaqueThing .noJsonForm
  /-- An item of a list cannot be written. -/
  | item {items : List Value} {v : Value} {e : Failure} (hv : v ∈ items) (h : Unwritable v e) :
    Unwritable (.list items) e
  /-- An item of a sequence cannot be written. -/
  | part {items : List Value} {v : Value} {e : Failure} (hv : v ∈ items) (h : Unwritable v e) :
    Unwritable (.tuple items) e
  /-- The name of a field cannot be written. -/
  | name {fields : Fields} {f : String × Value} {e : Failure} (hf : f ∈ fields)
    (h : fieldName f.1 = .error e) : Unwritable (.object fields) e
  /-- The value of a field cannot be written. -/
  | field {fields : Fields} {f : String × Value} {e : Failure} (hf : f ∈ fields)
    (h : Unwritable f.2 e) : Unwritable (.object fields) e
  /-- A key cannot be written as the name of a field. -/
  | key {entries : List (Value × Value)} {f : Value × Value} {e : Failure} (hf : f ∈ entries)
    (h : f.1.keyText = .error e) : Unwritable (.map entries) e
  /-- What stands under a key cannot be written. -/
  | entry {entries : List (Value × Value)} {f : Value × Value} {e : Failure} (hf : f ∈ entries)
    (h : Unwritable f.2 e) : Unwritable (.map entries) e

/-! ## Reasons -/

/-- Only a lone half keeps a text from being the name of a field. -/
theorem fieldName_error {s : String} (h : fieldName s = .error e) : e = .notUnicode := by
  unfold fieldName at h
  split at h
  · cases h
    rfl
  · cases h

mutual

/-- A key is no name of a field because it is opaque, or holds a lone half. -/
theorem keyText_error (v : Value) {e : Failure} (h : v.keyText = .error e) :
    e = .noJsonForm ∨ e = .notUnicode := by
  cases v with
  | bool _ | instant _ =>
    rw [keyText] at h
    cases h
  | tuple items =>
    rw [keyText] at h
    rcases of_bind_eq_error h with hitems | ⟨texts, -, h⟩
    · exact itemKeyTexts_error items hitems
    · cases h
  | opaqueThing =>
    cases h
    exact .inl rfl
  | _ => exact .inr (fieldName_error h)
termination_by sizeOf v

/-- Several keys are no names of fields for one of these reasons. -/
theorem itemKeyTexts_error (items : List Value) {e : Failure} (h : itemKeyTexts items = .error e) :
    e = .noJsonForm ∨ e = .notUnicode := by
  match items with
  | [] => cases h
  | v :: rest =>
    rw [itemKeyTexts] at h
    rcases of_bind_eq_error h with hv | ⟨s, -, h⟩
    · exact keyText_error v hv
    rcases of_bind_eq_error h with hrest | ⟨ss, -, h⟩
    · exact itemKeyTexts_error rest hrest
    · cases h
termination_by sizeOf items

end

/-- A value cannot be written because of an opaque thing, or of a lone half in the name of a field. -/
theorem Unwritable.reason (h : v.Unwritable e) : e = .noJsonForm ∨ e = .notUnicode := by
  induction h with
  | opaqueThing => exact .inl rfl
  | name _ h => exact .inr (fieldName_error h)
  | @key _ f _ _ h => exact keyText_error f.1 h
  | item _ _ ih | part _ _ ih | field _ _ ih | entry _ _ ih => exact ih

/-! ## Forms -/

mutual

/-- A value without a JSON form cannot be written, for the reason that is given. -/
theorem unwritable_of_jsonForm (v : Value) {e : Failure} (h : v.jsonForm = .error e) :
    v.Unwritable e := by
  cases v with
  | list items =>
    rw [jsonForm] at h
    rcases of_bind_eq_error h with hitems | ⟨ws, -, h⟩
    · obtain ⟨v, hv, hbad⟩ := unwritable_of_itemsJsonForm items hitems
      exact .item hv hbad
    · cases h
  | tuple items =>
    rw [jsonForm] at h
    rcases of_bind_eq_error h with hitems | ⟨ws, -, h⟩
    · obtain ⟨v, hv, hbad⟩ := unwritable_of_itemsJsonForm items hitems
      exact .part hv hbad
    · cases h
  | object fields =>
    rw [jsonForm] at h
    rcases of_bind_eq_error h with hfields | ⟨ws, -, h⟩
    · obtain ⟨f, hf, hbad | hbad⟩ := unwritable_of_fieldsJsonForm fields hfields
      · exact .name hf hbad
      · exact .field hf hbad
    · cases h
  | map entries =>
    rw [jsonForm] at h
    rcases of_bind_eq_error h with hentries | ⟨ws, -, h⟩
    · obtain ⟨f, hf, hbad | hbad⟩ := unwritable_of_entriesJsonForm entries hentries
      · exact .key hf hbad
      · exact .entry hf hbad
    · cases h
  | opaqueThing =>
    cases h
    exact .opaqueThing
  | _ => cases h
termination_by sizeOf v

/-- If items have no JSON forms, one of them cannot be written. -/
theorem unwritable_of_itemsJsonForm (items : List Value) {e : Failure}
    (h : itemsJsonForm items = .error e) : ∃ v ∈ items, v.Unwritable e := by
  match items with
  | [] => cases h
  | v :: rest =>
    rw [itemsJsonForm] at h
    rcases of_bind_eq_error h with hv | ⟨w, -, h⟩
    · exact ⟨v, List.mem_cons_self, unwritable_of_jsonForm v hv⟩
    rcases of_bind_eq_error h with hrest | ⟨ws, -, h⟩
    · obtain ⟨x, hx, hbad⟩ := unwritable_of_itemsJsonForm rest hrest
      exact ⟨x, List.mem_cons_of_mem _ hx, hbad⟩
    · cases h
termination_by sizeOf items

/-- If fields have no JSON forms, the name or the value of one of them cannot be written. -/
theorem unwritable_of_fieldsJsonForm (fields : List (String × Value)) {e : Failure}
    (h : fieldsJsonForm fields = .error e) :
    ∃ f ∈ fields, fieldName f.1 = .error e ∨ f.2.Unwritable e := by
  match fields with
  | [] => cases h
  | (k, v) :: rest =>
    rw [fieldsJsonForm] at h
    rcases of_bind_eq_error h with hk | ⟨name, -, h⟩
    · exact ⟨(k, v), List.mem_cons_self, .inl hk⟩
    rcases of_bind_eq_error h with hv | ⟨w, -, h⟩
    · exact ⟨(k, v), List.mem_cons_self, .inr (unwritable_of_jsonForm v hv)⟩
    rcases of_bind_eq_error h with hrest | ⟨ws, -, h⟩
    · obtain ⟨f, hf, hbad⟩ := unwritable_of_fieldsJsonForm rest hrest
      exact ⟨f, List.mem_cons_of_mem _ hf, hbad⟩
    · cases h
termination_by sizeOf fields

/-- If entries have no JSON forms, the key of one of them or what stands under it cannot be written. -/
theorem unwritable_of_entriesJsonForm (entries : List (Value × Value)) {e : Failure}
    (h : entriesJsonForm entries = .error e) :
    ∃ f ∈ entries, f.1.keyText = .error e ∨ f.2.Unwritable e := by
  match entries with
  | [] => cases h
  | (k, v) :: rest =>
    rw [entriesJsonForm] at h
    rcases of_bind_eq_error h with hk | ⟨name, -, h⟩
    · exact ⟨(k, v), List.mem_cons_self, .inl hk⟩
    rcases of_bind_eq_error h with hv | ⟨w, -, h⟩
    · exact ⟨(k, v), List.mem_cons_self, .inr (unwritable_of_jsonForm v hv)⟩
    rcases of_bind_eq_error h with hrest | ⟨ws, -, h⟩
    · obtain ⟨f, hf, hbad⟩ := unwritable_of_entriesJsonForm rest hrest
      exact ⟨f, List.mem_cons_of_mem _ hf, hbad⟩
    · cases h
termination_by sizeOf entries

end

/-- Items that have JSON forms have one each. -/
theorem exists_jsonForm_of_items {items ws : List Value} (h : itemsJsonForm items = .ok ws) :
    ∀ v ∈ items, ∃ w, v.jsonForm = .ok w := by
  induction items generalizing ws with
  | nil => exact fun v hv => absurd hv List.not_mem_nil
  | cons v rest ih =>
    rw [itemsJsonForm] at h
    obtain ⟨w, hv, h⟩ := exists_of_bind_eq_ok h
    obtain ⟨ws', hrest, -⟩ := exists_of_bind_eq_ok h
    exact List.forall_mem_cons.2 ⟨⟨w, hv⟩, ih hrest⟩

/-- Fields that have JSON forms have names and values that can be written. -/
theorem exists_jsonForm_of_fields {fields ws : List (String × Value)}
    (h : fieldsJsonForm fields = .ok ws) :
    ∀ f ∈ fields, (∃ name, fieldName f.1 = .ok name) ∧ ∃ w, f.2.jsonForm = .ok w := by
  induction fields generalizing ws with
  | nil => exact fun f hf => absurd hf List.not_mem_nil
  | cons f rest ih =>
    rw [fieldsJsonForm] at h
    obtain ⟨name, hk, h⟩ := exists_of_bind_eq_ok h
    obtain ⟨w, hv, h⟩ := exists_of_bind_eq_ok h
    obtain ⟨ws', hrest, -⟩ := exists_of_bind_eq_ok h
    exact List.forall_mem_cons.2 ⟨⟨⟨name, hk⟩, w, hv⟩, ih hrest⟩

/-- Entries that have JSON forms have keys and values that can be written. -/
theorem exists_jsonForm_of_entries {entries : List (Value × Value)} {ws : List (String × Value)}
    (h : entriesJsonForm entries = .ok ws) :
    ∀ f ∈ entries, (∃ name, f.1.keyText = .ok name) ∧ ∃ w, f.2.jsonForm = .ok w := by
  induction entries generalizing ws with
  | nil => exact fun f hf => absurd hf List.not_mem_nil
  | cons f rest ih =>
    rw [entriesJsonForm] at h
    obtain ⟨name, hk, h⟩ := exists_of_bind_eq_ok h
    obtain ⟨w, hv, h⟩ := exists_of_bind_eq_ok h
    obtain ⟨ws', hrest, -⟩ := exists_of_bind_eq_ok h
    exact List.forall_mem_cons.2 ⟨⟨⟨name, hk⟩, w, hv⟩, ih hrest⟩

/-- What cannot be written has no JSON form. -/
theorem Unwritable.not_exists_jsonForm (h : v.Unwritable e) : ¬∃ w, v.jsonForm = .ok w := by
  induction h with
  | opaqueThing =>
    rintro ⟨w, hw⟩
    cases hw
  | item hv _ ih | part hv _ ih =>
    rintro ⟨w, hw⟩
    rw [jsonForm] at hw
    obtain ⟨ws, hws, -⟩ := exists_of_bind_eq_ok hw
    exact ih (exists_jsonForm_of_items hws _ hv)
  | name hf hname =>
    rintro ⟨w, hw⟩
    rw [jsonForm] at hw
    obtain ⟨ws, hws, -⟩ := exists_of_bind_eq_ok hw
    obtain ⟨⟨name, hok⟩, -⟩ := exists_jsonForm_of_fields hws _ hf
    cases hname.symm.trans hok
  | field hf _ ih =>
    rintro ⟨w, hw⟩
    rw [jsonForm] at hw
    obtain ⟨ws, hws, -⟩ := exists_of_bind_eq_ok hw
    exact ih (exists_jsonForm_of_fields hws _ hf).2
  | key hf hkey =>
    rintro ⟨w, hw⟩
    rw [jsonForm] at hw
    obtain ⟨ws, hws, -⟩ := exists_of_bind_eq_ok hw
    obtain ⟨⟨name, hok⟩, -⟩ := exists_jsonForm_of_entries hws _ hf
    cases hkey.symm.trans hok
  | entry hf _ ih =>
    rintro ⟨w, hw⟩
    rw [jsonForm] at hw
    obtain ⟨ws, hws, -⟩ := exists_of_bind_eq_ok hw
    exact ih (exists_jsonForm_of_entries hws _ hf).2

/-- A value has a JSON form exactly if nothing in it is unwritable. -/
theorem exists_jsonForm_iff : (∃ w, v.jsonForm = .ok w) ↔ ∀ e, ¬v.Unwritable e := by
  refine ⟨fun h e hbad => hbad.not_exists_jsonForm h, fun h => ?_⟩
  cases hform : v.jsonForm with
  | ok w => exact ⟨w, rfl⟩
  | error e => exact absurd (unwritable_of_jsonForm v hform) (h e)

end RewardLedger.Value
