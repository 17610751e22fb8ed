import RewardLedger.Proofs.Instant.Text
import RewardLedger.Proofs.Operation
import RewardLedger.Value.Json

/-!
# The JSON form of a JSON form

The JSON form of a value consists of the kinds of JSON only, and none of its names of fields holds a
lone half of a surrogate pair, so it is its own JSON form (`Value.jsonForm_of_jsonForm`): what was
written in JSON once is written in the same way when it was read back.
-/

namespace RewardLedger

/-! ## Texts without lone halves -/

namespace Text

/-- None of the characters stands for a lone half. -/
def Whole (cs : List Char) : Prop := ∀ c ∈ cs, halfOf? c = none

/-- A text holds a lone half if one of its characters stands for one. -/
theorem holdsHalf_eq_false_iff {s : String} : holdsHalf s = false ↔ Whole s.toList := by
  rw [holdsHalf, List.any_eq_false, Whole]
  simp

/-- Characters one after the other are those of both texts. -/
theorem Whole.append {cs ds : List Char} (hc : Whole cs) (hd : Whole ds) : Whole (cs ++ ds) := by
  intro c hmem
  rcases List.mem_append.1 hmem with hmem | hmem
  · exact hc c hmem
  · exact hd c hmem

/-- One more character stands for no lone half if it is one of the signs of instants. -/
theorem Whole.cons_sign {c : Char} (hc : c ∈ ['-', 'T', ':', '.', '+', 'Z']) {cs : List Char}
    (hcs : Whole cs) : Whole (c :: cs) := by
  have hsigns : ∀ c ∈ ['-', 'T', ':', '.', '+', 'Z'], halfOf? c = none :=
    forall_of_all (by decide)
  intro d hd
  rcases List.mem_cons.1 hd with rfl | hd
  · exact hsigns d hc
  · exact hcs d hd

/-- The digits of a number stand for no lone halves. -/
theorem whole_paddedText (width n : Nat) : Whole (paddedText width n) := by
  have hall : ∀ d ∈ digitChars, halfOf? d = none := forall_of_all (by decide)
  rw [paddedText_eq]
  exact fun c hc => hall c (mem_map_digitChar (fun _ => lt_of_mem_paddedDigits) c hc)

/-- Texts with a text between them hold a lone half only if one of them does. -/
theorem holdsHalf_intercalate {separator : String} (hseparator : holdsHalf separator = false)
    {texts : List String} (h : ∀ s ∈ texts, holdsHalf s = false) :
    holdsHalf (separator.intercalate texts) = false := by
  simp only [holdsHalf_eq_false_iff] at hseparator h ⊢
  induction texts with
  | nil => exact fun c hc => absurd hc List.not_mem_nil
  | cons s rest ih =>
    cases rest with
    | nil =>
      rw [String.intercalate_singleton]
      exact h s List.mem_cons_self
    | cons t rest =>
      rw [String.intercalate_cons_cons, String.toList_append, String.toList_append]
      exact ((h s List.mem_cons_self).append hseparator).append
        (ih fun x hx => h x (List.mem_cons_of_mem _ hx))

end Text

namespace Instant

open Text

/-- The text of an offset holds no lone half. -/
theorem whole_zoneText (offset : Int) : Whole (zoneText offset) := by
  have hnil : Whole [] := fun c hc => absurd hc List.not_mem_nil
  rw [zoneText]
  split
  · exact hnil.cons_sign (by decide)
  · have hsign : (if offset < 0 then '-' else '+') ∈ ['-', 'T', ':', '.', '+', 'Z'] := by
      split <;> decide
    exact Whole.append (Whole.cons_sign hsign (whole_paddedText _ _))
      (Whole.cons_sign (by decide) (whole_paddedText _ _))

/-- The text of an instant holds no lone half. -/
theorem holdsHalf_zuluText (t : Instant) : holdsHalf t.zuluText = false := by
  have hnil : Whole [] := fun c hc => absurd hc List.not_mem_nil
  have hfraction : Whole (if t.fields.micro = 0 then [] else '.' :: paddedText 6 t.fields.micro) := by
    split
    · exact hnil
    · exact Whole.cons_sign (by decide) (whole_paddedText _ _)
  have hpart : ∀ {sign : Char}, sign ∈ ['-', 'T', ':', '.', '+', 'Z'] → ∀ width n,
      Whole (sign :: paddedText width n) := fun hsign width n =>
    Whole.cons_sign hsign (whole_paddedText width n)
  rw [holdsHalf_eq_false_iff, zuluText, String.toList_ofList]
  refine Whole.append ?_ ?_
  · exact (((((((whole_paddedText _ _).append (hpart (by decide) _ _)).append
      (hpart (by decide) _ _)).append (hpart (by decide) _ _)).append
      (hpart (by decide) _ _)).append (hpart (by decide) _ _)).append hfraction)
  · cases t.offset with
    | none => exact hnil
    | some offset => exact whole_zoneText offset

end Instant

namespace Value

open Text

/-! ## Names of fields -/

/-- A name of a field is the text itself, which holds no lone half. -/
theorem fieldName_eq_ok {s name : String} (h : fieldName s = .ok name) :
    name = s ∧ holdsHalf s = false := by
  unfold fieldName at h
  split at h
  · cases h
  · rename_i hs
    cases h
    exact ⟨rfl, Bool.not_eq_true _ ▸ hs⟩

/-- A text without lone halves is a name of a field. -/
theorem fieldName_of_holdsHalf_eq_false {s : String} (h : holdsHalf s = false) :
    fieldName s = .ok s := by
  rw [fieldName, h]
  rfl

mutual

/-- The name that a key becomes holds no lone half. -/
theorem holdsHalf_of_keyText (v : Value) {s : String} (h : v.keyText = .ok s) :
    holdsHalf s = false := by
  cases v with
  | bool b =>
    rw [keyText] at h
    rw [← Except.ok.inj h]
    cases b <;> decide +kernel
  | instant t =>
    rw [keyText] at h
    rw [← Except.ok.inj h]
    exact t.holdsHalf_zuluText
  | tuple items =>
    rw [keyText] at h
    obtain ⟨texts, htexts, h⟩ := exists_of_bind_eq_ok h
    rw [← Except.ok.inj h]
    exact holdsHalf_intercalate (by decide +kernel) (holdsHalf_of_itemKeyTexts items htexts)
  | opaqueThing => cases h
  | _ =>
    obtain ⟨rfl, hs⟩ := fieldName_eq_ok h
    exact hs
termination_by sizeOf v

/-- The names that several keys become hold no lone halves. -/
theorem holdsHalf_of_itemKeyTexts (items : List Value) {texts : List String}
    (h : itemKeyTexts items = .ok texts) : ∀ s ∈ texts, holdsHalf s = false := by
  match items with
  | [] =>
    cases h
    exact fun _ hs => absurd hs List.not_mem_nil
  | v :: rest =>
    rw [itemKeyTexts] at h
    obtain ⟨s, hv, h⟩ := exists_of_bind_eq_ok h
    obtain ⟨ss, hrest, h⟩ := exists_of_bind_eq_ok h
    cases h
    intro x hx
    rcases List.mem_cons.1 hx with rfl | hx
    · exact holdsHalf_of_keyText v hv
    · exact holdsHalf_of_itemKeyTexts rest hrest x hx
termination_by sizeOf items

end

/-! ## Fields -/

/-- The field is what it is in JSON. -/
def IsJsonField (f : String × Value) : Prop := holdsHalf f.1 = false ∧ f.2.jsonForm = .ok f.2

/-- Fields that are what they are in JSON are their own JSON form. -/
theorem fieldsJsonForm_of_forall {fields : Fields} (h : ∀ f ∈ fields, IsJsonField f) :
    fieldsJsonForm fields = .ok fields := by
  induction fields with
  | nil => rfl
  | cons f rest ih =>
    obtain ⟨k, v⟩ := f
    obtain ⟨hk, hv⟩ := h (k, v) List.mem_cons_self
    rw [fieldsJsonForm, fieldName_of_holdsHalf_eq_false hk, hv,
      ih fun x hx => h x (List.mem_cons_of_mem _ hx)]
    rfl

/-- Items that are what they are in JSON are their own JSON form. -/
theorem itemsJsonForm_of_forall {items : List Value} (h : ∀ v ∈ items, v.jsonForm = .ok v) :
    itemsJsonForm items = .ok items := by
  induction items with
  | nil => rfl
  | cons v rest ih =>
    obtain ⟨hv, hrest⟩ := List.forall_mem_cons.1 h
    rw [itemsJsonForm, hv, ih hrest]
    rfl

/-- Setting a field adds this field only. -/
theorem mem_put {fields : Fields} {name : String} {v : Value} {f : String × Value}
    (h : f ∈ fields.put name v) : f = (name, v) ∨ f ∈ fields := by
  induction fields with
  | nil => exact .inl (List.mem_singleton.1 h)
  | cons g rest ih =>
    obtain ⟨k, w⟩ := g
    rw [Fields.put] at h
    split at h
    · rename_i hk
      rcases List.mem_cons.1 h with rfl | h
      · exact .inl (by rw [hk])
      · exact .inr (List.mem_cons_of_mem _ h)
    · rcases List.mem_cons.1 h with rfl | h
      · exact .inr List.mem_cons_self
      · exact (ih h).imp id (List.mem_cons_of_mem _)

/-- Setting several fields adds these fields only. -/
theorem mem_putAll {fields changes : Fields} {f : String × Value}
    (h : f ∈ fields.putAll changes) : f ∈ changes ∨ f ∈ fields := by
  induction changes generalizing fields with
  | nil => exact .inr h
  | cons c rest ih =>
    rcases ih h with h | h
    · exact .inl (List.mem_cons_of_mem _ h)
    · rcases mem_put h with rfl | h
      · exact .inl List.mem_cons_self
      · exact .inr h

/-! ## Values -/

mutual

/-- The JSON form of a value is its own JSON form. -/
theorem jsonForm_of_jsonForm (v : Value) {w : Value} (h : v.jsonForm = .ok w) :
    w.jsonForm = .ok w := by
  match v with
  | float x =>
    cases h
    by_cases hx : x.isFinite = true
    · rw [if_pos hx, jsonForm, if_pos hx]
    · rw [if_neg hx]
      rfl
  | decimal _ | uuid _ | instant _ | null | bool _ | int _ | str _ =>
    cases h
    rfl
  | list items | tuple items =>
    rw [jsonForm] at h
    obtain ⟨ws, hws, h⟩ := exists_of_bind_eq_ok h
    cases h
    rw [jsonForm, itemsJsonForm_of_itemsJsonForm items hws]
    rfl
  | object fields =>
    rw [jsonForm] at h
    obtain ⟨ws, hws, h⟩ := exists_of_bind_eq_ok h
    cases h
    rw [jsonForm, fieldsJsonForm_of_forall (isJsonField_of_fieldsJsonForm fields hws)]
    rfl
  | map entries =>
    rw [jsonForm] at h
    obtain ⟨ws, hws, h⟩ := exists_of_bind_eq_ok h
    cases h
    -- later names take the places of earlier ones, so what is left are fields that were written
    have hfields : ∀ f ∈ Fields.putAll [] ws, IsJsonField f := fun f hf =>
      isJsonField_of_entriesJsonForm entries hws f
        ((mem_putAll hf).resolve_right List.not_mem_nil)
    rw [jsonForm, fieldsJsonForm_of_forall hfields]
    rfl
  | opaqueThing => cases h
termination_by sizeOf v

/-- The JSON forms of items are their own JSON forms. -/
theorem itemsJsonForm_of_itemsJsonForm (items : List Value) {ws : List Value}
    (h : itemsJsonForm items = .ok ws) : itemsJsonForm ws = .ok ws := by
  match items with
  | [] =>
    cases h
    rfl
  | v :: rest =>
    rw [itemsJsonForm] at h
    obtain ⟨w, hv, h⟩ := exists_of_bind_eq_ok h
    obtain ⟨ws', hrest, h⟩ := exists_of_bind_eq_ok h
    cases h
    rw [itemsJsonForm, jsonForm_of_jsonForm v hv, itemsJsonForm_of_itemsJsonForm rest hrest]
    rfl
termination_by sizeOf items

/-- The fields of a JSON form are what they are in JSON. -/
theorem isJsonField_of_fieldsJsonForm (fields : List (String × Value))
    {ws : List (String × Value)} (h : fieldsJsonForm fields = .ok ws) : ∀ f ∈ ws, IsJsonField f := by
  match fields with
  | [] =>
    cases h
    exact fun _ hf => absurd hf List.not_mem_nil
  | (k, v) :: rest =>
    rw [fieldsJsonForm] at h
    obtain ⟨name, hk, h⟩ := exists_of_bind_eq_ok h
    obtain ⟨w, hv, h⟩ := exists_of_bind_eq_ok h
    obtain ⟨ws', hrest, h⟩ := exists_of_bind_eq_ok h
    cases h
    obtain ⟨rfl, hhalf⟩ := fieldName_eq_ok hk
    intro x hx
    rcases List.mem_cons.1 hx with rfl | hx
    · exact ⟨hhalf, jsonForm_of_jsonForm v hv⟩
    · exact isJsonField_of_fieldsJsonForm rest hrest x hx
termination_by sizeOf fields

/-- The fields that entries become are what they are in JSON. -/
theorem isJsonField_of_entriesJsonForm (entries : List (Value × Value))
    {ws : List (String × Value)} (h : entriesJsonForm entries = .ok ws) :
    ∀ f ∈ ws, IsJsonField f := by
  match entries with
  | [] =>
    cases h
    exact fun _ hf => absurd hf List.not_mem_nil
  | (k, v) :: rest =>
    rw [entriesJsonForm] at h
    obtain ⟨name, hk, h⟩ := exists_of_bind_eq_ok h
    obtain ⟨w, hv, h⟩ := exists_of_bind_eq_ok h
    obtain ⟨ws', hrest, h⟩ := exists_of_bind_eq_ok h
    cases h
    intro x hx
    rcases List.mem_cons.1 hx with rfl | hx
    · exact ⟨holdsHalf_of_keyText k hk, jsonForm_of_jsonForm v hv⟩
    · exact isJsonField_of_entriesJsonForm rest hrest x hx
termination_by sizeOf entries

end

end Value

end RewardLedger
