import RewardLedger.Ledger.Records
import RewardLedger.Proofs.Number.DecimalText
import RewardLedger.Proofs.Value.Json

/-!
# What can be sent

A value is sent if none of its texts, names of fields included, holds a lone half of a surrogate
pair (`Value.Sendable`). Its JSON form can then be sent as well (`Value.sendable_of_jsonForm`), since
the texts that identifiers, amounts and instants become hold no lone halves. So the answer to a
request for a credit can be sent if the texts in it that came from outside can be
(`CreditResult.sendable_json`).
-/

namespace RewardLedger

/-! ## Texts of numbers and identifiers -/

namespace Text

/-- Some of the characters stand for no lone halves if none of them does. -/
theorem Whole.of_subset {cs ds : List Char} (h : Whole cs) (hds : ds ⊆ cs) : Whole ds :=
  fun c hc => h c (hds hc)

/-- Hexadecimal digits stand for no lone halves. -/
theorem whole_hexText (width n : Nat) : Whole (hexText width n) := by
  induction width generalizing n with
  | zero => exact fun c hc => absurd hc List.not_mem_nil
  | succ width ih =>
    have hdigits : ∀ d ∈ List.range 16, halfOf? (hexChar d) = none := by decide
    have hlast : Whole [hexChar (n % 16)] := by
      intro c hc
      rw [List.mem_singleton.1 hc]
      exact hdigits _ (List.mem_range.2 (Nat.mod_lt n (by decide)))
    exact (ih (n / 16)).append hlast

end Text

open Text

/-- The text of an identifier holds no lone half. -/
theorem Uuid.holdsHalf_text (u : Uuid) : holdsHalf u.text = false := by
  have hall : Whole (hexText 32 u.value) := whole_hexText 32 u.value
  have hgroup : ∀ n m, Whole (((hexText 32 u.value).drop n).take m) := fun n m =>
    hall.of_subset (List.Subset.trans (List.take_subset m _) (List.drop_subset n _))
  have hrest : Whole ('-' :: (hexText 32 u.value).drop 20) :=
    Whole.cons_sign (by decide) (hall.of_subset (List.drop_subset 20 _))
  rw [holdsHalf_eq_false_iff, text, String.toList_ofList, chars]
  exact ((((hgroup 0 8).append (Whole.cons_sign (by decide) (hgroup 8 4))).append
    (Whole.cons_sign (by decide) (hgroup 12 4))).append
    (Whole.cons_sign (by decide) (hgroup 16 4))).append hrest

/-- The text of a decimal number holds no lone half. -/
theorem Decimal.holdsHalf_text (d : Decimal) : holdsHalf d.text = false := by
  have hsign : ∀ negative, Whole (signText negative) := fun negative c hc => by
    cases negative with
    | false => exact absurd hc List.not_mem_nil
    | true => rw [List.mem_singleton.1 hc]; decide
  have hword : ∀ cs : List Char, cs.all (fun c => halfOf? c = none) = true → Whole cs :=
    fun cs hcs => forall_of_all hcs
  rw [holdsHalf_eq_false_iff, text, String.toList_ofList]
  cases d with
  | finite negative c e =>
    have hnumber : Whole numberChars := hword _ (by decide)
    obtain ⟨-, -, -, -, hchars⟩ := exists_magnitudeText_eq_cons c e
    exact (hsign negative).append (hnumber.of_subset fun x hx => hchars x hx)
  | infinite negative => exact (hsign negative).append (hword _ (by decide +kernel))
  | nan negative signaling payload =>
    refine ((hsign negative).append ?_).append ?_
    · cases signaling with
      | false => exact hword _ (by decide +kernel)
      | true => exact hword _ (by decide +kernel)
    · split
      · exact hword _ rfl
      · exact (hword digitChars (by decide)).of_subset fun x hx => mem_natText hx

/-! ## Values -/

namespace Value

/-- No text in the value holds a lone half of a surrogate pair. -/
def Sendable (v : Value) : Prop := v.halvedText? = none

theorem sendable_str {s : String} : (str s).Sendable ↔ holdsHalf s = false := by
  rw [Sendable, halvedText?, ifHalved]
  cases holdsHalf s with
  | false => exact iff_of_true rfl rfl
  | true => exact iff_of_false (fun h => nomatch h) (fun h => nomatch h)

theorem halvedAmongItems?_eq_none {items : List Value} :
    halvedAmongItems? items = none ↔ ∀ v ∈ items, v.Sendable := by
  induction items with
  | nil => exact iff_of_true rfl fun v hv => absurd hv List.not_mem_nil
  | cons v rest ih =>
    rw [halvedAmongItems?, Option.or_eq_none_iff, ih, List.forall_mem_cons]
    exact Iff.rfl

theorem sendable_list {items : List Value} : (list items).Sendable ↔ ∀ v ∈ items, v.Sendable := by
  rw [Sendable, halvedText?, halvedAmongItems?_eq_none]

theorem sendable_tuple {items : List Value} : (tuple items).Sendable ↔ ∀ v ∈ items, v.Sendable := by
  rw [Sendable, halvedText?, halvedAmongItems?_eq_none]

theorem sendable_object {fields : Fields} :
    (object fields).Sendable ↔ ∀ f ∈ fields, holdsHalf f.1 = false ∧ f.2.Sendable := by
  rw [Sendable, halvedText?]
  induction fields with
  | nil => exact iff_of_true rfl fun v hv => absurd hv List.not_mem_nil
  | cons f rest ih =>
    obtain ⟨k, v⟩ := f
    rw [halvedAmongFields?, Option.or_eq_none_iff, Option.or_eq_none_iff, ih, List.forall_mem_cons,
      ← and_assoc]
    exact and_congr_left' (and_congr_left' sendable_str)

theorem sendable_map {entries : List (Value × Value)} :
    (map entries).Sendable ↔ ∀ f ∈ entries, f.1.Sendable ∧ f.2.Sendable := by
  rw [Sendable, halvedText?]
  induction entries with
  | nil => exact iff_of_true rfl fun v hv => absurd hv List.not_mem_nil
  | cons f rest ih =>
    obtain ⟨k, v⟩ := f
    rw [halvedAmongEntries?, Option.or_eq_none_iff, Option.or_eq_none_iff, ih,
      List.forall_mem_cons, ← and_assoc]
    exact Iff.rfl

mutual

/-- The JSON form of a value that can be sent can be sent. -/
theorem sendable_of_jsonForm (v : Value) {w : Value} (hv : v.Sendable) (h : v.jsonForm = .ok w) :
    w.Sendable := by
  match v with
  -- these are written as texts of digits, letters and signs
  | decimal d =>
    cases h
    exact sendable_str.2 d.holdsHalf_text
  | uuid u =>
    cases h
    exact sendable_str.2 u.holdsHalf_text
  | instant t =>
    cases h
    exact sendable_str.2 t.holdsHalf_zuluText
  | float x =>
    cases h
    split <;> rfl
  | null | bool _ | int _ | str _ =>
    cases h
    exact hv
  -- these have the forms of their parts, by the other inductions of the block
  | list items =>
    rw [jsonForm] at h
    obtain ⟨ws, hws, h⟩ := exists_of_bind_eq_ok h
    cases h
    exact sendable_list.2 (sendable_of_itemsJsonForm items (sendable_list.1 hv) hws)
  | tuple items =>
    rw [jsonForm] at h
    obtain ⟨ws, hws, h⟩ := exists_of_bind_eq_ok h
    cases h
    exact sendable_list.2 (sendable_of_itemsJsonForm items (sendable_tuple.1 hv) hws)
  | object fields =>
    rw [jsonForm] at h
    obtain ⟨ws, hws, h⟩ := exists_of_bind_eq_ok h
    cases h
    have hvalues := sendable_of_fieldsJsonForm fields (fun f hf => (sendable_object.1 hv f hf).2) hws
    exact sendable_object.2 fun f hf =>
      ⟨(isJsonField_of_fieldsJsonForm fields hws f hf).1, hvalues f hf⟩
  | map entries =>
    rw [jsonForm] at h
    obtain ⟨ws, hws, h⟩ := exists_of_bind_eq_ok h
    cases h
    have hvalues := sendable_of_entriesJsonForm entries (fun f hf => (sendable_map.1 hv f hf).2) hws
    refine sendable_object.2 fun f hf => ?_
    have hf : f ∈ ws := (mem_putAll hf).resolve_right List.not_mem_nil
    exact ⟨(isJsonField_of_entriesJsonForm entries hws f hf).1, hvalues f hf⟩
  | opaqueThing => cases h
termination_by sizeOf v

/-- The JSON forms of items that can be sent can be sent. -/
theorem sendable_of_itemsJsonForm (items : List Value) {ws : List Value}
    (hitems : ∀ v ∈ items, v.Sendable) (h : itemsJsonForm items = .ok ws) :
    ∀ w ∈ ws, w.Sendable := by
  match items with
  | [] =>
    cases h
    exact fun _ hw => absurd hw List.not_mem_nil
  | v :: rest =>
    rw [itemsJsonForm] at h
    obtain ⟨w, hw, h⟩ := exists_of_bind_eq_ok h
    obtain ⟨ws', hrest, h⟩ := exists_of_bind_eq_ok h
    cases h
    rw [List.forall_mem_cons] at hitems
    exact List.forall_mem_cons.2 ⟨sendable_of_jsonForm v hitems.1 hw,
      sendable_of_itemsJsonForm rest hitems.2 hrest⟩
termination_by sizeOf items

/-- The JSON forms of the values of fields can be sent if these can be sent. -/
theorem sendable_of_fieldsJsonForm (fields : List (String × Value)) {ws : List (String × Value)}
    (hfields : ∀ f ∈ fields, f.2.Sendable) (h : fieldsJsonForm fields = .ok ws) :
    ∀ f ∈ ws, f.2.Sendable := by
  match fields with
  | [] =>
    cases h
    exact fun _ hw => absurd hw List.not_mem_nil
  | (k, v) :: rest =>
    rw [fieldsJsonForm] at h
    obtain ⟨name, -, h⟩ := exists_of_bind_eq_ok h
    obtain ⟨w, hw, h⟩ := exists_of_bind_eq_ok h
    obtain ⟨ws', hrest, h⟩ := exists_of_bind_eq_ok h
    cases h
    rw [List.forall_mem_cons] at hfields
    exact List.forall_mem_cons.2 ⟨sendable_of_jsonForm v hfields.1 hw,
      sendable_of_fieldsJsonForm rest hfields.2 hrest⟩
termination_by sizeOf fields

/-- The values of the fields that entries become can be sent if those of the entries can be sent. -/
theorem sendable_of_entriesJsonForm (entries : List (Value × Value)) {ws : List (String × Value)}
    (hentries : ∀ f ∈ entries, f.2.Sendable) (h : entriesJsonForm entries = .ok ws) :
    ∀ f ∈ ws, f.2.Sendable := by
  match entries with
  | [] =>
    cases h
    exact fun _ hw => absurd hw List.not_mem_nil
  | (k, v) :: rest =>
    rw [entriesJsonForm] at h
    obtain ⟨name, -, h⟩ := exists_of_bind_eq_ok h
    obtain ⟨w, hw, h⟩ := exists_of_bind_eq_ok h
    obtain ⟨ws', hrest, h⟩ := exists_of_bind_eq_ok h
    cases h
    rw [List.forall_mem_cons] at hentries
    exact List.forall_mem_cons.2 ⟨sendable_of_jsonForm v hentries.1 hw,
      sendable_of_entriesJsonForm rest hentries.2 hrest⟩
termination_by sizeOf entries

end

/-- Fields whose names hold no lone halves are their own JSON form if their values are. -/
theorem jsonForm_object {fields : Fields}
    (hnames : (fields.map Prod.fst).all (fun name => !holdsHalf name) = true)
    (hvalues : ∀ v ∈ fields.map Prod.snd, v.jsonForm = .ok v) :
    (object fields).jsonForm = .ok (object fields) := by
  rw [jsonForm, fieldsJsonForm_of_forall fun f hf => ⟨?_, hvalues _ (List.mem_map_of_mem hf)⟩]
  · rfl
  · have hname := List.all_eq_true.1 hnames _ (List.mem_map_of_mem hf)
    rwa [Bool.not_eq_true'] at hname

/-- Fields that are their own JSON form can be sent if their values can be. -/
theorem sendable_of_values {fields : Fields} (h : (object fields).jsonForm = .ok (object fields))
    (hvalues : ∀ v ∈ fields.map Prod.snd, v.Sendable) : (object fields).Sendable := by
  rw [jsonForm] at h
  obtain ⟨ws, hws, heq⟩ := exists_of_bind_eq_ok h
  cases heq
  exact sendable_object.2 fun f hf =>
    ⟨(isJsonField_of_fieldsJsonForm fields hws f hf).1, hvalues _ (List.mem_map_of_mem hf)⟩

/-- What may be absent is its own JSON form if it is where it is there. -/
theorem jsonForm_ofOption {α : Type} {json : α → Value} (h : ∀ a, (json a).jsonForm = .ok (json a))
    (o : Option α) : (ofOption json o).jsonForm = .ok (ofOption json o) := by
  cases o with
  | none => rfl
  | some a => exact h a

/-- What may be absent can be sent if it can be where it is there. -/
theorem sendable_ofOption {α : Type} {json : α → Value} {o : Option α}
    (h : ∀ a, o = some a → (json a).Sendable) : (ofOption json o).Sendable := by
  cases o with
  | none => rfl
  | some a => exact h a rfl

end Value

/-! ## Answers -/

open Value

theorem Uuid.sendable_json (u : Uuid) : u.json.Sendable := sendable_str.2 u.holdsHalf_text

theorem Decimal.sendable_json (d : Decimal) : d.json.Sendable := sendable_str.2 d.holdsHalf_text

theorem Instant.sendable_json (t : Instant) : t.json.Sendable := sendable_str.2 t.holdsHalf_zuluText

namespace Reward

variable {r : Reward} {v : Value}

/-- What a reward is in JSON is its own JSON form. -/
theorem jsonForm_json (h : r.json = .ok v) : v.jsonForm = .ok v := by
  obtain ⟨metadata, hmetadata, h⟩ := exists_of_bind_eq_ok h
  cases h
  refine jsonForm_object (show (["id", "idempotency_key", "referrer_id", "referred_id", "status",
    "amount", "currency", "metadata", "created_at", "confirmed_at", "paid_at", "reversed_at",
    "reversal_reason"].all fun name => !holdsHalf name) = true by decide +kernel) ?_
  simp only [List.map_cons, List.map_nil, List.forall_mem_cons]
  have hinstant : ∀ o : Option Instant, (Value.ofOption Instant.json o).jsonForm =
      .ok (Value.ofOption Instant.json o) := jsonForm_ofOption fun _ => rfl
  exact ⟨rfl, rfl, rfl, rfl, rfl, rfl, rfl, jsonForm_of_jsonForm _ hmetadata, rfl, hinstant _,
    hinstant _, hinstant _, jsonForm_ofOption (fun _ => rfl) _, fun v hv => absurd hv List.not_mem_nil⟩

/-- A reward can be sent if its key, its currency, its particulars and the reason for which it was
taken back can be. -/
theorem sendable_json (h : r.json = .ok v) (hkey : holdsHalf r.idempotencyKey = false)
    (hcurrency : holdsHalf r.currency = false) (hmetadata : r.metadata.Sendable)
    (hreason : ∀ s, r.reversalReason = some s → holdsHalf s = false) : v.Sendable := by
  have hown := jsonForm_json h
  obtain ⟨metadata, hjson, h⟩ := exists_of_bind_eq_ok h
  cases h
  have hstatus : holdsHalf r.status.name = false := by cases r.status <;> decide +kernel
  have hinstant : ∀ o : Option Instant, (Value.ofOption Instant.json o).Sendable := fun o =>
    sendable_ofOption fun t _ => t.sendable_json
  refine sendable_of_values hown ?_
  simp only [List.map_cons, List.map_nil, List.forall_mem_cons]
  exact ⟨r.id.sendable_json, sendable_str.2 hkey, r.referrerId.sendable_json,
    r.referredId.sendable_json, sendable_str.2 hstatus, r.amount.sendable_json,
    sendable_str.2 hcurrency, sendable_of_jsonForm _ hmetadata hjson, r.createdAt.sendable_json,
    hinstant _, hinstant _, hinstant _, sendable_ofOption fun s hs => sendable_str.2 (hreason s hs),
    fun v hv => absurd hv List.not_mem_nil⟩

end Reward

namespace LedgerEntry

variable {e : LedgerEntry} {v : Value}

/-- What an entry is in JSON is its own JSON form. -/
theorem jsonForm_json (h : e.json = .ok v) : v.jsonForm = .ok v := by
  obtain ⟨metadata, hmetadata, h⟩ := exists_of_bind_eq_ok h
  cases h
  refine jsonForm_object (show (["id", "user_id", "reward_id", "entry_type", "amount", "currency",
    "status", "reversal_of_entry_id", "metadata", "created_at"].all
      fun name => !holdsHalf name) = true by decide +kernel) ?_
  simp only [List.map_cons, List.map_nil, List.forall_mem_cons]
  have huuid : ∀ o : Option Uuid, (Value.ofOption Uuid.json o).jsonForm =
      .ok (Value.ofOption Uuid.json o) := jsonForm_ofOption fun _ => rfl
  exact ⟨rfl, rfl, huuid _, rfl, rfl, rfl, rfl, huuid _, jsonForm_of_jsonForm _ hmetadata, rfl,
    fun v hv => absurd hv List.not_mem_nil⟩

/-- An entry can be sent if its currency and its particulars can be. -/
theorem sendable_json (h : e.json = .ok v) (hcurrency : holdsHalf e.currency = false)
    (hmetadata : e.metadata.Sendable) : v.Sendable := by
  have hown := jsonForm_json h
  obtain ⟨metadata, hjson, h⟩ := exists_of_bind_eq_ok h
  cases h
  have htype : holdsHalf e.entryType.name = false := by cases e.entryType <;> decide +kernel
  have hstatus : holdsHalf e.status.name = false := by cases e.status <;> decide +kernel
  have huuid : ∀ o : Option Uuid, (Value.ofOption Uuid.json o).Sendable := fun o =>
    sendable_ofOption fun u _ => u.sendable_json
  refine sendable_of_values hown ?_
  simp only [List.map_cons, List.map_nil, List.forall_mem_cons]
  exact ⟨e.id.sendable_json, e.userId.sendable_json, huuid _, sendable_str.2 htype,
    e.amount.sendable_json, sendable_str.2 hcurrency, sendable_str.2 hstatus, huuid _,
    sendable_of_jsonForm _ hmetadata hjson, e.createdAt.sendable_json,
    fun v hv => absurd hv List.not_mem_nil⟩

end LedgerEntry

namespace CreditResult

variable {r : CreditResult} {v : Value}

/-- What an answer is in JSON is its own JSON form. -/
theorem jsonForm_json (h : r.json = .ok v) : v.jsonForm = .ok v := by
  obtain ⟨reward, hreward, h⟩ := exists_of_bind_eq_ok h
  obtain ⟨entry, hentry, h⟩ := exists_of_bind_eq_ok h
  cases h
  refine jsonForm_object (show (["reward", "ledger_entry", "replayed"].all
    fun name => !holdsHalf name) = true by decide +kernel) ?_
  simp only [List.map_cons, List.map_nil, List.forall_mem_cons]
  exact ⟨Reward.jsonForm_json hreward, LedgerEntry.jsonForm_json hentry, rfl,
    fun v hv => absurd hv List.not_mem_nil⟩

/-- An answer can be sent if its reward and its entry can be. -/
theorem sendable_json (h : r.json = .ok v) (hreward : ∀ v, r.reward.json = .ok v → v.Sendable)
    (hentry : ∀ v, r.entry.json = .ok v → v.Sendable) : v.Sendable := by
  have hown := jsonForm_json h
  obtain ⟨reward, hr, h⟩ := exists_of_bind_eq_ok h
  obtain ⟨entry, he, h⟩ := exists_of_bind_eq_ok h
  cases h
  refine sendable_of_values hown ?_
  simp only [List.map_cons, List.map_nil, List.forall_mem_cons]
  exact ⟨hreward _ hr, hentry _ he, rfl, fun v hv => absurd hv List.not_mem_nil⟩

end CreditResult

end RewardLedger
