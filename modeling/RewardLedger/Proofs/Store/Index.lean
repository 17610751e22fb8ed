import RewardLedger.Proofs.Store.Key
import RewardLedger.Store.Table

/-!
# Indexes as partial functions

What an index answers after a row was added or removed, for keys of one kind. From this follows the
one property that tables keep of their indexes: looking a key up gives the primary key of the row
that has it (`Index.Sound`). The property survives whenever a row comes that shares its key with no
other row, and whenever a row goes.
-/

namespace RewardLedger

/-! ## The keys of a row -/

/-- The key that a row has in these columns, if none of them is null. -/
def Fields.keyIn? (row : Fields) (columns : List String) : Option (List Value) :=
  let key := columns.map row.get
  if key.any Value.isNull then none else some key

/-- The row has that key in these columns. -/
def Fields.hasKey (row : Fields) (columns : List String) (key : List Value) : Bool :=
  (row.keyIn? columns).any (Value.sameKeys · key)

/-- In each of these columns the row has null or a value of the kind. -/
def Fields.FitsKey (K : Value → Prop) (row : Fields) (columns : List String) : Prop :=
  ∀ c ∈ columns, KeyKind.OrNull K (row.get c)

section

variable {K : Value → Prop} {row : Fields} {columns : List String} {key : List Value}

/-- A column that is not among the others does not matter for the key. -/
theorem Fields.keyIn?_put_of_notMem {name : String} (h : name ∉ columns) (v : Value) :
    (row.put name v).keyIn? columns = row.keyIn? columns := by
  have hmap : columns.map (row.put name v).get = columns.map row.get := by
    refine List.map_congr_left fun c hc => ?_
    have hne : c ≠ name := fun hcn => h (hcn ▸ hc)
    exact Fields.get_put_of_ne row v hne
  rw [Fields.keyIn?, Fields.keyIn?, hmap]

/-- A column that is not among the others does not matter for the kind of the key. -/
theorem Fields.FitsKey.put (hf : row.FitsKey K columns) {name : String} (h : name ∉ columns)
    (v : Value) : (row.put name v).FitsKey K columns := by
  intro c hc
  have hne : c ≠ name := fun hcn => h (hcn ▸ hc)
  rw [KeyKind.OrNull, Fields.get_put_of_ne row v hne]
  exact hf c hc

/-- The key of a row that fits is of the kind. -/
theorem Fields.FitsKey.all (h : row.FitsKey K columns) (hk : row.keyIn? columns = some key) :
    KeyKind.All K key := by
  unfold Fields.keyIn? at hk
  simp only [Option.ite_none_left_eq_some, Option.some.injEq] at hk
  obtain ⟨hn, rfl⟩ := hk
  intro v hv
  obtain ⟨c, hc, rfl⟩ := List.mem_map.1 hv
  rcases h c hc with h0 | hK
  · refine absurd (List.any_eq_true.2 ⟨row.get c, hv, ?_⟩) hn
    rw [h0]
    rfl
  · exact hK

/-- The key that the row has in these columns, if it has one, is of the kind. -/
def Fields.KeyFits (K : Value → Prop) (row : Fields) (columns : List String) : Prop :=
  ∀ key, row.keyIn? columns = some key → KeyKind.All K key

/-- A row fits by its key if each of its columns does. -/
theorem Fields.FitsKey.keyFits (h : row.FitsKey K columns) : row.KeyFits K columns :=
  fun _ hk => h.all hk

variable [KeyKind K]

/-- A row that has a key has every key that is the same. -/
theorem Fields.KeyFits.hasKey_congr {other : List Value} (h : row.KeyFits K columns)
    (hk : KeyKind.All K key) (ho : KeyKind.All K other) (h1 : row.hasKey columns key = true)
    (hs : Value.sameKeys key other = true) : row.hasKey columns other = true := by
  unfold Fields.hasKey at h1 ⊢
  cases hr : row.keyIn? columns with
  | none => simp [hr] at h1
  | some own =>
    rw [hr] at h1
    exact KeyKind.sameKeys_trans (h own hr) hk ho h1 hs

end

namespace Index

variable {K : Value → Prop}

/-- The key of a row in an index is its key in the columns of the index. -/
theorem keyOf?_eq (ix : Index) (row : Fields) : ix.keyOf? row = row.keyIn? ix.columns := rfl

/-- All keys that are taken are of the kind. -/
def Regular (K : Value → Prop) (ix : Index) : Prop := ∀ e ∈ ix.entries, KeyKind.All K e.1

/-- Entering a key of the kind keeps all keys of the kind. -/
theorem all_enter {entries : List (List Value × Value)} {key : List Value} {pk : Value}
    (he : ∀ e ∈ entries, KeyKind.All K e.1) (hk : KeyKind.All K key) :
    ∀ e ∈ enter entries key pk, KeyKind.All K e.1 := by
  induction entries with
  | nil =>
    intro e h
    rw [enter, List.mem_singleton] at h
    rw [h]
    exact hk
  | cons first rest ih =>
    intro e h
    have hrest := fun e h => he e (List.mem_cons_of_mem first h)
    rw [enter] at h
    split at h
    · rcases List.mem_cons.1 h with rfl | h
      · exact he first List.mem_cons_self
      · exact hrest e h
    · rcases List.mem_cons.1 h with rfl | h
      · exact he _ List.mem_cons_self
      · exact ih hrest e h

/-- Removing a row keeps all keys of the kind. -/
theorem Regular.remove {ix : Index} {row : Fields} (h : ix.Regular K) :
    (ix.remove row).Regular K := by
  unfold Index.remove
  cases ix.keyOf? row with
  | none => exact h
  | some key => exact fun e he => h e ((List.mem_filter.1 he).1)

/-- Adding a row that fits keeps all keys of the kind. -/
theorem Regular.add {ix : Index} {row : Fields} {pk : Value} (h : ix.Regular K)
    (hf : row.KeyFits K ix.columns) : (ix.add row pk).Regular K := by
  unfold Index.add
  rw [keyOf?_eq]
  cases hk : row.keyIn? ix.columns with
  | none => exact h
  | some key => exact all_enter h (hf key hk)

/-- Two searches of a list find the same if they look for the same among its items. -/
theorem find?_congr {α : Type} {p q : α → Bool} {items : List α} (h : ∀ a ∈ items, p a = q a) :
    items.find? p = items.find? q := by
  induction items with
  | nil => rfl
  | cons a rest ih =>
    rw [List.find?_cons, List.find?_cons, h a List.mem_cons_self,
      ih fun b hb => h b (List.mem_cons_of_mem a hb)]

/-! ## Agreement with the rows -/

/-- Looking a key of the kind up in the index gives what a row that has it is entered with. -/
structure Lists (K : Value → Prop) (entered : Row → Value) (ix : Index) (rows : List Row) :
    Prop where
  /-- The keys that are taken are of the kind. -/
  regular : ix.Regular K
  /-- A key leads to what a row that has it is entered with, and to nothing else. -/
  find_iff : ∀ key, KeyKind.All K key → ∀ pk,
    ix.find? key = some pk ↔ ∃ r ∈ rows, r.columns.hasKey ix.columns key = true ∧ entered r = pk

/-- A key leads to nothing if no row has it. -/
theorem Lists.find_eq_none {entered : Row → Value} {ix : Index} {rows : List Row}
    (h : ix.Lists K entered rows) {key : List Value} (hk : KeyKind.All K key) :
    ix.find? key = none ↔ ∀ r ∈ rows, r.columns.hasKey ix.columns key = false := by
  rw [Option.eq_none_iff_forall_ne_some]
  constructor
  · intro hn r hr
    rw [Bool.eq_false_iff]
    exact fun hc => hn (entered r) ((h.find_iff key hk _).2 ⟨r, hr, hc, rfl⟩)
  · intro hf pk hc
    obtain ⟨r, hr, hh, -⟩ := (h.find_iff key hk pk).1 hc
    rw [hf r hr] at hh
    cases hh

/-- Looking a key of the kind up in the index gives the primary key of the row that has it. -/
structure Sound (K : Value → Prop) (ix : Index) (rows : List Row) : Prop where
  /-- The keys that are taken are of the kind. -/
  regular : ix.Regular K
  /-- A key leads to the primary key of a row that has it, and to nothing else. -/
  find_iff : ∀ key, KeyKind.All K key → ∀ pk,
    ix.find? key = some pk ↔ ∃ r ∈ rows, r.columns.hasKey ix.columns key = true ∧ r.key = pk

/-- An index that agrees with the rows lists them with their primary keys. -/
theorem sound_iff {ix : Index} {rows : List Row} : ix.Sound K rows ↔ ix.Lists K Row.key rows :=
  ⟨fun h => ⟨h.regular, h.find_iff⟩, fun h => ⟨h.regular, h.find_iff⟩⟩

/-- A key leads to nothing if no row has it. -/
theorem Sound.find_eq_none {ix : Index} {rows : List Row} (h : ix.Sound K rows)
    {key : List Value} (hk : KeyKind.All K key) :
    ix.find? key = none ↔ ∀ r ∈ rows, r.columns.hasKey ix.columns key = false :=
  (sound_iff.1 h).find_eq_none hk

/-! ## Looking up -/

variable [KeyKind K]

/-- Entering a key changes the answer for the keys that are the same, and for no others. -/
theorem find?_enter (entries : List (List Value × Value)) (key other : List Value) (pk : Value)
    (he : ∀ e ∈ entries, KeyKind.All K e.1) (hk : KeyKind.All K key) (ho : KeyKind.All K other) :
    ((enter entries key pk).find? fun e => Value.sameKeys e.1 other).map Prod.snd =
      if Value.sameKeys key other then some pk
      else (entries.find? fun e => Value.sameKeys e.1 other).map Prod.snd := by
  induction entries with
  | nil =>
    rw [enter, List.find?_singleton]
    split <;> rfl
  | cons e rest ih =>
    obtain ⟨k, p⟩ := e
    have hK : KeyKind.All K k := he _ List.mem_cons_self
    have ih := ih fun e h => he e (List.mem_cons_of_mem _ h)
    rw [enter]
    by_cases hkk : Value.sameKeys k key = true
    · -- the entry is replaced, and its key and the new one are the same as the same keys
      have hc := KeyKind.sameKeys_congr hK hk ho hkk
      rw [if_pos hkk, List.find?_cons, List.find?_cons, hc]
      cases Value.sameKeys key other <;> rfl
    · rw [if_neg hkk, List.find?_cons, List.find?_cons]
      by_cases hko : Value.sameKeys k other = true
      · -- an entry found before shows that the new key is another one
        have hne : ¬ Value.sameKeys key other = true := fun h =>
          hkk (KeyKind.sameKeys_trans hK ho hk hko (KeyKind.sameKeys_symm hk ho h))
        rw [hko, if_neg hne]
      · simp only [Bool.not_eq_true] at hko
        rw [hko]
        exact ih

/-- Adding a row changes the answer for the keys of the row, and for no others. -/
theorem find?_add {ix : Index} {row : Fields} {key : List Value} (pk : Value)
    (hr : ix.Regular K) (hf : row.KeyFits K ix.columns) (hk : KeyKind.All K key) :
    (ix.add row pk).find? key =
      if row.hasKey ix.columns key then some pk else ix.find? key := by
  unfold add Fields.hasKey
  rw [keyOf?_eq]
  cases h : row.keyIn? ix.columns with
  | none => rfl
  | some own => exact find?_enter ix.entries own key pk hr (hf own h) hk

/-- Removing a row takes away the answer for the keys of the row, and for no others. -/
theorem find?_remove {ix : Index} {row : Fields} {key : List Value} (hr : ix.Regular K)
    (hf : row.KeyFits K ix.columns) (hk : KeyKind.All K key) :
    (ix.remove row).find? key = if row.hasKey ix.columns key then none else ix.find? key := by
  unfold remove Fields.hasKey
  rw [keyOf?_eq]
  cases h : row.keyIn? ix.columns with
  | none => rfl
  | some own =>
    have ho : KeyKind.All K own := hf own h
    simp only [find?, List.find?_filter, Option.any_some]
    by_cases hs : Value.sameKeys own key = true
    · rw [if_pos hs, Option.map_eq_none_iff, List.find?_eq_none]
      intro e he hc
      simp only [Bool.not_eq_true', decide_eq_true_eq] at hc
      have hoe := KeyKind.sameKeys_trans (hr e he) hk ho hc.2 (KeyKind.sameKeys_symm ho hk hs)
      rw [hc.1] at hoe
      cases hoe
    · rw [if_neg hs]
      congr 1
      -- no entry with the wanted key is among those that are taken away
      refine find?_congr fun e he => ?_
      by_cases hek : Value.sameKeys e.1 key = true
      · have hne : ¬ Value.sameKeys e.1 own = true := fun h' => hs
          (KeyKind.sameKeys_trans ho (hr e he) hk (KeyKind.sameKeys_symm (hr e he) ho h') hek)
        simp [hek, hne]
      · simp [hek]

/-! ## Rows that come and go -/

/-- An index goes on listing the rows when one comes whose key no other has. -/
theorem Lists.add {entered : Row → Value} {ix : Index} {rows rows' : List Row} {row : Row}
    (h : ix.Lists K entered rows) (hf : row.columns.KeyFits K ix.columns)
    (hd : ∀ key, KeyKind.All K key → row.columns.hasKey ix.columns key = true →
      ∀ r ∈ rows, r.columns.hasKey ix.columns key = false)
    (hm : ∀ r, r ∈ rows' ↔ r ∈ rows ∨ r = row) :
    (ix.add row.columns (entered row)).Lists K entered rows' := by
  refine ⟨h.regular.add hf, fun key hk pk => ?_⟩
  rw [find?_add (entered row) h.regular hf hk, columns_add]
  by_cases hh : row.columns.hasKey ix.columns key = true
  · rw [if_pos hh, Option.some.injEq]
    constructor
    · exact fun hpk => ⟨row, (hm row).2 (Or.inr rfl), hh, hpk⟩
    · rintro ⟨r, hr, hrk, rfl⟩
      rcases (hm r).1 hr with hr | rfl
      · rw [hd key hk hh r hr] at hrk
        cases hrk
      · rfl
  · rw [if_neg hh, h.find_iff key hk pk]
    constructor
    · exact fun ⟨r, hr, hrk⟩ => ⟨r, (hm r).2 (Or.inl hr), hrk⟩
    · rintro ⟨r, hr, hrk, hpk⟩
      rcases (hm r).1 hr with hr | rfl
      · exact ⟨r, hr, hrk, hpk⟩
      · exact absurd hrk hh

/-- An index goes on listing the rows when one goes. -/
theorem Lists.remove {entered : Row → Value} {ix : Index} {rows rows' : List Row} {row : Row}
    (h : ix.Lists K entered rows) (hf : row.columns.KeyFits K ix.columns)
    (hd : ∀ key, KeyKind.All K key → row.columns.hasKey ix.columns key = true →
      ∀ r ∈ rows', r.columns.hasKey ix.columns key = false)
    (hm : ∀ r, r ∈ rows ↔ r ∈ rows' ∨ r = row) :
    (ix.remove row.columns).Lists K entered rows' := by
  refine ⟨h.regular.remove, fun key hk pk => ?_⟩
  rw [find?_remove h.regular hf hk, columns_remove]
  by_cases hh : row.columns.hasKey ix.columns key = true
  · rw [if_pos hh]
    refine ⟨fun hc => (Option.some_ne_none pk hc.symm).elim, ?_⟩
    rintro ⟨r, hr, hrk, -⟩
    rw [hd key hk hh r hr] at hrk
    cases hrk
  · rw [if_neg hh, h.find_iff key hk pk]
    constructor
    · rintro ⟨r, hr, hrk, hpk⟩
      rcases (hm r).1 hr with hr | rfl
      · exact ⟨r, hr, hrk, hpk⟩
      · exact absurd hrk hh
    · exact fun ⟨r, hr, hrk⟩ => ⟨r, (hm r).2 (Or.inl hr), hrk⟩

/-- An index goes on agreeing with the rows when one comes whose key no other has. -/
theorem Sound.add {ix : Index} {rows rows' : List Row} {row : Row} (h : ix.Sound K rows)
    (hf : row.columns.FitsKey K ix.columns)
    (hd : ∀ key, KeyKind.All K key → row.columns.hasKey ix.columns key = true →
      ∀ r ∈ rows, r.columns.hasKey ix.columns key = false)
    (hm : ∀ r, r ∈ rows' ↔ r ∈ rows ∨ r = row) :
    (ix.add row.columns row.key).Sound K rows' :=
  sound_iff.2 ((sound_iff.1 h).add hf.keyFits hd hm)

/-- An index goes on agreeing with the rows when one goes. -/
theorem Sound.remove {ix : Index} {rows rows' : List Row} {row : Row} (h : ix.Sound K rows)
    (hf : row.columns.FitsKey K ix.columns)
    (hd : ∀ key, KeyKind.All K key → row.columns.hasKey ix.columns key = true →
      ∀ r ∈ rows', r.columns.hasKey ix.columns key = false)
    (hm : ∀ r, r ∈ rows ↔ r ∈ rows' ∨ r = row) : (ix.remove row.columns).Sound K rows' :=
  sound_iff.2 ((sound_iff.1 h).remove hf.keyFits hd hm)

end Index

end RewardLedger
