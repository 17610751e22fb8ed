import Mathlib.Data.List.Forall2

/-!
# Computations that may fail

What follows from the success of a computation of several parts, and what working through a list
comes to when each of its items is asked for something that may fail. Keeping items is done with an
accumulator; `filterM_cons` says what it comes to item by item, and everything else about it is an
induction on the list.
-/

namespace RewardLedger

/-- A computation of two parts succeeds only if both do. -/
theorem exists_of_bind_eq_ok {ε α β : Type} {r : Except ε α} {f : α → Except ε β} {y : β}
    (h : (r >>= f) = .ok y) : ∃ a, r = .ok a ∧ f a = .ok y := by
  cases r with
  | ok a => exact ⟨a, rfl, h⟩
  | error e => cases h

/-- A computation of two parts fails as one of them does. -/
theorem of_bind_eq_error {ε α β : Type} {r : Except ε α} {f : α → Except ε β} {e : ε}
    (h : (r >>= f) = .error e) : r = .error e ∨ ∃ a, r = .ok a ∧ f a = .error e := by
  cases r with
  | ok a => exact .inr ⟨a, rfl, h⟩
  | error e' =>
    cases h
    exact .inl rfl

/-- A list that is worked through with success gives one result for each item. -/
theorem forall₂_of_mapM_eq_ok {ε α β : Type} {f : α → Except ε β} {items : List α}
    {results : List β} (h : items.mapM f = .ok results) :
    List.Forall₂ (fun a y => f a = .ok y) items results := by
  induction items generalizing results with
  | nil =>
    cases h
    exact .nil
  | cons a rest ih =>
    rw [List.mapM_cons] at h
    obtain ⟨y, hy, h⟩ := exists_of_bind_eq_ok h
    obtain ⟨ys, hys, h⟩ := exists_of_bind_eq_ok h
    cases h
    exact .cons hy (ih hys)

/-- Items each of which leads to its result lead to the results. -/
theorem mapM_eq_ok {ε α β : Type} {f : α → Except ε β} {items : List α} {results : List β}
    (h : List.Forall₂ (fun a r => f a = .ok r) items results) : items.mapM f = .ok results := by
  induction h with
  | nil => rfl
  | cons ha _ ih =>
    rw [List.mapM_cons, ha, ih]
    rfl

/-- A list is worked through with success if and only if each of its items leads to a result. -/
theorem exists_mapM_iff {ε α β : Type} {f : α → Except ε β} {items : List α} :
    (∃ results, items.mapM f = .ok results) ↔ ∀ a ∈ items, ∃ y, f a = .ok y := by
  constructor
  · rintro ⟨results, h⟩ a ha
    have hall := forall₂_of_mapM_eq_ok h
    clear h
    induction hall with
    | nil => cases ha
    | @cons a' y _ _ hy _ ih =>
      rcases List.mem_cons.1 ha with rfl | ha
      · exact ⟨y, hy⟩
      · exact ih ha
  · intro h
    induction items with
    | nil => exact ⟨[], rfl⟩
    | cons a rest ih =>
      obtain ⟨y, hy⟩ := h a List.mem_cons_self
      obtain ⟨ys, hys⟩ := ih fun b hb => h b (List.mem_cons_of_mem a hb)
      refine ⟨y :: ys, ?_⟩
      rw [List.mapM_cons, hy, hys]
      rfl

/-- A list is worked through with success if its parts around an item are, and the item. -/
theorem mapM_append_cons_eq_ok_iff {ε α β : Type} {f : α → Except ε β} {before after : List α} {a : α}
    {results : List β} :
    (before ++ a :: after).mapM f = .ok results ↔
      ∃ ys y zs, before.mapM f = .ok ys ∧ f a = .ok y ∧ after.mapM f = .ok zs ∧
        results = ys ++ y :: zs := by
  rw [List.mapM_append, List.mapM_cons]
  constructor
  · intro h
    obtain ⟨ys, hys, h⟩ := exists_of_bind_eq_ok h
    obtain ⟨rest, hrest, h⟩ := exists_of_bind_eq_ok h
    obtain ⟨y, hy, hrest⟩ := exists_of_bind_eq_ok hrest
    obtain ⟨zs, hzs, hrest⟩ := exists_of_bind_eq_ok hrest
    cases hrest
    cases h
    exact ⟨ys, y, zs, hys, hy, hzs, rfl⟩
  · rintro ⟨ys, y, zs, hys, hy, hzs, rfl⟩
    rw [hys, hy, hzs]
    rfl

/-! ## Keeping items -/

/-- What is kept from here on stands before what was kept so far. -/
theorem filterAuxM_eq {ε α : Type} (keep : α → Except ε Bool) (items acc : List α) :
    items.filterAuxM keep acc = (items.filterAuxM keep []).map (· ++ acc) := by
  induction items generalizing acc with
  | nil => rfl
  | cons a rest ih =>
    rw [List.filterAuxM, List.filterAuxM]
    cases keep a with
    | error e => rfl
    | ok yes =>
      show rest.filterAuxM keep (cond yes (a :: acc) acc) =
        (rest.filterAuxM keep (cond yes [a] [])).map (· ++ acc)
      rw [ih (cond yes (a :: acc) acc), ih (cond yes [a] [])]
      cases rest.filterAuxM keep [] with
      | error e => rfl
      | ok kept => cases yes <;> simp [Except.map]

/-- An item is asked first, and then the ones after it. -/
theorem filterM_cons {ε α : Type} (keep : α → Except ε Bool) (a : α) (rest : List α) :
    (a :: rest).filterM keep = (do
      let yes ← keep a
      let kept ← rest.filterM keep
      pure (cond yes (a :: kept) kept)) := by
  rw [List.filterM, List.filterM, List.filterAuxM]
  cases keep a with
  | error e => rfl
  | ok yes =>
    show (do pure (← rest.filterAuxM keep (cond yes [a] [])).reverse : Except ε (List α)) = _
    rw [filterAuxM_eq]
    cases rest.filterAuxM keep [] with
    | error e => rfl
    | ok kept => cases yes <;> simp [Except.map, bind, Except.bind, pure, Except.pure]

/-- Keeping items by a question that all of them answer keeps those that answer yes. -/
theorem filterM_eq_ok {ε α : Type} {keep : α → Except ε Bool} {p : α → Bool} {items : List α}
    (h : ∀ a ∈ items, keep a = .ok (p a)) : items.filterM keep = .ok (items.filter p) := by
  induction items with
  | nil => rfl
  | cons a rest ih =>
    rw [filterM_cons, h a List.mem_cons_self, ih fun b hb => h b (List.mem_cons_of_mem a hb)]
    cases hpa : p a with
    | true =>
      rw [List.filter_cons_of_pos hpa]
      rfl
    | false =>
      rw [List.filter_cons_of_neg (by rw [hpa]; decide)]
      rfl

/-- Keeping items by a question that may fail keeps some of them, in order. -/
theorem sublist_of_filterM {ε α : Type} {keep : α → Except ε Bool} {items kept : List α}
    (h : items.filterM keep = .ok kept) : kept.Sublist items := by
  induction items generalizing kept with
  | nil =>
    cases h
    exact .refl _
  | cons a rest ih =>
    rw [filterM_cons] at h
    obtain ⟨yes, -, h⟩ := exists_of_bind_eq_ok h
    obtain ⟨more, hmore, h⟩ := exists_of_bind_eq_ok h
    cases h
    cases yes with
    | true => exact (ih hmore).cons_cons a
    | false => exact (ih hmore).cons a

/-- Keeping items by what a function makes of them keeps what it makes of them. -/
theorem map_filterM {ε α β : Type} (f : α → β) (keep : β → Except ε Bool) (items : List α) :
    (items.filterM fun a => keep (f a)).map (List.map f) = (items.map f).filterM keep := by
  induction items with
  | nil => rfl
  | cons a rest ih =>
    rw [List.map_cons, filterM_cons, filterM_cons, ← ih]
    cases keep (f a) with
    | error e => rfl
    | ok yes =>
      cases rest.filterM fun a => keep (f a) with
      | error e => rfl
      | ok kept => cases yes <;> rfl

/-- Where the items stand for others that answer the question, the items of those that answer yes are
kept. -/
theorem exists_filterM {ε α β : Type} {R : α → β → Prop} {keep : α → Except ε Bool} {p : β → Bool}
    (hp : ∀ a b, R a b → keep a = .ok (p b)) {items : List α} {records : List β}
    (h : List.Forall₂ R items records) :
    ∃ kept, items.filterM keep = .ok kept ∧ List.Forall₂ R kept (records.filter p) := by
  induction h with
  | nil => exact ⟨[], rfl, .nil⟩
  | @cons a b rest records hab _ ih =>
    obtain ⟨kept, hkept, hrows⟩ := ih
    rw [filterM_cons, hp a b hab, hkept]
    cases hpb : p b with
    | true =>
      rw [List.filter_cons_of_pos hpb]
      exact ⟨a :: kept, rfl, .cons hab hrows⟩
    | false =>
      rw [List.filter_cons_of_neg (by rw [hpb]; decide)]
      exact ⟨kept, rfl, hrows⟩

end RewardLedger
