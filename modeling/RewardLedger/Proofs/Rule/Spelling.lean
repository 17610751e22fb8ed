import RewardLedger.Proofs.Number.DecimalText
import RewardLedger.Rule.ConditionReader

/-!
# The types of the older form

The type of an object in the older form names a connective if its text does so in letters of any case.
Values of other kinds have texts too, but none of them names a connective
(`Shape.olderConnective?_eq_some_iff`): apart from a number that is none, such a text has a character
that stands in neither name.
-/

namespace RewardLedger

/-- The value is a text that spells the word in letters of any case. -/
def Value.Spells (v : Value) (word : String) : Prop :=
  ∃ s, v = .str s ∧ String.ofList (s.toList.map Char.toUpper) = word

/-- The character stands in the name of no connective. -/
def IsStray (ch : Char) : Prop := ch.toUpper ∉ "ANDOR".toList

instance (ch : Char) : Decidable (IsStray ch) := inferInstanceAs (Decidable (_ ∉ _))

/-- A digit stands in the name of no connective. -/
theorem isStray_of_mem_digitChars {ch : Char} (h : ch ∈ digitChars) : IsStray ch := by
  have hall : ∀ d ∈ digitChars, IsStray d := forall_of_all (by decide)
  exact hall ch h

/-- The text of a number has a character that stands in the name of no connective. -/
theorem exists_isStray_natText (n : Nat) : ∃ ch ∈ natText n, IsStray ch := by
  have hlength : 0 < (natText n).length := by
    rw [length_natText]
    exact digitCount_pos n
  obtain ⟨ch, hch⟩ := List.exists_mem_of_length_pos hlength
  exact ⟨ch, hch, isStray_of_mem_digitChars (mem_natText hch)⟩

/-- The same of an integer. -/
theorem exists_isStray_intText (i : Int) : ∃ ch ∈ intText i, IsStray ch := by
  unfold intText
  split
  · exact ⟨'-', List.mem_cons_self, by decide⟩
  · exact exists_isStray_natText _

/-- The same of a floating point number. -/
theorem Binary64.exists_isStray_layout (digits : List Char) (order : Int) :
    ∃ ch ∈ layout digits order, IsStray ch := by
  unfold layout
  split
  · refine ⟨'.', ?_, by decide⟩
    split
    · simp
    · dsimp only
      split
      · simp
      · simp
  · exact ⟨'e', by simp, by decide⟩

/-- The text of a floating point number that is one has a character that stands in the name of no
connective. -/
theorem Binary64.exists_isStray_chars {x : Binary64} (h : x ≠ .nan) : ∃ ch ∈ x.chars, IsStray ch := by
  cases x with
  | nan => exact absurd rfl h
  | infinite negative => cases negative <;> exact ⟨'f', by decide, by decide⟩
  | finite negative m e =>
    unfold chars
    dsimp only
    by_cases hm : m = 0
    · rw [if_pos hm]
      exact ⟨'.', List.mem_append_right _ (by decide), by decide⟩
    · rw [if_neg hm]
      obtain ⟨ch, hch, hstray⟩ := exists_isStray_layout _ _
      exact ⟨ch, List.mem_append_right _ hch, hstray⟩

/-- The same of a decimal number, unless nothing is said but that it is none. -/
theorem Decimal.exists_isStray_chars (d : Decimal) :
    (∃ ch ∈ d.chars, IsStray ch) ∨ d.chars = "NaN".toList := by
  cases d with
  | finite negative c e =>
    obtain ⟨ch, rest, hdigit, htext, -⟩ := exists_magnitudeText_eq_cons c e
    refine .inl ⟨ch, ?_, isStray_of_mem_digitChars hdigit⟩
    rw [chars, htext]
    exact List.mem_append_right _ List.mem_cons_self
  | infinite negative => exact .inl ⟨'I', List.mem_append_right _ (by decide), by decide⟩
  | nan negative signaling payload =>
    rw [chars]
    by_cases hpayload : payload = 0
    · rw [if_pos hpayload]
      cases negative with
      | true => exact .inl ⟨'-', List.mem_cons_self, by decide⟩
      | false =>
        cases signaling with
        | true => exact .inl ⟨'s', List.mem_cons_self, by decide⟩
        | false => exact .inr rfl
    · rw [if_neg hpayload]
      obtain ⟨ch, hch, hstray⟩ := exists_isStray_natText payload
      exact .inl ⟨ch, List.mem_append_right _ hch, hstray⟩

namespace Value

/-- The text of a value that is no text itself is neither the name of a connective nor a spelling of
one. -/
theorem plain_ne_symbol {v : Value} (hv : ∀ s, v ≠ .str s) (c : Connective) :
    v.plain.map Char.toUpper ≠ c.symbol.toList := by
  intro heq
  have hstray : ∀ ch ∈ v.plain, ¬ IsStray ch := fun ch hch h => by
    have hmem : ch.toUpper ∈ c.symbol.toList := heq ▸ List.mem_map_of_mem hch
    have hletters : c.symbol.toList ⊆ "ANDOR".toList := by cases c <;> decide
    exact h (hletters hmem)
  have hnone : ∀ {cs : List Char}, v.plain = cs → cs.map Char.toUpper ≠ "NAN".toList := by
    rintro cs rfl hcs
    rw [heq] at hcs
    cases c <;> exact absurd hcs (by decide)
  -- each text shows a character that is in no name, or spells the absence of a number
  cases v with
  | str s => exact hv s rfl
  | null => exact hstray 'e' (by decide) (by decide)
  | bool b => cases b <;> exact hstray 'e' (by decide) (by decide)
  | int i =>
    obtain ⟨ch, hch, h⟩ := exists_isStray_intText i
    exact hstray ch hch h
  | float x =>
    by_cases hx : x = .nan
    · have hnan : (Value.float x).plain = "nan".toList := by rw [hx]; rfl
      exact hnone hnan (by decide)
    · obtain ⟨ch, hch, h⟩ := Binary64.exists_isStray_chars hx
      exact hstray ch hch h
  | decimal d =>
    rcases d.exists_isStray_chars with ⟨ch, hch, h⟩ | hd
    · exact hstray ch hch h
    · exact hnone hd (by decide)
  | uuid u =>
    have hlength := congrArg List.length heq
    rw [List.length_map, plain, Uuid.length_chars] at hlength
    cases c <;> exact absurd hlength (by decide)
  | instant t =>
    refine hstray ' ' ?_ (by decide)
    simp [plain, Instant.spacedText, Instant.localText]
  | list items => exact hstray '[' List.mem_cons_self (by decide)
  | tuple items => exact hstray '(' List.mem_cons_self (by decide)
  | object fields => exact hstray '\x7b' List.mem_cons_self (by decide)
  | map entries => exact hstray '\x7b' List.mem_cons_self (by decide)
  | opaqueThing => exact hstray '<' (by decide) (by decide)

end Value

/-- The symbol belongs to the connective that is found for it. -/
theorem Connective.symbol_of_ofSymbol? {symbol : String} {c : Connective}
    (h : ofSymbol? symbol = some c) : c.symbol = symbol := by
  unfold ofSymbol? at h
  split at h
  · next heq =>
    cases h
    exact heq.symm
  · split at h
    · next heq =>
      cases h
      exact heq.symm
    · cases h

/-- A type names a connective if and only if it is a text that spells its symbol. -/
theorem Shape.olderConnective?_eq_some_iff {kind : Value} {c : Connective} :
    olderConnective? kind = some c ↔ kind.Spells c.symbol := by
  unfold olderConnective?
  constructor
  · intro h
    have htext := Connective.symbol_of_ofSymbol? h
    by_cases hkind : ∃ s, kind = .str s
    · obtain ⟨s, rfl⟩ := hkind
      exact ⟨s, rfl, htext.symm⟩
    · refine absurd ?_ (Value.plain_ne_symbol (fun s hs => hkind ⟨s, hs⟩) c)
      rw [htext, String.toList_ofList]
  · rintro ⟨s, rfl, hs⟩
    rw [Value.plain, hs]
    exact Connective.ofSymbol?_symbol c

/-- A type spells one connective at most. -/
theorem Value.Spells.unique {kind : Value} {c c' : Connective} (h : kind.Spells c.symbol)
    (h' : kind.Spells c'.symbol) : c = c' :=
  Option.some.inj ((Shape.olderConnective?_eq_some_iff.2 h).symm.trans
    (Shape.olderConnective?_eq_some_iff.2 h'))

end RewardLedger
