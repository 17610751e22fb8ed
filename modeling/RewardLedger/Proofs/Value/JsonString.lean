import RewardLedger.Proofs.Uuid
import RewardLedger.Proofs.Value.Json
import RewardLedger.Value.JsonText

/-!
# Texts are read back from JSON

A text is written in JSON character by character, as itself, as an escape of its own or as one or two
units of 16 bits, and read unit by unit; both agree on the units of a character (`Text.charUnits`,
`JsonText.stringUnits_jsonChar`). Unless a text holds lone halves of surrogate pairs, which could join
to pairs, its units determine it (`Text.ofUnits_flatMap_charUnits`), so it is read back from its JSON
form, whatever follows (`JsonText.readValue_jsonString`). Hence the JSON form of no such text begins
that of another one (`Value.jsonString_append_inj`).
-/

namespace RewardLedger

/-! ## Units -/

namespace Text

/-- The units of 16 bits of a character: one, or two if it is a pair. -/
def charUnits (c : Char) : List Nat :=
  match halfOf? c with
  | some half => [half]
  | none =>
    if c.toNat < 0x10000 then [c.toNat]
    else [0xD800 + (c.toNat - 0x10000) / 0x400, 0xDC00 + (c.toNat - 0x10000) % 0x400]

/-- A character is not beyond the last plane, and no half of a surrogate pair. -/
theorem toNat_valid (c : Char) : c.toNat < 0xD800 ∨ 0xDFFF < c.toNat ∧ c.toNat < 0x110000 := c.valid

/-- A unit that is the number of a character stands for the character. -/
theorem ofUnit_toNat (c : Char) : isHalf c.toNat = false ∧ ofUnit c.toNat = c := by
  have hhalf : isHalf c.toNat = false := by
    have hvalid := toNat_valid c
    simp only [isHalf, isHighHalf, isLowHalf, Bool.or_eq_false_iff, Bool.and_eq_false_iff,
      decide_eq_false_iff_not]
    omega
  refine ⟨hhalf, ?_⟩
  rw [ofUnit, hhalf]
  exact Char.ofNat_toNat c

/-- The units of a character that stands for no lone half give the character. -/
theorem ofUnits_charUnits {c : Char} (h : halfOf? c = none) (rest : List Nat) :
    ofUnits (charUnits c ++ rest) = c :: ofUnits rest := by
  rw [charUnits, h]
  dsimp only
  split
  · -- one unit, which is no half
    obtain ⟨hhalf, hunit⟩ := ofUnit_toNat c
    rw [List.singleton_append, ofUnits_cons (Bool.or_eq_false_iff.1 hhalf).1, hunit]
  · -- two units, which are the halves of a pair
    next hlarge =>
    have hvalid := toNat_valid c
    have hn : (c.toNat - 0x10000) / 0x400 < 0x400 := by omega
    have hr : (c.toNat - 0x10000) % 0x400 < 0x400 := Nat.mod_lt _ (by decide)
    have hpair : (isHighHalf (0xD800 + (c.toNat - 0x10000) / 0x400) &&
        isLowHalf (0xDC00 + (c.toNat - 0x10000) % 0x400)) = true := by
      simp only [isHighHalf, isLowHalf, Bool.and_eq_true, decide_eq_true_eq]
      omega
    have hjoined : 0x10000 + (0xD800 + (c.toNat - 0x10000) / 0x400 - 0xD800) * 0x400 +
        (0xDC00 + (c.toNat - 0x10000) % 0x400 - 0xDC00) = c.toNat := by
      omega
    rw [List.cons_append, List.singleton_append, ofUnits, if_pos hpair, paired, hjoined,
      Char.ofNat_toNat]

/-- The units of characters that stand for no lone halves give the characters. -/
theorem ofUnits_flatMap_charUnits {cs : List Char} (h : Whole cs) :
    ofUnits (cs.flatMap charUnits) = cs := by
  induction cs with
  | nil => rfl
  | cons c rest ih =>
    rw [List.flatMap_cons, ofUnits_charUnits (h c List.mem_cons_self),
      ih fun d hd => h d (List.mem_cons_of_mem _ hd)]

end Text

/-! ## Reading -/

namespace JsonText

open Text Value

variable {opening : Nat} {rest rest' : List Char} {units : List Nat}

/-- A unit that is written as an escape is read as the unit, if something follows. -/
theorem stringUnits_unitEscape {n : Nat} (hn : n < 0x10000) (hne : rest ≠ [])
    (h : stringUnits opening rest = .ok (units, rest')) :
    stringUnits opening (unitEscape n ++ rest) = .ok (n :: units, rest') := by
  obtain ⟨e, rest, rfl⟩ := List.exists_cons_of_ne_nil hne
  obtain ⟨ds, hread, hds⟩ := exists_mapM_hexText 4 n
  have hds : ofHex ds = n := hds.trans (Nat.mod_eq_of_lt hn)
  obtain ⟨a, b, c, d, htext⟩ : ∃ a b c d, hexText 4 n = [a, b, c, d] := ⟨_, _, _, _, rfl⟩
  rw [htext] at hread
  rw [unitEscape, htext]
  show stringUnits opening ('\\' :: 'u' :: a :: b :: c :: d :: e :: rest) = _
  rw [stringUnits, hread]
  simp only [h, hds]
  rfl

/-- A character that is written after a backslash is read as what it stands for. -/
theorem stringUnits_escape {c d : Char} (hd : escape? c = some d)
    (h : stringUnits opening rest = .ok (units, rest')) :
    stringUnits opening ('\\' :: c :: rest) = .ok (d.toNat :: units, rest') := by
  have hu : c ≠ 'u' := by
    rintro rfl
    cases hd
  rw [stringUnits.eq_6 _ _ _ (fun _ _ _ _ _ _ hc _ => hu hc) hu, hd]
  simp only [h]
  rfl

/-- A character that is written as itself is read as itself. -/
theorem stringUnits_plain {c : Char} (hquote : c ≠ '"') (hslash : c ≠ '\\') (hc : 0x20 ≤ c.toNat)
    (h : stringUnits opening rest = .ok (units, rest')) :
    stringUnits opening (c :: rest) = .ok (c.toNat :: units, rest') := by
  rw [stringUnits.eq_7 _ _ _ hquote (fun hs _ => hslash hs) (fun _ _ _ _ _ _ hs _ => hslash hs)
    (fun _ hs _ => hslash hs) (fun _ _ hs _ => hslash hs), if_neg (Nat.not_lt.2 hc), h]
  rfl

/-- What a character is written as is read as its units, if something follows. -/
theorem stringUnits_jsonChar (c : Char) (hne : rest ≠ [])
    (h : stringUnits opening rest = .ok (units, rest')) :
    stringUnits opening (jsonChar c ++ rest) = .ok (charUnits c ++ units, rest') := by
  have hvalid := toNat_valid c
  -- a character that has an escape of its own is one unit
  have hescape : ∀ {d e : Char}, c = e → escape? d = some e → charUnits e = [e.toNat] →
      stringUnits opening (['\\', d] ++ rest) = .ok (charUnits c ++ units, rest') := by
    rintro d e rfl hd hunits
    rw [hunits]
    exact stringUnits_escape hd h
  unfold jsonChar
  split
  · next hspecial =>
    rcases hspecial with rfl | rfl
    · exact hescape rfl rfl rfl
    · exact hescape rfl rfl rfl
  split
  · next hc => exact hescape hc rfl rfl
  split
  · next hc => exact hescape hc rfl rfl
  split
  · next hc => exact hescape hc rfl rfl
  split
  · next hc => exact hescape hc rfl rfl
  split
  · next hc => exact hescape hc rfl rfl
  split
  · next hspecial _ _ _ _ _ hprintable =>
    have hhalf : halfOf? c = none := if_neg fun hlarge => by omega
    rw [charUnits, hhalf]
    dsimp only
    rw [if_pos (by omega)]
    exact stringUnits_plain (fun hc => hspecial (.inl hc)) (fun hc => hspecial (.inr hc))
      hprintable.1 h
  · unfold escapedChar charUnits
    cases hhalf : halfOf? c with
    | some half =>
      have hsmall : half < 0x10000 := by
        unfold halfOf? at hhalf
        split at hhalf
        · rw [← Option.some.inj hhalf]
          omega
        · cases hhalf
      exact stringUnits_unitEscape hsmall hne h
    | none =>
      dsimp only
      split
      · next hsmall => exact stringUnits_unitEscape hsmall hne h
      · have hr : (c.toNat - 0x10000) % 0x400 < 0x400 := Nat.mod_lt _ (by decide)
        rw [List.append_assoc]
        refine stringUnits_unitEscape (by omega) ?_ (stringUnits_unitEscape (by omega) hne h)
        exact List.append_ne_nil_of_left_ne_nil (List.cons_ne_nil _ _) rest

/-- What a text is written as is read as its units, up to the quote that closes it. -/
theorem stringUnits_flatMap_jsonChar (opening : Nat) (cs rest : List Char) :
    stringUnits opening (cs.flatMap jsonChar ++ '"' :: rest) =
      .ok (cs.flatMap charUnits, rest) := by
  induction cs with
  | nil => rw [List.flatMap_nil, List.nil_append, stringUnits, List.flatMap_nil]
  | cons c cs ih =>
    rw [List.flatMap_cons, List.flatMap_cons, List.append_assoc]
    exact stringUnits_jsonChar c (List.append_ne_nil_of_right_ne_nil _ (List.cons_ne_nil _ _)) ih

/-- A text without lone halves is read back from its JSON form, whatever follows. -/
theorem readValue_jsonString {s : String} (hs : holdsHalf s = false) (fuel room : Nat)
    (rest : List Char) :
    readValue (fuel + 1) room (jsonString s ++ rest) = .ok (.str s, rest) := by
  have hread : readString (s.toList.flatMap jsonChar ++ '"' :: rest) = .ok (s, rest) := by
    rw [readString, stringUnits_flatMap_jsonChar]
    show Except.ok (String.ofList (ofUnits (s.toList.flatMap charUnits)), rest) = _
    rw [ofUnits_flatMap_charUnits (holdsHalf_eq_false_iff.1 hs), String.ofList_toList]
  rw [jsonString, List.append_assoc, List.cons_append, List.singleton_append, readValue, hread]
  rfl

end JsonText

/-- Texts without lone halves, each written in JSON with something behind it, are told apart. -/
theorem Value.jsonString_append_inj {s s' : String} (hs : Text.holdsHalf s = false)
    (hs' : Text.holdsHalf s' = false) {rest rest' : List Char}
    (h : jsonString s ++ rest = jsonString s' ++ rest') : s = s' ∧ rest = rest' := by
  have hread := JsonText.readValue_jsonString hs 0 0 rest
  rw [h, JsonText.readValue_jsonString hs' 0 0 rest', Except.ok.injEq, Prod.mk.injEq,
    Value.str.injEq] at hread
  exact ⟨hread.1.symm, hread.2.symm⟩

end RewardLedger
