import Mathlib.Algebra.Group.Nat.Defs
import RewardLedger.Uuid

/-!
# Reading identifiers back

An identifier is written as 32 hexadecimal digits in five groups, and both what the digits denote and
where the groups end can be read back: an identifier of 128 bits is what its text denotes
(`Uuid.ofText?_text`), and so determined by it (`Uuid.text_inj`).
-/

namespace RewardLedger

namespace Text

/-- One more hexadecimal digit at the end multiplies by sixteen and adds it. -/
theorem ofHex_append_singleton (ds : List Nat) (d : Nat) : ofHex (ds ++ [d]) = 16 * ofHex ds + d := by
  simp [ofHex]

/-- The last hexadecimal digits of a number denote its remainder. -/
theorem exists_mapM_hexText (width n : Nat) :
    ∃ ds, (hexText width n).mapM hexValue? = some ds ∧ ofHex ds = n % 16 ^ width := by
  induction width generalizing n with
  | zero => exact ⟨[], rfl, (Nat.mod_one n).symm⟩
  | succ width ih =>
    obtain ⟨ds, hread, hds⟩ := ih (n / 16)
    have hlast : [hexChar (n % 16)].mapM hexValue? = some [n % 16] := by
      rw [List.mapM_cons, hexValue?_hexChar (Nat.mod_lt n (by decide))]
      rfl
    refine ⟨ds ++ [n % 16], ?_, ?_⟩
    · rw [hexText, List.mapM_append, hread, hlast]
      rfl
    · rw [ofHex_append_singleton, hds, Nat.pow_succ', Nat.mod_mul, Nat.add_comm]

end Text

namespace Uuid

/-- The digits of five groups are read without the hyphens between them. -/
theorem ofHyphenated?_groups {a b c d e : List Char} (ha : a.length = 8) (hb : b.length = 4)
    (hc : c.length = 4) (hd : d.length = 4) (he : e.length = 12) :
    ofHyphenated? (a ++ '-' :: b ++ '-' :: c ++ '-' :: d ++ '-' :: e) =
      ofPlain? (a ++ b ++ c ++ d ++ e) := by
  have hlength : (a ++ '-' :: b ++ '-' :: c ++ '-' :: d ++ '-' :: e).length = 36 := by
    simp [ha, hb, hc, hd, he]
  have hhyphens : [8, 13, 18, 23].all (fun i =>
      (a ++ '-' :: b ++ '-' :: c ++ '-' :: d ++ '-' :: e)[i]? == some '-') = true := by
    simp [List.getElem?_append, ha, hb, hc, hd]
  rw [ofHyphenated?, if_pos ⟨hlength, hhyphens⟩]
  simp [List.drop_append, List.drop_of_length_le, ha, hb, hc, hd]

/-- An identifier of 128 bits is what its text denotes. -/
theorem ofText?_text {u : Uuid} (h : u.value < 2 ^ 128) : ofText? u.text = some u := by
  let ds := Text.hexText 32 u.value
  have hds : ds.length = 32 := Text.length_hexText 32 u.value
  have hgroups : ds.take 8 ++ (ds.drop 8).take 4 ++ (ds.drop 12).take 4 ++ (ds.drop 16).take 4 ++
      ds.drop 20 = ds := by
    have hjoin : ∀ i k, ds.take i ++ (ds.drop i).take k = ds.take (i + k) := fun i k =>
      List.take_add.symm
    rw [hjoin 8 4, hjoin 12 4, hjoin 16 4, List.take_append_drop]
  obtain ⟨values, hread, hvalues⟩ := Text.exists_mapM_hexText 32 u.value
  have hplain : ofPlain? ds = some u := by
    have hvalue : u.value % 16 ^ 32 = u.value := Nat.mod_eq_of_lt h
    rw [ofPlain?, if_pos hds, hread, Option.map_some, hvalues, hvalue]
  have hchars : ofHyphenated? u.chars = some u := by
    rw [chars, ofHyphenated?_groups, hgroups]
    · exact hplain
    all_goals simp [Text.length_hexText]
  have htext : u.text.toList = u.chars := String.toList_ofList
  rw [ofText?, htext, length_chars]
  exact hchars

/-- Identifiers of 128 bits are determined by their texts. -/
theorem text_inj {u u' : Uuid} (hu : u.value < 2 ^ 128) (hu' : u'.value < 2 ^ 128) :
    u.text = u'.text ↔ u = u' := by
  refine ⟨fun h => ?_, congrArg text⟩
  have hread := ofText?_text hu
  rw [h, ofText?_text hu'] at hread
  exact (Option.some.inj hread).symm

end Uuid

end RewardLedger
