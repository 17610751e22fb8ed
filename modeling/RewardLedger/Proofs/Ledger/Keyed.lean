import RewardLedger.Proofs.Ledger.Crediting
import RewardLedger.Proofs.Ledger.Steps

/-!
# Rewards and their requests

Rewards and recorded requests come in pairs with one key: crediting a reward adds both, and nothing
else adds either, unless requests are recorded from outside. What a recorded request was answered
names the reward with its key and the one credit of that reward (`Books.Keyed`).

All steps but crediting a reward leave this alone, since they change neither which rewards there are
nor their keys, add no credits to rewards, and record no requests (`Books.Step.keepsKeys_or_credited`).
-/

namespace RewardLedger

variable {cfg : Config} {p : Permission} {b b' : Books}

/-! ## What an answer names -/

/-- The recorded answer names the key of its request, a reward and an entry. -/
def StoredRequest.Names (q : StoredRequest) (reward entry : Uuid) : Prop :=
  ∃ answer rewardPart entryPart : Fields, q.response = .object answer ∧
    answer.find? "reward" = some (.object rewardPart) ∧
    answer.find? "ledger_entry" = some (.object entryPart) ∧
    rewardPart.find? "id" = some reward.json ∧
    rewardPart.find? "idempotency_key" = some (.str q.key) ∧
    entryPart.find? "id" = some entry.json

/-- The answer to a request that is new names its key, its reward and its credit. -/
theorem Books.Credited.names {r : Reward} {e : LedgerEntry} {q : StoredRequest}
    (h : b.Credited cfg b' r e q) : q.Names r.id e.id := by
  obtain ⟨reward, hreward, hrest⟩ := exists_of_bind_eq_ok h.response
  obtain ⟨entry, hentry, hanswer⟩ := exists_of_bind_eq_ok hrest
  obtain ⟨metadata, -, hrewardPart⟩ := exists_of_bind_eq_ok hreward
  obtain ⟨metadata', -, hentryPart⟩ := exists_of_bind_eq_ok hentry
  cases hrewardPart
  cases hentryPart
  refine ⟨_, _, _, (Except.ok.inj hanswer).symm, rfl, rfl, rfl, ?_, rfl⟩
  rw [h.key]
  rfl

namespace Books

/-! ## Keys -/

/-- The identifiers of the credits that belong to the reward. -/
def creditIds (b : Books) (id : Uuid) : List Uuid :=
  (b.entries.filter fun e => e.rewardId = some id ∧ e.entryType = .credit).map LedgerEntry.id

/-- The identifiers and keys of the rewards. -/
def labels (b : Books) : List (Uuid × String) :=
  b.rewards.map fun r => (r.id, r.idempotencyKey)

/-- Rewards and recorded requests have the same keys, each of which occurs once, and what a request was
answered names the reward with its key and the one credit of that reward. -/
structure Keyed (b : Books) : Prop where
  /-- No two rewards have the same key. -/
  nodup : (b.rewards.map Reward.idempotencyKey).Nodup
  /-- The recorded requests have the keys of the rewards, in the same order. -/
  keys_eq : b.requests.map StoredRequest.key = b.rewards.map Reward.idempotencyKey
  /-- What a request was answered names the reward with its key and the one credit of that reward. -/
  named : ∀ q ∈ b.requests, ∃ r ∈ b.rewards, r.idempotencyKey = q.key ∧
    ∃ credit, b.creditIds r.id = [credit] ∧ q.Names r.id credit

/-- Which rewards there are and under which keys, their credits and the recorded requests are the
same. -/
structure KeepsKeys (b b' : Books) : Prop where
  /-- The credits of rewards are the same. -/
  creditIds : ∀ id, b'.creditIds id = b.creditIds id
  /-- The rewards and their keys are the same. -/
  labels : b'.labels = b.labels
  /-- The recorded requests are the same. -/
  requests : b'.requests = b.requests

/-- An entry that is added and is no credit of a reward leaves the credits of rewards as they are. -/
theorem creditIds_addEntry (b : Books) {e : LedgerEntry} {id : Uuid}
    (h : ¬(e.rewardId = some id ∧ e.entryType = .credit)) (n : Nat) :
    creditIds { b with entries := b.entries ++ [e], issued := n } id = b.creditIds id := by
  rw [creditIds, List.filter_append, List.filter_singleton, decide_eq_false h, creditIds]
  exact congrArg _ (List.append_nil _)

/-- Making an entry void leaves the credits of rewards as they are. -/
theorem creditIds_voided (b : Books) (voided id : Uuid) :
    creditIds { b with entries := b.entries.map (.voided voided) } id = b.creditIds id := by
  rw [creditIds, List.filter_map, List.map_map, creditIds]
  have hids : LedgerEntry.id ∘ LedgerEntry.voided voided = LedgerEntry.id :=
    funext (LedgerEntry.voided_id voided)
  have hkeep : ∀ e : LedgerEntry, (((fun e : LedgerEntry =>
      decide (e.rewardId = some id ∧ e.entryType = .credit)) ∘ .voided voided) e) =
        decide (e.rewardId = some id ∧ e.entryType = .credit) := fun e => by
    rw [Function.comp_apply, LedgerEntry.voided_eq]
  rw [hids, List.filter_congr fun e _ => hkeep e]

/-- Taking an entry back leaves the credits of rewards as they are. -/
theorem creditIds_reversed (b : Books) {e reversal : LedgerEntry} (hr : Reverses reversal e)
    (n : Nat) (id : Uuid) : (b.reversed e reversal n).creditIds id = b.creditIds id := by
  have hno : ¬(reversal.rewardId = some id ∧ reversal.entryType = .credit) := fun h =>
    nomatch hr.entryType.symm.trans h.2
  exact (creditIds_voided _ e.id id).trans (b.creditIds_addEntry hno n)

/-- Changing a reward without its identifier and its key keeps which rewards there are. -/
theorem labels_withReward (b : Books) (id : Uuid) {f : Reward → Reward}
    (hid : ∀ r, (f r).id = r.id) (hkey : ∀ r, (f r).idempotencyKey = r.idempotencyKey) :
    (b.withReward id f).labels = b.labels := by
  rw [labels, withReward, List.map_map]
  refine List.map_congr_left fun r _ => ?_
  rw [Function.comp_apply]
  unfold Reward.changed
  split
  · rw [hid, hkey]
  · rfl

/-- Every step but crediting a reward keeps the keys of rewards and requests, where what is posted by
hand belongs to no reward and no requests are recorded by hand. -/
theorem Step.keepsKeys_or_credited (hp : ∀ t tag of, p.posts t tag of → tag = none)
    (hrecords : ¬p.records) (hs : Step cfg p b b') :
    b.KeepsKeys b' ∨ ∃ r e q, b.Credited cfg b' r e q := by
  cases hs with
  | issue | addUser | rename => exact .inl ⟨fun _ => rfl, rfl, rfl⟩
  | record hrecord => exact absurd hrecord hrecords
  | post hposts _ _ =>
    refine .inl ⟨fun id => b.creditIds_addEntry (fun h => ?_) _, rfl, rfl⟩
    exact nomatch (hp _ _ _ hposts).symm.trans h.1
  | takeBack _ _ _ _ hreverses _ _ =>
    exact .inl ⟨b.creditIds_reversed hreverses _, rfl, rfl⟩
  | confirm _ _ =>
    exact .inl ⟨fun _ => rfl, b.labels_withReward _ (fun _ => rfl) fun _ => rfl, rfl⟩
  | @pay r e now n _ _ _ _ htype _ _ _ _ _ =>
    refine .inl ⟨fun id => ?_, b.labels_withReward _ (fun _ => rfl) fun _ => rfl, rfl⟩
    exact b.creditIds_addEntry (fun h => nomatch htype.symm.trans h.2) n
  | @reverse r e reversal now reason n _ _ _ _ _ _ _ hreverses _ _ =>
    exact .inl ⟨b.creditIds_reversed hreverses n,
      b.labels_withReward _ (fun _ => rfl) fun _ => rfl, rfl⟩
  | credit hc => exact .inr ⟨_, _, _, hc⟩

namespace Keyed

/-- Empty books are keyed. -/
theorem empty : Keyed {} := ⟨.nil, rfl, fun _ h => absurd h List.not_mem_nil⟩

/-- Every reward has a recorded request with its key. -/
theorem exists_request (h : b.Keyed) {r : Reward} (hr : r ∈ b.rewards) :
    ∃ q ∈ b.requests, q.key = r.idempotencyKey := by
  have hmem := List.mem_map_of_mem (f := Reward.idempotencyKey) hr
  rw [← h.keys_eq] at hmem
  exact List.mem_map.1 hmem

/-- Books with the same keys are keyed as well. -/
theorem of_keepsKeys (h : b.Keyed) (hk : b.KeepsKeys b') : b'.Keyed := by
  have hkeys : ∀ b : Books, b.rewards.map Reward.idempotencyKey = b.labels.map Prod.snd :=
    fun b => by
      rw [labels, List.map_map]
      rfl
  have hsame : b'.rewards.map Reward.idempotencyKey = b.rewards.map Reward.idempotencyKey := by
    rw [hkeys, hkeys, hk.labels]
  refine ⟨hsame ▸ h.nodup, by rw [hk.requests, hsame, h.keys_eq], fun q hq => ?_⟩
  obtain ⟨r, hr, hkey, credit, hcredit, hnames⟩ := h.named q (hk.requests ▸ hq)
  have hlabel : (r.id, r.idempotencyKey) ∈ b'.labels := by
    rw [hk.labels]
    exact List.mem_map_of_mem hr
  obtain ⟨r', hr', heq⟩ := List.mem_map.1 hlabel
  obtain ⟨hid, hkey'⟩ := Prod.mk.inj heq
  refine ⟨r', hr', hkey'.trans hkey, credit, ?_, hid ▸ hnames⟩
  rw [hid, hk.creditIds]
  exact hcredit

/-- Crediting a reward keeps books keyed: its key is a new one, and it has no other credit. -/
theorem credit (h : b.Keyed) (howned : b.Owned) (hb : b.Numbered) {r : Reward} {e : LedgerEntry}
    {q : StoredRequest} (hc : b.Credited cfg b' r e q) : b'.Keyed := by
  have hrewards : b'.rewards = b.rewards ++ [r] := by rw [hc.eq]
  have hrequests : b'.requests = b.requests ++ [q] := by rw [hc.eq]
  have hentries : b'.entries = b.entries ++ [e] := by rw [hc.eq]
  refine ⟨?_, ?_, fun x hx => ?_⟩
  · rw [hrewards, List.map_append, List.map_singleton, ← List.concat_eq_append]
    refine h.nodup.concat fun hmem => ?_
    obtain ⟨r', hr', hkey⟩ := List.mem_map.1 hmem
    exact hc.keyFree r' hr' hkey
  · rw [hrewards, hrequests, List.map_append, List.map_append, h.keys_eq, List.map_singleton,
      List.map_singleton, hc.key]
  · rw [hrequests] at hx
    rw [hrewards]
    rcases List.mem_append.1 hx with hx | hx
    · obtain ⟨r', hr', hkey, credit, hcredit, hnames⟩ := h.named x hx
      refine ⟨r', List.mem_append_left _ hr', hkey, credit, ?_, hnames⟩
      have hno : ¬(e.rewardId = some r'.id ∧ e.entryType = .credit) := fun htag =>
        hb.reward_ne hc.fresh r' hr' (Option.some.inj (htag.1.symm.trans hc.rewardId))
      rw [creditIds, hentries, ← hcredit]
      exact b.creditIds_addEntry hno b.issued
    · rw [List.mem_singleton.1 hx]
      refine ⟨r, List.mem_append_right _ (List.mem_singleton.2 rfl), hc.key.symm, e.id, ?_,
        hc.names⟩
      -- no entry belongs to the reward, whose identifier is a new one
      have hnone : (b.entries.filter fun e => e.rewardId = some r.id ∧ e.entryType = .credit) =
          [] := by
        refine List.filter_eq_nil_iff.2 fun x hx htag => ?_
        obtain ⟨y, hy, hid⟩ := howned x hx r.id (of_decide_eq_true htag).1
        exact hb.reward_ne hc.fresh y hy hid
      rw [creditIds, hentries, List.filter_append, hnone, List.filter_singleton,
        decide_eq_true ⟨hc.rewardId, hc.entryType⟩]
      rfl

/-- Every step keeps books keyed, where what is posted by hand belongs to no reward and no requests
are recorded by hand. -/
theorem step (hp : ∀ t tag of, p.posts t tag of → tag = none) (hrecords : ¬p.records)
    (h : b.Keyed) (howned : b.Owned) (hb : b.Numbered) (hs : Step cfg p b b') : b'.Keyed := by
  rcases hs.keepsKeys_or_credited hp hrecords with hk | ⟨r, e, q, hc⟩
  · exact h.of_keepsKeys hk
  · exact h.credit howned hb hc

end Keyed

end Books

end RewardLedger
