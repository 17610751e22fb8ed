import Mathlib.Data.List.Nodup
import RewardLedger.Proofs.Ledger.Books

/-!
# What every step keeps

A property of books holds after every run if it holds of empty books and every step keeps it. Each
step gives its entry or its reward an identifier that was not given out before, so entries and
rewards are always told apart by their identifiers (`Books.Numbered.step`), and any other property
may use this of the books before the step (`Books.Steps.keeps`).
-/

namespace RewardLedger

variable {cfg : Config} {p : Permission} {b b' : Books}

/-! ## Identifiers -/

namespace Books

/-- Entries and rewards are told apart by their identifiers, all of which have been given out. -/
structure Numbered (b : Books) : Prop where
  /-- The identifiers of entries have been given out. -/
  entries : ∀ e ∈ b.entries, e.id.value ≤ b.issued
  /-- The identifiers of rewards have been given out. -/
  rewards : ∀ r ∈ b.rewards, r.id.value ≤ b.issued
  /-- No two entries have the same identifier. -/
  entryIds : (b.entries.map LedgerEntry.id).Nodup
  /-- No two rewards have the same identifier. -/
  rewardIds : (b.rewards.map Reward.id).Nodup

namespace Numbered

/-- Empty books are numbered. -/
theorem empty : Numbered {} :=
  ⟨fun _ h => absurd h List.not_mem_nil, fun _ h => absurd h List.not_mem_nil, .nil, .nil⟩

/-- Entries with the same identifier are the same. -/
theorem eq_of_entry_id (h : b.Numbered) {e e' : LedgerEntry} (he : e ∈ b.entries)
    (he' : e' ∈ b.entries) (hid : e.id = e'.id) : e = e' :=
  List.inj_on_of_nodup_map h.entryIds he he' hid

/-- Rewards with the same identifier are the same. -/
theorem eq_of_reward_id (h : b.Numbered) {r r' : Reward} (hr : r ∈ b.rewards)
    (hr' : r' ∈ b.rewards) (hid : r.id = r'.id) : r = r' :=
  List.inj_on_of_nodup_map h.rewardIds hr hr' hid

/-- An identifier that has not been given out is that of no entry. -/
theorem entry_ne (h : b.Numbered) {id : Uuid} (hid : b.issued < id.value) :
    ∀ e ∈ b.entries, e.id ≠ id := by
  rintro e he rfl
  exact absurd (h.entries e he) (Nat.not_le_of_lt hid)

/-- An identifier that has not been given out is that of no reward. -/
theorem reward_ne (h : b.Numbered) {id : Uuid} (hid : b.issued < id.value) :
    ∀ r ∈ b.rewards, r.id ≠ id := by
  rintro r hr rfl
  exact absurd (h.rewards r hr) (Nat.not_le_of_lt hid)

/-- Giving out identifiers keeps books numbered, whatever becomes of users and requests. -/
theorem issue (h : b.Numbered) {n : Nat} (hn : b.issued ≤ n) (users : List User)
    (requests : List StoredRequest) :
    Numbered { b with users, requests, issued := n } :=
  ⟨fun e he => Nat.le_trans (h.entries e he) hn, fun r hr => Nat.le_trans (h.rewards r hr) hn,
    h.entryIds, h.rewardIds⟩

/-- Adding an entry with a new identifier keeps books numbered. -/
theorem addEntry (h : b.Numbered) {e : LedgerEntry} {n : Nat} (hid : b.issued < e.id.value)
    (hn : e.id.value ≤ n) :
    Numbered { b with entries := b.entries ++ [e], issued := n } := by
  have hissue := h.issue (Nat.le_trans (Nat.le_of_lt hid) hn) b.users b.requests
  refine ⟨forall_mem_concat hissue.entries hn, hissue.rewards, ?_, h.rewardIds⟩
  rw [List.map_append, List.map_singleton, ← List.concat_eq_append]
  refine h.entryIds.concat fun hmem => ?_
  obtain ⟨x, hx, heq⟩ := List.mem_map.1 hmem
  exact h.entry_ne hid x hx heq

/-- Adding a reward with a new identifier keeps books numbered. -/
theorem addReward (h : b.Numbered) {r : Reward} {n : Nat} (hid : b.issued < r.id.value)
    (hn : r.id.value ≤ n) :
    Numbered { b with rewards := b.rewards ++ [r], issued := n } := by
  have hissue := h.issue (Nat.le_trans (Nat.le_of_lt hid) hn) b.users b.requests
  refine ⟨hissue.entries, forall_mem_concat hissue.rewards hn, h.entryIds, ?_⟩
  rw [List.map_append, List.map_singleton, ← List.concat_eq_append]
  refine h.rewardIds.concat fun hmem => ?_
  obtain ⟨x, hx, heq⟩ := List.mem_map.1 hmem
  exact h.reward_ne hid x hx heq

/-- Making an entry void keeps books numbered. -/
theorem voided (h : b.Numbered) (id : Uuid) :
    Numbered { b with entries := b.entries.map (.voided id) } := by
  refine ⟨fun x hx => ?_, h.rewards, ?_, h.rewardIds⟩
  · obtain ⟨y, hy, rfl⟩ := List.mem_map.1 hx
    rw [LedgerEntry.voided_id]
    exact h.entries y hy
  · have hids : LedgerEntry.id ∘ LedgerEntry.voided id = LedgerEntry.id :=
      funext (LedgerEntry.voided_id id)
    rw [List.map_map, hids]
    exact h.entryIds

/-- Posting a reversal and making the entry void that it takes back keeps books numbered. -/
theorem reversed (h : b.Numbered) {e reversal : LedgerEntry} {n : Nat}
    (hid : b.issued < reversal.id.value) (hn : reversal.id.value ≤ n) :
    (b.reversed e reversal n).Numbered :=
  (h.addEntry hid hn).voided e.id

/-- Changing a reward without its identifier keeps books numbered. -/
theorem withReward (h : b.Numbered) (id : Uuid) {f : Reward → Reward}
    (hf : ∀ r, (f r).id = r.id) : (b.withReward id f).Numbered := by
  refine ⟨h.entries, fun x hx => ?_, h.entryIds, ?_⟩
  · obtain ⟨y, hy, rfl⟩ := List.mem_map.1 hx
    rw [Reward.changed_id hf]
    exact h.rewards y hy
  · have hids : Reward.id ∘ Reward.changed id f = Reward.id := funext (Reward.changed_id hf id)
    rw [Books.withReward, List.map_map, hids]
    exact h.rewardIds

/-- Every step keeps books numbered. -/
theorem step (h : b.Numbered) (hs : Step cfg p b b') : b'.Numbered := by
  cases hs with
  | issue hn => exact h.issue hn b.users b.requests
  | addUser hid hn => exact h.issue (Nat.le_trans (Nat.le_of_lt hid) hn) _ b.requests
  | rename => exact h.issue (Nat.le_refl _) _ b.requests
  | record _ _ => exact h.issue (Nat.le_refl _) b.users _
  | post _ hpost hn => exact h.addEntry hpost.fresh hn
  | takeBack _ _ _ _ _ hpost hn => exact h.reversed hpost.fresh hn
  | confirm _ _ => exact h.withReward _ fun _ => rfl
  | pay _ _ hpost hn => exact (h.addEntry hpost.fresh hn).withReward _ fun _ => rfl
  | reverse _ _ _ _ _ _ _ _ hpost hn =>
    exact (h.reversed hpost.fresh hn).withReward _ fun _ => rfl
  | credit hc =>
    have hreward : Numbered { b with rewards := b.rewards ++ [_], issued := b'.issued } :=
      h.addReward hc.fresh hc.le
    have hentry : Numbered { b with entries := b.entries ++ [_], issued := b'.issued } :=
      h.addEntry hc.can.fresh hc.entryLe
    rw [hc.eq]
    exact ⟨hentry.entries, hreward.rewards, hentry.entryIds, hreward.rewardIds⟩

end Numbered

/-! ## Owners -/

/-- Entries belong to rewards that are there. -/
def Owned (b : Books) : Prop :=
  ∀ e ∈ b.entries, ∀ id, e.rewardId = some id → ∃ r ∈ b.rewards, r.id = id

namespace Owned

/-- All entries of empty books belong to rewards that are there. -/
theorem empty : Owned {} := fun _ h => absurd h List.not_mem_nil

/-- Adding an entry of a reward that is there keeps the owners of entries. -/
theorem addEntry (h : b.Owned) {e : LedgerEntry}
    (he : ∀ id, e.rewardId = some id → ∃ r ∈ b.rewards, r.id = id) (n : Nat) :
    Owned { b with entries := b.entries ++ [e], issued := n } :=
  forall_mem_concat h he

/-- Taking an entry back keeps the owners of entries. -/
theorem reversed (h : b.Owned) {e reversal : LedgerEntry} (he : e ∈ b.entries)
    (hr : Reverses reversal e) (n : Nat) : (b.reversed e reversal n).Owned := by
  intro x hx
  obtain ⟨y, hy, rfl⟩ := List.mem_map.1 hx
  rw [LedgerEntry.voided_rewardId]
  exact h.addEntry (fun id hid => h e he id (hr.rewardId ▸ hid)) n y hy

/-- Changing a reward without its identifier keeps the owners of entries. -/
theorem withReward (h : b.Owned) (id : Uuid) {f : Reward → Reward} (hf : ∀ r, (f r).id = r.id) :
    (b.withReward id f).Owned := by
  intro e he owner howner
  obtain ⟨r, hr, hid⟩ := h e he owner howner
  exact ⟨r.changed id f, List.mem_map_of_mem hr, (Reward.changed_id hf id r).trans hid⟩

/-- Every step keeps the owners of entries, where what is posted by hand belongs to no reward. -/
theorem step (hp : ∀ t tag of, p.posts t tag of → tag = none) (h : b.Owned)
    (hs : Step cfg p b b') : b'.Owned := by
  cases hs with
  | issue | addUser | rename | record => exact h
  | post hposts _ _ =>
    exact h.addEntry (fun id hid => nomatch (hp _ _ _ hposts).symm.trans hid) _
  | takeBack he _ _ _ hreverses _ _ => exact h.reversed he hreverses _
  | confirm _ _ => exact h.withReward _ fun _ => rfl
  | pay hr _ _ _ _ _ htag _ _ _ =>
    refine Owned.withReward (h.addEntry (fun id hid => ⟨_, hr, ?_⟩) _) _ fun _ => rfl
    exact Option.some.inj (htag.symm.trans hid)
  | reverse _ _ he _ _ _ _ hreverses _ _ =>
    exact (h.reversed he hreverses _).withReward _ fun _ => rfl
  | @credit _ r e _ hc =>
    intro x hx id hid
    rw [hc.eq] at hx ⊢
    rcases List.mem_append.1 hx with hx | hx
    · obtain ⟨y, hy, hyid⟩ := h x hx id hid
      exact ⟨y, List.mem_append_left _ hy, hyid⟩
    · rw [List.mem_singleton.1 hx, hc.rewardId] at hid
      exact ⟨r, List.mem_append_right _ (List.mem_singleton.2 rfl), Option.some.inj hid⟩

end Owned

/-! ## Users and recorded requests -/

/-- The users and the recorded requests are the same, so that requests stand as they did. -/
structure SameStanding (b b' : Books) : Prop where
  /-- The users are the same. -/
  users : b'.users = b.users
  /-- The recorded requests are the same. -/
  requests : b'.requests = b.requests

namespace SameStanding

/-- Nothing changes between books and themselves. -/
theorem refl (b : Books) : b.SameStanding b := ⟨rfl, rfl⟩

/-- What does not change twice does not change. -/
theorem trans {b'' : Books} (h : b.SameStanding b') (h' : b'.SameStanding b'') :
    b.SameStanding b'' := ⟨h'.users.trans h.users, h'.requests.trans h.requests⟩

end SameStanding

/-- A step gives identifiers out only. -/
theorem Step.issued_le (hs : Step cfg p b b') : b.issued ≤ b'.issued := by
  cases hs with
  | issue hn => exact hn
  | addUser hid hn => exact Nat.le_trans (Nat.le_of_lt hid) hn
  | rename | record | confirm => exact Nat.le_refl _
  | post _ hpost hn => exact Nat.le_trans (Nat.le_of_lt hpost.fresh) hn
  | takeBack _ _ _ _ _ hpost hn => exact Nat.le_trans (Nat.le_of_lt hpost.fresh) hn
  | pay _ _ hpost hn => exact Nat.le_trans (Nat.le_of_lt hpost.fresh) hn
  | reverse _ _ _ _ _ _ _ _ hpost hn => exact Nat.le_trans (Nat.le_of_lt hpost.fresh) hn
  | credit hc => exact Nat.le_trans (Nat.le_of_lt hc.fresh) hc.le

/-- Steps give identifiers out only. -/
theorem Steps.issued_le (hs : b.Steps cfg p b') : b.issued ≤ b'.issued := by
  induction hs with
  | refl => exact Nat.le_refl _
  | tail _ hlast ih => exact Nat.le_trans ih hlast.issued_le

/-- A step changes no recorded request and removes none. -/
theorem Step.requests_prefix (hs : Step cfg p b b') : b.requests <+: b'.requests := by
  cases hs with
  | credit hc =>
    rw [hc.eq]
    exact List.prefix_append _ _
  | record _ _ => exact List.prefix_append _ _
  | _ => exact List.prefix_refl _

/-- However many steps are taken, recorded requests stay as they are. -/
theorem Steps.requests_prefix (hs : b.Steps cfg p b') : b.requests <+: b'.requests := by
  induction hs with
  | refl => exact List.prefix_refl _
  | tail _ hlast ih => exact ih.trans hlast.requests_prefix

/-! ## Any number of steps -/

/-- A property that every step from numbered books keeps holds after any number of steps. -/
theorem Steps.keeps {I : Books → Prop} (hs : b.Steps cfg p b') (hb : b.Numbered) (hI : I b)
    (hstep : ∀ b b', b.Numbered → I b → Step cfg p b b' → I b') : b'.Numbered ∧ I b' := by
  induction hs with
  | refl => exact ⟨hb, hI⟩
  | tail _ hlast ih => exact ⟨ih.1.step hlast, hstep _ _ ih.1 ih.2 hlast⟩

end Books

end RewardLedger
