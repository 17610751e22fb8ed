import RewardLedger.Proofs.Validity
import RewardLedger.Proofs.WellKept

/-!
# Rows of rewards

What state a reward is in is written down twice in its row: the status names it, and the columns beside
it tell when the reward got there (`Fields.InState`). A move sets the columns of the state that it
leads to (`RewardStatus.marks`); if the reward may move there, the row goes from one state to the next
one (`Fields.InState.moves`), and every other column keeps its value.

From one store to another every reward stays as it is or makes one move, and what is added are rewards
that wait (`Store.Extends` by `Fields.Advances`); if nothing but that happens, the rewards grow
(`Store.Grows`), which passes on.
-/

namespace RewardLedger

/-! ## States in rows -/

/-- The columns of a reward in which it is written when something happened to it. -/
def Reward.stamps : List String := ["confirmed_at", "paid_at", "reversed_at"]

/-- The columns of a reward that change when it moves. -/
def Reward.moving : List String := "status" :: "reversal_reason" :: stamps

namespace RewardStatus

/-- The columns that are set when a reward moves to the state. -/
def marks (now : Instant) (reason : Value) : RewardStatus → Fields
  | pending => []
  | confirmed => [("status", .str confirmed.name), ("confirmed_at", .instant now)]
  | paid => [("status", .str paid.name), ("paid_at", .instant now)]
  | reversed => [("status", .str reversed.name), ("reversed_at", .instant now),
    ("reversal_reason", reason)]

/-- The names of these columns. -/
def columns : RewardStatus → List String
  | pending => []
  | confirmed => ["status", "confirmed_at"]
  | paid => ["status", "paid_at"]
  | reversed => ["status", "reversed_at", "reversal_reason"]

/-- The columns that hold an instant in the state. -/
def stamped : RewardStatus → List String
  | pending => []
  | confirmed => ["confirmed_at"]
  | paid => ["confirmed_at", "paid_at"]
  | reversed => ["reversed_at"]

/-- The columns that hold nothing in the state. -/
def blank : RewardStatus → List String
  | pending => ["confirmed_at", "paid_at", "reversed_at", "reversal_reason"]
  | confirmed => ["paid_at", "reversed_at", "reversal_reason"]
  | paid => ["reversed_at", "reversal_reason"]
  | reversed => ["paid_at"]

/-- A state has a name of its own. -/
theorem name_injective : Function.Injective name := fun s s' h =>
  Option.some.inj ((ofName?_name s).symm.trans ((congrArg ofName? h).trans (ofName?_name s')))

/-- No move leads to the first state. -/
theorem ne_pending_of_canMove {s s' : RewardStatus} (h : s.canMove s' = true) : s' ≠ .pending := by
  revert h
  cases s <;> cases s' <;> decide

/-- What holds nothing after a move held nothing before it and is not set by it. -/
theorem blank_of_canMove {s s' : RewardStatus} (h : s.canMove s' = true) :
    ∀ c ∈ s'.blank, c ∈ s.blank ∧ c ∉ s'.columns := by
  revert h
  cases s <;> cases s' <;> decide

/-- What holds an instant after a move held one before it or is set by it. -/
theorem stamped_of_canMove {s s' : RewardStatus} (h : s.canMove s' = true) :
    ∀ c ∈ s'.stamped, c ∈ s'.columns ∨ c ∈ s.stamped := by
  revert h
  cases s <;> cases s' <;> decide

/-- What a move writes down about when it happened was not known before. -/
theorem blank_of_columns {s s' : RewardStatus} (h : s.canMove s' = true) :
    ∀ c ∈ Reward.stamps, c ∈ s'.columns → c ∈ s.blank := by
  revert h
  cases s <;> cases s' <;> decide

/-- Moves set only columns that change when a reward moves. -/
theorem columns_subset (s : RewardStatus) : s.columns ⊆ Reward.moving := by
  cases s <;> decide

/-- A move writes down when it happened. -/
theorem find?_marks (now : Instant) (reason : Value) {s : RewardStatus} {c : String}
    (hc : c ∈ s.columns) (hstamped : c ∈ s.stamped) :
    (s.marks now reason).find? c = some (.instant now) := by
  cases s with
  | pending => cases hc
  | confirmed =>
    obtain rfl := List.mem_singleton.1 hstamped
    rfl
  | paid =>
    -- when the reward was confirmed is not set again
    obtain rfl : c = "paid_at" := by
      simp only [columns, stamped, List.mem_cons, List.not_mem_nil, or_false] at hc hstamped
      rcases hstamped with rfl | rfl
      · exact absurd hc (by decide)
      · rfl
    rfl
  | reversed =>
    obtain rfl := List.mem_singleton.1 hstamped
    rfl

@[simp] theorem names_marks (now : Instant) (reason : Value) (s : RewardStatus) :
    (s.marks now reason).names = s.columns := by
  cases s <;> rfl

end RewardStatus

namespace Fields

/-- The column holds an instant. -/
def Stamped (row : Fields) (column : String) : Prop := ∃ t, row.get column = .instant t

/-- The row is that of a reward in the state: the status names it, and the columns beside it tell of
it. -/
structure InState (row : Fields) (s : RewardStatus) : Prop where
  /-- The status is that of the state. -/
  status : row.get "status" = .str s.name
  /-- What must have happened has happened. -/
  stamped : ∀ c ∈ s.stamped, row.Stamped c
  /-- What cannot have happened has not. -/
  blank : ∀ c ∈ s.blank, row.get c = .null
  /-- It is known whether the reward has been confirmed. -/
  confirmed : row.Stamped "confirmed_at" ∨ row.get "confirmed_at" = .null

/-- The row of a reward goes from one state to a next one, and only the columns of the move change. -/
structure Moves (row row' : Fields) (s s' : RewardStatus) : Prop where
  /-- The reward was in the first state. -/
  before : row.InState s
  /-- The reward is in the second state. -/
  after : row'.InState s'
  /-- The first state can be left for the second one. -/
  edge : s.canMove s' = true
  /-- Only the columns of the move change. -/
  others : ∀ c ∉ s'.columns, row'.get c = row.get c

/-- The reward of the row stays as it is or makes one move. -/
def Advances (row row' : Fields) : Prop := row'.get = row.get ∨ ∃ s s', row.Moves row' s s'

/-- The two parties of the reward in the row are two users. -/
def HasParties (row : Fields) : Prop :=
  ∃ a b : Uuid, a ≠ b ∧ row.get "referrer_id" = .uuid a ∧ row.get "referred_id" = .uuid b

/-- The row is that of a reward. -/
structure IsReward (row : Fields) : Prop where
  /-- It is in some state. -/
  inState : ∃ s, row.InState s
  /-- It has two parties. -/
  parties : row.HasParties

/-- The row is that of a reward that waits. -/
structure Starts (row : Fields) : Prop where
  /-- It is in the first state. -/
  inState : row.InState .pending
  /-- It has two parties. -/
  parties : row.HasParties

variable {row row' row'' : Fields} {s s' : RewardStatus}

/-- What a row tells of its reward rests on the values of its columns. -/
theorem InState.of_get_eq (h : row.InState s) (hget : row'.get = row.get) : row'.InState s where
  status := by rw [hget, h.status]
  stamped c hc := by
    rw [Stamped, hget]
    exact h.stamped c hc
  blank c hc := by rw [hget, h.blank c hc]
  confirmed := by
    rw [Stamped, hget]
    exact h.confirmed

/-- A row is that of a reward in one state. -/
theorem InState.unique (h : row.InState s) (h' : row.InState s') : s = s' :=
  RewardStatus.name_injective (Value.str.inj (h.status.symm.trans h'.status))

/-- A column that holds an instant does not hold nothing. -/
theorem Stamped.ne_null {c : String} (h : row.Stamped c) : row.get c ≠ .null := by
  obtain ⟨t, ht⟩ := h
  rw [ht]
  exact fun heq => by cases heq

/-- Columns that are set have the value that was set last, and the others keep theirs. -/
theorem get_putAll_marks (row : Fields) (now : Instant) (reason : Value) (s : RewardStatus)
    (c : String) : (row.putAll (s.marks now reason)).get c =
      (((s.marks now reason).find? c).or (row.find? c)).getD .null := by
  have hnodup : (s.marks now reason).names.Nodup := by
    rw [RewardStatus.names_marks]
    cases s <;> decide
  rw [get, find?_putAll_of_nodup row hnodup]

/-- Setting the columns of a state to which the reward can move moves it there. -/
theorem InState.moves (h : row.InState s) (hmove : s.canMove s' = true) (now : Instant)
    (reason : Value) : row.Moves (row.putAll (s'.marks now reason)) s s' := by
  have hothers : ∀ c ∉ s'.columns, (row.putAll (s'.marks now reason)).get c = row.get c := by
    intro c hc
    rw [← RewardStatus.names_marks now reason] at hc
    rw [get, get, find?_putAll_of_notMem row hc]
  have hset : ∀ c ∈ s'.columns, c ∈ s'.stamped → (row.putAll (s'.marks now reason)).Stamped c :=
    fun c hc hstamped => ⟨now, by
      rw [get_putAll_marks, RewardStatus.find?_marks now reason hc hstamped]
      rfl⟩
  have hafter : (row.putAll (s'.marks now reason)).InState s' := by
    refine ⟨?_, fun c hc => ?_, fun c hc => ?_, ?_⟩
    · rw [get_putAll_marks]
      cases s' with
      | pending => exact absurd rfl (RewardStatus.ne_pending_of_canMove hmove)
      | confirmed | paid | reversed => rfl
    · by_cases hset' : c ∈ s'.columns
      · exact hset c hset' hc
      · rw [Stamped, hothers c hset']
        exact h.stamped c ((RewardStatus.stamped_of_canMove hmove c hc).resolve_left hset')
    · obtain ⟨hblank, hkept⟩ := RewardStatus.blank_of_canMove hmove c hc
      rw [hothers c hkept, h.blank c hblank]
    · by_cases hset' : "confirmed_at" ∈ s'.columns
      · exact .inl (hset _ hset' (by cases s' <;> revert hset' <;> decide))
      · rw [Stamped, hothers _ hset']
        exact h.confirmed
  exact ⟨h, hafter, hmove, hothers⟩

/-- A move sets only columns that change when a reward moves. -/
theorem Moves.get_eq (h : row.Moves row' s s') {c : String} (hc : c ∉ Reward.moving) :
    row'.get c = row.get c :=
  h.others c fun hmem => hc (RewardStatus.columns_subset s' hmem)

/-- A move keeps what was written before about when something happened. -/
theorem Moves.stamp_eq (h : row.Moves row' s s') {c : String} (hc : c ∈ Reward.stamps)
    (hset : row.get c ≠ .null) : row'.get c = row.get c :=
  h.others c fun hmem => hset (h.before.blank c (RewardStatus.blank_of_columns h.edge c hc hmem))

/-- What does not change when a reward moves stays the same. -/
theorem Advances.get_eq (h : row.Advances row') {c : String} (hc : c ∉ Reward.moving) :
    row'.get c = row.get c := by
  rcases h with h | ⟨s, s', h⟩
  · rw [h]
  · exact h.get_eq hc

/-- When something happened stays written down. -/
theorem Advances.stamp_eq (h : row.Advances row') {c : String} (hc : c ∈ Reward.stamps)
    (hset : row.get c ≠ .null) : row'.get c = row.get c := by
  rcases h with h | ⟨s, s', h⟩
  · rw [h]
  · exact h.stamp_eq hc hset

/-- The parties do not change. -/
theorem Advances.hasParties (h : row.Advances row') (hp : row.HasParties) : row'.HasParties := by
  obtain ⟨a, b, hne, ha, hb⟩ := hp
  exact ⟨a, b, hne, (h.get_eq (by decide)).trans ha, (h.get_eq (by decide)).trans hb⟩

/-- A reward stays one. -/
theorem Advances.isReward (h : row.Advances row') (hr : row.IsReward) : row'.IsReward := by
  refine ⟨?_, h.hasParties hr.parties⟩
  rcases h with h | ⟨s, s', h⟩
  · obtain ⟨s, hs⟩ := hr.inState
    exact ⟨s, hs.of_get_eq h⟩
  · exact ⟨s', h.after⟩

/-- What a row tells of its parties rests on the values of its columns. -/
theorem HasParties.of_get_eq (h : row.HasParties) (hget : row'.get = row.get) :
    row'.HasParties := by
  rw [HasParties, hget]
  exact h

/-- That a reward waits rests on the values of its columns. -/
theorem Starts.of_get_eq (h : row.Starts) (hget : row'.get = row.get) : row'.Starts :=
  ⟨h.inState.of_get_eq hget, h.parties.of_get_eq hget⟩

/-- A reward that waits is one. -/
theorem Starts.isReward (h : row.Starts) : row.IsReward := ⟨⟨_, h.inState⟩, h.parties⟩

end Fields
/-! ## Stores -/

namespace Store

/-- The rows of rewards. -/
def rewards (s : Store) : List Row := ((s.table? rewardsTable).map Table.rows).getD []

/-- The second store has the rewards of the first one, with columns that are related to those before,
and apart from these only rewards that wait. -/
structure Extends (R : Fields → Fields → Prop) (s s' : Store) : Prop where
  /-- A reward is still there. -/
  kept : ∀ row ∈ s.rewards, ∃ row' ∈ s'.rewards, row'.key = row.key ∧ R row.columns row'.columns
  /-- A reward was there before or waits. -/
  known : ∀ row' ∈ s'.rewards,
    (∃ row ∈ s.rewards, row'.key = row.key ∧ R row.columns row'.columns) ∨ row'.columns.Starts

/-- The second store has the rewards of the first one as they were, and apart from these only rewards
that wait. -/
abbrev Grows (s s' : Store) : Prop := Extends (fun row row' => row'.get = row.get) s s'

/-- Each row is that of a reward. -/
def AreRewards (s : Store) : Prop := ∀ row ∈ s.rewards, row.columns.IsReward

variable {s s' s'' : Store} {R : Fields → Fields → Prop}

/-- The rows of a table of rewards that is there. -/
theorem rewards_eq {t : Table} (h : s.table? rewardsTable = some t) : s.rewards = t.rows := by
  rw [rewards, h]
  rfl

/-- A store with the same rewards extends the same stores. -/
theorem Extends.congr (h : Extends R s s') (heq : s''.table? rewardsTable = s'.table? rewardsTable) :
    Extends R s s'' := by
  have hrewards : s''.rewards = s'.rewards := by rw [rewards, heq, rewards]
  obtain ⟨hkept, hknown⟩ := h
  rw [← hrewards] at hkept hknown
  exact ⟨hkept, hknown⟩

/-- A store extends any store with the same rewards. -/
theorem Extends.congr_left (h : Extends R s s')
    (heq : s.table? rewardsTable = s''.table? rewardsTable) : Extends R s'' s' := by
  have hrewards : s.rewards = s''.rewards := by rw [rewards, heq, rewards]
  obtain ⟨hkept, hknown⟩ := h
  rw [hrewards] at hkept hknown
  exact ⟨hkept, hknown⟩

/-- A reward that stays as it is makes no move. -/
theorem Grows.extends (h : s.Grows s') : Extends Fields.Advances s s' where
  kept row hrow := by
    obtain ⟨row', hrow', hkey, hget⟩ := h.kept row hrow
    exact ⟨row', hrow', hkey, .inl hget⟩
  known row' hrow' := by
    rcases h.known row' hrow' with ⟨row, hrow, hkey, hget⟩ | hstarts
    · exact .inl ⟨row, hrow, hkey, .inl hget⟩
    · exact .inr hstarts

theorem Grows.refl (s : Store) : s.Grows s :=
  ⟨fun row hrow => ⟨row, hrow, rfl, rfl⟩, fun row hrow => .inl ⟨row, hrow, rfl, rfl⟩⟩

theorem Grows.trans (h : s.Grows s') (h' : s'.Grows s'') : s.Grows s'' where
  kept row hrow := by
    obtain ⟨row', hrow', hkey, hget⟩ := h.kept row hrow
    obtain ⟨row'', hrow'', hkey', hget'⟩ := h'.kept row' hrow'
    exact ⟨row'', hrow'', hkey'.trans hkey, hget'.trans hget⟩
  known row'' hrow'' := by
    rcases h'.known row'' hrow'' with ⟨row', hrow', hkey', hget'⟩ | hstarts
    · rcases h.known row' hrow' with ⟨row, hrow, hkey, hget⟩ | hstarts
      · exact .inl ⟨row, hrow, hkey'.trans hkey, hget'.trans hget⟩
      · exact .inr (hstarts.of_get_eq hget')
    · exact .inr hstarts

/-- A table whose rows are alike has the rewards as they were. -/
theorem Grows.of_alike
    (h : Option.Rel Table.Alike (s'.table? rewardsTable) (s.table? rewardsTable)) : s.Grows s' := by
  have hrows : List.Forall₂ Row.Alike s'.rewards s.rewards := by
    unfold rewards
    generalize s'.table? rewardsTable = t', s.table? rewardsTable = t at h
    cases h with
    | none => exact .nil
    | some ha => exact ha.rows
  refine ⟨fun row hrow => ?_, fun row' hrow' => .inl ?_⟩
  · obtain ⟨row', hrow', ha⟩ := exists_mem_of_forall₂ hrows.flip hrow
    exact ⟨row', hrow', ha.key_eq, ha.columns.get_eq⟩
  · obtain ⟨row, hrow, ha⟩ := exists_mem_of_forall₂ hrows hrow'
    exact ⟨row, hrow, ha.key_eq, ha.columns.get_eq⟩

/-- A reward that was added waits behind the others. -/
theorem Grows.inserted {key : Value} {columns : Fields} (h : columns.Starts) :
    s.Grows (s.inserted rewardsTable key columns) := by
  cases ht : s.table? rewardsTable with
  | none =>
    refine .of_alike ?_
    rw [table?_inserted, if_pos rfl, ht]
    exact .none
  | some t =>
    have hrows : (s.inserted rewardsTable key columns).rewards =
        s.rewards ++ [⟨s.nextSeq, key, columns⟩] := by
      rw [rewards_eq ht, rewards, table?_inserted, if_pos rfl, ht]
      rfl
    refine ⟨fun row hrow => ⟨row, ?_, rfl, rfl⟩, fun row' hrow' => ?_⟩
    · rw [hrows]
      exact List.mem_append_left _ hrow
    · rw [hrows] at hrow'
      rcases List.mem_append.1 hrow' with hrow' | hrow'
      · exact .inl ⟨row', hrow', rfl, rfl⟩
      · rw [List.mem_singleton.1 hrow']
        exact .inr h

/-- If a reward was moved on, every reward stays as it is or makes one move. -/
theorem Extends.updated {t : Table} (ht : s.table? rewardsTable = some t) {row : Row}
    (hseq : ∀ r ∈ t.rows, r.seq = row.seq → r = row) {changes : Fields}
    (h : row.columns.Advances (row.columns.putAll changes)) :
    Extends Fields.Advances s (s.updated rewardsTable t row changes) := by
  have hrows : (s.updated rewardsTable t row changes).rewards = t.rows.map fun r =>
      if r.seq = row.seq then { r with columns := row.columns.putAll changes } else r := by
    rw [rewards, table?_updated ht, if_pos rfl]
    rfl
  -- each row is as it was, or it is the one that has advanced
  have hone : ∀ r ∈ t.rows, ∃ columns, r.columns.Advances columns ∧
      (if r.seq = row.seq then { r with columns := row.columns.putAll changes } else r) =
        { r with columns } := by
    intro r hr
    split
    · rename_i heq
      obtain rfl := hseq r hr heq
      exact ⟨_, h, rfl⟩
    · exact ⟨r.columns, .inl rfl, rfl⟩
  constructor
  · intro r hr
    rw [rewards_eq ht] at hr
    obtain ⟨columns, hadvances, heq⟩ := hone r hr
    refine ⟨{ r with columns }, ?_, rfl, hadvances⟩
    rw [hrows]
    exact List.mem_map.2 ⟨r, hr, heq⟩
  · intro r' hr'
    rw [hrows] at hr'
    obtain ⟨r, hr, rfl⟩ := List.mem_map.1 hr'
    obtain ⟨columns, hadvances, heq⟩ := hone r hr
    rw [heq]
    exact .inl ⟨r, rewards_eq ht ▸ hr, rfl, hadvances⟩

/-- What extends a store of rewards is one. -/
theorem Extends.areRewards (h : Extends Fields.Advances s s') (hs : s.AreRewards) :
    s'.AreRewards := by
  intro row' hrow'
  rcases h.known row' hrow' with ⟨row, hrow, -, hadvances⟩ | hstarts
  · exact hadvances.isReward (hs row hrow)
  · exact hstarts.isReward

end Store

open World (WellKept)

namespace World.WellKept

variable {Q : Store → Prop} {base : Option Store} {w : World}

/-- Rewards under the same identifier are the same. -/
theorem reward_unique (h : w.WellKept Q base) {row row' : Row} (hrow : row ∈ w.store.rewards)
    (hrow' : row' ∈ w.store.rewards) (hkey : row'.key = row.key) : row' = row := by
  cases ht : w.store.table? rewardsTable with
  | none =>
    rw [Store.rewards, ht] at hrow
    cases hrow
  | some t =>
    rw [Store.rewards_eq ht] at hrow hrow'
    have hrows := (h.sound rewardsTable t ht).1.rowsSound
    obtain ⟨u, hu⟩ := (h.kept rewardsTable t ht row hrow).id (by decide)
    refine hrows.eq_of_seq hrow' hrow (hrows.seq_of_key row' hrow' row hrow ?_)
    rw [hkey, hu, Value.sameKey_uuid_iff]

/-- A reward is found under its identifier. -/
theorem get_reward (h : w.WellKept Q base) {id : Value} {columns : Fields} :
    w.store.get rewardsTable id = .ok (some columns) ↔
      ∃ row ∈ w.store.rewards, row.key = id ∧ row.columns = columns := by
  constructor
  · intro hget
    obtain ⟨t, row, ht, hrow, hkey, hcolumns⟩ := Store.exists_row_of_get hget
    obtain ⟨u, hu⟩ := (h.kept rewardsTable t ht row hrow).id (by decide)
    refine ⟨row, Store.rewards_eq ht ▸ hrow, ?_, hcolumns⟩
    rw [hu, Value.sameKey_uuid_iff] at hkey
    rw [hu, hkey]
  · rintro ⟨row, hrow, rfl, rfl⟩
    cases ht : w.store.table? rewardsTable with
    | none =>
      rw [Store.rewards, ht] at hrow
      cases hrow
    | some t =>
      have hmem := hrow
      rw [Store.rewards_eq ht] at hrow
      obtain ⟨u, hu⟩ := (h.kept rewardsTable t ht row hrow).id (by decide)
      -- a row with the same key would be another reward with the same identifier
      have hfind : t.find? row.key = some row := by
        cases hfind : t.find? row.key with
        | none =>
          have hnone := Table.find?_none hfind row hrow
          rw [hu, Value.sameKey_uuid_iff.2 rfl] at hnone
          cases hnone
        | some found =>
          obtain ⟨hfound, hkey⟩ := Table.find?_some hfind
          obtain ⟨u', hu'⟩ := (h.kept rewardsTable t ht found hfound).id (by decide)
          rw [hu', Value.sameKey_uuid_iff] at hkey
          rw [h.reward_unique hmem (Store.rewards_eq ht ▸ hfound) (hu'.trans hkey.symm)]
      rw [Store.get, Store.table, ht]
      simp only [bind, Except.bind, hfind]
      rw [hu]
      rfl

end World.WellKept

end RewardLedger
