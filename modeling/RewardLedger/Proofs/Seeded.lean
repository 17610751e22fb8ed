import RewardLedger.Proofs.Ledger.Added
import RewardLedger.Proofs.Ledger.Directory
import RewardLedger.Proofs.Rule.Listing
import RewardLedger.Proofs.Rule.Script

/-!
# Demonstration data is added once

Adding the demonstration data looks three users and a rule up, one after the other, and adds each that
is not there, without a transaction around them. Each look-up goes by the same normal form or name as
the adding after it, so if the clock can be read nothing fails (`Seed.ends_users`, `Seed.ends_rule`):
whatever was there stays as it was, and what was missing stands behind it (`World.Seeded`).

Users and versions of rules never disappear, whatever run follows, so adding the data again finds
everything there: it changes nothing, and gives the same users and the version of the rule that is the
latest by then (`World.seeded_once_of_run`). Along a run the world is followed in its books and in its
versions of rules at once (`World.HoldsAll`).
-/

namespace RewardLedger

variable {cfg : Config} {p : Permission} {b : Books} {rules rules' : List StoredRule}
  {w w' w'' : World}

open Op

/-! ## Books and rules together -/

namespace World

/-- The world holds books and versions of rules, no transaction is open, and its rows are kept as the
services keep them. -/
structure HoldsAll (cfg : Config) (b : Books) (rules : List StoredRule) (w : World) : Prop where
  /-- The world holds the books. -/
  books : w.Holds cfg none b
  /-- The world holds the versions. -/
  rules : w.HoldsRules none rules
  /-- The rows are kept. -/
  kept : w.WellKept (fun _ => True) none

/-- The world holds books and versions of rules that steps lead to from these. -/
def ReachesAll (cfg : Config) (p : Permission) (b : Books) (rules : List StoredRule) (w : World) :
    Prop :=
  ∃ b' rules', b.Steps cfg p b' ∧ RuleBook.Steps rules rules' ∧ w.HoldsAll cfg b' rules'

/-- A new world holds no books and no versions. -/
theorem IsNew.holdsAll (h : w.IsNew) : w.HoldsAll cfg {} [] :=
  ⟨h.holds, h.holdsRules, h.wellKept⟩

/-- Which books and versions a world holds depends only on the store and on the number of identifiers
given out. -/
theorem HoldsAll.congr (h : w.HoldsAll cfg b rules) (hs : w'.store = w.store)
    (hi : w'.issued = w.issued) : w'.HoldsAll cfg b rules where
  books := h.books.congr hs hi
  rules := h.rules.congr hs (Nat.le_of_eq hi.symm)
  kept := restsOnStore_wellKept _ _ hs (Nat.le_of_eq hi.symm) h.kept

/-- A world that holds books holds the versions that its rows of rules stood for before, if these are
alike. -/
theorem HoldsRules.of_table_alike {b' : Books} (h : w.HoldsRules none rules)
    (hw' : w'.Holds cfg none b') (hi : w.issued ≤ w'.issued)
    (ha : Option.Rel Table.Alike (w'.store.table? rulesTable) (w.store.table? rulesTable)) :
    w'.HoldsRules none rules where
  sound := hw'.sound
  declared := hw'.declared
  lists := h.lists.of_table_alike ha
  reached := h.reached
  given r hr := Nat.le_trans (h.given r hr) hi
  within := hw'.within

end World

/-- What passes the table of rules by and moves the books along leaves the versions as they are, whether
it succeeds or fails. -/
theorem Op.Steady.ends_holdsAll {α : Type} {op : Op α} (hs : op.Steady [rulesTable])
    (hm : op.Moves cfg p) (h : w.HoldsAll cfg b rules) :
    op.Ends w (fun _ w' => ∃ b', b.Steps cfg p b' ∧ w'.HoldsAll cfg b' rules)
      fun _ w' => ∃ b', b.Steps cfg p b' ∧ w'.HoldsAll cfg b' rules := by
  have hlasting : Store.Lasting (fun _ => True) [rulesTable] :=
    ⟨fun _ _ => trivial, fun _ _ _ _ => trivial, fun _ _ _ _ _ _ => trivial⟩
  have hboth : ∀ w' : World, w'.Reached cfg (Books.Steps cfg p) b →
      Option.Rel Table.Alike (w'.store.table? rulesTable) (w.store.table? rulesTable) →
      w'.WellKept (fun _ => True) none → ∃ b', b.Steps cfg p b' ∧ w'.HoldsAll cfg b' rules := by
    rintro w' ⟨b', hb', hw'⟩ halike hkept
    have hi : w.issued ≤ w'.issued := by
      rw [← h.books.issued, ← hw'.issued]
      exact hb'.issued_le
    exact ⟨b', hb', hw', h.rules.of_table_alike hw' hi halike, hkept⟩
  refine ((hm b w h.books.reached).and
    ((hs.ends_alike h.kept).and (hs _ hlasting none w h.kept))).mono ?_ ?_
  · rintro _ w' ⟨hreached, halike, hkept⟩
    exact hboth w' hreached halike hkept
  · rintro _ w' ⟨hreached, halike, hkept⟩
    exact hboth w' hreached halike hkept

/-- Adding the demonstration data leads to versions that steps lead to, whether it succeeds or fails. -/
theorem Seed.ends_run_rules (h : w.HoldsAll cfg b rules) :
    Seed.run.Ends w (fun _ w' => w'.RulesFrom none rules) fun _ w' => w'.RulesFrom none rules := by
  have hsteady : ∀ u : String × String, (user u.1 u.2).Steady [rulesTable] := fun u =>
    steady_user (by decide) u.1 u.2
  have hgrows : ∀ u : String × String, (user u.1 u.2).Grows cfg .full := fun u =>
    grows_user u.1 u.2
  have hmoves : (users.mapM fun u => user u.1 u.2).Moves cfg .full :=
    Grows.moves fun b => keeps_mapM (fun u => hgrows u b) users
  refine ends_bind (((steady_mapM hsteady users).ends_holdsAll hmoves h).mono ?_ ?_)
  · rintro us w' ⟨b', -, hw'⟩
    have hrules := hw'.rules
    obtain ⟨all, hall⟩ := hrules.reached.exists_listing
    refine ends_bind (ends_bind ?_)
    rw [Ends, show (RuleBook.latest? ruleName).perform w' = _ from
      RuleBook.perform_latest? hrules hall _]
    dsimp only
    cases ((all.filter (RuleBook.isLatest rules)).find? _).map StoredRule.toRule with
    | some found =>
      exact ends_pure (ends_bind (ends_log (ends_pure ⟨rules, .refl, hrules.congr rfl (Nat.le_refl _)⟩)))
    | none =>
      refine (RuleBook.ends_create hrules _ _ _ _ _ _).mono ?_ fun _ _ hbad => hbad.2
      rintro rule w'' ⟨rules', hw'', r, hcreated, -⟩
      exact ends_bind (ends_log (ends_pure ⟨rules', hcreated.steps, hw''.congr rfl (Nat.le_refl _)⟩))
  · rintro _ w' ⟨b', -, hw'⟩
    exact hw'.rules.rulesFrom

namespace Call

/-- Calls that are not those of the rule book do not write to the table of rules, but for the one that
adds the demonstration data. -/
theorem rulesTable_notMem_writes {call : Call} (h : ¬call.OfRules) (hseed : call ≠ .seed) :
    rulesTable ∉ call.writes := by
  cases call with
  | createRule | updateRule | deactivateRule => exact absurd trivial h
  | seed => exact absurd rfl hseed
  | _ => simp [writes, rulesTable, usersTable, entriesTable, rewardsTable, requestsTable]

/-- A call that may be made leads to books and versions that steps lead to, whether it succeeds or
fails. -/
theorem reachesAll {call : Call} (hcall : call.Allowed p) (h : w.HoldsAll cfg b rules) :
    ((call.perform cfg).perform w).2.ReachesAll cfg p b rules := by
  have hrules : ((call.perform cfg).perform w).2.RulesFrom none rules →
      ((call.perform cfg).perform w).2.ReachesAll cfg p b rules := by
    rintro ⟨rules', hsteps, hw'⟩
    obtain ⟨b', hb', hbooks⟩ := (moves hcall b w h.books.reached).perform_snd
    exact ⟨b', rules', hb', hsteps, hbooks, hw',
      wellKept_perform hcall.ofServices Store.lasting_true h.kept⟩
  by_cases hof : call.OfRules
  · exact hrules (rulesFrom_perform hof h.rules)
  by_cases hseed : call = .seed
  · subst hseed
    refine hrules (Ends.perform_snd (P := World.RulesFrom none rules) ?_)
    refine ends_bind ((Seed.ends_run_rules h).mono (fun _ w' hw' => ?_) fun _ _ hw' => hw')
    exact ends_bind (ends_ofExcept (fun _ _ => ends_pure hw') fun _ _ => hw')
  · have hsteady : (call.perform cfg).Steady [rulesTable] :=
      steady hcall.ofServices fun name hname hmem =>
        rulesTable_notMem_writes hof hseed (List.mem_singleton.1 hmem ▸ hname)
    obtain ⟨b', hb', hw'⟩ := (hsteady.ends_holdsAll (moves hcall) h).perform_snd
    exact ⟨b', rules, hb', .refl, hw'⟩

end Call

namespace World

/-- Turns that may be taken lead to books and versions that steps lead to. -/
theorem HoldsAll.run (h : w.HoldsAll cfg b rules) {turns : List Turn}
    (hturns : ∀ t ∈ turns, t.call.Allowed p) : (w.run cfg turns).ReachesAll cfg p b rules := by
  induction turns generalizing w b rules with
  | nil => exact ⟨b, rules, .refl, .refl, h⟩
  | cons t rest ih =>
    have hclock : ({ w with clock := t.clock } : World).HoldsAll cfg b rules := h.congr rfl rfl
    obtain ⟨b₁, rules₁, hb₁, hrules₁, hw₁⟩ := Call.reachesAll (hturns t List.mem_cons_self) hclock
    obtain ⟨b', rules', hb', hrules', hw'⟩ :=
      ih hw₁ fun t' ht' => hturns t' (List.mem_cons_of_mem _ ht')
    exact ⟨b', rules', hb₁.trans hb', hrules₁.trans hrules', hw'⟩

end World

/-! ## Users -/

/-- A clock that can be read once more gives a reading and what can be read after it. -/
theorem Clock.exists_read_of_gives {c : Clock} {n : ℕ} (h : c.gives (n + 1) = true) :
    ∃ now c', c.read? = some (now, c') ∧ c'.gives n = true := by
  rw [gives] at h
  cases hread : c.read? with
  | none =>
    rw [hread] at h
    cases h
  | some found =>
    rw [hread] at h
    exact ⟨found.1, found.2, rfl, h⟩

/-- Adding a user only adds a row. -/
theorem Users.appends_create (email name : Value) : (create email name).Appends := by
  refine appends_bind (reads_ofExcept _).appends fun normal =>
    appends_bind reads_freshId.appends fun id => appends_bind reads_readClock.appends fun now => ?_
  refine appends_bind (appends_onDuplicate_refuse (appends_insert _ _) _) fun stored => ?_
  exact appends_bind (reads_log _ _ _).appends fun _ => (reads_ofExcept _).appends

/-- The user has the email and the name that are wanted. -/
structure User.IsWanted (wanted : String × String) (u : User) : Prop where
  /-- The user has the email. -/
  email : u.email = wanted.1
  /-- The user has the name. -/
  name : u.name = some wanted.2

namespace Seed

/-- Those who are wanted whose email no user has. -/
def missing (wanted : List (String × String)) (us : List User) : List (String × String) :=
  wanted.filter fun d => ∀ u ∈ us, u.email ≠ d.1

/-- Who is missing depends only on the emails that users have. -/
theorem missing_congr {wanted : List (String × String)} {us us' : List User}
    (h : ∀ d ∈ wanted, (∃ u ∈ us, u.email = d.1) ↔ ∃ u ∈ us', u.email = d.1) :
    missing wanted us = missing wanted us' := by
  refine List.filter_congr fun d hd => decide_eq_decide.2 ?_
  have hd := not_congr (h d hd)
  push Not at hd
  exact hd

/-- Users have been added to the world behind those that it held, and nothing else. -/
structure AddsUsers (cfg : Config) (b : Books) (rules : List StoredRule) (w w' : World)
    (added : List User) : Prop where
  /-- The users are held behind the others. -/
  holds : w'.HoldsAll cfg { b with users := b.users ++ added, issued := w'.issued } rules
  /-- The rows that were there are still there. -/
  rows : w.store.Appended w'.store
  /-- The other tables are as they were. -/
  others : ∀ table, table ≠ usersTable → w'.store.table? table = w.store.table? table

theorem AddsUsers.refl (h : w.HoldsAll cfg b rules) : AddsUsers cfg b rules w w [] := by
  refine ⟨?_, .of_rowsOf_eq fun _ => rfl, fun _ _ => rfl⟩
  rw [List.append_nil, ← h.books.issued]
  exact h

theorem AddsUsers.trans {added added' : List User} (h : AddsUsers cfg b rules w w' added)
    (h' : AddsUsers cfg { b with users := b.users ++ added, issued := w'.issued } rules w' w'' added') :
    AddsUsers cfg b rules w w'' (added ++ added') := by
  refine ⟨?_, h.rows.trans h'.rows, fun table hne => (h'.others table hne).trans (h.others table hne)⟩
  rw [← List.append_assoc]
  exact h'.holds

/-- Adding a user under an email that is free adds the user and nothing else. -/
theorem ends_create_free (h : w.HoldsAll cfg b rules) {email name : String}
    (hfree : ∀ u ∈ b.users, u.email ≠ Users.normal email) {now : Instant} {clock : Clock}
    (hread : w.clock.read? = some (now, clock)) :
    (Users.create (.str email) (.str name)).Ends w
      (fun u w' => u.IsWanted (Users.normal email, name) ∧ AddsUsers cfg b rules w w' [u] ∧
        w'.clock = clock)
      fun _ _ => False := by
  have hsteady : (Users.create (.str email) (.str name)).Steady :=
    Users.steady_create List.not_mem_nil _ _
  refine ((Users.ends_create_exact h.books email (some name) hread).and
    ((Users.appends_create _ _ w).and (hsteady _ Store.lasting_true none w h.kept))).mono ?_ ?_
  · rintro u w' ⟨⟨-, hu, hbooks, hothers, hclock⟩, happended, hkept⟩
    have hissued : w.issued + 1 = w'.issued := hbooks.issued
    have hle : w.issued ≤ w'.issued := hissued ▸ Nat.le_succ _
    have halike : Option.Rel Table.Alike (w'.store.table? rulesTable)
        (w.store.table? rulesTable) := by
      rw [hothers rulesTable (by decide)]
      exact Store.Alike.refl _ _
    rw [hissued] at hbooks
    refine ⟨⟨by rw [hu], by rw [hu]⟩, ⟨?_, happended, hothers⟩, hclock⟩
    exact ⟨hbooks, h.rules.of_table_alike hbooks hle halike, hkept⟩
  · rintro _ _ ⟨⟨⟨x, hx, hemail⟩, -⟩, -⟩
    exact hfree x hx hemail

/-- Looking up or adding a user who is wanted finds one who has the email, or adds one if there is none;
if the clock can be read once more, it does not fail. -/
theorem ends_user (h : w.HoldsAll cfg b rules) {d : String × String}
    (hnormal : Users.normal d.1 = d.1) {n : ℕ} (hclock : w.clock.gives (n + 1) = true) :
    (user d.1 d.2).Ends w
      (fun u w' => ∃ added, AddsUsers cfg b rules w w' added ∧
        List.Forall₂ User.IsWanted (missing [d] b.users) added ∧
        (u ∈ b.users ++ added ∧ u.email = d.1) ∧ w'.clock.gives n = true)
      fun _ _ => False := by
  refine ends_tryCatch ?_
  by_cases hfound : ∃ u ∈ b.users, u.email = d.1
  · obtain ⟨u, hu, hemail⟩ := hfound
    have hmissing : missing [d] b.users = [] :=
      List.filter_eq_nil_iff.2 fun x hx => by
        rw [List.mem_singleton.1 hx, decide_eq_true_eq]
        exact fun hnone => hnone u hu hemail
    rw [Ends, Users.perform_getByEmail h.books hu (hemail.trans hnormal.symm)]
    refine ⟨[], .refl h, ?_, ⟨List.mem_append_left _ hu, hemail⟩, Clock.gives_of_gives_add hclock⟩
    rw [hmissing]
    exact .nil
  · push Not at hfound
    have hmissing : missing [d] b.users = [d] := List.filter_eq_self.2 fun x hx => by
      rw [List.mem_singleton.1 hx, decide_eq_true_eq]
      exact hfound
    have hfree : ∀ u ∈ b.users, u.email ≠ Users.normal d.1 := hnormal.symm ▸ hfound
    obtain ⟨now, clock, hread, hgives⟩ := Clock.exists_read_of_gives hclock
    rw [Ends, Users.perform_getByEmail_unknown h.books hfree]
    dsimp only
    -- an email that is not found is a user who is not found, and so the user is added
    rw [if_pos (show (Failure.fault (.emailNotFound d.1)).faultKind? = some .userNotFound from rfl)]
    refine (ends_create_free h hfree hread).mono ?_ fun _ _ hbad => hbad
    rintro u w' ⟨hwanted, hadds, rfl⟩
    rw [hnormal] at hwanted
    refine ⟨[u], hadds, ?_, ⟨List.mem_append_right _ List.mem_cons_self, hwanted.email⟩, hgives⟩
    rw [hmissing]
    exact .cons hwanted .nil

/-- Looking up or adding the users who are wanted, one after the other, adds exactly those who are
missing, and gives for each the user who has the email. -/
theorem ends_users {wanted : List (String × String)} (hnormal : ∀ d ∈ wanted, Users.normal d.1 = d.1)
    (hnodup : (wanted.map Prod.fst).Nodup) {n : ℕ} (h : w.HoldsAll cfg b rules)
    (hclock : w.clock.gives (n + wanted.length) = true) :
    (wanted.mapM fun d => user d.1 d.2).Ends w
      (fun us w' => ∃ added, AddsUsers cfg b rules w w' added ∧
        List.Forall₂ User.IsWanted (missing wanted b.users) added ∧
        List.Forall₂ (fun d u => u ∈ b.users ++ added ∧ u.email = d.1) wanted us ∧
        w'.clock.gives n = true)
      fun _ _ => False := by
  induction wanted generalizing w b with
  | nil =>
    rw [List.mapM_nil]
    exact ends_pure ⟨[], .refl h, .nil, .nil, hclock⟩
  | cons d rest ih =>
    obtain ⟨hd, hrest⟩ := List.nodup_cons.1 hnodup
    rw [List.mapM_cons]
    refine ends_bind ((ends_user h (hnormal d List.mem_cons_self) hclock).mono ?_ fun _ _ hbad => hbad)
    rintro u w₁ ⟨added₁, hadds₁, hwanted₁, ⟨hu, hemail⟩, hclock₁⟩
    refine ends_bind ((ih (fun x hx => hnormal x (List.mem_cons_of_mem _ hx)) hrest hadds₁.holds
      hclock₁).mono ?_ fun _ _ hbad => hbad)
    rintro us w₂ ⟨added₂, hadds₂, hwanted₂, hfound, hclock₂⟩
    -- the one who was added has another email than those who are still wanted
    have hsame : missing rest (b.users ++ added₁) = missing rest b.users := by
      refine missing_congr fun x hx => ⟨?_, fun ⟨y, hy, hyx⟩ => ⟨y, List.mem_append_left _ hy, hyx⟩⟩
      rintro ⟨y, hy, hyx⟩
      rcases List.mem_append.1 hy with hy | hy
      · exact ⟨y, hy, hyx⟩
      · obtain ⟨d', hd', hyd⟩ := exists_mem_of_forall₂ hwanted₁.flip hy
        have hd' := List.mem_singleton.1 (List.mem_filter.1 hd').1
        refine absurd (List.mem_map.2 ⟨x, hx, ?_⟩) hd
        rw [← hyx, hyd.email, hd']
    have hsplit : missing (d :: rest) b.users = missing [d] b.users ++ missing rest b.users :=
      List.filter_append [d] rest
    rw [hsame] at hwanted₂
    refine ends_pure ⟨added₁ ++ added₂, hadds₁.trans hadds₂, ?_, ?_, hclock₂⟩
    · rw [hsplit]
      exact List.rel_append hwanted₁ hwanted₂
    · rw [← List.append_assoc]
      exact .cons ⟨List.mem_append_left _ hu, hemail⟩ hfound

/-- Where users have all the emails that are wanted, they are found, and nothing is done. -/
theorem perform_users (h : w.Holds cfg none b) {wanted : List (String × String)} {us : List User}
    (hfound : List.Forall₂ (fun d u => u ∈ b.users ∧ u.email = Users.normal d.1) wanted us) :
    (wanted.mapM fun d => user d.1 d.2).perform w = (.ok us, w) := by
  induction hfound with
  | nil => rfl
  | @cons d u rest us hd _ ih =>
    have hone : (user d.1 d.2).perform w = (.ok u, w) := by
      rw [user, perform_tryCatch, Users.perform_getByEmail h hd.1 hd.2]
    rw [List.mapM_cons, perform_bind, hone]
    dsimp only
    rw [perform_bind, ih]
    rfl

end Seed

/-! ## The rule -/

/-- The rule is one of the rules, has the name, and no rule of the name has a greater version. -/
structure Rule.IsLatest (name : Value) (all : List Rule) (r : Rule) : Prop where
  /-- It is one of the rules. -/
  mem : r ∈ all
  /-- It has the name. -/
  named : r.name = name
  /-- No rule of the name has a greater version. -/
  greatest : ∀ o ∈ all, o.name = name →
    ∃ k n : Nat, o.version = .int k ∧ r.version = .int n ∧ k ≤ n

namespace RuleBook

variable {base : Option Store} {all : List StoredRule}

/-- The version with the last number of its name is the latest of the rules that are listed. -/
theorem Listing.isLatest (h : Listing rules all) (hr : Steps [] rules) {r : StoredRule}
    (hmem : r ∈ rules) (hlast : RuleBook.isLatest rules r = true) :
    Rule.IsLatest (.str r.name) (all.map StoredRule.toRule) r.toRule := by
  refine ⟨List.mem_map_of_mem (h.perm.mem_iff.2 hmem), rfl, fun o ho hname => ?_⟩
  obtain ⟨x, hx, rfl⟩ := List.mem_map.1 ho
  exact ⟨x.version, r.version, rfl, rfl,
    (hr.isLatest_iff hmem).1 hlast x (h.perm.mem_iff.1 hx) (Value.str.inj hname)⟩

/-- Asking for the latest version of a name finds it, or no version has the name. -/
theorem latest?_cases (h : w.HoldsRules base rules) (name : String) :
    (∃ r ∈ rules, r.name = name ∧ isLatest rules r = true ∧
        (latest? (.str name)).perform w = (.ok (some r.toRule), w)) ∨
      (∀ r ∈ rules, r.name ≠ name) ∧ (latest? (.str name)).perform w = (.ok none, w) := by
  obtain ⟨all, hall⟩ := h.reached.exists_listing
  have hperform := perform_latest? h hall name
  cases hfind : (all.filter (isLatest rules)).find? (·.name = name) with
  | some r =>
    rw [hfind] at hperform
    obtain ⟨hmem, hlast⟩ := List.mem_filter.1 (List.mem_of_find?_eq_some hfind)
    exact .inl ⟨r, hall.perm.mem_iff.1 hmem, by simpa using List.find?_some hfind, hlast, hperform⟩
  | none =>
    rw [hfind] at hperform
    refine .inr ⟨fun r hr hname => ?_, hperform⟩
    obtain ⟨o, ho, hon, hlast⟩ := h.reached.exists_latest hr
    have hmem := List.mem_filter.2 ⟨hall.perm.mem_iff.2 ho, hlast⟩
    exact List.find?_eq_none.1 hfind o hmem (decide_eq_true (hon.trans hname))

/-- Where there is no version of its name, the new version is the first one, and none is retired. -/
theorem Created.first {r : StoredRule} (h : Created rules r rules') (hr : Steps [] rules)
    (hnone : ∀ o ∈ rules, o.name ≠ r.name) : rules' = rules ++ [r] ∧ r.version = 1 := by
  have hnamed : rules.filter (·.name = r.name) = [] :=
    List.filter_eq_nil_iff.2 fun o ho => by simpa using hnone o ho
  have heq : rules' = rules ++ [r] := by
    rw [h.eq, superseded, activeIds, hnamed]
    exact congrArg (· ++ [r]) (List.map_id'' (fun o => if_neg List.not_mem_nil) rules)
  -- the numbers of a name start with 1
  have hversions : versionsOf r.name rules' = [r.version] := by
    rw [heq, versionsOf_append, if_pos rfl, versionsOf, hnamed]
    rfl
  have hnumbered := Steps.numbered (hr.trans h.steps) r.name
  rw [hversions] at hnumbered
  exact ⟨heq, (List.cons.inj hnumbered).1⟩

/-- The first version of a name is added as the last row, and no other row is changed; once its parts
have been read and the clock can be read, this could fail for a taken key only. -/
theorem ends_create_appends (h : w.HoldsRules base rules) {name : String}
    (hname : isName (.str name) = true) (hnone : ∀ r ∈ rules, r.name ≠ name) {conditions : Value}
    {condition : Condition} (hcondition : Condition.read .strict conditions = .ok condition)
    {actions : Value} {read : List Action} (hactions : Action.readList .strict actions = .ok read)
    {metadata object : Value} (hmetadata : (metadata.orElse (.object [])).asObject = .ok object)
    (description active : Value) (hclock : w.clock.gives 1 = true) :
    (create (.str name) conditions actions metadata description active).Ends w
      (fun _ w' => w.store.Appended w'.store ∧
        ∀ table, table ≠ rulesTable → w'.store.table? table = w.store.table? table)
      fun e _ => e.isDuplicate = true := by
  obtain ⟨now, clock, hread, -⟩ := Clock.exists_read_of_gives hclock
  rw [← World.enter_clock] at hread
  have hin := h.enter
  obtain ⟨previous, hprevious, hrows⟩ := exists_select_name hin name
  have hempty : rules.filter (·.name = name) = [] :=
    List.filter_eq_nil_iff.2 fun r hr => by simpa using hnone r hr
  rw [hempty] at hrows
  cases hrows
  unfold create
  rw [hname]
  refine ends_bind (ends_ofExcept_ok hcondition (ends_bind (ends_ofExcept_ok hactions ?_)))
  refine ends_bind (ends_transaction (ends_bind (ends_query_ok hprevious ?_)))
  -- there is no row to be deactivated, so the first thing that is done to the store is the insert
  refine ends_bind (ends_ofExcept_ok (a := .int 1) rfl (ends_bind (ends_pure ?_)))
  refine ends_bind (ends_freshId (ends_bind (ends_ofExcept_ok hmetadata ?_)))
  refine ends_bind (ends_readClock (fun now' clock' _ => ?_) fun hnever => ?_)
  swap
  · cases hnever.symm.trans hread
  let r : StoredRule := {
    id := ⟨w.enter.issued + 1⟩, name, version := 1, condition, actions := read, active, description
    metadata := object, createdAt := now', place := w.enter.store.nextSeq }
  have hfits := fitsTable_newRow hin r
  obtain ⟨t, ht, hprimary, -⟩ := id hin.lists
  refine ends_bind (ends_change (fun columns s hrun => ?_) fun e s hrun => ?_)
  · obtain ⟨t', -, -, -, -, hcolumns, rfl⟩ := Store.of_run_insert_ok hrun
    refine ends_pure (ends_bind (ends_log (ends_ofExcept_ok (a := r.toRule) ?_ ?_)))
    · have hrow : r.IsRow _ := StoredRule.isRow_newRow (r := r) (.of_read hcondition)
        (Action.Proper.of_readList hactions) (Value.asObject_of_asObject hmetadata) r.place
      rw [hcolumns]
      exact StoredRule.IsRow.ofRow hrow
    · refine ⟨fun table => ?_, fun table hne => ?_⟩
      · rw [← Store.rowsOf_congr (table?_enter w table), Store.rowsOf_congr (table?_leave w _ table)]
        exact Store.appended_inserted _ _ _ _ table
      · exact (table?_leave w _ table).trans ((Store.table?_inserted ..).trans
          ((if_neg hne).trans (table?_enter w table)))
  · have hkey : (r.newRow.get t.primaryKey).IsPlain := by
      rw [hprimary]
      trivial
    exact Store.isDuplicate_of_run_insert hin.sound ht hkey hfits hrun

end RuleBook

namespace Seed

/-- What looking the rule up or making it comes to: the latest version is there and nothing is done, or
no version is there and the first one is added, which is active. -/
inductive RuleMade (s : Store) (rules : List StoredRule) (r : StoredRule) :
    List StoredRule → Store → Prop where
  /-- The rule is there. -/
  | found (hr : r ∈ rules) (hlast : RuleBook.isLatest rules r = true) : RuleMade s rules r rules s
  /-- The rule is made. -/
  | made {s' : Store} (hnone : ∀ o ∈ rules, o.name ≠ r.name) (hversion : r.version = 1)
    (hactive : r.active = .bool true) (rows : s.Appended s')
    (others : ∀ table, table ≠ rulesTable → s'.table? table = s.table? table) :
    RuleMade s rules r (rules ++ [r]) s'

/-- What succeeds has a result. -/
theorem exists_of_isOk {α : Type} {r : Except Failure α} (h : r.isOk = true) : ∃ a, r = .ok a := by
  cases r with
  | ok a => exact ⟨a, rfl⟩
  | error e => cases h

/-- Making the rule where there is no version of it adds the first one and nothing else. -/
theorem ends_create_rule (h : w.HoldsAll cfg b rules) {name : String} (hname : ruleName = .str name)
    (hnone : ∀ r ∈ rules, r.name ≠ name) (hclock : w.clock.gives 1 = true) :
    (RuleBook.create ruleName conditions actions metadata ruleDescription).Ends w
      (fun found w' => ∃ r rules', found = r.toRule ∧ r.name = name ∧
        RuleMade w.store rules r rules' w'.store ∧ w'.HoldsAll cfg { b with issued := w'.issued } rules')
      fun _ _ => False := by
  obtain ⟨condition, hcondition⟩ : ∃ c, Condition.read .strict conditions = .ok c :=
    exists_of_isOk (by decide +kernel)
  obtain ⟨read, hactions⟩ : ∃ as, Action.readList .strict actions = .ok as :=
    exists_of_isOk (by decide +kernel)
  have hmetadata : (metadata.orElse (.object [])).asObject = .ok metadata := rfl
  have hnamed : RuleBook.isName (.str name) = true := hname ▸ by decide +kernel
  have hsteady : (RuleBook.create ruleName conditions actions metadata ruleDescription).Steady :=
    RuleBook.steady_create List.not_mem_nil _ _ _ _ _ _
  have hbooks : (RuleBook.create ruleName conditions actions metadata ruleDescription).Aside cfg :=
    RuleBook.aside_create _ _ _ _ _ _
  have happends := RuleBook.ends_create_appends h.rules hnamed hnone hcondition hactions hmetadata
    ruleDescription (.bool true) hclock
  rw [← hname] at happends
  -- which versions there are then, which rows, which books, and that all is kept as it should be
  refine ((RuleBook.ends_create h.rules _ _ _ _ _ _).and (happends.and
    ((hbooks none b w h.books.beside).and (hsteady _ Store.lasting_true none w h.kept)))).mono ?_ ?_
  · rintro found w' ⟨⟨rules', hrules, r, hcreated, hfound, hmade⟩, ⟨hrows, hothers⟩, ⟨n, -, hw'⟩,
      hkept⟩
    have hrname : r.name = name := Value.str.inj (hmade.name.symm.trans hname)
    obtain ⟨rfl, hversion⟩ := hcreated.first h.rules.reached (hrname ▸ hnone)
    rw [show n = w'.issued from hw'.issued] at hw'
    exact ⟨r, _, hfound, hrname, .made (hrname ▸ hnone) hversion hmade.active hrows hothers, hw',
      hrules, hkept⟩
  · -- what only a taken key could stop does not fail, for no key is taken
    rintro e w' ⟨⟨hno, -⟩, hyes, -⟩
    rw [hno] at hyes
    cases hyes

/-- Looking the rule up or making it does not fail if the clock can be read. -/
theorem ends_rule (h : w.HoldsAll cfg b rules) {name : String} (hname : ruleName = .str name)
    (hclock : w.clock.gives 1 = true) :
    rule.Ends w
      (fun found w' => ∃ r rules', found = r.toRule ∧ r.name = name ∧
        RuleMade w.store rules r rules' w'.store ∧ w'.HoldsAll cfg { b with issued := w'.issued } rules')
      fun _ _ => False := by
  refine ends_bind ?_
  rcases RuleBook.latest?_cases h.rules name with ⟨r, hr, hrname, hlast, hrun⟩ | ⟨hnone, hrun⟩
  · rw [Ends, hname, hrun]
    refine ends_pure ⟨r, rules, rfl, hrname, .found hr hlast, ?_⟩
    rw [← h.books.issued]
    exact h
  · rw [Ends, hname, hrun]
    rw [← hname]
    exact ends_create_rule h hname hnone hclock

/-- The rows that were there are still there. -/
theorem RuleMade.appended {s s' : Store} {r : StoredRule} (h : RuleMade s rules r rules' s') :
    s.Appended s' := by
  cases h with
  | found => exact .of_rowsOf_eq fun _ => rfl
  | made _ _ _ rows _ => exact rows

/-- The other tables are as they were. -/
theorem RuleMade.others {s s' : Store} {r : StoredRule} (h : RuleMade s rules r rules' s') :
    ∀ table, table ≠ rulesTable → s'.table? table = s.table? table := by
  cases h with
  | found => exact fun _ _ => rfl
  | made _ _ _ _ others => exact others

/-- The version that there is in the end is the latest one. -/
theorem RuleMade.latest {s s' : Store} {r : StoredRule} (h : RuleMade s rules r rules' s')
    (hr : RuleBook.Steps [] rules') : r ∈ rules' ∧ RuleBook.isLatest rules' r = true := by
  cases h with
  | found hmem hlast => exact ⟨hmem, hlast⟩
  | made hnone =>
    have hmem : r ∈ rules ++ [r] := List.mem_append_right _ List.mem_cons_self
    refine ⟨hmem, (hr.isLatest_iff hmem).2 fun o ho hname => ?_⟩
    rcases List.mem_append.1 ho with ho | ho
    · exact absurd hname (hnone o ho)
    · rw [List.mem_singleton.1 ho]

/-- Adding the demonstration data does not fail if the clock can be read four times. -/
theorem ends_run (h : w.HoldsAll cfg b rules) (hclock : w.clock.gives 4 = true) :
    Seed.run.Ends w
      (fun result w' => ∃ added w₁ r rules', AddsUsers cfg b rules w w₁ added ∧
        List.Forall₂ User.IsWanted (missing users b.users) added ∧
        List.Forall₂ (fun d u => u ∈ b.users ++ added ∧ u.email = d.1) users result.1 ∧
        result.2 = r.toRule ∧ Value.str r.name = ruleName ∧ RuleMade w₁.store rules r rules' w'.store ∧
        w'.HoldsAll cfg { b with users := b.users ++ added, issued := w'.issued } rules')
      fun _ _ => False := by
  have hnormal : ∀ d ∈ users, Users.normal d.1 = d.1 := by decide +kernel
  have hnodup : (users.map Prod.fst).Nodup := by decide
  refine ends_bind ((ends_users hnormal hnodup h (n := 1) hclock).mono ?_ fun _ _ hbad => hbad)
  rintro us w₁ ⟨added, hadds, hwanted, hfound, hclock₁⟩
  refine ends_bind ((ends_rule hadds.holds rfl hclock₁).mono ?_ fun _ _ hbad => hbad)
  rintro found w₂ ⟨r, rules', rfl, hname, hmade, hw₂⟩
  exact ends_bind (ends_log (ends_pure ⟨added, w₁, r, rules', hadds, hwanted, hfound, rfl,
    congrArg Value.str hname, hmade, hw₂.congr rfl rfl⟩))

end Seed

/-! ## Adding the data, and adding it again -/

namespace World

/-- The demonstration data has been added: what was missing stands behind what was there, the users are
those who have the emails, and the rule is the latest version. -/
structure Seeded (w w' : World) (us : List User) (rule : Rule) : Prop where
  /-- The rows that were there are still there, as they were. -/
  rows : w.store.Appended w'.store
  /-- Only users and rules are added. -/
  others : ∀ table, table ≠ usersTable → table ≠ rulesTable →
    w'.store.table? table = w.store.table? table
  /-- Exactly those users are added whose email no user had, with their names. -/
  users : ∃ old added, Users.all.perform w = (.ok old, w) ∧
    Users.all.perform w' = (.ok (added.reverse ++ old), w') ∧
    List.Forall₂ User.IsWanted (Seed.missing Seed.users old) added ∧
    List.Forall₂ (fun d u => u ∈ added.reverse ++ old ∧ u.email = d.1) Seed.users us
  /-- A rule is added exactly if there was no version of it, and it is an active first version. -/
  rules : ∃ old all, RuleBook.all.perform w = (.ok old, w) ∧
    RuleBook.all.perform w' = (.ok all, w') ∧ rule.IsLatest Seed.ruleName all ∧
    ((∃ r ∈ old, r.name = Seed.ruleName) →
      w'.store.rowsOf rulesTable = w.store.rowsOf rulesTable ∧ all = old) ∧
    ((∀ r ∈ old, r.name ≠ Seed.ruleName) →
      (∃ row, w'.store.rowsOf rulesTable = w.store.rowsOf rulesTable ++ [row]) ∧
      all.Perm (rule :: old) ∧ rule.version = .int 1 ∧ rule.active = .bool true)

/-- The demonstration data is there: adding it again writes to the log only, and gives these users, with
other names at most, and the version of the rule that is the latest. -/
def HasSeed (w : World) (us : List User) : Prop :=
  ∃ us' rule all record,
    Seed.run.perform w = (.ok (us', rule), { w with log := record :: w.log }) ∧
      List.Forall₂ User.SameAccount us us' ∧
      RuleBook.all.perform w = (.ok all, w) ∧ rule.IsLatest Seed.ruleName all

/-- What looking the rule up or making it comes to is what is said of the listed rules. -/
theorem HoldsAll.seeded_rules {b' : Books} {r : StoredRule} {s : Store} (h : w.HoldsAll cfg b rules)
    (h' : w'.HoldsAll cfg b' rules') (hmade : Seed.RuleMade s rules r rules' w'.store)
    (hs : s.table? rulesTable = w.store.table? rulesTable) {name : Value}
    (hname : Value.str r.name = name) :
    ∃ old all, RuleBook.all.perform w = (.ok old, w) ∧
      RuleBook.all.perform w' = (.ok all, w') ∧ r.toRule.IsLatest name all ∧
      ((∃ r ∈ old, r.name = name) →
        w'.store.rowsOf rulesTable = w.store.rowsOf rulesTable ∧ all = old) ∧
      ((∀ r ∈ old, r.name ≠ name) →
        (∃ row, w'.store.rowsOf rulesTable = w.store.rowsOf rulesTable ++ [row]) ∧
        all.Perm (r.toRule :: old) ∧ r.toRule.version = .int 1 ∧ r.toRule.active = .bool true) := by
  subst hname
  -- what is listed before and afterwards are the versions before and afterwards, in order
  obtain ⟨old, hold⟩ := h.rules.reached.exists_listing
  obtain ⟨all, hall⟩ := h'.rules.reached.exists_listing
  obtain ⟨hmem, hlast⟩ := hmade.latest h'.rules.reached
  refine ⟨_, _, RuleBook.perform_all h.rules hold, RuleBook.perform_all h'.rules hall,
    hall.isLatest h'.rules.reached hmem hlast, ?_, ?_⟩
  · rintro ⟨o, ho, hname⟩
    obtain ⟨x, hx, rfl⟩ := List.mem_map.1 ho
    cases hmade with
    | found => exact ⟨Store.rowsOf_congr hs, by rw [hall.unique hold]⟩
    | made hnone => exact absurd (Value.str.inj hname) (hnone x (hold.perm.mem_iff.1 hx))
  · intro hnone
    cases hmade with
    | found => exact absurd rfl (hnone _ (List.mem_map_of_mem (hold.perm.mem_iff.2 hmem)))
    | made _ hversion hactive happended _ =>
      have hlists : s.Lists rules := h.rules.lists.of_table?_eq hs
      obtain ⟨row, hrow, -⟩ := happended.gainsRow hlists h'.rules.lists
      have hrow : w'.store.rowsOf rulesTable = s.rowsOf rulesTable ++ [row] := hrow
      rw [Store.rowsOf_congr hs] at hrow
      refine ⟨⟨row, hrow⟩, ?_, ?_, hactive⟩
      · have hperm : all.Perm (r :: old) :=
          hall.perm.trans ((List.perm_append_singleton r rules).trans (hold.perm.symm.cons r))
        exact hperm.map StoredRule.toRule
      · exact congrArg (fun n : ℕ => Value.int n) hversion

/-- In a world that holds books and versions of rules the demonstration data is added. -/
theorem HoldsAll.seeded (h : w.HoldsAll cfg b rules) (hclock : w.clock.gives 4 = true) :
    ∃ us rule w' b' rules', Seed.run.perform w = (.ok (us, rule), w') ∧ w.Seeded w' us rule ∧
      w'.HoldsAll cfg b' rules' ∧ (∃ r ∈ rules', Value.str r.name = Seed.ruleName) ∧
      List.Forall₂ (fun d u => u ∈ b'.users ∧ u.email = d.1) Seed.users us := by
  have hends := Seed.ends_run h hclock
  generalize hrun : Seed.run.perform w = run
  obtain ⟨_ | ⟨us, rule⟩, w'⟩ := run
  · exact (hends.bad_of_error hrun).elim
  obtain ⟨added, w₁, r, rules', hadds, hwanted, hfound, rfl, hname, hmade, hw'⟩ :=
    hends.good_of_ok hrun
  have hothers₁ : w₁.store.table? rulesTable = w.store.table? rulesTable :=
    hadds.others _ (by decide)
  refine ⟨us, r.toRule, w', _, rules', rfl, ⟨?_, fun table husers hrules => ?_, ?_, ?_⟩, hw',
    ⟨r, (hmade.latest hw'.rules.reached).1, hname⟩, hfound⟩
  · exact hadds.rows.trans hmade.appended
  · exact (hmade.others table hrules).trans (hadds.others table husers)
  · have hall := Users.perform_all hw'.books
    rw [List.reverse_append] at hall
    refine ⟨_, added, Users.perform_all h.books, hall, ?_, ?_⟩
    · rw [← @Seed.missing_congr _ b.users _ fun d _ => by simp only [List.mem_reverse]]
      exact hwanted
    · refine hfound.imp fun d u hu => ⟨?_, hu.2⟩
      rw [← List.reverse_append]
      exact List.mem_reverse.2 hu.1
  · exact h.seeded_rules hw' hmade hothers₁ hname

/-- Where users have the emails and there is a version of the rule, the demonstration data is there. -/
theorem HoldsAll.hasSeed (h : w.HoldsAll cfg b rules) {us us' : List User}
    (hfound : List.Forall₂ (fun d u => u ∈ b.users ∧ u.email = d.1) Seed.users us')
    (hsame : List.Forall₂ User.SameAccount us us')
    (hrule : ∃ r ∈ rules, Value.str r.name = Seed.ruleName) : w.HasSeed us := by
  have hnormal : ∀ d ∈ Seed.users, Users.normal d.1 = d.1 := by decide +kernel
  have husers : (Seed.users.mapM fun d => Seed.user d.1 d.2).perform w = (.ok us', w) := by
    refine Seed.perform_users h.books ?_
    have hboth := (List.forall₂_and_left _ _).2 ⟨fun d hd => hd, hfound⟩
    exact hboth.imp fun d u hu => ⟨hu.2.1, hu.2.2.trans (hnormal d hu.1).symm⟩
  obtain ⟨o, ho, hname⟩ := hrule
  obtain ⟨all, hall⟩ := h.rules.reached.exists_listing
  rcases RuleBook.latest?_cases h.rules o.name with ⟨r, hr, hrname, hlast, hrun⟩ | ⟨hnone, -⟩
  · rw [hname] at hrun
    have hmade : Seed.rule.perform w = (.ok r.toRule, w) := by
      rw [Seed.rule, perform_bind, hrun]
      rfl
    have hlatest := hall.isLatest h.rules.reached hr hlast
    rw [hrname, hname] at hlatest
    let record : LogRecord := ⟨.info, "demo_data_seeded",
      [("users", .int us'.length), ("rule_id", .str r.toRule.id.plainText)]⟩
    refine ⟨us', r.toRule, _, record, ?_, hsame, RuleBook.perform_all h.rules hall, hlatest⟩
    rw [Seed.run, perform_bind, husers]
    dsimp only
    rw [perform_bind, hmade]
    rfl
  · exact absurd rfl (hnone o ho)

/-- Whatever run follows, the demonstration data that is there stays. -/
theorem HoldsAll.hasSeed_of_run (h : w.HoldsAll cfg b rules) {us : List User}
    (hfound : List.Forall₂ (fun d u => u ∈ b.users ∧ u.email = d.1) Seed.users us)
    (hrule : ∃ r ∈ rules, Value.str r.name = Seed.ruleName) {later : List Turn}
    (hlater : ∀ t ∈ later, t.call.Allowed p) (clock : Clock) :
    ({ w.run cfg later with clock } : World).HasSeed us := by
  obtain ⟨b', rules', hb', hrules', hw'⟩ := h.run hlater
  have hclock : ({ w.run cfg later with clock } : World).HoldsAll cfg b' rules' := hw'.congr rfl rfl
  obtain ⟨us', hus', hsame⟩ : ∃ us',
      List.Forall₂ (fun d u => u ∈ b'.users ∧ u.email = d.1) Seed.users us' ∧
        List.Forall₂ User.SameAccount us us' := by
    -- each of the users is found among those who are there later
    generalize Seed.users = wanted at hfound
    induction hfound with
    | nil => exact ⟨[], .nil, .nil⟩
    | @cons d u _ _ hu _ ih =>
      obtain ⟨us', hus', hsame⟩ := ih
      obtain ⟨u', hu', hsame'⟩ := hb'.kept.exists_of_mem (List.mem_reverse.2 hu.1)
      exact ⟨u' :: us', .cons ⟨List.mem_reverse.1 hu', hsame'.email.trans hu.2⟩ hus',
        .cons hsame' hsame⟩
  obtain ⟨r, hr, hname⟩ := hrule
  obtain ⟨r', hr', hsame'⟩ := hrules'.exists_same hr
  exact hclock.hasSeed hus' hsame ⟨r', hr', by rw [hsame']; exact hname⟩

/-- **Adding the demonstration data twice is adding it once.** In whatever state it is added, it does not
fail if the clock can be read: what was there stays as it was, exactly the users who were missing are
added, and an active first version of the rule if there was no version of it. Whatever run follows,
adding the data again, with whatever clock, changes nothing but the log, and gives the same users and
the version of the rule that is the latest by then. -/
theorem seeded_once_of_run (hw : w.IsNew) {turns : List Turn}
    (hturns : ∀ t ∈ turns, t.call.Allowed .full) {clock : Clock} (hclock : clock.gives 4 = true) :
    let v : World := { w.run cfg turns with clock }
    ∃ us rule v', Seed.run.perform v = (.ok (us, rule), v') ∧ v.Seeded v' us rule ∧
      ∀ later : List Turn, (∀ t ∈ later, t.call.Allowed .full) → ∀ clock' : Clock,
        ({ v'.run cfg later with clock := clock' } : World).HasSeed us := by
  intro v
  obtain ⟨b, rules, -, -, hall⟩ := hw.holdsAll.run hturns
  have hv : v.HoldsAll cfg b rules := hall.congr rfl rfl
  obtain ⟨us, rule, v', b', rules', hrun, hseeded, hv', hrule, hfound⟩ := hv.seeded hclock
  exact ⟨us, rule, v', hrun, hseeded, fun later hlater clock' =>
    hv'.hasSeed_of_run hfound hrule hlater clock'⟩

end World

/-- One of the users is there under another spelling of the email and another name, and a version of the
rule that is not active. -/
def Turn.halfSeeded : List Turn :=
  let clock : Clock := { now := ⟨0, some 0⟩, step := 1 }
  [⟨clock, .createUser (.str " ADMIN@example.com") (.str "Boss")⟩,
    ⟨clock, .createRule Seed.ruleName Seed.conditions Seed.actions .null .null (.bool false)⟩]

namespace World

/-- The data is added to a world that has a part of it, and is still there when the user who was there
first has been renamed. -/
theorem seeded_once_of_halfSeeded :
    let clock : Clock := { now := ⟨0, some 0⟩, step := 1 }
    let v : World := { (fresh default).run .rupees Turn.halfSeeded with clock }
    let later : List Turn := [⟨clock, .renameUser (.uuid ⟨1⟩) (.str "Chief")⟩]
    (∀ t ∈ Turn.halfSeeded, t.call.Allowed .full) ∧ (∀ t ∈ later, t.call.Allowed .full) ∧
      clock.gives 4 = true ∧
      (Users.all.perform v).1.toOption.map (·.map User.name) = some [some "Boss"] ∧
      (RuleBook.all.perform v).1.toOption.map (·.map fun r => r.active.truthy) = some [false] ∧
      ∃ us rule v', Seed.run.perform v = (.ok (us, rule), v') ∧ v.Seeded v' us rule ∧
        ({ v'.run .rupees later with clock } : World).HasSeed us := by
  intro clock v later
  have hallowed : ∀ t ∈ Turn.halfSeeded, t.call.Allowed .full := by
    intro t ht
    simp only [Turn.halfSeeded, List.mem_cons, List.not_mem_nil, or_false] at ht
    rcases ht with rfl | rfl
    · exact ⟨some "Boss", rfl⟩
    · trivial
  have hlater : ∀ t ∈ later, t.call.Allowed .full := fun t ht => by
    rw [List.mem_singleton.1 ht]
    exact ⟨some "Chief", rfl⟩
  have hclock : clock.gives 4 = true := by decide
  obtain ⟨us, rule, v', hrun, hseeded, hagain⟩ :=
    @seeded_once_of_run .rupees _ (isNew_fresh default) _ hallowed clock hclock
  exact ⟨hallowed, hlater, hclock, by decide +kernel, by decide +kernel, us, rule, v', hrun, hseeded,
    hagain later hlater clock⟩

end World

end RewardLedger
