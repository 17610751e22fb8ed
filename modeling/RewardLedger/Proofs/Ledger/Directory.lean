import RewardLedger.Proofs.Ledger.Timed
import RewardLedger.Proofs.Ledger.WellFormed
import RewardLedger.Proofs.Store.Unique

/-!
# The directory of users

Users are told apart by their emails in normal form, that is without blanks at their ends and in lower
case (`Users.normal`). Finding a user by an email and adding one both ask the index of the table, and
listing all users goes through its rows; in every world that holds books the three agree
(`World.Directory`): whatever the spelling of an email is, it leads to the one user in the list who has
its normal form, and an email is free if there is no such user.

No step of the books changes anything of a user but the name, or removes one (`User.Kept`), so an email
that was taken stays taken by the same user, however often users are renamed
(`World.directory_of_run`).
-/

namespace RewardLedger

variable {cfg : Config} {p : Permission} {base : Option Store} {b b' : Books} {w : World}

open Op

/-! ## Looking up -/

namespace Store

variable {K : Value → Prop} {s : Store} {name index : String} {t : Table} {ix : Index}
  {key : List Value}

/-- Looking a key up in an index gives the row that has the key, or there is none. -/
theorem Sound.findUnique_cases [KeyKind.Exact K] (hs : s.Sound K) (ht : s.table? name = some t)
    (hix : (t.indexes.find? fun ix => ix.name = index) = some ix) (hK : KeyKind.All K key) :
    (∃ row ∈ t.rows, row.columns.hasKey ix.columns key = true ∧
        s.findUnique name index key = .ok (some row.columns)) ∨
      (∀ row ∈ t.rows, row.columns.hasKey ix.columns key = false) ∧
        s.findUnique name index key = .ok none := by
  have hsound := (hs name t ht).1
  have hentries := hsound.indexSound ix (List.mem_of_find?_eq_some hix)
  rw [findUnique_eq ht hix, if_pos (KeyKind.allHashable hK)]
  cases hpk : ix.find? key with
  | none => exact .inr ⟨(hentries.find_eq_none hK).1 hpk, rfl⟩
  | some pk =>
    obtain ⟨row, hrow, hhas, rfl⟩ := (hentries.find_iff key hK pk).1 hpk
    have hkind := hsound.rowsSound.kind row hrow
    refine .inl ⟨row, hrow, hhas, ?_⟩
    dsimp only
    rw [if_pos (KeyKind.hashable hkind), t.entered?_of_ordered ix key (KeyKind.Exact.ordered hkind)]
    cases hfound : t.find? row.key with
    | none =>
      have hne := Table.find?_none hfound row hrow
      rw [KeyKind.Exact.refl hkind] at hne
      cases hne
    | some found =>
      -- primary keys tell rows apart, so the row that is found is the one that was entered
      obtain ⟨hmem, hsame⟩ := Table.find?_some hfound
      have hseq := hsound.rowsSound.seq_of_key found hmem row hrow hsame
      rw [hsound.rowsSound.eq_of_seq hmem hrow hseq]
      rfl

end Store

/-- The row of a user is entered in the index by the email. -/
theorem User.IsRow.hasKey_email {u : User} {columns : Fields} (h : u.IsRow columns) (email : String) :
    columns.hasKey ["email"] [.str email] = true ↔ u.email = email := by
  have hsame : (Value.str u.email).sameKey (.str email) = true ↔ u.email = email := by
    rw [Value.sameKey_str_iff, Value.str.injEq, eq_comm]
  rw [Fields.hasKey, Fields.keyIn?, List.map_singleton, Fields.get, h.email, ← hsame]
  simp [Value.isNull, Value.sameKeys]

namespace World

/-- Looking an email up gives the row of the user who has it, or no user has it. -/
theorem Holds.findUnique_email (h : w.Holds cfg base b) (email : String) :
    (∃ u ∈ b.users, ∃ columns, u.email = email ∧ u.IsRow columns ∧
        w.store.findUnique usersTable "email" [.str email] = .ok (some columns)) ∨
      (∀ u ∈ b.users, u.email ≠ email) ∧
        w.store.findUnique usersTable "email" [.str email] = .ok none := by
  obtain ⟨t, ht, -⟩ := id h.held.users
  have hindex : (t.schema.indexes.find? fun ix => ix.1 = "email") = some ("email", ["email"]) := by
    rw [h.schema_eq usersTable ht rfl]
    rfl
  obtain ⟨ix, hix, -, hcolumns⟩ := Store.find?_index_of_schema hindex
  have hplain : KeyKind.All Value.IsPlain [.str email] := fun v hv => by
    rw [List.mem_singleton.1 hv]
    trivial
  have hcases := h.sound.findUnique_cases ht hix hplain
  rw [hcolumns] at hcases
  rcases hcases with ⟨row, hrow, hhas, hfind⟩ | ⟨hnone, hfind⟩
  · obtain ⟨u, hu, hR⟩ := h.held.users.exists_record ht hrow
    have hR : u.IsRow row.columns := hR
    exact .inl ⟨u, hu, row.columns, (hR.hasKey_email email).1 hhas, hR, hfind⟩
  · refine .inr ⟨fun u hu hemail => ?_, hfind⟩
    obtain ⟨row, hrow, hR⟩ := h.held.users.exists_row ht hu
    have hR : u.IsRow row.columns := hR
    exact Bool.false_ne_true ((hnone row hrow).symm.trans ((hR.hasKey_email email).2 hemail))

end World

namespace Users

/-- The normal form of an email: without blanks at its ends and in lower case. -/
def normal (email : String) : String := String.ofList (Text.lowerCase (Text.trim email.toList))

/-- A user is found by any spelling of the email. -/
theorem perform_getByEmail (h : w.Holds cfg base b) {u : User} (hu : u ∈ b.users) {email : String}
    (hemail : u.email = normal email) : (getByEmail (.str email)).perform w = (.ok u, w) := by
  rcases h.findUnique_email (normal email) with ⟨x, hx, columns, hsame, hrow, hfind⟩ | ⟨hnone, -⟩
  · obtain rfl : x = u := List.inj_on_of_nodup_map h.nodup_emails hx hu (hsame.trans hemail.symm)
    refine Ends.perform_eq (ends_bind (ends_ofExcept_ok (a := .str (normal email)) rfl ?_))
    refine ends_bind (ends_query_ok hfind (ends_ofExcept_ok ?_ ⟨rfl, rfl⟩))
    rw [hrow.ofRow]
    rfl
  · exact absurd hemail (hnone u hu)

/-- No user is found by an email that no user has in its normal form. -/
theorem perform_getByEmail_unknown (h : w.Holds cfg base b) {email : String}
    (hfree : ∀ u ∈ b.users, u.email ≠ normal email) :
    (getByEmail (.str email)).perform w = (.error (.fault (.emailNotFound email)), w) := by
  rcases h.findUnique_email (normal email) with ⟨x, hx, columns, hsame, -⟩ | ⟨-, hfind⟩
  · exact absurd hsame (hfree x hx)
  · have hnormal : normalEmail (.str email) = .ok (.str (normal email)) := rfl
    rw [getByEmail, perform_bind, perform_ofExcept, hnormal]
    dsimp only
    rw [perform_bind, perform_query, hfind]
    show (refuse (.emailNotFound (Value.str email).plainText) : Op User).perform w = _
    rw [Value.plainText_str, perform_refuse]

/-! ## Adding -/

/-- No row has the email or the identifier of a user who is to be added, unless a user has that
email. -/
theorem exists_email_of_insert (h : w.Holds cfg base b) {id : Uuid} (hid : b.issued < id.value)
    {email : String} {name : Option String} {now : Instant} {table index : String}
    {key : List Value} {s : Store}
    (hrun : (Store.insert usersTable (userRow id email name now)).run.run w.store =
      (.error (.duplicate table index key), s)) : ∃ u ∈ b.users, u.email = email := by
  obtain ⟨t, ht, row, hrow, hcase⟩ :=
    Store.of_run_insert_duplicate h.sound (fitsTable_userRow h.declared id email name now) hrun
  have hschema := h.schema_eq usersTable ht rfl
  have hprimary : t.primaryKey = "id" := congrArg Schema.primaryKey hschema
  obtain ⟨u, hu, hR⟩ := h.held.users.exists_record ht hrow
  rcases hcase with hsame | ⟨ix, hix, own, hown, hhas⟩
  · -- the identifier is a new one, so no row has it
    rw [Store.key_eq_keyOf (h.sound _ t ht).1 hprimary hrow hR, hprimary] at hsame
    have hid' : Value.uuid id = .uuid u.id := Value.sameKey_uuid_iff.1 hsame
    rw [Value.uuid.inj hid'] at hid
    exact absurd (h.proper.users u hu) (Nat.not_le_of_lt hid)
  · -- the only index is that of emails
    rw [hschema] at hix
    rw [List.mem_singleton.1 hix] at hown hhas
    have hkey : (userRow id email name now).keyIn? ["email"] = some [.str email] := rfl
    rw [Option.some.inj (hown.symm.trans hkey)] at hhas
    have hR : u.IsRow row.columns := hR
    exact ⟨u, hu, (hR.hasKey_email email).1 hhas⟩

/-- What adding a user under an email comes to when the clock can be read: the user is added, behind the
others, and no user had the email; or a user has it, and it is refused. -/
theorem ends_create_exact (h : w.Holds cfg base b) (email : String) (name : Option String)
    {now : Instant} {clock : Clock} (hclock : w.clock.read? = some (now, clock)) :
    (create (.str email) (.ofText? name)).Ends w
      (fun u w' => (∀ x ∈ b.users, x.email ≠ normal email) ∧
        u = ⟨⟨w.issued + 1⟩, normal email, name, now⟩ ∧
        w'.Holds cfg base { b with users := b.users ++ [u], issued := w.issued + 1 } ∧
        (∀ table, table ≠ usersTable → w'.store.table? table = w.store.table? table) ∧
        w'.clock = clock)
      fun e w' => (∃ x ∈ b.users, x.email = normal email) ∧
        e = .fault (.emailTaken (normal email)) ∧
        w'.Holds cfg base { b with issued := w.issued + 1 } ∧ w'.store.tables = w.store.tables ∧
        w'.log = w.log := by
  -- the identifier and the instant are taken before the insert, so they are spent if it fails
  have hlt : b.issued < w.issued + 1 := h.issued ▸ Nat.lt_succ_self _
  have hle : b.issued ≤ w.issued + 1 := h.issued ▸ Nat.le_succ _
  refine ends_bind (ends_ofExcept_ok (a := .str (normal email)) rfl (ends_bind (ends_freshId ?_)))
  refine ends_bind (ends_readClock (fun now' clock' hread => ?_) fun hnone => ?_)
  swap
  · cases hnone.symm.trans hclock
  obtain ⟨rfl, rfl⟩ := Prod.mk.inj (Option.some.inj (hclock.symm.trans hread))
  have hnext : ({ w with issued := w.issued + 1, clock } : World).Holds cfg base
      { b with issued := w.issued + 1 } := (h.issue (Nat.le_succ _)).congr rfl rfl
  have hfits := fitsTable_userRow hnext.declared ⟨w.issued + 1⟩ (normal email) name now
  refine ends_bind (ends_onDuplicate (ends_insert hnext hfits ?_ ?_))
  · intro t columns _ _ _ hcolumns hfollows
    let u : User := ⟨⟨w.issued + 1⟩, normal email, name, now⟩
    have hrow : u.IsRow columns := by
      rw [hcolumns]
      exact ⟨rfl, rfl, rfl, rfl⟩
    refine ends_bind (ends_log (ends_ofExcept_ok (a := u) (by rw [hrow.ofRow]; rfl) ?_))
    have hproper := h.proper.addUser (u := u) hle (Nat.le_refl _)
    have hafter := hnext.follows hfollows ?_ rfl hproper
    · -- the email of the new user is one more, so it was none of those before
      refine ⟨fun x hx hemail => ?_, rfl, hafter.congr rfl rfl, fun table hne => ?_, rfl⟩
      · have hnodup := hafter.nodup_emails
        rw [List.map_append, List.nodup_append] at hnodup
        exact hnodup.2.2 _ (List.mem_map_of_mem hx) _ List.mem_cons_self hemail
      · exact (Store.table?_inserted ..).trans (if_neg hne)
    · exact ⟨h.held.users.inserted hrow _, h.held.entries.inserted_of_ne (by decide) _ _,
        h.held.rewards.inserted_of_ne (by decide) _ _,
        h.held.requests.inserted_of_ne (by decide) _ _⟩
  · intro e s hrun hs
    -- the only thing that an insert of a fitting row can fail at is a taken key
    obtain ⟨t, ht, hprimary, -⟩ := id h.held.users
    have hkey : ((userRow ⟨w.issued + 1⟩ (normal email) name now).get t.primaryKey).IsPlain := by
      rw [hprimary]
      trivial
    have hduplicate := Store.isDuplicate_of_run_insert hnext.sound ht hkey hfits hrun
    obtain ⟨htables, -⟩ := Store.of_run_insert_error hrun
    refine ⟨fun table index key he => ?_, fun hne => ?_⟩
    · subst he
      rw [Value.plainText_str]
      exact ends_refuse ⟨exists_email_of_insert h hlt hrun, rfl, hs, htables, rfl⟩
    · cases e with
      | duplicate table index key => exact absurd rfl (hne table index key)
      | _ => cases hduplicate

/-- All users are listed, the last one first. -/
theorem perform_all (h : w.Holds cfg base b) : all.perform w = (.ok b.users.reverse, w) := by
  obtain ⟨rows, hrows, hstand⟩ := h.held.users.all h.sound
  have hrows : w.store.all usersTable = .ok rows := hrows
  refine Ends.perform_eq (ends_bind (ends_query_ok hrows (ends_ofExcept_ok ?_ ⟨rfl, rfl⟩)))
  refine mapM_eq_ok ((List.forall₂_reverse_iff.2 hstand).imp fun columns u hrow => ?_)
  have hrow : u.IsRow columns := hrow
  rw [hrow.ofRow]
  rfl

end Users

/-! ## What stays of users -/

/-- The users are the same one, but perhaps for the name. -/
structure User.SameAccount (u u' : User) : Prop where
  /-- The identifier is the same. -/
  id : u'.id = u.id
  /-- The email is the same. -/
  email : u'.email = u.email
  /-- The user was added at the same time. -/
  createdAt : u'.createdAt = u.createdAt

/-- Of two lists of users, the last one first, the second one has those of the first, with other names
at most, and newer ones in front of them. -/
def User.Kept (us us' : List User) : Prop :=
  ∃ added kept, us' = added ++ kept ∧ List.Forall₂ User.SameAccount us kept

namespace User

variable {us us' us'' : List User}

theorem SameAccount.refl (u : User) : u.SameAccount u := ⟨rfl, rfl, rfl⟩

theorem SameAccount.trans {u u' u'' : User} (h : u.SameAccount u') (h' : u'.SameAccount u'') :
    u.SameAccount u'' :=
  ⟨h'.id.trans h.id, h'.email.trans h.email, h'.createdAt.trans h.createdAt⟩

/-- A user with another name is the same one. -/
theorem sameAccount_renamed (u : User) (id : Uuid) (name : Option String) :
    u.SameAccount (u.renamed id name) := by
  unfold renamed
  split
  · exact ⟨rfl, rfl, rfl⟩
  · exact .refl u

theorem Kept.refl (us : List User) : Kept us us :=
  ⟨[], us, rfl, List.forall₂_same.2 fun u _ => .refl u⟩

/-- Users to whom others are added are kept. -/
theorem Kept.append (added us : List User) : Kept us (added ++ us) :=
  ⟨added, us, rfl, List.forall₂_same.2 fun u _ => .refl u⟩

theorem Kept.trans (h : Kept us us') (h' : Kept us' us'') : Kept us us'' := by
  obtain ⟨added, kept, rfl, hkept⟩ := h
  obtain ⟨more, kept', rfl, hkept'⟩ := h'
  -- what became of those who were added first stands in front of what became of those kept
  have hrest : List.Forall₂ SameAccount kept (kept'.drop added.length) :=
    (List.forall₂_drop_append _ added kept hkept'.flip).flip
  refine ⟨more ++ kept'.take added.length, kept'.drop added.length, ?_,
    Store.forall₂_of_forall₂ (fun _ _ _ => .trans) hkept hrest⟩
  rw [List.append_assoc, List.take_append_drop]

/-- A user who is kept is found among the users later. -/
theorem Kept.exists_of_mem (h : Kept us us') {u : User} (hu : u ∈ us) :
    ∃ u' ∈ us', u.SameAccount u' := by
  obtain ⟨added, kept, rfl, hkept⟩ := h
  obtain ⟨u', hu', hsame⟩ := exists_mem_of_forall₂ hkept hu
  exact ⟨u', List.mem_append_right _ hu', hsame⟩

end User

namespace Books

/-- A step keeps the users. -/
theorem Step.kept (hs : b.Step cfg p b') : User.Kept b.users.reverse b'.users.reverse := by
  cases hs with
  | addUser =>
    rw [List.reverse_append]
    exact .append _ _
  | @rename id name =>
    refine ⟨[], _, rfl, List.forall₂_reverse_iff.2 ?_⟩
    exact List.forall₂_map_right_iff.2 (List.forall₂_same.2 fun u _ => u.sameAccount_renamed id name)
  | credit hc =>
    rw [hc.eq]
    exact .refl _
  | _ => exact .refl _

/-- However many steps are taken, users are kept. -/
theorem Steps.kept (hs : b.Steps cfg p b') : User.Kept b.users.reverse b'.users.reverse := by
  induction hs with
  | refl => exact .refl _
  | tail _ hlast ih => exact ih.trans hlast.kept

end Books

/-! ## Runs -/

namespace World

/-- The users are those who are there, the last one first, and looking one up by an email or adding one
under it goes by the one among them whose email is its normal form. -/
structure Directory (w : World) (us : List User) : Prop where
  /-- They are listed. -/
  listed : Users.all.perform w = (.ok us, w)
  /-- No two of them have the same email. -/
  emails : (us.map User.email).Nodup
  /-- An email leads to the user who has its normal form. -/
  found : ∀ email, ∀ u ∈ us, u.email = Users.normal email →
    (Users.getByEmail (.str email)).perform w = (.ok u, w)
  /-- It leads to no one if no user has its normal form. -/
  unknown : ∀ email, (∀ u ∈ us, u.email ≠ Users.normal email) →
    (Users.getByEmail (.str email)).perform w = (.error (.fault (.emailNotFound email)), w)
  /-- An email whose normal form a user has is taken: adding another user is refused and changes
  nothing. -/
  taken : ∀ email name, w.clock.read?.isSome = true → (∃ u ∈ us, u.email = Users.normal email) →
    ∃ w', (Users.create (.str email) (.ofText? name)).perform w =
        (.error (.fault (.emailTaken (Users.normal email))), w') ∧
      w'.store.tables = w.store.tables ∧ w'.log = w.log

/-- After every further run the users are kept, with other names at most, and newer ones in front of
them, and the directory is that of these. -/
def Stays (cfg : Config) (w : World) (us : List User) : Prop :=
  ∀ later : List Turn, (∀ t ∈ later, t.call.Allowed .full) →
    ∃ us', User.Kept us us' ∧ (w.run cfg later).Directory us'

/-- A world that holds books has the directory of its users. -/
theorem Holds.directory (h : w.Holds cfg base b) : w.Directory b.users.reverse where
  listed := Users.perform_all h
  emails := by
    rw [List.map_reverse]
    exact List.nodup_reverse.2 h.nodup_emails
  found email u hu hemail := Users.perform_getByEmail h (List.mem_reverse.1 hu) hemail
  unknown email hfree :=
    Users.perform_getByEmail_unknown h fun u hu => hfree u (List.mem_reverse.2 hu)
  taken := by
    rintro email name hclock ⟨u, hu, hemail⟩
    obtain ⟨⟨now, clock⟩, hread⟩ := Option.isSome_iff_exists.1 hclock
    have hends := Users.ends_create_exact h email name hread
    generalize hrun : (Users.create (.str email) (.ofText? name)).perform w = run
    obtain ⟨e | x, w'⟩ := run
    · obtain ⟨-, rfl, -, hstore⟩ := hends.bad_of_error hrun
      exact ⟨w', rfl, hstore⟩
    · exact absurd hemail ((hends.good_of_ok hrun).1 u (List.mem_reverse.1 hu))

/-- In a world that holds books, users stay. -/
theorem Holds.stays (h : w.Holds cfg none b) : w.Stays cfg b.users.reverse := by
  intro later hlater
  obtain ⟨b', hsteps, hw'⟩ := h.run hlater
  exact ⟨_, hsteps.kept, hw'.directory⟩

/-- The user has been added to the world under the email and with the name, in front of these users, and
no other table was changed; the email has that user from now on. -/
structure Added (cfg : Config) (w w' : World) (us : List User) (email : String)
    (name : Option String) (u : User) : Prop where
  /-- The user has the normal form of the email. -/
  email : u.email = Users.normal email
  /-- The user has the name. -/
  name : u.name = name
  /-- The user was added at the time that the clock shows. -/
  createdAt : w.clock.read?.map Prod.fst = some u.createdAt
  /-- No other user has the identifier. -/
  id : ∀ x ∈ us, x.id ≠ u.id
  /-- The other tables are as they were. -/
  tables : ∀ table, table ≠ usersTable → w'.store.table? table = w.store.table? table
  /-- The directory has one user more. -/
  directory : w'.Directory (u :: us)
  /-- The user stays, and so do the others. -/
  stays : w'.Stays cfg (u :: us)

/-- In a world that holds books, a user is added under an email that is free. -/
theorem Holds.exists_added (h : w.Holds cfg none b) {email : String} (name : Option String)
    (hclock : w.clock.read?.isSome = true) (hfree : ∀ u ∈ b.users, u.email ≠ Users.normal email) :
    ∃ u w', (Users.create (.str email) (.ofText? name)).perform w = (.ok u, w') ∧
      w.Added cfg w' b.users.reverse email name u := by
  obtain ⟨⟨now, clock⟩, hread⟩ := Option.isSome_iff_exists.1 hclock
  have hends := Users.ends_create_exact h email name hread
  generalize hrun : (Users.create (.str email) (.ofText? name)).perform w = run
  obtain ⟨e | u, w'⟩ := run
  · obtain ⟨⟨x, hx, hemail⟩, -⟩ := hends.bad_of_error hrun
    exact absurd hemail (hfree x hx)
  · obtain ⟨-, hu, hw', htables, -⟩ := hends.good_of_ok hrun
    have husers : (b.users ++ [u]).reverse = u :: b.users.reverse := List.reverse_append
    refine ⟨u, w', rfl, by rw [hu], by rw [hu], ?_, fun x hx hid => ?_, htables,
      husers ▸ hw'.directory, husers ▸ hw'.stays⟩
    · rw [hread, hu]
      rfl
    · -- the identifier had not been given out
      have hgiven := h.proper.users x (List.mem_reverse.1 hx)
      rw [hid, hu, h.issued] at hgiven
      exact absurd hgiven (Nat.not_succ_le_self _)

/-- **Looking users up and adding them agree for every spelling of an email.** Whatever run there was,
the users who are listed are the directory: any spelling of an email leads to the one user in the list
who has its normal form, and adding another user under it is refused and changes nothing; if there is
no such user, no one is found, and a user is added under it, in front of the others. Whatever run
follows, the users are still there, each with the same identifier, email and time, so an email that
was taken stays taken in all its spellings. -/
theorem directory_of_run (hw : w.IsNew) {turns : List Turn}
    (hturns : ∀ t ∈ turns, t.call.Allowed .full) (clock : Clock) :
    let v : World := { w.run cfg turns with clock }
    ∃ us, v.Directory us ∧ v.Stays cfg us ∧
      ∀ email name, clock.read?.isSome = true → (∀ u ∈ us, u.email ≠ Users.normal email) →
        ∃ u v', (Users.create (.str email) (.ofText? name)).perform v = (.ok u, v') ∧
          v.Added cfg v' us email name u := by
  intro v
  obtain ⟨b, -, hb⟩ := hw.holds.run hturns
  have hv : v.Holds cfg none b := hb.congr rfl rfl
  refine ⟨b.users.reverse, hv.directory, hv.stays, fun email name hclock hfree => ?_⟩
  exact hv.exists_added name hclock fun u hu => hfree u (List.mem_reverse.2 hu)

end World

/-- A user is added under one spelling of an email, and is given another name; adding a user under
another spelling of it is refused. -/
def Turn.twoSpellings : List Turn :=
  let clock : Clock := { now := ⟨0, some 0⟩, step := 1 }
  [⟨clock, .createUser (.str "  Ann@X.org") .null⟩, ⟨clock, .renameUser (.uuid ⟨1⟩) (.str "Ann")⟩,
    ⟨clock, .createUser (.str "ANN@x.org ") .null⟩]

namespace World

/-- The user is found under a third spelling, and another user is added under another email. -/
theorem directory_of_twoSpellings :
    let v := (fresh default).run .rupees Turn.twoSpellings
    (∀ t ∈ Turn.twoSpellings, t.call.Allowed .full) ∧ v.clock.read?.isSome = true ∧
      ∃ u, v.Directory [u] ∧ v.Stays .rupees [u] ∧ u.email = "ann@x.org" ∧ u.name = some "Ann" ∧
        (Users.getByEmail (.str "ann@X.ORG")).perform v = (.ok u, v) ∧
        ∃ u' v', (Users.create (.str "Bob@x.org") .null).perform v = (.ok u', v') ∧
          v.Added .rupees v' [u] "Bob@x.org" none u' := by
  intro v
  have hallowed : ∀ t ∈ Turn.twoSpellings, t.call.Allowed .full := by
    intro t ht
    simp only [Turn.twoSpellings, List.mem_cons, List.not_mem_nil, or_false] at ht
    rcases ht with rfl | rfl | rfl
    · exact ⟨none, rfl⟩
    · exact ⟨some "Ann", rfl⟩
    · exact ⟨none, rfl⟩
  have hclock : v.clock.read?.isSome = true := by decide +kernel
  obtain ⟨us, hdirectory, hstays, hadded⟩ :=
    @directory_of_run .rupees _ (isNew_fresh default) _ hallowed v.clock
  have hlisted : (Users.all.perform v).1.toOption.map (·.map fun u => (u.email, u.name)) =
      some [("ann@x.org", some "Ann")] := by decide +kernel
  have hus : Users.all.perform v = (.ok us, v) := hdirectory.listed
  rw [hus] at hlisted
  obtain ⟨u, rest, rfl, hu, hrest⟩ := List.map_eq_cons_iff.1 (Option.some.inj hlisted)
  obtain rfl := List.map_eq_nil_iff.1 hrest
  obtain ⟨hemail, hname⟩ := Prod.mk.inj hu
  have hnormal : Users.normal "ann@X.ORG" = "ann@x.org" := by decide +kernel
  have hother : Users.normal "Bob@x.org" = "bob@x.org" := by decide +kernel
  refine ⟨hallowed, hclock, u, hdirectory, hstays, hemail, hname, ?_, ?_⟩
  · exact hdirectory.found "ann@X.ORG" u (List.mem_singleton_self u) (hemail.trans hnormal.symm)
  · refine hadded "Bob@x.org" none hclock fun x hx => ?_
    rw [List.mem_singleton.1 hx, hemail, hother]
    decide

end World

end RewardLedger
