import RewardLedger.Proofs.Ledger.Posting
import RewardLedger.Proofs.Ledger.Reading

/-!
# Adding and renaming users

A user is added under an email that no user has, or nothing is added; and of a user only the name
changes. The name must be a text or null: any other name is stored before it is found to be wrong.
-/

namespace RewardLedger

variable {cfg : Config} {p : Permission} {base : Option Store} {b b' : Books} {w w' : World}

open Op

namespace Users

/-- The email that a user is found by is a text. -/
theorem exists_of_normalEmail {email normal : Value} (h : normalEmail email = .ok normal) :
    ∃ s, normal = .str s := by
  cases email with
  | str s =>
    cases h
    exact ⟨_, rfl⟩
  | _ => cases h

/-- The row of a user that is being added. -/
def userRow (id : Uuid) (email : String) (name : Option String) (now : Instant) : Fields :=
  [("id", .uuid id), ("email", .str email), ("name", .ofText? name), ("created_at", .instant now)]

/-- The row of a user has keys that the table of users can have. -/
theorem fitsTable_userRow {s : Store} (h : s.Declared) (id : Uuid) (email : String)
    (name : Option String) (now : Instant) :
    s.FitsTable Value.IsPlain usersTable (userRow id email name now) := by
  refine h.fitsTable rfl ?_ fun ix hix c hc => ?_
  · exact Or.inr trivial
  rw [List.mem_singleton.1 hix, List.mem_singleton] at hc
  rw [hc]
  exact Or.inr trivial

/-- Adding a user adds it to the books, or nothing happens. -/
theorem ends_create (h : w.Holds cfg base b) (email : Value) (name : Option String) :
    (create email (.ofText? name)).Ends w
      (fun _ w' => ∃ (u : User) (n : Nat), b.issued < u.id.value ∧ u.id.value ≤ n ∧
        w'.Holds cfg base { b with users := b.users ++ [u], issued := n })
      fun _ w' => w'.Undone cfg base b := by
  have hle : b.issued ≤ w.issued + 1 := h.issued ▸ Nat.le_succ _
  have hlt : b.issued < w.issued + 1 := h.issued ▸ Nat.lt_succ_self _
  have hnext : ({ w with issued := w.issued + 1 } : World).Holds cfg base
      { b with issued := w.issued + 1 } := h.issue (Nat.le_succ _)
  have hundone : ∀ {w' : World}, w'.Holds cfg base { b with issued := w.issued + 1 } →
      w'.Undone cfg base b := fun hw' =>
    World.Undone.of_issue hle hw'.undone
  refine ends_bind (ends_ofExcept (fun normal hnormal => ?_) fun _ _ => h.undone)
  obtain ⟨s, rfl⟩ := exists_of_normalEmail hnormal
  refine ends_bind (ends_freshId ?_)
  refine ends_bind (ends_readClock (fun now clock _ => ?_) fun _ => hundone hnext)
  have hread : ({ w with issued := w.issued + 1, clock } : World).Holds cfg base
      { b with issued := w.issued + 1 } := hnext.congr rfl rfl
  have hfits := fitsTable_userRow hread.declared ⟨w.issued + 1⟩ s name now
  -- only the row changes the books; until then no more than an identifier has been given out
  refine ends_bind (ends_onDuplicate (ends_insert hread hfits ?_ ?_))
  · intro t columns _ _ _ hcolumns hfollows
    let u : User := ⟨⟨w.issued + 1⟩, s, name, now⟩
    have hrow : u.IsRow columns := by
      rw [hcolumns]
      exact ⟨rfl, rfl, rfl, rfl⟩
    refine ends_bind (ends_log ?_)
    rw [hrow.ofRow]
    refine ends_ofExcept (fun _ _ => ?_) fun _ he => nomatch he
    refine ⟨u, w.issued + 1, hlt, Nat.le_refl _,
      (hread.follows hfollows ?_ rfl ?_).congr rfl rfl⟩
    · exact ⟨h.held.users.inserted hrow _, h.held.entries.inserted_of_ne (by decide) _ _,
        h.held.rewards.inserted_of_ne (by decide) _ _,
        h.held.requests.inserted_of_ne (by decide) _ _⟩
    · exact h.proper.addUser hle (Nat.le_refl _)
  · intro e s' _ hs
    exact ⟨fun _ _ _ _ => ends_refuse (hundone hs), fun _ => hundone hs⟩

/-- A row whose name is set stands for the user with that name. -/
theorem isRow_renamed {u : User} {columns : Fields} (h : u.IsRow columns) (name : Option String) :
    User.IsRow { u with name } (columns.put "name" (.ofText? name)) where
  id := (columns.find?_put_of_ne _ (by decide)).trans h.id
  email := (columns.find?_put_of_ne _ (by decide)).trans h.email
  name := columns.find?_put_self _ _
  createdAt := (columns.find?_put_of_ne _ (by decide)).trans h.createdAt

/-- Giving a user another name is a step of the books, or nothing happens. -/
theorem ends_rename (h : w.Holds cfg base b) (id : Value) (name : Option String) :
    (rename id (.ofText? name)).Ends w
      (fun _ w' => ∃ b', b.Step cfg p b' ∧ w'.Holds cfg base b')
      fun _ w' => w'.Undone cfg base b := by
  refine (ends_atomic (Q := fun _ b' => b.Step cfg p b') h ?_).mono
    (fun _ _ ⟨b', hw', hs⟩ => ⟨b', hs, hw'⟩) fun _ _ hundone => hundone
  have henter := h.enter
  refine ends_bind (ends_map ?_)
  refine ends_bind (ends_query (fun row hget => ?_) fun _ _ => henter.undone)
  cases row with
  | none => exact ends_refuse henter.undone
  | some columns =>
    obtain ⟨u, hu, hrow, rfl⟩ := henter.held.users.of_get_some henter.sound hget
    refine ends_ofExcept (fun _ _ => ?_) fun _ _ => henter.undone
    have hfree : ∀ ix ∈ [("email", ["email"])], ∀ c ∈ ix.2, c ∉ ["name"] := by decide
    refine ends_bind ((ends_updateRecord henter henter.held.users rfl (by exact hfree)
      (f := .renamed u.id name) (fun u' columns hu' hrow' => ?_)
      (fun u' hu' => if_neg fun hid => hu' (congrArg Value.uuid hid)) (fun s hl ho => ?_)
      (henter.proper.renamed u.id name) rfl).mono ?_ fun _ _ hw' => hw'.undone)
    · rw [User.renamed, if_pos (Value.uuid.inj hu')]
      exact isRow_renamed hrow' name
    · exact ⟨hl, henter.held.entries.of_table?_eq (ho _ (by decide)),
        henter.held.rewards.of_table?_eq (ho _ (by decide)),
        henter.held.requests.of_table?_eq (ho _ (by decide))⟩
    · rintro columns w' ⟨hw', u', -, -, hrow'⟩
      have hrow' : User.IsRow _ columns := hrow'
      rw [hrow'.ofRow]
      exact ends_ofExcept (fun _ _ => ⟨_, hw', .rename⟩) fun _ he => nomatch he

end Users

end RewardLedger
