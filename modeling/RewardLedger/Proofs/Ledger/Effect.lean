import RewardLedger.Proofs.Ledger.Reading
import RewardLedger.Proofs.Ledger.Steps

/-!
# What a call does to the books

A call does one step of the books or any number of steps that only add entries
(`Books.Effect`), so no call takes more than one entry back. An operation that may be called
acts on the books in that way (`Op.Acts`), whether it succeeds or fails.

What is put together from several operations adds entries step by step (`Op.Grows`), which is kept
from one operation to the next, and one operation that takes an entry back stands alone.
-/

namespace RewardLedger

namespace Books

variable {cfg : Config} {p : Permission} {b b' : Books}

/-- One step that changes no entry and only adds entries that count. -/
def Grow (cfg : Config) (p : Permission) (b b' : Books) : Prop :=
  b.Step cfg p b' ∧
    ∃ added, b'.entries = b.entries ++ added ∧ ∀ e ∈ added, e.status = .posted

/-- What one call does to the books. -/
inductive Effect (cfg : Config) (p : Permission) (b : Books) : Books → Prop where
  /-- One step. -/
  | one {b' : Books} (h : b.Step cfg p b') : Effect cfg p b b'
  /-- Any number of steps that only add entries. -/
  | several {b' : Books} (h : Relation.ReflTransGen (Grow cfg p) b b') : Effect cfg p b b'

/-- A step that leaves the entries alone only adds entries. -/
theorem Step.grow (h : b.Step cfg p b') (he : b'.entries = b.entries) : b.Grow cfg p b' :=
  ⟨h, [], by rw [List.append_nil, he], fun _ hmem => absurd hmem List.not_mem_nil⟩

/-- Giving identifiers out adds no entry. -/
theorem Grow.issue {n : Nat} (hn : b.issued ≤ n) : b.Grow cfg p { b with issued := n } :=
  (Step.issue hn).grow rfl

/-- Steps that only add entries are steps. -/
theorem steps_of_grow (h : Relation.ReflTransGen (Grow cfg p) b b') : b.Steps cfg p b' :=
  Relation.ReflTransGen.mono (fun _ _ hgrow => hgrow.1) _ _ h

/-- What a call does are steps. -/
theorem Effect.steps (h : b.Effect cfg p b') : b.Steps cfg p b' := by
  cases h with
  | one h => exact .single h
  | several h => exact steps_of_grow h

end Books

namespace World

variable {cfg : Config} {p : Permission} {R : Books → Books → Prop} {b b' : Books} {w : World}

/-- The world holds books that the relation leads to. -/
def Reached (cfg : Config) (R : Books → Books → Prop) (b : Books) (w : World) : Prop :=
  ∃ b', R b b' ∧ w.Holds cfg none b'

/-- The books that a world holds are reached without any step. -/
theorem Holds.reached (h : w.Holds cfg none b) : w.Reached cfg (Books.Steps cfg p) b :=
  ⟨b, .refl, h⟩

/-- What is undone has given out identifiers at most. -/
theorem Undone.grown (h : w.Undone cfg none b) :
    w.Reached cfg (Relation.ReflTransGen (Books.Grow cfg p)) b := by
  obtain ⟨n, hn, hw⟩ := h
  exact ⟨_, .single (.issue hn), hw⟩

/-- Adding entries step by step rests on the store. -/
theorem restsOnStore_grown (cfg : Config) (p : Permission) (b : Books) :
    RestsOnStore (Reached cfg (Relation.ReflTransGen (Books.Grow cfg p)) b) := by
  rintro w w' hs hi ⟨b', hb', hw⟩
  obtain ⟨n, hn, hw'⟩ := restsOnStore_holdsBeside cfg none b' hs hi hw.beside
  exact ⟨_, hb'.tail (.issue hn), hw'⟩

end World

namespace Op

variable {α β : Type} {cfg : Config} {p : Permission}

/-- The operation adds entries step by step, whether it succeeds or fails. -/
def Grows (cfg : Config) (p : Permission) (op : Op α) : Prop :=
  ∀ b, op.Keeps (World.Reached cfg (Relation.ReflTransGen (Books.Grow cfg p)) b)

/-- The operation does to the books what one call may do, whether it succeeds or fails. -/
def Acts (cfg : Config) (p : Permission) (op : Op α) : Prop :=
  ∀ b w, World.Holds cfg none b w → op.Ends w (fun _ w' => w'.Reached cfg (Books.Effect cfg p) b)
    fun _ w' => w'.Reached cfg (Books.Effect cfg p) b

/-- The operation leads from worlds that hold books to worlds that hold books to which steps lead. -/
def Moves (cfg : Config) (p : Permission) (op : Op α) : Prop :=
  ∀ b, op.Keeps (World.Reached cfg (Books.Steps cfg p) b)

/-- An operation that works aside from the books adds no entries. -/
theorem Aside.grows {op : Op α} (h : op.Aside cfg) : op.Grows cfg p := by
  rintro b w ⟨b', hb', hw⟩
  have hgrown : ∀ w' : World, w'.HoldsBeside cfg none b' →
      w'.Reached cfg (Relation.ReflTransGen (Books.Grow cfg p)) b := by
    rintro w' ⟨n, hn, hw'⟩
    exact ⟨_, hb'.tail (.issue hn), hw'⟩
  exact (h none b' w hw.beside).mono (fun _ w' => hgrown w') fun _ w' => hgrown w'

/-- What adds entries step by step wherever it starts does so in the course of other operations. -/
theorem grows_of_ends {op : Op α}
    (h : ∀ b w, World.Holds cfg none b w → op.Ends w
      (fun _ w' => w'.Reached cfg (Relation.ReflTransGen (Books.Grow cfg p)) b)
      fun _ w' => w'.Undone cfg none b) : op.Grows cfg p := by
  rintro b w ⟨b₁, hb₁, hw⟩
  refine (h b₁ w hw).mono ?_ fun _ w' hundone => ?_
  · rintro _ w' ⟨b', hb', hw'⟩
    exact ⟨b', hb₁.trans hb', hw'⟩
  · obtain ⟨b', hb', hw'⟩ := hundone.grown (p := p)
    exact ⟨b', hb₁.trans hb', hw'⟩

/-- An operation that adds entries step by step may be called. -/
theorem Grows.acts {op : Op α} (h : op.Grows cfg p) : op.Acts cfg p := by
  intro b w hw
  have heffect : ∀ w' : World, w'.Reached cfg (Relation.ReflTransGen (Books.Grow cfg p)) b →
      w'.Reached cfg (Books.Effect cfg p) b := fun w' ⟨b', hb', hw'⟩ => ⟨b', .several hb', hw'⟩
  exact (h b w ⟨b, .refl, hw⟩).mono (fun _ w' => heffect w') fun _ w' => heffect w'

/-- An operation that does one step, or is undone, may be called. -/
theorem acts_of_ends {op : Op α}
    (h : ∀ b w, World.Holds cfg none b w → op.Ends w
      (fun _ w' => w'.Reached cfg (Books.Step cfg p) b) fun _ w' => w'.Undone cfg none b) :
    op.Acts cfg p := by
  intro b w hw
  refine (h b w hw).mono ?_ fun _ w' hundone => ?_
  · rintro _ w' ⟨b', hb', hw'⟩
    exact ⟨b', .one hb', hw'⟩
  · obtain ⟨b', hb', hw'⟩ := hundone.grown (p := p)
    exact ⟨b', .several hb', hw'⟩

/-- The operation does one step of the books that changes neither users nor recorded requests, or is
undone. -/
def StepsInPlace (cfg : Config) (p : Permission) (op : Op α) : Prop :=
  ∀ b w, World.Holds cfg none b w → op.Ends w
    (fun _ w' => ∃ b', b.Step cfg p b' ∧ b.SameStanding b' ∧ w'.Holds cfg none b')
    fun _ w' => w'.Undone cfg none b

/-- An operation that does one step in place may be called. -/
theorem StepsInPlace.acts {op : Op α} (h : op.StepsInPlace cfg p) : op.Acts cfg p :=
  acts_of_ends fun b w hw => (h b w hw).mono (fun _ _ ⟨b', hs, _, hw'⟩ => ⟨b', hs, hw'⟩)
    fun _ _ hundone => hundone

/-- An operation that works aside from the books may be called. -/
theorem Aside.acts {op : Op α} (h : op.Aside cfg) : op.Acts cfg p := h.grows.acts

/-- An operation that only reads may be called. -/
theorem Reads.acts {op : Op α} (h : op.Reads) : op.Acts cfg p := h.aside.acts

/-- What is called may be part of any run. -/
theorem Acts.moves {op : Op α} (h : op.Acts cfg p) : op.Moves cfg p := by
  rintro b w ⟨b₁, hb₁, hw⟩
  have hsteps : ∀ w' : World, w'.Reached cfg (Books.Effect cfg p) b₁ →
      w'.Reached cfg (Books.Steps cfg p) b := fun w' ⟨b', hb', hw'⟩ => ⟨b', hb₁.trans hb'.steps, hw'⟩
  exact (h b₁ w hw).mono (fun _ w' => hsteps w') fun _ w' => hsteps w'

/-- What adds entries step by step may be part of any run. -/
theorem Grows.moves {op : Op α} (h : op.Grows cfg p) : op.Moves cfg p := h.acts.moves

variable {op : Op β}

/-- A function of the result changes nothing further. -/
theorem acts_map {f : β → α} (h : op.Acts cfg p) : (f <$> op).Acts cfg p := fun b w hw =>
  ends_map (h b w hw)

/-- Working on the result without looking at the world changes nothing further. -/
theorem acts_written {f : β → Except Failure α} (h : op.Acts cfg p) :
    (op >>= fun x => ofExcept (f x)).Acts cfg p := fun b w hw =>
  ends_bind ((h b w hw).mono (fun _ _ hw' => ends_ofExcept (fun _ _ => hw') fun _ _ => hw')
    fun _ _ hw' => hw')

end Op

end RewardLedger
