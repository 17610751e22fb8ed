import RewardLedger.Proofs.Rule.Engine
import RewardLedger.Proofs.Run
import RewardLedger.Proofs.Store.Script

/-!
# Scripts of rule calls

In every world that a script of rule calls leads through, also in the middle of a transaction, and
whichever calls fail and whichever transactions are given up, the store holds versions that steps of
the rule book lead to (`World.exists_holdsRules_of_script`). Each call leads to versions by steps of
the rule book (`Call.rulesFrom_perform`), and a transaction that is given up goes back to the versions
before it, so every step preserves that there are such versions (`Step.preserved_holdsRules`).
-/

namespace RewardLedger

open Op

variable {cfg : Config} {base : Option Store} {rules all : List StoredRule} {w : World}

/-! ## Calls -/

/-- The call makes, changes or switches versions, sets the clock, or only looks something up. -/
def Call.OfRules : Call → Prop
  | createRule .. | updateRule .. | deactivateRule .. | setClock .. => True
  | call => call.IsReading

/-- Writing the result of an operation does not matter for the versions. -/
theorem Call.ends_written {write : Rule → Except Failure Value} {op : Op Rule}
    {good : Rule → World → Prop} {bad : Failure → World → Prop} (h : op.Ends w good bad)
    (hgood : ∀ r w', good r w' → w'.RulesFrom base rules)
    (hbad : ∀ e w', bad e w' → w'.RulesFrom base rules) :
    (written write op).Ends w (fun _ w' => w'.RulesFrom base rules)
      fun _ w' => w'.RulesFrom base rules :=
  ends_bind (h.mono (fun r w' hw' => ends_ofExcept (fun _ _ => hgood r w' hw')
    fun _ _ => hgood r w' hw') hbad)

/-- A rule call leads to versions that steps lead to, whether it succeeds or fails. -/
theorem Call.rulesFrom_perform {call : Call} (hcall : call.OfRules) (h : w.HoldsRules base rules) :
    ((call.perform cfg).perform w).2.RulesFrom base rules := by
  refine Ends.perform_snd (P := World.RulesFrom base rules) ?_
  -- looking something up writes nothing, and which versions a world holds rests on the store
  by_cases hreading : call.IsReading
  · refine (Call.reads hreading).keeps (fun v v' hbeside hv => ?_) w h.rulesFrom
    exact World.restsOnStore_rulesFrom base rules hbeside.store hbeside.issued hv
  cases call with
  | createRule name conditions actions metadata description active =>
    refine ends_written (RuleBook.ends_create h _ _ _ _ _ _) ?_ fun _ _ hbad => hbad.2
    rintro _ w' ⟨rules', hw', r, hcreated, -⟩
    exact ⟨rules', hcreated.steps, hw'⟩
  | updateRule id changes =>
    refine ends_written (RuleBook.ends_update h id changes) ?_ fun _ _ hbad => hbad.2
    rintro _ w' ⟨rules', hw', hsteps, -⟩
    exact ⟨rules', hsteps, hw'⟩
  | deactivateRule id =>
    exact ends_written (RuleBook.ends_deactivate h id) (fun _ _ hgood => hgood)
      fun _ _ hbad => hbad.2
  | setClock now step => exact ⟨rules, .refl, h.congr rfl (Nat.le_refl _)⟩
  | _ => exact (hreading hcall).elim

/-! ## Steps -/

namespace Step

/-- Rule calls preserve that a world holds versions, and steps of the rule book lead from each to the
next. -/
theorem preserved_holdsRules :
    Preserved (Call.perform cfg) Call.OfRules RuleBook.Steps World.HoldsRules where
  refl _ := .refl
  trans h h' := h.trans h'
  call hcall h := Call.rulesFrom_perform hcall h
  enter h := h.enter
  leave h hsteps h' keep := World.RulesFrom.leave h ⟨_, hsteps, h'⟩ keep

/-- A script ends in one of the worlds that it leads through. -/
theorem runAll_mem_worldsOfAll {κ : Type} (perform : κ → Op Value) (steps : List (Step κ))
    (w : World) : (runAll perform steps w).2 ∈ worldsOfAll perform steps w := by
  induction steps generalizing w with
  | nil => exact List.mem_singleton_self w
  | cons step rest ih =>
    rw [worldsOfAll, runAll]
    exact List.mem_append_right _ (ih _)

end Step

namespace World

/-- A new world holds no versions. -/
theorem IsNew.holdsRules (h : w.IsNew) : w.HoldsRules none [] where
  sound := (h.holds : w.Holds .rupees none {}).sound
  declared := (h.holds : w.Holds .rupees none {}).declared
  lists := by
    rw [h.store]
    exact ⟨_, rfl, rfl, .nil⟩
  reached := .refl
  given := nofun
  within := by
    rw [h.store]
    rfl

/-- In every world that a script of rule calls leads through from a new one, the store holds versions
that steps of the rule book lead to. -/
theorem exists_holdsRules_of_script {w₀ : World} (h₀ : w₀.IsNew) {steps : List (Step Call)}
    (hcalls : Step.CallsOf Call.OfRules steps)
    (hw : w ∈ Step.worldsOfAll (Call.perform cfg) steps w₀) :
    ∃ base rules all, w.HoldsRules base rules ∧ RuleBook.Listing rules all := by
  obtain ⟨base, rules, h⟩ :=
    Step.preserved_holdsRules.exists_of_worldsOfAll hcalls h₀.holdsRules w hw
  obtain ⟨all, hall⟩ := h.reached.exists_listing
  exact ⟨base, rules, all, h, hall⟩

end World

end RewardLedger
