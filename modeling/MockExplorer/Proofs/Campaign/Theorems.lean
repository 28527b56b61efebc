import MockExplorer.Proofs.Campaign.Completeness
import MockExplorer.Proofs.Campaign.Loop

/-!
# Completeness of an exhausted search

When a search ends because no candidate is left, its executions cover every run of the test body under a
model whose values conform to the types that the run asks for.
-/

namespace MockExplorer

namespace CampaignContext

/-- The search of a test case at its end, and how it ended. -/
def explored (x : CampaignContext) (c : Campaign) (t : TestCase) : Campaign × Search × CaseStatus :=
  x.exploreBy (t.runner x.config.mock) x.config.campaign.maxExecutions.toNat c t

/-- The executions of the search of a test case, with their numbers. -/
def performed (x : CampaignContext) (c : Campaign) (t : TestCase) : List (UInt64 × Candidate) :=
  x.performedBy (t.runner x.config.mock) c t

theorem status_run (x : CampaignContext) (c : Campaign) (t : TestCase) :
    (x.run c t).1.status = Search.settle (x.explored c t).1 (x.explored c t).2.1 (x.explored c t).2.2 := rfl

theorem executions_run (x : CampaignContext) (c : Campaign) (t : TestCase) :
    (x.run c t).1.executions = .ofNat (x.explored c t).2.1.executions := rfl

/-- The search ended as exhausted or complete, and there is nothing left to try. This is so if the search may
go on after full coverage and did not spend its budget. -/
structure Exhausted (x : CampaignContext) (c : Campaign) (t : TestCase) : Prop where
  status : (x.run c t).1.status = .exhausted ∨ (x.run c t).1.status = .complete
  tried : (x.explored c t).2.1.worklist = [] ∨
    x.config.campaign.stopWhenComplete = false ∧ (x.run c t).1.executions < x.config.campaign.maxExecutions

theorem Exhausted.isError {x : CampaignContext} {c : Campaign} {t : TestCase} (h : x.Exhausted c t) :
    (x.explored c t).2.2.isError = false := by
  rw [← Search.settle_isError, ← status_run]
  rcases h.status with h | h <;> rw [h] <;> rfl

theorem Exhausted.worklist {x : CampaignContext} {c : Campaign} {t : TestCase} (h : x.Exhausted c t) :
    (x.explored c t).2.1.worklist = [] := by
  rcases h.tried with hempty | ⟨hgo, hbudget⟩
  · exact hempty
  · obtain ⟨hending, hspent⟩ := Search.explore_ended (Nat.le_add_right _ _) (Nat.zero_le _) rfl h.isError
    refine Search.worklist_of_ending? hgo ?_ hending fun hcancelled => ?_
    · rw [executions_run, UInt64.lt_iff_toNat_lt, UInt64.toNat_ofNat_of_lt'] at hbudget
      · exact hbudget
      · exact Nat.lt_of_le_of_lt hspent (UInt64.toNat_lt _)
    · have hstatus := h.status
      rw [status_run, show (x.explored c t).2.2 = _ from hcancelled] at hstatus
      rcases hstatus with hstatus | hstatus <;> cases hstatus

/-- Let the search of a mock-driven body be exhausted. Then the run under any model whose values conform to
what the run asks for succeeds, if it branches on numeric inputs only and records fewer than `2 ^ 31` clauses.
One of the executions of the search recorded the same clauses and reported the same outcomes. -/
theorem run_exhausted (x : CampaignContext) (hsolver : x.solver = .equality) (c : Campaign) (t : TestCase)
    (hb : t.body.MockDriven) (hexhausted : x.Exhausted c t) (m : Model)
    (hconf : ∀ q ∈ t.body.questions x.config.mock m, (m.resolve q.1 q.2).conformsTo q.2 = true) (id : UInt64)
    (hnum : ∀ cl ∈ (t.body.runUnder x.config.mock id m []).1.provider.path.clauses,
      cl.predicate.ty.isNumeric = true)
    (hshort : (t.body.runUnder x.config.mock id m []).1.provider.path.length < 2 ^ 31) :
    ∃ u, (t.body.execute x.config.mock id m []).result = .ok u ∧
      ∃ e ∈ x.performed c t, ∃ u', (t.runner x.config.mock e.1 e.2).result = .ok u' ∧
        u'.path.clauses = u.path.clauses ∧
        (t.runner x.config.mock e.1 e.2).observations = (t.body.execute x.config.mock id m []).observations := by
  have hx : ∀ id d, (x.exploration t).run id d = t.body.execute x.config.mock id d.model d.assumptions :=
    fun _ _ => rfl
  have hanswer : ∀ earlier query, (x.exploration t).solver.answer earlier query = Equality.solve query := by
    intro earlier query
    rw [exploration, hsolver]
    rfl
  obtain ⟨hfrontier, hexpanded⟩ := (Search.Frontier.start _ .origin).explore hanswer
    (Candidate.flips_sprung hx) (fun e he => by cases he) rfl hexhausted.isError
  obtain ⟨e, he, hagree⟩ := hfrontier.exists_agree hb hx (Body.settledUnder_of_conforms hb hconf id)
    hexhausted.worklist hexpanded hnum hshort
  obtain ⟨u', hu', _⟩ := hexpanded e he
  obtain ⟨hhalt, rfl⟩ := Body.execute_result.1 hu'
  refine ⟨_, Body.execute_result.2 ⟨hagree.halt ▸ hhalt, rfl⟩, e, he, _, hu', ?_, ?_⟩
  · exact congrArg PathCondition.clauses hagree.alike.provider.path
  · rw [TestCase.runner, Body.execute_observations, Body.execute_observations, hagree.alike.observations]

/-- Null is a conforming value of a box: the run under it is covered by an execution that used another value. -/
theorem run_exhausted_null_box :
    let t : TestCase := {
      name := "box"
      locations := [(⟨1⟩, "five"), (⟨2⟩, "zero")]
      body := .ofList [.act (.mock "box" Capability.supplier.descriptor), .act (.invoke "box" "get" [] "v"),
        .branch ⟨1⟩ "v" .eq 5 .skip (.branch ⟨2⟩ "v" .eq 0 .skip (.act (.assertReached ⟨3⟩ true)))] }
    let x : CampaignContext := { config := { campaign := { stopWhenComplete := false } }, solver := .equality }
    let m : Model := ({} : Model).insert (.forCall 0 "get") (.boxed none)
    (x.run {} t).1.status = .complete ∧ (x.performed {} t).length = 3 ∧
      t.body.questions x.config.mock m = [(.forCall 0 "get", .boxedInt)] ∧
      ∃ u, (t.body.execute x.config.mock 9 m []).result = .ok u ∧
        ∃ e ∈ x.performed {} t, ∃ u', (t.runner x.config.mock e.1 e.2).result = .ok u' ∧
          u'.path.clauses = u.path.clauses ∧
          (t.runner x.config.mock e.1 e.2).observations = (t.body.execute x.config.mock 9 m []).observations := by
  intro t x m
  have hb : t.body.MockDriven := by simp [t, Body.ofList, Body.MockDriven, Action.MockDriven]
  have hstatus : (x.run {} t).1.status = .complete := by decide +kernel
  have hexhausted : x.Exhausted {} t := ⟨.inr hstatus, .inr ⟨rfl, by decide +kernel⟩⟩
  have hasked : t.body.questions x.config.mock m = [(.forCall 0 "get", .boxedInt)] := by decide +kernel
  have hconf : ∀ q ∈ t.body.questions x.config.mock m, (m.resolve q.1 q.2).conformsTo q.2 = true := by
    decide +kernel
  exact ⟨hstatus, by decide +kernel, hasked, run_exhausted x rfl {} t hb hexhausted m hconf 9
    (by decide +kernel) (by decide +kernel)⟩

end CampaignContext

end MockExplorer
