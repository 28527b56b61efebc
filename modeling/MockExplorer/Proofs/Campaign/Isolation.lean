import MockExplorer.Proofs.Campaign.Alike
import MockExplorer.Proofs.Campaign.Completeness
import MockExplorer.Proofs.Campaign.Consistency

/-!
# Test cases that share a campaign

Test cases of one campaign share its oracle, its counter of executions, its cancel flag and its solver. If no two
of them touch the same location, nobody cancels and the solver answers each query for itself, every test case is
reported as if it were alone in a new campaign, whatever becomes of the others. A solver that
counts its queries carries over from one test case to the next.
-/

namespace MockExplorer

namespace Search

variable {x : Exploration} {c : Campaign} {s : Search}

/-! ## What a search leaves behind -/

theorem nextBatch_leaves (hcancels : ∀ id e, (x.run id e).cancels = false) :
    (nextBatch x c s).1.cancelled = c.cancelled ∧
      ∀ l, (∀ id e outcome, .branch l outcome ∉ (x.run id e).observations) →
        (nextBatch x c s).1.oracle.state l = c.oracle.state l := by
  obtain ⟨hobservations, hcancelled⟩ : (∀ ob ∈ (batchResult x c s).observations,
      ∃ id d, ob ∈ (x.run id d).observations) ∧ _ := runBatch_origin
  obtain ⟨_, hcampaign⟩ := nextBatch_campaign x c s
  rw [hcampaign]
  refine ⟨?_, fun l hl => Oracle.state_observeAll_of_not_mem _ fun outcome hmem => ?_⟩
  · have hnone : (batchResult x c s).cancels = false := by
      refine Bool.eq_false_iff.2 fun h => ?_
      obtain ⟨id, e, he⟩ := hcancelled h
      rw [hcancels id e] at he
      cases he
    rw [hnone, Bool.or_false]
  · obtain ⟨id, e, he⟩ := hobservations _ hmem
    exact hl id e outcome he

theorem Explores.leaves {done : List (UInt64 × Candidate)} {results : List (Except MockError Trace)}
    {out : Campaign × Search × CaseStatus} (hcancels : ∀ id e, (x.run id e).cancels = false)
    (h : Explores x c s done results out) :
    out.1.cancelled = c.cancelled ∧ ∀ l, (∀ id e outcome, .branch l outcome ∉ (x.run id e).observations) →
      out.1.oracle.state l = c.oracle.state l := by
  induction h with
  | ended _ => exact ⟨rfl, fun _ _ => rfl⟩
  | @failed c c' s s' e _ hbatch =>
      have hleaves := nextBatch_leaves (c := c) (s := s) hcancels
      rwa [hbatch] at hleaves
  | @next c c' s s' _ _ _ _ hbatch _ ih =>
      obtain ⟨hcancelled, hstates⟩ := nextBatch_leaves (c := c) (s := s) hcancels
      rw [hbatch] at hcancelled hstates
      exact ⟨ih.1.trans hcancelled, fun l hl => (ih.2 l hl).trans (hstates l hl)⟩

end Search

/-! ## Turns -/

/-- A campaign before its first test case: nobody has cancelled it, and its oracle has seen no branch. -/
structure Campaign.Fresh (c : Campaign) : Prop where
  cancelled : c.cancelled = false
  states : ∀ l, c.oracle.state l = .unreached

theorem Campaign.fresh_empty : ({} : Campaign).Fresh := ⟨rfl, fun _ => rfl⟩

/-- The turn declares the location, branches there in some execution, or records a clause there. -/
def Turn.Touches (o : Turn) (l : LocationId) : Prop :=
  l ∈ o.test.locations.map (·.1) ∨ ∃ id d, (∃ outcome, .branch l outcome ∈ (o.run id d).observations) ∨
    ∃ t, (o.run id d).result = .ok t ∧ l ∈ t.locations

/-- Nobody cancels the campaign before or during the turn, and the numbers of executions do not matter to it. -/
structure Turn.Steady (o : Turn) : Prop where
  cancelled : o.cancelled = false
  cancels : ∀ id d, (o.run id d).cancels = false
  numberless : Numberless o.run

def TestCase.sites (t : TestCase) : List LocationId := t.locations.map (·.1) ++ t.body.sites

theorem Turn.steady_ofCase (config : MockConfig) {t : TestCase} (ht : .cancel ∉ t.body.actions) :
    (Turn.ofCase config t).Steady where
  cancelled := rfl
  cancels id d := by
    have hcancels : (t.body.execute config id d.model d.assumptions).cancels =
        (t.body.runUnder config id d.model d.assumptions).1.cancelled := by
      unfold Body.execute
      rcases t.body.runUnder config id d.model d.assumptions with ⟨y, _ | halt⟩ <;> rfl
    exact hcancels.trans (Body.runUnder_cancelled config id d.model d.assumptions ht)
  numberless id id' d := Body.execute_unnumbered t.body config id id' d.model d.assumptions

theorem Turn.touches_ofCase {config : MockConfig} {t : TestCase} {l : LocationId}
    (h : (Turn.ofCase config t).Touches l) : l ∈ t.sites := by
  rcases h with h | ⟨id, d, h⟩
  · exact List.mem_append_left _ h
  · have hwithin := Body.runUnder_within config id d.model d.assumptions t.body
    refine List.mem_append_right _ ?_
    rcases h with ⟨outcome, hmem⟩ | ⟨u, hresult, hl⟩
    · have hobservations := Body.execute_observations t.body config id d.model d.assumptions
      exact hwithin.observations l outcome (List.mem_reverse.1 (hobservations ▸ hmem))
    · obtain ⟨_, rfl⟩ := Body.execute_result.1 hresult
      obtain ⟨cl, hcl, rfl⟩ := Trace.mem_locations.1 hl
      exact hwithin.clauses cl hcl

namespace CampaignContext

variable {x : CampaignContext} {c c' : Campaign} {o : Turn}

theorem runBy_alike (hpure : x.solver.IsPure) (ho : o.Steady) (h : Search.Alike o.Touches c c') :
    (x.runBy o.run c o.test).1 = (x.runBy o.run c' o.test).1 := by
  have hopen : Search.Alike o.Touches (opening c o.test).1 (opening c' o.test).1 := by
    refine ⟨fun l hl => ?_, h.cancelled⟩
    simp only [opening, Oracle.state_labelAll]
    exact h.states l hl
  exact Search.run_alike (x := x.explorationBy o.run o.test) hpure ho.numberless
    (fun id d t ht l hl => .inr ⟨id, d, .inr ⟨t, ht, hl⟩⟩) hopen fun l hl => .inl hl

theorem runBy_leaves (ho : o.Steady) :
    (x.runBy o.run c o.test).2.cancelled = c.cancelled ∧
      ∀ l, ¬ o.Touches l → (x.runBy o.run c o.test).2.oracle.state l = c.oracle.state l := by
  obtain ⟨c', s', status, hexplores, hrun⟩ := x.runBy_explores o.run c o.test
  obtain ⟨hcancelled, hstates⟩ := hexplores.leaves ho.cancels
  rw [hrun]
  refine ⟨hcancelled, fun l hl => (hstates l fun id d outcome hmem => ?_).trans (Oracle.state_labelAll ..)⟩
  exact hl (.inr ⟨id, d, .inl ⟨outcome, hmem⟩⟩)

theorem runTurns_isolated (hpure : x.solver.IsPure) (hc' : c'.Fresh) {turns : List Turn}
    (hsteady : ∀ o ∈ turns, o.Steady) (hdisjoint : turns.Pairwise fun o o' => ∀ l, o.Touches l → ¬ o'.Touches l)
    (hcancelled : c.cancelled = false) (hstates : ∀ o ∈ turns, ∀ l, o.Touches l → c.oracle.state l = .unreached) :
    (x.runTurns c turns).1 = turns.map fun o => (x.runBy o.run c' o.test).1 := by
  induction turns generalizing c with
  | nil => rfl
  | cons o turns ih =>
      obtain ⟨hfirst, hrest⟩ := List.pairwise_cons.1 hdisjoint
      have ho := hsteady o (List.mem_cons_self ..)
      have hopen : { c with cancelled := c.cancelled || o.cancelled } = c := by rw [ho.cancelled, Bool.or_false]
      have halike : Search.Alike o.Touches c c' :=
        ⟨fun l hl => (hstates o (List.mem_cons_self ..) l hl).trans (hc'.states l).symm,
          hcancelled.trans hc'.cancelled.symm⟩
      obtain ⟨hflag, hleaves⟩ := runBy_leaves (x := x) (c := c) ho
      have hnext := ih (c := (x.runBy o.run c o.test).2) (fun o' ho' => hsteady o' (List.mem_cons_of_mem _ ho')) hrest
        (hflag.trans hcancelled) fun o' ho' l hl => by
          rw [hleaves l fun htouched => hfirst o' ho' l htouched hl]
          exact hstates o' (List.mem_cons_of_mem _ ho') l hl
      simp only [runTurns, hopen, List.map_cons, hnext, runBy_alike hpure ho halike]

/-- With a solver whose answers depend on the query alone, steady turns that touch no common location are reported
as each would be in a new campaign of its own. So are test cases that do not cancel and name no common
location. -/
theorem runAllTurns_isolated (x : CampaignContext) (hpure : x.solver.IsPure) {c c' : Campaign} (hc : c.Fresh)
    (hc' : c'.Fresh) :
    (∀ turns : List Turn, (∀ o ∈ turns, o.Steady) →
      turns.Pairwise (fun o o' => ∀ l, o.Touches l → ¬ o'.Touches l) →
      (x.runAllTurns c turns).1.cases = turns.map fun o => (x.runBy o.run c' o.test).1) ∧
    ∀ ts : List TestCase, (∀ t ∈ ts, .cancel ∉ t.body.actions) →
      ts.Pairwise (fun t t' => ∀ l ∈ t.sites, l ∉ t'.sites) →
      (x.runAll c ts).1.cases = ts.map fun t => (x.run c' t).1 := by
  have hturns : ∀ turns : List Turn, (∀ o ∈ turns, o.Steady) →
      turns.Pairwise (fun o o' => ∀ l, o.Touches l → ¬ o'.Touches l) →
      (x.runAllTurns c turns).1.cases = turns.map fun o => (x.runBy o.run c' o.test).1 :=
    fun turns hsteady hdisjoint =>
      runTurns_isolated hpure hc' hsteady hdisjoint hc.cancelled fun _ _ l _ => hc.states l
  refine ⟨hturns, fun ts hcancel hdisjoint => ?_⟩
  rw [← runAllTurns_ofCase, hturns (ts.map (.ofCase x.config.mock)) ?_ ?_, List.map_map]
  · rfl
  · intro o ho
    obtain ⟨t, ht, rfl⟩ := List.mem_map.1 ho
    exact Turn.steady_ofCase x.config.mock (hcancel t ht)
  · refine List.pairwise_map.2 (hdisjoint.imp fun hsites l hl hl' => ?_)
    exact hsites l (Turn.touches_ofCase hl) (Turn.touches_ofCase hl')

/-- A test case that fails, one that crashes and one that ends fatally do not disturb the fourth, nor one another. -/
theorem runAllTurns_isolated_mixture :
    let t (name : String) (l : LocationId) (last : Action) : TestCase := {
      name
      body := .ofList [.act (.mock "m" Capability.intSupplier.descriptor), .act (.call "m" [] "v"),
        .branch l "v" .eq 5 (.act last) .skip] }
    let ts := [t "fails" ⟨1⟩ (.fail (.config "no")), t "crashes" ⟨2⟩ .crash,
      t "ends" ⟨3⟩ (.fail (.inconsistent "v" "made up")), t "completes" ⟨4⟩ (.assertReached ⟨1⟩ true)]
    let x : CampaignContext := { solver := .equality }
    x.solver.IsPure ∧ ({} : Campaign).Fresh ∧ (∀ t ∈ ts, .cancel ∉ t.body.actions) ∧
      ts.Pairwise (fun t t' => ∀ l ∈ t.sites, l ∉ t'.sites) ∧
      (x.runAll {} ts).1.cases.map (·.status.isError) = [true, true, true, false] ∧
      (x.runAll {} ts).1.cases = ts.map fun t => (x.run {} t).1 := by
  intro t ts x
  have hpure : x.solver.IsPure := fun _ _ => rfl
  have hcancel : ∀ t ∈ ts, .cancel ∉ t.body.actions := by decide +kernel
  have hdisjoint : ts.Pairwise (fun t t' => ∀ l ∈ t.sites, l ∉ t'.sites) := by decide +kernel
  exact ⟨hpure, Campaign.fresh_empty, hcancel, hdisjoint, by decide +kernel,
    (runAllTurns_isolated x hpure Campaign.fresh_empty Campaign.fresh_empty).2 ts hcancel hdisjoint⟩

/-- A solver that refuses its first query and no other is not pure. The test case that comes second has its query
answered, and is not reported as it would be alone. -/
theorem runAll_not_isolated :
    let t (name : String) (l : LocationId) : TestCase := {
      name
      body := .ofList [.act (.mock "m" Capability.intSupplier.descriptor), .act (.call "m" [] "v"),
        .branch l "v" .eq 5 .skip .skip] }
    let ts := [t "first" ⟨1⟩, t "second" ⟨2⟩]
    let x : CampaignContext := { solver := .ofReplies [.unsat] .equality }
    (∀ t ∈ ts, .cancel ∉ t.body.actions) ∧ ts.Pairwise (fun t t' => ∀ l ∈ t.sites, l ∉ t'.sites) ∧
      (x.runAll {} ts).1.cases ≠ ts.map fun t => (x.run {} t).1 := by
  intro t ts x
  refine ⟨by decide +kernel, by decide +kernel, fun hsame => ?_⟩
  have htogether : (x.runAll {} ts).1.cases.map (·.executions) = [1, 2] := by decide +kernel
  have halone : (ts.map fun t => (x.run {} t).1).map (·.executions) = [1, 1] := by decide +kernel
  rw [hsame, halone] at htogether
  cases htogether

end CampaignContext

end MockExplorer
