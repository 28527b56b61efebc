import MockExplorer.Proofs.Campaign.Accounting
import MockExplorer.Proofs.Campaign.Completeness
import MockExplorer.Proofs.Campaign.Scheduling
import MockExplorer.Proofs.Coverage.Oracle
import MockExplorer.Proofs.Execution.Decisions

/-!
# Campaigns that succeed

A search tracks the locations of the clauses that come back. If bodies branch on variables alone, these are all the
locations where branches are reported. So if every test case of a campaign is complete, every branch point that the
oracle knows of has been reached both ways.
-/

namespace MockExplorer

/-- What the executions report to the oracle, one after the other. -/
def observationsOf (run : Runner) (executions : List (UInt64 × Candidate)) : List Observation :=
  executions.flatMap fun e => (run e.1 e.2).observations

section

variable {name : String} {run : Runner} {executions : List (UInt64 × Candidate)}
  {results : List (Except MockError Trace)}
  (hreports : List.Forall₂ (fun e => (run e.1 e.2).Reports name) executions results)
  (hok : ∀ result ∈ results, ∃ t, result = .ok t)
include hreports hok

theorem exists_trace_of_reports {e : UInt64 × Candidate} (he : e ∈ executions) :
    ∃ t, .ok t ∈ results ∧ (run e.1 e.2).result = .ok t := by
  induction hreports with
  | nil => cases he
  | cons hreport _ ih =>
      obtain ⟨⟨t, rfl⟩, hrest⟩ := List.forall_mem_cons.1 hok
      rcases List.mem_cons.1 he with rfl | he
      · exact ⟨t, List.mem_cons_self .., hreport.result_eq⟩
      · obtain ⟨u, hu, hresult⟩ := ih hrest he
        exact ⟨u, List.mem_cons_of_mem _ hu, hresult⟩

theorem crashless_of_reports : Crashless run executions := by
  intro e he
  obtain ⟨t, _, hresult⟩ := exists_trace_of_reports hreports hok he
  exact ⟨.ok t, Run.settled?_eq_ok.2 hresult⟩

end

/-! ## The oracle after a search -/

namespace Search

variable {x : Exploration} {c : Campaign} {s : Search}

theorem nextBatch_oracle (hok : ∀ result ∈ (batchResult x c s).results, ∃ t, result = .ok t) :
    (nextBatch x c s).1.oracle = c.oracle.observeAll
      (observationsOf x.run (numbered c.nextExecution (s.worklist.take (batchLength x s)))) := by
  have hcrashless := crashless_of_reports (runBatch_reports ..) hok
  obtain ⟨_, hcampaign⟩ := nextBatch_campaign x c s
  rw [hcampaign, batchResult, runBatch_eq hcrashless]
  simp [BatchResult.ofRuns, observationsOf, List.flatMap_map]

/-- A search in which no execution fails leaves all that they report to the oracle. -/
theorem Explores.oracle_eq {done : List (UInt64 × Candidate)} {results : List (Except MockError Trace)}
    {out : Campaign × Search × CaseStatus} (h : Explores x c s done results out)
    (hok : ∀ result ∈ results, ∃ t, result = .ok t) :
    out.1.oracle = c.oracle.observeAll (observationsOf x.run done) := by
  induction h with
  | ended _ => rfl
  | @failed c c' s s' e _ hbatch =>
      have hfirst := nextBatch_failure x c s
      rw [hbatch, List.findSome?_eq_none_iff.2 fun result hr => errorOf?_eq_none.2 (hok result hr)] at hfirst
      cases hfirst
  | @next c c' s s' done results out _ hbatch _ ih =>
      obtain ⟨hnow, hlater⟩ := List.forall_mem_append.1 hok
      have hfirst := nextBatch_oracle hnow
      rw [hbatch] at hfirst
      rw [ih hlater, show c'.oracle = _ from hfirst]
      simp [Oracle.observeAll, observationsOf]

end Search

/-! ## Complete test cases -/

theorem CaseStatus.isComplete_iff {status : CaseStatus} : status.isComplete = true ↔ status = .complete := by
  cases status <;> simp [isComplete]

/-- Whatever branch a successful execution reports, its trace has a clause there. -/
def Traced (run : Runner) : Prop :=
  ∀ id d t, (run id d).result = .ok t → ∀ l outcome, .branch l outcome ∈ (run id d).observations → l ∈ t.locations

theorem TestCase.traced {t : TestCase} {config : MockConfig} (hb : t.body.BranchesOnVariables config) :
    Traced (t.runner config) := by
  intro id d u hresult l outcome hmem
  obtain ⟨_, rfl⟩ := Body.execute_result.1 hresult
  rw [TestCase.runner, Body.execute_observations, List.mem_reverse] at hmem
  exact Trace.mem_locations.2 (Body.runUnder_located hb id d.model d.assumptions l outcome hmem)

namespace CampaignContext

variable {x : CampaignContext} {c : Campaign} {t : TestCase} {run : Runner}

theorem runBy_oracle (hstatus : (x.runBy run c t).1.status = .complete) :
    (x.runBy run c t).2.oracle = (c.oracle.labelAll (t.locations ++ t.tagSites)).observeAll
      (observationsOf run (x.performedBy run c t)) := by
  obtain ⟨c', s', status, hexplores, hrun⟩ := x.runBy_explores run c t
  rw [hrun] at hstatus ⊢
  exact hexplores.oracle_eq (hexplores.ended_of_settle hstatus rfl).1

theorem runBy_reachedBoth (htraced : Traced run) (hstatus : (x.runBy run c t).1.status = .complete) {l : LocationId}
    {outcome : Bool} (hmem : .branch l outcome ∈ observationsOf run (x.performedBy run c t)) :
    (x.runBy run c t).2.oracle.state l = .reachedBoth := by
  obtain ⟨c', s', status, hexplores, hrun⟩ := x.runBy_explores run c t
  rw [hrun] at hstatus ⊢
  have haccounts := hexplores.accounts t.name
  obtain ⟨hok, _⟩ := hexplores.ended_of_settle hstatus rfl
  obtain ⟨e, he, hreported⟩ := List.mem_flatMap.1 hmem
  obtain ⟨u, hu, hresult⟩ := exists_trace_of_reports hexplores.reports hok he
  -- The branch has left a clause in the trace of its execution, so the search tracks it.
  have hclause := Trace.mem_locations.1 (htraced e.1 e.2 u hresult l outcome hreported)
  exact haccounts.complete hstatus l ((haccounts.locations l).2 (.inr ⟨u, hu, hclause⟩))

/-- What the executions of all test cases report to the oracle. -/
def reported (x : CampaignContext) : Campaign → List TestCase → List Observation
  | _, [] => []
  | c, t :: ts =>
    observationsOf (t.runner x.config.mock) (x.performedBy (t.runner x.config.mock) c t) ++
      reported x (x.run c t).2 ts

theorem runCases_complete {ts : List TestCase} (hts : ∀ t ∈ ts, t.body.BranchesOnVariables x.config.mock)
    (hc : c.oracle.Complete) (hcases : ∀ r ∈ (x.runCases c ts).1, r.status = .complete) :
    (x.runCases c ts).2.oracle.Complete ∧ ∀ l, l ∈ (x.runCases c ts).2.oracle.branchPoints ↔
      l ∈ c.oracle.branchPoints ∨ ∃ outcome, .branch l outcome ∈ x.reported c ts := by
  induction ts generalizing c with
  | nil => exact ⟨hc, fun l => by simp [runCases, reported]⟩
  | cons t ts ih =>
      obtain ⟨ht, hrest⟩ := List.forall_mem_cons.1 hts
      obtain ⟨hstatus, hlater⟩ := List.forall_mem_cons.1 hcases
      have horacle : (x.run c t).2.oracle = _ := runBy_oracle hstatus
      have hcomplete : (x.run c t).2.oracle.Complete := by
        rw [horacle]
        refine (hc.labelAll _).observeAll fun l outcome hmem => ?_
        rw [← horacle]
        exact runBy_reachedBoth (TestCase.traced ht) hstatus hmem
      obtain ⟨hend, hpoints⟩ := ih hrest hcomplete hlater
      refine ⟨hend, fun l => ?_⟩
      have hfirst : l ∈ (x.run c t).2.oracle.branchPoints ↔ l ∈ c.oracle.branchPoints ∨ ∃ outcome,
          .branch l outcome ∈
            observationsOf (t.runner x.config.mock) (x.performedBy (t.runner x.config.mock) c t) := by
        rw [horacle, Oracle.mem_branchPoints_observeAll, Oracle.branchPoints_labelAll]
      have hsplit := hpoints l
      rw [hfirst, or_assoc, ← exists_or] at hsplit
      simpa [runCases, reported] using hsplit

/-- Let the bodies of the test cases branch on variables alone, and let the oracle know of no branch yet. If the
campaign is a success, then its report shows the branches that the executions went through, all of them, and each
as reached both ways. -/
theorem runAll_covers (x : CampaignContext) (c : Campaign) (hc : c.oracle.branchPoints = []) (ts : List TestCase)
    (hts : ∀ t ∈ ts, t.body.BranchesOnVariables x.config.mock) (hsuccess : (x.runAll c ts).1.isSuccess = true) :
    let branches := (x.runAll c ts).1.branches
    branches.Full ∧
      (∀ l, l ∈ branches.points.map (·.location) ↔ ∃ outcome, .branch l outcome ∈ x.reported c ts) ∧
      ∀ l outcome, .branch l outcome ∈ x.reported c ts → (branches.pointAt l).state = .reachedBoth := by
  intro branches
  have hcases : ∀ r ∈ (x.runCases c ts).1, r.status = .complete :=
    fun r hr => CaseStatus.isComplete_iff.1 (List.all_eq_true.1 hsuccess r hr)
  have hempty : c.oracle.Complete := by
    intro l hl
    rw [hc] at hl
    cases hl
  obtain ⟨hcomplete, hpoints⟩ := runCases_complete hts hempty hcases
  have hbranches : branches = (x.runCases c ts).2.oracle.report := rfl
  have htouched : ∀ l, l ∈ (x.runCases c ts).2.oracle.branchPoints ↔
      ∃ outcome, .branch l outcome ∈ x.reported c ts := by
    simpa [hc] using hpoints
  refine ⟨hcomplete.report, fun l => ?_, fun l outcome hmem => ?_⟩
  · rw [hbranches, Oracle.report_points]
    exact htouched l
  · rw [hbranches, Oracle.report_pointAt, Oracle.pointAt_state]
    exact hcomplete l ((htouched l).2 ⟨outcome, hmem⟩)

/-- The second test case gets only one way through its branch, on a value that it made up. It is complete because the
first one has gone both ways there. -/
theorem runAll_covers_shared_branch :
    let first : TestCase := {
      name := "first"
      body := .ofList [.act (.mock "m" Capability.intSupplier.descriptor), .act (.call "m" [] "v"),
        .branch ⟨1⟩ "v" .eq 5 .skip (.branch ⟨2⟩ "v" .eq 7 .skip .skip)] }
    let second : TestCase := {
      name := "second"
      body := .ofList [.act (.keep ⟨.int 3, .int, some (.forCall 9 "get")⟩ "k"), .branch ⟨2⟩ "k" .eq 3 .skip .skip] }
    let x : CampaignContext := { solver := .equality }
    (∀ t ∈ [first, second], t.body.BranchesOnVariables {}) ∧ (x.runAll {} [first, second]).1.isSuccess = true ∧
      (x.runAll {} [first, second]).1.branches.Full ∧
      ((x.runAll {} [first, second]).1.branches.pointAt ⟨2⟩).state = .reachedBoth := by
  intro first second x
  have hactions : ∀ t ∈ [first, second], ∀ a ∈ t.body.actions, a.keepsVariables = true := by decide
  have hts : ∀ t ∈ [first, second], t.body.BranchesOnVariables {} :=
    fun t ht => Body.branchesOnVariables_of_actions (hactions t ht) {}
  have hsuccess : (x.runAll {} [first, second]).1.isSuccess = true := by decide +kernel
  have hmem : .branch ⟨2⟩ true ∈ x.reported {} [first, second] := by decide +kernel
  obtain ⟨hfull, _, hreached⟩ := runAll_covers x {} rfl _ hts hsuccess
  exact ⟨hts, hsuccess, hfull, hreached ⟨2⟩ true hmem⟩

/-- A branch on a value without a variable is not tracked. -/
example :
    let t : TestCase := {
      name := "constant"
      body := .ofList [.act (.keep ⟨.int 3, .int, none⟩ "k"), .branch ⟨1⟩ "k" .eq 3 .skip .skip] }
    let r := (({ solver := .equality } : CampaignContext).runAll {} [t]).1
    r.isSuccess = true ∧ r.branches.isComplete = false := by
  decide +kernel

end CampaignContext

end MockExplorer
