import MockExplorer.Proofs.Campaign.Completeness
import MockExplorer.Proofs.Campaign.Failure
import MockExplorer.Proofs.Execution.Consistency

/-!
# Campaigns without inconsistencies

Every candidate of a search settles its run, so the interception of a mock-driven body never contradicts
itself. No execution of a campaign raises an inconsistency, whenever the campaign is cancelled.
-/

namespace MockExplorer

/-! ## Searches -/

theorem mem_of_mem_numbered {id : UInt64} {cs : List Candidate} {e : UInt64 × Candidate} (h : e ∈ numbered id cs) :
    e.2 ∈ cs := by
  rw [← map_snd_numbered id cs]
  exact List.mem_map_of_mem h

/-- What is passed on from paths to their siblings holds of every candidate that is run. -/
theorem Search.Frontier.explores {x : Exploration} {f : List Predicate → Answer} {Q : Candidate → Prop}
    {done more : List (UInt64 × Candidate)} {c : Campaign} {s : Search} {results : List (Except MockError Trace)}
    {out : Campaign × Search × CaseStatus} (h : Frontier x f Q done s)
    (hf : ∀ earlier query, x.solver.answer earlier query = f query) (hQ : Flips x f Q)
    (hexpanded : ∀ e ∈ done, Expanded x.run s e) (hexplores : Explores x c s more results out) :
    ∀ e ∈ more, Q e.2 := by
  have hnow : ∀ {done : List (UInt64 × Candidate)} {c : Campaign} {s : Search}, Frontier x f Q done s →
      ∀ e ∈ numbered c.nextExecution (s.worklist.take (batchLength x s)), Q e.2 :=
    fun h e he => h.sprung e.2 (.inl (List.mem_of_mem_take (mem_of_mem_numbered he)))
  induction hexplores generalizing done with
  | ended _ => exact fun e he => by cases he
  | failed _ _ => exact hnow h
  | next _ hbatch _ ih =>
      obtain ⟨hnext, hall⟩ := h.nextBatch hf hQ hexpanded hbatch
      intro e he
      rcases List.mem_append.1 he with he | he
      · exact hnow h e he
      · exact ih hnext hall e he

namespace CampaignContext

/-- The equality solver comes up with nothing but models of flipped paths. -/
theorem performedBy_sprung {x : CampaignContext} {t : TestCase} {run : Runner} (hsolver : x.solver = .equality)
    (hrun : ∀ id d, (run id d).result = (t.runner x.config.mock id d).result) (c : Campaign)
    {e : UInt64 × Candidate} (he : e ∈ x.performedBy run c t) : e.2.Sprung t.body x.config.mock := by
  have hanswer : ∀ earlier query, (x.explorationBy run t).solver.answer earlier query = Equality.solve query := by
    intro earlier query
    rw [explorationBy, exploration, hsolver]
    rfl
  obtain ⟨c', s', status, hexplores, _⟩ := x.runBy_explores run c t
  exact (Search.Frontier.start _ .origin).explores hanswer (Candidate.flips_of_results hrun)
    (fun e he => by cases he) hexplores e he

section

variable {x : CampaignContext} {t : TestCase} {run : Runner} (hsolver : x.solver = .equality)
  (hb : t.body.MockDriven) (hcandid : t.body.Candid x.config.mock)
  (hrun : ∀ id d, (run id d).result = (t.runner x.config.mock id d).result) (c : Campaign)
include hsolver hb hcandid hrun

theorem performedBy_consistent {e : UInt64 × Candidate} (he : e ∈ x.performedBy run c t) :
    t.body.Consistent x.config.mock e.1 e.2.model e.2.assumptions :=
  -- The model of the candidate was found for the assumptions of the very run that it drives.
  ((performedBy_sprung hsolver hrun c he).settled hb e.1).consistent hcandid

theorem performedBy_result {e : UInt64 × Candidate} (he : e ∈ x.performedBy run c t) {halt : Halt}
    (hresult : (run e.1 e.2).result = .error halt) : halt.isInconsistent = false :=
  (performedBy_consistent hsolver hb hcandid hrun c he).execute ((hrun e.1 e.2).symm.trans hresult)

theorem runBy_not_fatal : (x.runBy run c t).1.status.isFatal = false := by
  obtain ⟨c', s', status, hexplores, hreport⟩ := x.runBy_explores run c t
  rw [hreport]
  refine Bool.eq_false_iff.2 fun hfatal => ?_
  obtain ⟨e, hfirst, hsevere⟩ := hexplores.isFatal_settle.1 hfatal
  -- A crash is not fatal, and any other error that came back was raised by an execution.
  obtain ⟨result, hmem, herror⟩ := List.exists_of_findSome?_eq_some hfirst
  rw [errorOf?_eq_some.1 herror] at hmem
  rcases error_of_reports hexplores.reports hmem with rfl | ⟨d, hd, hraised⟩
  · cases hsevere
  · have hnone := performedBy_result hsolver hb hcandid hrun c hd hraised
    rw [MockError.severity_eq_fatal.1 hsevere] at hnone
    cases hnone

end

end CampaignContext

/-! ## Campaigns that others cancel -/

/-- A test case in a campaign that others can cancel: how its candidates are run, which tells whether the campaign
was cancelled meanwhile, and whether it was cancelled just before the test case. -/
structure Turn where
  test : TestCase
  run : Runner
  cancelled : Bool := false

/-- The turn of a test case that nobody cancels but its body. -/
def Turn.ofCase (config : MockConfig) (t : TestCase) : Turn := { test := t, run := t.runner config }

/-- The executions come to the results of the test body. -/
def Turn.Faithful (o : Turn) (config : MockConfig) : Prop :=
  ∀ id d, (o.run id d).result = (o.test.runner config id d).result

namespace CampaignContext

/-- Explores the test cases of turns in order. -/
def runTurns (x : CampaignContext) : Campaign → List Turn → List CaseReport × Campaign
  | c, [] => ([], c)
  | c, o :: rest =>
    let (r, c) := x.runBy o.run { c with cancelled := c.cancelled || o.cancelled } o.test
    let (rs, c) := runTurns x c rest
    (r :: rs, c)

def runAllTurns (x : CampaignContext) (c : Campaign) (turns : List Turn) : CampaignReport × Campaign :=
  let (cases, c) := x.runTurns c turns
  ({ cases, executions := cases.foldl (fun n r => n + r.executions) 0, branches := c.oracle.report }, c)

theorem runTurns_ofCase (x : CampaignContext) (c : Campaign) (ts : List TestCase) :
    x.runTurns c (ts.map (.ofCase x.config.mock)) = x.runCases c ts := by
  induction ts generalizing c with
  | nil => rfl
  | cons t ts ih =>
      have hstart : ({ c with cancelled := c.cancelled || false } : Campaign) = c := by simp
      simp only [List.map_cons, runTurns, runCases, Turn.ofCase, hstart, runBy_runner, ← ih]

theorem runAllTurns_ofCase (x : CampaignContext) (c : Campaign) (ts : List TestCase) :
    x.runAllTurns c (ts.map (.ofCase x.config.mock)) = x.runAll c ts := by
  rw [runAllTurns, runTurns_ofCase, runAll]

theorem mem_runTurns {x : CampaignContext} {c : Campaign} {turns : List Turn} {r : CaseReport}
    (h : r ∈ (x.runTurns c turns).1) : ∃ o ∈ turns, ∃ c', r = (x.runBy o.run c' o.test).1 := by
  induction turns generalizing c with
  | nil => cases h
  | cons o turns ih =>
      rcases List.mem_cons.1 h with rfl | h
      · exact ⟨o, List.mem_cons_self .., _, rfl⟩
      · obtain ⟨o', ho', hr⟩ := ih h
        exact ⟨o', List.mem_cons_of_mem _ ho', hr⟩

/-- Let a campaign with the equality solver explore mock-driven bodies that make up no inconsistency, and let
anyone cancel it at any time. In whatever state it comes to a test case, no statement of any execution raises an
inconsistency, and no test case is reported as fatal. -/
theorem runAllTurns_consistent (x : CampaignContext) (hsolver : x.solver = .equality) (c : Campaign)
    (turns : List Turn) (hturns : ∀ o ∈ turns, o.test.body.MockDriven ∧ o.test.body.Candid x.config.mock ∧
      o.Faithful x.config.mock) :
    (∀ o ∈ turns, ∀ c', ∀ e ∈ x.performedBy o.run c' o.test,
        o.test.body.Consistent x.config.mock e.1 e.2.model e.2.assumptions ∧
          ∀ halt, (o.run e.1 e.2).result = .error halt → halt.isInconsistent = false) ∧
      (∀ r ∈ (x.runAllTurns c turns).1.cases, r.status.isFatal = false) ∧
      (x.runAllTurns c turns).1.hasFatal = false := by
  have hcases : ∀ r ∈ (x.runAllTurns c turns).1.cases, r.status.isFatal = false := by
    intro r hr
    obtain ⟨o, ho, c', rfl⟩ := mem_runTurns hr
    obtain ⟨hb, hcandid, hrun⟩ := hturns o ho
    exact runBy_not_fatal hsolver hb hcandid hrun c'
  refine ⟨fun o ho c' e he => ?_, hcases, List.any_eq_false.2 fun r hr => by simp [hcases r hr]⟩
  obtain ⟨hb, hcandid, hrun⟩ := hturns o ho
  exact ⟨performedBy_consistent hsolver hb hcandid hrun c' he,
    fun halt hresult => performedBy_result hsolver hb hcandid hrun c' he hresult⟩

/-- A test case is explored to the failure of its second execution, and again until someone cancels the campaign
during the first execution. -/
theorem runAllTurns_consistent_cancelled :
    let t : TestCase := {
      name := "box"
      body := .ofList [.act (.mock "box" Capability.supplier.descriptor), .act (.invoke "box" "get" [] "v"),
        .attempt (.branch ⟨1⟩ "v" .ne 0 (.act (.fail (.config "stop"))) .skip) (.act (.call "none" [] "w"))] }
    let x : CampaignContext := { solver := .equality }
    let o : Turn := { test := t, run := fun id d => { t.runner {} id d with cancels := true } }
    t.body.MockDriven ∧ t.body.Candid {} ∧ o.Faithful {} ∧ (x.performedBy o.run {} t).length = 1 ∧
      (x.run {} t).1.status = .failed (MockError.outOfScope "mock none").text ∧
      (x.runAllTurns {} [.ofCase {} t, o]).1.hasFatal = false ∧ (x.runAll {} [t, t]).1.hasFatal = false := by
  intro t x o
  have hb : t.body.MockDriven := by simp [t, Body.ofList, Body.MockDriven, Action.MockDriven]
  have hcandid : t.body.Candid {} := Body.candid_of_actions (by decide) {}
  have ho : o.Faithful {} := fun _ _ => rfl
  have hturns : ∀ o' ∈ [.ofCase {} t, o],
      o'.test.body.MockDriven ∧ o'.test.body.Candid {} ∧ o'.Faithful {} := by
    simpa using ⟨⟨hb, hcandid, fun _ _ => rfl⟩, hb, hcandid, ho⟩
  have hboth := (runAllTurns_consistent x rfl {} _ hturns).2.2
  have hall := runAllTurns_consistent x rfl {} ([t, t].map (.ofCase {})) (by
    simpa using ⟨hb, hcandid, fun _ _ => rfl⟩)
  exact ⟨hb, hcandid, ho, by decide +kernel, by decide +kernel, hboth, runAllTurns_ofCase x {} [t, t] ▸ hall.2.2⟩

end CampaignContext

end MockExplorer
