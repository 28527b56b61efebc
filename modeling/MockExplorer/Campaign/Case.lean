import MockExplorer.Campaign.Search
import MockExplorer.Execution.Body

/-!
# Test cases and campaigns over them

A test case is a body with the branches it declares and the names of its assertions. A campaign explores
test cases in order over one oracle.
-/

namespace MockExplorer

structure TestCase where
  name : String
  /-- The types that are mocked for the test's parameters. -/
  targets : List MockTarget := []
  /-- The branches to cover, with their labels. -/
  locations : List (LocationId × String) := []
  /-- The places of assertions, with their labels. -/
  tagSites : List (LocationId × String) := []
  body : Body
deriving DecidableEq, Inhabited

/-- Runs a candidate of the test case. -/
def TestCase.runner (t : TestCase) (config : MockConfig) : Runner :=
  fun id c => t.body.execute config id c.model c.assumptions

/-- The settings of a campaign, on a machine with `processors` processors. -/
structure CampaignContext where
  config : Config := {}
  solver : Solver
  processors : Nat := 1

namespace CampaignContext

def exploration (x : CampaignContext) (t : TestCase) : Exploration :=
  { name := t.name
    run := t.runner x.config.mock
    config := x.config.campaign
    workers := x.config.campaign.effectiveWorkers x.processors
    solver := x.solver }

/-- Explores one test case. -/
def run (x : CampaignContext) (c : Campaign) (t : TestCase) : CaseReport × Campaign :=
  let c := { c with oracle := c.oracle.labelAll (t.locations ++ t.tagSites) }
  Search.run (x.exploration t) c (t.locations.map (·.1))

/-- Explores test cases in order. -/
def runCases (x : CampaignContext) : Campaign → List TestCase → List CaseReport × Campaign
  | c, [] => ([], c)
  | c, t :: rest =>
    let (r, c) := x.run c t
    let (rs, c) := runCases x c rest
    (r :: rs, c)

/-- Explores test cases in order and reports on all of them. -/
def runAll (x : CampaignContext) (c : Campaign) (ts : List TestCase) : CampaignReport × Campaign :=
  let (cases, c) := x.runCases c ts
  ({ cases, executions := cases.foldl (fun n r => n + r.executions) 0, branches := c.oracle.report }, c)

end CampaignContext

end MockExplorer
