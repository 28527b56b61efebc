import MockExplorer.Coverage.Report
import MockExplorer.Error
import MockExplorer.Symbolic.Model

/-!
# Campaign reports

How each test case ended, what it took, and what the oracle had seen at the end.
-/

namespace MockExplorer

/-- How a test case ended. -/
inductive CaseStatus where
  /-- Every tracked branch reached both outcomes. -/
  | complete
  /-- No input was left to try. -/
  | exhausted
  | budgetSpent
  | failed (error : String)
  /-- The interception itself misbehaved. -/
  | fatal (error : String)
  | cancelled
deriving DecidableEq, Repr, Inhabited

namespace CaseStatus

def isComplete : CaseStatus → Bool
  | .complete => true
  | _ => false

def isError : CaseStatus → Bool
  | .failed _ | .fatal _ => true
  | _ => false

def isFatal : CaseStatus → Bool
  | .fatal _ => true
  | _ => false

/-- The status of a case that an error ended. -/
def ofError (e : MockError) : CaseStatus :=
  match e.severity with
  | .caseLocal => .failed e.text
  | .fatal => .fatal e.text

end CaseStatus

structure CaseReport where
  name : String
  status : CaseStatus
  executions : UInt64
  locations : List LocationId
  /-- The inputs of the successful executions, in order. -/
  inputs : List Model
deriving DecidableEq, Inhabited

structure CampaignReport where
  cases : List CaseReport
  executions : UInt64
  branches : BranchReport
deriving Inhabited

namespace CampaignReport

def isSuccess (r : CampaignReport) : Bool := r.cases.all (·.status.isComplete)

def hasFatal (r : CampaignReport) : Bool := r.cases.any (·.status.isFatal)

/-- The first case of that name. -/
def case? (r : CampaignReport) (name : String) : Option CaseReport := r.cases.find? (·.name = name)

end CampaignReport

end MockExplorer
