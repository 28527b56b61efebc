import MockExplorer.Campaign.Report
import MockExplorer.Console.Style
import MockExplorer.Decimal.Shortest
import MockExplorer.Form.Target

/-!
# Listings

A campaign report as text, and a list of targets as text or as a document.
-/

namespace MockExplorer

open Console

/-! ## Campaign reports -/

namespace CaseStatus

/-- The status as a phrase. -/
def text : CaseStatus → String
  | .complete => "complete"
  | .exhausted => "exhausted"
  | .budgetSpent => "budget spent"
  | .cancelled => "cancelled"
  | .failed error => "failed: " ++ error
  | .fatal error => "fatal: " ++ error

end CaseStatus

/-- The assignments in the order of their inputs. -/
def Model.text (m : Model) : String :=
  ", ".intercalate (m.assignments.entries.map fun (var, v) => var.name ++ " = " ++ v.text)

/-- What was reached, green once it is all. -/
def BranchState.text (styled : Bool) : BranchState → String
  | .reachedBoth => Hue.green.paint styled "both"
  | .reachedTrue => Hue.yellow.paint styled "true only"
  | .reachedFalse => Hue.yellow.paint styled "false only"
  | .unreached => Hue.red.paint styled "unreached"

/-- The case, then the inputs of its executions. -/
def CaseReport.lines (c : CaseReport) : List String :=
  ("  " ++ padRight 24 c.name ++ " " ++ padLeft 3 (toString c.executions.toNat) ++ " runs  "
      ++ c.status.text)
    :: c.inputs.mapIdx fun i m => "      #" ++ toString i ++ ": " ++ m.text

def PointReport.line (styled : Bool) (p : PointReport) : String :=
  "  " ++ p.location.text ++ "  " ++ padRight 28 (p.label.getD "-") ++ " "
    ++ padRight 10 (p.state.text styled)
    ++ " (true " ++ toString p.trueHits.toNat ++ ", false " ++ toString p.falseHits.toNat ++ ")"

/-- The totals; the share of outcomes has one decimal place. -/
def CampaignReport.summaryLine (r : CampaignReport) : String :=
  let s := r.branches.summary
  toString s.completePoints.toNat ++ "/" ++ toString s.totalPoints.toNat ++ " branch points complete, "
    ++ Decimal.onePlace s.coveragePercent ++ "% outcomes, " ++ toString r.executions.toNat ++ " executions"

/-- The report as text: the cases, the branches, and the totals. -/
def CampaignReport.listing (r : CampaignReport) (styled : Bool) : String :=
  lines (["Cases"] ++ r.cases.flatMap CaseReport.lines ++ ["", "Branches"]
    ++ r.branches.points.map (PointReport.line styled) ++ ["", r.summaryLine])

/-! ## Targets -/

/-- A target and the name of the case that mocks it. -/
structure NamedTarget where
  caseName : String
  target : MockTarget
deriving DecidableEq, Inhabited

namespace NamedTarget

/-- The mechanism of the target or why it has none, then its methods; a star marks the interceptable
ones. -/
def lines (t : NamedTarget) (config : MockConfig) : List String :=
  let how := match t.target.classify config with
    | .ok i => i.text
    | .error e => "unmockable (" ++ e.text ++ ")"
  (padRight 24 t.caseName ++ " " ++ padRight 28 t.target.name ++ " " ++ how)
    :: t.target.methods.map fun m => "  " ++ (if m.isInterceptable then "*" else " ") ++ " " ++ m.text

def document (t : NamedTarget) (config : MockConfig) : Json :=
  let how := t.target.classify config
  .object [
    ("case", .string t.caseName),
    ("target", JsonForm.write t.target),
    ("interception", JsonForm.write how.toOption),
    ("error", match how with
      | .ok _ => .null
      | .error e => .string e.text)]

/-- The targets as text. -/
def listing (ts : List NamedTarget) (config : MockConfig) : String :=
  Console.lines (ts.flatMap (·.lines config))

/-- The targets as a document with the fields of every object in the order of their names. -/
def jsonListing (ts : List NamedTarget) (config : MockConfig) : String :=
  (Json.array (ts.map (·.document config))).sortKeys.pretty

end NamedTarget

end MockExplorer
