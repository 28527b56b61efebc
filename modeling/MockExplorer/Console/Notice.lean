import MockExplorer.Campaign.Report
import MockExplorer.Console.Style

/-!
# Notices

Short lines on what a command did, one to a case. In quiet mode only failures are shown.
-/

namespace MockExplorer.Console

inductive NoticeKind where
  | success
  | failure
  | warning
  | info
deriving DecidableEq, Repr, Inhabited

namespace NoticeKind

/-- The mark of a notice without colours. -/
def word : NoticeKind → String
  | .success => "PASS"
  | .failure => "FAIL"
  | .warning => "WARN"
  | .info => "INFO"

/-- The mark of a notice with colours. -/
def symbol : NoticeKind → String
  | .success => "✓"
  | .failure => "✗"
  | .warning => "⚠"
  | .info => "ℹ"

def hue : NoticeKind → Hue
  | .success => .green
  | .failure => .red
  | .warning => .yellow
  | .info => .blue

end NoticeKind

structure Notice where
  kind : NoticeKind
  message : String
deriving DecidableEq, Inhabited

/-- How a case ended. -/
def Notice.ofCase (c : CaseReport) : Notice :=
  let line := c.name ++ " (" ++ toString c.executions.toNat ++ " executions)"
  match c.status with
  | .complete => ⟨.success, line⟩
  | .exhausted => ⟨.warning, line ++ ": no inputs left"⟩
  | .budgetSpent => ⟨.warning, line ++ ": budget spent"⟩
  | .cancelled => ⟨.warning, line ++ ": cancelled"⟩
  | .failed error => ⟨.failure, line ++ ": " ++ error⟩
  | .fatal error => ⟨.failure, line ++ ": interception bug: " ++ error⟩

/-- How notices are shown. Symbols stand for words with `color`, in colours where these are `styled`. -/
structure Reporter where
  color : Bool := true
  quiet : Bool := false
  styled : Bool := false
deriving DecidableEq, Repr, Inhabited

namespace Reporter

def shows (r : Reporter) (n : Notice) : Bool := !r.quiet || n.kind = .failure

def line (r : Reporter) (n : Notice) : String :=
  (if r.color then n.kind.hue.paintBold r.styled n.kind.symbol else n.kind.word) ++ " " ++ n.message

/-- The lines of the notices that are shown. -/
def report (r : Reporter) (ns : List Notice) : List String := (ns.filter r.shows).map r.line

end Reporter

/-- One notice for each case. -/
def noticesOf (r : CampaignReport) : List Notice := r.cases.map Notice.ofCase

end MockExplorer.Console
