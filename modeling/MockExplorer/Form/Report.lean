import MockExplorer.Campaign.Report
import MockExplorer.Form.Symbolic

/-!
# JSON forms of reports
-/

namespace MockExplorer

open JsonForm

def Polarity.key : Polarity → String
  | .onTrue => "true"
  | .onFalse => "false"

instance : JsonForm Polarity where
  write p := .string p.key
  read? := readNamed? [("true", .onTrue), ("false", .onFalse)]

def BranchState.key : BranchState → String
  | .unreached => "unreached"
  | .reachedTrue => "reached_true"
  | .reachedFalse => "reached_false"
  | .reachedBoth => "reached_both"

instance : JsonForm BranchState where
  write s := .string s.key
  read? := readNamed? [("unreached", .unreached), ("reached_true", .reachedTrue),
    ("reached_false", .reachedFalse), ("reached_both", .reachedBoth)]

instance : JsonForm PointReport where
  write p :=
    .object [("location", write p.location), ("label", write p.label), ("state", write p.state),
      ("true_hits", write p.trueHits), ("false_hits", write p.falseHits)]
  read? j :=
    match j.fields? ["location", "label", "state", "true_hits", "false_hits"] with
    | some [location, label, state, trueHits, falseHits] => do
      return ⟨← required? location, ← optional? none label, ← required? state, ← required? trueHits,
        ← required? falseHits⟩
    | _ => none

instance : JsonForm TagReport where
  write t :=
    .object [("location", write t.location), ("label", write t.label), ("true_tags", write t.trueTags),
      ("false_tags", write t.falseTags)]
  read? j :=
    match j.fields? ["location", "label", "true_tags", "false_tags"] with
    | some [location, label, trueTags, falseTags] => do
      return ⟨← required? location, ← optional? none label, ← required? trueTags, ← required? falseTags⟩
    | _ => none

instance : JsonForm BranchSummary where
  write s :=
    .object [("total_points", write s.totalPoints), ("complete_points", write s.completePoints),
      ("reached_outcomes", write s.reachedOutcomes), ("coverage_percent", write s.coveragePercent)]
  read? j :=
    match j.fields? ["total_points", "complete_points", "reached_outcomes", "coverage_percent"] with
    | some [total, complete, reached, percent] => do
      return ⟨← required? total, ← required? complete, ← required? reached, ← required? percent⟩
    | _ => none

instance : JsonForm BranchReport where
  write r := .object [("points", write r.points), ("tags", write r.tags), ("summary", write r.summary)]
  read? j :=
    match j.fields? ["points", "tags", "summary"] with
    | some [points, tags, summary] => do
      return ⟨← required? points, ← required? tags, ← required? summary⟩
    | _ => none

/-- A status without data. -/
def CaseStatus.plain? : String → Option CaseStatus
  | "complete" => some .complete
  | "exhausted" => some .exhausted
  | "budget_spent" => some .budgetSpent
  | "cancelled" => some .cancelled
  | _ => none

/-- The status of a name with its error, if it has one. -/
def CaseStatus.ofParts? (name : String) (error : Option Json) : Option CaseStatus :=
  match name with
  | "failed" => (required? error).map .failed
  | "fatal" => (required? error).map .fatal
  | _ => CaseStatus.plain? name

/-- The tag names the status; as an array, the tag comes first. -/
instance : JsonForm CaseStatus where
  write
    | .complete => .object [("status", .string "complete")]
    | .exhausted => .object [("status", .string "exhausted")]
    | .budgetSpent => .object [("status", .string "budget_spent")]
    | .failed error => .object [("status", .string "failed"), ("error", .string error)]
    | .fatal error => .object [("status", .string "fatal"), ("error", .string error)]
    | .cancelled => .object [("status", .string "cancelled")]
  read?
    | .object fields =>
      if (Json.object fields).isWhole then
        match pick? "status" fields with
        | some (some (.string name)) =>
          match CaseStatus.plain? name with
          | some status => some status
          | none => (pick? "error" fields).bind (CaseStatus.ofParts? name)
        | _ => none
      else none
    | .array [.string name] => CaseStatus.plain? name
    | .array [.string "failed", error] => (read? error).map .failed
    | .array [.string "fatal", error] => (read? error).map .fatal
    | _ => none

instance : JsonForm CaseReport where
  write r :=
    .object [("name", write r.name), ("status", write r.status), ("executions", write r.executions),
      ("locations", write r.locations), ("inputs", write r.inputs)]
  read? j :=
    match j.fields? ["name", "status", "executions", "locations", "inputs"] with
    | some [name, status, executions, locations, inputs] => do
      return ⟨← required? name, ← required? status, ← required? executions, ← required? locations,
        ← required? inputs⟩
    | _ => none

instance : JsonForm CampaignReport where
  write r :=
    .object [("cases", write r.cases), ("executions", write r.executions),
      ("branches", write r.branches)]
  read? j :=
    match j.fields? ["cases", "executions", "branches"] with
    | some [cases, executions, branches] => do
      return ⟨← required? cases, ← required? executions, ← required? branches⟩
    | _ => none

end MockExplorer
