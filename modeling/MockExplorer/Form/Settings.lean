import MockExplorer.Form.Basic
import MockExplorer.Settings

/-!
# JSON forms of settings

Every field may be left out and then has its default.
-/

namespace MockExplorer

open JsonForm

def MockingMode.key : MockingMode → String
  | .basic => "basic"
  | .full => "full"

def MockingMode.names : List (String × MockingMode) := [("basic", .basic), ("full", .full)]

instance : JsonForm MockingMode where
  write m := .string m.key
  read? := readNamed? MockingMode.names

instance : JsonForm MockConfig where
  write c :=
    .object [("enabled", write c.enabled), ("mode", write c.mode),
      ("call_site_rewrite", write c.callSiteRedirect)]
  read? j :=
    match j.fields? ["enabled", "mode", "call_site_rewrite"] with
    | some [enabled, mode, callSiteRedirect] => do
      return ⟨← optional? true enabled, ← optional? .full mode, ← optional? true callSiteRedirect⟩
    | _ => none

instance : JsonForm CampaignConfig where
  write c :=
    .object [("max_executions", write c.maxExecutions), ("workers", write c.workers),
      ("batch_size", write c.batchSize), ("stop_when_complete", write c.stopWhenComplete)]
  read? j :=
    match j.fields? ["max_executions", "workers", "batch_size", "stop_when_complete"] with
    | some [maxExecutions, workers, batchSize, stopWhenComplete] => do
      return ⟨← optional? 64 maxExecutions, ← optional? 1 workers, ← optional? 4 batchSize,
        ← optional? true stopWhenComplete⟩
    | _ => none

instance : JsonForm Config where
  write c := .object [("mock", write c.mock), ("campaign", write c.campaign)]
  read? j :=
    match j.fields? ["mock", "campaign"] with
    | some [mock, campaign] => do return ⟨← optional? {} mock, ← optional? {} campaign⟩
    | _ => none

end MockExplorer
