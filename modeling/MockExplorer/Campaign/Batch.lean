import MockExplorer.Execution.Run

/-!
# Batches

A batch of candidates is cut into chunks, one for each worker. A worker runs its chunk in order. A crash
takes all results of its chunk with it, but what the chunk had reported until then stays.
-/

namespace MockExplorer

/-- A model to run under, and the predicates that its inputs have to meet. -/
structure Candidate where
  model : Model := {}
  assumptions : List Predicate := []
deriving DecidableEq, Inhabited

/-- Runs a candidate as the execution of a number. -/
abbrev Runner := UInt64 → Candidate → Run

/-- The results of some candidates in order, what they reported, and whether one asked to stop. -/
structure BatchResult where
  results : List (Except MockError Trace) := []
  observations : List Observation := []
  cancels : Bool := false

def BatchResult.append (a b : BatchResult) : BatchResult :=
  ⟨a.results ++ b.results, a.observations ++ b.observations, a.cancels || b.cancels⟩

instance : Append BatchResult := ⟨BatchResult.append⟩

/-- The runs of a worker, up to and with the first crash. -/
def runUntilCrash (run : Runner) : UInt64 → List Candidate → List Run
  | _, [] => []
  | id, c :: rest =>
    let r := run id c
    match r.result with
    | .error .crashed => [r]
    | _ => r :: runUntilCrash run (id + 1) rest

/-- The result of a run, if it did not crash. -/
def Run.settled? (r : Run) : Option (Except MockError Trace) :=
  match r.result with
  | .ok t => some (.ok t)
  | .error (.raised e) => some (.error e)
  | .error .crashed => none

/-- The chunk of one worker of the case called `name`. -/
def runChunk (name : String) (run : Runner) (id : UInt64) (cs : List Candidate) : BatchResult :=
  let runs := runUntilCrash run id cs
  { results := (runs.mapM Run.settled?).getD (cs.map fun _ => .error (.crashed name))
    observations := runs.flatMap (·.observations)
    cancels := runs.any (·.cancels) }

/-- The first `n` items, the next `n` items, and so on, in at most `fuel` pieces. -/
def chunksOf {α : Type} (n : Nat) : (fuel : Nat) → List α → List (List α)
  | 0, _ => []
  | _, [] => []
  | fuel + 1, xs => xs.take n :: chunksOf n fuel (xs.drop n)

/-- The size of a chunk when `workers` workers share `n` candidates. -/
def chunkSize (workers n : Nat) : Nat :=
  let w := max 1 (min workers (max n 1))
  max ((n + w - 1) / w) 1

/-- Runs a batch on a number of workers. The executions are numbered from `id` on, and those of the `k`-th
chunk from `k` times the size of a chunk behind it. -/
def runBatch (name : String) (run : Runner) (workers : Nat) (id : UInt64) (batch : List Candidate) :
    BatchResult :=
  let size := chunkSize workers batch.length
  (chunksOf size batch.length batch).zipIdx.foldr
    (fun chunk later => runChunk name run (id + .ofNat (chunk.2 * size)) chunk.1 ++ later) {}

end MockExplorer
