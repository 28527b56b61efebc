import MockExplorer.Campaign.Batch
import MockExplorer.Campaign.Report
import MockExplorer.Settings
import MockExplorer.Solver.Basic

/-!
# Generational search

A search runs the candidates of its worklist in batches. Every clause of every path that comes back is
flipped once; a model of the sibling path that was not seen before becomes a new candidate. The search
ends when it is cancelled, covered, out of budget or out of candidates, or when an execution fails.
-/

namespace MockExplorer

/-- What outlives a test case: the oracle, the next execution number, the cancel flag, and the queries
that the solver was asked, latest first. -/
structure Campaign where
  oracle : Oracle := {}
  nextExecution : UInt64 := 0
  cancelled : Bool := false
  asked : List (List Predicate) := []

/-- What stays fixed while a test case is explored. -/
structure Exploration where
  name : String
  run : Runner
  config : CampaignConfig
  /-- The number of workers that share a batch. -/
  workers : Nat
  solver : Solver

/-- The progress of one test case. -/
structure Search where
  worklist : List Candidate := [{}]
  seen : List Model := [{}]
  queried : List (List Predicate) := []
  tracked : SortedMap LocationId Unit := ∅
  executions : Nat := 0
  /-- The inputs of the successful executions, in order. -/
  inputs : List Model := []

namespace Search

/-- Counts locations among the tracked ones. -/
def track (s : Search) (ls : List LocationId) : Search :=
  { s with tracked := ls.foldl (fun t l => t.insert l ()) s.tracked }

/-- Asks for the sibling path of a clause, unless it was asked for before. -/
def askFlipped (x : Exploration) (c : Campaign) (s : Search) (query : List Predicate) : Campaign × Search :=
  if query ∈ s.queried then (c, s)
  else
    let a := x.solver.answer c.asked query
    let c := { c with asked := query :: c.asked }
    let s := { s with queried := query :: s.queried }
    match a with
    | .sat m =>
      if m ∈ s.seen then (c, s)
      else (c, { s with seen := m :: s.seen, worklist := s.worklist ++ [⟨m, query⟩] })
    | _ => (c, s)

/-- Queues a candidate for every sibling path of a trace that was not tried before. -/
def expand (x : Exploration) (c : Campaign) (s : Search) (t : Trace) : Campaign × Search :=
  ((List.range t.path.length).filterMap t.path.flippedAt?).foldl
    (fun (c, s) query => askFlipped x c s query) (c, { s with seen := t.model :: s.seen })

/-- Takes in a successful execution. -/
def absorb (x : Exploration) (c : Campaign) (s : Search) (t : Trace) : Campaign × Search :=
  let s := s.track t.locations
  expand x c { s with inputs := s.inputs ++ [t.model] } t

/-- Takes in the results of a batch in order, keeping the first error. -/
def absorbAll (x : Exploration) (c : Campaign) (s : Search) (failure : Option MockError) :
    List (Except MockError Trace) → Campaign × Search × Option MockError
  | [] => (c, s, failure)
  | .ok t :: rest => let (c, s) := absorb x c s t; absorbAll x c s failure rest
  | .error e :: rest => absorbAll x c s (failure <|> some e) rest

/-- Whether every tracked branch has reached both outcomes. -/
def covered (c : Campaign) (s : Search) : Bool := c.oracle.allComplete s.tracked.keys

/-- Why the search stops before its next batch, if it does. -/
def ending? (x : Exploration) (c : Campaign) (s : Search) : Option CaseStatus :=
  if c.cancelled then some .cancelled
  else if x.config.stopWhenComplete && 0 < s.executions && covered c s then some .complete
  else if x.config.maxExecutions.toNat ≤ s.executions then some .budgetSpent
  else if s.worklist.isEmpty then some .exhausted
  else none

/-- The number of candidates in the next batch. -/
def batchLength (x : Exploration) (s : Search) : Nat :=
  min (min (max x.config.batchSize.toNat 1) (x.config.maxExecutions.toNat - s.executions))
    s.worklist.length

/-- Runs the next batch and takes in its results. -/
def nextBatch (x : Exploration) (c : Campaign) (s : Search) : Campaign × Search × Option MockError :=
  let n := batchLength x s
  let batch := s.worklist.take n
  let b := runBatch x.name x.run x.workers c.nextExecution batch
  let c := { c with
    oracle := c.oracle.observeAll b.observations
    nextExecution := c.nextExecution + .ofNat batch.length
    cancelled := c.cancelled || b.cancels }
  let s := { s with worklist := s.worklist.drop n, executions := s.executions + batch.length }
  absorbAll x c s none b.results

/-- Runs batches until the search ends. Every batch takes at least one execution out of the budget, so
as many rounds as there are executions in the budget are enough. -/
def explore (x : Exploration) : (rounds : Nat) → Campaign → Search → Campaign × Search × CaseStatus
  | rounds, c, s =>
    match ending? x c s with
    | some status => (c, s, status)
    | none =>
      match rounds with
      | 0 => (c, s, .budgetSpent)
      | rounds + 1 =>
        match nextBatch x c s with
        | (c, s, some e) => (c, s, .ofError e)
        | (c, s, none) => explore x rounds c s

/-- A search that ran out of candidates or budget is complete all the same if everything is covered. -/
def settle (c : Campaign) (s : Search) : CaseStatus → CaseStatus
  | .exhausted => if covered c s then .complete else .exhausted
  | .budgetSpent => if covered c s then .complete else .budgetSpent
  | status => status

def report (c : Campaign) (s : Search) (name : String) (status : CaseStatus) : CaseReport :=
  { name
    status := settle c s status
    executions := .ofNat s.executions
    locations := s.tracked.keys
    inputs := s.inputs }

/-- Explores from the start, tracking the declared locations. -/
def run (x : Exploration) (c : Campaign) (declared : List LocationId) : CaseReport × Campaign :=
  match explore x x.config.maxExecutions.toNat c (({} : Search).track declared) with
  | (c, s, status) => (report c s x.name status, c)

end Search

end MockExplorer
