import MockExplorer.Campaign.Case
import MockExplorer.Proofs.Campaign.Search

/-!
# The rounds of a search

A search runs batch after batch. It ends for one of the reasons that it looks for before a batch, or with the
first error that comes back from a batch. The rounds that it is given never run out.
-/

namespace MockExplorer

/-! ## Errors that come back -/

/-- The error of a result that is not a trace. -/
def errorOf? : Except MockError Trace → Option MockError
  | .error e => some e
  | .ok _ => none

theorem errorOf?_eq_none {result : Except MockError Trace} : errorOf? result = none ↔ ∃ t, result = .ok t := by
  cases result with
  | error e => simp [errorOf?]
  | ok t => simp [errorOf?]

theorem errorOf?_eq_some {result : Except MockError Trace} {e : MockError} :
    errorOf? result = some e ↔ result = .error e := by
  cases result with
  | error e' => simp [errorOf?]
  | ok t => simp [errorOf?]

namespace Search

variable {x : Exploration} {c c' : Campaign} {s s' : Search}

theorem absorbAll_failure (x : Exploration) (c : Campaign) (s : Search) (failure : Option MockError)
    (results : List (Except MockError Trace)) :
    (absorbAll x c s failure results).2.2 = failure.or (results.findSome? errorOf?) := by
  induction results generalizing c s failure with
  | nil => simp [absorbAll]
  | cons result results ih =>
      cases result with
      | ok t => exact ih ..
      | error e =>
          rw [absorbAll, ih]
          cases failure <;> rfl

/-! ## What comes back -/

def batchResult (x : Exploration) (c : Campaign) (s : Search) : BatchResult :=
  runBatch x.name x.run x.workers c.nextExecution (s.worklist.take (batchLength x s))

/-- The results of the executions of a search from some point on. -/
def outcomes (x : Exploration) : (rounds : Nat) → Campaign → Search → List (Except MockError Trace)
  | rounds, c, s =>
    match ending? x c s with
    | some _ => []
    | none =>
      match rounds with
      | 0 => []
      | rounds + 1 =>
        (batchResult x c s).results ++
          match nextBatch x c s with
          | (_, _, some _) => []
          | (c, s, none) => outcomes x rounds c s

theorem nextBatch_failure (x : Exploration) (c : Campaign) (s : Search) :
    (nextBatch x c s).2.2 = (batchResult x c s).results.findSome? errorOf? :=
  absorbAll_failure ..

/-! ## Rounds -/

/-- The search goes through the executions, gets the results, and ends. -/
inductive Explores (x : Exploration) : Campaign → Search → List (UInt64 × Candidate) →
    List (Except MockError Trace) → Campaign × Search × CaseStatus → Prop where
  | ended {c : Campaign} {s : Search} {status : CaseStatus} (h : ending? x c s = some status) :
      Explores x c s [] [] (c, s, status)
  | failed {c c' : Campaign} {s s' : Search} {e : MockError} (h : ending? x c s = none)
      (hbatch : nextBatch x c s = (c', s', some e)) :
      Explores x c s (numbered c.nextExecution (s.worklist.take (batchLength x s))) (batchResult x c s).results
        (c', s', .ofError e)
  | next {c c' : Campaign} {s s' : Search} {done : List (UInt64 × Candidate)}
      {results : List (Except MockError Trace)} {out : Campaign × Search × CaseStatus} (h : ending? x c s = none)
      (hbatch : nextBatch x c s = (c', s', none)) (hrest : Explores x c' s' done results out) :
      Explores x c s (numbered c.nextExecution (s.worklist.take (batchLength x s)) ++ done)
        ((batchResult x c s).results ++ results) out

/-- The rounds suffice if there are as many as executions left in the budget. -/
theorem explore_explores {rounds : Nat} (hrounds : x.config.maxExecutions.toNat ≤ rounds + s.executions) :
    Explores x c s (performed x rounds c s) (outcomes x rounds c s) (explore x rounds c s) := by
  induction rounds generalizing c s with
  | zero =>
      cases hending : ending? x c s with
      | some status =>
          rw [performed, outcomes, explore, hending]
          exact .ended hending
      | none =>
          have := batchLength_of_ending? hending
          omega
  | succ rounds ih =>
      cases hending : ending? x c s with
      | some status =>
          rw [performed, outcomes, explore, hending]
          exact .ended hending
      | none =>
          rw [performed, outcomes, explore, hending]
          -- A batch takes at least one execution out of the budget, so one round fewer is left for the rest.
          obtain ⟨hpos, _⟩ := batchLength_of_ending? hending
          rcases hnext : nextBatch x c s with ⟨c₁, s₁, _ | e⟩
          · have hexecutions := nextBatch_executions hnext
            exact .next hending hnext (ih (by omega))
          · simpa using Explores.failed hending hnext

/-- A search has one way to go. -/
theorem Explores.unique {done done' : List (UInt64 × Candidate)} {results results' : List (Except MockError Trace)}
    {out out' : Campaign × Search × CaseStatus} (h : Explores x c s done results out)
    (h' : Explores x c s done' results' out') : done = done' ∧ results = results' ∧ out = out' := by
  induction h generalizing done' results' out' with
  | ended h =>
      cases h' with
      | ended h' => rw [h] at h'; cases h'; exact ⟨rfl, rfl, rfl⟩
      | failed h' _ => rw [h] at h'; cases h'
      | next h' _ _ => rw [h] at h'; cases h'
  | failed h hbatch =>
      cases h' with
      | ended h' => rw [h] at h'; cases h'
      | failed _ hbatch' => rw [hbatch] at hbatch'; cases hbatch'; exact ⟨rfl, rfl, rfl⟩
      | next _ hbatch' _ => rw [hbatch] at hbatch'; cases hbatch'
  | next h hbatch _ ih =>
      cases h' with
      | ended h' => rw [h] at h'; cases h'
      | failed _ hbatch' => rw [hbatch] at hbatch'; cases hbatch'
      | next _ hbatch' hrest' =>
          rw [hbatch] at hbatch'
          cases hbatch'
          obtain ⟨rfl, rfl, rfl⟩ := ih hrest'
          exact ⟨rfl, rfl, rfl⟩

section

variable {done : List (UInt64 × Candidate)} {results : List (Except MockError Trace)} {status : CaseStatus}

/-- A search ends with the first error that comes back, or for the reason that it finds where it ends. -/
theorem Explores.ends (h : Explores x c s done results (c', s', status)) :
    (∃ e, results.findSome? errorOf? = some e ∧ status = .ofError e) ∨
      results.findSome? errorOf? = none ∧ ending? x c' s' = some status := by
  generalize hout : (c', s', status) = out at h
  induction h with
  | ended h =>
      cases hout
      exact .inr ⟨rfl, h⟩
  | @failed c c' s s' e h hbatch =>
      cases hout
      have hfirst := nextBatch_failure x c s
      rw [hbatch] at hfirst
      exact .inl ⟨e, hfirst.symm, rfl⟩
  | @next c c' s s' done results out h hbatch _ ih =>
      -- The search goes on, so nothing failed in this batch.
      have hfirst := nextBatch_failure x c s
      rw [hbatch] at hfirst
      rw [List.findSome?_append, ← hfirst, Option.none_or]
      exact ih hout

theorem Explores.length_results (h : Explores x c s done results (c', s', status)) :
    results.length = done.length := by
  generalize (c', s', status) = out at h
  induction h with
  | ended h => rfl
  | failed h hbatch => rw [batchResult, length_runBatch, length_numbered]
  | next h hbatch _ ih =>
      rw [List.length_append, List.length_append, ih, batchResult, length_runBatch, length_numbered]

theorem Explores.executions (h : Explores x c s done results (c', s', status))
    (hbudget : s.executions ≤ x.config.maxExecutions.toNat) :
    s'.executions = s.executions + done.length ∧ s'.executions ≤ x.config.maxExecutions.toNat := by
  generalize hout : (c', s', status) = out at h
  induction h with
  | ended h => cases hout; exact ⟨rfl, hbudget⟩
  | @failed c c' s s' e h hbatch =>
      cases hout
      have hcount := nextBatch_executions hbatch
      have hlength := length_take_batchLength x s
      have hroom := (batchLength_of_ending? h).2
      rw [length_numbered, hlength]
      omega
  | @next c c' s s' done results out h hbatch _ ih =>
      have hcount := nextBatch_executions hbatch
      have hlength := length_take_batchLength x s
      have hroom := (batchLength_of_ending? h).2
      have hrest := ih (by omega) hout
      rw [List.length_append, length_numbered, hlength]
      omega

/-- The rounds suffice: a search in which no execution fails stops for a reason, within its budget. -/
theorem explore_ended {rounds : Nat} (hrounds : x.config.maxExecutions.toNat ≤ rounds + s.executions)
    (hbudget : s.executions ≤ x.config.maxExecutions.toNat)
    (hout : explore x rounds c s = (c', s', status)) (hstatus : status.isError = false) :
    ending? x c' s' = some status ∧ s'.executions ≤ x.config.maxExecutions.toNat := by
  have h := explore_explores (x := x) (c := c) hrounds
  rw [hout] at h
  refine ⟨?_, (h.executions hbudget).2⟩
  rcases h.ends with ⟨e, _, rfl⟩ | ⟨_, hending⟩
  · rw [CaseStatus.isError_ofError] at hstatus
    cases hstatus
  · exact hending

end

end Search

/-! ## Test cases -/

namespace CampaignContext

/-- The exploration of a test case whose candidates are run by `run`. Besides the body of the test case, this
can stand for anyone who cancels the campaign while an execution runs. -/
def explorationBy (x : CampaignContext) (run : Runner) (t : TestCase) : Exploration := { x.exploration t with run }

def opening (c : Campaign) (t : TestCase) : Campaign × Search :=
  ({ c with oracle := c.oracle.labelAll (t.locations ++ t.tagSites) },
    ({} : Search).track (t.locations.map (·.1)))

def exploreBy (x : CampaignContext) (run : Runner) (rounds : Nat) (c : Campaign) (t : TestCase) :
    Campaign × Search × CaseStatus :=
  Search.explore (x.explorationBy run t) rounds (opening c t).1 (opening c t).2

/-- Explores a test case whose candidates are run by `run`. -/
def runBy (x : CampaignContext) (run : Runner) (c : Campaign) (t : TestCase) : CaseReport × Campaign :=
  Search.run (x.explorationBy run t) (opening c t).1 (t.locations.map (·.1))

/-- The executions of that, with their numbers. -/
def performedBy (x : CampaignContext) (run : Runner) (c : Campaign) (t : TestCase) : List (UInt64 × Candidate) :=
  Search.performed (x.explorationBy run t) x.config.campaign.maxExecutions.toNat (opening c t).1 (opening c t).2

/-- What came back from these executions, in order. -/
def outcomesBy (x : CampaignContext) (run : Runner) (c : Campaign) (t : TestCase) :
    List (Except MockError Trace) :=
  Search.outcomes (x.explorationBy run t) x.config.campaign.maxExecutions.toNat (opening c t).1 (opening c t).2

theorem runBy_runner (x : CampaignContext) (c : Campaign) (t : TestCase) :
    x.runBy (t.runner x.config.mock) c t = x.run c t := rfl

theorem exploreBy_explores (x : CampaignContext) (run : Runner) {rounds : Nat}
    (hrounds : x.config.campaign.maxExecutions.toNat ≤ rounds) (c : Campaign) (t : TestCase) :
    ∃ done results, Search.Explores (x.explorationBy run t) (opening c t).1 (opening c t).2 done results
      (x.exploreBy run rounds c t) :=
  ⟨_, _, Search.explore_explores (Nat.le_add_right_of_le hrounds)⟩

/-- The report of a test case is that of its search, once it has gone through all executions. -/
theorem runBy_explores (x : CampaignContext) (run : Runner) (c : Campaign) (t : TestCase) :
    ∃ c' s' status, Search.Explores (x.explorationBy run t) (opening c t).1 (opening c t).2
        (x.performedBy run c t) (x.outcomesBy run c t) (c', s', status) ∧
      x.runBy run c t = (Search.report c' s' t.name status, c') :=
  ⟨_, _, _, Search.explore_explores (Nat.le_add_right ..), rfl⟩

end CampaignContext

end MockExplorer
