import MockExplorer.Proofs.Campaign.Accounting
import MockExplorer.Proofs.Campaign.Scheduling
import MockExplorer.Proofs.Coverage.Oracle
import MockExplorer.Proofs.Execution.Footprint

/-!
# One search in two campaigns

Where numbers of executions do not matter and the solver answers each query for itself, a search sees of its
campaign the states of the locations that it tracks and the cancel flag. In two campaigns that look alike to it, it
goes the same way and comes to the same report.
-/

namespace MockExplorer

/-! ## Batches -/

section

variable {name : String} {run : Runner}

theorem mem_runUntilCrash {id : UInt64} {cs : List Candidate} {r : Run} (h : r ∈ runUntilCrash run id cs) :
    ∃ id d, r = run id d := by
  induction cs generalizing id with
  | nil => cases h
  | cons d cs ih =>
      simp only [runUntilCrash] at h
      split at h
      · exact ⟨id, d, List.mem_singleton.1 h⟩
      · rcases List.mem_cons.1 h with h | h
        · exact ⟨id, d, h⟩
        · exact ih h

/-- What a batch reports was reported by a run, and it asks to stop only if a run does. -/
theorem runBatch_origin {workers : Nat} {id : UInt64} {batch : List Candidate} :
    (∀ ob ∈ (runBatch name run workers id batch).observations, ∃ id d, ob ∈ (run id d).observations) ∧
      ((runBatch name run workers id batch).cancels = true → ∃ id d, (run id d).cancels = true) := by
  rw [runBatch_eq_runChunks]
  generalize chunksOf (chunkSize workers batch.length) batch.length batch = chunks
  induction chunks generalizing id with
  | nil => exact ⟨fun ob hob => by (cases hob), fun h => by (cases h)⟩
  | cons cs chunks ih =>
      refine ⟨fun ob hob => ?_, fun h => ?_⟩
      · rcases List.mem_append.1 hob with hob | hob
        · obtain ⟨r, hr, hob⟩ := List.mem_flatMap.1 hob
          obtain ⟨id, d, rfl⟩ := mem_runUntilCrash hr
          exact ⟨id, d, hob⟩
        · exact ih.1 ob hob
      · rcases Bool.or_eq_true_iff.1 h with h | h
        · obtain ⟨r, hr, h⟩ := List.any_eq_true.1 h
          obtain ⟨id, d, rfl⟩ := mem_runUntilCrash hr
          exact ⟨id, d, h⟩
        · exact ih.2 h

/-! ## Batches under other numbers -/

/-- The number of an execution shows in its trace and nowhere else. -/
def Numberless (run : Runner) : Prop := ∀ id id' d, (run id d).unnumbered = (run id' d).unnumbered

def Run.crashes (r : Run) : Bool := r.settled?.isNone

theorem Run.unnumbered_settled? (r : Run) :
    r.unnumbered.settled? = r.settled?.map (Except.map Trace.unnumbered) := by
  obtain ⟨(_ | _) | t, _, _⟩ := r <;> rfl

theorem Run.crashes_eq {r r' : Run} (h : r.unnumbered = r'.unnumbered) : r.crashes = r'.crashes := by
  have hsettled := congrArg (fun r => r.settled?.isNone) h
  simpa [Run.unnumbered_settled?, Run.crashes] using hsettled

theorem runUntilCrash_cons_eq (run : Runner) (id : UInt64) (d : Candidate) (cs : List Candidate) :
    runUntilCrash run id (d :: cs) =
      run id d :: if (run id d).crashes then [] else runUntilCrash run (id + 1) cs := by
  rcases hresult : (run id d).result with (_ | _) | t <;>
    simp [runUntilCrash, Run.crashes, Run.settled?, hresult]

def BatchResult.unnumbered (b : BatchResult) : BatchResult :=
  { b with results := b.results.map (Except.map Trace.unnumbered) }

theorem BatchResult.unnumbered_append (a b : BatchResult) : (a ++ b).unnumbered = a.unnumbered ++ b.unnumbered := by
  have happend : ∀ a b : BatchResult, a ++ b = ⟨a.results ++ b.results, a.observations ++ b.observations,
    a.cancels || b.cancels⟩ := fun _ _ => rfl
  simp [BatchResult.unnumbered, happend]

variable (hrun : Numberless run)
include hrun

theorem runUntilCrash_unnumbered (id id' : UInt64) (cs : List Candidate) :
    (runUntilCrash run id cs).map Run.unnumbered = (runUntilCrash run id' cs).map Run.unnumbered := by
  induction cs generalizing id id' with
  | nil => rfl
  | cons d cs ih =>
      rw [runUntilCrash_cons_eq, runUntilCrash_cons_eq, List.map_cons, List.map_cons, hrun id id' d,
        Run.crashes_eq (hrun id id' d)]
      split
      · rfl
      · rw [ih (id + 1) (id' + 1)]

omit hrun in
theorem mapM_settled?_unnumbered (runs : List Run) :
    (runs.map Run.unnumbered).mapM Run.settled? =
      (runs.mapM Run.settled?).map (List.map (Except.map Trace.unnumbered)) := by
  induction runs with
  | nil => rfl
  | cons r runs ih =>
      rw [List.map_cons, List.mapM_cons, List.mapM_cons, ih, Run.unnumbered_settled?]
      cases r.settled? with
      | none => rfl
      | some result => cases runs.mapM Run.settled? <;> rfl

theorem runChunk_unnumbered (id id' : UInt64) (cs : List Candidate) :
    (runChunk name run id cs).unnumbered = (runChunk name run id' cs).unnumbered := by
  -- What a chunk comes to without numbers is read off its runs without numbers.
  have hread : ∀ id, (runChunk name run id cs).unnumbered =
      let runs := (runUntilCrash run id cs).map Run.unnumbered
      { results := (runs.mapM Run.settled?).getD (cs.map fun _ => .error (.crashed name))
        observations := runs.flatMap (·.observations)
        cancels := runs.any (·.cancels) } := by
    intro id
    simp only [mapM_settled?_unnumbered, List.flatMap_map, List.any_map]
    rcases hruns : (runUntilCrash run id cs).mapM Run.settled? with _ | results <;>
      simp [runChunk, BatchResult.unnumbered, hruns, Except.map, Run.unnumbered, Function.comp_def]
  rw [hread, hread, runUntilCrash_unnumbered hrun id id']

theorem runBatch_unnumbered {workers : Nat} (id id' : UInt64) (batch : List Candidate) :
    (runBatch name run workers id batch).unnumbered = (runBatch name run workers id' batch).unnumbered := by
  rw [runBatch_eq_runChunks, runBatch_eq_runChunks]
  generalize chunksOf (chunkSize workers batch.length) batch.length batch = chunks
  induction chunks generalizing id id' with
  | nil => rfl
  | cons cs chunks ih =>
      rw [runChunks, runChunks, BatchResult.unnumbered_append, BatchResult.unnumbered_append,
        runChunk_unnumbered hrun id id', ih]

end

/-! ## One search in two campaigns -/

namespace Search

variable {x : Exploration} {c d : Campaign} {s : Search} {L : LocationId → Prop}

theorem absorbAll_unnumbered (x : Exploration) (c : Campaign) (s : Search) (failure : Option MockError)
    (results : List (Except MockError Trace)) :
    absorbAll x c s failure (results.map (Except.map Trace.unnumbered)) = absorbAll x c s failure results := by
  induction results generalizing c s failure with
  | nil => rfl
  | cons result results ih =>
      cases result with
      | error e => exact ih ..
      | ok t => exact ih ..

section

variable (hpure : x.solver.IsPure)
include hpure

theorem askAll_same (queries : List (List Predicate)) {p q : Campaign × Search} (h : p.2 = q.2) :
    (askAll x queries p).2 = (askAll x queries q).2 := by
  induction queries generalizing p q with
  | nil => exact h
  | cons query queries ih =>
      refine ih ?_
      dsimp only
      rw [askFlipped_eq, askFlipped_eq, hpure p.1.asked, hpure q.1.asked, h]
      split <;> rfl

theorem absorbAll_same (c d : Campaign) (s : Search) (failure : Option MockError)
    (results : List (Except MockError Trace)) :
    (absorbAll x c s failure results).2 = (absorbAll x d s failure results).2 := by
  induction results generalizing c d s failure with
  | nil => rfl
  | cons result results ih =>
      cases result with
      | error e => exact ih ..
      | ok t =>
          have hone : (absorb x c s t).2 = (absorb x d s t).2 := askAll_same hpure _ rfl
          have hrest := ih (absorb x c s t).1 (absorb x d s t).1 (absorb x c s t).2 failure
          rw [hone] at hrest
          exact (congrArg (fun s' => (absorbAll x (absorb x c s t).1 s' failure results).2) hone).trans hrest

end

/-- A search among the locations in `L` sees the same of both campaigns. -/
structure Alike (L : LocationId → Prop) (c d : Campaign) : Prop where
  states : ∀ l, L l → c.oracle.state l = d.oracle.state l
  cancelled : c.cancelled = d.cancelled

def Confined (L : LocationId → Prop) (s : Search) : Prop := ∀ l ∈ s.tracked.keys, L l

theorem Confined.absorbAll (hs : s.Confined L) {failure : Option MockError}
    {results : List (Except MockError Trace)} (hresults : ∀ t, .ok t ∈ results → ∀ l ∈ t.locations, L l) :
    (absorbAll x c s failure results).2.1.Confined L := by
  refine absorbAll_keeps (fun c s t ht hs l hl => ?_) hs
  rw [absorb_tracked, mem_track] at hl
  rcases hl with hl | hl
  · exact hs l hl
  · exact hresults t ht l hl

theorem Alike.covered_eq (h : Alike L c d) (hs : s.Confined L) : covered c s = covered d s := by
  rw [Bool.eq_iff_iff, covered_iff, covered_iff]
  exact ⟨fun hc l hl => (h.states l (hs l hl)).symm.trans (hc l hl),
    fun hd l hl => (h.states l (hs l hl)).trans (hd l hl)⟩

theorem Alike.ending?_eq (h : Alike L c d) (hs : s.Confined L) : ending? x c s = ending? x d s := by
  unfold ending?
  rw [h.cancelled, h.covered_eq hs]

def Exploration.Within (x : Exploration) (L : LocationId → Prop) : Prop :=
  ∀ id e t, (x.run id e).result = .ok t → ∀ l ∈ t.locations, L l

section

variable (hpure : x.solver.IsPure) (hrun : Numberless x.run) (hL : Exploration.Within x L)

include hrun in
theorem batchResult_same (c d : Campaign) (s : Search) :
    (batchResult x c s).results.map (Except.map Trace.unnumbered) =
        (batchResult x d s).results.map (Except.map Trace.unnumbered) ∧
      (batchResult x c s).observations = (batchResult x d s).observations ∧
      (batchResult x c s).cancels = (batchResult x d s).cancels := by
  have hsame : (batchResult x c s).unnumbered = (batchResult x d s).unnumbered := runBatch_unnumbered hrun ..
  simpa [BatchResult.unnumbered] using hsame

include hpure hrun in
theorem nextBatch_same (c d : Campaign) (s : Search) : (nextBatch x c s).2 = (nextBatch x d s).2 := by
  obtain ⟨hresults, _⟩ := batchResult_same hrun c d s
  unfold batchResult at hresults
  unfold nextBatch
  rw [← absorbAll_unnumbered, hresults, absorbAll_unnumbered]
  exact absorbAll_same hpure ..

include hrun in
theorem Alike.nextBatch (h : Alike L c d) : Alike L (nextBatch x c s).1 (nextBatch x d s).1 := by
  obtain ⟨_, hobservations, hcancels⟩ := batchResult_same hrun c d s
  obtain ⟨_, hc⟩ := nextBatch_campaign x c s
  obtain ⟨_, hd⟩ := nextBatch_campaign x d s
  rw [hc, hd]
  refine ⟨fun l hl => ?_, ?_⟩
  · rw [Oracle.state_observeAll, Oracle.state_observeAll, h.states l hl, hobservations]
  · rw [h.cancelled, hcancels]

include hL in
theorem Confined.nextBatch (hs : s.Confined L) : (nextBatch x c s).2.1.Confined L := by
  refine Confined.absorbAll (s := { s with
      worklist := s.worklist.drop (batchLength x s)
      executions := s.executions + (s.worklist.take (batchLength x s)).length }) hs fun t ht => ?_
  obtain ⟨e, _, hresult⟩ := trace_of_reports (runBatch_reports ..) ht
  exact hL e.1 e.2 t hresult

include hpure hrun hL

/-- A search goes the same way in campaigns that look alike to it, and they look alike to it in the end. -/
theorem explore_alike (rounds : Nat) (h : Alike L c d) (hs : s.Confined L) :
    (explore x rounds c s).2 = (explore x rounds d s).2 ∧
      Alike L (explore x rounds c s).1 (explore x rounds d s).1 ∧ (explore x rounds c s).2.1.Confined L := by
  induction rounds generalizing c d s with
  | zero =>
      unfold explore
      rw [h.ending?_eq hs]
      cases ending? x d s <;> exact ⟨rfl, h, hs⟩
  | succ rounds ih =>
      unfold explore
      rw [h.ending?_eq hs]
      cases ending? x d s with
      | some status => exact ⟨rfl, h, hs⟩
      | none =>
          have hsame := nextBatch_same hpure hrun c d s
          have halike := h.nextBatch (s := s) hrun
          have hconfined := Confined.nextBatch (c := c) hL hs
          rcases hc : nextBatch x c s with ⟨c₁, s₁, failure⟩
          rcases hd : nextBatch x d s with ⟨d₁, s₂, failure'⟩
          rw [hc, hd] at hsame halike
          rw [hc] at hconfined
          cases hsame
          cases failure with
          | some e => exact ⟨rfl, halike, hconfined⟩
          | none => exact ih halike hconfined

theorem run_alike (h : Alike L c d) {declared : List LocationId} (hdeclared : ∀ l ∈ declared, L l) :
    (Search.run x c declared).1 = (Search.run x d declared).1 := by
  have hstart : Confined L (({} : Search).track declared) := by
    intro l hl
    rw [mem_track] at hl
    have hnone : (({} : Search).tracked : SortedMap LocationId Unit).keys = [] := rfl
    exact hdeclared l (hl.resolve_left (by rw [hnone]; exact List.not_mem_nil))
  obtain ⟨hsame, halike, hconfined⟩ := explore_alike hpure hrun hL x.config.maxExecutions.toNat h hstart
  unfold Search.run
  generalize explore x x.config.maxExecutions.toNat c (({} : Search).track declared) = out at hsame halike hconfined ⊢
  generalize explore x x.config.maxExecutions.toNat d (({} : Search).track declared) = out' at hsame halike ⊢
  obtain ⟨c', s', status⟩ := out
  obtain ⟨d', s'', status'⟩ := out'
  cases hsame
  have hcovered := halike.covered_eq hconfined
  have hsettle : settle c' s' status = settle d' s' status := by
    cases status <;> simp only [settle, hcovered]
  simp only [report, hsettle]

end

end Search

end MockExplorer
