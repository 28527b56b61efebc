import MockExplorer.Campaign.Batch
import Mathlib.Data.List.Forall2

/-!
# Results of a batch

However a batch is cut into chunks, if all of its results are traces then they are the traces of its
candidates, run under consecutive numbers.
-/

namespace MockExplorer

/-- The candidates with the numbers of their executions. -/
def numbered : UInt64 → List Candidate → List (UInt64 × Candidate)
  | _, [] => []
  | id, c :: rest => (id, c) :: numbered (id + 1) rest

theorem number_add (id : UInt64) (j k : Nat) : id + .ofNat j + .ofNat k = id + .ofNat (j + k) := by
  rw [UInt64.ofNat_add, UInt64.add_assoc]

theorem number_succ (id : UInt64) (k : Nat) : id + 1 + .ofNat k = id + .ofNat (k + 1) := by
  rw [Nat.add_comm]
  exact number_add id 1 k

theorem numbered_append (id : UInt64) (cs ds : List Candidate) :
    numbered id (cs ++ ds) = numbered id cs ++ numbered (id + .ofNat cs.length) ds := by
  induction cs generalizing id with
  | nil => simp [numbered]
  | cons c cs ih => simp [numbered, ih, number_succ]

theorem getElem?_numbered (id : UInt64) (cs : List Candidate) (k : Nat) :
    (numbered id cs)[k]? = cs[k]?.map fun d => (id + .ofNat k, d) := by
  induction cs generalizing id k with
  | nil => rfl
  | cons c cs ih =>
      cases k with
      | zero => simp [numbered]
      | succ k => simp only [numbered, List.getElem?_cons_succ, ih, number_succ]

theorem map_snd_numbered (id : UInt64) (cs : List Candidate) : (numbered id cs).map Prod.snd = cs := by
  induction cs generalizing id with
  | nil => rfl
  | cons c cs ih => simp [numbered, ih]

theorem length_numbered (id : UInt64) (cs : List Candidate) : (numbered id cs).length = cs.length := by
  rw [← List.length_map Prod.snd, map_snd_numbered]

/-! ## Chunks -/

theorem flatten_chunksOf {α : Type} {n : Nat} (hn : 0 < n) {fuel : Nat} {xs : List α} (hfuel : xs.length ≤ fuel) :
    (chunksOf n fuel xs).flatten = xs := by
  induction fuel generalizing xs with
  | zero => simp_all [chunksOf]
  | succ fuel ih =>
      cases xs with
      | nil => rfl
      | cons x xs =>
          have hdrop : ((x :: xs).drop n).length ≤ fuel := by
            rw [List.length_drop]
            simp only [List.length_cons] at hfuel ⊢
            omega
          simp [chunksOf, ih hdrop]

theorem chunksOf_nil {α : Type} (n fuel : Nat) : chunksOf n fuel ([] : List α) = [] := by
  cases fuel with
  | zero => rfl
  | succ fuel => rfl

theorem chunksOf_cons {α : Type} (n fuel : Nat) {xs : List α} (h : xs ≠ []) :
    chunksOf n (fuel + 1) xs = xs.take n :: chunksOf n fuel (xs.drop n) := by
  cases xs with
  | nil => exact absurd rfl h
  | cons x xs => rfl

theorem chunkSize_pos (workers n : Nat) : 0 < chunkSize workers n := by
  unfold chunkSize
  exact Nat.lt_of_lt_of_le Nat.one_pos (Nat.le_max_right ..)

section

variable {name : String} {run : Runner}

/-- Chunks one after the other, each numbered on from the end of the one before. -/
def runChunks (name : String) (run : Runner) : UInt64 → List (List Candidate) → BatchResult
  | _, [] => {}
  | id, c :: rest => runChunk name run id c ++ runChunks name run (id + .ofNat c.length) rest

theorem foldr_chunksOf (name : String) (run : Runner) (size fuel : Nat) (id : UInt64) (batch : List Candidate)
    (k : Nat) :
    ((chunksOf size fuel batch).zipIdx k).foldr
        (fun chunk later => runChunk name run (id + .ofNat (chunk.2 * size)) chunk.1 ++ later) {} =
      runChunks name run (id + .ofNat (k * size)) (chunksOf size fuel batch) := by
  induction fuel generalizing batch k with
  | zero => rfl
  | succ fuel ih =>
      by_cases hbatch : batch = []
      · rw [hbatch, chunksOf_nil]
        rfl
      · rw [chunksOf_cons size fuel hbatch, List.zipIdx_cons, List.foldr_cons, ih, runChunks]
        by_cases hfull : size ≤ batch.length
        · rw [List.length_take_of_le hfull, number_add, Nat.succ_mul]
        · -- The chunk is not full, so it is the last one.
          rw [List.drop_eq_nil_of_le (Nat.le_of_not_le hfull), chunksOf_nil]
          rfl

/-- All chunks but the last are full, so each starts where the one before ends. -/
theorem runBatch_eq_runChunks (name : String) (run : Runner) (workers : Nat) (id : UInt64)
    (batch : List Candidate) :
    runBatch name run workers id batch =
      runChunks name run id (chunksOf (chunkSize workers batch.length) batch.length batch) := by
  have hfirst : id + .ofNat (0 * chunkSize workers batch.length) = id := by simp
  rw [runBatch, foldr_chunksOf, hfirst]

/-- The results are those of the executions. -/
def Settles (run : Runner) (executions : List (UInt64 × Candidate)) (results : List (Except MockError Trace)) :
    Prop :=
  List.Forall₂ (fun e result => (run e.1 e.2).settled? = some result) executions results

theorem Run.settled?_eq_ok {r : Run} {t : Trace} : r.settled? = some (.ok t) ↔ r.result = .ok t := by
  unfold Run.settled?
  rcases r.result with (e | _) | u <;> simp

theorem Run.settled?_eq_error {r : Run} {e : MockError} :
    r.settled? = some (.error e) ↔ r.result = .error (.raised e) := by
  unfold Run.settled?
  rcases r.result with (e | _) | u <;> simp

/-- A worker that does not crash at a candidate goes on to the next one. -/
theorem runUntilCrash_cons {id : UInt64} {c : Candidate} {result : Except MockError Trace} (cs : List Candidate)
    (h : (run id c).settled? = some result) :
    runUntilCrash run id (c :: cs) = run id c :: runUntilCrash run (id + 1) cs := by
  have hne : (run id c).result ≠ .error .crashed := by
    intro hcrash
    simp [Run.settled?, hcrash] at h
  rcases hresult : (run id c).result with (e | _) | t <;> simp_all [runUntilCrash]

/-- A worker settles its chunk, unless it crashes in it. -/
theorem runUntilCrash_settles (run : Runner) (id : UInt64) (cs : List Candidate) :
    (runUntilCrash run id cs).mapM Run.settled? = none ∨
      ∃ results, (runUntilCrash run id cs).mapM Run.settled? = some results ∧
        Settles run (numbered id cs) results := by
  induction cs generalizing id with
  | nil => exact .inr ⟨[], rfl, .nil⟩
  | cons c cs ih =>
      cases hsettled : (run id c).settled? with
      | none =>
          have hcrash : (run id c).result = .error .crashed := by
            unfold Run.settled? at hsettled
            split at hsettled <;> simp_all
          exact .inl (by simp [runUntilCrash, hcrash, hsettled])
      | some result =>
          rw [runUntilCrash_cons cs hsettled, List.mapM_cons, hsettled]
          rcases ih (id + 1) with hnone | ⟨results, hsome, hrest⟩
          · exact .inl (by simp [hnone])
          · exact .inr ⟨result :: results, by simp [hsome], .cons hsettled hrest⟩

/-! ## Results that come back -/

/-- What comes back from a run is its result, or word that its worker crashed. -/
def Run.Reports (name : String) (r : Run) (result : Except MockError Trace) : Prop :=
  r.settled? = some result ∨ result = .error (.crashed name)

theorem Run.Reports.result_eq {r : Run} {t : Trace} (h : r.Reports name (.ok t)) : r.result = .ok t := by
  rcases h with hsettled | hcrash
  · exact Run.settled?_eq_ok.1 hsettled
  · cases hcrash

/-- Every candidate of a chunk has a result. -/
theorem runChunk_reports (id : UInt64) (cs : List Candidate) :
    List.Forall₂ (fun e => (run e.1 e.2).Reports name) (numbered id cs) (runChunk name run id cs).results := by
  unfold runChunk
  rcases runUntilCrash_settles run id cs with hnone | ⟨results, hsome, hsettles⟩
  · simp only [hnone, Option.getD_none]
    clear hnone
    induction cs generalizing id with
    | nil => exact .nil
    | cons c cs ih => exact .cons (.inr rfl) (ih (id + 1))
  · simp only [hsome, Option.getD_some]
    exact hsettles.imp fun _ _ h => .inl h

theorem runChunks_reports (id : UInt64) (chunks : List (List Candidate)) :
    List.Forall₂ (fun e => (run e.1 e.2).Reports name) (numbered id chunks.flatten)
      (runChunks name run id chunks).results := by
  induction chunks generalizing id with
  | nil => exact .nil
  | cons cs chunks ih =>
      have hresults : (runChunks name run id (cs :: chunks)).results = (runChunk name run id cs).results ++
          (runChunks name run (id + .ofNat cs.length) chunks).results := rfl
      rw [hresults, List.flatten_cons, numbered_append]
      exact List.rel_append (runChunk_reports id cs) (ih _)

/-- A batch has one result for each of its candidates, in order. -/
theorem runBatch_reports {workers : Nat} (id : UInt64) (batch : List Candidate) :
    List.Forall₂ (fun e => (run e.1 e.2).Reports name) (numbered id batch)
      (runBatch name run workers id batch).results := by
  have hflat := flatten_chunksOf (chunkSize_pos workers batch.length) (Nat.le_refl batch.length)
  rw [runBatch_eq_runChunks]
  conv => arg 2; rw [← hflat]
  exact runChunks_reports id _

theorem length_runBatch {workers : Nat} (id : UInt64) (batch : List Candidate) :
    (runBatch name run workers id batch).results.length = batch.length := by
  rw [← (runBatch_reports id batch).length_eq, length_numbered]

/-- An error that comes back was raised by an execution, or a worker crashed. -/
theorem error_of_reports {executions : List (UInt64 × Candidate)} {results : List (Except MockError Trace)}
    (hreports : List.Forall₂ (fun e => (run e.1 e.2).Reports name) executions results) {e : MockError}
    (h : .error e ∈ results) :
    e = .crashed name ∨ ∃ d ∈ executions, (run d.1 d.2).result = .error (.raised e) := by
  induction hreports with
  | nil => cases h
  | @cons d _ _ _ hreport _ ih =>
      rcases List.mem_cons.1 h with rfl | h
      · rcases hreport with hsettled | hcrash
        · exact .inr ⟨d, List.mem_cons_self .., Run.settled?_eq_error.1 hsettled⟩
        · cases hcrash
          exact .inl rfl
      · exact (ih h).imp_right fun ⟨d, hd, hraised⟩ => ⟨d, List.mem_cons_of_mem _ hd, hraised⟩

/-- A trace that comes back is the trace of an execution. -/
theorem trace_of_reports {executions : List (UInt64 × Candidate)} {results : List (Except MockError Trace)}
    (hreports : List.Forall₂ (fun e => (run e.1 e.2).Reports name) executions results) {t : Trace}
    (h : .ok t ∈ results) : ∃ d ∈ executions, (run d.1 d.2).result = .ok t := by
  induction hreports with
  | nil => cases h
  | @cons d _ _ _ hreport _ ih =>
      rcases List.mem_cons.1 h with rfl | h
      · exact ⟨d, List.mem_cons_self .., hreport.result_eq⟩
      · obtain ⟨d, hd, hresult⟩ := ih h
        exact ⟨d, List.mem_cons_of_mem _ hd, hresult⟩

/-- Traces for a whole batch are the traces of its candidates, in order. -/
theorem runBatch_settles {workers : Nat} (id : UInt64) (batch : List Candidate)
    (h : ∀ result ∈ (runBatch name run workers id batch).results, ∃ t, result = .ok t) :
    Settles run (numbered id batch) (runBatch name run workers id batch).results := by
  have hreports : List.Forall₂ (fun e => (run e.1 e.2).Reports name) (numbered id batch)
      (runBatch name run workers id batch).results := runBatch_reports id batch
  generalize (runBatch name run workers id batch).results = results at h hreports ⊢
  generalize numbered id batch = executions at hreports ⊢
  induction hreports with
  | nil => exact .nil
  | cons hreport _ ih =>
      refine .cons ?_ (ih fun result hr => h result (List.mem_cons_of_mem _ hr))
      rcases hreport with hsettled | rfl
      · exact hsettled
      · obtain ⟨t, ht⟩ := h _ (List.mem_cons_self ..)
        cases ht

/-! ## Batches without a crash -/

/-- What runs come to that did not crash. -/
def BatchResult.ofRuns (runs : List Run) : BatchResult where
  results := runs.filterMap Run.settled?
  observations := runs.flatMap (·.observations)
  cancels := runs.any (·.cancels)

theorem BatchResult.ofRuns_append (runs more : List Run) : ofRuns (runs ++ more) = ofRuns runs ++ ofRuns more := by
  have happend : ∀ a b : BatchResult,
      a ++ b = ⟨a.results ++ b.results, a.observations ++ b.observations, a.cancels || b.cancels⟩ := fun _ _ => rfl
  simp [happend, ofRuns]

/-- No execution of the list crashes. -/
def Crashless (run : Runner) (executions : List (UInt64 × Candidate)) : Prop :=
  ∀ e ∈ executions, ∃ result, (run e.1 e.2).settled? = some result

theorem runUntilCrash_eq {id : UInt64} {cs : List Candidate} (h : Crashless run (numbered id cs)) :
    runUntilCrash run id cs = (numbered id cs).map fun e => run e.1 e.2 := by
  induction cs generalizing id with
  | nil => rfl
  | cons c cs ih =>
      obtain ⟨result, hresult⟩ := h (id, c) (List.mem_cons_self ..)
      rw [runUntilCrash_cons cs hresult, ih fun e he => h e (List.mem_cons_of_mem _ he)]
      rfl

theorem runChunk_eq {id : UInt64} {cs : List Candidate} (h : Crashless run (numbered id cs)) :
    runChunk name run id cs = .ofRuns ((numbered id cs).map fun e => run e.1 e.2) := by
  have hsettled : ∀ executions, Crashless run executions →
      (executions.map fun e => run e.1 e.2).mapM Run.settled? =
        some ((executions.map fun e => run e.1 e.2).filterMap Run.settled?) := by
    intro executions hall
    induction executions with
    | nil => rfl
    | cons e executions ih =>
        obtain ⟨result, hresult⟩ := hall e (List.mem_cons_self ..)
        have hrest := ih fun e he => hall e (List.mem_cons_of_mem _ he)
        simp [hresult, hrest]
  simp only [runChunk, runUntilCrash_eq h, hsettled _ h, Option.getD_some]
  rfl

theorem runChunks_eq {id : UInt64} {chunks : List (List Candidate)}
    (h : Crashless run (numbered id chunks.flatten)) :
    runChunks name run id chunks = .ofRuns ((numbered id chunks.flatten).map fun e => run e.1 e.2) := by
  induction chunks generalizing id with
  | nil => rfl
  | cons cs chunks ih =>
      rw [List.flatten_cons, numbered_append] at h ⊢
      rw [runChunks, runChunk_eq fun e he => h e (List.mem_append_left _ he),
        ih fun e he => h e (List.mem_append_right _ he), List.map_append, BatchResult.ofRuns_append]

/-- Without a crash it does not matter how a batch is shared among workers. -/
theorem runBatch_eq {workers : Nat} {id : UInt64} {batch : List Candidate} (h : Crashless run (numbered id batch)) :
    runBatch name run workers id batch = .ofRuns ((numbered id batch).map fun e => run e.1 e.2) := by
  have hflat := flatten_chunksOf (chunkSize_pos workers batch.length) (Nat.le_refl batch.length)
  rw [← hflat] at h
  rw [runBatch_eq_runChunks, runChunks_eq h, hflat]

end

end MockExplorer
