import MockExplorer.Proofs.Campaign.Cancellation

/-!
# A pool of workers

A batch is cut into chunks of one size and each chunk is run by a worker of its own. What comes back is what would come
back if the candidates were run one after the other under consecutive numbers, except that a crash takes the results of
its chunk with it. The counter of a campaign goes on from batch to batch and from test case to test case, so no number
is left out and none is used twice.
-/

namespace MockExplorer

variable {name : String} {run : Runner}

/-! ## Chunks and positions -/

/-- A candidate in the chunk of position `k` crashes under its number. Chunks have `size` candidates. -/
def ChunkCrashes (run : Runner) (size : Nat) (id : UInt64) (batch : List Candidate) (k : Nat) : Prop :=
  ∃ j d, batch[j]? = some d ∧ j / size = k / size ∧ (run (id + .ofNat j) d).result = .error .crashed

/-- What comes back for the candidate `d` at position `k` of a batch. -/
inductive ComesBack (name : String) (run : Runner) (size : Nat) (id : UInt64) (batch : List Candidate) (k : Nat)
    (d : Candidate) : Except MockError Trace → Prop where
  | lost (h : ChunkCrashes run size id batch k) : ComesBack name run size id batch k d (.error (.crashed name))
  | settled {result : Except MockError Trace} (h : ¬ ChunkCrashes run size id batch k)
      (hresult : (run (id + .ofNat k) d).settled? = some result) : ComesBack name run size id batch k d result

theorem Run.settled?_eq_none {r : Run} : r.settled? = none ↔ r.result = .error .crashed := by
  unfold Run.settled?
  rcases r.result with (e | _) | u <;> simp

theorem not_crashless_numbered {id : UInt64} {cs : List Candidate} :
    ¬ Crashless run (numbered id cs) ↔
      ∃ j d, cs[j]? = some d ∧ (run (id + .ofNat j) d).result = .error .crashed := by
  simp only [Crashless, not_forall, ← Option.isSome_iff_exists, Option.not_isSome_iff_eq_none, Run.settled?_eq_none]
  constructor
  · rintro ⟨e, he, hcrash⟩
    obtain ⟨j, hj⟩ := List.mem_iff_getElem?.1 he
    rw [getElem?_numbered] at hj
    obtain ⟨d, hd, rfl⟩ := Option.map_eq_some_iff.1 hj
    exact ⟨j, d, hd, hcrash⟩
  · rintro ⟨j, d, hd, hcrash⟩
    refine ⟨(id + .ofNat j, d), List.mem_iff_getElem?.2 ⟨j, ?_⟩, hcrash⟩
    rw [getElem?_numbered, hd, Option.map_some]

section

variable {size : Nat} {id : UInt64} {batch : List Candidate} {k : Nat}

theorem chunkCrashes_first (hk : k < size) :
    ChunkCrashes run size id batch k ↔ ¬ Crashless run (numbered id (batch.take size)) := by
  rw [not_crashless_numbered]
  have hchunk : ∀ j, j / size = k / size ↔ j < size := by
    intro j
    rw [Nat.div_eq_of_lt hk, Nat.div_eq_zero_iff_lt (Nat.zero_lt_of_lt hk)]
  constructor
  · rintro ⟨j, d, hd, hj, hcrash⟩
    exact ⟨j, d, by rw [List.getElem?_take_of_lt ((hchunk j).1 hj), hd], hcrash⟩
  · rintro ⟨j, d, hd, hcrash⟩
    rw [List.getElem?_take] at hd
    split at hd
    · exact ⟨j, d, hd, (hchunk j).2 ‹_›, hcrash⟩
    · cases hd

/-- Behind the first chunk, chunks are those of what is left of the batch. -/
theorem chunkCrashes_later (hsize : 0 < size) :
    ChunkCrashes run size id batch (size + k) ↔
      ChunkCrashes run size (id + .ofNat size) (batch.drop size) k := by
  have hshift : ∀ j, (size + j) / size = j / size + 1 := fun j => Nat.add_div_left j hsize
  constructor
  · rintro ⟨j, d, hd, hj, hcrash⟩
    have hle : size ≤ j := by
      refine Nat.le_of_not_lt fun hlt => ?_
      rw [hshift, Nat.div_eq_of_lt hlt] at hj
      cases hj
    obtain ⟨i, rfl⟩ := Nat.exists_eq_add_of_le hle
    refine ⟨i, d, by rw [List.getElem?_drop, hd], ?_, by rw [number_add]; exact hcrash⟩
    rw [hshift, hshift] at hj
    exact Nat.succ.inj hj
  · rintro ⟨j, d, hd, hj, hcrash⟩
    refine ⟨size + j, d, by rw [← List.getElem?_drop, hd], ?_, by rw [← number_add]; exact hcrash⟩
    rw [hshift, hshift, hj]

end

/-! ## One chunk -/

theorem BatchResult.ofRuns_results {executions : List (UInt64 × Candidate)} (h : Crashless run executions) :
    (BatchResult.ofRuns (executions.map fun e => run e.1 e.2)).results.map some =
      executions.map fun e => (run e.1 e.2).settled? := by
  induction executions with
  | nil => rfl
  | cons e executions ih =>
      obtain ⟨result, hresult⟩ := h e (List.mem_cons_self ..)
      have hrest := ih fun e he => h e (List.mem_cons_of_mem _ he)
      simp only [BatchResult.ofRuns] at hrest ⊢
      simp only [List.map_cons, List.filterMap_cons, hresult, hrest]

theorem runChunk_lost {id : UInt64} {cs : List Candidate} (h : ¬ Crashless run (numbered id cs)) :
    (runChunk name run id cs).results = cs.map fun _ => .error (.crashed name) := by
  rcases runUntilCrash_settles run id cs with hnone | ⟨results, hsome, hsettles⟩
  · simp only [runChunk, hnone, Option.getD_none]
  · refine absurd (fun e he => ?_) h
    obtain ⟨i, hi⟩ := List.mem_iff_getElem?.1 he
    obtain ⟨hlt, hget⟩ := List.getElem?_eq_some_iff.1 hi
    have hresult := hsettles.get hlt (hsettles.length_eq ▸ hlt)
    rw [List.get_eq_getElem, hget] at hresult
    exact ⟨_, hresult⟩

theorem length_runChunk (id : UInt64) (cs : List Candidate) : (runChunk name run id cs).results.length = cs.length := by
  rw [← (runChunk_reports id cs).length_eq, length_numbered]

section

variable {size : Nat} {id : UInt64} {batch : List Candidate} {k : Nat} {d : Candidate}

theorem runChunk_comesBack (hk : k < size) (hd : batch[k]? = some d) :
    ∃ result, (runChunk name run id (batch.take size)).results[k]? = some result ∧
      ComesBack name run size id batch k d result := by
  have htake : (batch.take size)[k]? = some d := by rw [List.getElem?_take_of_lt hk, hd]
  by_cases h : Crashless run (numbered id (batch.take size))
  · have hchunk : runChunk name run id (batch.take size) = _ := runChunk_eq h
    have hresults := congrArg (fun l => l[k]?) (BatchResult.ofRuns_results h)
    simp only [← hchunk, List.getElem?_map, getElem?_numbered, htake, Option.map_some] at hresults
    obtain ⟨result, hresult, hsettled⟩ := Option.map_eq_some_iff.1 hresults
    exact ⟨result, hresult, .settled (fun hcrash => (chunkCrashes_first hk).1 hcrash h) hsettled.symm⟩
  · refine ⟨_, ?_, .lost ((chunkCrashes_first hk).2 h)⟩
    rw [runChunk_lost h, List.getElem?_map, htake, Option.map_some]

/-! ## Batches -/

theorem ComesBack.later {result : Except MockError Trace} (hsize : 0 < size)
    (h : ComesBack name run size (id + .ofNat size) (batch.drop size) k d result) :
    ComesBack name run size id batch (size + k) d result := by
  cases h with
  | lost h => exact .lost ((chunkCrashes_later hsize).2 h)
  | settled h hresult =>
      rw [number_add] at hresult
      exact .settled (fun hcrash => h ((chunkCrashes_later hsize).1 hcrash)) hresult

theorem runChunks_comesBack (hsize : 0 < size) {fuel : Nat} (hfuel : batch.length ≤ fuel) (hd : batch[k]? = some d) :
    ∃ result, (runChunks name run id (chunksOf size fuel batch)).results[k]? = some result ∧
      ComesBack name run size id batch k d result := by
  have hlt : k < batch.length := (List.getElem?_eq_some_iff.1 hd).1
  induction fuel generalizing id batch k with
  | zero => omega
  | succ fuel ih =>
      have hchunks : chunksOf size (fuel + 1) batch = batch.take size :: chunksOf size fuel (batch.drop size) :=
        chunksOf_cons size fuel (List.ne_nil_of_length_pos (Nat.zero_lt_of_lt hlt))
      have hresults : (runChunks name run id (chunksOf size (fuel + 1) batch)).results =
          (runChunk name run id (batch.take size)).results ++ (runChunks name run
            (id + .ofNat (batch.take size).length) (chunksOf size fuel (batch.drop size))).results := by
        rw [hchunks]
        rfl
      have hlength : (runChunk name run id (batch.take size)).results.length = min size batch.length := by
        rw [length_runChunk, List.length_take]
      rw [hresults]
      by_cases hk : k < size
      · rw [List.getElem?_append_left (by omega)]
        exact runChunk_comesBack hk hd
      · obtain ⟨i, rfl⟩ := Nat.exists_eq_add_of_le (Nat.le_of_not_lt hk)
        -- There are candidates behind the first chunk, so it is full.
        have hfull : min size batch.length = size := by omega
        have hi : (batch.drop size)[i]? = some d := by rw [List.getElem?_drop, hd]
        have hleft : (batch.drop size).length = batch.length - size := List.length_drop
        rw [List.getElem?_append_right (by omega), hlength, List.length_take, hfull, Nat.add_sub_cancel_left]
        obtain ⟨result, hresult, hcomes⟩ := ih (by omega) hi (by omega)
        exact ⟨result, hresult, hcomes.later hsize⟩

end

theorem runBatch_comesBack {workers : Nat} {id : UInt64} {batch : List Candidate} {k : Nat} {d : Candidate}
    (hd : batch[k]? = some d) :
    ∃ result, (runBatch name run workers id batch).results[k]? = some result ∧
      ComesBack name run (chunkSize workers batch.length) id batch k d result := by
  rw [runBatch_eq_runChunks]
  exact runChunks_comesBack (chunkSize_pos workers batch.length) (Nat.le_refl _) hd

/-! ## Numbers -/

theorem Body.execute_id {b : Body} {config : MockConfig} {id : UInt64} {m : Model} {assumptions : List Predicate}
    {t : Trace} (h : (b.execute config id m assumptions).result = .ok t) : t.id = id := by
  have hnumber : b.runUnder config id m assumptions =
      ((b.runUnder config 0 m assumptions).1.renumber id, (b.runUnder config 0 m assumptions).2) :=
    Body.run_renumber { resolver := .ofModel m } b id (.start config 0 assumptions ())
  obtain ⟨_, rfl⟩ := Body.execute_result.1 h
  rw [hnumber]
  rfl

theorem map_fst_numbered (id : UInt64) (cs : List Candidate) :
    (numbered id cs).map Prod.fst = (List.range cs.length).map fun k => id + .ofNat k := by
  refine List.ext_getElem? fun k => ?_
  rw [List.getElem?_map, getElem?_numbered, List.getElem?_map, Option.map_map]
  by_cases hk : k < cs.length
  · rw [List.getElem?_range hk, List.getElem?_eq_getElem hk]
    rfl
  · rw [List.getElem?_eq_none (Nat.le_of_not_lt hk), List.getElem?_eq_none (by simpa using hk)]
    rfl

theorem nodup_map_number {n : Nat} (h : n ≤ 2 ^ 64) (id : UInt64) :
    ((List.range n).map fun k => id + .ofNat k).Nodup := by
  refine List.Nodup.map_on (fun i hi j hj heq => ?_) List.nodup_range
  rw [List.mem_range] at hi hj
  have hsame := congrArg UInt64.toNat ((UInt64.add_right_inj id).1 heq)
  rwa [UInt64.toNat_ofNat_of_lt' (Nat.lt_of_lt_of_le hi h),
    UInt64.toNat_ofNat_of_lt' (Nat.lt_of_lt_of_le hj h)] at hsame

/-- The executions are numbered on from the counter of the first campaign, up to that of the second. -/
structure Counted (c : Campaign) (done : List (UInt64 × Candidate)) (c' : Campaign) : Prop where
  numbered : done = numbered c.nextExecution (done.map Prod.snd)
  counter : c'.nextExecution = c.nextExecution + .ofNat done.length

namespace Counted

variable {c c' c'' : Campaign} {done done' : List (UInt64 × Candidate)}

theorem none (h : c'.nextExecution = c.nextExecution) : Counted c [] c' := ⟨rfl, by simpa using h⟩

theorem append (h : Counted c done c') (h' : Counted c' done' c'') : Counted c (done ++ done') c'' where
  numbered := by
    rw [List.map_append, numbered_append, List.length_map, ← h.counter, ← h.numbered, ← h'.numbered]
  counter := by
    rw [h'.counter, h.counter, number_add, List.length_append]

theorem ids (h : Counted c done c') :
    done.map Prod.fst = (List.range done.length).map fun k => c.nextExecution + .ofNat k := by
  have hids := map_fst_numbered c.nextExecution (done.map Prod.snd)
  rwa [← h.numbered, List.length_map] at hids

end Counted

namespace Search

variable {x : Exploration} {c : Campaign} {s : Search}

theorem nextBatch_counted (x : Exploration) (c : Campaign) (s : Search) :
    Counted c (numbered c.nextExecution (s.worklist.take (batchLength x s))) (nextBatch x c s).1 := by
  obtain ⟨asked, hcampaign⟩ := nextBatch_campaign x c s
  constructor
  · rw [map_snd_numbered]
  · rw [hcampaign, length_numbered]

theorem Explores.counted {done : List (UInt64 × Candidate)} {results : List (Except MockError Trace)}
    {out : Campaign × Search × CaseStatus} (h : Explores x c s done results out) : Counted c done out.1 := by
  induction h with
  | ended _ => exact .none rfl
  | @failed c c' s s' e _ hbatch =>
      have hcounted := nextBatch_counted x c s
      rwa [hbatch] at hcounted
  | @next c c' s s' _ _ _ _ hbatch _ ih =>
      have hcounted := nextBatch_counted x c s
      rw [hbatch] at hcounted
      exact hcounted.append ih

end Search

namespace CampaignContext

/-- The executions of all turns, in order. -/
def performedOf (x : CampaignContext) : Campaign → List Turn → List (UInt64 × Candidate)
  | _, [] => []
  | c, o :: rest =>
    x.performedBy o.run (o.opened c) o.test ++ performedOf x (x.runBy o.run (o.opened c) o.test).2 rest

/-- What came back from these executions, in order. -/
def outcomesOf (x : CampaignContext) : Campaign → List Turn → List (Except MockError Trace)
  | _, [] => []
  | c, o :: rest =>
    x.outcomesBy o.run (o.opened c) o.test ++ outcomesOf x (x.runBy o.run (o.opened c) o.test).2 rest

theorem runTurns_counted (x : CampaignContext) (c : Campaign) (turns : List Turn) :
    Counted c (x.performedOf c turns) (x.runTurns c turns).2 := by
  induction turns generalizing c with
  | nil => exact .none rfl
  | cons o turns ih =>
      obtain ⟨c', s', status, hexplores, hrun⟩ := x.runBy_explores o.run (o.opened c) o.test
      have hfirst : Counted c (x.performedBy o.run (o.opened c) o.test) (x.runBy o.run (o.opened c) o.test).2 := by
        rw [hrun]
        exact ⟨hexplores.counted.numbered, hexplores.counted.counter⟩
      exact hfirst.append (ih _)

theorem runTurns_executions (x : CampaignContext) (c : Campaign) (turns : List Turn) (n : UInt64) :
    (x.runTurns c turns).1.foldl (fun n r => n + r.executions) n = n + .ofNat (x.performedOf c turns).length := by
  induction turns generalizing c n with
  | nil => simp [runTurns, performedOf]
  | cons o turns ih =>
      obtain ⟨c', s', status, hexplores, hrun⟩ := x.runBy_explores o.run (o.opened c) o.test
      have hfirst : (x.runBy o.run (o.opened c) o.test).1.executions =
          .ofNat (x.performedBy o.run (o.opened c) o.test).length := by
        rw [hrun, ← UInt64.ofNat_toNat (x := CaseReport.executions _)]
        exact congrArg UInt64.ofNat (hexplores.toNat_executions o.test.name)
      have hturns : (x.runTurns c (o :: turns)).1 = (x.runBy o.run (o.opened c) o.test).1 ::
          (x.runTurns (x.runBy o.run (o.opened c) o.test).2 turns).1 := rfl
      rw [hturns, List.foldl_cons, ih, hfirst, number_add, performedOf, List.length_append]

theorem runTurns_traces {x : CampaignContext} {turns : List Turn} (h : ∀ o ∈ turns, o.Faithful x.config.mock)
    (c : Campaign) :
    List.Forall₂ (fun e result => ∀ u, result = .ok u → u.id = e.1) (x.performedOf c turns) (x.outcomesOf c turns) := by
  induction turns generalizing c with
  | nil => exact .nil
  | cons o turns ih =>
      obtain ⟨c', s', status, hexplores, _⟩ := x.runBy_explores o.run (o.opened c) o.test
      refine List.rel_append (hexplores.reports.imp fun e result hreports u hu => ?_)
        (ih (fun o ho => h o (List.mem_cons_of_mem _ ho)) _)
      subst hu
      have hresult := hreports.result_eq
      exact Body.execute_id ((h o (List.mem_cons_self ..) e.1 e.2).symm.trans hresult)

end CampaignContext

/-! ## The pool and the sequential run -/

/-- However a batch is shared among workers, there is one result for each candidate, at its position. The candidate at
position `k` is run under the number `id + k`, and its result is the one of that run unless a candidate of its chunk
crashes. If none crashes, the workers come to what running the candidates in order comes to. A batch moves the counter
of its campaign on by its length, so in a new campaign the executions of all test cases are numbered from zero on
without a gap, and traces bear these numbers. -/
theorem pool_refines_sequential :
    (∀ (name : String) (run : Runner) (workers : Nat) (id : UInt64) (batch : List Candidate),
      let pooled := runBatch name run workers id batch
      pooled.results.length = batch.length ∧
        (∀ k d, batch[k]? = some d → ∃ result, pooled.results[k]? = some result ∧
          ComesBack name run (chunkSize workers batch.length) id batch k d result) ∧
        (Crashless run (numbered id batch) →
          pooled.results.map some = (numbered id batch).map (fun e => (run e.1 e.2).settled?) ∧
            ∀ workers', runBatch name run workers' id batch = pooled)) ∧
    (∀ (x : Exploration) (c : Campaign) (s : Search),
      (Search.nextBatch x c s).1.nextExecution =
        c.nextExecution + .ofNat (s.worklist.take (Search.batchLength x s)).length) ∧
    ∀ (x : CampaignContext) (turns : List Turn),
      let done := x.performedOf {} turns
      done.map Prod.fst = (List.range done.length).map UInt64.ofNat ∧
        (done.length ≤ 2 ^ 64 → (done.map Prod.fst).Nodup) ∧
        (x.runAllTurns {} turns).1.executions = .ofNat done.length ∧
        (x.runAllTurns {} turns).2.nextExecution = .ofNat done.length ∧
        ((∀ o ∈ turns, o.Faithful x.config.mock) →
          List.Forall₂ (fun e result => ∀ u, result = .ok u → u.id = e.1) done (x.outcomesOf {} turns)) := by
  refine ⟨fun name run workers id batch => ?_, fun x c s => ?_, fun x turns => ?_⟩
  · refine ⟨length_runBatch id batch, fun k d hd => runBatch_comesBack hd, fun h => ⟨?_, fun workers' => ?_⟩⟩
    · rw [runBatch_eq h]
      exact BatchResult.ofRuns_results h
    · rw [runBatch_eq h, runBatch_eq h]
  · have hcounted := Search.nextBatch_counted x c s
    rw [hcounted.counter, length_numbered]
  · have hcounted := x.runTurns_counted {} turns
    have hids : (x.performedOf {} turns).map Prod.fst =
        (List.range (x.performedOf {} turns).length).map UInt64.ofNat := by
      simpa using hcounted.ids
    refine ⟨hids, fun hlength => ?_, ?_, ?_, fun h => x.runTurns_traces h {}⟩
    · rw [hcounted.ids]
      exact nodup_map_number hlength _
    · exact (x.runTurns_executions {} turns 0).trans (UInt64.zero_add _)
    · exact hcounted.counter.trans (UInt64.zero_add _)

/-- Three workers share five candidates from number 10 on, and the third candidate crashes. It takes the fourth with it,
while the fifth settles under its own number. -/
theorem pool_refines_sequential_middle_chunk :
    let t : TestCase := { name := "five", body := .ofList [.act (.mock "m" Capability.intSupplier.descriptor),
      .act (.call "m" [] "v"), .branch ⟨1⟩ "v" .eq 5 (.act .crash) .skip] }
    let five : Candidate := { model := ({} : Model).insert (.forCall 0 "getAsInt") (.int 5) }
    let batch : List Candidate := [{}, {}, five, {}, {}]
    let results := (runBatch t.name (t.runner {}) 3 10 batch).results
    ChunkCrashes (t.runner {}) 2 10 batch 3 ∧ results[3]? = some (.error (.crashed "five")) ∧
      ¬ ChunkCrashes (t.runner {}) 2 10 batch 4 ∧ ∃ u, results[4]? = some (.ok u) ∧ u.id = 14 := by
  intro t five batch results
  have hcrash : ChunkCrashes (t.runner {}) 2 10 batch 3 := ⟨2, five, rfl, rfl, by decide +kernel⟩
  have hsound : ¬ ChunkCrashes (t.runner {}) 2 10 batch 4 := by
    rintro ⟨j, d, hd, hj, hresult⟩
    have hlt : j < 5 := (List.getElem?_eq_some_iff.1 hd).1
    obtain rfl : j = 4 := by omega
    cases hd
    revert hresult
    decide +kernel
  obtain ⟨u, hu⟩ : ∃ u, (t.runner {} 14 {}).result = .ok u :=
    Undisturbed.trace (e := (14, {})) (by decide +kernel) (List.mem_singleton_self _)
  have hsize : chunkSize 3 batch.length = 2 := by decide
  obtain ⟨_, hall, _⟩ := pool_refines_sequential.1 t.name (t.runner {}) 3 10 batch
  rw [hsize] at hall
  obtain ⟨lost, hlost, hback⟩ := hall 3 {} rfl
  obtain ⟨kept, hkept, hback'⟩ := hall 4 {} rfl
  refine ⟨hcrash, ?_, hsound, u, ?_, Body.execute_id hu⟩
  · cases hback with
    | lost _ => exact hlost
    | settled h _ => exact absurd hcrash h
  · cases hback' with
    | lost h => exact absurd h hsound
    | settled _ hsettled =>
        have hresult : (t.runner {} 14 {}).settled? = some kept := hsettled
        rw [Run.settled?_eq_ok.2 hu] at hresult
        cases hresult
        exact hkept

end MockExplorer
