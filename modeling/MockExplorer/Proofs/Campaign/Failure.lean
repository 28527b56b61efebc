import MockExplorer.Proofs.Campaign.Accounting
import MockExplorer.Solver.Equality

/-!
# Which error a case reports

Several executions of one batch can fail, and the first error that comes back decides how the case ends. A
fatal error shows if it is the first, which it always is when batches have one candidate. After an error that
is local to the case it does not show.
-/

namespace MockExplorer

namespace CaseStatus

theorem isFatal_ofError (e : MockError) : (ofError e).isFatal = true ↔ e.severity = .fatal := by
  unfold ofError
  cases e.severity <;> simp [isFatal]

theorem isError_of_isFatal {status : CaseStatus} (h : status.isFatal = true) : status.isError = true := by
  cases status with
  | fatal error => rfl
  | _ => cases h

end CaseStatus

theorem CampaignReport.hasFatal_of_mem {report : CampaignReport} {r : CaseReport} (hr : r ∈ report.cases)
    (h : r.status.isFatal = true) : report.hasFatal = true :=
  List.any_eq_true.2 ⟨r, hr, h⟩

namespace Search

variable {x : Exploration} {c c' : Campaign} {s s' : Search} {done : List (UInt64 × Candidate)}
  {results : List (Except MockError Trace)} {status : CaseStatus}

/-- A search ends as fatal exactly if the first error that comes back is fatal. -/
theorem Explores.isFatal_settle (h : Explores x c s done results (c', s', status)) :
    (settle c' s' status).isFatal = true ↔ ∃ e, results.findSome? errorOf? = some e ∧ e.severity = .fatal := by
  rcases h.ends with ⟨e, he, rfl⟩ | ⟨hnone, hending⟩
  · rw [settle_ofError, CaseStatus.isFatal_ofError, he]
    simp
  · rw [hnone]
    constructor
    · intro hfatal
      have herror := CaseStatus.isError_of_isFatal hfatal
      rw [settle_isError, isError_of_ending? hending] at herror
      cases herror
    · rintro ⟨e, he, _⟩
      cases he

/-! ## Batches of one -/

theorem batchLength_eq_one (hsize : x.config.batchSize ≤ 1) (h : ending? x c s = none) : batchLength x s = 1 := by
  have hpos := (batchLength_of_ending? h).1
  have hsize : x.config.batchSize.toNat ≤ 1 := UInt64.le_iff_toNat_le.1 hsize
  unfold batchLength at hpos ⊢
  omega

theorem results_of_one (hone : batchLength x s = 1) {d : UInt64 × Candidate} {e : MockError}
    (hd : d ∈ numbered c.nextExecution (s.worklist.take (batchLength x s)))
    (hraised : (x.run d.1 d.2).result = .error (.raised e)) : (batchResult x c s).results = [.error e] := by
  have hlength : (numbered c.nextExecution (s.worklist.take (batchLength x s))).length = 1 := by
    rw [length_numbered, length_take_batchLength, hone]
  obtain ⟨d', hd'⟩ := List.length_eq_one_iff.1 hlength
  rw [hd'] at hd
  obtain rfl := List.mem_singleton.1 hd
  have hsettled : (x.run d.1 d.2).settled? = some (.error e) := Run.settled?_eq_error.2 hraised
  have hcrashless : Crashless x.run (numbered c.nextExecution (s.worklist.take (batchLength x s))) := by
    intro d'' hd''
    rw [hd', List.mem_singleton] at hd''
    exact ⟨_, hd'' ▸ hsettled⟩
  rw [batchResult, runBatch_eq hcrashless, hd']
  simp [BatchResult.ofRuns, hsettled]

/-- With batches of one, the first error that an execution raises comes back. -/
theorem Explores.firstError_of_one {out : Campaign × Search × CaseStatus} (h : Explores x c s done results out)
    (hsize : x.config.batchSize ≤ 1) {d : UInt64 × Candidate} {e : MockError} (hd : d ∈ done)
    (hraised : (x.run d.1 d.2).result = .error (.raised e)) : results.findSome? errorOf? = some e := by
  induction h with
  | ended _ => cases hd
  | failed hending _ => rw [results_of_one (batchLength_eq_one hsize hending) hd hraised]; rfl
  | @next c c' s s' done results out hending hbatch _ ih =>
      have hnone := nextBatch_failure x c s
      rw [hbatch] at hnone
      rw [List.findSome?_append, ← hnone, Option.none_or]
      rcases List.mem_append.1 hd with hd | hd
      · -- An error in this batch would have ended the search.
        rw [results_of_one (batchLength_eq_one hsize hending) hd hraised] at hnone
        cases hnone
      · exact ih hd

end Search

namespace CampaignContext

/-- A case ends as fatal exactly if the first error that comes back from its executions is fatal, and then every
campaign report with the case says so. If batches have one candidate each, no fatal error is lost. -/
theorem runBy_isFatal (x : CampaignContext) (run : Runner) (c : Campaign) (t : TestCase) :
    ((x.runBy run c t).1.status.isFatal = true ↔
        ∃ e, (x.outcomesBy run c t).findSome? errorOf? = some e ∧ e.severity = .fatal) ∧
      (∀ report : CampaignReport, (x.runBy run c t).1 ∈ report.cases →
        (x.runBy run c t).1.status.isFatal = true → report.hasFatal = true) ∧
      (x.config.campaign.batchSize ≤ 1 → ∀ d ∈ x.performedBy run c t, ∀ e,
        (run d.1 d.2).result = .error (.raised e) → e.severity = .fatal →
          (x.runBy run c t).1.status.isFatal = true) := by
  obtain ⟨c', s', status, hexplores, hrun⟩ := x.runBy_explores run c t
  have hfirst : (x.runBy run c t).1.status.isFatal = true ↔
      ∃ e, (x.outcomesBy run c t).findSome? errorOf? = some e ∧ e.severity = .fatal := by
    rw [hrun]
    exact hexplores.isFatal_settle
  refine ⟨hfirst, fun report hr => CampaignReport.hasFatal_of_mem hr, fun hsize d hd e hraised hfatal => ?_⟩
  exact hfirst.2 ⟨e, hexplores.firstError_of_one hsize hd hraised, hfatal⟩

/-- Two executions of one batch fail. The solver's model of the second contradicts the path that it was meant
for, which is fatal, but the case ends with the error of the first. -/
theorem runBy_isFatal_masked :
    let t : TestCase := {
      name := "masked"
      body := .ofList [.act (.mock "m" Capability.intSupplier.descriptor), .act (.call "m" [] "v"),
        .branch ⟨1⟩ "v" .eq 5 (.act (.fail (.config "five"))) .skip, .branch ⟨2⟩ "v" .eq 6 .skip .skip] }
    let answer (n : Int32) : Answer := .sat (({} : Model).insert (.forCall 0 "getAsInt") (.int n))
    let x : CampaignContext := { solver := .ofReplies [answer 5, answer 7] .equality }
    (∃ d ∈ x.performedBy (t.runner x.config.mock) {} t, ∃ e,
        (t.runner x.config.mock d.1 d.2).result = .error (.raised e) ∧ e.severity = .fatal) ∧
      (x.run {} t).1.status = .failed "Configuration error: five" ∧ (x.runAll {} [t]).1.hasFatal = false := by
  intro t answer x
  let query : List Predicate := [⟨.forCall 0 "getAsInt", .int, .ne, 5⟩, ⟨.forCall 0 "getAsInt", .int, .eq, 6⟩]
  let d : UInt64 × Candidate := (2, ⟨({} : Model).insert (.forCall 0 "getAsInt") (.int 7), query⟩)
  have hd : d ∈ x.performedBy (t.runner x.config.mock) {} t := by decide +kernel
  have hraised : (t.runner x.config.mock d.1 d.2).result = .error (.raised (.inconsistent "mock0.getAsInt"
      "resolver produced 7, path requires mock0.getAsInt == 6")) := by decide +kernel
  exact ⟨⟨d, hd, _, hraised, rfl⟩, by decide +kernel, by decide +kernel⟩

end CampaignContext

end MockExplorer
