import MockExplorer.Proofs.Campaign.Loop
import MockExplorer.Proofs.SortedMap

/-!
# What a case report accounts for

A case report counts the executions of its search, lists the inputs of those that succeeded and the branches
that were tracked. Its status agrees with these and with what the oracle has seen in the end.
-/

namespace MockExplorer

theorem Trace.mem_locations {t : Trace} {l : LocationId} :
    l ∈ t.locations ↔ ∃ cl ∈ t.path.clauses, cl.location = l := by
  simp [Trace.locations, List.mem_eraseDups]

namespace Search

variable {x : Exploration} {c c' : Campaign} {s s' : Search} {declared : List LocationId}
  {before results : List (Except MockError Trace)}

/-! ## Inputs and tracked locations -/

theorem mem_track {l : LocationId} {ls : List LocationId} :
    l ∈ (s.track ls).tracked.keys ↔ l ∈ s.tracked.keys ∨ l ∈ ls := by
  unfold track
  induction ls generalizing s with
  | nil => simp
  | cons l' ls ih =>
      have hinsert : l ∈ (s.tracked.insert l' ()).keys ↔ l ∈ s.tracked.keys ∨ l = l' := by
        rw [SortedMap.mem_keys, SortedMap.mem_keys, SortedMap.get?_insert]
        by_cases hl : l = l' <;> simp [hl]
      rw [List.foldl_cons, List.mem_cons, ← or_assoc, ← hinsert]
      exact ih (s := { s with tracked := s.tracked.insert l' () })

/-- The search lists the inputs of the traces among the results, and tracks the declared locations and those
of the traces. -/
structure Tally (declared : List LocationId) (results : List (Except MockError Trace)) (s : Search) : Prop where
  inputs : s.inputs = (results.filterMap Except.toOption).map Trace.model
  tracked : ∀ l, l ∈ s.tracked.keys ↔ l ∈ declared ∨ ∃ t, .ok t ∈ results ∧ l ∈ t.locations

theorem Tally.start (declared : List LocationId) : Tally declared [] (({} : Search).track declared) where
  inputs := rfl
  tracked l := by
    rw [mem_track]
    simp [SortedMap.keys, show (∅ : SortedMap LocationId Unit).entries = [] from rfl]

theorem Tally.error (h : Tally declared before s) (e : MockError) : Tally declared (before ++ [.error e]) s where
  inputs := by
    rw [List.filterMap_append, List.map_append]
    exact h.inputs.trans (List.append_nil _).symm
  tracked l := by simpa using h.tracked l

theorem Tally.absorb (h : Tally declared before s) (t : Trace) :
    Tally declared (before ++ [.ok t]) (absorb x c s t).2 where
  inputs := by simp [absorb_inputs, h.inputs, Except.toOption]
  tracked l := by
    rw [absorb_tracked, mem_track, h.tracked l]
    simp only [List.mem_append, List.mem_singleton, Except.ok.injEq]
    constructor
    · rintro ((hl | ⟨u, hu, hl⟩) | hl)
      · exact .inl hl
      · exact .inr ⟨u, .inl hu, hl⟩
      · exact .inr ⟨t, .inr rfl, hl⟩
    · rintro (hl | ⟨u, hu | rfl, hl⟩)
      · exact .inl (.inl hl)
      · exact .inl (.inr ⟨u, hu, hl⟩)
      · exact .inr hl

theorem Tally.absorbAll (h : Tally declared before s) {failure failure' : Option MockError}
    (hout : absorbAll x c s failure results = (c', s', failure')) : Tally declared (before ++ results) s' := by
  induction results generalizing before c s failure with
  | nil =>
      cases hout
      rwa [List.append_nil]
  | cons result results ih =>
      rw [List.append_cons]
      cases result with
      | error e => exact ih (h.error e) hout
      | ok t => exact ih (h.absorb t) hout

theorem Tally.nextBatch (h : Tally declared before s) {failure : Option MockError}
    (hout : nextBatch x c s = (c', s', failure)) :
    Tally declared (before ++ (batchResult x c s).results) s' := by
  have htaken : Tally declared before { s with
      worklist := s.worklist.drop (batchLength x s)
      executions := s.executions + (s.worklist.take (batchLength x s)).length } := ⟨h.inputs, h.tracked⟩
  exact htaken.absorbAll hout

theorem Tally.explores {done : List (UInt64 × Candidate)} {status : CaseStatus} (h : Tally declared before s)
    (hs : Explores x c s done results (c', s', status)) : Tally declared (before ++ results) s' := by
  generalize hout : (c', s', status) = out at hs
  induction hs generalizing before with
  | ended _ =>
      cases hout
      rwa [List.append_nil]
  | failed _ hbatch =>
      cases hout
      exact h.nextBatch hbatch
  | next _ hbatch _ ih =>
      rw [← List.append_assoc]
      exact ih (h.nextBatch hbatch) hout

/-! ## How the status comes about -/

theorem settle_ofError (c : Campaign) (s : Search) (e : MockError) : settle c s (.ofError e) = .ofError e := by
  unfold CaseStatus.ofError
  cases e.severity <;> rfl

theorem isError_of_ending? {status : CaseStatus} (h : ending? x c s = some status) : status.isError = false := by
  rcases ending?_cases h with ⟨rfl, _⟩ | ⟨rfl, _⟩ | ⟨rfl, _⟩ | ⟨rfl, _⟩ <;> rfl

theorem covered_of_complete {status : CaseStatus} (h : ending? x c s = some status)
    (hcomplete : settle c s status = .complete) : covered c s = true := by
  rcases ending?_cases h with ⟨rfl, _⟩ | ⟨rfl, _, hcovered⟩ | ⟨rfl, _⟩ | ⟨rfl, _⟩
  · cases hcomplete
  · exact hcovered
  · by_contra hopen
    simp [settle, hopen] at hcomplete
  · by_contra hopen
    simp [settle, hopen] at hcomplete

theorem not_covered_of_settle {status : CaseStatus}
    (h : settle c s status = .exhausted ∨ settle c s status = .budgetSpent) :
    settle c s status = status ∧ covered c s = false := by
  cases status with
  | exhausted => by_cases hcovered : covered c s = true <;> simp_all [settle]
  | budgetSpent => by_cases hcovered : covered c s = true <;> simp_all [settle]
  | _ => rcases h with h | h <;> cases h

theorem covered_iff : covered c s = true ↔ ∀ l ∈ s.tracked.keys, c.oracle.state l = .reachedBoth := by
  have hboth : ∀ state : BranchState, state.isComplete = true ↔ state = .reachedBoth := by
    intro state
    cases state <;> simp [BranchState.isComplete]
  simp [covered, Oracle.allComplete, Oracle.isComplete, hboth]

end Search

/-! ## Accounts -/

/-- A case report accounts for the executions that were taken from the worklist, for their results and for the
declared locations, under the bounds of the campaign and with the oracle as it is in the end. -/
structure CaseReport.Accounts (config : CampaignConfig) (declared : List LocationId)
    (taken : List (UInt64 × Candidate)) (results : List (Except MockError Trace)) (o : Oracle) (r : CaseReport) :
    Prop where
  executions : r.executions.toNat = taken.length
  budget : r.executions ≤ config.maxExecutions
  inputs : r.inputs = (results.filterMap Except.toOption).map Trace.model
  someInputs : r.inputs.length ≤ r.executions.toNat
  allInputs : r.status.isError = false → r.inputs.length = r.executions.toNat
  ascending : r.locations.Pairwise fun l l' => l.id < l'.id
  locations : ∀ l, l ∈ r.locations ↔
    l ∈ declared ∨ ∃ u, .ok u ∈ results ∧ ∃ cl ∈ u.path.clauses, cl.location = l
  complete : r.status = .complete → ∀ l ∈ r.locations, o.state l = .reachedBoth
  incomplete : r.status = .exhausted ∨ r.status = .budgetSpent → ∃ l ∈ r.locations, o.state l ≠ .reachedBoth
  budgetSpent : r.status = .budgetSpent → r.executions = config.maxExecutions
  exhausted : r.status = .exhausted → 1 ≤ r.executions ∧ r.executions < config.maxExecutions

namespace Search

variable {x : Exploration} {c c' : Campaign} {s s' : Search} {declared : List LocationId}
  {results : List (Except MockError Trace)}

theorem ascending_keys (m : SortedMap LocationId Unit) : m.keys.Pairwise fun l l' => l.id < l'.id :=
  List.pairwise_map.2 (m.ascending.imp fun h => compareOfLessAndEq_eq_lt.1 h)

theorem length_traces (h : ∀ result ∈ results, ∃ t, result = .ok t) :
    (results.filterMap Except.toOption).length = results.length := by
  induction results with
  | nil => rfl
  | cons result results ih =>
      obtain ⟨t, rfl⟩ := h _ (List.mem_cons_self ..)
      have hrest := ih fun result hr => h result (List.mem_cons_of_mem _ hr)
      simpa [List.filterMap_cons, Except.toOption] using hrest

/-- What comes back from each execution is its result, or word that its worker crashed. -/
theorem Explores.reports {done : List (UInt64 × Candidate)} {out : Campaign × Search × CaseStatus}
    (h : Explores x c s done results out) :
    List.Forall₂ (fun e => (x.run e.1 e.2).Reports x.name) done results := by
  induction h with
  | ended _ => exact .nil
  | failed _ _ => exact runBatch_reports ..
  | next _ _ _ ih => exact List.rel_append (runBatch_reports ..) ih

theorem Explores.stays {done : List (UInt64 × Candidate)} {out : Campaign × Search × CaseStatus}
    (h : Explores x c s done results out) (hnone : done = []) : out.2.1 = s := by
  have hsome : ∀ {c : Campaign} {s : Search}, ending? x c s = none →
      numbered c.nextExecution (s.worklist.take (batchLength x s)) ≠ [] := by
    intro c s hending hnil
    have hlength := congrArg List.length hnil
    rw [length_numbered, length_take_batchLength] at hlength
    exact absurd hlength (Nat.ne_of_gt (batchLength_of_ending? hending).1)
  cases h with
  | ended _ => rfl
  | failed hending _ => exact absurd hnone (hsome hending)
  | next hending _ _ => exact absurd (List.append_eq_nil_iff.1 hnone).1 (hsome hending)

section

variable {done : List (UInt64 × Candidate)} {status : CaseStatus}

/-- A search that does not end with an error ended for a reason that it found, and all results are traces. -/
theorem Explores.ended_of_settle (h : Explores x c s done results (c', s', status)) {final : CaseStatus}
    (hfinal : settle c' s' status = final) (herror : final.isError = false) :
    (∀ result ∈ results, ∃ t, result = .ok t) ∧ ending? x c' s' = some status := by
  rcases h.ends with ⟨e, _, rfl⟩ | ⟨hnone, hending⟩
  · rw [← hfinal, settle_ofError, CaseStatus.isError_ofError] at herror
    cases herror
  · exact ⟨fun result hr => errorOf?_eq_none.1 (List.findSome?_eq_none_iff.1 hnone result hr), hending⟩

section

variable (h : Explores x c (({} : Search).track declared) done results (c', s', status))
include h

theorem Explores.executions_eq : s'.executions = done.length ∧ done.length ≤ x.config.maxExecutions.toNat := by
  obtain ⟨hcount, hbudget⟩ := h.executions (Nat.zero_le _)
  have hdone : s'.executions = done.length := hcount.trans (Nat.zero_add _)
  exact ⟨hdone, hdone ▸ hbudget⟩

theorem Explores.toNat_executions (name : String) :
    (report c' s' name status).executions.toNat = done.length := by
  obtain ⟨hdone, hbudget⟩ := h.executions_eq
  rw [report, hdone]
  exact UInt64.toNat_ofNat_of_lt' (Nat.lt_of_le_of_lt hbudget (UInt64.toNat_lt _))

theorem Explores.length_inputs : s'.inputs.length = (results.filterMap Except.toOption).length := by
  rw [((Tally.start declared).explores h).inputs, List.length_map]
  rfl

theorem Explores.exhausted_pos (hempty : s'.worklist = []) : 0 < done.length := by
  -- A search begins with a candidate, so it runs at least that one before there is none left.
  refine List.length_pos_of_ne_nil fun hnil => ?_
  rw [show s' = _ from h.stays hnil] at hempty
  cases hempty

/-- The report of a search that has gone through all its executions accounts for them. -/
theorem Explores.accounts (name : String) :
    (report c' s' name status).Accounts x.config declared done results c'.oracle := by
  obtain ⟨hdone, hbudget⟩ := h.executions_eq
  have hexecutions := h.toNat_executions name
  have htally := (Tally.start declared).explores h
  constructor
  case executions => exact hexecutions
  case budget =>
    rw [UInt64.le_iff_toNat_le, hexecutions]
    exact hbudget
  case inputs => exact htally.inputs
  case someInputs =>
    rw [hexecutions, ← h.length_results]
    exact Nat.le_trans (Nat.le_of_eq h.length_inputs) (List.length_filterMap_le ..)
  case allInputs =>
    intro hstatus
    rw [hexecutions, ← h.length_results, ← length_traces (h.ended_of_settle rfl hstatus).1]
    exact h.length_inputs
  case ascending => exact ascending_keys _
  case locations =>
    intro l
    have htracked := htally.tracked l
    simp only [Trace.mem_locations, List.nil_append] at htracked
    exact htracked
  case complete =>
    intro hstatus
    exact covered_iff.1 (covered_of_complete (h.ended_of_settle hstatus rfl).2 hstatus)
  case incomplete =>
    intro hstatus
    have hopen := (not_covered_of_settle hstatus).2
    by_contra hall
    rw [covered_iff.2 fun l hl => by_contra fun hl' => hall ⟨l, hl, hl'⟩] at hopen
    cases hopen
  case budgetSpent =>
    intro hstatus
    have hending := (h.ended_of_settle hstatus rfl).2
    rw [← (not_covered_of_settle (.inr hstatus)).1, show settle c' s' status = _ from hstatus] at hending
    have hspent : x.config.maxExecutions.toNat ≤ s'.executions := by simpa using ending?_cases hending
    rw [← UInt64.toNat_inj, hexecutions]
    omega
  case exhausted =>
    intro hstatus
    have hending := (h.ended_of_settle hstatus rfl).2
    rw [← (not_covered_of_settle (.inl hstatus)).1, show settle c' s' status = _ from hstatus] at hending
    obtain ⟨hleft, hempty⟩ : s'.executions < x.config.maxExecutions.toNat ∧ s'.worklist = [] := by
      simpa using ending?_cases hending
    rw [UInt64.le_iff_toNat_le, UInt64.lt_iff_toNat_lt, hexecutions, ← hdone]
    exact ⟨hdone ▸ h.exhausted_pos hempty, hleft⟩

end

end

end Search

namespace CampaignContext

/-- However the candidates of a test case are run and whoever cancels meanwhile, the search of the test case
comes to its end within the rounds of its budget, and the report accounts for what was run: what came back from
each execution is its result, or word that its worker crashed. -/
theorem runBy_accounts (x : CampaignContext) (run : Runner) (c : Campaign) (t : TestCase) :
    (∀ rounds, x.config.campaign.maxExecutions.toNat ≤ rounds →
        x.exploreBy run rounds c t = x.exploreBy run x.config.campaign.maxExecutions.toNat c t) ∧
      List.Forall₂ (fun e => (run e.1 e.2).Reports t.name) (x.performedBy run c t) (x.outcomesBy run c t) ∧
      (x.runBy run c t).1.Accounts x.config.campaign (t.locations.map (·.1)) (x.performedBy run c t)
        (x.outcomesBy run c t) (x.runBy run c t).2.oracle := by
  refine ⟨fun rounds hrounds => ?_, ?_⟩
  · obtain ⟨_, _, hmore⟩ := x.exploreBy_explores run hrounds c t
    obtain ⟨_, _, henough⟩ := x.exploreBy_explores run (Nat.le_refl _) c t
    exact (hmore.unique henough).2.2
  · obtain ⟨c', s', status, hexplores, hrun⟩ := x.runBy_explores run c t
    rw [hrun]
    exact ⟨hexplores.reports, hexplores.accounts t.name⟩

end CampaignContext

end MockExplorer
