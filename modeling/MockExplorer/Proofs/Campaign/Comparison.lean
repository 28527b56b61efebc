import MockExplorer.Proofs.Campaign.Accounting
import MockExplorer.Proofs.Campaign.Scheduling
import MockExplorer.Proofs.Coverage.Oracle

/-!
# Searches over a single comparison

When every candidate of a search goes through one comparison, the first execution takes it one way, the solver finds
inputs for the other way, and nothing is left after the second execution. Where the oracle has seen the other way
before, one execution may be enough.
-/

namespace MockExplorer

/-- The run succeeds after it has decided one comparison: the predicate held at the location, with this outcome, and
the model has the inputs that were used. -/
structure Run.Decides (r : Run) (l : LocationId) (outcome : Bool) (p : Predicate) (m : Model) : Prop where
  trace : ∃ t, r.result = .ok t ∧ t.path.clauses = [⟨l, p⟩] ∧ t.model = m
  reported : .branch l outcome ∈ r.observations
  quiet : r.cancels = false

/-- The comparison fails on the inputs `first` that the candidate of every search gets, and holds on the inputs
`second` that the solver finds for it. -/
structure Exploration.Compares (x : Exploration) (l : LocationId) (p : Predicate) (first second : Model) : Prop where
  fails : ∀ id, (x.run id {}).Decides l false p.negate first
  holds : ∀ id, (x.run id ⟨second, [p]⟩).Decides l true p second
  solved : ∀ earlier, x.solver.answer earlier [p] = .sat second
  solved_negate : ∀ earlier, x.solver.answer earlier [p.negate] = .sat first
  fresh : second ≠ first ∧ second ≠ {}

theorem Predicate.negate_ne (p : Predicate) : p.negate ≠ p := by
  intro h
  have hop : p.op.negate = p.op := congrArg Predicate.op h
  cases hp : p.op <;> rw [hp] at hop <;> cases hop

namespace Search

variable {x : Exploration} {c c' : Campaign} {s s' : Search} {l : LocationId} {p : Predicate} {first second m : Model}

/-! ## One batch -/

theorem ending?_start (hc : c.cancelled = false) (hbudget : 0 < x.config.maxExecutions.toNat)
    (declared : List LocationId) : ending? x c (({} : Search).track declared) = none := by
  simp only [ending?, track, hc, Nat.lt_irrefl, decide_false, Bool.and_false, Bool.false_and, Bool.false_eq_true,
    ↓reduceIte, List.isEmpty_cons, Nat.not_le.2 hbudget]

/-- The only candidate that is left makes up a batch. -/
theorem batch_of_only {d : Candidate} (hending : ending? x c s = none) (hd : s.worklist = [d]) :
    batchLength x s = 1 ∧
      numbered c.nextExecution (s.worklist.take (batchLength x s)) = [(c.nextExecution, d)] := by
  have hpos := (batchLength_of_ending? hending).1
  have hle : batchLength x s ≤ s.worklist.length := Nat.min_le_right ..
  have hlength : batchLength x s = 1 := by
    rw [hd, List.length_singleton] at hle
    omega
  rw [hlength, hd]
  exact ⟨rfl, rfl⟩

theorem absorb_decided {t : Trace} (hclauses : t.path.clauses = [⟨l, p⟩]) (hmodel : t.model = m) :
    absorb x c s t = askFlipped x c
      { s.track [l] with inputs := s.inputs ++ [m], seen := m :: s.seen } [p.negate] := by
  have hlocations : t.locations = [l] := by
    rw [Trace.locations, hclauses]
    rfl
  have hqueries : (List.range t.path.length).filterMap t.path.flippedAt? = [[p.negate]] := by
    simp [PathCondition.length, PathCondition.flippedAt?, hclauses]
  simp only [absorb, expand, hlocations, hqueries, List.foldl_cons, List.foldl_nil, hmodel]
  rfl

theorem nextBatch_decided {d : Candidate} {outcome : Bool} (hending : ending? x c s = none) (hd : s.worklist = [d])
    (hrun : (x.run c.nextExecution d).Decides l outcome p m) :
    ∃ c₁ s₁, nextBatch x c s = ((askFlipped x c₁ s₁ [p.negate]).1, (askFlipped x c₁ s₁ [p.negate]).2, none) ∧
      c₁ = c.after [x.run c.nextExecution d] ∧
      s₁ = { s.track [l] with worklist := [], executions := s.executions + 1, inputs := s.inputs ++ [m]
                              seen := m :: s.seen } := by
  obtain ⟨t, hresult, hclauses, hmodel⟩ := hrun.trace
  obtain ⟨hlength, hbatch⟩ := batch_of_only hending hd
  have hok : Undisturbed x.run (numbered c.nextExecution (s.worklist.take (batchLength x s))) := by
    rw [hbatch]
    simp [Undisturbed, hresult, hrun.quiet, Except.isOk, Except.toBool]
  refine ⟨_, _, ?_, rfl, rfl⟩
  rw [nextBatch_takeOne hok, hlength, Function.iterate_one, takeOne_ok hd hresult, absorb_decided hclauses hmodel]
  simp only [without, track, hd, List.drop_succ_cons, List.drop_nil]

/-! ## Two executions -/

/-- After the first execution: the solver has answered, and the candidate for the other outcome waits. -/
structure Halfway (l : LocationId) (p : Predicate) (first second : Model) (c : Campaign) (s : Search) : Prop where
  waiting : s.worklist = [⟨second, [p]⟩]
  queried : s.queried = [[p]]
  seen : first ∈ s.seen
  executions : s.executions = 1
  tracked : ∀ l' ∈ s.tracked.keys, l' = l
  failed : (c.oracle.state l).has false = true
  running : c.cancelled = false

theorem has_after (c : Campaign) {r : Run} {outcome : Bool} (hr : r.Decides l outcome p m) (b : Bool)
    (h : (c.oracle.state l).has b = true ∨ b = outcome) : ((c.after [r]).oracle.state l).has b = true := by
  rw [Campaign.after, Oracle.has_observeAll]
  refine h.imp id fun hb => ?_
  subst hb
  simpa using hr.reported

theorem nextBatch_halfway (hx : x.Compares l p first second) (hc : c.cancelled = false) {declared : List LocationId}
    (hdeclared : ∀ l' ∈ declared, l' = l) (hending : ending? x c (({} : Search).track declared) = none) :
    ∃ c' s', nextBatch x c (({} : Search).track declared) = (c', s', none) ∧ Halfway l p first second c' s' := by
  have hrun := hx.fails c.nextExecution
  obtain ⟨c₁, s₁, hbatch, hc₁, hs₁⟩ := nextBatch_decided hending rfl hrun
  have hask : askFlipped x c₁ s₁ [p.negate.negate] = ({ c₁ with asked := [p] :: c₁.asked },
      { s₁ with queried := [[p]], seen := second :: s₁.seen, worklist := [⟨second, [p]⟩] }) := by
    subst hs₁
    rw [Predicate.negate_negate]
    simp [askFlipped, track, hx.solved, hx.fresh]
  refine ⟨_, _, hbatch, ?_⟩
  rw [hask]
  subst hc₁ hs₁
  refine ⟨rfl, rfl, by simp [track], rfl, fun l' hl' => ?_, has_after c hrun false (.inr rfl), ?_⟩
  · have htracked := (Tally.start declared).tracked l'
    rcases (mem_track (s := ({} : Search).track declared)).1 hl' with hold | hnew
    · exact hdeclared l' (by simpa using htracked.1 hold)
    · exact List.mem_singleton.1 hnew
  · simp [Campaign.after, hc, hrun.quiet]

theorem Halfway.nextBatch (h : Halfway l p first second c s) (hx : x.Compares l p first second)
    (hending : ending? x c s = none) :
    ∃ c' s', nextBatch x c s = (c', s', none) ∧ s'.worklist = [] ∧ s'.executions = 2 ∧ c'.cancelled = false ∧
      covered c' s' = true := by
  have hrun := hx.holds c.nextExecution
  obtain ⟨c₁, s₁, hbatch, hc₁, hs₁⟩ := nextBatch_decided hending h.waiting hrun
  have hask : askFlipped x c₁ s₁ [p.negate] = ({ c₁ with asked := [p.negate] :: c₁.asked },
      { s₁ with queried := [p.negate] :: s₁.queried }) := by
    subst hs₁
    simp [askFlipped, track, hx.solved_negate, h.queried, h.seen, p.negate_ne]
  refine ⟨_, _, hbatch, ?_⟩
  rw [hask]
  subst hc₁ hs₁
  refine ⟨rfl, congrArg (· + 1) h.executions, by simp [Campaign.after, h.running, hrun.quiet], ?_⟩
  refine covered_iff.2 fun l' hl' => ?_
  have hl : l' = l := by
    rcases (mem_track (s := s)).1 hl' with hold | hnew
    · exact h.tracked l' hold
    · exact List.mem_singleton.1 hnew
  subst hl
  refine BranchState.eq_reachedBoth_iff.2 fun outcome => has_after c hrun outcome ?_
  cases outcome with
  | true => exact .inr rfl
  | false => exact .inl h.failed

variable {done : List (UInt64 × Candidate)} {results : List (Except MockError Trace)} {status : CaseStatus}

theorem settle_of_covered (hending : ending? x c s = some status) (hc : c.cancelled = false)
    (hcovered : covered c s = true) : settle c s status = .complete := by
  rcases ending?_cases hending with ⟨_, hcancelled⟩ | ⟨rfl, _⟩ | ⟨rfl, _⟩ | ⟨rfl, _⟩
  · rw [hc] at hcancelled
    cases hcancelled
  · rfl
  · simp [settle, hcovered]
  · simp [settle, hcovered]

theorem Halfway.explores (h : Halfway l p first second c s) (hx : x.Compares l p first second)
    (hbudget : 2 ≤ x.config.maxExecutions.toNat) (hexplores : Explores x c s done results (c', s', status)) :
    settle c' s' status = .complete ∧ s'.executions ≤ 2 ∧ c'.cancelled = false := by
  cases hexplores with
  | ended hended =>
      have hone := h.executions
      refine ⟨?_, by omega, h.running⟩
      -- With a candidate left and an execution in the budget, only full coverage ends the search here.
      rcases ending?_cases hended with ⟨_, hcancelled⟩ | ⟨rfl, _⟩ | ⟨_, hspent⟩ | ⟨_, _, hempty⟩
      · rw [h.running] at hcancelled
        cases hcancelled
      · rfl
      · omega
      · rw [h.waiting] at hempty
        cases hempty
  | failed hending hbatch =>
      obtain ⟨_, _, hsecond, _⟩ := h.nextBatch hx hending
      rw [hsecond] at hbatch
      cases hbatch
  | next hending hbatch hrest =>
      obtain ⟨_, _, hsecond, hempty, htwo, hrunning, hcovered⟩ := h.nextBatch hx hending
      rw [hsecond] at hbatch
      cases hbatch
      cases hrest with
      | ended hended => exact ⟨settle_of_covered hended hrunning hcovered, Nat.le_of_eq htwo, hrunning⟩
      | failed hending _ => exact absurd hempty (ending?_none hending).2.2
      | next hending _ _ => exact absurd hempty (ending?_none hending).2.2

/-- A search over one comparison covers it, in two executions at the most. -/
theorem Explores.covers_comparison {declared : List LocationId} (hx : x.Compares l p first second)
    (hbudget : 2 ≤ x.config.maxExecutions.toNat) (hdeclared : ∀ l' ∈ declared, l' = l) (hc : c.cancelled = false)
    (h : Explores x c (({} : Search).track declared) done results (c', s', status)) :
    settle c' s' status = .complete ∧ s'.executions ≤ 2 ∧ c'.cancelled = false := by
  have hstart := ending?_start (x := x) hc (by omega) declared
  obtain ⟨c₁, s₁, hfirst, hhalf⟩ := nextBatch_halfway hx hc hdeclared hstart
  cases h with
  | ended hended => rw [hstart] at hended; cases hended
  | failed _ hbatch => rw [hfirst] at hbatch; cases hbatch
  | next _ hbatch hrest =>
      rw [hfirst] at hbatch
      cases hbatch
      exact hhalf.explores hx hbudget hrest

/-- A search whose first execution raises an error ends with that. -/
theorem Explores.fails_at_once {declared : List LocationId} {e : MockError}
    (hrun : ∀ id, (x.run id {}).result = .error (.raised e) ∧ (x.run id {}).cancels = false)
    (hbudget : 0 < x.config.maxExecutions.toNat) (hc : c.cancelled = false)
    (h : Explores x c (({} : Search).track declared) done results (c', s', status)) :
    settle c' s' status = .ofError e ∧ c'.cancelled = false := by
  have hstart := ending?_start (x := x) hc hbudget declared
  obtain ⟨hraised, hquiet⟩ := hrun c.nextExecution
  have hsettled : (x.run c.nextExecution {}).settled? = some (.error e) := Run.settled?_eq_error.2 hraised
  have hresult : batchResult x c (({} : Search).track declared) = .ofRuns [x.run c.nextExecution {}] := by
    have hbatch := (batch_of_only hstart rfl).2
    rw [batchResult, runBatch_eq, hbatch]
    · rfl
    · rw [hbatch]
      simp [Crashless, hsettled]
  have hfailure : (nextBatch x c (({} : Search).track declared)).2.2 = some e := by
    rw [nextBatch_failure, hresult]
    simp [BatchResult.ofRuns, hsettled, errorOf?]
  have hrunning : (nextBatch x c (({} : Search).track declared)).1.cancelled = false := by
    obtain ⟨asked, hcampaign⟩ := nextBatch_campaign x c (({} : Search).track declared)
    rw [hcampaign, hresult]
    simp [BatchResult.ofRuns, hc, hquiet]
  cases h with
  | ended hended => rw [hstart] at hended; cases hended
  | failed _ hbatch =>
      rw [hbatch] at hfailure hrunning
      cases hfailure
      exact ⟨settle_ofError .., hrunning⟩
  | next _ hbatch _ => rw [hbatch] at hfailure; cases hfailure

end Search

end MockExplorer
