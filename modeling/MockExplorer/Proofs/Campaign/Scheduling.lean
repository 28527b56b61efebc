import MockExplorer.Proofs.Campaign.Loop
import MockExplorer.Solver.Equality
import Mathlib.Logic.Function.Iterate

/-!
# Scheduling

A search that runs its candidates in batches, on any number of workers, comes by the states of the search that
runs one candidate at a time. The settings only decide where it stops.
-/

namespace MockExplorer

/-- Every execution succeeds, and none cancels the campaign. -/
def Undisturbed (run : Runner) (executions : List (UInt64 × Candidate)) : Prop :=
  ∀ e ∈ executions, (run e.1 e.2).result.isOk = true ∧ (run e.1 e.2).cancels = false

instance (run : Runner) (executions : List (UInt64 × Candidate)) : Decidable (Undisturbed run executions) :=
  inferInstanceAs (Decidable (∀ e ∈ executions, _))

section

variable {run : Runner} {executions : List (UInt64 × Candidate)}

theorem Undisturbed.trace (h : Undisturbed run executions) {e : UInt64 × Candidate} (he : e ∈ executions) :
    ∃ t, (run e.1 e.2).result = .ok t := by
  have hok := (h e he).1
  rcases hresult : (run e.1 e.2).result with halt | t
  · rw [hresult] at hok
    cases hok
  · exact ⟨t, rfl⟩

theorem Undisturbed.crashless (h : Undisturbed run executions) : Crashless run executions := by
  intro e he
  obtain ⟨t, ht⟩ := h.trace he
  exact ⟨.ok t, Run.settled?_eq_ok.2 ht⟩

end

/-- The campaign after some runs whose traces are still to be taken in. -/
def Campaign.after (c : Campaign) (runs : List Run) : Campaign :=
  { c with
    oracle := c.oracle.observeAll (runs.flatMap (·.observations))
    nextExecution := c.nextExecution + .ofNat runs.length
    cancelled := c.cancelled || runs.any (·.cancels) }

namespace Search

variable {x y : Exploration} {c c' : Campaign} {s s' : Search}

/-- The search without the first candidates of its worklist, which count as executed. -/
def without (s : Search) (n : Nat) : Search :=
  { s with worklist := s.worklist.drop n, executions := s.executions + n }

/-- The first candidates of the worklist were run. -/
def afterRuns (runs : List Run) (p : Campaign × Search) : Campaign × Search :=
  (p.1.after runs, p.2.without runs.length)

theorem afterRuns_nil (p : Campaign × Search) : afterRuns [] p = p := by
  simp [afterRuns, Campaign.after, Oracle.observeAll, without]

theorem afterRuns_cons (r : Run) (runs : List Run) (p : Campaign × Search) :
    afterRuns (r :: runs) p = afterRuns runs (afterRuns [r] p) := by
  have hid : p.1.nextExecution + (.ofNat runs.length + 1) = p.1.nextExecution + 1 + .ofNat runs.length := by
    rw [UInt64.add_assoc, UInt64.add_comm 1]
  simp [afterRuns, Campaign.after, Oracle.observeAll, without, hid, Bool.or_assoc, Nat.add_assoc, Nat.add_comm 1]

/-! ## One query -/

/-- A campaign and its search go on: queries are logged, and candidates may be added at the end. -/
structure GoesOn (p q : Campaign × Search) : Prop where
  campaign : ∃ asked, q.1 = { p.1 with asked }
  worklist : p.2.worklist <+: q.2.worklist

theorem GoesOn.trans {p q r : Campaign × Search} (h : GoesOn p q) (h' : GoesOn q r) : GoesOn p r where
  campaign := by
    obtain ⟨_, hq⟩ := h.campaign
    obtain ⟨asked, hr⟩ := h'.campaign
    exact ⟨asked, by rw [hr, hq]⟩
  worklist := h.worklist.trans h'.worklist

theorem askFlipped_goesOn (x : Exploration) (c : Campaign) (s : Search) (query : List Predicate) :
    GoesOn (c, s) (askFlipped x c s query) := by
  rw [askFlipped_eq]
  split
  · exact ⟨⟨c.asked, rfl⟩, List.prefix_rfl⟩
  · refine ⟨⟨query :: c.asked, rfl⟩, ?_⟩
    cases x.solver.answer c.asked query with
    | sat m =>
        simp only [answered]
        split
        · exact List.prefix_rfl
        · exact List.prefix_append ..
    | unsat => exact List.prefix_rfl
    | unknown reason => exact List.prefix_rfl

theorem answered_without {n : Nat} (h : n ≤ s.worklist.length) (query : List Predicate) (a : Answer) :
    (s.without n).answered query a = (s.answered query a).without n := by
  cases a with
  | sat m =>
      by_cases hm : m ∈ s.seen
      · simp [answered, without, hm]
      · simp [answered, without, hm, List.drop_append_of_le_length h]
  | unsat => rfl
  | unknown reason => rfl

theorem askFlipped_afterRuns (x : Exploration) {runs : List Run} (h : runs.length ≤ s.worklist.length)
    (query : List Predicate) :
    askFlipped x (c.after runs) (s.without runs.length) query = afterRuns runs (askFlipped x c s query) := by
  rw [askFlipped_eq, askFlipped_eq]
  by_cases hold : query ∈ s.queried
  · rw [if_pos hold, if_pos (show query ∈ (s.without runs.length).queried from hold)]
    rfl
  · rw [if_neg hold, if_neg (show query ∉ (s.without runs.length).queried from hold), answered_without h]
    rfl

/-! ## One trace -/

section

variable (x : Exploration) (c : Campaign) (s : Search) (t : Trace)

theorem absorb_goesOn : GoesOn (c, s) (absorb x c s t) := by
  have hall : ∀ (queries : List (List Predicate)) (p : Campaign × Search), GoesOn p (askAll x queries p) := by
    intro queries
    induction queries with
    | nil => exact fun p => ⟨⟨p.1.asked, rfl⟩, List.prefix_rfl⟩
    | cons query queries ih => exact fun p => (askFlipped_goesOn x p.1 p.2 query).trans (ih _)
  rw [absorb, expand_eq]
  obtain ⟨hcampaign, hworklist⟩ := hall _ _
  exact ⟨hcampaign, hworklist⟩

variable {c s} in
/-- It does not matter to a trace that is taken in which of the waiting candidates were run meanwhile. -/
theorem absorb_afterRuns {runs : List Run} (h : runs.length ≤ s.worklist.length) :
    absorb x (c.after runs) (s.without runs.length) t = afterRuns runs (absorb x c s t) := by
  have hall : ∀ (queries : List (List Predicate)) (p : Campaign × Search), runs.length ≤ p.2.worklist.length →
      askAll x queries (afterRuns runs p) = afterRuns runs (askAll x queries p) := by
    intro queries
    induction queries with
    | nil => exact fun p _ => rfl
    | cons query queries ih =>
        intro p hp
        have hgrown := (askFlipped_goesOn x p.1 p.2 query).worklist.length_le
        have hfirst := askFlipped_afterRuns (c := p.1) x hp query
        calc askAll x (query :: queries) (afterRuns runs p)
            = askAll x queries (afterRuns runs (askFlipped x p.1 p.2 query)) := congrArg (askAll x queries) hfirst
          _ = afterRuns runs (askAll x (query :: queries) p) := ih _ (Nat.le_trans hp hgrown)
  exact hall _ (c, { s.track t.locations with
    inputs := (s.track t.locations).inputs ++ [t.model], seen := t.model :: (s.track t.locations).seen }) h

end

/-! ## One candidate at a time -/

/-- Runs the first candidate of the worklist and takes in its trace. -/
def takeOne (x : Exploration) (p : Campaign × Search) : Campaign × Search :=
  match p.2.worklist with
  | [] => p
  | d :: _ =>
    match (x.run p.1.nextExecution d).result with
    | .ok t => absorb x (p.1.after [x.run p.1.nextExecution d]) (p.2.without 1) t
    | .error _ => p

theorem takeOne_congr (hrun : x.run = y.run) (hsolver : x.solver = y.solver) : takeOne x = takeOne y := by
  obtain ⟨_, _, _, _, _⟩ := x
  obtain ⟨_, _, _, _, _⟩ := y
  cases hrun
  cases hsolver
  rfl

section

variable {d : Candidate} {ds : List Candidate} {t : Trace} (hd : s.worklist = d :: ds)
  (ht : (x.run c.nextExecution d).result = .ok t)
include hd ht

theorem takeOne_ok :
    takeOne x (c, s) = absorb x (c.after [x.run c.nextExecution d]) (s.without 1) t := by
  simp [takeOne, hd, ht]

theorem takeOne_next :
    (takeOne x (c, s)).1.nextExecution = c.nextExecution + 1 ∧ ds <+: (takeOne x (c, s)).2.worklist := by
  obtain ⟨⟨asked, hcampaign⟩, hworklist⟩ := absorb_goesOn x (c.after [x.run c.nextExecution d]) (s.without 1) t
  rw [takeOne_ok hd ht]
  refine ⟨by rw [hcampaign]; rfl, ?_⟩
  rwa [show (s.without 1).worklist = ds by simp [without, hd]] at hworklist

theorem takeOne_ahead {more : List Run} (hmore : more.length ≤ ds.length) :
    absorb x (c.after (x.run c.nextExecution d :: more)) (s.without (more.length + 1)) t =
      afterRuns more (takeOne x (c, s)) := by
  have hroom : more.length ≤ (s.without 1).worklist.length := by simpa [without, hd] using hmore
  rw [takeOne_ok hd ht, ← absorb_afterRuns x t hroom]
  exact congrArg (fun q : Campaign × Search => absorb x q.1 q.2 t)
    (afterRuns_cons (x.run c.nextExecution d) more (c, s))

end

theorem takeOne_inputs (x : Exploration) (p : Campaign × Search) : p.2.inputs <+: (takeOne x p).2.inputs := by
  unfold takeOne
  split
  · exact List.prefix_rfl
  · split
    · rw [absorb_inputs]
      exact List.prefix_append ..
    · exact List.prefix_rfl

theorem iterate_takeOne_inputs (x : Exploration) (n : Nat) (p : Campaign × Search) :
    p.2.inputs <+: ((takeOne x)^[n] p).2.inputs := by
  induction n with
  | zero => exact List.prefix_rfl
  | succ n ih =>
      rw [Function.iterate_succ_apply']
      exact ih.trans (takeOne_inputs x _)

/-! ## One batch -/

/-- To run candidates ahead and then take in their traces comes to the same as to take one at a time. -/
theorem absorbAll_ahead {ds : List Candidate} (hds : ds <+: s.worklist)
    (hok : Undisturbed x.run (numbered c.nextExecution ds)) {runs : List Run}
    (hruns : runs = (numbered c.nextExecution ds).map fun e => x.run e.1 e.2) :
    absorbAll x (c.after runs) (s.without runs.length) none (runs.filterMap Run.settled?) =
      (((takeOne x)^[ds.length] (c, s)).1, ((takeOne x)^[ds.length] (c, s)).2, none) := by
  induction ds generalizing c s runs with
  | nil =>
      subst hruns
      exact congrArg (fun q : Campaign × Search => (q.1, q.2, none)) (afterRuns_nil (c, s))
  | cons d ds ih =>
      obtain ⟨rest, hrest⟩ := hds
      have hd : s.worklist = d :: (ds ++ rest) := hrest.symm
      obtain ⟨t, ht⟩ := hok.trace (List.mem_cons_self (a := (c.nextExecution, d)))
      obtain ⟨hid, hnext⟩ := takeOne_next hd ht
      let more := (numbered (c.nextExecution + 1) ds).map fun e => x.run e.1 e.2
      have hmore : more.length ≤ (ds ++ rest).length := by simp [more, length_numbered]
      have hsettled : (x.run c.nextExecution d).settled? = some (.ok t) := Run.settled?_eq_ok.2 ht
      have hresults : runs.filterMap Run.settled? = .ok t :: more.filterMap Run.settled? := by
        rw [hruns, numbered, List.map_cons, List.filterMap_cons_some hsettled]
      have hahead : absorb x (c.after runs) (s.without runs.length) t = afterRuns more (takeOne x (c, s)) := by
        rw [hruns]
        exact takeOne_ahead hd ht hmore
      -- The first trace is taken in behind all these runs, which comes to the same as right after its own run.
      rw [hresults, absorbAll, hahead, List.length_cons, Function.iterate_succ_apply]
      refine ih (List.IsPrefix.trans (List.prefix_append ..) hnext) ?_ (by rw [hid])
      rw [hid]
      exact fun e he => hok e (List.mem_cons_of_mem _ he)

/-- A batch in which all goes well comes to as many single candidates. -/
theorem nextBatch_takeOne
    (hok : Undisturbed x.run (numbered c.nextExecution (s.worklist.take (batchLength x s)))) :
    nextBatch x c s =
      (((takeOne x)^[batchLength x s] (c, s)).1, ((takeOne x)^[batchLength x s] (c, s)).2, none) := by
  have hahead := absorbAll_ahead (List.take_prefix ..) hok rfl
  rw [List.length_map, length_numbered, length_take_batchLength] at hahead
  rw [← hahead]
  simp only [nextBatch, runBatch_eq hok.crashless, length_take_batchLength]
  simp only [BatchResult.ofRuns, Campaign.after, without, List.length_map, length_numbered, length_take_batchLength]

theorem absorbAll_campaign (x : Exploration) (c : Campaign) (s : Search) (failure : Option MockError)
    (results : List (Except MockError Trace)) :
    ∃ asked, (absorbAll x c s failure results).1 = { c with asked } := by
  induction results generalizing c s failure with
  | nil => exact ⟨c.asked, rfl⟩
  | cons result results ih =>
      cases result with
      | error e => exact ih ..
      | ok t =>
          obtain ⟨_, hcampaign⟩ := (absorb_goesOn x c s t).campaign
          obtain ⟨asked, hrest⟩ := ih (absorb x c s t).1 (absorb x c s t).2 failure
          exact ⟨asked, by rw [absorbAll, hrest, hcampaign]⟩

/-- What a batch does to the campaign. -/
theorem nextBatch_campaign (x : Exploration) (c : Campaign) (s : Search) :
    ∃ asked, (nextBatch x c s).1 = { c with
      oracle := c.oracle.observeAll (batchResult x c s).observations
      nextExecution := c.nextExecution + .ofNat (s.worklist.take (batchLength x s)).length
      cancelled := c.cancelled || (batchResult x c s).cancels
      asked } :=
  absorbAll_campaign ..

theorem nextBatch_cancelled (hok : Undisturbed x.run (numbered c.nextExecution (s.worklist.take (batchLength x s)))) :
    (nextBatch x c s).1.cancelled = c.cancelled := by
  have hnone : ((numbered c.nextExecution (s.worklist.take (batchLength x s))).map fun e => x.run e.1 e.2).any
      (·.cancels) = false := by
    rw [List.any_map, List.any_eq_false]
    exact fun e he => by simp [(hok e he).2]
  obtain ⟨asked, hcampaign⟩ := nextBatch_campaign x c s
  rw [hcampaign, batchResult, runBatch_eq hok.crashless]
  simp [BatchResult.ofRuns, hnone]

/-! ## Whole searches -/

section

variable {done : List (UInt64 × Candidate)} {results : List (Except MockError Trace)} {status : CaseStatus}

/-- A search in which all goes well gets to where it would have got one candidate at a time, and stops there for
a reason other than a failure. -/
theorem Explores.sequential (h : Explores x c s done results (c', s', status)) (hok : Undisturbed x.run done) :
    (takeOne x)^[done.length] (c, s) = (c', s') ∧ c'.cancelled = c.cancelled ∧ ending? x c' s' = some status := by
  generalize hout : (c', s', status) = out at h
  induction h with
  | ended h =>
      cases hout
      exact ⟨rfl, rfl, h⟩
  | failed h hbatch =>
      rw [nextBatch_takeOne hok] at hbatch
      cases hbatch
  | @next c₀ c₁ s₀ s₁ done results out h hbatch _ ih =>
      have hnow : Undisturbed x.run (numbered c₀.nextExecution (s₀.worklist.take (batchLength x s₀))) :=
        fun e he => hok e (List.mem_append_left _ he)
      obtain ⟨hrest, hcancelled, hending⟩ := ih (fun e he => hok e (List.mem_append_right _ he)) hout
      have hkept := nextBatch_cancelled hnow
      rw [hbatch] at hkept
      rw [nextBatch_takeOne hnow] at hbatch
      cases hbatch
      refine ⟨?_, hcancelled.trans hkept, hending⟩
      rw [List.length_append, length_numbered, length_take_batchLength, Nat.add_comm, Function.iterate_add_apply]
      exact hrest

theorem Explores.not_cancelled (h : Explores x c s done results (c', s', status)) (hdone : 0 < done.length) :
    c.cancelled = false := by
  cases h with
  | ended _ => cases hdone
  | failed h _ => exact (ending?_none h).1
  | next h _ _ => exact (ending?_none h).1

end

/-! ## Two searches from one point -/

section

variable {done done' : List (UInt64 × Candidate)} {results results' : List (Except MockError Trace)}
  {c'' : Campaign} {s'' : Search} {status status' : CaseStatus}
  (hx : Explores x c s done results (c', s', status)) (hy : Explores y c s done' results' (c'', s'', status'))
  (hokx : Undisturbed x.run done) (hoky : Undisturbed y.run done') (hsame : takeOne x = takeOne y)
include hx hy hokx hoky hsame

/-- The longer search goes on from where the other one stops. -/
theorem Explores.goesOn (hle : done.length ≤ done'.length) :
    (takeOne y)^[done'.length - done.length] (c', s') = (c'', s'') := by
  rw [← (hx.sequential hokx).1, ← (hy.sequential hoky).1, hsame, ← Function.iterate_add_apply, Nat.sub_add_cancel hle]

theorem Explores.inputs_prefix (hle : done.length ≤ done'.length) : s'.inputs <+: s''.inputs := by
  have hinputs := iterate_takeOne_inputs y (done'.length - done.length) (c', s')
  rwa [hx.goesOn hy hokx hoky hsame hle] at hinputs

theorem Explores.length_le (hgo : x.config.stopWhenComplete = false)
    (hmax : x.config.maxExecutions = y.config.maxExecutions)
    (hbudget : s.executions ≤ x.config.maxExecutions.toNat) : done'.length ≤ done.length := by
  by_contra hshort
  have hlt : done.length < done'.length := Nat.lt_of_not_le hshort
  obtain ⟨_, hcancelled, hending⟩ := hx.sequential hokx
  have hstatus : status ≠ .cancelled := by
    rintro rfl
    have hstop : c'.cancelled = true := by simpa using ending?_cases hending
    rw [hcancelled, hy.not_cancelled (Nat.zero_lt_of_lt hlt)] at hstop
    cases hstop
  have hcount := (hx.executions hbudget).1
  obtain ⟨hcount', hspent⟩ := hy.executions (hmax ▸ hbudget)
  have hempty : s'.worklist = [] := worklist_of_ending? hgo (by rw [hmax]; omega) hending hstatus
  -- The search stopped for want of candidates, so there was nothing to go on with.
  have hstays : takeOne y (c', s') = (c', s') := by simp [takeOne, hempty]
  have hahead := hx.goesOn hy hokx hoky hsame (Nat.le_of_lt hlt)
  rw [Function.iterate_fixed hstays] at hahead
  cases hahead
  omega

theorem Explores.same (hgo : x.config.stopWhenComplete = false) (hgo' : y.config.stopWhenComplete = false)
    (hmax : x.config.maxExecutions = y.config.maxExecutions)
    (hbudget : s.executions ≤ x.config.maxExecutions.toNat) : (c', s', status) = (c'', s'', status') := by
  have hlength : done'.length = done.length :=
    Nat.le_antisymm (hx.length_le hy hokx hoky hsame hgo hmax hbudget)
      (hy.length_le hx hoky hokx hsame.symm hgo' hmax.symm (hmax ▸ hbudget))
  have hahead := hx.goesOn hy hokx hoky hsame (Nat.le_of_eq hlength.symm)
  rw [hlength, Nat.sub_self] at hahead
  cases hahead
  have hreason : ending? x c' s' = ending? y c' s' := by simp [ending?, hgo, hgo', hmax]
  rw [(hx.sequential hokx).2.2, (hy.sequential hoky).2.2] at hreason
  cases hreason
  rfl

end

end Search

namespace CampaignContext

/-- Let two campaigns differ in their settings and explore a test case from the same state. If all executions
succeed and none cancels, one goes through the inputs of the other and possibly on to more. If neither stops at full
coverage and their budgets are the same, they report the same and leave the same state behind, the oracle
included. -/
theorem runBy_scheduling (x y : CampaignContext) (hsolver : x.solver = y.solver) (run : Runner) (c : Campaign)
    (t : TestCase) (hx : Undisturbed run (x.performedBy run c t)) (hy : Undisturbed run (y.performedBy run c t)) :
    ((x.runBy run c t).1.inputs <+: (y.runBy run c t).1.inputs ∨
        (y.runBy run c t).1.inputs <+: (x.runBy run c t).1.inputs) ∧
      (x.config.campaign.stopWhenComplete = false → y.config.campaign.stopWhenComplete = false →
        x.config.campaign.maxExecutions = y.config.campaign.maxExecutions → x.runBy run c t = y.runBy run c t) := by
  obtain ⟨c', s', status, hex, hrx⟩ := x.runBy_explores run c t
  obtain ⟨c'', s'', status', hey, hry⟩ := y.runBy_explores run c t
  have hsame : Search.takeOne (x.explorationBy run t) = Search.takeOne (y.explorationBy run t) :=
    Search.takeOne_congr rfl hsolver
  rw [hrx, hry]
  refine ⟨?_, fun hgo hgo' hmax => ?_⟩
  · rcases Nat.le_total (x.performedBy run c t).length (y.performedBy run c t).length with hle | hle
    · exact .inl (hex.inputs_prefix hey hx hy hsame hle)
    · exact .inr (hey.inputs_prefix hex hy hx hsame.symm hle)
  · have hend := hex.same hey hx hy hsame hgo hgo' hmax (Nat.zero_le _)
    cases hend
    rfl

/-- Three executions, one at a time, or the last two in one batch that two workers share. -/
theorem runBy_scheduling_batches :
    let t : TestCase := {
      name := "two branches"
      body := .ofList [.act (.mock "m" Capability.intSupplier.descriptor), .act (.call "m" [] "v"),
        .branch ⟨1⟩ "v" .eq 5 .skip .skip, .branch ⟨2⟩ "v" .ne 7 .skip .skip] }
    let x : CampaignContext := {
      config := { campaign := { batchSize := 0, stopWhenComplete := false } }, solver := .equality }
    let y : CampaignContext := {
      config := { campaign := { batchSize := 8, workers := 2, stopWhenComplete := false } }, solver := .equality }
    Undisturbed (t.runner {}) (x.performedBy (t.runner {}) {} t) ∧
      Undisturbed (t.runner {}) (y.performedBy (t.runner {}) {} t) ∧
      (x.run {} t).1.executions = 3 ∧ x.run {} t = y.run {} t := by
  intro t x y
  have hx : Undisturbed (t.runner {}) (x.performedBy (t.runner {}) {} t) := by decide +kernel
  have hy : Undisturbed (t.runner {}) (y.performedBy (t.runner {}) {} t) := by decide +kernel
  exact ⟨hx, hy, by decide +kernel, (runBy_scheduling x y rfl (t.runner {}) {} t hx hy).2 rfl rfl rfl⟩

end CampaignContext

end MockExplorer
