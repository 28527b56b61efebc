import MockExplorer.Campaign.Search
import MockExplorer.Proofs.Campaign.Batch

/-!
# What a search has tried

A search forgets neither a query nor a model: every sibling path of an execution that it took in was asked
for, and every model that came back was run, waits to be run, or is what some execution used.
-/

namespace MockExplorer

theorem CaseStatus.isError_ofError (e : MockError) : (CaseStatus.ofError e).isError = true := by
  unfold CaseStatus.ofError
  cases e.severity <;> rfl

namespace Search

/-- The executions of a search from some point on, with their numbers. -/
def performed (x : Exploration) : (rounds : Nat) → Campaign → Search → List (UInt64 × Candidate)
  | rounds, c, s =>
    match ending? x c s with
    | some _ => []
    | none =>
      match rounds with
      | 0 => []
      | rounds + 1 =>
        numbered c.nextExecution (s.worklist.take (batchLength x s)) ++
          match nextBatch x c s with
          | (_, _, some _) => []
          | (c, s, none) => performed x rounds c s

/-! ## The invariant -/

/-- The candidate was run or waits to be run. -/
def Planned (done : List (UInt64 × Candidate)) (s : Search) (c : Candidate) : Prop :=
  c ∈ s.worklist ∨ c ∈ done.map Prod.snd

/-- The invariant of a search whose solver answers by `f` and whose executions so far are `done`; `Q` holds
of every candidate. -/
structure Frontier (x : Exploration) (f : List Predicate → Answer) (Q : Candidate → Prop)
    (done : List (UInt64 × Candidate)) (s : Search) : Prop where
  origin : Planned done s {}
  sprung : ∀ c, Planned done s c → Q c
  answered : ∀ query ∈ s.queried, ∀ m, f query = .sat m → m ∈ s.seen
  known : ∀ m ∈ s.seen, (∃ c, Planned done s c ∧ c.model = m) ∨
    ∃ e ∈ done, ∃ t, (x.run e.1 e.2).result = .ok t ∧ t.model = m

/-- The execution succeeded, and every sibling path of its path was asked for. -/
def Expanded (run : Runner) (s : Search) (e : UInt64 × Candidate) : Prop :=
  ∃ t, (run e.1 e.2).result = .ok t ∧ ∀ i query, t.path.flippedAt? i = some query → query ∈ s.queried

section

variable {x : Exploration} {f : List Predicate → Answer} {Q : Candidate → Prop}
  {done : List (UInt64 × Candidate)} {c c' : Campaign} {s s' : Search} {e : UInt64 × Candidate}

theorem Expanded.mono {run : Runner} (h : Expanded run s e) (hs : s.queried ⊆ s'.queried) : Expanded run s' e := by
  obtain ⟨t, ht, hflips⟩ := h
  exact ⟨t, ht, fun i query hq => hs (hflips i query hq)⟩

theorem Planned.mono {d : Candidate} (h : Planned done s d) (hs : s.worklist ⊆ s'.worklist) : Planned done s' d :=
  h.imp_left fun hd => hs hd

theorem Frontier.start (ls : List LocationId) (hQ : Q {}) : Frontier x f Q [] (({} : Search).track ls) where
  origin := .inl (List.mem_singleton_self _)
  sprung d hd := by
    rcases hd with hd | hd
    · obtain rfl := List.mem_singleton.1 hd
      exact hQ
    · cases hd
  answered query hq := by cases hq
  known m hm := by
    obtain rfl := List.mem_singleton.1 hm
    exact .inl ⟨{}, .inl (List.mem_singleton_self _), rfl⟩

/-! ## One query -/

/-- The search once a query has its answer. -/
def answered (s : Search) (query : List Predicate) : Answer → Search
  | .sat m =>
    if m ∈ s.seen then { s with queried := query :: s.queried }
    else { s with queried := query :: s.queried, seen := m :: s.seen, worklist := s.worklist ++ [⟨m, query⟩] }
  | _ => { s with queried := query :: s.queried }

theorem askFlipped_eq (x : Exploration) (c : Campaign) (s : Search) (query : List Predicate) :
    askFlipped x c s query =
      if query ∈ s.queried then (c, s)
      else ({ c with asked := query :: c.asked }, s.answered query (x.solver.answer c.asked query)) := by
  unfold askFlipped
  split
  · rfl
  · cases x.solver.answer c.asked query with
    | sat m => by_cases hm : m ∈ s.seen <;> simp [answered, hm]
    | unsat => rfl
    | unknown reason => rfl

/-- What asking for a sibling path does to the search. -/
theorem askFlipped_cases (x : Exploration) (c : Campaign) (s : Search) (query : List Predicate) :
    (query ∈ s.queried ∧ (askFlipped x c s query).2 = s) ∨
      (∃ m, x.solver.answer c.asked query = .sat m ∧ (askFlipped x c s query).2 =
        { s with queried := query :: s.queried, seen := m :: s.seen, worklist := s.worklist ++ [⟨m, query⟩] }) ∨
      ((∀ m, x.solver.answer c.asked query = .sat m → m ∈ s.seen) ∧
        (askFlipped x c s query).2 = { s with queried := query :: s.queried }) := by
  rw [askFlipped_eq]
  split
  · exact .inl ⟨‹_›, rfl⟩
  · right
    cases x.solver.answer c.asked query with
    | sat m =>
        by_cases hm : m ∈ s.seen
        · refine .inr ⟨fun m' hm' => ?_, by simp [answered, hm]⟩
          cases hm'
          exact hm
        · exact .inl ⟨m, rfl, by simp [answered, hm]⟩
    | unsat => exact .inr ⟨nofun, rfl⟩
    | unknown reason => exact .inr ⟨nofun, rfl⟩

theorem Frontier.askFlipped (h : Frontier x f Q done s)
    (hf : ∀ earlier query, x.solver.answer earlier query = f query) {query : List Predicate}
    (hQ : ∀ m, f query = .sat m → Q ⟨m, query⟩) :
    Frontier x f Q done (askFlipped x c s query).2 ∧
      query :: s.queried ⊆ (Search.askFlipped x c s query).2.queried := by
  have hcases := askFlipped_cases x c s query
  rw [hf] at hcases
  rcases hcases with ⟨hold, heq⟩ | ⟨m, hm, heq⟩ | ⟨hsat, heq⟩
  · rw [heq]
    exact ⟨h, List.cons_subset.2 ⟨hold, List.Subset.refl _⟩⟩
  · rw [heq]
    -- The model is new: it joins the models seen, and its candidate the worklist.
    have hold : ∀ {d}, Planned done s d → Planned done { s with worklist := s.worklist ++ [⟨m, query⟩] } d :=
      fun hd => hd.mono (List.subset_append_left ..)
    refine ⟨⟨hold h.origin, fun d hd => ?_, fun query' hq m' hm' => ?_, fun m' hm' => ?_⟩, List.Subset.refl _⟩
    · rcases hd with hd | hd
      · rcases List.mem_append.1 hd with hd | hd
        · exact h.sprung d (.inl hd)
        · obtain rfl := List.mem_singleton.1 hd
          exact hQ m hm
      · exact h.sprung d (.inr hd)
    · rcases List.mem_cons.1 hq with rfl | hq
      · rw [hm] at hm'
        cases hm'
        exact List.mem_cons_self ..
      · exact List.mem_cons_of_mem _ (h.answered query' hq m' hm')
    · rcases List.mem_cons.1 hm' with rfl | hm'
      · exact .inl ⟨⟨m', query⟩, .inl (List.mem_append_right _ (List.mem_singleton_self _)), rfl⟩
      · rcases h.known m' hm' with ⟨d, hd, hmodel⟩ | hused
        · exact .inl ⟨d, hold hd, hmodel⟩
        · exact .inr hused
  · rw [heq]
    refine ⟨⟨h.origin, h.sprung, fun query' hq m hm => ?_, h.known⟩, List.Subset.refl _⟩
    rcases List.mem_cons.1 hq with rfl | hq
    · exact hsat m hm
    · exact h.answered query' hq m hm

/-! ## One trace -/

def askAll (x : Exploration) (queries : List (List Predicate)) (p : Campaign × Search) : Campaign × Search :=
  queries.foldl (fun p query => askFlipped x p.1 p.2 query) p

theorem expand_eq (x : Exploration) (c : Campaign) (s : Search) (t : Trace) :
    expand x c s t = askAll x ((List.range t.path.length).filterMap t.path.flippedAt?)
      (c, { s with seen := t.model :: s.seen }) := rfl

theorem Frontier.askAll (h : Frontier x f Q done s)
    (hf : ∀ earlier query, x.solver.answer earlier query = f query) {queries : List (List Predicate)}
    (hQ : ∀ query ∈ queries, ∀ m, f query = .sat m → Q ⟨m, query⟩) :
    Frontier x f Q done (askAll x queries (c, s)).2 ∧
      queries ++ s.queried ⊆ (Search.askAll x queries (c, s)).2.queried := by
  induction queries generalizing c s with
  | nil => exact ⟨h, List.Subset.refl _⟩
  | cons query queries ih =>
      obtain ⟨hnext, hasked⟩ := h.askFlipped (c := c) hf (hQ query (List.mem_cons_self ..))
      obtain ⟨hlast, hall⟩ := ih (c := (Search.askFlipped x c s query).1) hnext
        fun query' hq => hQ query' (List.mem_cons_of_mem _ hq)
      refine ⟨hlast, fun query' hq => hall ?_⟩
      rcases List.mem_cons.1 hq with rfl | hq
      · exact List.mem_append_right _ (hasked (List.mem_cons_self ..))
      · rcases List.mem_append.1 hq with hq | hq
        · exact List.mem_append_left _ hq
        · exact List.mem_append_right _ (hasked (List.mem_cons_of_mem _ hq))

/-- Candidates are passed on from a path to its siblings. -/
def Flips (x : Exploration) (f : List Predicate → Answer) (Q : Candidate → Prop) : Prop :=
  ∀ (e : UInt64 × Candidate) (t : Trace) (i : Nat) (query : List Predicate) (m : Model), Q e.2 →
    (x.run e.1 e.2).result = .ok t → t.path.flippedAt? i = some query → f query = .sat m → Q ⟨m, query⟩

theorem Frontier.absorb (h : Frontier x f Q done s)
    (hf : ∀ earlier query, x.solver.answer earlier query = f query) (hQ : Flips x f Q) {t : Trace} (he : e ∈ done)
    (ht : (x.run e.1 e.2).result = .ok t) :
    Frontier x f Q done (absorb x c s t).2 ∧ Expanded x.run (Search.absorb x c s t).2 e ∧
      s.queried ⊆ (Search.absorb x c s t).2.queried := by
  have hused : Frontier x f Q done { s.track t.locations with
      inputs := (s.track t.locations).inputs ++ [t.model], seen := t.model :: (s.track t.locations).seen } := by
    refine ⟨h.origin, h.sprung, fun query hq m hm => List.mem_cons_of_mem _ (h.answered query hq m hm),
      fun m hm => ?_⟩
    rcases List.mem_cons.1 hm with rfl | hm
    · exact .inr ⟨e, he, t, ht, rfl⟩
    · exact h.known m hm
  have hsprung : Q e.2 := h.sprung e.2 (.inr (List.mem_map_of_mem he))
  have hsiblings : ∀ query ∈ (List.range t.path.length).filterMap t.path.flippedAt?,
      ∀ m, f query = .sat m → Q ⟨m, query⟩ := by
    intro query hq m hm
    obtain ⟨i, _, hi⟩ := List.mem_filterMap.1 hq
    exact hQ e t i query m hsprung ht hi hm
  obtain ⟨hall, hasked⟩ := hused.askAll (c := c) hf hsiblings
  refine ⟨hall, ⟨t, ht, fun i query hq => hasked (List.mem_append_left _ ?_)⟩,
    fun query hq => hasked (List.mem_append_right _ hq)⟩
  obtain ⟨cl, hcl, _⟩ := Option.map_eq_some_iff.1 hq
  have hi : i < t.path.length := (List.getElem?_eq_some_iff.1 hcl).1
  exact List.mem_filterMap.2 ⟨i, List.mem_range.2 hi, hq⟩

/-! ## One batch -/

/-- The first error stays, so without one in the end all results are traces. -/
theorem absorbAll_ok {failure : Option MockError} {results : List (Except MockError Trace)}
    (h : absorbAll x c s failure results = (c', s', none)) :
    failure = none ∧ ∀ result ∈ results, ∃ t, result = .ok t := by
  induction results generalizing c s failure with
  | nil =>
      refine ⟨?_, fun result hr => by cases hr⟩
      simpa [absorbAll] using congrArg (fun out => out.2.2) h
  | cons result results ih =>
      cases result with
      | error e =>
          have hfailure := (ih h).1
          cases failure <;> simp at hfailure
      | ok t =>
          obtain ⟨hfailure, hall⟩ := ih h
          refine ⟨hfailure, fun result hr => ?_⟩
          rcases List.mem_cons.1 hr with rfl | hr
          · exact ⟨t, rfl⟩
          · exact hall result hr

theorem Frontier.absorbAll (h : Frontier x f Q done s)
    (hf : ∀ earlier query, x.solver.answer earlier query = f query) (hQ : Flips x f Q)
    {es : List (UInt64 × Candidate)} {results : List (Except MockError Trace)} (hsettles : Settles x.run es results)
    (hdone : es ⊆ done) (hout : absorbAll x c s none results = (c', s', none)) :
    Frontier x f Q done s' ∧ (∀ e ∈ es, Expanded x.run s' e) ∧ s.queried ⊆ s'.queried := by
  induction hsettles generalizing c s with
  | nil =>
      cases hout
      exact ⟨h, fun e he => by (cases he), List.Subset.refl _⟩
  | @cons e result es results hsettled _ ih =>
      obtain ⟨t, rfl⟩ := (absorbAll_ok hout).2 result (List.mem_cons_self ..)
      have ht := Run.settled?_eq_ok.1 hsettled
      obtain ⟨hnext, hexpanded, hasked⟩ := h.absorb (c := c) hf hQ (hdone (List.mem_cons_self ..)) ht
      obtain ⟨hlast, hall, hgrown⟩ := ih hnext (fun e he => hdone (List.mem_cons_of_mem _ he)) hout
      refine ⟨hlast, fun e' he' => ?_, fun query hq => hgrown (hasked hq)⟩
      rcases List.mem_cons.1 he' with rfl | he'
      · exact hexpanded.mono hgrown
      · exact hall e' he'

/-- Candidates that are run leave the worklist. -/
theorem planned_take (done : List (UInt64 × Candidate)) (s : Search) (id : UInt64) (n executions : Nat)
    (d : Candidate) :
    Planned (done ++ numbered id (s.worklist.take n))
      { s with worklist := s.worklist.drop n, executions := executions } d ↔ Planned done s d := by
  unfold Planned
  rw [List.map_append, map_snd_numbered, List.mem_append]
  conv_rhs => rw [← List.take_append_drop n s.worklist, List.mem_append]
  exact ⟨fun h => by tauto, fun h => by tauto⟩

theorem Frontier.take (h : Frontier x f Q done s) (id : UInt64) (n executions : Nat) :
    Frontier x f Q (done ++ numbered id (s.worklist.take n))
      { s with worklist := s.worklist.drop n, executions := executions } where
  origin := (planned_take ..).2 h.origin
  sprung d hd := h.sprung d ((planned_take ..).1 hd)
  answered := h.answered
  known m hm := by
    rcases h.known m hm with ⟨d, hd, hmodel⟩ | ⟨e, he, hused⟩
    · exact .inl ⟨d, (planned_take ..).2 hd, hmodel⟩
    · exact .inr ⟨e, List.mem_append_left _ he, hused⟩

theorem Frontier.nextBatch (h : Frontier x f Q done s)
    (hf : ∀ earlier query, x.solver.answer earlier query = f query) (hQ : Flips x f Q)
    (hexpanded : ∀ e ∈ done, Expanded x.run s e) (hout : nextBatch x c s = (c', s', none)) :
    Frontier x f Q (done ++ numbered c.nextExecution (s.worklist.take (batchLength x s))) s' ∧
      ∀ e ∈ done ++ numbered c.nextExecution (s.worklist.take (batchLength x s)), Expanded x.run s' e := by
  have hsettles := runBatch_settles c.nextExecution (s.worklist.take (batchLength x s)) (absorbAll_ok hout).2
  have htaken := h.take c.nextExecution (batchLength x s)
    (s.executions + (s.worklist.take (batchLength x s)).length)
  obtain ⟨hlast, hbatch, hgrown⟩ := htaken.absorbAll hf hQ hsettles (List.subset_append_right ..) hout
  refine ⟨hlast, fun e he => ?_⟩
  rcases List.mem_append.1 he with he | he
  · exact (hexpanded e he).mono hgrown
  · exact hbatch e he

/-! ## Whole searches -/

theorem settle_isError (c : Campaign) (s : Search) (status : CaseStatus) :
    (settle c s status).isError = status.isError := by
  cases status with
  | exhausted => simp only [settle]; split <;> rfl
  | budgetSpent => simp only [settle]; split <;> rfl
  | _ => rfl

/-- Unless an execution fails, a search stops where it is or goes on after a batch. -/
theorem explore_cases {rounds : Nat} {status : CaseStatus} (hout : explore x rounds c s = (c', s', status))
    (hstatus : status.isError = false) :
    (c' = c ∧ s' = s ∧ performed x rounds c s = [] ∧
        (ending? x c s = some status ∨ rounds = 0 ∧ ending? x c s = none)) ∨
      ∃ n c₁ s₁, rounds = n + 1 ∧ ending? x c s = none ∧ nextBatch x c s = (c₁, s₁, none) ∧
        explore x n c₁ s₁ = (c', s', status) ∧
        performed x rounds c s =
          numbered c.nextExecution (s.worklist.take (batchLength x s)) ++ performed x n c₁ s₁ := by
  unfold explore at hout
  cases hending : ending? x c s with
  | some ended =>
      rw [hending] at hout
      cases hout
      exact .inl ⟨rfl, rfl, by unfold performed; rw [hending], .inl rfl⟩
  | none =>
      rw [hending] at hout
      cases rounds with
      | zero =>
          cases hout
          exact .inl ⟨rfl, rfl, by rw [performed, hending], .inr ⟨rfl, rfl⟩⟩
      | succ n =>
          rcases hnext : nextBatch x c s with ⟨c₁, s₁, _ | e⟩
          · simp only [hnext] at hout
            exact .inr ⟨n, c₁, s₁, rfl, rfl, rfl, hout, by rw [performed, hending, hnext]⟩
          · simp only [hnext] at hout
            cases hout
            rw [CaseStatus.isError_ofError] at hstatus
            cases hstatus

/-- Unless an execution fails, the search keeps its invariant and expands all that it runs. -/
theorem Frontier.explore (h : Frontier x f Q done s)
    (hf : ∀ earlier query, x.solver.answer earlier query = f query) (hQ : Flips x f Q)
    (hexpanded : ∀ e ∈ done, Expanded x.run s e) {rounds : Nat} {status : CaseStatus}
    (hout : explore x rounds c s = (c', s', status)) (hstatus : status.isError = false) :
    Frontier x f Q (done ++ performed x rounds c s) s' ∧
      ∀ e ∈ done ++ performed x rounds c s, Expanded x.run s' e := by
  induction rounds generalizing c s done with
  | zero =>
      rcases explore_cases hout hstatus with ⟨rfl, rfl, hnone, _⟩ | ⟨n, _, _, hn, _⟩
      · rw [hnone, List.append_nil]
        exact ⟨h, hexpanded⟩
      · cases hn
  | succ rounds ih =>
      rcases explore_cases hout hstatus with ⟨rfl, rfl, hnone, _⟩ | ⟨n, c₁, s₁, hn, _, hnext, hrest, hbatch⟩
      · rw [hnone, List.append_nil]
        exact ⟨h, hexpanded⟩
      · cases hn
        obtain ⟨hnow, hall⟩ := h.nextBatch hf hQ hexpanded hnext
        rw [hbatch, ← List.append_assoc]
        exact ih hnow hall hrest

/-! ## How a search ends -/

/-- A part of a search that queries do not touch. -/
def Unqueried {α : Type} (part : Search → α) : Prop :=
  ∀ s queried seen worklist, part { s with queried, seen, worklist } = part s

theorem Unqueried.askFlipped {α : Type} {part : Search → α} (h : Unqueried part) (x : Exploration) (c : Campaign)
    (s : Search) (query : List Predicate) : part (askFlipped x c s query).2 = part s := by
  rcases askFlipped_cases x c s query with ⟨_, heq⟩ | ⟨m, _, heq⟩ | ⟨_, heq⟩ <;> rw [heq]
  · exact h s ..
  · exact h s _ s.seen s.worklist

theorem Unqueried.expand {α : Type} {part : Search → α} (h : Unqueried part) (x : Exploration) (c : Campaign)
    (s : Search) (t : Trace) : part (expand x c s t).2 = part s := by
  have hall : ∀ (queries : List (List Predicate)) (p : Campaign × Search), part (askAll x queries p).2 = part p.2 := by
    intro queries
    induction queries with
    | nil => exact fun p => rfl
    | cons query queries ih => exact fun p => (ih _).trans (h.askFlipped x p.1 p.2 query)
  exact (hall _ _).trans (h s s.queried _ s.worklist)

theorem absorb_executions (x : Exploration) (c : Campaign) (s : Search) (t : Trace) :
    (absorb x c s t).2.executions = s.executions :=
  Unqueried.expand (fun _ _ _ _ => rfl) x c _ t

theorem absorb_inputs (x : Exploration) (c : Campaign) (s : Search) (t : Trace) :
    (absorb x c s t).2.inputs = s.inputs ++ [t.model] :=
  Unqueried.expand (fun _ _ _ _ => rfl) x c _ t

theorem absorb_tracked (x : Exploration) (c : Campaign) (s : Search) (t : Trace) :
    (absorb x c s t).2.tracked = (s.track t.locations).tracked :=
  Unqueried.expand (fun _ _ _ _ => rfl) x c _ t

/-- What taking in a trace keeps, taking in a batch keeps. -/
theorem absorbAll_keeps {P : Search → Prop} {failure : Option MockError} {results : List (Except MockError Trace)}
    (hok : ∀ c s t, .ok t ∈ results → P s → P (absorb x c s t).2) (hs : P s) :
    P (absorbAll x c s failure results).2.1 := by
  induction results generalizing c s failure with
  | nil => exact hs
  | cons result results ih =>
      have hrest : ∀ c s t, .ok t ∈ results → P s → P (absorb x c s t).2 :=
        fun c s t ht => hok c s t (List.mem_cons_of_mem _ ht)
      cases result with
      | error e => exact ih hrest hs
      | ok t => exact ih hrest (hok c s t (List.mem_cons_self ..) hs)

theorem absorbAll_executions {failure failure' : Option MockError} {results : List (Except MockError Trace)}
    (h : absorbAll x c s failure results = (c', s', failure')) : s'.executions = s.executions := by
  have hkept : (absorbAll x c s failure results).2.1.executions = s.executions :=
    absorbAll_keeps (P := fun s' => s'.executions = s.executions)
      (fun c s' t _ hs' => (absorb_executions x c s' t).trans hs') rfl
  rwa [h] at hkept

theorem length_take_batchLength (x : Exploration) (s : Search) :
    (s.worklist.take (batchLength x s)).length = batchLength x s :=
  List.length_take_of_le (Nat.min_le_right ..)

theorem nextBatch_executions {failure : Option MockError} (h : nextBatch x c s = (c', s', failure)) :
    s'.executions = s.executions + batchLength x s := by
  have hexecutions := absorbAll_executions h
  rwa [length_take_batchLength] at hexecutions

theorem ending?_cases {status : CaseStatus} (h : ending? x c s = some status) :
    (status = .cancelled ∧ c.cancelled = true) ∨
      (status = .complete ∧ x.config.stopWhenComplete = true ∧ covered c s = true) ∨
      (status = .budgetSpent ∧ x.config.maxExecutions.toNat ≤ s.executions) ∨
      (status = .exhausted ∧ s.executions < x.config.maxExecutions.toNat ∧ s.worklist = []) := by
  unfold ending? at h
  split_ifs at h with hcancelled hcovered hspent hempty <;> cases h
  · exact .inl ⟨rfl, hcancelled⟩
  · simp only [Bool.and_eq_true] at hcovered
    exact .inr (.inl ⟨rfl, hcovered.1.1, hcovered.2⟩)
  · exact .inr (.inr (.inl ⟨rfl, hspent⟩))
  · exact .inr (.inr (.inr ⟨rfl, Nat.lt_of_not_le hspent, List.isEmpty_iff.1 hempty⟩))

theorem ending?_none (h : ending? x c s = none) :
    c.cancelled = false ∧ s.executions < x.config.maxExecutions.toNat ∧ s.worklist ≠ [] := by
  unfold ending? at h
  split_ifs at h with hcancelled hcovered hspent hempty
  exact ⟨by simpa using hcancelled, Nat.lt_of_not_le hspent, by simpa using hempty⟩

theorem batchLength_of_ending? (h : ending? x c s = none) :
    0 < batchLength x s ∧ s.executions + batchLength x s ≤ x.config.maxExecutions.toNat := by
  obtain ⟨_, hbudget, hwaiting⟩ := ending?_none h
  have hwaiting : 0 < s.worklist.length := List.length_pos_of_ne_nil hwaiting
  unfold batchLength
  omega

/-- A search that may go on after full coverage and has budget left stops only for want of candidates. -/
theorem worklist_of_ending? {status : CaseStatus} (hgo : x.config.stopWhenComplete = false)
    (hbudget : s.executions < x.config.maxExecutions.toNat) (h : ending? x c s = some status)
    (hstatus : status ≠ .cancelled) : s.worklist = [] := by
  rcases ending?_cases h with ⟨hcancelled, _⟩ | ⟨_, hstop, _⟩ | ⟨_, hspent⟩ | ⟨_, _, hempty⟩
  · exact absurd hcancelled hstatus
  · rw [hgo] at hstop; cases hstop
  · omega
  · exact hempty

end

end Search

end MockExplorer
