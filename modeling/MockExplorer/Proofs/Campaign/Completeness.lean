import MockExplorer.Campaign.Case
import MockExplorer.Proofs.Campaign.Search
import MockExplorer.Proofs.Execution.Noting
import MockExplorer.Proofs.Execution.Trace

/-!
# Exhausted searches

When no candidate is left, a run under any model that settles it agrees with an execution of the search. The
execution that follows the run longest does not part from it: the sibling path at the parting was asked for,
and the answer led to an execution that follows the run further.
-/

namespace MockExplorer

variable {b : Body} {config : MockConfig}

/-! ## Executions -/

theorem Body.execute_result {id : UInt64} {m : Model} {assumptions : List Predicate} {t : Trace} :
    (b.execute config id m assumptions).result = .ok t ↔
      (b.runUnder config id m assumptions).2 = none ∧ (b.runUnder config id m assumptions).1.trace = t := by
  unfold Body.execute
  rcases b.runUnder config id m assumptions with ⟨x, _ | halt⟩ <;> simp

theorem Body.execute_observations (b : Body) (config : MockConfig) (id : UInt64) (m : Model)
    (assumptions : List Predicate) :
    (b.execute config id m assumptions).observations =
      (b.runUnder config id m assumptions).1.observations.reverse := by
  unfold Body.execute
  rcases b.runUnder config id m assumptions with ⟨x, _ | halt⟩ <;> rfl

/-- Two runs that their models settle agree, or their paths part. -/
theorem Body.SettledUnder.agree_or_parted (hb : b.MockDriven) {id id' : UInt64} {m m' : Model}
    {assumptions assumptions' : List Predicate} (h : b.SettledUnder config id m assumptions)
    (h' : b.SettledUnder config id' m' assumptions') :
    Agree (b.runUnder config id m assumptions) (b.runUnder config id' m' assumptions') ∨
      Parted (b.runUnder config id m assumptions).1.provider.path.clauses
        (b.runUnder config id' m' assumptions').1.provider.path.clauses :=
  (Body.tracks_of_settled (Resolver.answersFrom_ofModel m) (Resolver.answersFrom_ofModel m') hb (.start ..) (.start ..)
    (.start ..) h fun a _ y _ hy _ => h' a y hy).ends

/-! ## Candidates of a search -/

/-- The candidates that a search can come to: the empty model, and models of flipped paths. -/
inductive Candidate.Sprung (b : Body) (config : MockConfig) : Candidate → Prop where
  | origin : Sprung b config {}
  | flipped {c : Candidate} {id : UInt64} {i : Nat} {query : List Predicate} {m : Model} (h : Sprung b config c)
      (hq : (b.runUnder config id c.model c.assumptions).1.provider.path.flippedAt? i = some query)
      (hs : Equality.solve query = .sat m) : Sprung b config ⟨m, query⟩

/-- Every candidate of a search settles its run. -/
theorem Candidate.Sprung.settled (hb : b.MockDriven) {c : Candidate} (h : c.Sprung b config) (id : UInt64) :
    b.SettledUnder config id c.model c.assumptions := by
  induction h generalizing id with
  | origin =>
      intro a y hy k ty hasks
      have hassumed : y.provider.assumptions = [] := (Body.trailUnder_passes hb hy).2.1
      refine Provider.accepts_of_solve (by rw [hassumed]; rfl) fun p hp => ?_
      rw [hassumed] at hp
      cases hp
  | flipped _ hq hs ih => exact Body.settled_flipped hb (ih _) hq hs id

/-- A search flips the paths of a body if its executions have the results of the body. -/
theorem Candidate.flips_of_results {x : Exploration}
    (hx : ∀ id c, (x.run id c).result = (b.execute config id c.model c.assumptions).result) :
    Search.Flips x Equality.solve (Candidate.Sprung b config) := by
  intro e t i query m he ht hq hs
  rw [hx] at ht
  obtain ⟨_, rfl⟩ := Body.execute_result.1 ht
  exact .flipped he hq hs

theorem Candidate.flips_sprung {x : Exploration}
    (hx : ∀ id c, x.run id c = b.execute config id c.model c.assumptions) :
    Search.Flips x Equality.solve (Candidate.Sprung b config) :=
  Candidate.flips_of_results fun id c => by rw [hx]

/-! ## The longest common path -/

theorem PartsAt.flippedAt? {path : PathCondition} {before l' : List Clause} {c : Clause}
    (h : PartsAt before c path.clauses l') :
    path.flippedAt? before.length = some ((before ++ [c.negate]).map (·.predicate)) := by
  obtain ⟨rest, hrest⟩ := h.left
  simp [PathCondition.flippedAt?, ← hrest, Clause.negate]

section

variable (hb : b.MockDriven) {x : Exploration} (hx : ∀ id c, x.run id c = b.execute config id c.model c.assumptions)
  {done : List (UInt64 × Candidate)} {s : Search}
  (hfrontier : s.Frontier x Equality.solve (Candidate.Sprung b config) done)
  {id : UInt64} {m : Model} (hset : b.SettledUnder config id m [])

include hb hfrontier hset in
/-- An execution of the search agrees with the run, or their paths part. -/
theorem Search.Frontier.agree_or_parted {e : UInt64 × Candidate} (he : e ∈ done) :
    Agree (b.runUnder config e.1 e.2.model e.2.assumptions) (b.runUnder config id m []) ∨
      Parted (b.runUnder config e.1 e.2.model e.2.assumptions).1.provider.path.clauses
        (b.runUnder config id m []).1.provider.path.clauses := by
  have hsprung := hfrontier.sprung e.2 (.inr (List.mem_map_of_mem he))
  exact (hsprung.settled hb e.1).agree_or_parted hb hset

variable (hempty : s.worklist = [])
include hempty

include hb hx hfrontier in
/-- Every model that the search has seen allows the path of one of its executions. -/
theorem Search.Frontier.exists_allows {m' : Model} (hm' : m' ∈ s.seen) :
    ∃ e ∈ done, m'.Allows (b.runUnder config e.1 e.2.model e.2.assumptions).1.provider.path.clauses := by
  rcases hfrontier.known m' hm' with ⟨c, hc, rfl⟩ | ⟨e, he, t, ht, rfl⟩
  · rcases hc with hc | hc
    · rw [hempty] at hc; cases hc
    · obtain ⟨e, he, rfl⟩ := List.mem_map.1 hc
      exact ⟨e, he, (Body.runUnder_sound hb).provider.allows⟩
  · rw [hx] at ht
    obtain ⟨_, rfl⟩ := Body.execute_result.1 ht
    exact ⟨e, he, (Body.runUnder_sound hb).trace_allows⟩

variable (hexpanded : ∀ e ∈ done, s.Expanded x.run e)
  (hnum : ∀ c ∈ (b.runUnder config id m []).1.provider.path.clauses, c.predicate.ty.isNumeric = true)
  (hshort : (b.runUnder config id m []).1.provider.path.clauses.length < 2 ^ 31)
include hexpanded hnum hshort

include hb hx hfrontier in
/-- Where an execution parts from the run, the search has an execution that follows the run further. -/
theorem Search.Frontier.exists_sibling {e : UInt64 × Candidate} (he : e ∈ done) {before : List Clause} {c : Clause}
    (hparts : PartsAt before c (b.runUnder config e.1 e.2.model e.2.assumptions).1.provider.path.clauses
      (b.runUnder config id m []).1.provider.path.clauses) :
    ∃ e' ∈ done, ∃ m' : Model, m'.Satisfies ((before ++ [c.negate]).map (·.predicate)) ∧
      m'.Allows (b.runUnder config e'.1 e'.2.model e'.2.assumptions).1.provider.path.clauses := by
  -- The sibling path at the parting was asked for.
  obtain ⟨t, ht, hasked⟩ := hexpanded e he
  rw [hx] at ht
  obtain ⟨_, rfl⟩ := Body.execute_result.1 ht
  have hqueried := hasked _ _ hparts.flippedAt?
  -- The run itself shows that the sibling path has a model, so the solver found one.
  obtain ⟨m', hm'⟩ := (Body.runUnder_sound hb).exists_solve hnum hshort hparts.right
  obtain ⟨e', he', hallows⟩ := hfrontier.exists_allows hb hx hempty (hfrontier.answered _ hqueried m' hm')
  exact ⟨e', he', m', Equality.satisfies_of_solve hm', hallows⟩

include hb hx hfrontier hset in
/-- The search has an execution that agrees with the run if it has one that parts from it. -/
theorem Search.Frontier.agree_of_parted {e : UInt64 × Candidate} (he : e ∈ done) {before : List Clause} {c : Clause}
    (hparts : PartsAt before c (b.runUnder config e.1 e.2.model e.2.assumptions).1.provider.path.clauses
      (b.runUnder config id m []).1.provider.path.clauses) :
    ∃ e ∈ done, Agree (b.runUnder config e.1 e.2.model e.2.assumptions) (b.runUnder config id m []) := by
  -- By induction on what is left of the run's path after the common part.
  induction hn : (b.runUnder config id m []).1.provider.path.clauses.length - before.length using Nat.strongRecOn
    generalizing e before c with
  | _ n ih =>
      obtain ⟨e', he', m', hsat, hallows⟩ :=
        hfrontier.exists_sibling hb hx hempty hexpanded hnum hshort he hparts
      rcases hfrontier.agree_or_parted hb hset he' with hagree | ⟨before', c', hparts'⟩
      · exact ⟨e', he', hagree⟩
      · have hlonger := (hparts'.satisfied hallows hparts.right hsat).length_le
        have hleft := hparts.right.length_le
        rw [List.length_append, List.length_singleton] at hlonger hleft
        exact ih _ (by omega) he' hparts' rfl

include hb hx hfrontier hset in
theorem Search.Frontier.exists_agree :
    ∃ e ∈ done, Agree (b.runUnder config e.1 e.2.model e.2.assumptions) (b.runUnder config id m []) := by
  rcases hfrontier.origin with horigin | horigin
  · rw [hempty] at horigin; cases horigin
  · obtain ⟨e, he, _⟩ := List.mem_map.1 horigin
    rcases hfrontier.agree_or_parted hb hset he with hagree | ⟨before, c, hparts⟩
    · exact ⟨e, he, hagree⟩
    · exact hfrontier.agree_of_parted hb hx hset hempty hexpanded hnum hshort he hparts

end

end MockExplorer
