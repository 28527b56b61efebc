import MockExplorer.Proofs.Execution.Replay

/-!
# Directed replay

A run that raises no inconsistency can be steered: a model of its path with one clause negated leads the
body along the same path up to that clause and through the other arm there.
-/

namespace MockExplorer

/-- Whether the run stopped at a value that contradicts its type or its path. -/
def Halt.isInconsistent : Halt → Bool
  | .raised (.inconsistent ..) => true
  | _ => false

/-- No statement of the run raises an inconsistency, be it caught or not. -/
def Body.Consistent (b : Body) (config : MockConfig) (id : UInt64) (m : Model) (assumptions : List Predicate) :
    Prop :=
  ∀ s ∈ b.trailUnder config id m assumptions, (s.1.run { resolver := .ofModel m } s.2).2.any Halt.isInconsistent = false

instance (b : Body) (config : MockConfig) (id : UInt64) (m : Model) (assumptions : List Predicate) :
    Decidable (b.Consistent config id m assumptions) :=
  inferInstanceAs (Decidable (∀ s ∈ b.trailUnder config id m assumptions, _))

theorem Body.Consistent.settled {b : Body} {config : MockConfig} {id : UInt64} {m : Model}
    {assumptions : List Predicate} (h : b.Consistent config id m assumptions) :
    b.SettledUnder config id m assumptions := by
  intro a y hy
  refine Action.settled_of_run (r := { resolver := .ofModel m }) (Resolver.answersFrom_ofModel m) fun var message hraised => ?_
  have hnone := h (a, y) hy
  rw [hraised] at hnone
  cases hnone

/-- Let the run of a mock-driven body under a model raise no inconsistency. Every clause `i` of its path has a
sibling path, and under the solver's model of that, if it has one, the body records the same first `i` clauses
and then the negated clause. -/
theorem Body.replay_flipped {b : Body} (hb : b.MockDriven) (config : MockConfig) (id : UInt64) (m : Model)
    (assumptions : List Predicate) (hrun : b.Consistent config id m assumptions) {i : Nat}
    (hi : i < (b.runUnder config id m assumptions).1.provider.path.length) :
    ∃ c query, (b.runUnder config id m assumptions).1.provider.path.clauses[i]? = some c ∧
      (b.runUnder config id m assumptions).1.provider.path.flippedAt? i = some query ∧
      ∀ m', Equality.solve query = .sat m' → ∀ id',
        (b.runUnder config id' m' query).1.provider.path.clauses.take (i + 1) =
          (b.runUnder config id m assumptions).1.provider.path.clauses.take i ++
            [⟨c.location, c.predicate.negate⟩] := by
  have hlt : i < (b.runUnder config id m assumptions).1.provider.path.clauses.length := hi
  obtain ⟨query, hq⟩ := PathCondition.exists_flippedAt? hi
  refine ⟨_, query, List.getElem?_eq_getElem hlt, hq, fun m' hs id' => ?_⟩
  obtain ⟨c, hc, hparts⟩ := Body.parts_flipped hb hrun.settled hq hs id'
  rw [List.getElem?_eq_getElem hlt, Option.some.injEq] at hc
  have htake := List.prefix_iff_eq_take.1 hparts.right
  rw [List.length_append, List.length_take, Nat.min_eq_left (Nat.le_of_lt hlt)] at htake
  rw [hc]
  exact htake.symm

/-- The first run recovers from a failure of its own, and the replay fails after the flipped clause. -/
theorem Body.replay_flipped_recovery :
    let b : Body := .ofList [.act (.mock "box" Capability.supplier.descriptor), .act (.invoke "box" "get" [] "v"),
      .attempt (.branch ⟨1⟩ "v" .ne 333 .skip (.act (.fail (.config "stop")))) .skip,
      .act (.mock "number" Capability.intSupplier.descriptor), .act (.call "number" [] "n"),
      .branch ⟨2⟩ "n" .eq 5 (.act (.fail (.config "five"))) .skip]
    let m : Model := ({} : Model).insert (.forCall 0 "get") (.boxed (some 333))
    let m' : Model := m.insert (.forCall 1 "getAsInt") (.int 5)
    let query : List Predicate := [⟨.forCall 0 "get", .boxedInt, .eq, 333⟩, ⟨.forCall 1 "getAsInt", .int, .eq, 5⟩]
    b.MockDriven ∧ b.Consistent {} 0 m [] ∧ (b.runUnder {} 0 m []).1.provider.path.flippedAt? 1 = some query ∧
      Equality.solve query = .sat m' ∧ (b.runUnder {} 1 m' query).2 = some (.raised (.config "five")) ∧
      ∃ c, (b.runUnder {} 0 m []).1.provider.path.clauses[1]? = some c ∧
        (b.runUnder {} 1 m' query).1.provider.path.clauses.take 2 =
          (b.runUnder {} 0 m []).1.provider.path.clauses.take 1 ++ [⟨c.location, c.predicate.negate⟩] := by
  intro b m m' query
  have hb : b.MockDriven := by simp [b, Body.ofList, Body.MockDriven, Action.MockDriven]
  have hrun : b.Consistent {} 0 m [] := by decide +kernel
  have hq : (b.runUnder {} 0 m []).1.provider.path.flippedAt? 1 = some query := by decide +kernel
  have hs : Equality.solve query = .sat m' := by decide +kernel
  obtain ⟨c, query', hc, hq', hreplay⟩ := Body.replay_flipped hb {} 0 m [] hrun (i := 1) (by decide +kernel)
  rw [hq, Option.some.injEq] at hq'
  subst hq'
  exact ⟨hb, hrun, hq, hs, by decide +kernel, c, hc, hreplay m' hs 1⟩

end MockExplorer
