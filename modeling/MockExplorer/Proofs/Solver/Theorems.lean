import MockExplorer.Proofs.Solver.Equality

/-!
# Soundness and completeness of the equality solver

A model in the answer is right, and it assigns nothing but the inputs of the query. A query that is
answered as unsatisfiable has no model. Only an input that is not numeric, or one that is used at two
types, keeps the solver from deciding.
-/

namespace MockExplorer.Equality

/-- A model in the answer assigns exactly the inputs of the query, and every predicate's input a value of
its type that satisfies it. -/
theorem solve_sound {query : List Predicate} {m : Model} (h : solve query = .sat m) :
    (∀ var, (∃ v, m.get? var = some v) ↔ ∃ p ∈ query, p.var = var) ∧
      ∀ p ∈ query, ∃ v, m.get? p.var = some v ∧ v.conformsTo p.ty = true ∧ p.holds v = true :=
  ⟨isSome_get?_of_solve h, satisfies_of_solve h⟩

/-- Three inputs of different types, one of them with two disequalities. -/
theorem solve_sound_three_inputs :
    let query : List Predicate := [⟨.forCall 0 "foo", .int, .ne, 0⟩, ⟨.forCall 1 "get", .boxedInt, .eq, 333⟩,
      ⟨.forCall 0 "foo", .int, .ne, 1⟩, ⟨.forCall 0 "ready", .bool, .ne, 0⟩]
    let m : Model := ((({} : Model).insert (.forCall 0 "foo") (.int 2)).insert (.forCall 0 "ready")
      (.bool true)).insert (.forCall 1 "get") (.boxed (some 333))
    solve query = .sat m ∧ m.Satisfies query := by
  intro query m
  have h : solve query = .sat m := by decide
  exact ⟨h, (solve_sound h).2⟩

/-- With fewer than `2 ^ 31` predicates, an unsatisfiable answer is right; and if every input is numeric and
used at one type, a query is answered by a model exactly if it has one, and never left open. -/
theorem solve_complete {query : List Predicate} (hlen : query.length < 2 ^ 31) :
    (solve query = .unsat → ∀ m : Model, ¬ m.Satisfies query) ∧
      ((∀ p ∈ query, p.ty.isNumeric = true) → SingleTyped query →
        (∀ reason, solve query ≠ .unknown reason) ∧
          ((∃ m, solve query = .sat m) ↔ ∃ m : Model, m.Satisfies query)) := by
  refine ⟨not_satisfies_of_unsat hlen, fun hnum hsingle => ⟨solve_ne_unknown hsingle hnum, ?_⟩⟩
  constructor
  · rintro ⟨m, h⟩
    exact ⟨m, satisfies_of_solve h⟩
  · rintro ⟨m, hm⟩
    exact exists_solve_eq_sat hlen hsingle hnum hm

/-- Both truth values are excluded, while the other input is free to be anything but zero. -/
theorem solve_complete_truth_values :
    (∀ m : Model, ¬ m.Satisfies [⟨.forCall 0 "get", .boxedInt, .ne, 0⟩, ⟨.forCall 1 "ready", .bool, .ne, 1⟩,
        ⟨.forCall 1 "ready", .bool, .ne, 0⟩]) ∧
      ∃ m : Model, m.Satisfies [⟨.forCall 0 "get", .boxedInt, .ne, 0⟩, ⟨.forCall 1 "ready", .bool, .ne, 1⟩] := by
  constructor
  · exact (solve_complete (by decide)).1 (by decide)
  · refine ((solve_complete (by decide)).2 (by decide) ?_).2.1 ⟨_, rfl⟩
    unfold SingleTyped
    decide

end MockExplorer.Equality
