import MockExplorer.Symbolic.Model
import MockExplorer.Symbolic.Predicate

/-!
# Satisfiability queries

A query is a list of predicates. A solver answers it, possibly looking at the queries that it was asked
before; a model satisfies a query when it gives every predicate's input a conforming value that satisfies
the predicate.
-/

namespace MockExplorer

/-- Why a solver gave up. -/
inductive UnknownReason where
  | mixedTypes (var : SymVar) (first other : ValueType)
  | notNumeric (var : SymVar) (ty : ValueType)
  | stated (reason : String)
deriving DecidableEq, Inhabited

def UnknownReason.text : UnknownReason → String
  | .mixedTypes var first other => var.name ++ " used as both " ++ first.text ++ " and " ++ other.text
  | .notNumeric var ty => var.name ++ ": " ++ ty.text ++ " values are not numeric"
  | .stated reason => reason

/-- The answer to a query. -/
inductive Answer where
  | sat (model : Model)
  | unsat
  | unknown (reason : UnknownReason)
deriving DecidableEq, Inhabited

namespace Answer

def isUnsat : Answer → Bool
  | .unsat => true
  | _ => false

def model? : Answer → Option Model
  | .sat m => some m
  | _ => none

end Answer

/-- Answers a query, given the earlier queries, latest first. -/
structure Solver where
  answer : (earlier : List (List Predicate)) → (query : List Predicate) → Answer

namespace Solver

/-- The solver that looks at nothing but the query. -/
def ofFunction (f : List Predicate → Answer) : Solver := ⟨fun _ => f⟩

/-- Whether the answers depend on the query alone. -/
def IsPure (s : Solver) : Prop := ∀ earlier query, s.answer earlier query = s.answer [] query

/-- The first rule whose variable occurs in the query answers; without one, `otherwise` does. -/
def ofRules (rules : List (SymVar × Answer)) (otherwise : Solver) : Solver where
  answer earlier query :=
    match rules.find? fun r => query.any fun p => p.var = r.1 with
    | some r => r.2
    | none => otherwise.answer earlier query

/-- The replies in turn, one to a query; after the last one, `otherwise` answers. -/
def ofReplies (replies : List Answer) (otherwise : Solver) : Solver where
  answer earlier query := (replies[earlier.length]?).getD (otherwise.answer earlier query)

end Solver

/-- Every predicate's input has a value of the predicate's type that satisfies it. -/
def Model.Satisfies (m : Model) (query : List Predicate) : Prop :=
  ∀ p ∈ query, ∃ v, m.get? p.var = some v ∧ v.conformsTo p.ty = true ∧ p.holds v = true

end MockExplorer
