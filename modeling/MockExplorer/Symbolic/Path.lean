import MockExplorer.Location
import MockExplorer.SortedMap
import MockExplorer.Symbolic.Predicate

/-!
# Path conditions

The path of an execution is the list of predicates that held at its branches, with the inputs that were
registered on the way. Negating one clause after keeping all earlier ones asks for the sibling path.
-/

namespace MockExplorer

/-- A predicate and the branch at which it held. -/
structure Clause where
  location : LocationId
  predicate : Predicate
deriving DecidableEq, Inhabited

/-- The registered inputs and the clauses in the order of their branches. -/
structure PathCondition where
  inputs : SortedMap SymVar ValueType := ∅
  clauses : List Clause := []
deriving DecidableEq, Inhabited

namespace PathCondition

/-- Registers an input. An input keeps the type of its first registration. -/
def register (p : PathCondition) (var : SymVar) (ty : ValueType) : PathCondition :=
  { p with inputs := p.inputs.insertIfNew var ty }

/-- Appends a clause. -/
def record (p : PathCondition) (c : Clause) : PathCondition := { p with clauses := p.clauses ++ [c] }

def length (p : PathCondition) : Nat := p.clauses.length

/-- The constraints of the sibling path at clause `i`: all earlier predicates, then the negation. -/
def flippedAt? (p : PathCondition) (i : Nat) : Option (List Predicate) :=
  p.clauses[i]?.map fun c => (p.clauses.take i).map (·.predicate) ++ [c.predicate.negate]

end PathCondition

end MockExplorer
