import MockExplorer.Solver.Basic

/-!
# Equalities and disequalities with literals

Each input is solved on its own: an equality fixes the value, and without one the least natural number
that no disequality excludes is taken.
-/

namespace MockExplorer

namespace Equality

/-- What a query says of one input. -/
structure Demand where
  ty : ValueType
  equal : List Int64
  excluded : List Int64
deriving DecidableEq, Inhabited

/-- The literals that the query compares the input with by `op`, each once. -/
def literals (query : List Predicate) (op : CmpOp) (var : SymVar) : List Int64 :=
  ((query.filter fun p => p.var = var ∧ p.op = op).map (·.rhs)).eraseDups

/-- The type at which the query uses the input first. -/
def typeOf? (query : List Predicate) (var : SymVar) : Option ValueType :=
  (query.find? fun p => p.var = var).map (·.ty)

/-- The first use of an input at another type than its first one. -/
def mixed? (query : List Predicate) : Option UnknownReason :=
  query.findSome? fun p =>
    match typeOf? query p.var with
    | some ty => if ty = p.ty then none else some (.mixedTypes p.var ty p.ty)
    | none => none

/-- The inputs of the query with what it says of them, in the order of their names. -/
def demands (query : List Predicate) : SortedMap SymVar Demand :=
  SortedMap.ofList <| query.map fun p =>
    (p.var, ⟨(typeOf? query p.var).getD p.ty, literals query .eq p.var, literals query .ne p.var⟩)

/-- The natural numbers to try: zero up to the number of excluded literals, which is taken as a 64-bit
integer. No more are needed to find one that is not excluded. -/
def Demand.probes (d : Demand) : List Nat := List.range ((Int64.ofNat d.excluded.length).toInt + 1).toNat

/-- The first number to try that is not excluded and that the type has. -/
def Demand.least? (d : Demand) : Option Value :=
  d.probes.findSome? fun k =>
    if Int64.ofNat k ∈ d.excluded then none else d.ty.ofInt64? (Int64.ofNat k)

/-- A value for one input, or the answer to the whole query that its demand forces. -/
def Demand.solve (d : Demand) (var : SymVar) : Except Answer Value :=
  if d.ty.isNumeric = false then .error (.unknown (.notNumeric var d.ty))
  else
    match d.equal with
    | [] =>
      match d.least? with
      | some v => .ok v
      | none => .error .unsat
    | [wanted] =>
      if wanted ∈ d.excluded then .error .unsat
      else
        match d.ty.ofInt64? wanted with
        | some v => .ok v
        | none => .error .unsat
    | _ :: _ :: _ => .error .unsat

/-- Solves the inputs in turn; the first one that has no value decides the answer. -/
def assign : List (SymVar × Demand) → Model → Answer
  | [], m => .sat m
  | (var, d) :: rest, m =>
    match d.solve var with
    | .ok v => assign rest (m.insert var v)
    | .error a => a

/-- Answers a query of equalities and disequalities. -/
def solve (query : List Predicate) : Answer :=
  match mixed? query with
  | some reason => .unknown reason
  | none => assign (demands query).entries {}

end Equality

/-- The solver for equalities and disequalities with literals. -/
def Solver.equality : Solver := .ofFunction Equality.solve

end MockExplorer
