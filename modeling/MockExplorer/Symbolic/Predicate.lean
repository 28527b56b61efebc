import MockExplorer.Symbolic.Variable
import MockExplorer.Value

/-!
# Atomic constraints

A condition compares a value with a literal. When the value came from a symbolic input, deciding the
condition also yields the predicate on that input that held.
-/

namespace MockExplorer

/-- Equal or not equal. -/
inductive CmpOp where
  | eq
  | ne
deriving DecidableEq, Repr, Inhabited

namespace CmpOp

/-- The operator that holds exactly where this one fails. -/
def negate : CmpOp → CmpOp
  | .eq => .ne
  | .ne => .eq

/-- Compares a numeric reading with a literal. What has no reading is unequal to every literal. -/
def apply (op : CmpOp) (lhs : Option Int64) (rhs : Int64) : Bool :=
  match op with
  | .eq => lhs == some rhs
  | .ne => lhs != some rhs

def text : CmpOp → String
  | .eq => "=="
  | .ne => "!="

@[simp] theorem negate_negate (op : CmpOp) : op.negate.negate = op := by cases op <;> rfl

@[simp] theorem negate_apply (op : CmpOp) (lhs : Option Int64) (rhs : Int64) :
    op.negate.apply lhs rhs = !op.apply lhs rhs := by
  cases op <;> simp [negate, apply, bne]

end CmpOp

/-- An atomic constraint on one symbolic input. -/
structure Predicate where
  var : SymVar
  ty : ValueType
  op : CmpOp
  rhs : Int64
deriving DecidableEq, Inhabited

namespace Predicate

def negate (p : Predicate) : Predicate := { p with op := p.op.negate }

/-- Whether the value satisfies the constraint. -/
def holds (p : Predicate) (v : Value) : Bool := p.op.apply v.toInt64? p.rhs

def text (p : Predicate) : String :=
  p.var.name ++ " " ++ p.op.text ++ " " ++ toString p.rhs.toInt

@[simp] theorem negate_negate (p : Predicate) : p.negate.negate = p := by simp [negate]

@[simp] theorem negate_holds (p : Predicate) (v : Value) : p.negate.holds v = !p.holds v := by
  simp [negate, holds]

end Predicate

/-- A value together with the symbolic input that it came from, if any. -/
structure ConcolicValue where
  value : Value
  ty : ValueType
  var : Option SymVar
deriving DecidableEq, Inhabited

/-- A comparison of a value with a literal. -/
structure Condition where
  lhs : ConcolicValue
  op : CmpOp
  rhs : Int64
deriving DecidableEq, Inhabited

namespace Condition

/-- The outcome on the concrete value. -/
def evaluate (c : Condition) : Bool := c.op.apply c.lhs.value.toInt64? c.rhs

/-- The predicate that held, where the left side is symbolic. -/
def taken? (c : Condition) : Option Predicate :=
  c.lhs.var.map fun var =>
    { var, ty := c.lhs.ty, op := if c.evaluate then c.op else c.op.negate, rhs := c.rhs }

end Condition

end MockExplorer
