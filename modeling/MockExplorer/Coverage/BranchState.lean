/-!
# Reached outcomes of a branch

The state of a branch point is the set of outcomes that were seen there. It only grows.
-/

namespace MockExplorer

/-- The outcome of a branch. -/
inductive Polarity where
  | onTrue
  | onFalse
deriving DecidableEq, Repr, Inhabited

def Polarity.ofBool : Bool → Polarity
  | true => .onTrue
  | false => .onFalse

/-- The set of outcomes seen at a branch point. -/
inductive BranchState where
  | unreached
  | reachedTrue
  | reachedFalse
  | reachedBoth
deriving DecidableEq, Repr, Inhabited

namespace BranchState

/-- The state after one more outcome. -/
def after : BranchState → Polarity → BranchState
  | .unreached, .onTrue => .reachedTrue
  | .unreached, .onFalse => .reachedFalse
  | .reachedTrue, .onTrue => .reachedTrue
  | .reachedTrue, .onFalse => .reachedBoth
  | .reachedFalse, .onTrue => .reachedBoth
  | .reachedFalse, .onFalse => .reachedFalse
  | .reachedBoth, _ => .reachedBoth

/-- Whether both outcomes were seen. -/
def isComplete : BranchState → Bool
  | .reachedBoth => true
  | _ => false

/-- The number of outcomes seen. -/
def outcomes : BranchState → Nat
  | .unreached => 0
  | .reachedTrue => 1
  | .reachedFalse => 1
  | .reachedBoth => 2

theorem after_comm (s : BranchState) (p q : Polarity) : (s.after p).after q = (s.after q).after p := by
  cases s <;> cases p <;> cases q <;> rfl

end BranchState

end MockExplorer
