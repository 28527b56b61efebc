import MockExplorer.Location
import MockExplorer.Mock.Call

/-!
# Test bodies

A test body is a small program over an execution. Mocks and values that it keeps have names. Bodies are
data, so that what a run does is a function of the body and the resolver alone.
-/

namespace MockExplorer

/-- A statement without parts of its own. -/
inductive Action where
  /-- Mocks a target and keeps the mock under a name. -/
  | mock (name : String) (target : MockTarget)
  /-- Calls a method of a mock and keeps the result. -/
  | invoke (mock method : String) (args : List Value) (name : String)
  /-- Calls the only interceptable method of a mock and keeps the result. -/
  | call (mock : String) (args : List Value) (name : String)
  /-- Calls a mock through a typed view and keeps the result. -/
  | view (mock : String) (capability : Capability) (arg : Value) (name : String)
  /-- Keeps a value made by hand. -/
  | keep (v : ConcolicValue) (name : String)
  | assertReached (location : LocationId) (literal : Bool)
  /-- Reaches an assertion at a source position. -/
  | reached (site : SourceSite) (literal : Bool)
  /-- Appends a clause made by hand to the path. -/
  | record (clause : Clause)
  | fail (e : MockError)
  | crash
  /-- Cancels the running campaign. -/
  | cancel
deriving DecidableEq, Inhabited

/-- A test body. -/
inductive Body where
  | skip
  | seq (first second : Body)
  | act (a : Action)
  /-- Decides a comparison of a kept value with a literal and goes on with that arm. -/
  | branch (location : LocationId) (value : String) (op : CmpOp) (rhs : Int64) (thenArm elseArm : Body)
  | times (n : Nat) (body : Body)
  /-- Goes on with `recovery` when `body` raises an error. -/
  | attempt (body recovery : Body)
  /-- A body with names of its own, which leaves no trace in the log. -/
  | enclosed (body : Body)
deriving DecidableEq, Inhabited

/-- The statements one after the other. -/
def Body.ofList : List Body → Body
  | [] => .skip
  | b :: rest => .seq b (ofList rest)

/-! ## Mock-driven bodies -/

/-- A statement that makes no symbolic value and no clause by hand. -/
def Action.MockDriven : Action → Prop
  | .keep v _ => v.var = none
  | .record _ => False
  | _ => True

/-- A body that branches only on values of its own mocks and on concrete values. -/
def Body.MockDriven : Body → Prop
  | .skip => True
  | .seq a b => a.MockDriven ∧ b.MockDriven
  | .act a => a.MockDriven
  | .branch _ _ _ _ t e => t.MockDriven ∧ e.MockDriven
  | .times _ b => b.MockDriven
  | .attempt b r => b.MockDriven ∧ r.MockDriven
  | .enclosed b => b.MockDriven

end MockExplorer
