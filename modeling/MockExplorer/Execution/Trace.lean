import MockExplorer.Mock.Provider
import MockExplorer.Symbolic.Model

/-!
# Traces

What one execution observed: its path, the values that were bound, and how many branches and assertions
it went through. The bound values form the model that the execution actually used.
-/

namespace MockExplorer

structure Trace where
  id : UInt64
  path : PathCondition
  bindings : List Binding
  branches : UInt64
  assertions : UInt64
deriving DecidableEq, Inhabited

namespace Trace

/-- The inputs that the execution used. -/
def model (t : Trace) : Model := t.bindings.foldl (fun m b => m.insert b.var b.value) {}

/-- The locations of the clauses in order, each once. -/
def locations (t : Trace) : List LocationId := (t.path.clauses.map (·.location)).eraseDups

end Trace

end MockExplorer
