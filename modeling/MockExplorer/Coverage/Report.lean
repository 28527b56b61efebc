import MockExplorer.Coverage.BranchState
import MockExplorer.Location

/-!
# Coverage reports

What an oracle has seen, point by point, with a summary over all points.
-/

namespace MockExplorer

structure PointReport where
  location : LocationId
  label : Option String
  state : BranchState
  trueHits : UInt64
  falseHits : UInt64
deriving DecidableEq, Inhabited

structure TagReport where
  location : LocationId
  label : Option String
  trueTags : UInt64
  falseTags : UInt64
deriving DecidableEq, Inhabited

structure BranchSummary where
  totalPoints : UInt64
  completePoints : UInt64
  reachedOutcomes : UInt64
  coveragePercent : Float
deriving Inhabited

/-- A snapshot of an oracle. -/
structure BranchReport where
  points : List PointReport
  tags : List TagReport
  summary : BranchSummary
deriving Inhabited

/-- The share of reached outcomes in percent; with no points at all, everything is covered. -/
def coveragePercent (reached points : Nat) : Float :=
  if points = 0 then 100.0 else Float.ofNat reached / Float.ofNat (2 * points) * 100.0

def BranchSummary.ofPoints (points : List PointReport) : BranchSummary :=
  let reached := points.foldl (fun n p => n + p.state.outcomes) 0
  { totalPoints := .ofNat points.length
    completePoints := .ofNat (points.countP (·.state.isComplete))
    reachedOutcomes := .ofNat reached
    coveragePercent := MockExplorer.coveragePercent reached points.length }

namespace BranchReport

def incomplete (r : BranchReport) : List PointReport := r.points.filter (!·.state.isComplete)

def isComplete (r : BranchReport) : Bool := r.points.all (·.state.isComplete)

end BranchReport

end MockExplorer
