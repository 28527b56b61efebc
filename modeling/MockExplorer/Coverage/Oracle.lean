import MockExplorer.Coverage.Report
import MockExplorer.SortedMap

/-!
# The branch oracle

An oracle counts, per program point, the outcomes of branches and the assertions that were reached. It
takes in observations one at a time, and observations on different or equal points commute, so workers
that report to one oracle need no order among themselves.
-/

namespace MockExplorer

/-- What an oracle knows of a branch point. -/
structure PointCell where
  state : BranchState := .unreached
  trueHits : UInt64 := 0
  falseHits : UInt64 := 0
deriving DecidableEq, Inhabited

def PointCell.hit (c : PointCell) (outcome : Bool) : PointCell :=
  match outcome with
  | true => { c with state := c.state.after .onTrue, trueHits := c.trueHits + 1 }
  | false => { c with state := c.state.after .onFalse, falseHits := c.falseHits + 1 }

/-- The assertions counted at a program point, by their literal. -/
structure TagCell where
  trueTags : UInt64 := 0
  falseTags : UInt64 := 0
deriving DecidableEq, Inhabited

def TagCell.tag (c : TagCell) (literal : Bool) : TagCell :=
  match literal with
  | true => { c with trueTags := c.trueTags + 1 }
  | false => { c with falseTags := c.falseTags + 1 }

/-- One report to an oracle: a branch went one way, or an assertion was reached. -/
inductive Observation where
  | branch (location : LocationId) (outcome : Bool)
  | tag (location : LocationId) (literal : Bool)
deriving DecidableEq, Inhabited

/-- Branch points, assertion counts and labels. -/
structure Oracle where
  points : SortedMap LocationId PointCell := ∅
  tags : SortedMap LocationId TagCell := ∅
  labels : SortedMap LocationId String := ∅
deriving DecidableEq, Inhabited

namespace Oracle

/-- Counts one outcome of the branch at a location. -/
def onBranch (o : Oracle) (l : LocationId) (outcome : Bool) : Oracle :=
  { o with points := o.points.update l {} (·.hit outcome) }

/-- Counts one assertion at a location. The literal is counted and never checked. -/
def assertReached (o : Oracle) (l : LocationId) (literal : Bool) : Oracle :=
  { o with tags := o.tags.update l {} (·.tag literal) }

def observe (o : Oracle) : Observation → Oracle
  | .branch l outcome => o.onBranch l outcome
  | .tag l literal => o.assertReached l literal

/-- Takes in observations in order. -/
def observeAll (o : Oracle) (obs : List Observation) : Oracle := obs.foldl observe o

def state (o : Oracle) (l : LocationId) : BranchState := ((o.points.get? l).getD {}).state

def isComplete (o : Oracle) (l : LocationId) : Bool := (o.state l).isComplete

def allComplete (o : Oracle) (ls : List LocationId) : Bool := ls.all o.isComplete

/-- The assertions counted at a location. -/
def tagsAt (o : Oracle) (l : LocationId) : TagCell := (o.tags.get? l).getD {}

/-- Names a location for reports; the last name given stays. -/
def label (o : Oracle) (l : LocationId) (name : String) : Oracle :=
  { o with labels := o.labels.insert l name }

def labelAll (o : Oracle) (names : List (LocationId × String)) : Oracle :=
  names.foldl (fun o e => o.label e.1 e.2) o

def branchPoints (o : Oracle) : List LocationId := o.points.keys

def snapshot (o : Oracle) : List (LocationId × BranchState) :=
  o.points.entries.map fun e => (e.1, e.2.state)

/-- Forgets all points and counts; labels stay. -/
def reset (o : Oracle) : Oracle := { labels := o.labels }

def pointReports (o : Oracle) : List PointReport :=
  o.points.entries.map fun (l, c) =>
    { location := l, label := o.labels.get? l, state := c.state
      trueHits := c.trueHits, falseHits := c.falseHits }

def tagReports (o : Oracle) : List TagReport :=
  o.tags.entries.map fun (l, c) =>
    { location := l, label := o.labels.get? l, trueTags := c.trueTags, falseTags := c.falseTags }

def report (o : Oracle) : BranchReport :=
  { points := o.pointReports, tags := o.tagReports, summary := .ofPoints o.pointReports }

end Oracle

end MockExplorer
