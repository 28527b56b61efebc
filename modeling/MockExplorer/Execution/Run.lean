import MockExplorer.Coverage.Oracle
import MockExplorer.Execution.Body
import MockExplorer.Execution.Trace

/-!
# Running a test body

A run threads the state of an execution through the statements of a body. It never reads an oracle:
what it would report is collected as observations, so runs of different workers do not depend on each
other.
-/

namespace MockExplorer

/-- What a run tells of itself. -/
inductive LogEntry where
  | created (m : MockInstance)
  | kept (v : ConcolicValue)
  | branched (location : LocationId) (taken : Bool)
  | reached (location : LocationId)
  | raised (e : MockError)
deriving DecidableEq, Inhabited

/-- The mocks and values that were kept, by name. -/
structure Scope where
  mocks : SortedMap String MockInstance := ∅
  values : SortedMap String ConcolicValue := ∅
deriving DecidableEq, Inhabited

/-- The state of an execution whose resolver has state `σ`. -/
structure Execution (σ : Type) where
  id : UInt64
  calls : CallState σ
  branches : UInt64 := 0
  assertions : UInt64 := 0
  cancelled : Bool := false
  scope : Scope := {}
  /-- The mocks a resolver can call, in order of creation. -/
  roster : List MockInstance := []
  /-- Whether statements neither log nor enter mocks into the roster. -/
  silent : Bool := false
  /-- Reports to the oracle, latest first. -/
  observations : List Observation := []
  /-- The log, latest entry first. -/
  log : List LogEntry := []

/-- How calls are resolved and how deep they may nest. -/
structure Resolution (σ : Type) where
  resolver : Resolver σ
  depth : Nat := 0

namespace Execution

variable {σ : Type}

def provider (x : Execution σ) : Provider := x.calls.provider

def withProvider (x : Execution σ) (p : Provider) : Execution σ :=
  { x with calls := { x.calls with provider := p } }

def write (x : Execution σ) (e : LogEntry) : Execution σ :=
  if x.silent then x else { x with log := e :: x.log }

def observe (x : Execution σ) (o : Observation) : Execution σ :=
  { x with observations := o :: x.observations }

/-- Keeps a mock under a name. -/
def keepMock (x : Execution σ) (name : String) (m : MockInstance) : Execution σ :=
  { x with
    scope := { x.scope with mocks := x.scope.mocks.insert name m }
    roster := if x.silent then x.roster else x.roster ++ [m] }

/-- Keeps a value under a name. -/
def keepValue (x : Execution σ) (name : String) (v : ConcolicValue) : Execution σ :=
  { x with scope := { x.scope with values := x.scope.values.insert name v } }

/-- Decides a condition at a location, records the predicate that held, and reports the outcome. -/
def branch (x : Execution σ) (l : LocationId) (c : Condition) : Bool × Execution σ :=
  let outcome := c.evaluate
  let x := match c.taken? with
    | some p => x.withProvider (x.provider.record ⟨l, p⟩)
    | none => x
  (outcome, { x with branches := x.branches + 1 }.observe (.branch l outcome))

def assertReached (x : Execution σ) (l : LocationId) (literal : Bool) : Execution σ :=
  { x with assertions := x.assertions + 1 }.observe (.tag l literal)

/-- The trace so far. -/
def trace (x : Execution σ) : Trace :=
  { id := x.id, path := x.provider.path, bindings := x.provider.bindings.values
    branches := x.branches, assertions := x.assertions }

end Execution

/-- The state after a statement, and why the run stopped there, if it did. -/
abbrev Outcome (σ : Type) := Execution σ × Option Halt

variable {σ : Type}

/-- Calls a mock of the scope by `call` and keeps the result. -/
def Execution.callNamed (x : Execution σ) (mock : String)
    (call : CallState σ → MockInstance → CallResult σ ConcolicValue) (name : String) : Outcome σ :=
  match x.scope.mocks.get? mock with
  | none => (x, some (.raised (.outOfScope ("mock " ++ mock))))
  | some m =>
    match call x.calls m with
    | (.error h, c) => ({ x with calls := c }, some h)
    | (.ok v, c) => (({ x with calls := c }.keepValue name v).write (.kept v), none)

def Action.run (r : Resolution σ) (a : Action) (x : Execution σ) : Outcome σ :=
  match a with
  | .mock name target =>
    match x.provider.createMock target with
    | .error e => (x, some (.raised e))
    | .ok (m, p) =>
      -- The counter of slots came back to zero: adding to it overflowed.
      if p.nextSlot = 0 then (x, some .crashed)
      else (((x.withProvider p).keepMock name m).write (.created m), none)
  | .invoke receiver method args name =>
    x.callNamed receiver (fun c m => r.resolver.invoke x.roster r.depth c m method args) name
  | .call receiver args name =>
    x.callNamed receiver (fun c m => r.resolver.invokeOnly x.roster r.depth c m args) name
  | .view receiver capability arg name =>
    x.callNamed receiver (fun c m => r.resolver.invokeView x.roster r.depth c m capability arg) name
  | .keep v name => ((x.keepValue name v).write (.kept v), none)
  | .assertReached l literal => (x.assertReached l literal, none)
  | .reached site literal =>
    ((x.observe (.tag site.location literal)).write (.reached site.location), none)
  | .record clause => (x.withProvider (x.provider.record clause), none)
  | .fail e => (x, some (.raised e))
  | .crash => (x, some .crashed)
  | .cancel => ({ x with cancelled := true }, none)

/-- Repeats a statement until it stops. -/
def repeatRun (step : Execution σ → Outcome σ) : Nat → Execution σ → Outcome σ
  | 0, x => (x, none)
  | n + 1, x =>
    match step x with
    | (x, none) => repeatRun step n x
    | stopped => stopped

def Body.run (r : Resolution σ) : Body → Execution σ → Outcome σ
  | .skip, x => (x, none)
  | .seq a b, x =>
    match a.run r x with
    | (x, none) => b.run r x
    | stopped => stopped
  | .act a, x => a.run r x
  | .branch l value op rhs t e, x =>
    match x.scope.values.get? value with
    | none => (x, some (.raised (.outOfScope ("value " ++ value))))
    | some v =>
      match x.branch l ⟨v, op, rhs⟩ with
      | (true, x) => t.run r (x.write (.branched l true))
      | (false, x) => e.run r (x.write (.branched l false))
  | .times n b, x => repeatRun (b.run r) n x
  | .attempt b recovery, x =>
    match b.run r x with
    | (x, some (.raised e)) => recovery.run r (x.write (.raised e))
    | other => other
  | .enclosed b, x =>
    match b.run r { x with scope := {}, silent := true } with
    | (y, h) => ({ y with scope := x.scope, silent := x.silent }, h)

/-! ## Whole executions -/

/-- Runs statements one by one. An error is logged and the next statement follows; a crash ends all. -/
def runEach (r : Resolution σ) : List Body → Execution σ → List (List LogEntry) × Execution σ
  | [], x => ([], x)
  | b :: rest, x =>
    match b.run r { x with log := [] } with
    | (x, some .crashed) => ([x.log.reverse], x)
    | (x, some (.raised e)) =>
      let (logs, y) := runEach r rest x
      ((LogEntry.raised e :: x.log).reverse :: logs, y)
    | (x, none) =>
      let (logs, y) := runEach r rest x
      (x.log.reverse :: logs, y)

/-- What is left of the run of a test case: a trace or why there is none, what it reported, and whether
it asked the campaign to stop. -/
structure Run where
  result : Except Halt Trace
  observations : List Observation
  cancels : Bool

/-- An execution before its first statement, with assumptions that its inputs have to meet. -/
def Execution.start (config : MockConfig) (id : UInt64) (assumptions : List Predicate) (state : σ) :
    Execution σ :=
  { id, calls := ⟨{ config, assumptions }, state⟩ }

/-- Runs a body from the start under a model, to the state in which the run ends or stops. -/
def Body.runUnder (b : Body) (config : MockConfig) (id : UInt64) (m : Model)
    (assumptions : List Predicate) : Outcome Unit :=
  b.run { resolver := .ofModel m } (.start config id assumptions ())

/-- Runs a body from the start under a model, with assumptions its inputs have to meet. -/
def Body.execute (b : Body) (config : MockConfig) (id : UInt64) (m : Model) (assumptions : List Predicate) :
    Run :=
  match b.runUnder config id m assumptions with
  | (x, none) => ⟨.ok x.trace, x.observations.reverse, x.cancelled⟩
  | (x, some h) => ⟨.error h, x.observations.reverse, x.cancelled⟩

end MockExplorer
