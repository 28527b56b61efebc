import MockExplorer.Coverage.Oracle

/-!
# Installed oracles

Several numbered oracles live side by side, and at most one of them is installed to receive the
assertions of code that names none. Installing one returns a guard that remembers what was installed
before; dropping the latest guard restores that.
-/

namespace MockExplorer

/-- Numbered oracles, the installed one, and what each live guard restores, latest guard first. -/
structure Installation where
  oracles : SortedMap Nat Oracle := ∅
  installed : Option Nat := none
  guards : List (Option Nat) := []
deriving DecidableEq, Inhabited

namespace Installation

/-- The oracle of a number; one never used is empty. -/
def oracle (s : Installation) (k : Nat) : Oracle := (s.oracles.get? k).getD {}

def setOracle (s : Installation) (k : Nat) (o : Oracle) : Installation :=
  { s with oracles := s.oracles.insert k o }

/-- Installs an oracle. -/
def enter (s : Installation) (k : Nat) : Installation :=
  { s with installed := some k, guards := s.installed :: s.guards }

/-- Drops the latest guard, if any is live. -/
def leave (s : Installation) : Installation :=
  match s.guards with
  | [] => s
  | before :: rest => { s with installed := before, guards := rest }

/-- The number of live guards. -/
def depth (s : Installation) : Nat := s.guards.length

/-- An assertion reached at a source position: counted by the installed oracle, if there is one. -/
def reached (s : Installation) (site : SourceSite) (literal : Bool) : Installation :=
  match s.installed with
  | none => s
  | some k => s.setOracle k ((s.oracle k).assertReached site.location literal)

end Installation

end MockExplorer
