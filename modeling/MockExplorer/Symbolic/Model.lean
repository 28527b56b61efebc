import MockExplorer.SortedMap
import MockExplorer.Symbolic.Variable
import MockExplorer.Value

/-!
# Models

A model assigns values to symbolic inputs. An input that it leaves open takes the default of its type.
-/

namespace MockExplorer

/-- An assignment of values to symbolic inputs. -/
structure Model where
  assignments : SortedMap SymVar Value := ∅
deriving DecidableEq, Inhabited

namespace Model

def insert (m : Model) (var : SymVar) (v : Value) : Model := ⟨m.assignments.insert var v⟩

def get? (m : Model) (var : SymVar) : Option Value := m.assignments.get? var

def size (m : Model) : Nat := m.assignments.size

/-- The value of an input of type `ty`. -/
def resolve (m : Model) (var : SymVar) (ty : ValueType) : Value := (m.get? var).getD ty.default

end Model

end MockExplorer
