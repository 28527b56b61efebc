/-!
# Symbolic inputs

A symbolic input is a named variable. The return value of a method of a mock is the variable named after
the mock's slot and the method.
-/

namespace MockExplorer

/-- A symbolic input, known by its name. -/
structure SymVar where
  name : String
deriving DecidableEq, Repr, Inhabited

namespace SymVar

instance : Ord SymVar := ⟨compareOn SymVar.name⟩

instance : Std.TransOrd SymVar := inferInstanceAs (Std.TransCmp (compareOn SymVar.name))

instance : Std.LawfulEqOrd SymVar where
  eq_of_compare {a b} h := by
    have : a.name = b.name := Std.LawfulEqOrd.eq_of_compare h
    cases a; cases b; simp_all

/-- The variable of the return value of `method` on the mock in `slot`. -/
def forCall (slot : UInt32) (method : String) : SymVar :=
  ⟨"mock" ++ toString slot.toNat ++ "." ++ method⟩

end SymVar

end MockExplorer
