import MockExplorer.Symbolic.Path
import MockExplorer.Target

/-!
# Mocks of one execution

The provider hands out mocks and keeps the table of bound return values. The first call of a method of a
mock binds its return value for the rest of the execution; later calls replay the binding. A value is
bound only if it conforms to the declared type and satisfies every assumption on its input.
-/

namespace MockExplorer

/-- The slot of a mock, counted from zero in order of creation. -/
structure MockId where
  slot : UInt32
deriving DecidableEq, Repr, Inhabited

def MockId.text (m : MockId) : String := "mock" ++ toString m.slot.toNat

/-- A method of a mock. -/
structure BindingKey where
  mock : MockId
  method : String
deriving DecidableEq, Repr, Inhabited

namespace BindingKey

/-- Keys are ordered by slot, then by method name. -/
instance : Ord BindingKey :=
  ⟨compareLex (compareOn fun k => k.mock.slot) (compareOn BindingKey.method)⟩

instance : Std.TransOrd BindingKey :=
  inferInstanceAs (Std.TransCmp (compareLex (compareOn fun k => k.mock.slot) (compareOn BindingKey.method)))

instance : Std.LawfulEqOrd BindingKey where
  eq_of_compare {a b} h := by
    have h := compareLex_eq_eq.1 h
    have hs : a.mock.slot = b.mock.slot := Std.LawfulEqOrd.eq_of_compare h.1
    have hm : a.method = b.method := Std.LawfulEqOrd.eq_of_compare h.2
    obtain ⟨⟨_⟩, _⟩ := a
    obtain ⟨⟨_⟩, _⟩ := b
    simp_all

def var (k : BindingKey) : SymVar := .forCall k.mock.slot k.method

end BindingKey

/-- A return value bound for the rest of the execution. -/
structure Binding where
  var : SymVar
  value : Value
  firstArgs : List Value
  calls : UInt64
deriving DecidableEq, Inhabited

/-- A mock that was handed out. -/
structure MockInstance where
  id : MockId
  target : MockTarget
  interception : Interception
deriving DecidableEq, Inhabited

/-- What an attached recorder is told. -/
inductive JournalEntry where
  | input (var : SymVar) (ty : ValueType)
  | clause (c : Clause)
deriving DecidableEq, Inhabited

/-- The mocks, bindings and path of one execution. A recorder is attached if there is a journal. -/
structure Provider where
  config : MockConfig := {}
  assumptions : List Predicate := []
  path : PathCondition := {}
  bindings : SortedMap BindingKey Binding := ∅
  nextSlot : UInt32 := 0
  journal : Option (List JournalEntry) := none
deriving DecidableEq, Inhabited

namespace Provider

/-- Tells the recorder, if one is attached. -/
def note (p : Provider) (e : JournalEntry) : Provider :=
  { p with journal := p.journal.map (· ++ [e]) }

/-- Registers the return value of a method as a symbolic input. -/
def registerInput (p : Provider) (var : SymVar) (ty : ValueType) : Provider :=
  { p with path := p.path.register var ty }.note (.input var ty)

/-- Appends a clause to the path. -/
def record (p : Provider) (c : Clause) : Provider :=
  { p with path := p.path.record c }.note (.clause c)

/-- Registers the return values of methods of the mock in `slot`. -/
def registerAll (p : Provider) (slot : UInt32) (ms : List MethodSig) : Provider :=
  ms.foldl (fun p m => p.registerInput (.forCall slot m.name) m.returns) p

/-- Hands out a mock of the target, if the policy admits one. -/
def createMock (p : Provider) (t : MockTarget) : Except MockError (MockInstance × Provider) :=
  match t.classify p.config with
  | .error e => .error e
  | .ok how =>
    .ok (⟨⟨p.nextSlot⟩, t, how⟩,
      { p with nextSlot := p.nextSlot + 1 }.registerAll p.nextSlot t.interceptable)

/-- Serves a call from the table. -/
def replay? (p : Provider) (k : BindingKey) (sig : MethodSig) : Option (ConcolicValue × Provider) :=
  (p.bindings.get? k).map fun b =>
    (⟨b.value, sig.returns, some b.var⟩,
      { p with bindings := p.bindings.insert k { b with calls := b.calls + 1 } })

/-- Binds the value that was resolved for a method, unless it was bound while it was being resolved. -/
def bind (p : Provider) (k : BindingKey) (sig : MethodSig) (args : List Value) (v : Value) :
    Except MockError (ConcolicValue × Provider) :=
  match p.replay? k sig with
  | some served => .ok served
  | none =>
    if v.conformsTo sig.returns = false then
      .error (.inconsistent k.var.name
        ("resolver produced " ++ v.text ++ ", declared type is " ++ sig.returns.text))
    else
      match p.assumptions.find? fun a => a.var = k.var && !a.holds v with
      | some violated =>
        .error (.inconsistent k.var.name
          ("resolver produced " ++ v.text ++ ", path requires " ++ violated.text))
      | none =>
        .ok (⟨v, sig.returns, some k.var⟩,
          { p with bindings := p.bindings.insert k ⟨k.var, v, args, 1⟩ })

end Provider

end MockExplorer
