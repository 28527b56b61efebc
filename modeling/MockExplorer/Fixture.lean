import MockExplorer.Campaign.Case

/-!
# The fixture cases

Four test methods compare the return value of a mocked parameter with a literal and mark both arms; a
case is covered once its comparison went both ways. A fifth one asks for a mock of a type that has none.
-/

namespace MockExplorer.Fixture

/-- `final class Final { final int foo() }` -/
def finalTarget : MockTarget :=
  { name := "MockLambdaTests.Final"
    kind := .classType true false
    methods := [{ name := "foo", returns := .int, modifiers := { isFinal := true } }] }

/-- A final class with no interception point at all. -/
def sealedTarget : MockTarget :=
  { name := "MockLambdaTests.Sealed"
    kind := .classType true false
    methods := [{ name := "hidden", returns := .int, modifiers := { isPrivate := true } }] }

/-- Mocks the target, makes the call, and compares its result with a literal at `base`; the two arms
assert at the next two locations. -/
def compareBody (target : MockTarget) (call : Action) (base : UInt32) (rhs : Int64) : Body :=
  .ofList [
    .act (.mock "a" target),
    .act call,
    .branch ⟨base⟩ "value" .eq rhs
      (.act (.assertReached ⟨base + 1⟩ true))
      (.act (.assertReached ⟨base + 2⟩ true))]

/-- A case of one comparison. -/
def compareCase (name : String) (target : MockTarget) (call : Action) (base : UInt32) (rhs : Int64)
    (label : String) : TestCase :=
  { name
    targets := [target]
    locations := [(⟨base⟩, label)]
    tagSites := [(⟨base + 1⟩, label ++ " (then)"), (⟨base + 2⟩, label ++ " (else)")]
    body := compareBody target call base rhs }

/-- The regular cases. -/
def cases : List TestCase := [
  compareCase "testFinal" finalTarget (.invoke "a" "foo" [] "value") 0x100 228 "a.foo() == 228",
  compareCase "testIntSupplier" Capability.intSupplier.descriptor
    (.view "a" .intSupplier .null "value") 0x200 42 "a.getAsInt() == 42",
  compareCase "testBoxedIntSupplier" Capability.supplier.descriptor
    (.view "a" .supplier .null "value") 0x300 333 "a.get() == 333",
  compareCase "testFunction" Capability.function.descriptor
    (.view "a" .function .null "value") 0x400 909 "a.apply(null) == 909L"]

/-- The case that no policy can mock. -/
def sealedCase : TestCase :=
  { name := "testSealed", targets := [sealedTarget], body := .act (.mock "a" sealedTarget) }

/-- All cases, the unmockable one last. -/
def all : List TestCase := cases ++ [sealedCase]

def find? (name : String) : Option TestCase := all.find? (·.name = name)

/-- The types that can be mocked by name. -/
def shipped? : String → Option MockTarget
  | "final" => some finalTarget
  | "sealed" => some sealedTarget
  | "IntSupplier" => some Capability.intSupplier.descriptor
  | "Supplier" => some Capability.supplier.descriptor
  | "Function" => some Capability.function.descriptor
  | _ => none

end MockExplorer.Fixture
