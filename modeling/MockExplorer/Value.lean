/-!
# Values a mocked method can return

The declared types of methods, the concrete values that inhabit them, and the one numeric reading of a
value that conditions compare. A null value and an empty box have no numeric reading.
-/

namespace MockExplorer

/-- A declared parameter or return type. -/
inductive ValueType where
  | bool
  | int
  | long
  | boxedInt
  | object
  | void
deriving DecidableEq, Repr, Inhabited

/-- A concrete value. A box holds an `Int32` or is empty. -/
inductive Value where
  | null
  | bool (b : Bool)
  | int (n : Int32)
  | long (n : Int64)
  | boxed (n : Option Int32)
deriving DecidableEq, Inhabited

namespace ValueType

/-- Every type, in declared order. -/
def all : List ValueType := [.bool, .int, .long, .boxedInt, .object, .void]

/-- The type as it is shown in signatures. -/
def text : ValueType → String
  | .bool => "boolean"
  | .int => "int"
  | .long => "long"
  | .boxedInt => "Integer"
  | .object => "Object"
  | .void => "void"

/-- Whether a method with this return type produces a value at all. -/
def isResolvable (ty : ValueType) : Bool := ty ≠ .void

/-- The value of the type that is returned where nothing else is asked for. -/
def default : ValueType → Value
  | .bool => .bool false
  | .int => .int 0
  | .long => .long 0
  | .boxedInt => .boxed (some 0)
  | .object => .null
  | .void => .null

/-- Whether values of the type have a numeric reading. -/
def isNumeric : ValueType → Bool
  | .bool | .int | .long | .boxedInt => true
  | .object | .void => false

end ValueType

namespace Value

/-- The value as it is shown in reports; a `long` carries the suffix `L`. -/
def text : Value → String
  | .null => "null"
  | .bool true => "true"
  | .bool false => "false"
  | .int n => toString n.toInt
  | .long n => toString n.toInt ++ "L"
  | .boxed none => "null"
  | .boxed (some n) => toString n.toInt

/-- Whether the value inhabits the type. -/
def conformsTo : Value → ValueType → Bool
  | .bool _, .bool => true
  | .int _, .int => true
  | .long _, .long => true
  | .boxed _, .boxedInt => true
  | .null, .boxedInt => true
  | .null, .object => true
  | .null, .void => true
  | _, _ => false

/-- The numeric reading: integers as they are, truth values as one and zero. -/
def toInt64? : Value → Option Int64
  | .null => none
  | .bool b => some (if b then 1 else 0)
  | .int n => some n.toInt64
  | .long n => some n
  | .boxed n => n.map Int32.toInt64

end Value

/-- The 32-bit integer of the same value, if there is one. -/
def Value.narrow? (n : Int64) : Option Int32 :=
  if n.toInt32.toInt64 = n then some n.toInt32 else none

/-- The value of type `ty` whose numeric reading is `raw`, if there is one. -/
def ValueType.ofInt64? (ty : ValueType) (raw : Int64) : Option Value :=
  match ty with
  | .bool => if raw = 0 then some (.bool false) else if raw = 1 then some (.bool true) else none
  | .int => (Value.narrow? raw).map .int
  | .long => some (.long raw)
  | .boxedInt => (Value.narrow? raw).map fun n => .boxed (some n)
  | .object => none
  | .void => none

end MockExplorer
