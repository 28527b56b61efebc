import MockExplorer.Json.Basic

/-!
# JSON forms

A type has a JSON form when its values can be written as documents and read back. Reading accepts more
than writing produces: unknown fields are ignored, and a record may also be written as the array of its
fields in declared order.
-/

namespace MockExplorer

/-- How values are written as documents and read from them. -/
class JsonForm (α : Type) where
  write : α → Json
  read? : Json → Option α

open JsonForm

/-! ## Scalars -/

instance : JsonForm Bool where
  write := .bool
  read?
    | .bool b => some b
    | _ => none

instance : JsonForm String where
  write := .string
  read?
    | .string s => some s
    | _ => none

instance : JsonForm UInt32 where
  write n := .int n.toNat
  read?
    | .int n => if 0 ≤ n ∧ n < UInt32.size then some (.ofNat n.toNat) else none
    | _ => none

instance : JsonForm UInt64 where
  write n := .int n.toNat
  read?
    | .int n => if 0 ≤ n ∧ n < UInt64.size then some (.ofNat n.toNat) else none
    | _ => none

instance : JsonForm Int32 where
  write n := .int n.toInt
  read?
    | .int n => if Int32.minValue.toInt ≤ n ∧ n ≤ Int32.maxValue.toInt then some (.ofInt n) else none
    | _ => none

instance : JsonForm Int64 where
  write n := .int n.toInt
  read?
    | .int n => if Int64.minValue.toInt ≤ n ∧ n ≤ Int64.maxValue.toInt then some (.ofInt n) else none
    | _ => none

/-- A double may be written as an integer; it is then the nearest double. -/
instance : JsonForm Float where
  write := .float
  read?
    | .float x => some x
    | .int n => some (if 0 ≤ n then n.toNat.toUInt64.toFloat else (Int64.ofInt n).toFloat)
    | _ => none

/-! ## Collections -/

instance {α : Type} [JsonForm α] : JsonForm (List α) where
  write l := .array (l.map write)
  read?
    | .array items => items.mapM read?
    | _ => none

/-- Absence is written as null. -/
instance {α : Type} [JsonForm α] : JsonForm (Option α) where
  write
    | none => .null
    | some a => write a
  read?
    | .null => some none
    | j => (read? j).map some

/-! ## Records -/

/-- The only value under a name, if it stands there at most once. -/
def pick? (name : String) (fields : List (String × Json)) : Option (Option Json) :=
  match fields.filter fun f => f.1 = name with
  | [] => some none
  | [f] => some (some f.2)
  | _ => none

/-- The values of the named fields of a record, in declared order. -/
def Json.fields? (names : List String) : Json → Option (List (Option Json))
  | .object fields => names.mapM fun name => pick? name fields
  | .array items =>
    if items.length ≤ names.length then
      some (items.map some ++ List.replicate (names.length - items.length) none)
    else none
  | _ => none

variable {α : Type} [JsonForm α]

/-- A field that has to be there. -/
def required? (j : Option Json) : Option α := j.bind read?

/-- A field that may be left out. -/
def optional? (default : α) : Option Json → Option α
  | none => some default
  | some j => read? j

/-! ## Names -/

/-- The name of a constant, as a string or as the only field of an object. -/
def Json.constant? : Json → Option String
  | .string s => some s
  | .object [(s, .null)] => some s
  | _ => none

/-- Reads one of some named constants. -/
def readNamed? {β : Type} (names : List (String × β)) (j : Json) : Option β :=
  j.constant?.bind fun s => names.lookup s

end MockExplorer
