import MockExplorer.Form.Basic
import MockExplorer.Symbolic.Model
import MockExplorer.Symbolic.Path

/-!
# JSON forms of values, predicates, paths and models
-/

namespace MockExplorer

open JsonForm

def ValueType.key : ValueType → String
  | .bool => "bool"
  | .int => "int"
  | .long => "long"
  | .boxedInt => "boxed_int"
  | .object => "object"
  | .void => "void"

instance : JsonForm ValueType where
  write ty := .string ty.key
  read? := readNamed? (ValueType.all.map fun ty => (ty.key, ty))

/-- The value of a kind with its content. Only a null and an empty box need no content. -/
def Value.ofParts? (kind : String) (content : Option Json) : Option Value :=
  match kind with
  | "null" =>
    match content with
    | none | some .null => some .null
    | _ => none
  | "bool" => (required? content).map .bool
  | "int" => (required? content).map .int
  | "long" => (required? content).map .long
  | "boxed" => (optional? none content).map .boxed
  | _ => none

instance : JsonForm Value where
  write
    | .null => .object [("type", .string "null")]
    | .bool b => .object [("type", .string "bool"), ("value", write b)]
    | .int n => .object [("type", .string "int"), ("value", write n)]
    | .long n => .object [("type", .string "long"), ("value", write n)]
    | .boxed n => .object [("type", .string "boxed"), ("value", write n)]
  read?
    | .object fields =>
      match pick? "type" fields, pick? "value" fields with
      | some (some kind), some content => kind.constant?.bind fun kind => Value.ofParts? kind content
      | _, _ => none
    | .array [.string kind, content] => Value.ofParts? kind (some content)
    | _ => none

instance : JsonForm SymVar where
  write v := .string v.name
  read? j := (read? j).map SymVar.mk

instance : JsonForm LocationId where
  write l := write l.id
  read? j := (read? j).map LocationId.mk

def CmpOp.key : CmpOp → String
  | .eq => "eq"
  | .ne => "ne"

instance : JsonForm CmpOp where
  write op := .string op.key
  read? := readNamed? [("eq", .eq), ("ne", .ne)]

instance : JsonForm Predicate where
  write p :=
    .object [("var", write p.var), ("ty", write p.ty), ("op", write p.op), ("rhs", write p.rhs)]
  read? j :=
    match j.fields? ["var", "ty", "op", "rhs"] with
    | some [var, ty, op, rhs] => do
      return ⟨← required? var, ← required? ty, ← required? op, ← required? rhs⟩
    | _ => none

instance : JsonForm Clause where
  write c := .object [("location", write c.location), ("predicate", write c.predicate)]
  read? j :=
    match j.fields? ["location", "predicate"] with
    | some [location, predicate] => do return ⟨← required? location, ← required? predicate⟩
    | _ => none

/-- A map from inputs is an object. Of two fields with one name the later counts. -/
instance {α : Type} [JsonForm α] : JsonForm (SortedMap SymVar α) where
  write m := .object (m.entries.map fun e => (e.1.name, write e.2))
  read?
    | .object fields =>
      (fields.mapM fun f => (read? f.2).map fun a => (SymVar.mk f.1, a)).map SortedMap.ofList
    | _ => none

instance : JsonForm PathCondition where
  write p := .object [("inputs", write p.inputs), ("clauses", write p.clauses)]
  read? j :=
    match j.fields? ["inputs", "clauses"] with
    | some [inputs, clauses] => do return ⟨← required? inputs, ← required? clauses⟩
    | _ => none

instance : JsonForm Model where
  write m := .object [("assignments", write m.assignments)]
  read? j :=
    match j.fields? ["assignments"] with
    | some [assignments] => do return ⟨← required? assignments⟩
    | _ => none

end MockExplorer
