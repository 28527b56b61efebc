import MockExplorer.Form.Settings
import MockExplorer.Form.Symbolic
import MockExplorer.Target

/-!
# JSON forms of targets
-/

namespace MockExplorer

open JsonForm

instance : JsonForm Modifiers where
  write m :=
    .object [("is_final", write m.isFinal), ("is_static", write m.isStatic),
      ("is_private", write m.isPrivate)]
  read? j :=
    match j.fields? ["is_final", "is_static", "is_private"] with
    | some [isFinal, isStatic, isPrivate] => do
      return ⟨← required? isFinal, ← required? isStatic, ← required? isPrivate⟩
    | _ => none

instance : JsonForm MethodSig where
  write m :=
    .object [("name", write m.name), ("params", write m.params), ("returns", write m.returns),
      ("modifiers", write m.modifiers)]
  read? j :=
    match j.fields? ["name", "params", "returns", "modifiers"] with
    | some [name, params, returns, modifiers] => do
      return ⟨← required? name, ← required? params, ← required? returns, ← optional? {} modifiers⟩
    | _ => none

/-- A kind without data. -/
def TypeKind.plain? : String → Option TypeKind
  | "interface" => some .interface
  | "primitive" => some .primitive
  | "array" => some .array
  | _ => none

/-- The tag names the kind; the other fields belong to it. As an array, the tag comes first. -/
instance : JsonForm TypeKind where
  write
    | .classType isFinal isAbstract =>
      .object [("kind", .string "class"), ("is_final", write isFinal), ("is_abstract", write isAbstract)]
    | .interface => .object [("kind", .string "interface")]
    | .primitive => .object [("kind", .string "primitive")]
    | .array => .object [("kind", .string "array")]
  read?
    | .object fields =>
      if (Json.object fields).isWhole then
        match pick? "kind" fields with
        | some (some (.string "class")) =>
          match Json.fields? ["is_final", "is_abstract"] (.object fields) with
          | some [isFinal, isAbstract] => do return .classType (← required? isFinal) (← required? isAbstract)
          | _ => none
        | some (some (.string kind)) => TypeKind.plain? kind
        | _ => none
      else none
    | .array [.string "class", isFinal, isAbstract] => do
      return .classType (← read? isFinal) (← read? isAbstract)
    | .array [.string kind] => TypeKind.plain? kind
    | _ => none

def Interception.key : Interception → String
  | .proxy => "proxy"
  | .subclass => "subclass"
  | .callSite => "call_site"

instance : JsonForm Interception where
  write i := .string i.key
  read? := readNamed? [("proxy", .proxy), ("subclass", .subclass), ("call_site", .callSite)]

instance : JsonForm MockTarget where
  write t := .object [("name", write t.name), ("kind", write t.kind), ("methods", write t.methods)]
  read? j :=
    match j.fields? ["name", "kind", "methods"] with
    | some [name, kind, methods] => do return ⟨← required? name, ← required? kind, ← required? methods⟩
    | _ => none

end MockExplorer
