import MockExplorer.Decimal.Shortest

/-!
# JSON documents

A document as a value, and its two written forms: compact, and pretty with two spaces of indentation.
Fields keep their order, and a name may stand twice.
-/

namespace MockExplorer

/-- A JSON document. `broken` stands for a part that is well formed but has no value: a string with half
a surrogate pair, a number beyond the range of doubles, or a bracket that is nested too deeply. -/
inductive Json where
  | null
  | bool (b : Bool)
  | int (n : Int)
  | float (x : Float)
  | string (s : String)
  | array (items : List Json)
  | object (fields : List (String × Json))
  | broken
deriving Inhabited

namespace Json

/-! ## Text -/

/-- A character inside a string literal. Only quotes, backslashes and control characters are escaped. -/
def escapeChar (c : Char) : List Char :=
  if c = '"' then ['\\', '"']
  else if c = '\\' then ['\\', '\\']
  else if c = '\n' then ['\\', 'n']
  else if c = '\r' then ['\\', 'r']
  else if c = '\t' then ['\\', 't']
  else if c = Char.ofNat 8 then ['\\', 'b']
  else if c = Char.ofNat 12 then ['\\', 'f']
  else if c.toNat < 32 then
    ['\\', 'u', '0', '0'] ++ (if c.toNat < 16 then ['0'] else []) ++ Nat.toDigits 16 c.toNat
  else [c]

/-- A string literal. -/
def quote (s : String) : String := "\"" ++ String.ofList (s.toList.flatMap escapeChar) ++ "\""

/-- A number with a fraction; what is no number is written as null. -/
def floatLiteral (x : Float) : String := (Decimal.floatText? x).getD "null"

mutual

/-- The text without blanks. -/
def compact : Json → String
  | .null => "null"
  | .bool true => "true"
  | .bool false => "false"
  | .int n => toString n
  | .float x => floatLiteral x
  | .string s => quote s
  | .array items => "[" ++ ",".intercalate (compactItems items) ++ "]"
  | .object fields => "\x7b" ++ ",".intercalate (compactFields fields) ++ "\x7d"
  | .broken => "null"

def compactItems : List Json → List String
  | [] => []
  | j :: rest => compact j :: compactItems rest

def compactFields : List (String × Json) → List String
  | [] => []
  | (k, j) :: rest => (quote k ++ ":" ++ compact j) :: compactFields rest

end

def indent (depth : Nat) : String := String.ofList (List.replicate (2 * depth) ' ')

/-- Lines between two brackets, each indented one step deeper than the brackets. -/
def bracketed (opening closing : String) (depth : Nat) (lines : List String) : String :=
  match lines with
  | [] => opening ++ closing
  | _ =>
    opening ++ "\n" ++ ",\n".intercalate (lines.map (indent (depth + 1) ++ ·)) ++ "\n" ++ indent depth
      ++ closing

mutual

/-- The text with one item to a line, starting at a depth of indentation. -/
def prettyAt (depth : Nat) : Json → String
  | .null => "null"
  | .bool true => "true"
  | .bool false => "false"
  | .int n => toString n
  | .float x => floatLiteral x
  | .string s => quote s
  | .array items => bracketed "[" "]" depth (prettyItems (depth + 1) items)
  | .object fields => bracketed "\x7b" "\x7d" depth (prettyFields (depth + 1) fields)
  | .broken => "null"

def prettyItems (depth : Nat) : List Json → List String
  | [] => []
  | j :: rest => prettyAt depth j :: prettyItems depth rest

def prettyFields (depth : Nat) : List (String × Json) → List String
  | [] => []
  | (k, j) :: rest => (quote k ++ ": " ++ prettyAt depth j) :: prettyFields depth rest

end

/-- The text with one item to a line. -/
def pretty (j : Json) : String := prettyAt 0 j

/-! ## Shape -/

mutual

/-- Whether no part of the document is broken. -/
def isWhole : Json → Bool
  | .array items => allWhole items
  | .object fields => allWholeFields fields
  | .broken => false
  | _ => true

def allWhole : List Json → Bool
  | [] => true
  | j :: rest => isWhole j && allWhole rest

def allWholeFields : List (String × Json) → Bool
  | [] => true
  | (_, j) :: rest => isWhole j && allWholeFields rest

end

mutual

/-- The document with the fields of every object in the order of their names. -/
def sortKeys : Json → Json
  | .array items => .array (sortItems items)
  | .object fields =>
    .object ((sortFields fields).mergeSort fun a b => compare a.1 b.1 != .gt)
  | j => j

def sortItems : List Json → List Json
  | [] => []
  | j :: rest => sortKeys j :: sortItems rest

def sortFields : List (String × Json) → List (String × Json)
  | [] => []
  | (k, j) :: rest => (k, sortKeys j) :: sortFields rest

end

end Json

end MockExplorer
