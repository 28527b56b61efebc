import MockExplorer.Yaml.Library
import MockExplorer.Yaml.Node

/-!
# Nodes as documents, and block style

A library whose documents are nodes. Numbers and truth values are plain scalars; a quoted one is a text.
Sections are written in block style, every key on a line of its own.
-/

namespace MockExplorer.Yaml

/-! ## Scalars -/

def readBool? : Node → Option Bool
  | .scalar text true =>
    if text = "true" || text = "True" || text = "TRUE" then some true
    else if text = "false" || text = "False" || text = "FALSE" then some false
    else none
  | _ => none

def digitIn? (radix : Nat) (c : Char) : Option Nat :=
  (Json.hexValue? c).bind fun d => if d < radix then some d else none

/-- A natural number of at least one digit. -/
def natIn? (radix : Nat) (cs : List Char) : Option Nat :=
  if cs.isEmpty then none else cs.foldlM (fun n c => (digitIn? radix c).map (n * radix + ·)) 0

/-- Digits after a leading zero are a text. -/
def isPaddedNumber : List Char → Bool
  | '0' :: rest => !rest.isEmpty && rest.all Char.isDigit
  | _ => false

/-- An unsigned number: decimal, or with its radix, after an optional plus sign. -/
def natural? (text : String) : Option Nat :=
  let cs := match text.toList with
    | '+' :: rest => rest
    | cs => cs
  match cs with
  | '0' :: 'x' :: rest => natIn? 16 rest
  | '0' :: 'o' :: rest => natIn? 8 rest
  | '0' :: 'b' :: rest => natIn? 2 rest
  | cs => if isPaddedNumber cs then none else natIn? 10 cs

def readUInt64? : Node → Option UInt64
  | .scalar text true =>
    (natural? text).bind fun n => if n < UInt64.size then some (.ofNat n) else none
  | _ => none

def Node.text? : Node → Option String
  | .scalar text _ => some text
  | _ => none

/-- The entries of a mapping by the text of their keys. What is not written is an empty mapping. -/
def Node.entries? : Node → Option (List (String × Node))
  | .mapping entries => entries.mapM fun e => e.1.text?.map fun text => (text, e.2)
  | .scalar "" true => some []
  | _ => none

/-! ## Block style -/

def Atom.text : Atom → String
  | .bool b => if b then "true" else "false"
  | .number n => toString n.toNat
  | .word w => w.text

def Section.blockLines (s : Section) : List String :=
  (s.name.text ++ ":") :: s.entries.map fun e => "  " ++ e.1.text ++ ": " ++ e.2.text

def blockText (ss : List Section) : String := String.join ((ss.flatMap Section.blockLines).map (· ++ "\n"))

/-- The library of nodes. It knows no anchors, tags, directives and block scalars. -/
def nodes : Library where
  Document := Node
  document? text := (read? text).map fun n => n.getD .missing
  bool? := readBool?
  number? := readUInt64?
  name? := Node.text?
  entries? := Node.entries?
  write? ss := some (blockText ss)

end MockExplorer.Yaml
