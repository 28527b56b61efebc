import MockExplorer.Json.Basic

/-!
# Reading JSON text

A strict reader: no leading zeros, no signs but a minus, nothing after the document. Numbers without a
fraction and an exponent are integers as far as 64 bits reach; all others are doubles. Arrays and objects
have a value only as far as `maxDepth` brackets deep.
-/

namespace MockExplorer

namespace Json

def isBlank (c : Char) : Bool := c = ' ' || c = '\n' || c = '\t' || c = '\r'

def skipBlanks (cs : List Char) : List Char := cs.dropWhile isBlank

/-! ## Numbers -/

def digitValue (c : Char) : Nat := c.toNat - 48

/-- The greatest significand that is kept exactly. -/
def maxSignificand : Nat := UInt64.size - 1

/-- Appends digits to a significand while it stays in 64 bits; also the number of digits appended. -/
def appendDigits (significand : Nat) : List Char → Nat × Nat
  | [] => (significand, 0)
  | d :: rest =>
    let next := significand * 10 + digitValue d
    if maxSignificand < next then (significand, 0)
    else
      let (s, n) := appendDigits next rest
      (s, n + 1)

def powerOfTen (n : Nat) : Float := Float.ofScientific 1 false n

/-- The greatest power of ten among the doubles. -/
def maxPower : Nat := 308

/-- Divides by a power of ten, in steps that are doubles themselves. -/
def scaleDown (x : Float) (power : Nat) : Float :=
  if power ≤ maxPower then x / powerOfTen power
  else if x == 0 then x
  else scaleDown (x / powerOfTen maxPower) (power - maxPower)
termination_by power
decreasing_by simp [maxPower] at *; omega

/-- Multiplies by a power of ten, if the product is a double. -/
def scaleUp? (x : Float) (power : Nat) : Option Float :=
  if power ≤ maxPower then
    let y := x * powerOfTen power
    if y.isInf then none else some y
  else if x == 0 then some x
  else none

/-- The double of a significand and a power of ten: the nearest double of the significand, scaled. -/
def scale? (significand : Nat) (power : Int) : Option Float :=
  let x := significand.toUInt64.toFloat
  if 0 ≤ power then scaleUp? x power.toNat else some (scaleDown x (-power).toNat)

/-- A number literal in parts. -/
structure Literal where
  negative : Bool
  whole : List Char
  fraction : Option (List Char)
  /-- Whether the exponent is negative, and its digits. -/
  exponent : Option (Bool × List Char)

/-- The greatest exponent that is read exactly. -/
def maxExponent : Nat := 2147483647

/-- Reads an exponent, unless it is too large to matter exactly. -/
def exponentValue? (digits : List Char) : Option Nat :=
  let n := digits.foldl (fun n d => n * 10 + digitValue d) 0
  if maxExponent < n then none else some n

/-- The double of a literal. Digits beyond the significand only count by their place. -/
def Literal.toFloat? (l : Literal) : Option Float :=
  let (whole, kept) := appendDigits 0 l.whole
  let (significand, places) := appendDigits whole (l.fraction.getD [])
  let start : Int := (l.whole.length - kept : Nat) - places
  let sized : Option Float :=
    match l.exponent with
    | none => scale? significand start
    | some (negative, digits) =>
      match exponentValue? digits with
      | some n => scale? significand (if negative then start - n else start + n)
      | none => if negative || significand = 0 then some 0 else none
  sized.map fun x => if l.negative then -x else x

/-- The number of a literal. Minus zero is a double. -/
def Literal.toJson (l : Literal) : Json :=
  let n := l.whole.foldl (fun n d => n * 10 + digitValue d) 0
  let isInteger := l.fraction.isNone && l.exponent.isNone
  if isInteger && !l.negative && n ≤ maxSignificand then .int n
  else if isInteger && l.negative && 0 < n && n ≤ -Int64.minValue.toInt then .int (-n)
  else
    match l.toFloat? with
    | some x => .float x
    | none => .broken

/-- Digits and what follows them; there has to be one at least. -/
def takeDigits? (cs : List Char) : Option (List Char × List Char) :=
  match cs.span Char.isDigit with
  | ([], _) => none
  | parts => some parts

def readFraction (cs : List Char) : Option (Option (List Char) × List Char) :=
  match cs with
  | '.' :: rest => (takeDigits? rest).map fun (ds, rest) => (some ds, rest)
  | _ => some (none, cs)

def readExponent (cs : List Char) : Option (Option (Bool × List Char) × List Char) :=
  match cs with
  | c :: rest =>
    if c = 'e' || c = 'E' then
      let (negative, rest) := match rest with
        | '-' :: rest => (true, rest)
        | '+' :: rest => (false, rest)
        | rest => (false, rest)
      (takeDigits? rest).map fun (ds, rest) => (some (negative, ds), rest)
    else some (none, cs)
  | [] => some (none, [])

def readNumber (cs : List Char) : Option (Json × List Char) := do
  let (negative, rest) := match cs with
    | '-' :: rest => (true, rest)
    | _ => (false, cs)
  let (whole, rest) ← takeDigits? rest
  if 1 < whole.length && whole.head? = some '0' then none
  else
    let (fraction, rest) ← readFraction rest
    let (exponent, rest) ← readExponent rest
    some (Literal.toJson { negative, whole, fraction, exponent }, rest)

/-! ## Strings -/

def hexValue? (c : Char) : Option Nat :=
  if c.isDigit then some (c.toNat - 48)
  else if 'a' ≤ c && c ≤ 'f' then some (c.toNat - 87)
  else if 'A' ≤ c && c ≤ 'F' then some (c.toNat - 55)
  else none

def hexUnit? (a b c d : Char) : Option Nat := do
  return (((← hexValue? a) * 16 + (← hexValue? b)) * 16 + (← hexValue? c)) * 16 + (← hexValue? d)

/-- The character of an escape of one letter. -/
def escaped? : Char → Option Char
  | '"' => some '"'
  | '\\' => some '\\'
  | '/' => some '/'
  | 'b' => some (Char.ofNat 8)
  | 'f' => some (Char.ofNat 12)
  | 'n' => some '\n'
  | 'r' => some '\r'
  | 't' => some '\t'
  | _ => none

/-- What stands in a string literal: a character, or half a surrogate pair. -/
inductive Piece where
  | char (c : Char)
  | half (unit : Nat)
deriving DecidableEq, Inhabited

/-- The pieces up to the closing quote, and what follows it. -/
def readPieces : List Char → Option (List Piece × List Char)
  | [] => none
  | '"' :: rest => some ([], rest)
  | '\\' :: 'u' :: a :: b :: c :: d :: rest => do
    let unit ← hexUnit? a b c d
    let (ps, rest) ← readPieces rest
    if 0xD800 ≤ unit && unit < 0xE000 then some (.half unit :: ps, rest)
    else some (.char (Char.ofNat unit) :: ps, rest)
  | '\\' :: c :: rest => do
    let c ← escaped? c
    let (ps, rest) ← readPieces rest
    some (.char c :: ps, rest)
  | c :: rest =>
    if c.toNat < 32 then none
    else (readPieces rest).map fun (ps, rest) => (.char c :: ps, rest)

/-- Joins surrogate pairs. A half without its other half has no text. -/
def joinPieces? : List Piece → Option (List Char)
  | [] => some []
  | .char c :: rest => (joinPieces? rest).map (c :: ·)
  | .half high :: .half low :: rest =>
    if high < 0xDC00 && 0xDC00 ≤ low then
      (joinPieces? rest).map (Char.ofNat (0x10000 + (high - 0xD800) * 0x400 + (low - 0xDC00)) :: ·)
    else none
  | .half _ :: _ => none

/-- A string literal after its opening quote; its text, if it has one. -/
def readString (cs : List Char) : Option (Option String × List Char) :=
  (readPieces cs).map fun (ps, rest) => ((joinPieces? ps).map String.ofList, rest)

/-! ## Documents -/

/-- Reads a fixed word. -/
def expect? (word : String) (j : Json) (cs : List Char) : Option (Json × List Char) :=
  if word.toList.isPrefixOf cs then some (j, cs.drop word.length) else none

/-- The object of fields whose names may have no text. -/
def objectOf (fields : List (Option String × Json)) : Json :=
  match fields.mapM fun (k, j) => k.map fun k => (k, j) with
  | some fields => .object fields
  | none => .broken

/-- The greatest number of brackets, one in another, that have a value. -/
def maxDepth : Nat := 127

/-- An array or object inside `depth` others. -/
def nested (depth : Nat) (j : Json) : Json := if depth < maxDepth then j else .broken

mutual

/-- Reads a document at the start of the text, inside `depth` brackets. -/
def readValue : (fuel : Nat) → (depth : Nat) → List Char → Option (Json × List Char)
  | 0, _, _ => none
  | fuel + 1, depth, cs =>
    match skipBlanks cs with
    | '"' :: rest => (readString rest).map fun (s, rest) => ((s.map .string).getD .broken, rest)
    | '[' :: rest =>
      match skipBlanks rest with
      | ']' :: rest => some (nested depth (.array []), rest)
      | rest => (readItems fuel (depth + 1) rest).map fun (js, rest) => (nested depth (.array js), rest)
    | '\x7b' :: rest =>
      match skipBlanks rest with
      | '\x7d' :: rest => some (nested depth (.object []), rest)
      | rest => (readFields fuel (depth + 1) rest).map fun (fs, rest) => (nested depth (objectOf fs), rest)
    | 't' :: rest => expect? "rue" (.bool true) rest
    | 'f' :: rest => expect? "alse" (.bool false) rest
    | 'n' :: rest => expect? "ull" .null rest
    | rest => readNumber rest

/-- Reads the items of an array up to its bracket. -/
def readItems : (fuel : Nat) → (depth : Nat) → List Char → Option (List Json × List Char)
  | 0, _, _ => none
  | fuel + 1, depth, cs =>
    match readValue fuel depth cs with
    | none => none
    | some (j, rest) =>
      match skipBlanks rest with
      | ',' :: rest => (readItems fuel depth rest).map fun (js, rest) => (j :: js, rest)
      | ']' :: rest => some ([j], rest)
      | _ => none

/-- Reads the fields of an object up to its brace. -/
def readFields :
    (fuel : Nat) → (depth : Nat) → List Char → Option (List (Option String × Json) × List Char)
  | 0, _, _ => none
  | fuel + 1, depth, cs =>
    match skipBlanks cs with
    | '"' :: rest =>
      match readString rest with
      | none => none
      | some (k, rest) =>
        match skipBlanks rest with
        | ':' :: rest =>
          match readValue fuel depth rest with
          | none => none
          | some (j, rest) =>
            match skipBlanks rest with
            | ',' :: rest => (readFields fuel depth rest).map fun (fs, rest) => ((k, j) :: fs, rest)
            | '\x7d' :: rest => some ([(k, j)], rest)
            | _ => none
        | _ => none
    | _ => none

end

/-- Reads a document that takes up the whole text. -/
def read? (text : String) : Option Json :=
  let cs := text.toList
  match readValue (2 * cs.length + 2) 0 cs with
  | some (j, rest) => if (skipBlanks rest).isEmpty then some j else none
  | none => none

end Json

end MockExplorer
