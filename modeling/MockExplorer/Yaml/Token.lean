import MockExplorer.Yaml.Scalar

/-!
# YAML tokens

Text becomes tokens. Indentation becomes the brackets of block collections, and a scalar or flow
collection turns out to be a key only when a colon follows it on the same line; the tokens that mark the
key are then put in front of it.

Anchors, aliases, tags, directives and block scalars are no part of the language read here.
-/

namespace MockExplorer.Yaml

inductive Token where
  | documentStart
  | documentEnd
  | mappingStart
  | sequenceStart
  | blockEnd
  | flowSequenceStart
  | flowSequenceEnd
  | flowMappingStart
  | flowMappingEnd
  | flowEntry
  | blockEntry
  | key
  | value
  | scalar (text : String) (isPlain : Bool)
deriving DecidableEq, Repr, Inhabited

/-- A place that becomes a key if a colon follows in time. In block context a candidate at the current
indentation can be nothing but a key. -/
structure KeyCandidate where
  required : Bool
  position : Nat
  index : Nat
  line : Nat
  column : Nat
deriving DecidableEq, Inhabited

/-- The state between two tokens. -/
structure Scanner where
  cursor : Cursor
  tokens : List Token := []
  /-- The column of the current block collection, and those of the collections around it. -/
  indent : Int := -1
  outer : List Int := []
  /-- Whether a key may start here. -/
  keyAllowed : Bool := true
  /-- The key candidate of this flow level, and those of the levels around it. -/
  candidate : Option KeyCandidate := none
  levels : List (Option KeyCandidate) := []
deriving Inhabited

namespace Scanner

def inFlow (s : Scanner) : Bool := !s.levels.isEmpty

def emit (s : Scanner) (t : Token) : Scanner := { s with tokens := s.tokens ++ [t] }

def advance (s : Scanner) (n : Nat) : Scanner := { s with cursor := s.cursor.advance n }

/-- Skips blanks, comments, breaks and byte order marks that start a line. A tab cannot stand where a key
could start. A byte order mark takes up a column like any other character. -/
def skipSpace : (fuel : Nat) → Scanner → Scanner
  | 0, s => s
  | fuel + 1, s =>
    match s.cursor.takeBreak? with
    | some (_, c) => skipSpace fuel { s with cursor := c, keyAllowed := s.keyAllowed || !s.inFlow }
    | none =>
      match s.cursor.rest with
      | ' ' :: _ => skipSpace fuel (s.advance 1)
      | '\t' :: _ => if s.inFlow || !s.keyAllowed then skipSpace fuel (s.advance 1) else s
      | '#' :: rest => skipSpace fuel (s.advance (1 + (rest.takeWhile (!isBreak ·)).length))
      | x :: _ => if x = byteOrderMark && s.cursor.column = 0 then skipSpace fuel (s.advance 1) else s
      | [] => s

/-- A key stands on one line and takes up at most so many bytes. -/
def maxKeyLength : Nat := 1024

/-- A candidate that no colon can follow any more is dropped, unless it had to be a key. -/
def expire? (c : Cursor) : Option KeyCandidate → Option (Option KeyCandidate)
  | none => some none
  | some k =>
    if k.line < c.line || k.index + maxKeyLength < c.index then
      if k.required then none else some none
    else some (some k)

def expireAll? (s : Scanner) : Option Scanner := do
  let candidate ← expire? s.cursor s.candidate
  let levels ← s.levels.mapM (expire? s.cursor)
  return { s with candidate, levels }

/-- Gives up the candidate of this level, unless it had to be a key. -/
def dropCandidate? (s : Scanner) : Option Scanner :=
  match s.candidate with
  | some k => if k.required then none else some { s with candidate := none }
  | none => some s

/-- The place at the cursor. -/
def here (s : Scanner) : KeyCandidate :=
  { required := !s.inFlow && s.indent = s.cursor.column
    position := s.tokens.length
    index := s.cursor.index
    line := s.cursor.line
    column := s.cursor.column }

/-- Makes this place a key candidate, if a key may start here. -/
def saveCandidate? (s : Scanner) : Option Scanner :=
  if s.keyAllowed then s.dropCandidate?.map fun s => { s with candidate := some s.here } else some s

/-- Opens a block collection at a column right of the current one; its token goes to a position. -/
def openBlock (s : Scanner) (column : Nat) (position : Nat) (t : Token) : Scanner :=
  if s.inFlow || column ≤ s.indent then s
  else { s with tokens := s.tokens.insertIdx position t, indent := column, outer := s.indent :: s.outer }

/-- Closes the block collections that are right of a column. -/
def closeBlocks (column : Int) : (outer : List Int) → Scanner → Scanner
  | [], s => s
  | i :: rest, s =>
    if s.inFlow || s.indent ≤ column then s
    else closeBlocks column rest { s.emit .blockEnd with indent := i, outer := rest }

def closeTo (s : Scanner) (column : Int) : Scanner := closeBlocks column s.outer s

/-! ## Tokens -/

def marker? (s : Scanner) (t : Token) : Option Scanner :=
  (s.closeTo (-1)).dropCandidate?.map fun s => ({ s with keyAllowed := false }.emit t).advance 3

def flowStart? (s : Scanner) (t : Token) : Option Scanner :=
  s.saveCandidate?.map fun s =>
    ({ s with levels := s.candidate :: s.levels, candidate := none, keyAllowed := true }.emit t).advance 1

def flowEnd? (s : Scanner) (t : Token) : Option Scanner :=
  s.dropCandidate?.map fun s =>
    let s := match s.levels with
      | outer :: rest => { s with candidate := outer, levels := rest }
      | [] => s
    ({ s with keyAllowed := false }.emit t).advance 1

def flowEntry? (s : Scanner) : Option Scanner :=
  s.dropCandidate?.map fun s => ({ s with keyAllowed := true }.emit .flowEntry).advance 1

def blockEntry? (s : Scanner) : Option Scanner :=
  if !s.inFlow && !s.keyAllowed then none
  else
    (s.openBlock s.cursor.column s.tokens.length .sequenceStart).dropCandidate?.map fun s =>
      ({ s with keyAllowed := true }.emit .blockEntry).advance 1

def explicitKey? (s : Scanner) : Option Scanner :=
  if !s.inFlow && !s.keyAllowed then none
  else
    (s.openBlock s.cursor.column s.tokens.length .mappingStart).dropCandidate?.map fun s =>
      ({ s with keyAllowed := !s.inFlow }.emit .key).advance 1

/-- A colon: it makes the candidate a key, or stands for itself. -/
def value? (s : Scanner) : Option Scanner :=
  match s.candidate with
  | some k =>
    let s := { s with tokens := s.tokens.insertIdx k.position .key, candidate := none, keyAllowed := false }
    some (((s.openBlock k.column k.position .mappingStart).emit .value).advance 1)
  | none =>
    if !s.inFlow && !s.keyAllowed then none
    else
      let s := s.openBlock s.cursor.column s.tokens.length .mappingStart
      some (({ s with keyAllowed := !s.inFlow }.emit .value).advance 1)

def quotedScalar? (s : Scanner) (quote : Char) : Option Scanner := do
  let s ← s.saveCandidate?
  let (text, c) ← quoted? quote s.cursor
  return { s with cursor := c, keyAllowed := false }.emit (.scalar text false)

def plainScalar? (s : Scanner) : Option Scanner := do
  let s ← s.saveCandidate?
  let (text, broken, c) ← plain? s.inFlow (s.indent + 1).toNat s.cursor
  return { s with cursor := c, keyAllowed := broken }.emit (.scalar text true)

/-- Characters that start no plain scalar. -/
def isIndicator (c : Char) : Bool :=
  isFlowIndicator c || c = '-' || c = '?' || c = ':' || c = '#' || c = '&' || c = '*' || c = '!'
    || c = '|' || c = '>' || c = '\'' || c = '"' || c = '%' || c = '@' || c = '`'

def startsPlain (inFlow : Bool) (c : Char) (rest : List Char) : Bool :=
  !isSpace c && (!isIndicator c || (c = '-' && !(rest.head?.any isBlank))
    || (!inFlow && (c = '?' || c = ':') && !endsWord rest))

/-- Reads the token at a character. -/
def token? (s : Scanner) (c : Char) (rest : List Char) : Option Scanner :=
  if s.cursor.column = 0 && c = '%' then none
  else if s.cursor.atMarker '-' then s.marker? .documentStart
  else if s.cursor.atMarker '.' then s.marker? .documentEnd
  else if c = '[' then s.flowStart? .flowSequenceStart
  else if c = '\x7b' then s.flowStart? .flowMappingStart
  else if c = ']' then s.flowEnd? .flowSequenceEnd
  else if c = '\x7d' then s.flowEnd? .flowMappingEnd
  else if c = ',' then s.flowEntry?
  else if c = '-' && endsWord rest then s.blockEntry?
  else if c = '?' && (s.inFlow || endsWord rest) then s.explicitKey?
  else if c = ':' && (s.inFlow || endsWord rest) then s.value?
  else if c = '\'' || c = '"' then s.quotedScalar? c
  else if startsPlain s.inFlow c rest then s.plainScalar?
  else none

/-- Reads tokens to the end of the text. -/
def scan? : (fuel : Nat) → Scanner → Option (List Token)
  | 0, _ => none
  | fuel + 1, s => do
    let s ← (skipSpace (s.cursor.rest.length + 1) s).expireAll?
    match s.cursor.rest with
    | [] => ((s.closeTo (-1)).dropCandidate?).map (·.tokens)
    | c :: rest => scan? fuel (← (s.closeTo s.cursor.column).token? c rest)

end Scanner

/-- The characters of which a text may consist. -/
def isPrintable (c : Char) : Bool :=
  let n := c.toNat
  n = 9 || n = 10 || n = 13 || (32 ≤ n && n ≤ 126) || n = 0x85 || (0xA0 ≤ n && n ≠ 0xFFFE && n ≠ 0xFFFF)

/-- The tokens of a text. -/
def tokens? (text : String) : Option (List Token) :=
  let cs := text.toList
  if cs.all isPrintable then Scanner.scan? (cs.length + 1) { cursor := { rest := cs } } else none

end MockExplorer.Yaml
