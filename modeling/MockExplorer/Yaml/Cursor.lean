/-!
# Positions in YAML text

The text that is left, with the line and column at which it starts. A line break is a line feed, a
carriage return, both in this order, or one of the three Unicode breaks. Columns count characters, and
lengths are measured in bytes.
-/

namespace MockExplorer.Yaml

def isBlank (c : Char) : Bool := c = ' ' || c = '\t'

def isBreak (c : Char) : Bool :=
  c = '\n' || c = '\r' || c = Char.ofNat 0x85 || c = Char.ofNat 0x2028 || c = Char.ofNat 0x2029

def isSpace (c : Char) : Bool := isBlank c || isBreak c

/-- The mark that may start a line without being part of it. -/
def byteOrderMark : Char := Char.ofNat 0xFEFF

/-- The number of bytes that characters take up. -/
def byteLength (cs : List Char) : Nat := cs.foldl (fun n c => n + c.utf8Size) 0

/-- Whether the text starts with a blank or a break, or is at its end. -/
def endsWord : List Char → Bool
  | [] => true
  | c :: _ => isSpace c

/-- The text that is left and where it starts. `index` counts bytes from the beginning. -/
structure Cursor where
  rest : List Char
  index : Nat := 0
  line : Nat := 0
  column : Nat := 0
deriving DecidableEq, Inhabited

namespace Cursor

/-- Skips characters that are no breaks. -/
def advance (c : Cursor) (n : Nat) : Cursor :=
  { c with
    rest := c.rest.drop n
    index := c.index + byteLength (c.rest.take n)
    column := c.column + n }

/-- Takes one line break off the text; the character it stands for is kept for folding. -/
def takeBreak? (c : Cursor) : Option (Char × Cursor) :=
  match c.rest with
  | '\r' :: '\n' :: rest => some ('\n', { rest, index := c.index + 2, line := c.line + 1 })
  | b :: rest =>
    if isBreak b then
      let kept := if b = Char.ofNat 0x2028 || b = Char.ofNat 0x2029 then b else '\n'
      some (kept, { rest, index := c.index + b.utf8Size, line := c.line + 1 })
    else none
  | [] => none

/-- Whether a document marker stands here. -/
def atMarker (c : Cursor) (mark : Char) : Bool :=
  match c.column, c.rest with
  | 0, x :: y :: z :: rest => x = mark && y = mark && z = mark && endsWord rest
  | _, _ => false

def atAnyMarker (c : Cursor) : Bool := c.atMarker '-' || c.atMarker '.'

end Cursor

/-! ## Gaps -/

/-- The blank text between two words: blanks on one line, or line breaks. -/
structure Gap where
  blanks : List Char := []
  breaks : List Char := []
deriving DecidableEq, Inhabited

/-- What a gap leaves in the text of a scalar. A single line feed is folded into a space. -/
def Gap.text (g : Gap) : List Char :=
  match g.breaks with
  | [] => g.blanks
  | '\n' :: [] => [' ']
  | '\n' :: more => more
  | breaks => breaks

/-- Consumes blanks and breaks. After a break, a tab left of column `margin` is refused. -/
def takeGap? (margin : Nat) : (fuel : Nat) → Gap → Cursor → Option (Gap × Cursor)
  | 0, g, c => some (g, c)
  | fuel + 1, g, c =>
    match c.takeBreak? with
    | some (b, c) => takeGap? margin fuel { blanks := [], breaks := g.breaks ++ [b] } c
    | none =>
      match c.rest with
      | x :: _ =>
        if isBlank x then
          if g.breaks.isEmpty then takeGap? margin fuel { g with blanks := g.blanks ++ [x] } (c.advance 1)
          else if x = '\t' && c.column < margin then none
          else takeGap? margin fuel g (c.advance 1)
        else some (g, c)
      | [] => some (g, c)

end MockExplorer.Yaml
