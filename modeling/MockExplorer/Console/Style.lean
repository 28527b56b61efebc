/-!
# Colours and columns

Pieces of terminal text: coloured words, and columns padded to a width. A width counts code points,
and the escape sequences of a colour count with the rest.
-/

namespace MockExplorer.Console

inductive Hue where
  | red
  | green
  | yellow
  | blue
deriving DecidableEq, Repr, Inhabited

/-- The number of the foreground colour. -/
def Hue.code : Hue → Nat
  | .red => 31
  | .green => 32
  | .yellow => 33
  | .blue => 34

/-- The escape sequence that switches on a graphic rendition. -/
def escape (code : Nat) : String := "\x1b[" ++ toString code ++ "m"

/-- The escape sequence that ends all renditions. -/
def unstyled : String := escape 0

/-- The text in a colour, if styling is on. -/
def Hue.paint (h : Hue) (styled : Bool) (text : String) : String :=
  if styled then escape h.code ++ text ++ unstyled else text

/-- The text in a colour and bold, if styling is on. -/
def Hue.paintBold (h : Hue) (styled : Bool) (text : String) : String :=
  if styled then escape h.code ++ escape 1 ++ text ++ unstyled else text

def blanks (n : Nat) : String := String.ofList (List.replicate n ' ')

/-- The text at the left of a column. -/
def padRight (width : Nat) (text : String) : String := text ++ blanks (width - text.length)

/-- The text at the right of a column. -/
def padLeft (width : Nat) (text : String) : String := blanks (width - text.length) ++ text

/-- The lines, each with its end. -/
def lines (ls : List String) : String := String.join (ls.map (· ++ "\n"))

/-- The line without a carriage return at its end. -/
def withoutReturn (line : String) : String :=
  match line.toList.reverse with
  | '\r' :: rest => String.ofList rest.reverse
  | _ => line

/-- The lines of a text. A line ends with a line feed or with a carriage return and a line feed; what
follows the last end is a line if there is any. -/
def linesOf (text : String) : List String :=
  let parts := text.splitOn "\n"
  parts.dropLast.map withoutReturn ++ parts.getLast?.toList.filter (· ≠ "")

end MockExplorer.Console
