import MockExplorer.Json.Reading
import MockExplorer.Yaml.Cursor

/-!
# YAML scalars

Plain and quoted scalars may run over several lines; the line breaks between their words are folded.
-/

namespace MockExplorer.Yaml

/-! ## Plain scalars -/

def isFlowIndicator (c : Char) : Bool :=
  c = ',' || c = '[' || c = ']' || c = '\x7b' || c = '\x7d'

/-- Whether a plain word stops before the character: at a colon that ends a key, or in a flow collection
at one of its indicators. -/
def stopsPlain (inFlow : Bool) (c : Char) (rest : List Char) : Bool :=
  (c = ':' && endsWord rest) || (inFlow && isFlowIndicator c)

/-- A colon that could neither end a key nor belong to a word. -/
def misplacedColon (inFlow : Bool) (c : Char) (rest : List Char) : Bool :=
  match inFlow, rest with
  | true, next :: _ => c = ':' && (isFlowIndicator next || next = '?')
  | _, _ => false

/-- A run of characters without blanks. -/
def plainWord? (inFlow : Bool) : List Char → Option (List Char)
  | [] => some []
  | c :: rest =>
    if isSpace c then some []
    else if misplacedColon inFlow c rest then none
    else if stopsPlain inFlow c rest then some []
    else (plainWord? inFlow rest).map (c :: ·)

/-- The rest of a plain scalar after the gap `g`; also whether it ended on a new line. -/
def plainRest? (inFlow : Bool) (margin : Nat) :
    (fuel : Nat) → Gap → Cursor → Option (List Char × Bool × Cursor)
  | 0, _, _ => none
  | fuel + 1, g, c =>
    if c.atAnyMarker || c.rest.head? = some '#' then some ([], !g.breaks.isEmpty, c)
    else
      match plainWord? inFlow c.rest with
      | none => none
      | some [] => some ([], !g.breaks.isEmpty, c)
      | some word =>
        let c := c.advance word.length
        match c.rest with
        | x :: _ =>
          if isSpace x then
            match takeGap? margin (c.rest.length + 1) {} c with
            | none => none
            | some (gap, c) =>
              if !inFlow && c.column < margin then
                some (g.text ++ word, !gap.breaks.isEmpty, c)
              else (plainRest? inFlow margin fuel gap c).map fun (more, broken, c) =>
                (g.text ++ word ++ more, broken, c)
          else some (g.text ++ word, false, c)
        | [] => some (g.text ++ word, false, c)

/-- A plain scalar. In block context its lines are indented at least to column `margin`. -/
def plain? (inFlow : Bool) (margin : Nat) (c : Cursor) : Option (String × Bool × Cursor) :=
  (plainRest? inFlow margin (c.rest.length + 1) {} c).map fun (text, broken, c) =>
    (String.ofList text, broken, c)

/-! ## Quoted scalars -/

/-- The character of an escape of one letter. -/
def escaped? : Char → Option Nat
  | '0' => some 0
  | 'a' => some 7
  | 'b' => some 8
  | 't' => some 9
  | '\t' => some 9
  | 'n' => some 10
  | 'v' => some 11
  | 'f' => some 12
  | 'r' => some 13
  | 'e' => some 27
  | ' ' => some 32
  | '"' => some 34
  | '/' => some 47
  | '\\' => some 92
  | 'N' => some 0x85
  | '_' => some 0xA0
  | 'L' => some 0x2028
  | 'P' => some 0x2029
  | _ => none

/-- The number of hexadecimal digits of a numeric escape. -/
def hexLength? : Char → Option Nat
  | 'x' => some 2
  | 'u' => some 4
  | 'U' => some 8
  | _ => none

def hexValue? (cs : List Char) : Option Nat :=
  cs.foldlM (fun n c => (Json.hexValue? c).map (n * 16 + ·)) 0

/-- The character of a code point, which has to be one. -/
def charOf? (n : Nat) : Option Char :=
  if n < 0xD800 || (0xE000 ≤ n && n < 0x110000) then some (Char.ofNat n) else none

/-- An escape after its backslash: the character and the length of the escape. -/
def readEscape? : List Char → Option (Char × Nat)
  | [] => none
  | c :: rest =>
    match hexLength? c with
    | some n =>
      if rest.length < n then none
      else ((hexValue? (rest.take n)).bind charOf?).map fun x => (x, n + 1)
    | none => (escaped? c).map fun n => (Char.ofNat n, 1)

/-- The words and gaps of a quoted scalar up to its closing quote. -/
def quotedRest? (quote : Char) : (fuel : Nat) → Cursor → Option (List Char × Cursor)
  | 0, _ => none
  | fuel + 1, c =>
    if c.atAnyMarker then none
    else
      match c.rest with
      | [] => none
      | x :: rest =>
        if x = quote then
          if quote = '\'' && rest.head? = some '\'' then
            (quotedRest? quote fuel (c.advance 2)).map fun (more, c) => ('\'' :: more, c)
          else some ([], c.advance 1)
        else if quote = '"' && x = '\\' then
          match (c.advance 1).takeBreak? with
          | some (_, c) =>
            -- An escaped break joins the lines; the blanks that follow it are dropped.
            match takeGap? 0 (c.rest.length + 1) { breaks := ['\n'] } c with
            | none => none
            | some (gap, c) =>
              (quotedRest? quote fuel c).map fun (more, c) => (gap.breaks.drop 1 ++ more, c)
          | none =>
            match readEscape? rest with
            | none => none
            | some (e, n) =>
              (quotedRest? quote fuel (c.advance (n + 1))).map fun (more, c) => (e :: more, c)
        else if isSpace x then
          match takeGap? 0 (c.rest.length + 1) {} c with
          | none => none
          | some (gap, c) => (quotedRest? quote fuel c).map fun (more, c) => (gap.text ++ more, c)
        else (quotedRest? quote fuel (c.advance 1)).map fun (more, c) => (x :: more, c)

/-- A quoted scalar, starting at its opening quote. -/
def quoted? (quote : Char) (c : Cursor) : Option (String × Cursor) :=
  (quotedRest? quote (c.rest.length + 1) (c.advance 1)).map fun (text, c) => (String.ofList text, c)

end MockExplorer.Yaml
