/-!
# YAML libraries

What settings need of a YAML library. It takes a text for a document and shows its parts as they are asked
for: as a truth value, a number, a name or a mapping. It writes sections of truth values, numbers and words.
-/

namespace MockExplorer.Yaml

/-! ## What is written -/

def isWordChar (c : Char) : Bool := c.isAlphanum || c = '_'

/-- A word that can be written without quotes, and is short enough to be a key. -/
structure Word where
  text : String
  ne_nil : text.toList ≠ [] := by decide
  all_isWordChar : text.toList.all isWordChar = true := by decide
  length_le : text.toList.length ≤ 128 := by decide

inductive Atom where
  | bool (b : Bool)
  | number (n : UInt64)
  | word (w : Word)

abbrev Entry := Word × Atom

/-- A section has a name and at least one entry. -/
structure Section where
  name : Word
  first : Entry
  more : List Entry

def Section.entries (s : Section) : List Entry := s.first :: s.more

/-! ## Libraries -/

/-- A YAML library, as far as settings use it. -/
structure Library where
  /-- Documents and their parts. -/
  Document : Type
  /-- The only document of a text, if the text is well-formed. -/
  document? : String → Option Document
  bool? : Document → Option Bool
  number? : Document → Option UInt64
  /-- The text of a name, whether it is quoted or not. -/
  name? : Document → Option String
  /-- The entries of a mapping whose keys are names, in order. -/
  entries? : Document → Option (List (String × Document))
  /-- The text of a mapping of sections. -/
  write? : List Section → Option String

end MockExplorer.Yaml
