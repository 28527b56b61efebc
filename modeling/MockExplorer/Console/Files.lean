import MockExplorer.SortedMap

/-!
# Files

The two things that commands do with files, as operations of any monad, and a directory in memory that
has them.
-/

namespace MockExplorer.Console

/-- Why a file could not be read or written. -/
inductive FileError where
  | notFound
  | notDirectory
  | isDirectory
  | nameTooLong
  | nulInName
  | notText
  | other (message : String)
deriving DecidableEq, Repr, Inhabited

def FileError.text : FileError → String
  | .notFound => "No such file or directory (os error 2)"
  | .notDirectory => "Not a directory (os error 20)"
  | .isDirectory => "Is a directory (os error 21)"
  | .nameTooLong => "File name too long (os error 36)"
  | .nulInName => "file name contained an unexpected NUL byte"
  | .notText => "stream did not contain valid UTF-8"
  | .other message => message

/-- Reading and writing whole text files by path. -/
structure FileSystem (m : Type → Type) where
  read : (path : String) → m (Except FileError String)
  write : (path text : String) → m (Except FileError Unit)

/-! ## A directory in memory -/

inductive Entry where
  | file (content : ByteArray)
  | directory
deriving Inhabited

/-- The working directory: its entries by their paths. A path has no `.`, and `..` only in front, where it
leads out of the working directory. Every directory on the way to an entry is an entry too. -/
structure Workspace where
  entries : SortedMap String Entry := ∅
deriving Inhabited

namespace Workspace

/-- The path of an entry as one string. -/
def join (parts : List String) : String := "/".intercalate parts

/-- The part of a path that stands for the root of all directories. -/
def rootPart : String := "/"

/-- Whether a path leads to the working directory or a directory around it. -/
def isAround (parts : List String) : Bool := parts.all fun part => part = ".." || part = rootPart

def find? (w : Workspace) (parts : List String) : Option Entry :=
  if isAround parts then some .directory else w.entries.get? (join parts)

/-- The directory that holds an entry. -/
def above (parts : List String) : List String :=
  if isAround parts then parts ++ [".."] else parts.dropLast

/-- Adds an entry, with the directories on the way to it. -/
def add (w : Workspace) (path : String) (e : Entry) : Workspace :=
  let parts := (path.splitOn "/").filter fun part => part ≠ "" && part ≠ "."
  let parents := (List.range parts.length).tail.map fun n => join (parts.take n)
  ⟨(parents.foldl (fun es p => es.insertIfNew p .directory) w.entries).insert (join parts) e⟩

/-- The number of bytes that the name of an entry may take up. -/
def maxNameLength : Nat := 255

/-- The number of bytes that a path may take up. -/
def maxPathLength : Nat := 4095

/-- Follows a path from an entry. Each part but the last has to name a directory. -/
def walk (w : Workspace) : (here : List String) → List String → Except FileError (List String)
  | here, [] => .ok here
  | here, part :: rest =>
    match w.find? here with
    | some .directory =>
      if part = "" || part = "." then walk w here rest
      else if part = ".." then walk w (above here) rest
      else if maxNameLength < part.utf8ByteSize then .error .nameTooLong
      else if (w.find? (here ++ [part])).isSome then walk w (here ++ [part]) rest
      else .error .notFound
    | _ => .error .notDirectory

/-- The parts of a path. -/
def parts (path : String) : Except FileError (List String) :=
  if path.toList.contains (Char.ofNat 0) then .error .nulInName
  else if maxPathLength < path.utf8ByteSize then .error .nameTooLong
  else .ok (path.splitOn "/")

/-- Where a path starts: at the root if a slash comes first, else in the working directory. -/
def start (parts : List String) : List String :=
  if 1 < parts.length && parts.head? = some "" then [rootPart] else []

def read (w : Workspace) (path : String) : Except FileError String := do
  let parts ← parts path
  match w.find? (← w.walk (start parts) parts) with
  | some (.file content) =>
    match String.fromUTF8? content with
    | some text => return text
    | none => throw .notText
  | some .directory => throw .isDirectory
  | none => throw .notFound

/-- Writes a file anew. Its directory has to be there. -/
def write (w : Workspace) (path text : String) : Except FileError Workspace := do
  let parts ← parts path
  let named := (parts.reverse.dropWhile (· = "")).reverse
  let home ← w.walk (start parts) named.dropLast
  let name := named.getLastD "."
  match w.find? home with
  | some .directory =>
    if name = "." || name = ".." || named.length < parts.length then throw .isDirectory
    else if maxNameLength < name.utf8ByteSize then throw .nameTooLong
    else
      match w.find? (home ++ [name]) with
      | some .directory => throw .isDirectory
      | _ => return ⟨w.entries.insert (join (home ++ [name])) (.file text.toUTF8)⟩
  | _ => throw .notDirectory

end Workspace

/-- The files of a workspace that is carried along. -/
def FileSystem.inMemory : FileSystem (StateM Workspace) where
  read path := fun w => (w.read path, w)
  write path text := fun w =>
    match w.write path text with
    | .ok w => (.ok (), w)
    | .error e => (.error e, w)

end MockExplorer.Console
