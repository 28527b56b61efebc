/-!
# Program points

A tracked program point is a 32-bit number. A source position gets its number by hashing its file name,
line and column, so one call site has one number in every process.
-/

namespace MockExplorer

/-- The number of a tracked program point. -/
structure LocationId where
  id : UInt32
deriving DecidableEq, Repr, Inhabited

namespace LocationId

instance : Ord LocationId := ⟨compareOn LocationId.id⟩

instance : Std.TransOrd LocationId := inferInstanceAs (Std.TransCmp (compareOn LocationId.id))

instance : Std.LawfulEqOrd LocationId where
  eq_of_compare {a b} h := by
    have : a.id = b.id := Std.LawfulEqOrd.eq_of_compare h
    cases a; cases b; simp_all

/-- `L` and the number in eight hexadecimal digits. -/
def text (l : LocationId) : String :=
  let digits := Nat.toDigits 16 l.id.toNat
  "L" ++ String.ofList (List.replicate (8 - digits.length) '0' ++ digits)

end LocationId

/-- A position in a source file. -/
structure SourceSite where
  file : String
  line : UInt32
  column : UInt32
deriving DecidableEq, Repr, Inhabited

namespace SourceSite

/-- The four bytes of a word, lowest first. -/
def wordBytes (w : UInt32) : List UInt8 :=
  [w.toUInt8, (w >>> 8).toUInt8, (w >>> 16).toUInt8, (w >>> 24).toUInt8]

/-- The bytes that stand for a position: the file name, the line and the column. -/
def bytes (s : SourceSite) : List UInt8 :=
  s.file.toUTF8.data.toList ++ wordBytes s.line ++ wordBytes s.column

/-- One step of the hash: take in a byte, then multiply. -/
def mix (hash : UInt32) (byte : UInt8) : UInt32 := (hash ^^^ byte.toUInt32) * 0x01000193

/-- The hash of a string of bytes (FNV-1a, 32 bits). -/
def hashBytes (bs : List UInt8) : UInt32 := bs.foldl mix 0x811c9dc5

/-- The program point of a source position. -/
def location (s : SourceSite) : LocationId := ⟨hashBytes s.bytes⟩

end SourceSite

end MockExplorer
