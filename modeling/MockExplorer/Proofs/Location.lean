import Mathlib.Algebra.Group.Nat.Defs
import MockExplorer.Location

/-!
# Program points of nearby source positions

A step of the hash loses nothing: neither of the hash so far, nor of the byte that it takes in. So the change of one
byte is never undone by the bytes that follow, and two positions whose bytes differ in one place have different
program points.
-/

namespace MockExplorer.SourceSite

/-! ## The steps of the hash -/

theorem mul_multiplier_inj {a b : UInt32} : a * 0x01000193 = b * 0x01000193 ↔ a = b := by
  -- The multiplier is odd, so it has an inverse among the words.
  have hinverse : (0x01000193 : UInt32) * 0x359c449b = 1 := by decide
  constructor
  · intro h
    calc
      a = a * 0x01000193 * 0x359c449b := by rw [UInt32.mul_assoc, hinverse, UInt32.mul_one]
      _ = b * 0x01000193 * 0x359c449b := by rw [h]
      _ = b := by rw [UInt32.mul_assoc, hinverse, UInt32.mul_one]
  · rintro rfl; rfl

theorem mix_hash_inj {hash hash' : UInt32} {byte : UInt8} : mix hash byte = mix hash' byte ↔ hash = hash' := by
  rw [mix, mix, mul_multiplier_inj, UInt32.xor_left_inj]

theorem mix_byte_inj {hash : UInt32} {byte byte' : UInt8} : mix hash byte = mix hash byte' ↔ byte = byte' := by
  rw [mix, mix, mul_multiplier_inj, UInt32.xor_right_inj]
  exact UInt8.toUInt32_inj

/-- Whatever follows, two hashes stay apart. -/
theorem foldl_mix_inj {bs : List UInt8} {hash hash' : UInt32} :
    bs.foldl mix hash = bs.foldl mix hash' ↔ hash = hash' := by
  induction bs generalizing hash hash' with
  | nil => rfl
  | cons b bs ih => rw [List.foldl_cons, List.foldl_cons, ih, mix_hash_inj]

/-! ## Strings of bytes that differ -/

/-- At how many places two strings of bytes differ. -/
def differences (bs bs' : List UInt8) : Nat := (bs.zip bs').countP fun p => p.1 ≠ p.2

@[simp] theorem differences_cons (b b' : UInt8) (bs bs' : List UInt8) :
    differences (b :: bs) (b' :: bs') = differences bs bs' + if b = b' then 0 else 1 := by
  by_cases h : b = b' <;> simp [differences, h]

@[simp] theorem differences_self (bs : List UInt8) : differences bs bs = 0 := by
  induction bs with
  | nil => rfl
  | cons b bs ih => simp [ih]

theorem differences_append {bs bs' : List UInt8} (h : bs.length = bs'.length) (cs cs' : List UInt8) :
    differences (bs ++ cs) (bs' ++ cs') = differences bs bs' + differences cs cs' := by
  rw [differences, List.zip_append h, List.countP_append]
  rfl

theorem eq_of_differences_eq_zero {bs bs' : List UInt8} (hlength : bs.length = bs'.length)
    (h : differences bs bs' = 0) : bs = bs' := by
  induction bs generalizing bs' with
  | nil => exact (List.length_eq_zero_iff.1 hlength.symm).symm
  | cons b bs ih =>
      cases bs' with
      | nil => cases hlength
      | cons b' bs' =>
          rw [differences_cons] at h
          split at h
          · rename_i hb
            rw [hb, ih (Nat.succ.inj hlength) (by omega)]
          · omega

/-- Up to the one place the hashes are the same; there they part, and they do not meet again. -/
theorem foldl_mix_ne {bs bs' : List UInt8} (hlength : bs.length = bs'.length) (h : differences bs bs' = 1)
    (hash : UInt32) : bs.foldl mix hash ≠ bs'.foldl mix hash := by
  induction bs generalizing bs' hash with
  | nil => cases h
  | cons b bs ih =>
      cases bs' with
      | nil => cases hlength
      | cons b' bs' =>
          have hrest : bs.length = bs'.length := Nat.succ.inj hlength
          rw [differences_cons] at h
          by_cases hb : b = b'
          · subst hb
            exact ih hrest (by simpa using h) (mix hash b)
          · have hsame : bs = bs' := eq_of_differences_eq_zero hrest (by simpa [hb] using h)
            subst hsame
            rw [List.foldl_cons, List.foldl_cons, ne_eq, foldl_mix_inj, mix_byte_inj]
            exact hb

/-! ## Words -/

/-- The four digits of a word to base 256, lowest first. -/
def littleEndian (w : UInt32) : List UInt8 := (List.range 4).map fun j => .ofNat (w.toNat / 256 ^ j)

theorem wordBytes_eq_littleEndian (w : UInt32) : wordBytes w = littleEndian w := by
  have hrange : List.range 4 = [0, 1, 2, 3] := rfl
  simp [wordBytes, littleEndian, hrange, ← UInt8.toNat_inj, Nat.shiftRight_eq_div_pow]

theorem length_littleEndian (w : UInt32) : (littleEndian w).length = 4 := by
  simp [littleEndian]

/-- Of a small number only the lowest digit is not zero. -/
theorem littleEndian_of_lt {w : UInt32} (h : w < 256) : littleEndian w = [.ofNat w.toNat, 0, 0, 0] := by
  have hlt : w.toNat < 256 := UInt32.lt_iff_toNat_lt.1 h
  have hzero : w.toNat / 256 = 0 ∧ w.toNat / 65536 = 0 ∧ w.toNat / 16777216 = 0 := by omega
  have hrange : List.range 4 = [0, 1, 2, 3] := rfl
  simp [littleEndian, hrange, hzero]

theorem differences_littleEndian_of_lt {w w' : UInt32} (h : w < 256) (h' : w' < 256) (hne : w ≠ w') :
    differences (littleEndian w) (littleEndian w') = 1 := by
  have hlt : w.toNat < 256 := UInt32.lt_iff_toNat_lt.1 h
  have hlt' : w'.toNat < 256 := UInt32.lt_iff_toNat_lt.1 h'
  have hdigit : UInt8.ofNat w.toNat ≠ UInt8.ofNat w'.toNat := by
    intro heq
    have htoNat := congrArg UInt8.toNat heq
    rw [UInt8.toNat_ofNat', UInt8.toNat_ofNat', Nat.mod_eq_of_lt hlt, Nat.mod_eq_of_lt hlt'] at htoNat
    exact hne (UInt32.toNat_inj.1 htoNat)
  rw [littleEndian_of_lt h, littleEndian_of_lt h', differences_cons, differences_self, if_neg hdigit]

/-! ## Positions -/

/-- The name of the file, the line and the column, one after the other. -/
def written (s : SourceSite) : List UInt8 :=
  s.file.toUTF8.data.toList ++ littleEndian s.line ++ littleEndian s.column

theorem bytes_eq_written (s : SourceSite) : s.bytes = s.written := by
  rw [bytes, wordBytes_eq_littleEndian, wordBytes_eq_littleEndian, written]

theorem length_written (s : SourceSite) : s.written.length = s.file.utf8ByteSize + 8 := by
  simp [written, length_littleEndian]

theorem location_ne (s s' : SourceSite) (hlength : s.file.utf8ByteSize = s'.file.utf8ByteSize)
    (h : differences s.written s'.written = 1) : s.location ≠ s'.location := by
  have hwritten : s.written.length = s'.written.length := by rw [length_written, length_written, hlength]
  intro heq
  have hhash : hashBytes s.bytes = hashBytes s'.bytes := congrArg LocationId.id heq
  rw [bytes_eq_written, bytes_eq_written] at hhash
  exact foldl_mix_ne hwritten h _ hhash

/-- Positions in files with names of one length, whose bytes differ in exactly one place, have different program points.
So have any two columns below 256 on one line of a file, and two lines at one column whose numbers differ in one
byte. -/
theorem location_ne_of_nearby :
    (∀ s s' : SourceSite, s.file.utf8ByteSize = s'.file.utf8ByteSize → differences s.written s'.written = 1 →
      s.location ≠ s'.location) ∧
    (∀ (file : String) (line column column' : UInt32), column < 256 → column' < 256 → column ≠ column' →
      location ⟨file, line, column⟩ ≠ location ⟨file, line, column'⟩) ∧
    ∀ (file : String) (line line' column : UInt32), differences (littleEndian line) (littleEndian line') = 1 →
      location ⟨file, line, column⟩ ≠ location ⟨file, line', column⟩ := by
  refine ⟨location_ne, fun file line column column' hlt hlt' hne => ?_, fun file line line' column h => ?_⟩
  · refine location_ne ⟨file, line, column⟩ ⟨file, line, column'⟩ rfl ?_
    rw [written, written, differences_append rfl, differences_self, differences_littleEndian_of_lt hlt hlt' hne]
  · refine location_ne ⟨file, line, column⟩ ⟨file, line', column⟩ rfl ?_
    have hlength : (littleEndian line).length = (littleEndian line').length := rfl
    rw [written, written, List.append_assoc, List.append_assoc, differences_append rfl, differences_append hlength,
      differences_self, differences_self, h]

/-- The names of two files differ in the second byte of an accented letter. -/
theorem location_ne_of_nearby_accents :
    let s : SourceSite := ⟨"tests/é", 300, 9⟩
    let s' : SourceSite := ⟨"tests/è", 300, 9⟩
    s.file.utf8ByteSize = s'.file.utf8ByteSize ∧ differences s.written s'.written = 1 ∧ s.location ≠ s'.location ∧
      location ⟨s.file, 300, 9⟩ ≠ location ⟨s.file, 300, 255⟩ ∧
      differences (littleEndian 300) (littleEndian 556) = 1 ∧
      location ⟨s.file, 300, 9⟩ ≠ location ⟨s.file, 556, 9⟩ := by
  intro s s'
  obtain ⟨hbytes, hcolumns, hlines⟩ := location_ne_of_nearby
  have hlength : s.file.utf8ByteSize = s'.file.utf8ByteSize := by decide +kernel
  have hdiffer : differences s.written s'.written = 1 := by decide +kernel
  have hline : differences (littleEndian 300) (littleEndian 556) = 1 := by decide +kernel
  exact ⟨hlength, hdiffer, hbytes s s' hlength hdiffer, hcolumns s.file 300 9 255 (by decide) (by decide) (by decide),
    hline, hlines s.file 300 556 9 hline⟩

end MockExplorer.SourceSite
