import Mathlib.Algebra.Group.Nat.Defs
import MockExplorer.Value

/-!
# Values and their numeric readings

A number is read back from exactly one value of a numeric type, if it is in the type's range. Defaults
inhabit their types.
-/

namespace MockExplorer

theorem ValueType.default_conformsTo (ty : ValueType) : ty.default.conformsTo ty = true := by
  cases ty <;> rfl

theorem Value.narrow?_eq_some {n : Int64} {i : Int32} : Value.narrow? n = some i ↔ i.toInt64 = n := by
  unfold Value.narrow?
  constructor
  · intro h
    split at h
    · rename_i hn; cases h; exact hn
    · cases h
  · rintro rfl
    simp

/-- The value built from a number is the value of the type that reads as this number. -/
theorem ValueType.ofInt64?_eq_some {ty : ValueType} {n : Int64} {v : Value} :
    ty.ofInt64? n = some v ↔ v.conformsTo ty = true ∧ v.toInt64? = some n := by
  cases ty with
  | bool =>
      constructor
      · intro h
        simp only [ValueType.ofInt64?] at h
        split at h
        · rename_i hn; cases h; exact ⟨rfl, by simp [Value.toInt64?, hn]⟩
        · split at h
          · rename_i hn; cases h; exact ⟨rfl, by simp [Value.toInt64?, hn]⟩
          · cases h
      · rintro ⟨hc, hv⟩
        cases v with
        | bool b =>
            cases hv
            cases b <;> rfl
        | _ => cases hc
  | int => cases v <;> simp [ValueType.ofInt64?, Value.narrow?_eq_some, Value.conformsTo.eq_def, Value.toInt64?]
  | long => cases v <;> simp [ValueType.ofInt64?, Value.conformsTo.eq_def, Value.toInt64?, eq_comm]
  | boxedInt =>
      rcases v with _ | _ | _ | _ | _ | i <;>
        simp [ValueType.ofInt64?, Value.narrow?_eq_some, Value.conformsTo.eq_def, Value.toInt64?]
  | object | void => cases v <;> simp [ValueType.ofInt64?, Value.conformsTo.eq_def, Value.toInt64?]

theorem Value.narrow?_ofNat {k : Nat} (hk : k < 2 ^ 31) :
    Value.narrow? (Int64.ofNat k) = some (Int32.ofNat k) := by
  rw [Value.narrow?_eq_some, ← Int64.toInt_inj, Int32.toInt_toInt64, Int32.toInt_ofNat_of_lt hk,
    Int64.toInt_ofNat_of_lt (by omega)]

/-- Truth values apart, every numeric type has the natural numbers below `2 ^ 31`. -/
theorem ValueType.exists_ofInt64?_ofNat {ty : ValueType} (hty : ty.isNumeric = true) (hb : ty ≠ .bool)
    {k : Nat} (hk : k < 2 ^ 31) : ∃ v, ty.ofInt64? (Int64.ofNat k) = some v := by
  cases ty with
  | bool => exact absurd rfl hb
  | int => exact ⟨.int (Int32.ofNat k), by simp [ValueType.ofInt64?, Value.narrow?_ofNat hk]⟩
  | long => exact ⟨_, rfl⟩
  | boxedInt =>
      exact ⟨.boxed (some (Int32.ofNat k)), by simp [ValueType.ofInt64?, Value.narrow?_ofNat hk]⟩
  | object | void => cases hty

end MockExplorer
