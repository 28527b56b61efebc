import Mathlib.Data.List.Nodup
import Mathlib.Data.List.Perm.Subperm
import MockExplorer.Proofs.Value
import MockExplorer.Solver.Equality

/-!
# Solving the demand on one input

The solver finds a value for a demand exactly if some value of the type meets it. Where nothing is
demanded but disequalities, it tries only as many natural numbers as there are excluded literals, and one
more: one of them is left over, and with fewer than `2 ^ 31` literals it is in range of every numeric type
but the truth values, of which both are tried.
-/

namespace MockExplorer.Equality

/-- The value has the type, equals every literal it should, and no literal it should not. -/
structure Demand.Admits (d : Demand) (v : Value) : Prop where
  conforms : v.conformsTo d.ty = true
  equal : ∀ n ∈ d.equal, v.toInt64? = some n
  excluded : ∀ n ∈ d.excluded, v.toInt64? ≠ some n

/-! ## The least natural number left over -/

/-- Among the first `l.length + 1` natural numbers, one is not in `l`. -/
theorem exists_natCast_notMem (l : List Int64) : ∃ k ≤ l.length, ∀ n ∈ l, n.toInt ≠ (k : Int) := by
  by_contra hall
  push Not at hall
  have hsub : (List.range (l.length + 1)).map Nat.cast ⊆ l.map Int64.toInt := by
    intro i hi
    obtain ⟨k, hk, rfl⟩ := List.mem_map.1 hi
    obtain ⟨n, hn, heq⟩ := hall k (by simpa [Nat.lt_succ_iff] using hk)
    exact List.mem_map.2 ⟨n, hn, heq⟩
  have hnodup : ((List.range (l.length + 1)).map (Nat.cast : Nat → Int)).Nodup :=
    List.nodup_range.map fun i j h => Int.ofNat.inj h
  have hle := (hnodup.subperm hsub).length_le
  simp only [List.length_map, List.length_range] at hle
  omega

theorem ofNat_notMem {l : List Int64} {k : Nat} (hk : k < 2 ^ 63) :
    Int64.ofNat k ∉ l ↔ ∀ n ∈ l, n.toInt ≠ (k : Int) := by
  have hread : (Int64.ofNat k).toInt = k := Int64.toInt_ofNat_of_lt hk
  constructor
  · rintro hnot n hn heq
    rw [← hread, Int64.toInt_inj] at heq
    exact hnot (heq ▸ hn)
  · exact fun h hmem => h _ hmem hread

theorem Demand.mem_probes {d : Demand} {k : Nat} (hlen : d.excluded.length < 2 ^ 63) :
    k ∈ d.probes ↔ k ≤ d.excluded.length := by
  rw [probes, List.mem_range, Int64.toInt_ofNat_of_lt hlen]
  omega

theorem Demand.lt_of_mem_probes {d : Demand} {k : Nat} (hk : k ∈ d.probes) : k < 2 ^ 63 := by
  have hlt := (Int64.ofNat d.excluded.length).toInt_lt
  rw [probes, List.mem_range] at hk
  omega

theorem Demand.least?_eq_some {d : Demand} {v : Value} (h : d.least? = some v) :
    v.conformsTo d.ty = true ∧ ∀ n ∈ d.excluded, v.toInt64? ≠ some n := by
  obtain ⟨k, _, hk⟩ := List.exists_of_findSome?_eq_some h
  split at hk
  · cases hk
  · rename_i hnot
    obtain ⟨hc, hv⟩ := ValueType.ofInt64?_eq_some.1 hk
    refine ⟨hc, fun n hn heq => hnot ?_⟩
    rw [hv] at heq
    cases heq
    exact hn

/-- A number that was tried in vain is excluded or out of range. -/
theorem Demand.least?_eq_none {d : Demand} (h : d.least? = none) {k : Nat} (hk : k ∈ d.probes) :
    Int64.ofNat k ∈ d.excluded ∨ d.ty.ofInt64? (Int64.ofNat k) = none := by
  have := List.findSome?_eq_none_iff.1 h k hk
  split at this
  · exact Or.inl ‹_›
  · exact Or.inr this

/-- Where no number was found, every value of the type is excluded. -/
theorem Demand.exists_excluded {d : Demand} (hty : d.ty.isNumeric = true) (hlen : d.excluded.length < 2 ^ 31)
    (h : d.least? = none) {v : Value} (hv : v.conformsTo d.ty = true) :
    ∃ n ∈ d.excluded, v.toInt64? = some n := by
  have hprobes : ∀ {k}, k ∈ d.probes ↔ k ≤ d.excluded.length := Demand.mem_probes (by omega)
  obtain ⟨k, hk, hnot⟩ := exists_natCast_notMem d.excluded
  have hout := (d.least?_eq_none h (hprobes.2 hk)).resolve_left ((ofNat_notMem (by omega)).2 hnot)
  by_cases hb : d.ty = .bool
  · rw [hb] at hv hout
    -- The number left over is neither zero nor one, so both of these are excluded.
    have h0 : k ≠ 0 := by rintro rfl; cases hout
    have h1 : k ≠ 1 := by rintro rfl; cases hout
    have mem : ∀ j < 2, Int64.ofNat j ∈ d.excluded := by
      intro j hj
      refine (d.least?_eq_none h (hprobes.2 (by omega))).resolve_right ?_
      rw [hb]
      obtain rfl | rfl : j = 0 ∨ j = 1 := by omega
      all_goals exact fun hnone => by cases hnone
    cases v with
    | bool b =>
        cases b with
        | false => exact ⟨0, mem 0 (by omega), rfl⟩
        | true => exact ⟨1, mem 1 (by omega), rfl⟩
    | _ => cases hv
  · obtain ⟨w, hw⟩ := ValueType.exists_ofInt64?_ofNat hty hb (Nat.lt_of_le_of_lt hk hlen)
    rw [hw] at hout
    cases hout

/-! ## Solving -/

theorem Demand.solve_ok {d : Demand} {var : SymVar} {v : Value} (h : d.solve var = .ok v) : d.Admits v := by
  unfold Demand.solve at h
  split at h
  · cases h
  · split at h
    · rename_i hnil
      split at h
      · rename_i w hw
        cases h
        obtain ⟨hc, hx⟩ := d.least?_eq_some hw
        exact ⟨hc, by simp [hnil], hx⟩
      · cases h
    · rename_i wanted hone
      split at h
      · cases h
      · rename_i hnot
        split at h
        · rename_i w hw
          cases h
          obtain ⟨hc, hv⟩ := ValueType.ofInt64?_eq_some.1 hw
          refine ⟨hc, by simp [hone, hv], fun n hn heq => hnot ?_⟩
          rw [hv] at heq
          cases heq
          exact hn
        · cases h
    · cases h

/-- A demand is refused as undecided only for its type. -/
theorem Demand.solve_error {d : Demand} {var : SymVar} {a : Answer} (h : d.solve var = .error a) :
    (d.ty.isNumeric = false ∧ a = .unknown (.notNumeric var d.ty)) ∨
      (d.ty.isNumeric = true ∧ a = .unsat) := by
  unfold Demand.solve at h
  split at h
  · rename_i hty
    cases h
    exact Or.inl ⟨hty, rfl⟩
  · rename_i hty
    refine Or.inr ⟨by simpa using hty, ?_⟩
    split at h
    · split at h <;> cases h
      rfl
    · split at h
      · cases h; rfl
      · split at h <;> cases h
        rfl
    · cases h; rfl

theorem Demand.not_admits_of_unsat {d : Demand} {var : SymVar} (hlen : d.excluded.length < 2 ^ 31)
    (hnodup : d.equal.Nodup) (h : d.solve var = .error .unsat) (v : Value) : ¬ d.Admits v := by
  intro hv
  unfold Demand.solve at h
  split at h
  · cases h
  · rename_i hty
    split at h
    · split at h
      · cases h
      · rename_i hnone
        obtain ⟨n, hn, heq⟩ := d.exists_excluded (by simpa using hty) hlen hnone hv.conforms
        exact hv.excluded n hn heq
    · rename_i wanted hone
      have hread := hv.equal wanted (by simp [hone])
      split at h
      · rename_i hx
        exact hv.excluded wanted hx hread
      · rw [ValueType.ofInt64?_eq_some.2 ⟨hv.conforms, hread⟩] at h
        cases h
    · rename_i n n' rest htwo
      -- Two different literals cannot both be the reading of `v`.
      have hn := hv.equal n (by simp [htwo])
      have hn' := hv.equal n' (by simp [htwo])
      rw [hn] at hn'
      simp only [htwo, List.nodup_cons, List.mem_cons, not_or] at hnodup
      exact hnodup.1.1 (Option.some.inj hn')

end MockExplorer.Equality
