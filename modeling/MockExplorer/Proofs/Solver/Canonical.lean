import Mathlib.Data.Finset.Card
import Mathlib.Data.Finset.Dedup
import Mathlib.Data.Nat.Find
import Mathlib.Order.Bounds.Basic
import MockExplorer.Proofs.Solver.Choice

/-!
# The values in a model

The values in a model of the solver can be told from the query. An input with an equality has the literal. An input
with disequalities alone has the least natural number that they leave, which is at most the number of literals that
they exclude. The natural numbers that a type has are those up to some bound, so if the solver finds one that is left,
it has not passed over a smaller one for want of a value.
-/

namespace MockExplorer

theorem ValueType.exists_ofInt64?_of_le {ty : ValueType} {j k : Nat} {v : Value} (hjk : j ≤ k) (hk : k < 2 ^ 63)
    (h : ty.ofInt64? (Int64.ofNat k) = some v) : ∃ w, ty.ofInt64? (Int64.ofNat j) = some w := by
  obtain ⟨hconforms, hread⟩ := ValueType.ofInt64?_eq_some.1 h
  have hk : (Int64.ofNat k).toInt = k := Int64.toInt_ofNat_of_lt hk
  -- Truth values apart, a type that does not have every natural number has those below `2 ^ 31`.
  have hsmall : ∀ i : Int32, i.toInt64 = Int64.ofNat k → j < 2 ^ 31 := by
    intro i hi
    have hlt := i.toInt_lt
    rw [← hi, Int32.toInt_toInt64] at hk
    omega
  cases ty with
  | long => exact ⟨_, rfl⟩
  | object | void => cases h
  | bool =>
      cases v with
      | bool b =>
          have hone : k ≤ 1 := by
            have hbit : (Int64.ofNat k).toInt ≤ 1 := by
              rw [← Option.some.inj hread]
              cases b <;> decide
            omega
          obtain rfl | rfl : j = 0 ∨ j = 1 := by omega
          · exact ⟨_, rfl⟩
          · exact ⟨_, rfl⟩
      | _ => cases hconforms
  | int =>
      cases v with
      | int i => exact ValueType.exists_ofInt64?_ofNat rfl (by simp) (hsmall i (Option.some.inj hread))
      | _ => cases hconforms
  | boxedInt =>
      cases v with
      | boxed i =>
          obtain ⟨i, _, hi⟩ := Option.map_eq_some_iff.1 hread
          exact ValueType.exists_ofInt64?_ofNat rfl (by simp) (hsmall i hi)
      | null => cases hread
      | _ => cases hconforms

namespace Equality

variable {query : List Predicate} {var : SymVar}

/-- The literals that the query excludes for the input. -/
def excluded (query : List Predicate) (var : SymVar) : Finset Int64 :=
  ((query.filter fun p => p.var = var ∧ p.op = .ne).map (·.rhs)).toFinset

/-- The natural numbers that the query leaves for the input. -/
def unexcluded (query : List Predicate) (var : SymVar) : Set Nat := {k | ∀ n ∈ excluded query var, n.toInt ≠ k}

theorem mem_excluded {n : Int64} : n ∈ excluded query var ↔ n ∈ literals query .ne var := by
  simp [excluded, mem_literals, and_assoc]

/-- The literals are too few to exclude all the natural numbers up to their number. -/
theorem exists_least_unexcluded (query : List Predicate) (var : SymVar) :
    ∃ k, IsLeast (unexcluded query var) k ∧ k ≤ (excluded query var).card := by
  obtain ⟨i, hle, hfree⟩ := exists_natCast_notMem (excluded query var).toList
  have hi : i ∈ unexcluded query var := fun n hn => hfree n (Finset.mem_toList.2 hn)
  classical
  refine ⟨Nat.find ⟨i, hi⟩, ⟨Nat.find_spec ⟨i, hi⟩, fun j hj => Nat.find_min' _ hj⟩, ?_⟩
  rw [Finset.length_toList] at hle
  exact (Nat.find_min' _ hi).trans hle

/-- The number that is found is the least that is left. -/
theorem Demand.solve_least {d : Demand} {v : Value} (hequal : d.equal = []) (h : d.solve var = .ok v) :
    ∃ k ∈ d.probes, v.toInt64? = some (Int64.ofNat k) ∧ Int64.ofNat k ∉ d.excluded ∧
      ∀ j < k, Int64.ofNat j ∈ d.excluded := by
  have hleast := Demand.least?_of_solve hequal h
  obtain ⟨k, hprobe, hread, hfirst⟩ := d.least?_first hleast
  obtain ⟨hconforms, hfree⟩ := d.least?_eq_some hleast
  refine ⟨k, hprobe, hread, fun hmem => hfree _ hmem hread, fun j hj => ?_⟩
  refine (hfirst j hj).resolve_right fun hnone => ?_
  obtain ⟨w, hw⟩ := ValueType.exists_ofInt64?_of_le (Nat.le_of_lt hj) (Demand.lt_of_mem_probes hprobe)
    (ValueType.ofInt64?_eq_some.2 ⟨hconforms, hread⟩)
  rw [hnone] at hw
  cases hw

theorem isLeast_unexcluded {k : Nat} (hk : k < 2 ^ 63) (hfree : Int64.ofNat k ∉ literals query .ne var)
    (htaken : ∀ j < k, Int64.ofNat j ∈ literals query .ne var) : IsLeast (unexcluded query var) k := by
  constructor
  · exact fun n hn => (ofNat_notMem hk).1 hfree n (mem_excluded.1 hn)
  · intro j hj
    by_contra hlt
    push Not at hlt
    exact hj _ (mem_excluded.2 (htaken j hlt)) (Int64.toInt_ofNat_of_lt (hlt.trans hk))

/-- The literals that are excluded for an input leave a least natural number, and it is at most their number. In a model
of the solver, an input with an equality has the literal, and an input with disequalities alone has that least number,
which is among the numbers that are tried. -/
theorem solve_canonical (query : List Predicate) :
    (∀ var, ∃ k, IsLeast (unexcluded query var) k ∧ k ≤ (excluded query var).card) ∧
    ∀ m, solve query = .sat m → ∀ p ∈ query,
      ∃ v n, m.get? p.var = some v ∧ v.conformsTo p.ty = true ∧ v.toInt64? = some n ∧
        (p.op = .eq → n = p.rhs) ∧
        ((∀ p' ∈ query, p'.var = p.var → p'.op = .ne) →
          ∃ k : Nat, n.toInt = k ∧ IsLeast (unexcluded query p.var) k ∧ k ≤ (excluded query p.var).card ∧
            k ∈ (demandOn query p.var p.ty).probes) := by
  refine ⟨exists_least_unexcluded query, fun m h p hp => ?_⟩
  obtain ⟨_, hall, _⟩ := solve_eq_sat h
  obtain ⟨v, hget, hv⟩ := hall p hp
  have hadmits := Demand.solve_ok hv
  obtain ⟨n, hn⟩ : ∃ n, v.toInt64? = some n := by
    rcases Demand.solve_first hv with ⟨n, _, hn⟩ | ⟨_, k, hk, _⟩
    · exact ⟨n, hn⟩
    · exact ⟨_, hk⟩
  refine ⟨v, n, hget, hadmits.conforms, hn, fun hop => ?_, fun hne => ?_⟩
  · have hwanted := hadmits.equal p.rhs (mem_literals.2 ⟨p, hp, rfl, hop, rfl⟩)
    exact Option.some.inj (hn.symm.trans hwanted)
  · have hequal : (demandOn query p.var p.ty).equal = [] := by
      refine List.eq_nil_iff_forall_not_mem.2 fun n' hn' => ?_
      obtain ⟨p', hp', hvar, hop, _⟩ := mem_literals.1 hn'
      rw [hne p' hp' hvar] at hop
      cases hop
    obtain ⟨k, hprobe, hk, hfree, htaken⟩ := Demand.solve_least hequal hv
    have hlt := Demand.lt_of_mem_probes hprobe
    have hleast := isLeast_unexcluded hlt hfree htaken
    obtain ⟨k', hleast', hle⟩ := exists_least_unexcluded query p.var
    obtain rfl := hleast.unique hleast'
    refine ⟨k, ?_, hleast, hle, hprobe⟩
    rw [Option.some.inj (hn.symm.trans hk)]
    exact Int64.toInt_ofNat_of_lt hlt

/-- Of the five literals that are excluded, one is negative, one is out of range of the type, and one is given twice. -/
theorem solve_canonical_gap :
    let x : SymVar := .forCall 0 "foo"
    let y : SymVar := .forCall 1 "ready"
    let query : List Predicate := [⟨x, .int, .ne, 1⟩, ⟨y, .bool, .eq, 1⟩, ⟨x, .int, .ne, -1⟩, ⟨x, .int, .ne, 0⟩,
      ⟨x, .int, .ne, 1⟩, ⟨x, .int, .ne, 9223372036854775807⟩, ⟨x, .int, .ne, 3⟩]
    let m : Model := (({} : Model).insert x (.int 2)).insert y (.bool true)
    solve query = .sat m ∧ (excluded query x).card = 5 ∧ IsLeast (unexcluded query x) 2 ∧
      ∃ v, m.get? y = some v ∧ v.toInt64? = some 1 := by
  intro x y query m
  have h : solve query = .sat m := by decide
  obtain ⟨_, hvalues⟩ := solve_canonical query
  refine ⟨h, by decide +kernel, ?_, ?_⟩
  · obtain ⟨v, n, hget, _, hn, _, hleast⟩ := hvalues m h ⟨x, .int, .ne, 1⟩ (by simp [query])
    obtain ⟨k, hk, hleast, _⟩ := hleast (by decide)
    have hm : m.get? x = some (.int 2) := by decide
    obtain rfl : Value.int 2 = v := Option.some.inj (hm.symm.trans hget)
    obtain rfl : (2 : Int64) = n := Option.some.inj hn
    obtain rfl : 2 = k := Int.ofNat.inj hk
    exact hleast
  · obtain ⟨v, n, hget, _, hn, heq, _⟩ := hvalues m h ⟨y, .bool, .eq, 1⟩ (by simp [query])
    exact ⟨v, hget, by rw [hn, heq rfl]⟩

end Equality

end MockExplorer
