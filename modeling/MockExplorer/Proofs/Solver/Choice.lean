import MockExplorer.Proofs.Solver.Equality

/-!
# Which model the solver chooses

Of the values that a demand admits, the solver takes the first in a fixed order. A value that it took under
fewer demands stays its choice under more demands that admit the value. For a query that goes on from another,
in a way that the model of the other already satisfies, it finds the same values again and writes defaults for
the inputs that the other query left open.
-/

namespace MockExplorer

/-- The second model is the first, with more inputs that are at the defaults of their types. -/
def Model.Padded (m m' : Model) : Prop :=
  ∀ var, m'.get? var = m.get? var ∨ m.get? var = none ∧ ∃ ty : ValueType, m'.get? var = some ty.default

theorem Value.eq_of_toInt64? {v w : Value} {ty : ValueType} {n : Int64} (hv : v.conformsTo ty = true)
    (hw : w.conformsTo ty = true) (hn : v.toInt64? = some n) (hn' : w.toInt64? = some n) : v = w := by
  have hread := ValueType.ofInt64?_eq_some.2 ⟨hv, hn⟩
  rw [ValueType.ofInt64?_eq_some.2 ⟨hw, hn'⟩] at hread
  exact (Option.some.inj hread).symm

theorem ValueType.default_eq_of_conformsTo {ty ty' : ValueType} (h : ty.default.conformsTo ty' = true) {n : Int64}
    (hn : ty.default.toInt64? = some n) : ty.default = ty'.default := by
  cases ty with
  | object | void => cases hn
  | _ => cases ty' <;> first | rfl | cases h

namespace Equality

/-! ## One demand -/

theorem Demand.least?_first {d : Demand} {v : Value} (h : d.least? = some v) :
    ∃ k ∈ d.probes, v.toInt64? = some (Int64.ofNat k) ∧
      ∀ j < k, Int64.ofNat j ∈ d.excluded ∨ d.ty.ofInt64? (Int64.ofNat j) = none := by
  obtain ⟨before, k, after, hrange, hk, hbefore⟩ := List.findSome?_eq_some_iff.1 h
  split at hk
  · cases hk
  · have hprobe : k ∈ d.probes := hrange ▸ by simp
    refine ⟨k, hprobe, (ValueType.ofInt64?_eq_some.1 hk).2, fun j hj => ?_⟩
    -- The numbers are tried in ascending order, so a smaller one was tried before.
    have hsorted : (before ++ k :: after).Pairwise (· < ·) := hrange ▸ List.pairwise_lt_range
    have htried : j ∈ before ++ k :: after :=
      hrange ▸ List.mem_range.2 (Nat.lt_trans hj (List.mem_range.1 hprobe))
    have hmem : j ∈ before := by
      rcases List.mem_append.1 htried with hmem | hmem
      · exact hmem
      · rcases List.mem_cons.1 hmem with rfl | hmem
        · omega
        · have := (List.pairwise_cons.1 (List.pairwise_append.1 hsorted).2.1).1 j hmem
          omega
    have hnone := hbefore j hmem
    split at hnone
    · exact .inl ‹_›
    · exact .inr hnone

theorem Demand.least?_of_solve {d : Demand} {var : SymVar} {v : Value} (hequal : d.equal = [])
    (h : d.solve var = .ok v) : d.least? = some v := by
  simp only [Demand.solve, hequal] at h
  split at h
  · cases h
  · split at h
    · rename_i hleast
      cases h
      exact hleast
    · cases h

/-- The value is one that is asked for, or reads as the least natural number that a value can have. -/
theorem Demand.solve_first {d : Demand} {var : SymVar} {v : Value} (h : d.solve var = .ok v) :
    (∃ n ∈ d.equal, v.toInt64? = some n) ∨
      d.equal = [] ∧ ∃ k, v.toInt64? = some (Int64.ofNat k) ∧
        ∀ w j, d.Admits w → w.toInt64? = some (Int64.ofNat j) → k ≤ j := by
  have hadmits := Demand.solve_ok h
  cases hequal : d.equal with
  | cons n rest => exact .inl ⟨n, by simp, hadmits.equal n (by simp [hequal])⟩
  | nil =>
      obtain ⟨k, _, hread, hfirst⟩ := d.least?_first (Demand.least?_of_solve hequal h)
      refine .inr ⟨rfl, k, hread, fun w j hw hj => ?_⟩
      by_contra hlt
      rcases hfirst j (by omega) with hexcluded | hnone
      · exact hw.excluded _ hexcluded hj
      · rw [ValueType.ofInt64?_eq_some.2 ⟨hw.conforms, hj⟩] at hnone
        cases hnone

/-- The solver's choice under fewer demands stays its choice under more demands that admit it. -/
theorem Demand.solve_eq_of_admits {d d' : Demand} {var : SymVar} {v v' : Value} (hty : d.ty = d'.ty)
    (hequal : d.equal ⊆ d'.equal) (hexcluded : d.excluded ⊆ d'.excluded) (h : d.solve var = .ok v)
    (h' : d'.solve var = .ok v') (hv : d'.Admits v) : v = v' := by
  have hv' := Demand.solve_ok h'
  rcases Demand.solve_first h' with ⟨n, hn, hread'⟩ | ⟨hnil, k', hread', hfirst'⟩
  · exact Value.eq_of_toInt64? hv.conforms hv'.conforms (hv.equal n hn) hread'
  · rcases Demand.solve_first h with ⟨n, hn, _⟩ | ⟨_, k, hread, hfirst⟩
    · have hmem := hequal hn
      rw [hnil] at hmem
      cases hmem
    · have hweaker : d.Admits v' := ⟨hty ▸ hv'.conforms, fun n hn => hv'.equal n (hequal hn),
        fun n hn => hv'.excluded n (hexcluded hn)⟩
      have hk : k = k' := Nat.le_antisymm (hfirst v' k' hweaker hread') (hfirst' v k hv hread)
      exact Value.eq_of_toInt64? hv.conforms hv'.conforms (hk ▸ hread) hread'

theorem Demand.solve_nothing {ty : ValueType} (hty : ty.isNumeric = true) (var : SymVar) :
    Demand.solve ⟨ty, [], []⟩ var = .ok ty.default := by
  cases ty <;> first | rfl | cases hty

theorem Demand.isNumeric_of_solve {d : Demand} {var : SymVar} {v : Value} (h : d.solve var = .ok v) :
    d.ty.isNumeric = true := by
  cases hty : d.ty.isNumeric with
  | true => rfl
  | false => simp [Demand.solve, hty] at h

/-! ## Whole queries -/

variable {query query' : List Predicate} {m m' : Model}

theorem demandOn_of_notMem {var : SymVar} (h : ∀ p ∈ query, p.var ≠ var) (ty : ValueType) :
    demandOn query var ty = ⟨ty, [], []⟩ := by
  have hnone : ∀ op, literals query op var = [] := by
    intro op
    refine List.eq_nil_iff_forall_not_mem.2 fun n hn => ?_
    obtain ⟨p, hp, hvar, _⟩ := mem_literals.1 hn
    exact h p hp hvar
  simp [demandOn, hnone]

/-- Also where the model leaves an input open, its default is what the solver would choose. -/
theorem solve_demandOn (h : solve query = .sat m) {var : SymVar} {ty : ValueType} (hty : ty.isNumeric = true)
    (hused : ∀ p ∈ query, p.var = var → p.ty = ty) :
    (demandOn query var ty).solve var = .ok (m.resolve var ty) := by
  obtain ⟨_, hall, hout⟩ := solve_eq_sat h
  by_cases hvar : ∃ p ∈ query, p.var = var
  · obtain ⟨p, hp, rfl⟩ := hvar
    obtain ⟨v, hget, hsolve⟩ := hall p hp
    rw [Model.resolve, hget, ← hused p hp rfl]
    exact hsolve
  · push Not at hvar
    rw [demandOn_of_notMem hvar, Model.resolve, hout var hvar]
    exact Demand.solve_nothing hty var

/-- A model that satisfies a longer query already has the values that the solver chooses for it. -/
theorem get?_of_solve (h : solve query = .sat m) (h' : solve query' = .sat m') (hsub : query ⊆ query')
    (hholds : ∀ p ∈ query', p.holds (m.resolve p.var p.ty) = true) {p : Predicate} (hp : p ∈ query') :
    m'.get? p.var = some (m.resolve p.var p.ty) := by
  obtain ⟨hsingle, hall, _⟩ := solve_eq_sat h'
  obtain ⟨v, hget, hv⟩ := hall p hp
  have hty : p.ty.isNumeric = true := Demand.isNumeric_of_solve hv
  have hchosen := solve_demandOn h hty fun r hr hvar => hsingle p hp r (hsub hr) hvar
  have hadmits : (demandOn query' p.var p.ty).Admits (m.resolve p.var p.ty) := by
    refine (demandOn_admits hsingle hp).2 fun r hr hvar => ?_
    have hty := hsingle p hp r hr hvar
    exact ⟨hty ▸ (Demand.solve_ok hchosen).conforms, by rw [← hvar, ← hty]; exact hholds r hr⟩
  have hmore : ∀ op, literals query op p.var ⊆ literals query' op p.var := by
    intro op n hn
    obtain ⟨r, hr, hrest⟩ := mem_literals.1 hn
    exact mem_literals.2 ⟨r, hsub hr, hrest⟩
  have hsame : m.resolve p.var p.ty = v := by
    refine Demand.solve_eq_of_admits ?_ (hmore .eq) (hmore .ne) hchosen hv hadmits
    rfl
  rw [hget, hsame]

theorem padded_of_solve (h : solve query = .sat m) (h' : solve query' = .sat m') (hsub : query ⊆ query')
    (hholds : ∀ p ∈ query', p.holds (m.resolve p.var p.ty) = true) : m.Padded m' := by
  intro var
  by_cases hvar : ∃ p ∈ query', p.var = var
  · obtain ⟨p, hp, rfl⟩ := hvar
    have hget := get?_of_solve h h' hsub hholds hp
    cases hm : m.get? p.var with
    | some v => exact .inl (by rw [hget, Model.resolve, hm, Option.getD_some])
    | none => exact .inr ⟨rfl, p.ty, by rw [hget, Model.resolve, hm, Option.getD_none]⟩
  · push Not at hvar
    refine .inl ?_
    rw [(solve_eq_sat h').2.2 var hvar, (solve_eq_sat h).2.2 var fun p hp => hvar p (hsub hp)]

theorem resolve_of_padded (h' : solve query' = .sat m') (hpadded : m.Padded m') {var : SymVar} {ty : ValueType}
    (hused : ∀ p ∈ query', p.var = var → p.ty = ty) : m.resolve var ty = m'.resolve var ty := by
  rcases hpadded var with heq | ⟨hnone, ty', hsome⟩
  · rw [Model.resolve, Model.resolve, heq]
  · obtain ⟨p, hp, rfl⟩ := (isSome_get?_of_solve h' var).1 ⟨_, hsome⟩
    obtain ⟨v, hget, hv⟩ := (solve_eq_sat h').2.1 p hp
    obtain rfl : ty'.default = v := Option.some.inj (hsome.symm.trans hget)
    obtain rfl : p.ty = ty := hused p hp rfl
    have hread : ∃ n, ty'.default.toInt64? = some n := by
      rcases Demand.solve_first hv with ⟨n, _, hn⟩ | ⟨_, k, hk, _⟩
      · exact ⟨n, hn⟩
      · exact ⟨_, hk⟩
    obtain ⟨n, hn⟩ := hread
    rw [Model.resolve, Model.resolve, hnone, hsome, Option.getD_none, Option.getD_some,
      ValueType.default_eq_of_conformsTo (Demand.solve_ok hv).conforms hn, demandOn]

/-! ## Queries of one literal -/

section

variable {p : Predicate} {v : Value}

theorem solve_singleton (h : (demandOn [p] p.var p.ty).solve p.var = .ok v) :
    solve [p] = .sat (({} : Model).insert p.var v) := by
  have hdemands : (demands [p]).entries = [(p.var, demandOn [p] p.var p.ty)] := by
    simp [demands, typeOf?, SortedMap.ofList]
    rfl
  simp [solve, mixed?, typeOf?, hdemands, assign, h]

theorem solve_eq_literal (hop : p.op = .eq) (h : p.ty.ofInt64? p.rhs = some v) :
    solve [p] = .sat (({} : Model).insert p.var v) := by
  have hty : p.ty.isNumeric = true := by
    cases hty : p.ty <;> rw [hty] at h <;> first | rfl | cases h
  have hdemand : demandOn [p] p.var p.ty = ⟨p.ty, [p.rhs], []⟩ := by
    simp [demandOn, literals, hop]
    rfl
  refine solve_singleton ?_
  simp [hdemand, Demand.solve, hty, h]

theorem solve_ne_literal (hop : p.op = .ne) (hty : p.ty.isNumeric = true) (h : p.rhs ≠ 0) :
    solve [p] = .sat (({} : Model).insert p.var p.ty.default) := by
  have hdemand : demandOn [p] p.var p.ty = ⟨p.ty, [], [p.rhs]⟩ := by
    simp [demandOn, literals, hop]
    rfl
  have hzero : p.ty.ofInt64? 0 = some p.ty.default := by
    cases htype : p.ty <;> rw [htype] at hty <;> first | rfl | cases hty
  have hleast : Demand.least? ⟨p.ty, [], [p.rhs]⟩ = some p.ty.default := by
    have hprobes : Demand.probes ⟨p.ty, [], [p.rhs]⟩ = [0, 1] := rfl
    simp [Demand.least?, hprobes, Ne.symm h, hzero]
  refine solve_singleton ?_
  simp [hdemand, Demand.solve, hty, hleast]

end

end Equality

end MockExplorer
