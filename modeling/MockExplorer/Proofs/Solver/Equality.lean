import MockExplorer.Proofs.Solver.Demand
import MockExplorer.Proofs.SortedMap

/-!
# Answers of the equality solver

A query that uses every input at one type falls apart into one demand for each of its inputs: a model
satisfies the query exactly if it gives every input a value that its demand admits. So what holds of
single demands carries over to the answer to the whole query.
-/

namespace MockExplorer.Equality

variable {query : List Predicate}

/-! ## What a query says of one input -/

/-- The query uses each of its inputs at one type. -/
def SingleTyped (query : List Predicate) : Prop :=
  ∀ p ∈ query, ∀ p' ∈ query, p'.var = p.var → p'.ty = p.ty

theorem nodup_eraseDups : (l : List Int64) → l.eraseDups.Nodup
  | [] => .nil
  | n :: l => by
      have hle := List.length_filter_le (fun k => !k == n) l
      rw [List.eraseDups_cons]
      exact List.nodup_cons.2 ⟨by simp, nodup_eraseDups (l.filter fun k => !k == n)⟩
termination_by l => l.length
decreasing_by exact Nat.lt_succ_of_le hle

theorem mem_literals {op : CmpOp} {var : SymVar} {n : Int64} :
    n ∈ literals query op var ↔ ∃ p ∈ query, p.var = var ∧ p.op = op ∧ p.rhs = n := by
  simp [literals, and_assoc]

theorem nodup_literals (op : CmpOp) (var : SymVar) : (literals query op var).Nodup :=
  nodup_eraseDups _

theorem length_literals_le (op : CmpOp) (var : SymVar) : (literals query op var).length ≤ query.length := by
  have hsub : literals query op var ⊆ (query.filter fun p => p.var = var ∧ p.op = op).map (·.rhs) :=
    fun _ hn => List.mem_eraseDups.1 hn
  have hle := ((nodup_literals op var).subperm hsub).length_le
  rw [List.length_map] at hle
  exact Nat.le_trans hle (List.length_filter_le _ _)

theorem typeOf?_of_mem {p : Predicate} (hp : p ∈ query) :
    ∃ p' ∈ query, p'.var = p.var ∧ typeOf? query p.var = some p'.ty := by
  have hsome : (query.find? fun p' => p'.var = p.var).isSome := by
    rw [List.find?_isSome]
    exact ⟨p, hp, by simp⟩
  obtain ⟨p', hp'⟩ := Option.isSome_iff_exists.1 hsome
  exact ⟨p', List.mem_of_find?_eq_some hp', by simpa using List.find?_some hp', by simp [typeOf?, hp']⟩

theorem SingleTyped.typeOf? (h : SingleTyped query) {p : Predicate} (hp : p ∈ query) :
    typeOf? query p.var = some p.ty := by
  obtain ⟨p', hp', hvar, hty⟩ := typeOf?_of_mem hp
  rw [hty, h p hp p' hp' hvar]

theorem mixed?_eq_none : mixed? query = none ↔ SingleTyped query := by
  simp only [mixed?, List.findSome?_eq_none_iff]
  constructor
  · intro h p hp p' hp' hvar
    -- Both are used at the type of the first use of their input.
    have first : ∀ r ∈ query, Equality.typeOf? query r.var = some r.ty := by
      intro r hr
      obtain ⟨r', _, _, hty⟩ := typeOf?_of_mem hr
      have := h r hr
      simp only [hty] at this
      split at this
      · rename_i heq; rw [hty, heq]
      · cases this
    have hty := first p' hp'
    rw [hvar, first p hp] at hty
    exact (Option.some.inj hty).symm
  · intro h p hp
    simp [h.typeOf? hp]

/-- The demand of the query on an input that it uses at type `ty`. -/
def demandOn (query : List Predicate) (var : SymVar) (ty : ValueType) : Demand :=
  ⟨ty, literals query .eq var, literals query .ne var⟩

theorem demands_eq (h : SingleTyped query) :
    demands query = SortedMap.ofList (query.map fun p => (p.var, demandOn query p.var p.ty)) := by
  refine congrArg SortedMap.ofList (List.map_congr_left fun p hp => ?_)
  rw [h.typeOf? hp, Option.getD_some, demandOn]

theorem mem_demands (h : SingleTyped query) {var : SymVar} {d : Demand} :
    (var, d) ∈ (demands query).entries ↔ ∃ p ∈ query, p.var = var ∧ d = demandOn query var p.ty := by
  rw [SortedMap.mem_entries, demands_eq h, SortedMap.ofList]
  by_cases hvar : var ∈ (query.map fun p => (p.var, demandOn query p.var p.ty)).map Prod.fst
  · obtain ⟨d', hd', hget⟩ := SortedMap.get?_foldl_insert_of_mem (m := SortedMap.empty) hvar
    obtain ⟨p, hp, heq⟩ := List.mem_map.1 hd'
    cases heq
    rw [hget, Option.some.injEq]
    constructor
    · rintro rfl; exact ⟨p, hp, rfl, rfl⟩
    · rintro ⟨p', hp', hvar', rfl⟩
      rw [h p hp p' hp' hvar']
  · rw [SortedMap.get?_foldl_insert_of_notMem hvar]
    constructor
    · intro hnone; simp at hnone
    · rintro ⟨p, hp, rfl, _⟩
      exact absurd (by simpa using ⟨p, hp, rfl⟩) hvar

theorem holds_eq_true {p : Predicate} {v : Value} :
    p.holds v = true ↔
      (p.op = .eq → v.toInt64? = some p.rhs) ∧ (p.op = .ne → v.toInt64? ≠ some p.rhs) := by
  unfold Predicate.holds
  cases p.op <;> simp [CmpOp.apply]

theorem demandOn_admits (h : SingleTyped query) {p : Predicate} (hp : p ∈ query) {v : Value} :
    (demandOn query p.var p.ty).Admits v ↔
      ∀ r ∈ query, r.var = p.var → v.conformsTo r.ty = true ∧ r.holds v = true := by
  constructor
  · intro hv r hr hvar
    refine ⟨h p hp r hr hvar ▸ hv.conforms, holds_eq_true.2 ⟨fun hop => ?_, fun hop => ?_⟩⟩
    · exact hv.equal _ (mem_literals.2 ⟨r, hr, hvar, hop, rfl⟩)
    · exact hv.excluded _ (mem_literals.2 ⟨r, hr, hvar, hop, rfl⟩)
  · intro hv
    refine ⟨(hv p hp rfl).1, fun n hn => ?_, fun n hn => ?_⟩
    · obtain ⟨r, hr, hvar, hop, rfl⟩ := mem_literals.1 hn
      exact (holds_eq_true.1 (hv r hr hvar).2).1 hop
    · obtain ⟨r, hr, hvar, hop, rfl⟩ := mem_literals.1 hn
      exact (holds_eq_true.1 (hv r hr hvar).2).2 hop

/-! ## Solving the inputs in turn -/

/-- Either every input has got a value, or the first demand without one decides the answer. -/
theorem assign_cases {entries : List (SymVar × Demand)}
    (hasc : entries.Pairwise fun a b => compare a.1 b.1 = .lt) (m : Model) :
    (∃ m', assign entries m = .sat m' ∧ (∀ e ∈ entries, ∃ v, e.2.solve e.1 = .ok v ∧ m'.get? e.1 = some v) ∧
      ∀ var, var ∉ entries.map Prod.fst → m'.get? var = m.get? var) ∨
    ∃ e ∈ entries, ∃ a, e.2.solve e.1 = .error a ∧ assign entries m = a := by
  induction entries generalizing m with
  | nil => exact Or.inl ⟨m, rfl, by simp, by simp⟩
  | cons e rest ih =>
      obtain ⟨var, d⟩ := e
      obtain ⟨hhead, hrest⟩ := List.pairwise_cons.1 hasc
      cases hd : d.solve var with
      | error a => exact Or.inr ⟨_, List.mem_cons_self, a, hd, by simp [assign, hd]⟩
      | ok v =>
          have hstep : assign ((var, d) :: rest) m = assign rest (m.insert var v) := by simp [assign, hd]
          rw [hstep]
          rcases ih hrest (m.insert var v) with ⟨m', hm', hall, hout⟩ | ⟨e, he, a, ha, hans⟩
          · have hvar : var ∉ rest.map Prod.fst := by
              intro hmem
              obtain ⟨e, he, heq⟩ := List.mem_map.1 hmem
              have := hhead e he
              simp [heq] at this
            refine Or.inl ⟨m', hm', fun e he => ?_, fun w hw => ?_⟩
            · rcases List.mem_cons.1 he with rfl | he
              · exact ⟨v, hd, by rw [hout _ hvar]; exact SortedMap.get?_insert_self ..⟩
              · exact hall e he
            · rw [List.map_cons, List.mem_cons, not_or] at hw
              rw [hout w hw.2]
              exact SortedMap.get?_insert_of_ne _ _ hw.1
          · exact Or.inr ⟨e, List.mem_cons_of_mem _ he, a, ha, hans⟩

/-- A model of the answer assigns the inputs of the query, each the value that its demand is solved with. -/
theorem solve_eq_sat {m : Model} (h : solve query = .sat m) :
    SingleTyped query ∧
      (∀ p ∈ query, ∃ v, m.get? p.var = some v ∧ (demandOn query p.var p.ty).solve p.var = .ok v) ∧
      ∀ var, (∀ p ∈ query, p.var ≠ var) → m.get? var = none := by
  unfold solve at h
  split at h
  · cases h
  · rename_i hmixed
    have hsingle := mixed?_eq_none.1 hmixed
    rcases assign_cases (demands query).ascending {} with ⟨m', hm', hall, hout⟩ | ⟨e, _, a, ha, hans⟩
    · rw [hm'] at h
      cases h
      refine ⟨hsingle, fun p hp => ?_, fun var hvar => ?_⟩
      · obtain ⟨v, hv, hget⟩ := hall _ ((mem_demands hsingle).2 ⟨p, hp, rfl, rfl⟩)
        exact ⟨v, hget, hv⟩
      · refine hout var fun hmem => ?_
        obtain ⟨⟨_, d⟩, he, rfl⟩ := List.mem_map.1 hmem
        obtain ⟨p, hp, hpv, _⟩ := (mem_demands hsingle).1 he
        exact hvar p hp hpv
    · rw [hans] at h
      subst h
      rcases Demand.solve_error ha with ⟨_, hu⟩ | ⟨_, hu⟩ <;> cases hu

/-- An answer other than a model comes from mixed types or from the demand on one input. -/
theorem exists_of_solve_ne_sat {a : Answer} (h : solve query = a) (hsat : ∀ m, a ≠ .sat m) :
    ¬ SingleTyped query ∧ (∃ reason, a = .unknown reason) ∨
      SingleTyped query ∧ ∃ p ∈ query, (demandOn query p.var p.ty).solve p.var = .error a := by
  unfold solve at h
  split at h
  · rename_i reason hmixed
    refine Or.inl ⟨fun hsingle => ?_, reason, h.symm⟩
    rw [mixed?_eq_none.2 hsingle] at hmixed
    cases hmixed
  · rename_i hmixed
    have hsingle := mixed?_eq_none.1 hmixed
    rcases assign_cases (demands query).ascending {} with ⟨m, hm, _⟩ | ⟨⟨var, d⟩, he, b, hb, hans⟩
    · exact absurd (h.symm.trans hm) (hsat m)
    · obtain ⟨p, hp, rfl, rfl⟩ := (mem_demands hsingle).1 he
      obtain rfl : b = a := hans.symm.trans h
      exact Or.inr ⟨hsingle, p, hp, hb⟩

/-! ## Soundness and completeness -/

theorem satisfies_of_solve {m : Model} (h : solve query = .sat m) : m.Satisfies query := by
  obtain ⟨hsingle, hall, _⟩ := solve_eq_sat h
  intro p hp
  obtain ⟨v, hget, hv⟩ := hall p hp
  exact ⟨v, hget, (demandOn_admits hsingle hp).1 (Demand.solve_ok hv) p hp rfl⟩

theorem isSome_get?_of_solve {m : Model} (h : solve query = .sat m) (var : SymVar) :
    (∃ v, m.get? var = some v) ↔ ∃ p ∈ query, p.var = var := by
  obtain ⟨_, hall, hout⟩ := solve_eq_sat h
  constructor
  · rintro ⟨v, hv⟩
    by_contra hnot
    push Not at hnot
    rw [hout var hnot] at hv
    cases hv
  · rintro ⟨p, hp, rfl⟩
    obtain ⟨v, hget, _⟩ := hall p hp
    exact ⟨v, hget⟩

theorem admits_of_satisfies (hsingle : SingleTyped query) {m : Model} (hm : m.Satisfies query)
    {p : Predicate} (hp : p ∈ query) : ∃ v, (demandOn query p.var p.ty).Admits v := by
  obtain ⟨v, hget, _⟩ := hm p hp
  refine ⟨v, (demandOn_admits hsingle hp).2 fun r hr hvar => ?_⟩
  obtain ⟨w, hw, hr⟩ := hm r hr
  rw [hvar, hget] at hw
  cases hw
  exact hr

theorem not_satisfies_of_unsat (hlen : query.length < 2 ^ 31) (h : solve query = .unsat) (m : Model) :
    ¬ m.Satisfies query := by
  intro hm
  rcases exists_of_solve_ne_sat h (by simp) with ⟨_, reason, hr⟩ | ⟨hsingle, p, hp, herr⟩
  · cases hr
  · obtain ⟨v, hv⟩ := admits_of_satisfies hsingle hm hp
    have hshort : (literals query .ne p.var).length < 2 ^ 31 :=
      Nat.lt_of_le_of_lt (length_literals_le .ne p.var) hlen
    exact Demand.not_admits_of_unsat hshort (nodup_literals .eq p.var) herr v hv

theorem solve_ne_unknown (hsingle : SingleTyped query) (hnum : ∀ p ∈ query, p.ty.isNumeric = true)
    (reason : UnknownReason) : solve query ≠ .unknown reason := by
  intro h
  rcases exists_of_solve_ne_sat h (by simp) with ⟨hmixed, _⟩ | ⟨_, p, hp, herr⟩
  · exact hmixed hsingle
  · rcases Demand.solve_error herr with ⟨hty, _⟩ | ⟨_, hu⟩
    · rw [demandOn, hnum p hp] at hty
      cases hty
    · cases hu

/-- Queries that use each input at one type are not refused for their types. -/
theorem solve_ne_mixed (hsingle : SingleTyped query) (var : SymVar) (first other : ValueType) :
    solve query ≠ .unknown (.mixedTypes var first other) := by
  intro h
  rcases exists_of_solve_ne_sat h (by simp) with ⟨hmixed, _⟩ | ⟨_, p, _, herr⟩
  · exact hmixed hsingle
  · rcases Demand.solve_error herr with ⟨_, hnot⟩ | ⟨_, hu⟩
    · cases hnot
    · cases hu

/-- On numeric inputs used at one type each, every satisfiable query gets a model. -/
theorem exists_solve_eq_sat (hlen : query.length < 2 ^ 31) (hsingle : SingleTyped query)
    (hnum : ∀ p ∈ query, p.ty.isNumeric = true) {m : Model} (hm : m.Satisfies query) :
    ∃ m', solve query = .sat m' := by
  cases h : solve query with
  | sat m' => exact ⟨m', rfl⟩
  | unsat => exact absurd hm (not_satisfies_of_unsat hlen h m)
  | unknown reason => exact absurd h (solve_ne_unknown hsingle hnum reason)

end MockExplorer.Equality
