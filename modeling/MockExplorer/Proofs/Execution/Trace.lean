import MockExplorer.Proofs.Execution.Replay

/-!
# The model that an execution used

The trace of an execution has the values that its inputs were bound to. They satisfy the path of the
execution, also where the model that the execution ran under left inputs open.
-/

namespace MockExplorer

variable {σ : Type} {R : SymVar → ValueType → Value → Prop} {x : Execution σ}

theorem Trace.model_assignments (t : Trace) :
    t.model.assignments = (t.bindings.map fun b => (b.var, b.value)).foldl (fun m e => m.insert e.1 e.2) ∅ := by
  have hfold : ∀ (bs : List Binding) (m : Model), (bs.foldl (fun m b => m.insert b.var b.value) m).assignments =
      (bs.map fun b => (b.var, b.value)).foldl (fun m e => m.insert e.1 e.2) m.assignments := by
    intro bs
    induction bs with
    | nil => exact fun m => rfl
    | cons b bs ih => exact fun m => ih (m.insert b.var b.value)
  exact hfold t.bindings {}

/-- The trace has the value of every binding. -/
theorem Execution.trace_get? (hnamed : x.provider.Named) {k : BindingKey} {b : Binding}
    (hb : x.provider.bindings.get? k = some b) : x.trace.model.get? k.var = some b.value := by
  have hmem : k.var ∈ ((x.provider.bindings.values).map fun b => (b.var, b.value)).map Prod.fst := by
    rw [List.map_map]
    exact List.mem_map.2 ⟨b, SortedMap.mem_values.2 ⟨k, hb⟩, hnamed k b hb⟩
  obtain ⟨w, hw, hget⟩ := SortedMap.get?_foldl_insert_of_mem hmem
  have hmodel : x.trace.model.get? k.var = some w := by
    rw [Model.get?, Trace.model_assignments]
    exact hget
  -- Inputs of different methods have different names, so the value is the one bound to this method.
  obtain ⟨b', hb', heq⟩ := List.mem_map.1 hw
  obtain ⟨hvar', rfl⟩ := Prod.mk.inj heq
  obtain ⟨k', hk'⟩ := SortedMap.mem_values.1 hb'
  rw [hnamed k' b' hk', BindingKey.var_inj] at hvar'
  subst hvar'
  rw [hb] at hk'
  cases hk'
  exact hmodel

/-- The trace has no value for an input that no binding carries. -/
theorem Execution.trace_get?_eq_none {var : SymVar}
    (h : ∀ k b, x.provider.bindings.get? k = some b → b.var ≠ var) : x.trace.model.get? var = none := by
  have hnot : var ∉ ((x.provider.bindings.values).map fun b => (b.var, b.value)).map Prod.fst := by
    rw [List.map_map]
    intro hmem
    obtain ⟨b, hb, hvar⟩ := List.mem_map.1 hmem
    obtain ⟨k, hk⟩ := SortedMap.mem_values.1 hb
    exact h k b hk hvar
  rw [Model.get?, Trace.model_assignments]
  exact SortedMap.get?_foldl_insert_of_notMem hnot

/-- The trace has the value of every input that was bound. -/
theorem Execution.Sound.trace_get? (hx : x.Sound R) {var : SymVar} {ty : ValueType} {v : Value}
    (hv : x.provider.Binds var ty v) : x.trace.model.get? var = some v := by
  obtain ⟨k, b, rfl, hb, rfl⟩ := hv.bound
  exact Execution.trace_get? hx.provider.named hb

theorem Execution.Sound.trace_allows (hx : x.Sound R) : x.trace.model.Allows x.provider.path.clauses := by
  intro c hc v hget
  obtain ⟨w, hbinds, hholds⟩ := hx.provider.path c hc
  rw [hx.trace_get? hbinds] at hget
  cases hget
  exact hholds

/-- The model of the trace satisfies the path. -/
theorem Execution.Sound.trace_satisfies (hx : x.Sound R) :
    x.trace.model.Satisfies (x.provider.path.clauses.map (·.predicate)) := by
  intro p hp
  obtain ⟨c, hc, rfl⟩ := List.mem_map.1 hp
  obtain ⟨v, hbinds, hholds⟩ := hx.provider.path c hc
  obtain ⟨k, b, hk, hb, rfl⟩ := hbinds.bound
  obtain ⟨_, ty, hty, hacc, _⟩ := hx.provider.bound hb
  rw [hk, hbinds.typed] at hty
  cases hty
  exact ⟨b.value, hx.trace_get? hbinds, hacc.conforms, hholds⟩

/-- The solver has a model of every beginning of the path, if the path is numeric and not too long. -/
theorem Execution.Sound.exists_solve (hx : x.Sound R)
    (hnum : ∀ c ∈ x.provider.path.clauses, c.predicate.ty.isNumeric = true)
    (hshort : x.provider.path.clauses.length < 2 ^ 31) {kept : List Clause}
    (hkept : kept <+: x.provider.path.clauses) :
    ∃ m, Equality.solve (kept.map (·.predicate)) = .sat m := by
  have hlength : (kept.map (·.predicate)).length < 2 ^ 31 := by
    rw [List.length_map]
    exact Nat.lt_of_le_of_lt hkept.length_le hshort
  have hpath : ∀ p ∈ kept.map (·.predicate), ∃ c ∈ x.provider.path.clauses, c.predicate = p := by
    intro p hp
    obtain ⟨c, hc, rfl⟩ := List.mem_map.1 hp
    exact ⟨c, hkept.subset hc, rfl⟩
  refine Equality.exists_solve_eq_sat hlength (fun p hp p' hp' hvar => ?_) (fun p hp => ?_)
    (m := x.trace.model) fun p hp => ?_
  · -- Both predicates use the input at the type under which it is registered.
    obtain ⟨c, hc, rfl⟩ := hpath p hp
    obtain ⟨c', hc', rfl⟩ := hpath p' hp'
    have htyped := hx.provider.typed hc'
    rw [hvar, hx.provider.typed hc] at htyped
    exact (Option.some.inj htyped).symm
  · obtain ⟨c, hc, rfl⟩ := hpath p hp
    exact hnum c hc
  · obtain ⟨c, hc, rfl⟩ := hpath p hp
    exact hx.trace_satisfies c.predicate (List.mem_map_of_mem hc)

end MockExplorer
