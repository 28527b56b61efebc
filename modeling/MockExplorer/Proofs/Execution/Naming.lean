import MockExplorer.Proofs.Execution.Refusal
import MockExplorer.Proofs.Execution.Trace

/-!
# One name for each bound method

The table of bindings goes by methods of mocks, the model of a trace by names of inputs. Every binding carries the name
of its own method, and no two methods have the same name, so that the model has each binding once and with its value.
-/

namespace MockExplorer

variable {σ : Type} {past : List Event}

/-! ## Tables -/

namespace Provider

variable {p q : Provider} {e : Event} {history : List Moment}

theorem Named.step (hp : p.Named) (h : p.Step past e q) : q.Named := by
  cases h with
  | created h _ =>
      obtain ⟨_, _, _, _, hbind, _⟩ := createMock_spec h
      intro k b hb
      rw [hbind] at hb
      exact hp k b hb
  | returned _ _ h =>
      obtain ⟨b, henters, _, rfl⟩ := bind_eq_ok.1 h
      exact hp.enter henters

theorem Evolves.named (h : Evolves past p history q) (hp : p.Named) :
    q.Named ∧ ∀ moment ∈ history, moment.provider.Named := by
  induction h with
  | refl past p => exact ⟨hp, by simp⟩
  | step h _ ih =>
      obtain ⟨hlast, hrest⟩ := ih (hp.step h)
      exact ⟨hlast, List.forall_mem_cons.2 ⟨hp.step h, hrest⟩⟩

theorem Named.nodup_vars (hp : p.Named) : (p.bindings.values.map (·.var)).Nodup := by
  rw [SortedMap.values, List.map_map, List.nodup_iff_pairwise_ne, List.pairwise_map]
  refine p.bindings.ascending.imp_of_mem fun {e e'} he he' hlt heq => ?_
  -- Two entries with one name would be two entries under one key.
  have hvar : e.1.var = e'.1.var := by
    rw [← hp e.1 e.2 (SortedMap.mem_entries.1 he), ← hp e'.1 e'.2 (SortedMap.mem_entries.1 he')]
    exact heq
  rw [BindingKey.var_inj.1 hvar] at hlt
  simp at hlt

end Provider

/-! ## Traces -/

theorem Execution.mem_trace_model {x : Execution σ} (hx : x.provider.Named) {var : SymVar} {v : Value} :
    x.trace.model.get? var = some v ↔ ∃ b ∈ x.provider.bindings.values, b.var = var ∧ b.value = v := by
  constructor
  · intro hget
    by_contra hnone
    push Not at hnone
    by_cases hvar : ∃ k b, x.provider.bindings.get? k = some b ∧ b.var = var
    · obtain ⟨k, b, hb, rfl⟩ := hvar
      rw [hx k b hb, Execution.trace_get? hx hb] at hget
      exact hnone b (SortedMap.mem_values.2 ⟨k, hb⟩) rfl (Option.some.inj hget)
    · push Not at hvar
      rw [Execution.trace_get?_eq_none hvar] at hget
      cases hget
  · rintro ⟨b, hb, rfl, rfl⟩
    obtain ⟨k, hk⟩ := SortedMap.mem_values.1 hb
    rw [hx k b hk]
    exact Execution.trace_get? hx hk

theorem Execution.perm_trace_model {x : Execution σ} (hx : x.provider.Named) :
    x.trace.model.assignments.entries.Perm (x.provider.bindings.values.map fun b => (b.var, b.value)) := by
  have hnodup : (x.provider.bindings.values.map fun b => (b.var, b.value)).Nodup := by
    refine List.Nodup.of_map Prod.fst ?_
    rw [List.map_map]
    exact hx.nodup_vars
  refine (List.perm_ext_iff_of_nodup (SortedMap.nodup_entries _) hnodup).2 fun e => ?_
  rw [SortedMap.mem_entries, List.mem_map]
  refine (Execution.mem_trace_model hx).trans ?_
  simp only [Prod.ext_iff]

/-! ## Runs -/

/-- The providers on the way of a run: after every mock that is handed out, every call that returns, those that a
resolver makes included, and every branch, and at the end. The start is the end of a body that does nothing. -/
def Body.stages (r : Resolution σ) (b : Body) (x : Execution σ) : List Provider :=
  (b.course r x).map (·.provider) ++ [(b.run r x).1.provider]

theorem Execution.OnlyRecords.named {x y : Execution σ} (h : x.OnlyRecords y) (hx : x.provider.Named) :
    y.provider.Named := by
  obtain ⟨_, _, hprovider⟩ := h.provider
  rw [hprovider]
  exact hx

theorem Action.named (r : Resolution σ) (a : Action) {x : Execution σ} (hx : x.provider.Named) :
    (a.run r x).1.provider.Named ∧ ∀ i ∈ a.course r x, i.provider.Named := by
  rw [Action.course, List.forall_mem_map]
  rcases a.usesMocks_or r x with huses | ⟨hhistory, hrecords⟩
  · obtain ⟨past, hknows⟩ := x.exists_knows
    exact (a.records r huses hknows).evolves.named hx
  · rw [hhistory]
    exact ⟨hrecords.named hx, by simp⟩

theorem Body.links_named (r : Resolution σ) (b : Body) :
    b.Links r fun x course y => x.provider.Named → y.provider.Named ∧ ∀ i ∈ course, i.provider.Named where
  same x hx := ⟨hx, by simp⟩
  append hxy hyz hx := by
    obtain ⟨hy, hfirst⟩ := hxy hx
    obtain ⟨hz, hrest⟩ := hyz hy
    exact ⟨hz, List.forall_mem_append.2 ⟨hfirst, hrest⟩⟩
  write x e hx := ⟨by rw [Execution.write_provider]; exact hx, by simp⟩
  act a _ x hx := a.named r hx
  branch {x z value v l op rhs outcome} _ hz hx := by
    have hrecords := Execution.OnlyRecords.branch x l ⟨v, op, rhs⟩
    rw [hz] at hrecords
    exact ⟨hrecords.named hx, List.forall_mem_singleton.2 (hrecords.named hx)⟩
  enclosed h hx := h hx

theorem Body.named_of_mem_stages {r : Resolution σ} {b : Body} {x : Execution σ} (hx : x.provider.Named) :
    ∀ p ∈ b.stages r x, p.Named := by
  obtain ⟨hlast, hcourse⟩ := (b.links_named r).run x hx
  exact List.forall_mem_append.2 ⟨List.forall_mem_map.2 hcourse, List.forall_mem_singleton.2 hlast⟩

/-- The name of an input tells the slot and the method. So wherever a run is, within a call or after it, each binding
carries the name of its method, no two bindings have the same name, and the model of the trace has one assignment for
each binding, to its value. A run that would hand out `2 ^ 32` mocks has crashed before. -/
theorem Body.trace_assigns_bindings (r : Resolution σ) (config : MockConfig) (id : UInt64)
    (assumptions : List Predicate) (state : σ) (b : Body) :
    (∀ (slot slot' : UInt32) (f f' : String), SymVar.forCall slot f = .forCall slot' f' → slot = slot' ∧ f = f') ∧
    ∀ y : Execution σ, y.provider ∈ b.stages r (.start config id assumptions state) →
      (∀ k e, y.provider.bindings.get? k = some e → e.var = .forCall k.mock.slot k.method) ∧
      (y.provider.bindings.values.map (·.var)).Nodup ∧
      y.trace.model.assignments.entries.Perm (y.provider.bindings.values.map fun e => (e.var, e.value)) := by
  refine ⟨fun slot slot' f f' h => SymVar.forCall_inj.1 h, fun y hy => ?_⟩
  have hstart : (Execution.start config id assumptions state).provider.Named := fun k e he => by cases he
  have hnamed := Body.named_of_mem_stages hstart y.provider hy
  exact ⟨hnamed, hnamed.nodup_vars, Execution.perm_trace_model hnamed⟩

/-- Names with digits and dots in them, on the mocks in slots 1 and 11. The resolver calls the second mock before it
answers for the first one. -/
theorem Body.trace_assigns_bindings_dotted :
    let t : MockTarget := {
      name := "Source", kind := .interface
      methods := [{ name := "1.get", returns := .int }, { name := "get", returns := .int }] }
    let script : Script := ⟨((∅ : SortedMap SymVar (List ScriptAction)).insert (.forCall 1 "1.get")
      [.invoke 11 "get" [] (some (.int 4))]).insert (.forCall 11 "get") [.value (.int 7)]⟩
    let r : Resolution Script := { resolver := .script, depth := 2 }
    let b : Body := .ofList [.act (.mock "a" t), .act (.mock "b" t), .times 10 (.act (.mock "c" t)),
      .act (.invoke "b" "1.get" [] "v"), .act (.invoke "b" "get" [] "w")]
    let y := (b.run r (.start {} 0 [] script)).1
    SymVar.forCall 1 "1.get" ≠ .forCall 11 "get" ∧ y.provider ∈ b.stages r (.start {} 0 [] script) ∧
      y.provider.bindings.values.map (·.var) = [.forCall 1 "1.get", .forCall 1 "get", .forCall 11 "get"] ∧
      (y.provider.bindings.values.map (·.var)).Nodup ∧
      y.trace.model.assignments.entries.Perm [(.forCall 1 "1.get", .int 4), (.forCall 1 "get", .int 0),
        (.forCall 11 "get", .int 7)] := by
  intro t script r b y
  obtain ⟨hinj, hruns⟩ := Body.trace_assigns_bindings r {} 0 [] script b
  have hy : y.provider ∈ b.stages r (.start {} 0 [] script) := List.mem_append_right _ (List.mem_singleton_self _)
  have hbindings : y.provider.bindings.values.map (fun e => (e.var, e.value)) =
      [(.forCall 1 "1.get", .int 4), (.forCall 1 "get", .int 0), (.forCall 11 "get", .int 7)] := by decide +kernel
  obtain ⟨_, hnodup, hperm⟩ := hruns y hy
  refine ⟨fun h => ?_, hy, ?_, hnodup, ?_⟩
  · cases (hinj _ _ _ _ h).1
  · have hvars := congrArg (List.map Prod.fst) hbindings
    rwa [List.map_map] at hvars
  · rwa [hbindings] at hperm

end MockExplorer
