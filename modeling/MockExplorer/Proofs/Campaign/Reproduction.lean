import MockExplorer.Proofs.Campaign.Accounting
import MockExplorer.Proofs.Campaign.Completeness
import MockExplorer.Proofs.Execution.Rerun

/-!
# Reported inputs

A report lists the model of every trace that came back. Running the test case under one of these models gives
the trace again.
-/

namespace MockExplorer

theorem CampaignContext.inputs_eq_models (x : CampaignContext) (c : Campaign) (t : TestCase) :
    ∃ traces : List Trace, (x.run c t).1.inputs = traces.map Trace.model ∧
      ∀ u ∈ traces, ∃ e ∈ x.performedBy (t.runner x.config.mock) c t,
        (t.runner x.config.mock e.1 e.2).result = .ok u := by
  obtain ⟨c', s', status, hexplores, hrun⟩ := x.runBy_explores (t.runner x.config.mock) c t
  have htally := (Search.Tally.start (t.locations.map (·.1))).explores hexplores
  refine ⟨(x.outcomesBy (t.runner x.config.mock) c t).filterMap Except.toOption, ?_, fun u hu => ?_⟩
  · rw [← x.runBy_runner, hrun]
    exact htally.inputs
  · obtain ⟨result, hresult, hok⟩ := List.mem_filterMap.1 hu
    cases result with
    | error e => cases hok
    | ok u' =>
        cases hok
        exact trace_of_reports hexplores.reports hresult

/-- A run that succeeds without catching errors is reproduced by the model of its trace alone, whatever answered its
questions and whatever it had to meet. So every model that a report lists reproduces the execution it is
from. -/
theorem TestCase.reproduced {t : TestCase} (hb : t.body.Uncaught) :
    (∀ {σ : Type} (r : Resolution σ) (config : MockConfig) (id id' : UInt64) (assumptions : List Predicate) (state : σ)
        (x : Execution σ), r.resolver.Direct → t.body.run r (.start config id assumptions state) = (x, none) →
      t.body.execute config id' x.trace.model [] =
        ⟨.ok { x.trace with id := id' }, x.observations.reverse, x.cancelled⟩) ∧
    ∀ (x : CampaignContext) (c : Campaign), ∃ traces : List Trace,
      (x.run c t).1.inputs = traces.map Trace.model ∧
      ∀ u ∈ traces, (∃ e ∈ x.performedBy (t.runner x.config.mock) c t,
          (t.runner x.config.mock e.1 e.2).result = .ok u) ∧
        ∀ id', (t.body.execute x.config.mock id' u.model []).result = .ok { u with id := id' } := by
  refine ⟨fun r config id id' assumptions state x hr h => Body.execute_trace hr id' hb h, fun x c => ?_⟩
  obtain ⟨traces, hinputs, htraces⟩ := x.inputs_eq_models c t
  refine ⟨traces, hinputs, fun u hu => ⟨htraces u hu, fun id' => ?_⟩⟩
  obtain ⟨e, _, hresult⟩ := htraces u hu
  obtain ⟨hnone, rfl⟩ := Body.execute_result.1 hresult
  have hrun : t.body.run { resolver := .ofModel e.2.model } (.start x.config.mock e.1 e.2.assumptions ()) =
      ((t.body.runUnder x.config.mock e.1 e.2.model e.2.assumptions).1, none) := Prod.ext rfl hnone
  rw [Body.execute_trace (Resolver.direct_ofModel e.2.model) id' hb hrun]

/-- A resolver that counts its answers up, under an assumption: the model of the trace gives the same two values, also
to the method that is called twice. -/
theorem TestCase.reproduced_counting :
    let r : Resolution Nat := { resolver := ⟨fun n _ _ => .answer (.int (.ofNat n)) (n + 1)⟩ }
    let t : TestCase := {
      name := "two suppliers"
      body := .ofList [.act (.mock "a" Capability.intSupplier.descriptor),
        .act (.mock "b" Capability.intSupplier.descriptor), .act (.call "a" [] "v"), .act (.call "b" [] "w"),
        .times 2 (.act (.call "a" [] "u")), .branch ⟨1⟩ "u" .eq 5 (.act (.assertReached ⟨2⟩ true)) .skip] }
    let out := t.body.run r (.start {} 7 [⟨.forCall 1 "getAsInt", .int, .ne, 0⟩] 5)
    t.body.Uncaught ∧ r.resolver.Direct ∧ out.2 = none ∧
      out.1.trace.bindings.map (fun b => (b.value, b.calls)) = [(.int 5, 3), (.int 6, 1)] ∧
      (t.body.execute {} 0 out.1.trace.model []).result = .ok { out.1.trace with id := 0 } := by
  intro r t out
  have hb : t.body.Uncaught := by simp [t, Body.ofList, Body.Uncaught]
  have hr : r.resolver.Direct := fun _ _ _ => .answer _ _
  have hnone : out.2 = none := by decide +kernel
  have hrun : out = (out.1, none) := by rw [← hnone]
  have hagain := (TestCase.reproduced hb).1 r {} 7 0 [⟨.forCall 1 "getAsInt", .int, .ne, 0⟩] 5 out.1 hr hrun
  exact ⟨hb, hr, hnone, by decide +kernel, congrArg Run.result hagain⟩

end MockExplorer
