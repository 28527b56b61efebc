import MockExplorer.Console.Session
import MockExplorer.Proofs.Campaign.Comparison
import MockExplorer.Proofs.Execution.Question
import MockExplorer.Proofs.Execution.Trace
import MockExplorer.Proofs.Solver.Choice

/-!
# Coverage of the fixture

A test case that compares the return value of a mocked method with a literal is covered in two executions, whenever
the policy lets its target be mocked. A campaign over the fixture therefore succeeds exactly if no case of it needs a
mock that the policy refuses.
-/

namespace MockExplorer

/-! ## A body that compares -/

/-- What is known of the input once the predicate is decided on a value: the predicate itself, or its negation. -/
def Predicate.decided (p : Predicate) (v : Value) : Predicate := if p.holds v then p else p.negate

theorem Predicate.decided_of_holds {p : Predicate} {v : Value} (h : p.holds v = true) : p.decided v = p := if_pos h

theorem Predicate.decided_of_fails {p : Predicate} {v : Value} (h : p.holds v = false) : p.decided v = p.negate := by
  rw [decided, h]
  rfl

namespace Fixture

variable {target : MockTarget} {call : Action} {base : UInt32} {rhs : Int64} {config : MockConfig}
  {how : Interception} {sig : MethodSig} {v : Value}

/-- The call goes to this method of the mock, and what it returns is kept under the name that the comparison reads. -/
def Reaches (target : MockTarget) (call : Action) (sig : MethodSig) : Prop :=
  ∃ q, call.request? = some q ∧ q.receiver = "a" ∧ q.name = "value" ∧
    ∀ id how, q.dispatch ⟨id, target, how⟩ = .ok sig

theorem Reaches.mockDriven (h : Reaches target call sig) : call.MockDriven := by
  obtain ⟨q, hq, _⟩ := h
  cases call with
  | invoke | call | view => trivial
  | _ => cases hq

/-- The input that the comparison is about. -/
def input (sig : MethodSig) : SymVar := .forCall 0 sig.name

section

variable (id : UInt64) (m : Model) (assumptions : List Predicate)

theorem run_mock (hhow : target.classify config = .ok how) :
    ∃ x, (Action.mock "a" target).run { resolver := .ofModel m } (.start config id assumptions ()) = (x, none) ∧
      x.scope.mocks.get? "a" = some ⟨⟨0⟩, target, how⟩ ∧ x.provider.assumptions = assumptions ∧
      x.provider.bindings = ∅ ∧ x.provider.path.clauses = [] ∧ x.cancelled = false := by
  obtain ⟨p, hcreate⟩ : ∃ p, (Execution.start config id assumptions ()).provider.createMock target =
      .ok (⟨⟨0⟩, target, how⟩, p) := by
    have hclassify : target.classify (Execution.start config id assumptions ()).provider.config = .ok how := hhow
    simp only [Provider.createMock, hclassify]
    exact ⟨_, rfl⟩
  obtain ⟨_, _, _, hassumptions, hbindings, hslot, hclauses, _⟩ := Provider.createMock_spec hcreate
  have hnext : p.nextSlot ≠ 0 := by
    rw [hslot]
    exact (by decide : (0 : UInt32) + 1 ≠ 0)
  refine ⟨(((Execution.start config id assumptions ()).withProvider p).keepMock "a" ⟨⟨0⟩, target, how⟩).write
    (.created ⟨⟨0⟩, target, how⟩), ?_, ?_⟩
  · simp only [Action.run, hcreate, hnext, if_false]
  · simp only [Execution.write_scope, Execution.write_provider, Execution.write_cancelled]
    exact ⟨SortedMap.get?_insert_self .., hassumptions, hbindings, hclauses, rfl⟩

theorem run_call (hcall : Reaches target call sig) {x : Execution Unit}
    (hmock : x.scope.mocks.get? "a" = some ⟨⟨0⟩, target, how⟩) (hnone : x.provider.bindings = ∅)
    (haccepts : x.provider.Accepts (input sig) sig.returns (m.resolve (input sig) sig.returns)) :
    ∃ y b, call.run { resolver := .ofModel m } x = (y, none) ∧
      y.scope.values.get? "value" = some ⟨m.resolve (input sig) sig.returns, sig.returns, some (input sig)⟩ ∧
      y.provider.bindings = SortedMap.insert ∅ ⟨⟨0⟩, sig.name⟩ b ∧
      y.provider.path.clauses = x.provider.path.clauses ∧ y.cancelled = x.cancelled := by
  obtain ⟨q, hq, hreceiver, hname, hdispatch⟩ := hcall
  obtain ⟨serve, hrun, hanswered⟩ :=
    Action.run_request (r := { resolver := .ofModel m }) (Resolver.answersFrom_ofModel m) hq x
  have hserved := hanswered ⟨⟨0⟩, target, how⟩
  rw [hdispatch] at hserved
  rw [hreceiver, hname] at hrun
  generalize hout : serve x.calls ⟨⟨0⟩, target, how⟩ = out at hserved
  cases hserved with
  | replayed b' hb =>
      rw [show x.calls.provider.bindings = ∅ from hnone] at hb
      cases hb
  | inconsistent _ _ hrefused => exact absurd haccepts hrefused
  | bound b _ _ _ =>
      rw [Execution.callNamed_ok hmock hout] at hrun
      refine ⟨_, b, hrun, ?_⟩
      simp only [Execution.write_scope, Execution.write_provider, Execution.write_cancelled]
      refine ⟨SortedMap.get?_insert_self .., ?_, rfl, rfl⟩
      rw [← hnone]
      rfl

/-- The predicate on the input that decides the comparison. -/
def equation (sig : MethodSig) (rhs : Int64) : Predicate := ⟨input sig, sig.returns, .eq, rhs⟩

theorem run_comparison {y : Execution Unit} {v : Value}
    (hv : y.scope.values.get? "value" = some ⟨v, sig.returns, some (input sig)⟩) (base : UInt32) (rhs : Int64) :
    ∃ z, (Body.branch ⟨base⟩ "value" .eq rhs (.act (.assertReached ⟨base + 1⟩ true))
        (.act (.assertReached ⟨base + 2⟩ true))).run { resolver := .ofModel m } y = (z, none) ∧
      z.scope = y.scope ∧
      z.provider = y.provider.record ⟨⟨base⟩, (equation sig rhs).decided v⟩ ∧
      .branch ⟨base⟩ ((equation sig rhs).holds v) ∈ z.observations ∧ z.cancelled = y.cancelled := by
  let compared : Condition := ⟨⟨v, sig.returns, some (input sig)⟩, .eq, rhs⟩
  have hholds : compared.evaluate = (equation sig rhs).holds v := rfl
  have htaken : compared.taken? = some ((equation sig rhs).decided v) := by
    rw [Condition.taken?, hholds, Predicate.decided]
    cases (equation sig rhs).holds v <;> rfl
  let w : Execution Unit := { y.withProvider (y.provider.record ⟨⟨base⟩, (equation sig rhs).decided v⟩) with
    branches := y.branches + 1
    observations := .branch ⟨base⟩ ((equation sig rhs).holds v) :: y.observations }
  have hbranch : y.branch ⟨base⟩ compared = ((equation sig rhs).holds v, w) := by
    rw [Execution.branch, htaken]
    rfl
  obtain ⟨l, hrun⟩ : ∃ l, (Body.branch ⟨base⟩ "value" .eq rhs (.act (.assertReached ⟨base + 1⟩ true))
      (.act (.assertReached ⟨base + 2⟩ true))).run { resolver := .ofModel m } y =
        ((w.write (.branched ⟨base⟩ ((equation sig rhs).holds v))).assertReached l true, none) := by
    rw [Body.run_branch _ _ hv hbranch]
    cases (equation sig rhs).holds v with
    | true => exact ⟨⟨base + 1⟩, rfl⟩
    | false => exact ⟨⟨base + 2⟩, rfl⟩
  refine ⟨_, hrun, ?_, ?_, List.mem_cons_of_mem _ ?_, ?_⟩
  · exact Execution.write_scope ..
  · exact Execution.write_provider ..
  · rw [Execution.write_observations]
    exact List.mem_cons_self ..
  · exact Execution.write_cancelled ..

/-- The resolved value is bound to the input, and the comparison is decided on it. -/
theorem compareBody_decides (base : UInt32) (rhs : Int64) (hcall : Reaches target call sig)
    (hhow : target.classify config = .ok how) {v : Value} (hv : m.resolve (input sig) sig.returns = v)
    (hconforms : v.conformsTo sig.returns = true)
    (hassumed : ∀ a ∈ assumptions, a.var = input sig → a.holds v = true) :
    ((compareBody target call base rhs).execute config id m assumptions).Decides ⟨base⟩ ((equation sig rhs).holds v)
      ((equation sig rhs).decided v) (({} : Model).insert (input sig) v) := by
  subst hv
  obtain ⟨x, hmock, hmocks, hassumptions, hempty, hclauses, hrunning⟩ := run_mock id m assumptions hhow
  obtain ⟨y, b, hcalled, hvalue, hbindings, hpath, hquiet⟩ := run_call m hcall hmocks hempty
    ⟨hconforms, fun a ha => hassumed a (hassumptions ▸ ha)⟩
  obtain ⟨z, hcompared, hscope, hprovider, hreported, hstill⟩ := run_comparison m hvalue base rhs
  have hrun : (compareBody target call base rhs).runUnder config id m assumptions = (z, none) := by
    have hfirst : (Body.act (.mock "a" target)).run { resolver := .ofModel m } (.start config id assumptions ()) =
      (x, none) := hmock
    have hsecond : (Body.act call).run { resolver := .ofModel m } x = (y, none) := hcalled
    rw [Body.runUnder, compareBody, Body.ofList, Body.run_seq_ok hfirst, Body.ofList, Body.run_seq_ok hsecond,
      Body.ofList, Body.run_seq_ok hcompared]
    rfl
  have hdriven : (compareBody target call base rhs).MockDriven :=
    ⟨trivial, hcall.mockDriven, ⟨trivial, trivial⟩, trivial⟩
  have hsound : z.Sound m.Answers := by
    have hall : ((compareBody target call base rhs).runUnder config id m assumptions).1.Sound m.Answers :=
      Body.runUnder_sound hdriven
    rwa [hrun] at hall
  have hb : z.provider.bindings = SortedMap.insert ∅ ⟨⟨0⟩, sig.name⟩ b := by
    rw [hprovider]
    exact hbindings
  have hbound : z.provider.bindings.get? ⟨⟨0⟩, sig.name⟩ = some b := by
    rw [hb]
    exact SortedMap.get?_insert_self ..
  have hvar : b.var = input sig := (hsound.provider.bound hbound).1
  have hmodel : z.trace.model = ({} : Model).insert (input sig) b.value := by
    rw [← hvar, Execution.trace, hb]
    rfl
  have hused : z.trace.model.get? (input sig) = some (m.resolve (input sig) sig.returns) := by
    rw [← hscope] at hvalue
    exact hsound.trace_get? (hsound.values hvalue (input sig) rfl)
  rw [Body.execute, hrun]
  refine ⟨⟨z.trace, rfl, ?_, ?_⟩, List.mem_reverse.2 hreported, ?_⟩
  · rw [Execution.trace, hprovider]
    exact (congrArg (· ++ _) (hpath.trans hclauses)).trans (List.nil_append _)
  · rw [hmodel, Model.get?, Model.insert, SortedMap.get?_insert_self] at hused
    rw [hmodel, Option.some.inj hused]
  · exact (hstill.trans hquiet).trans hrunning

end

/-! ## The search of one case -/

theorem execute_refused {b : Body} {e : MockError} (hrefused : target.classify config = .error e)
    (hb : b = .act (.mock "a" target) ∨ ∃ rest, b = .seq (.act (.mock "a" target)) rest) (id : UInt64) (m : Model)
    (assumptions : List Predicate) :
    (b.execute config id m assumptions).result = .error (.raised e) ∧
      (b.execute config id m assumptions).cancels = false := by
  have hfirst : (Body.act (.mock "a" target)).run { resolver := .ofModel m } (.start config id assumptions ()) =
      (.start config id assumptions (), some (.raised e)) := by
    have hclassify : target.classify (Execution.start config id assumptions ()).provider.config = .error e := hrefused
    simp only [Body.run, Action.run, Provider.createMock, hclassify]
  rcases hb with rfl | ⟨rest, rfl⟩
  · rw [Body.execute, Body.runUnder, hfirst]
    exact ⟨rfl, rfl⟩
  · rw [Body.execute, Body.runUnder, Body.run_seq, hfirst]
    exact ⟨rfl, rfl⟩

/-- The literal is of the type that is compared, and it is not what the type has as its default. -/
structure Literal (ty : ValueType) (rhs : Int64) (v : Value) : Prop where
  value : ty.ofInt64? rhs = some v
  nonzero : rhs ≠ 0

theorem Literal.default (h : Literal sig.returns rhs v) :
    sig.returns.isNumeric = true ∧ (equation sig rhs).holds sig.returns.default = false := by
  have hzero : sig.returns.isNumeric = true ∧ sig.returns.default.toInt64? = some 0 := by
    have hvalue := h.value
    cases hty : sig.returns <;> rw [hty] at hvalue <;> first | exact ⟨rfl, rfl⟩ | cases hvalue
  refine ⟨hzero.1, ?_⟩
  simp [equation, Predicate.holds, CmpOp.apply, hzero.2, Ne.symm h.nonzero]

theorem Literal.holds (h : Literal sig.returns rhs v) : (equation sig rhs).holds v = true := by
  simp [equation, Predicate.holds, CmpOp.apply, (ValueType.ofInt64?_eq_some.1 h.value).2]

theorem resolve_insert (var : SymVar) (v : Value) (ty : ValueType) :
    (({} : Model).insert var v).resolve var ty = v := by
  simp [Model.resolve, Model.get?, Model.insert]

theorem compares_of_body {x : Exploration} (hsolver : x.solver = .equality) {t : TestCase}
    (hrun : x.run = t.runner config) (hbody : t.body = compareBody target call base rhs)
    (hcall : Reaches target call sig) (hhow : target.classify config = .ok how) (hv : Literal sig.returns rhs v) :
    x.Compares ⟨base⟩ (equation sig rhs) (({} : Model).insert (input sig) sig.returns.default)
      (({} : Model).insert (input sig) v) where
  fails id := by
    obtain ⟨_, hfails⟩ := hv.default
    have hdecides := compareBody_decides id {} [] base rhs hcall hhow (v := sig.returns.default) rfl
      (ValueType.default_conformsTo _) (List.forall_mem_nil _)
    rw [hfails, Predicate.decided_of_fails hfails] at hdecides
    rw [hrun, TestCase.runner, hbody]
    exact hdecides
  holds id := by
    have hassumed : ∀ a ∈ [equation sig rhs], a.var = input sig → a.holds v = true := by
      simpa using fun _ => hv.holds
    have hdecides := compareBody_decides id _ _ base rhs hcall hhow (resolve_insert (input sig) v sig.returns)
      (ValueType.ofInt64?_eq_some.1 hv.value).1 hassumed
    rw [hv.holds, Predicate.decided_of_holds hv.holds] at hdecides
    rw [hrun, TestCase.runner, hbody]
    exact hdecides
  solved earlier := by
    rw [hsolver]
    exact Equality.solve_eq_literal rfl hv.value
  solved_negate earlier := by
    rw [hsolver]
    exact Equality.solve_ne_literal rfl hv.default.1 hv.nonzero
  fresh := by
    constructor
    · intro hsame
      have hvalue : v = sig.returns.default := by
        rw [← resolve_insert (input sig) v sig.returns, hsame, resolve_insert]
      have hholds := hv.holds
      rw [hvalue, hv.default.2] at hholds
      cases hholds
    · intro hempty
      have hnone : (({} : Model).insert (input sig) v).get? (input sig) = none := by
        rw [hempty]
        rfl
      rw [Model.get?, Model.insert, SortedMap.get?_insert_self] at hnone
      cases hnone

/-! ## The cases -/

/-- The names of the regular cases. -/
def regularNames : List String := ["testFinal", "testIntSupplier", "testBoxedIntSupplier", "testFunction"]

/-- Whether the policy refuses the mock that a case of the name asks for. -/
def fails (config : MockConfig) (name : String) : Bool :=
  name = "testSealed" || name = "testFinal" && !(config.mode = .full && config.callSiteRedirect)

/-- How a case of the name ends. -/
def EndsAs (config : MockConfig) (name : String) (r : CaseReport) : Prop :=
  r.name = name ∧
    if fails config name then ∃ error, r.status = .failed error else r.status = .complete ∧ r.executions ≤ 2

theorem reaches_view (c : Capability) : Reaches c.descriptor (.view "a" c .null "value") c.method := by
  refine ⟨_, rfl, rfl, rfl, fun _ _ => ?_⟩
  cases c <;> rfl

theorem reaches_final : Reaches finalTarget (.invoke "a" "foo" [] "value")
    { name := "foo", returns := .int, modifiers := { isFinal := true } } :=
  ⟨_, rfl, rfl, rfl, fun _ _ => rfl⟩

theorem mechanismUnder_descriptor (henabled : config.enabled = true) (c : Capability) :
    c.descriptor.mechanismUnder config = .ok .proxy := by
  have hmechanism : c.descriptor.mechanism = .ok .proxy := by cases c <;> rfl
  have hinstantiable : c.descriptor.isInstantiable = false := rfl
  simp [MockTarget.mechanismUnder, henabled, hmechanism, hinstantiable]

theorem mechanismUnder_sealedTarget (henabled : config.enabled = true) :
    sealedTarget.mechanismUnder config = .error .noInterceptableMethod := by
  have hmechanism : sealedTarget.mechanism = .error .noInterceptableMethod := rfl
  simp [MockTarget.mechanismUnder, henabled, hmechanism]

/-- The class is final and could be constructed, so the policy has to be lax in two ways. -/
theorem mechanismUnder_finalTarget (henabled : config.enabled = true) :
    if fails config "testFinal" then ∃ o, finalTarget.mechanismUnder config = .error o
    else finalTarget.mechanismUnder config = .ok .callSite := by
  have hmechanism : finalTarget.mechanism = .ok .callSite := rfl
  have hinstantiable : finalTarget.isInstantiable = true := rfl
  cases hmode : config.mode <;> cases hredirect : config.callSiteRedirect <;>
    simp [fails, MockTarget.mechanismUnder, henabled, hmechanism, hinstantiable, hmode, hredirect]

section

variable {x : CampaignContext} (hsolver : x.solver = .equality) (hbudget : 2 ≤ x.config.campaign.maxExecutions)
  {c : Campaign} (hc : c.cancelled = false)
include hbudget hc

theorem run_refused {t : TestCase} {o : Obstacle} (hfails : fails x.config.mock t.name = true)
    (hrefused : target.mechanismUnder x.config.mock = .error o)
    (hbody : t.body = .act (.mock "a" target) ∨ ∃ rest, t.body = .seq (.act (.mock "a" target)) rest) :
    EndsAs x.config.mock t.name (x.run c t).1 ∧ (x.run c t).2.cancelled = false := by
  have hclassify : target.classify x.config.mock = .error (target.refuse o) := by rw [MockTarget.classify, hrefused]; rfl
  have hbudget : 2 ≤ x.config.campaign.maxExecutions.toNat := UInt64.le_iff_toNat_le.1 hbudget
  obtain ⟨c', s', status, hexplores, hrun⟩ := x.runBy_explores (t.runner x.config.mock) c t
  obtain ⟨hstatus, hrunning⟩ := Search.Explores.fails_at_once (c := (CampaignContext.opening c t).1)
    (fun id => execute_refused hclassify hbody id {} []) (show 0 < x.config.campaign.maxExecutions.toNat by omega) hc
    hexplores
  rw [← CampaignContext.runBy_runner, hrun, EndsAs, hfails]
  exact ⟨⟨rfl, _, hstatus⟩, hrunning⟩

include hsolver

theorem run_compared {t : TestCase} (hregular : fails x.config.mock t.name = false)
    (hbody : t.body = compareBody target call base rhs) (hlocations : t.locations.map (·.1) = [⟨base⟩])
    (hcall : Reaches target call sig) (hhow : target.mechanismUnder x.config.mock = .ok how)
    (hv : Literal sig.returns rhs v) :
    EndsAs x.config.mock t.name (x.run c t).1 ∧ (x.run c t).2.cancelled = false := by
  have hclassify : target.classify x.config.mock = .ok how := by rw [MockTarget.classify, hhow]; rfl
  have hbudget : 2 ≤ x.config.campaign.maxExecutions.toNat := UInt64.le_iff_toNat_le.1 hbudget
  have hcompares := compares_of_body (x := x.exploration t) hsolver rfl hbody hcall hclassify hv
  obtain ⟨c', s', status, hexplores, hrun⟩ := x.runBy_explores (t.runner x.config.mock) c t
  obtain ⟨hstatus, htwo, hrunning⟩ := Search.Explores.covers_comparison (c := (CampaignContext.opening c t).1) hcompares
    hbudget (by simp [hlocations]) hc hexplores
  have hexecutions : (Search.report c' s' t.name status).executions ≤ 2 := by
    refine UInt64.le_iff_toNat_le.2 (Nat.le_trans (Nat.le_of_eq UInt64.toNat_ofNat') ?_)
    exact Nat.le_trans (Nat.mod_le ..) htwo
  rw [← CampaignContext.runBy_runner, hrun, EndsAs, hregular]
  exact ⟨⟨rfl, hstatus, hexecutions⟩, hrunning⟩

theorem run_endsAs (henabled : x.config.mock.enabled = true) {t : TestCase} (ht : t ∈ all) :
    EndsAs x.config.mock t.name (x.run c t).1 ∧ (x.run c t).2.cancelled = false := by
  have hdescriptor := mechanismUnder_descriptor henabled
  simp only [all, cases, List.mem_append, List.mem_cons, List.not_mem_nil, or_false] at ht
  rcases ht with (rfl | rfl | rfl | rfl) | rfl
  · have hmechanism := mechanismUnder_finalTarget henabled
    cases hfails : fails x.config.mock "testFinal" with
    | true =>
        rw [hfails] at hmechanism
        obtain ⟨o, hrefused⟩ := hmechanism
        exact run_refused hbudget hc hfails hrefused (.inr ⟨_, rfl⟩)
    | false =>
        rw [hfails] at hmechanism
        exact run_compared hsolver hbudget hc hfails rfl rfl reaches_final hmechanism ⟨rfl, by decide⟩
  · exact run_compared hsolver hbudget hc rfl rfl rfl (reaches_view .intSupplier) (hdescriptor _) ⟨rfl, by decide⟩
  · exact run_compared hsolver hbudget hc rfl rfl rfl (reaches_view .supplier) (hdescriptor _) ⟨rfl, by decide⟩
  · exact run_compared hsolver hbudget hc rfl rfl rfl (reaches_view .function) (hdescriptor _) ⟨rfl, by decide⟩
  · exact run_refused hbudget hc rfl (mechanismUnder_sealedTarget henabled) (.inl rfl)

theorem runCases_endsAs (henabled : x.config.mock.enabled = true) {ts : List TestCase} (hts : ∀ t ∈ ts, t ∈ all) :
    List.Forall₂ (EndsAs x.config.mock) (ts.map (·.name)) (x.runCases c ts).1 := by
  induction ts generalizing c with
  | nil => exact .nil
  | cons t ts ih =>
      obtain ⟨ht, hts⟩ := List.forall_mem_cons.1 hts
      obtain ⟨hends, hrunning⟩ := run_endsAs hsolver hbudget hc henabled ht
      exact .cons hends (ih hrunning hts)

end

theorem all_isComplete {names : List String} {rs : List CaseReport} (h : List.Forall₂ (EndsAs config) names rs) :
    rs.all (·.status.isComplete) = true ↔ ∀ name ∈ names, fails config name = false := by
  induction h with
  | nil => simp
  | @cons name r names rs hends _ ih =>
      have hfirst : r.status.isComplete = true ↔ fails config name = false := by
        obtain ⟨_, hstatus⟩ := hends
        cases hfails : fails config name with
        | true =>
            rw [hfails] at hstatus
            obtain ⟨error, hfailed⟩ := hstatus
            simp [hfailed, CaseStatus.isComplete]
        | false =>
            rw [hfails] at hstatus
            simp [hstatus.1, CaseStatus.isComplete]
      rw [List.all_cons, Bool.and_eq_true, List.forall_mem_cons, hfirst, ih]

end Fixture

namespace Console

/-- The names that stand for a list of names: without a name, the regular cases are meant. -/
def selectedNames (names : List String) : List String := if names = [] then Fixture.regularNames else names

theorem mapM_eq_ok {α β ε : Type} {f : α → Except ε β} {xs : List α} {ys : List β} :
    xs.mapM f = .ok ys ↔ List.Forall₂ (fun a b => f a = .ok b) xs ys := by
  induction xs generalizing ys with
  | nil => simp [pure, Except.pure, eq_comm]
  | cons a xs ih =>
      rw [List.mapM_cons, List.forall₂_cons_left_iff]
      cases hf : f a with
      | error e => simp [bind, Except.bind]
      | ok b =>
          cases hrest : xs.mapM f with
          | error e => simp [bind, Except.bind, ← ih, hrest]
          | ok zs => simp [bind, Except.bind, pure, Except.pure, ← ih, hrest, eq_comm]

theorem selectCases_eq_ok {names : List String} {cases : List TestCase} (hnames : names ≠ []) :
    selectCases names = .ok cases ↔ List.Forall₂ (fun name t => Fixture.find? name = some t) names cases := by
  unfold selectCases
  cases names with
  | nil => exact absurd rfl hnames
  | cons name names =>
      rw [mapM_eq_ok]
      constructor
      · refine List.Forall₂.imp fun name t h => ?_
        cases hfind : Fixture.find? name with
        | none => rw [hfind] at h; cases h
        | some t' => rw [hfind] at h; cases h; rfl
      · refine List.Forall₂.imp fun name t h => ?_
        rw [h]

theorem selectCases_ok {names : List String} {cases : List TestCase} (h : selectCases names = .ok cases) :
    cases.map (·.name) = selectedNames names ∧ ∀ t ∈ cases, t ∈ Fixture.all := by
  by_cases hnames : names = []
  · subst hnames
    cases h
    exact ⟨rfl, fun t ht => List.mem_append_left _ ht⟩
  · rw [selectCases_eq_ok hnames] at h
    rw [selectedNames, if_neg hnames]
    clear hnames
    induction h with
    | nil => exact ⟨rfl, List.forall_mem_nil _⟩
    | @cons name t names cases hfind _ ih =>
        have hname : t.name = name := by simpa using List.find?_some hfind
        exact ⟨congrArg₂ List.cons hname ih.1, List.forall_mem_cons.2 ⟨List.mem_of_find?_eq_some hfind, ih.2⟩⟩

theorem exists_selectCases {names : List String} :
    (∃ cases, selectCases names = .ok cases) ↔ ∀ name ∈ names, name ∈ Fixture.regularNames ++ ["testSealed"] := by
  constructor
  · rintro ⟨cases, h⟩ name hname
    obtain ⟨hmap, hall⟩ := selectCases_ok h
    have hselected : name ∈ selectedNames names := by
      rw [selectedNames, if_neg (List.ne_nil_of_mem hname)]
      exact hname
    rw [← hmap] at hselected
    obtain ⟨t, ht, rfl⟩ := List.mem_map.1 hselected
    exact List.mem_map_of_mem (f := (·.name)) (hall t ht)
  · intro h
    by_cases hnames : names = []
    · subst hnames
      exact ⟨Fixture.cases, rfl⟩
    · simp only [selectCases_eq_ok hnames]
      clear hnames
      induction names with
      | nil => exact ⟨[], .nil⟩
      | cons name names ih =>
          obtain ⟨hname, hrest⟩ := List.forall_mem_cons.1 h
          obtain ⟨cases, hcases⟩ := ih hrest
          obtain ⟨t, ht, hnamed⟩ := List.mem_map.1
            (show name ∈ Fixture.all.map (·.name) from hname)
          have hfound : (Fixture.find? name).isSome = true :=
            List.find?_isSome.2 ⟨t, ht, decide_eq_true hnamed⟩
          obtain ⟨t', hfind⟩ := Option.isSome_iff_exists.1 hfound
          exact ⟨t' :: cases, .cons hfind hcases⟩

/-- With mocking enabled and two executions in the budget, a selection of fixture cases comes out as follows, however
often and in whatever order they are selected, and whatever else is set. A case whose mock the policy refuses has
failed. All others are complete after one or two executions. So the campaign is a success exactly if no case of the
selection is of the first kind. -/
theorem runCampaign_fixture (settings : Config) (henabled : settings.mock.enabled = true)
    (hbudget : 2 ≤ settings.campaign.maxExecutions) (processors : Nat) (names : List String) :
    ((∃ cases, selectCases names = .ok cases) ↔ ∀ name ∈ names, name ∈ Fixture.regularNames ++ ["testSealed"]) ∧
    ∀ cases, selectCases names = .ok cases →
      List.Forall₂ (Fixture.EndsAs settings.mock) (selectedNames names) (runCampaign settings processors cases).cases ∧
      ((runCampaign settings processors cases).isSuccess = true ↔
        ∀ name ∈ selectedNames names, Fixture.fails settings.mock name = false) := by
  refine ⟨exists_selectCases, fun cases h => ?_⟩
  obtain ⟨hmap, hall⟩ := selectCases_ok h
  have hcases := Fixture.runCases_endsAs (x := { config := settings, solver := .equality, processors }) (c := {}) rfl
    hbudget rfl henabled hall
  rw [hmap] at hcases
  exact ⟨hcases, Fixture.all_isComplete hcases⟩

/-- Repeated cases under a strict policy, with as small a budget as can be, and all regular cases under the policy by
default. -/
theorem runCampaign_fixture_repeated :
    let strict : Config := {
      mock := { mode := .basic }
      campaign := { maxExecutions := 2, workers := 0, batchSize := 0, stopWhenComplete := false } }
    let names := ["testFunction", "testSealed", "testFunction", "testFinal"]
    (∃ cases, selectCases names = .ok cases ∧
      List.Forall₂ (Fixture.EndsAs strict.mock) names (runCampaign strict 8 cases).cases ∧
      names.map (Fixture.fails strict.mock) = [false, true, false, true] ∧
      (runCampaign strict 8 cases).isSuccess = false) ∧
    ∃ cases, selectCases [] = .ok cases ∧ (runCampaign {} 1 cases).isSuccess = true := by
  intro strict names
  have hfails : names.map (Fixture.fails strict.mock) = [false, true, false, true] := by decide
  obtain ⟨hselect, houtcome⟩ := runCampaign_fixture strict rfl (by decide) 8 names
  obtain ⟨cases, hcases⟩ := hselect.2 (by decide)
  obtain ⟨hends, hsuccess⟩ := houtcome cases hcases
  refine ⟨⟨cases, hcases, hends, hfails, ?_⟩, Fixture.cases, rfl, ?_⟩
  · rw [Bool.eq_false_iff, Ne, hsuccess]
    decide
  · exact ((runCampaign_fixture {} rfl (by decide) 1 []).2 _ rfl).2.2 (by decide)

end Console

end MockExplorer
