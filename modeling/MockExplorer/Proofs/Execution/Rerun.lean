import MockExplorer.Proofs.Execution.Trace
import MockExplorer.Proofs.Mock.Ledger

/-!
# Running again with the values of a run

A run that succeeds is repeated by the values it was given: under a model that has the value of every binding
it left, and without assumptions, each statement replays what it replayed and binds what it bound. The
model of the trace is such a model.
-/

namespace MockExplorer

variable {σ : Type} {p q q' : Provider}

/-! ## Providers without assumptions -/

def Provider.lax (p : Provider) : Provider := { p with assumptions := [] }

theorem Provider.lax_createMock {t : MockTarget} {m : MockInstance} (h : p.createMock t = .ok (m, q)) :
    p.lax.createMock t = .ok (m, q.lax) :=
  createMock_comm (fun _ _ _ => rfl) (fun _ _ => rfl) ⟨rfl, rfl⟩ h

def Model.Covers (m : Model) (p : Provider) : Prop :=
  ∀ k b, p.bindings.get? k = some b → m.get? k.var = some b.value

theorem Model.Covers.of_retains {m : Model} (hm : m.Covers q) (h : p.Retains q) : m.Covers p := by
  intro k b hb
  obtain ⟨calls, hq⟩ := h k b hb
  exact hm k { b with calls } hq

/-! ## Repetition -/

/-- A part of a run leads from `p` to `q`, and `again` holds of every model that has the values it bound. -/
structure Repeats (p q : Provider) (again : Model → Prop) : Prop where
  named : p.Named → q.Named
  retains : p.Retains q
  again : ∀ m : Model, m.Covers q → again m

theorem Repeats.same {again : Model → Prop} (hbindings : q.bindings = p.bindings) (h : ∀ m, again m) :
    Repeats p q again :=
  ⟨fun hp k b hb => hp k b (hbindings ▸ hb), fun _ b hb => ⟨b.calls, hbindings ▸ hb⟩, fun m _ => h m⟩

theorem Repeats.trans {first second both : Model → Prop} (h : Repeats p q first) (h' : Repeats q q' second)
    (hboth : ∀ m, first m → second m → both m) : Repeats p q' both where
  named hp := h'.named (h.named hp)
  retains := h.retains.trans h'.retains
  again m hm := hboth m (h.again m (hm.of_retains h'.retains)) (h'.again m hm)

theorem Repeats.imp {again again' : Model → Prop} (h : Repeats p q again) (himp : ∀ m, again m → again' m) :
    Repeats p q again' :=
  ⟨h.named, h.retains, fun m hm => himp m (h.again m hm)⟩

/-- What a call enters into the table it enters again, when it is answered with the value of the binding. -/
theorem Provider.repeats_bind {k : BindingKey} {sig : MethodSig} {args : List Value} {v : Value} {w : ConcolicValue}
    (h : p.bind k sig args v = .ok (w, q)) :
    Repeats p q fun m => p.lax.bind k sig args (m.resolve k.var sig.returns) = .ok (w, q.lax) := by
  obtain ⟨b, henters, rfl, rfl⟩ := bind_eq_ok.1 h
  refine ⟨fun hp => hp.enter henters, .enter henters, fun m hm => ?_⟩
  have hvalue : m.get? k.var = some b.value := hm k b (SortedMap.get?_insert_self ..)
  refine bind_eq_ok.2 ⟨b, ?_, rfl, rfl⟩
  cases henters with
  | again hb => exact .again hb
  | first hb hv =>
      have hresolve : m.resolve k.var sig.returns = v := by simp [Model.resolve, hvalue]
      rw [hresolve]
      exact .first hb ⟨hv.conforms, fun a ha => by cases ha⟩

/-! ## Calls -/

def CallState.lax (c : CallState σ) : CallState Unit := ⟨c.provider.lax, ()⟩

section

variable {roster : List MockInstance} {mock : MockInstance} {f : String} {args : List Value} {v : ConcolicValue}

theorem Resolver.Direct.serve_ok {r : Resolver σ} (hr : r.Direct)
    {nested : CallState σ → MockInstance → String → List Value → CallResult σ ConcolicValue} {c c' : CallState σ}
    (h : r.serve roster nested c mock f args = (.ok v, c')) :
    ∃ sig w, mock.dispatch f args = .ok sig ∧ c.provider.bind (mock.key sig) sig args w = .ok (v, c'.provider) := by
  unfold Resolver.serve at h
  split at h
  · cases h
  · rename_i sig hsig
    dsimp only at h
    split at h
    · rename_i served hreplay
      cases h
      -- A replay looks at no new value, so it binds whichever one is given.
      exact ⟨sig, .null, hsig, by simp [Provider.bind, hreplay]⟩
    · have hdirect := hr c.resolver (mock.key sig).var sig.returns
      generalize r.react c.resolver (mock.key sig).var sig.returns = reaction at h hdirect
      cases hdirect with
      | fail e s => cases h
      | answer w s =>
          simp only [Reaction.settle] at h
          split at h
          · cases h
          · rename_i hbind
            cases h
            exact ⟨sig, w, hsig, hbind⟩

theorem Resolver.serve_ofModel {m : Model} {sig : MethodSig} (hsig : mock.dispatch f args = .ok sig)
    (h : p.bind (mock.key sig) sig args (m.resolve (mock.key sig).var sig.returns) = .ok (v, q))
    (nested : CallState Unit → MockInstance → String → List Value → CallResult Unit ConcolicValue) :
    (Resolver.ofModel m).serve roster nested ⟨p, ()⟩ mock f args = (.ok v, ⟨q, ()⟩) := by
  simp only [Resolver.serve, hsig]
  cases hreplay : p.replay? (mock.key sig) sig with
  | some served =>
      simp only [Provider.bind, hreplay] at h
      cases h
      rfl
  | none => simp only [Resolver.ofModel, Reaction.settle, h]

variable {r : Resolver σ} (hr : r.Direct) {depth : Nat} {c c' : CallState σ}
include hr

theorem Resolver.Direct.repeats_invoke (h : r.invoke roster depth c mock f args = (.ok v, c')) :
    Repeats c.provider c'.provider fun m =>
      (Resolver.ofModel m).invoke roster 0 c.lax mock f args = (.ok v, c'.lax) := by
  have hserved : ∃ sig w, mock.dispatch f args = .ok sig ∧
      c.provider.bind (mock.key sig) sig args w = .ok (v, c'.provider) := by
    cases depth with
    | zero => exact hr.serve_ok h
    | succ depth => exact hr.serve_ok h
  obtain ⟨sig, w, hsig, hbind⟩ := hserved
  exact (Provider.repeats_bind hbind).imp fun m hm => Resolver.serve_ofModel hsig hm _

theorem Resolver.Direct.repeats_invokeOnly (h : r.invokeOnly roster depth c mock args = (.ok v, c')) :
    Repeats c.provider c'.provider fun m =>
      (Resolver.ofModel m).invokeOnly roster 0 c.lax mock args = (.ok v, c'.lax) := by
  unfold Resolver.invokeOnly at h ⊢
  split at h
  · exact hr.repeats_invoke h
  · cases h

theorem Resolver.Direct.repeats_invokeView {view : Capability} {arg : Value}
    (h : r.invokeView roster depth c mock view arg = (.ok v, c')) :
    Repeats c.provider c'.provider fun m =>
      (Resolver.ofModel m).invokeView roster 0 c.lax mock view arg = (.ok v, c'.lax) := by
  unfold Resolver.invokeView at h ⊢
  split at h
  · rename_i hadmits
    simp only [hadmits, ↓reduceIte]
    exact hr.repeats_invoke h
  · cases h

end

/-! ## Statements -/

namespace Execution

variable {x x' : Execution σ}

/-- The state of a run without assumptions and under another number. -/
def rerun (id : UInt64) (x : Execution σ) : Execution Unit where
  id
  calls := x.calls.lax
  branches := x.branches
  assertions := x.assertions
  cancelled := x.cancelled
  scope := x.scope
  roster := x.roster
  silent := x.silent
  observations := x.observations
  log := x.log

theorem rerun_write (id : UInt64) (x : Execution σ) (e : LogEntry) : (x.write e).rerun id = (x.rerun id).write e := by
  unfold write
  cases h : x.silent <;> simp [rerun, h]

theorem rerun_branch (id : UInt64) (x : Execution σ) (l : LocationId) (c : Condition) :
    (x.rerun id).branch l c = ((x.branch l c).1, (x.branch l c).2.rerun id) := by
  unfold branch
  cases c.taken? <;> rfl

theorem repeats_callNamed (id : UInt64) {mock name : String}
    {call : CallState σ → MockInstance → CallResult σ ConcolicValue}
    (call' : Model → CallState Unit → MockInstance → CallResult Unit ConcolicValue)
    (h : x.callNamed mock call name = (x', none)) (hcall : ∀ mock v c, call x.calls mock = (.ok v, c) →
      Repeats x.provider c.provider fun m => call' m x.calls.lax mock = (.ok v, c.lax)) :
    Repeats x.provider x'.provider fun m => (x.rerun id).callNamed mock (call' m) name = (x'.rerun id, none) := by
  cases hmock : x.scope.mocks.get? mock with
  | none => simp [callNamed, hmock] at h
  | some mock' =>
      rcases hout : call x.calls mock' with ⟨_ | v, c⟩
      · rw [callNamed_error hmock hout] at h
        cases h
      · rw [callNamed_ok hmock hout] at h
        obtain rfl := (Prod.mk.inj h).1
        have hrepeats := hcall mock' v c hout
        rw [write_provider]
        refine hrepeats.imp fun m hm => ?_
        rw [rerun_write, callNamed_ok (x := x.rerun id) hmock hm]
        rfl

end Execution

theorem Action.repeats {r : Resolution σ} (hr : r.resolver.Direct) (id : UInt64) {a : Action} {x x' : Execution σ}
    (h : a.run r x = (x', none)) :
    Repeats x.provider x'.provider fun m => a.run { resolver := .ofModel m } (x.rerun id) = (x'.rerun id, none) := by
  cases a with
  | mock name target =>
      simp only [Action.run] at h ⊢
      split at h
      · cases h
      · rename_i mock p hcreate
        split at h
        · cases h
        · rename_i hslot
          obtain rfl := (Prod.mk.inj h).1
          obtain ⟨_, _, _, _, hbind, _⟩ := Provider.createMock_spec hcreate
          rw [Execution.write_provider]
          refine .same hbind fun m => ?_
          rw [show (x.rerun id).provider = x.provider.lax from rfl, Provider.lax_createMock hcreate]
          simp only [show p.lax.nextSlot = p.nextSlot from rfl, hslot, ↓reduceIte, Execution.rerun_write]
          rfl
  | invoke receiver method args name =>
      simp only [Action.run] at h
      exact Execution.repeats_callNamed id
        (fun m c mock => (Resolver.ofModel m).invoke x.roster 0 c mock method args)
        h fun mock v c hcall => hr.repeats_invoke hcall
  | call receiver args name =>
      simp only [Action.run] at h
      exact Execution.repeats_callNamed id (fun m c mock => (Resolver.ofModel m).invokeOnly x.roster 0 c mock args)
        h fun mock v c hcall => hr.repeats_invokeOnly hcall
  | view receiver capability arg name =>
      simp only [Action.run] at h
      exact Execution.repeats_callNamed id
        (fun m c mock => (Resolver.ofModel m).invokeView x.roster 0 c mock capability arg)
        h fun mock v c hcall => hr.repeats_invokeView hcall
  | keep v name =>
      obtain rfl := (Prod.mk.inj h).1
      rw [Execution.write_provider]
      exact .same rfl fun m => by rw [Execution.rerun_write]; rfl
  | reached site literal =>
      obtain rfl := (Prod.mk.inj h).1
      rw [Execution.write_provider]
      exact .same rfl fun m => by rw [Execution.rerun_write]; rfl
  | assertReached l literal => cases h; exact .same rfl fun m => rfl
  | record clause => cases h; exact .same rfl fun m => rfl
  | cancel => cases h; exact .same rfl fun m => rfl
  | fail e => cases h
  | crash => cases h

/-! ## Bodies -/

def Body.Uncaught : Body → Prop
  | .skip => True
  | .seq a b => a.Uncaught ∧ b.Uncaught
  | .act _ => True
  | .branch _ _ _ _ t e => t.Uncaught ∧ e.Uncaught
  | .times _ b => b.Uncaught
  | .attempt _ _ => False
  | .enclosed b => b.Uncaught

section

variable {r : Resolution σ} (hr : r.resolver.Direct) (id : UInt64) {x x' : Execution σ}

abbrev Body.Repeated (b : Body) (id : UInt64) (x x' : Execution σ) : Prop :=
  Repeats x.provider x'.provider fun m => b.run { resolver := .ofModel m } (x.rerun id) = (x'.rerun id, none)

theorem Body.repeats_seq {a b : Body} {y : Execution σ} (ha : a.Repeated id x y) (hb : b.Repeated id y x') :
    (Body.seq a b).Repeated id x x' :=
  ha.trans hb fun m hfirst hsecond => by simp only [Body.run, hfirst, hsecond]

theorem Body.run_seq_eq_none {a b : Body} (h : (Body.seq a b).run r x = (x', none)) :
    ∃ y, a.run r x = (y, none) ∧ b.run r y = (x', none) := by
  rw [Body.run_seq] at h
  rcases hfirst : a.run r x with ⟨y, _ | halt⟩
  · rw [hfirst] at h
    exact ⟨y, rfl, h⟩
  · rw [hfirst] at h
    cases h

include hr

/-- A run that succeeds without catching errors is repeated under every model with the values that it bound. -/
theorem Body.repeats {b : Body} (hb : b.Uncaught) (h : b.run r x = (x', none)) : b.Repeated id x x' := by
  induction b generalizing x x' with
  | skip => cases h; exact .same rfl fun m => rfl
  | seq a b iha ihb =>
      obtain ⟨y, hfirst, hsecond⟩ := Body.run_seq_eq_none h
      exact Body.repeats_seq id (iha hb.1 hfirst) (ihb hb.2 hsecond)
  | act a => exact a.repeats hr id h
  | branch l value op rhs t e iht ihe =>
      cases hv : x.scope.values.get? value with
      | none => simp [Body.run, hv] at h
      | some v =>
          rcases hz : x.branch l ⟨v, op, rhs⟩ with ⟨outcome, z⟩
          rw [Body.run_branch t e hv hz] at h
          have harm : (t.arm e outcome).Repeated id (z.write (.branched l outcome)) x' := by
            cases outcome with
            | true => exact iht hb.1 h
            | false => exact ihe hb.2 h
          -- The branch writes its clause and leaves the table alone.
          have hbindings : (z.write (.branched l outcome)).provider.bindings = x.provider.bindings := by
            have hprovider := Execution.branch_provider x l ⟨v, op, rhs⟩
            rw [hz] at hprovider
            rw [Execution.write_provider, hprovider]
            cases Condition.taken? ⟨v, op, rhs⟩ <;> rfl
          have hbranch : (x.rerun id).branch l ⟨v, op, rhs⟩ = (outcome, z.rerun id) := by
            rw [Execution.rerun_branch, hz]
          refine Repeats.trans (Repeats.same hbindings fun _ => trivial) harm fun m _ hm => ?_
          rw [Body.run_branch (x := x.rerun id) t e hv hbranch, ← Execution.rerun_write]
          exact hm
  | times n b ih =>
      induction n generalizing x with
      | zero => cases h; exact .same rfl fun m => rfl
      | succ n ihn =>
          rw [Body.run_times_succ] at h
          obtain ⟨y, hfirst, hsecond⟩ := Body.run_seq_eq_none h
          exact Body.repeats_seq id (ih hb hfirst) (ihn hb hsecond)
  | attempt b recovery ihb ihrec => exact hb.elim
  | enclosed b ih =>
      rcases hinner : b.run r { x with scope := {}, silent := true } with ⟨y, halt⟩
      simp only [Body.run, hinner] at h
      cases h
      refine (ih hb hinner).imp fun m hm => ?_
      simp only [Body.run]
      rw [show { x.rerun id with scope := {}, silent := true } =
        Execution.rerun id { x with scope := {}, silent := true } from rfl, hm]
      rfl

theorem Body.execute_trace {b : Body} (hb : b.Uncaught) {config : MockConfig} {id₀ : UInt64}
    {assumptions : List Predicate} {state : σ} (h : b.run r (.start config id₀ assumptions state) = (x, none)) :
    b.execute config id x.trace.model [] = ⟨.ok { x.trace with id }, x.observations.reverse, x.cancelled⟩ := by
  have hrepeats := Body.repeats hr id hb h
  have hnamed := hrepeats.named fun k b hb => by cases hb
  have hrun : b.runUnder config id x.trace.model [] = (x.rerun id, none) :=
    hrepeats.again x.trace.model fun k b hb => Execution.trace_get? hnamed hb
  rw [Body.execute, hrun]
  rfl

end

end MockExplorer
