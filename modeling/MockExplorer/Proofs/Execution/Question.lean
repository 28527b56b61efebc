import MockExplorer.Proofs.Execution.Invariant

/-!
# Questions to the resolver

A call on a mock asks the resolver for a value when its method is not bound yet. If every answer along a run
is acceptable, the run does not depend on more of its resolver than these answers.
-/

namespace MockExplorer

variable {σ : Type} {R : SymVar → ValueType → Value → Prop}

/-! ## Calls as requests -/

/-- A call of a statement: the name of the mock, where a call on the mock goes, and the name of the result. -/
structure Request where
  receiver : String
  dispatch : MockInstance → Except MockError MethodSig
  name : String

def Action.request? : Action → Option Request
  | .invoke receiver method args name => some ⟨receiver, fun m => m.dispatch method args, name⟩
  | .call receiver args name => some ⟨receiver, fun m => m.dispatchOnly args, name⟩
  | .view receiver capability arg name => some ⟨receiver, fun m => m.dispatchView capability arg, name⟩
  | _ => none

theorem Action.request?_dispatch {a : Action} {q : Request} {m : MockInstance} {sig : MethodSig}
    (hq : a.request? = some q) (hsig : q.dispatch m = .ok sig) : ∃ f args, m.dispatch f args = .ok sig := by
  cases a with
  | invoke receiver method args name => cases hq; exact ⟨method, args, hsig⟩
  | call receiver args name =>
      cases hq
      obtain ⟨f, hf⟩ := MockInstance.dispatchOnly_ok hsig
      exact ⟨f, args, hf⟩
  | view receiver capability arg name => cases hq; exact ⟨_, _, MockInstance.dispatchView_ok hsig⟩
  | _ => cases hq

theorem Action.run_request {r : Resolution σ} {model : Model} (hr : r.resolver.AnswersFrom model) {a : Action}
    {q : Request} (hq : a.request? = some q) (x : Execution σ) :
    ∃ call, a.run r x = x.callNamed q.receiver call q.name ∧
      ∀ m, Answered r.resolver model m x.calls (q.dispatch m) (call x.calls m) := by
  cases a with
  | invoke receiver method args name =>
      cases hq
      exact ⟨fun c m => r.resolver.invoke x.roster r.depth c m method args, rfl,
        fun m => hr.invoke x.roster r.depth x.calls m method args⟩
  | call receiver args name =>
      cases hq
      exact ⟨fun c m => r.resolver.invokeOnly x.roster r.depth c m args, rfl,
        fun m => hr.invokeOnly x.roster r.depth x.calls m args⟩
  | view receiver capability arg name =>
      cases hq
      exact ⟨fun c m => r.resolver.invokeView x.roster r.depth c m capability arg, rfl,
        fun m => hr.invokeView x.roster r.depth x.calls m capability arg⟩
  | _ => cases hq

theorem Execution.callNamed_error {x : Execution σ} {mock name : String} {m : MockInstance} {halt : Halt}
    {c : CallState σ} {call : CallState σ → MockInstance → CallResult σ ConcolicValue}
    (hm : x.scope.mocks.get? mock = some m) (hcall : call x.calls m = (.error halt, c)) :
    x.callNamed mock call name = ({ x with calls := c }, some halt) := by
  simp [Execution.callNamed, hm, hcall]

theorem Execution.callNamed_ok {x : Execution σ} {mock name : String} {m : MockInstance} {v : ConcolicValue}
    {c : CallState σ} {call : CallState σ → MockInstance → CallResult σ ConcolicValue}
    (hm : x.scope.mocks.get? mock = some m) (hcall : call x.calls m = (.ok v, c)) :
    x.callNamed mock call name = (({ x with calls := c }.keepValue name v).write (.kept v), none) := by
  simp [Execution.callNamed, hm, hcall]

/-- A call by name goes on in the same way in a state that was changed in what it does not depend on. -/
theorem Execution.callNamed_comm {f : Execution σ → Execution σ} {g : CallState σ → CallState σ} {x : Execution σ}
    {call : CallState σ → MockInstance → CallResult σ ConcolicValue} (mock name : String)
    (hscope : (f x).scope = x.scope) (hcalls : (f x).calls = g x.calls)
    (hkeep : ∀ c v, { f x with calls := g c }.keepValue name v = f ({ x with calls := c }.keepValue name v))
    (hstop : ∀ c, { f x with calls := g c } = f { x with calls := c })
    (hwrite : ∀ y e, (f y).write e = f (y.write e))
    (hcall : ∀ m, call (g x.calls) m = ((call x.calls m).1, g (call x.calls m).2)) :
    (f x).callNamed mock call name = (f (x.callNamed mock call name).1, (x.callNamed mock call name).2) := by
  cases hmock : x.scope.mocks.get? mock with
  | none => simp [callNamed, hmock, hscope]
  | some m =>
      have hmock' : (f x).scope.mocks.get? mock = some m := by rw [hscope, hmock]
      have hcall' : call (f x).calls m = ((call x.calls m).1, g (call x.calls m).2) := by rw [hcalls, hcall]
      rcases hout : call x.calls m with ⟨_ | v, c⟩ <;> rw [hout] at hcall'
      · rw [callNamed_error hmock hout, callNamed_error hmock' hcall']
        exact Prod.ext (hstop c) rfl
      · rw [callNamed_ok hmock hout, callNamed_ok hmock' hcall', ← hwrite]
        exact Prod.ext (congrArg (·.write (.kept v)) (hkeep c v)) rfl

/-! ## Questions -/

/-- The statement asks for the value of a method that is not bound. -/
inductive Action.Asks (a : Action) (x : Execution σ) : BindingKey → ValueType → Prop where
  | fresh {q : Request} {m : MockInstance} {sig : MethodSig} (hq : a.request? = some q)
      (hm : x.scope.mocks.get? q.receiver = some m) (hsig : q.dispatch m = .ok sig)
      (hb : x.provider.bindings.get? (m.key sig) = none) : Asks a x (m.key sig) sig.returns

/-- The model has an acceptable answer to every question of the statement. -/
def Action.Settled (model : Model) (a : Action) (x : Execution σ) : Prop :=
  ∀ k ty, a.Asks x k ty → x.provider.Accepts k.var ty (model.resolve k.var ty)

theorem Action.Asks.registered {a : Action} {x : Execution σ} {k : BindingKey} {ty : ValueType}
    (h : a.Asks x k ty) (hx : x.Sound R) : x.provider.path.inputs.get? k.var = some ty := by
  cases h with
  | fresh hq hm hsig hb =>
      obtain ⟨f, args, hdispatch⟩ := Action.request?_dispatch hq hsig
      exact (hx.mocks hm).dispatch hdispatch

/-- A statement that raises no inconsistency got acceptable answers. -/
theorem Action.settled_of_run {r : Resolution σ} {model : Model} (hr : r.resolver.AnswersFrom model) {a : Action}
    {x : Execution σ} (h : ∀ var message, (a.run r x).2 ≠ some (.raised (.inconsistent var message))) :
    a.Settled model x := by
  intro k ty hasks
  cases hasks with
  | @fresh q m sig hq hm hsig hb =>
      obtain ⟨call, hrun, hanswered⟩ := Action.run_request hr hq x
      have hcall := hanswered m
      rw [hsig] at hcall
      generalize hout : call x.calls m = out at hcall
      cases hcall with
      | replayed b' hb' => rw [show x.calls.provider.bindings.get? (m.key sig) = none from hb] at hb'; cases hb'
      | bound b hask hb' hacc => exact hacc
      | inconsistent hask hb' hacc =>
          rw [hrun, Execution.callNamed_error hm hout] at h
          exact absurd rfl (h _ _)

end MockExplorer
