import MockExplorer.Mock.Call
import MockExplorer.Proofs.Mock.Provider

/-!
# Calls on mocks

A call leaves the invariant of the provider intact and returns the value that its input is bound to, also
when the resolver calls mocks before it answers. A resolver that answers outright is followed more
closely: the call is refused, replayed, bound, or inconsistent.
-/

namespace MockExplorer

variable {σ : Type} {R : SymVar → ValueType → Value → Prop}

/-! ## What a resolver answers -/

/-- Whatever the reaction comes to, it answers nothing but values in `P`. -/
inductive Reaction.Answers (P : Value → Prop) : Reaction σ → Prop where
  | answer {v : Value} {state : σ} (hv : P v) : Answers P (.answer v state)
  | fail (e : MockError) (state : σ) : Answers P (.fail e state)
  | call {mock : Nat} {method : String} {args : List Value} {state : σ}
      {resume : Except MockError ConcolicValue → σ → Reaction σ}
      (h : ∀ result state, Answers P (resume result state)) : Answers P (.call mock method args state resume)

/-- Every answer to a question for an input is in `R`. -/
def Resolver.Gives (r : Resolver σ) (R : SymVar → ValueType → Value → Prop) : Prop :=
  ∀ state var ty, (r.react state var ty).Answers (R var ty)

/-- The resolver answers every question outright, from the model. -/
def Resolver.AnswersFrom (r : Resolver σ) (m : Model) : Prop :=
  ∀ state var ty, ∃ state', r.react state var ty = .answer (m.resolve var ty) state'

/-- The value is what the model answers. -/
def Model.Answers (m : Model) (var : SymVar) (ty : ValueType) (v : Value) : Prop := v = m.resolve var ty

theorem Resolver.answersFrom_ofModel (m : Model) : (Resolver.ofModel m).AnswersFrom m :=
  fun _ _ _ => ⟨(), rfl⟩

theorem Resolver.AnswersFrom.gives {r : Resolver σ} {m : Model} (h : r.AnswersFrom m) :
    r.Gives m.Answers := by
  intro state var ty
  obtain ⟨state', hstate⟩ := h state var ty
  rw [hstate]
  exact .answer rfl

/-! ## Where a call goes -/

theorem MockInstance.dispatch_ok {m : MockInstance} {f : String} {args : List Value} {sig : MethodSig}
    (h : m.dispatch f args = .ok sig) : m.target.method? f = some sig ∧ sig.name = f := by
  unfold dispatch at h
  split at h
  · cases h
  · rename_i sig' hsig
    split at h
    · cases h
    · cases h
      exact ⟨hsig, by simpa using List.find?_some hsig⟩

theorem MockInstance.dispatch_error {m : MockInstance} {f : String} {args : List Value} {e : MockError}
    (h : m.dispatch f args = .error e) : e.severity = .caseLocal := by
  unfold dispatch at h
  split at h
  · cases h; rfl
  · split at h
    · cases h; rfl
    · cases h

theorem Provider.Registered.dispatch {p : Provider} {m : MockInstance} {f : String} {args : List Value}
    {sig : MethodSig} (hm : p.Registered m) (h : m.dispatch f args = .ok sig) :
    p.path.inputs.get? (m.key sig).var = some sig.returns := by
  obtain ⟨hsig, hname⟩ := MockInstance.dispatch_ok h
  rw [MockInstance.key, BindingKey.var, hname]
  exact hm f sig hsig

/-! ## The invariant -/

/-- The outcome of a call on a provider: the invariant, grown bindings, and a result with its roots. -/
structure Served (R : SymVar → ValueType → Value → Prop) (p : Provider) (out : CallResult σ ConcolicValue) :
    Prop where
  sound : out.2.provider.Sound R
  grown : p.Extends out.2.provider
  rooted : ∀ v, out.1 = .ok v → out.2.provider.Roots v

theorem Served.stopped {p : Provider} {c : CallState σ} (h : Halt) (hsound : c.provider.Sound R)
    (hgrown : p.Extends c.provider) : Served R p (.error h, c) :=
  ⟨hsound, hgrown, fun _ hv => by cases hv⟩

/-- Calls on registered mocks keep the invariant. -/
def Serves (R : SymVar → ValueType → Value → Prop) (roster : List MockInstance)
    (call : CallState σ → MockInstance → String → List Value → CallResult σ ConcolicValue) : Prop :=
  ∀ c m f args, c.provider.Sound R → c.provider.Registered m → (∀ m' ∈ roster, c.provider.Registered m') →
    Served R c.provider (call c m f args)

variable {p : Provider} {k : BindingKey} {sig : MethodSig} {roster : List MockInstance}

theorem served_replay {state : σ} {v : ConcolicValue} {p' : Provider} (hp : p.Sound R)
    (hty : p.path.inputs.get? k.var = some sig.returns) (h : p.replay? k sig = some (v, p')) :
    Served R p (.ok v, (⟨p', state⟩ : CallState σ)) := by
  cases hb : p.bindings.get? k with
  | none => rw [Provider.replay?_eq_none hb] at h; cases h
  | some b =>
      rw [Provider.replay?_eq hb] at h
      cases h
      obtain ⟨hvar, ty, hty', hacc, hR⟩ := hp.bound hb
      have hsame : ∀ b', p.bindings.get? k = some b' → b.value = b'.value := by
        intro b' hb'; rw [hb] at hb'; cases hb'; rfl
      refine ⟨hp.insert hsame hvar hty' hacc hR, Provider.extends_insert hsame, fun v hv => ?_⟩
      cases hv
      intro var heq
      cases heq
      have hbinds := Provider.binds_insert { b with calls := b.calls + 1 } hty
      rwa [← hvar] at hbinds

theorem served_bind (state : σ) {args : List Value} {v : Value} {w : ConcolicValue} {p' : Provider}
    (hp : p.Sound R) (hty : p.path.inputs.get? k.var = some sig.returns) (hR : R k.var sig.returns v)
    (h : p.bind k sig args v = .ok (w, p')) : Served R p (.ok w, (⟨p', state⟩ : CallState σ)) := by
  cases hb : p.bindings.get? k with
  | some b =>
      refine served_replay hp hty ?_
      unfold Provider.bind at h
      rw [Provider.replay?_eq hb] at h ⊢
      cases h
      rfl
  | none =>
      by_cases hacc : p.Accepts k.var sig.returns v
      · rw [Provider.bind_of_accepts hb hacc] at h
        cases h
        have hsame : ∀ b', p.bindings.get? k = some b' → v = b'.value := by
          intro b' hb'; rw [hb] at hb'; cases hb'
        refine ⟨hp.insert hsame rfl hty hacc hR, Provider.extends_insert hsame, fun v hv => ?_⟩
        cases hv
        intro var heq
        cases heq
        exact Provider.binds_insert ⟨k.var, _, args, 1⟩ hty
      · obtain ⟨message, hbad⟩ := Provider.bind_of_not_accepts args hb hacc
        rw [hbad] at h
        cases h

/-- A reaction keeps the invariant through the calls that it makes. -/
theorem Reaction.settle_sound
    {nested : CallState σ → MockInstance → String → List Value → CallResult σ ConcolicValue}
    (hn : Serves R roster nested) {P : Value → Prop} {reaction : Reaction σ} (h : reaction.Answers P)
    (hp : p.Sound R) (hroster : ∀ m ∈ roster, p.Registered m) :
    (reaction.settle nested roster p).2.provider.Sound R ∧
      p.Extends (reaction.settle nested roster p).2.provider ∧
      ∀ v, (reaction.settle nested roster p).1 = .ok v → P v := by
  induction h generalizing p with
  | answer hv =>
      refine ⟨hp, .refl p, fun v heq => ?_⟩
      cases heq
      exact hv
  | fail e state => exact ⟨hp, .refl p, fun v heq => by cases heq⟩
  | @call mock method args state resume _ ih =>
      simp only [Reaction.settle]
      split
      · exact ih _ _ hp hroster
      · rename_i m hmock
        have hserved := hn ⟨p, state⟩ m method args hp (hroster m (List.mem_of_getElem? hmock)) hroster
        have hroster' : ∀ m' ∈ roster, (nested ⟨p, state⟩ m method args).2.provider.Registered m' :=
          fun m' hm' => (hroster m' hm').grows hserved.grown.toGrows
        -- After the nested call the reaction goes on, unless the stack is exhausted.
        generalize nested ⟨p, state⟩ m method args = out at hserved hroster' ⊢
        obtain ⟨result, c⟩ := out
        rcases result with (e | _) | v
        · obtain ⟨hsound, hgrown, hP⟩ := ih (.error e) c.resolver hserved.sound hroster'
          exact ⟨hsound, hserved.grown.trans hgrown, hP⟩
        · exact ⟨hserved.sound, hserved.grown, fun v heq => by cases heq⟩
        · obtain ⟨hsound, hgrown, hP⟩ := ih (.ok v) c.resolver hserved.sound hroster'
          exact ⟨hsound, hserved.grown.trans hgrown, hP⟩

theorem Resolver.serves_serve {r : Resolver σ} (hr : r.Gives R)
    {nested : CallState σ → MockInstance → String → List Value → CallResult σ ConcolicValue}
    (hn : Serves R roster nested) : Serves R roster (r.serve roster nested) := by
  intro c m f args hp hm hroster
  unfold Resolver.serve
  cases hsig : m.dispatch f args with
  | error e => exact .stopped _ hp (.refl _)
  | ok sig =>
      have hty := hm.dispatch hsig
      simp only
      split
      · rename_i v p' hreplay
        exact served_replay hp hty hreplay
      · obtain ⟨hsound, hgrown, hR⟩ :=
          Reaction.settle_sound hn (hr c.resolver (m.key sig).var sig.returns) hp hroster
        split
        · rename_i h c' hout
          rw [hout] at hsound hgrown
          exact .stopped h hsound hgrown
        · rename_i v c' hout
          rw [hout] at hsound hgrown hR
          split
          · exact .stopped _ hsound hgrown
          · rename_i w p' hbind
            have hserved := served_bind c'.resolver hsound (hgrown.path ▸ hty) (hR v rfl) hbind
            exact ⟨hserved.sound, hgrown.trans hserved.grown, hserved.rooted⟩

/-- Calls keep the invariant, however deep the resolver's own calls may nest. -/
theorem Resolver.serves_invoke {r : Resolver σ} (hr : r.Gives R) (depth : Nat) :
    Serves R roster (r.invoke roster depth) := by
  induction depth with
  | zero => exact serves_serve hr fun c _ _ _ hp _ _ => .stopped _ hp (.refl _)
  | succ depth ih => exact serves_serve hr ih

theorem Resolver.served_invokeOnly {r : Resolver σ} (hr : r.Gives R) (depth : Nat) {c : CallState σ}
    {m : MockInstance} (args : List Value) (hp : c.provider.Sound R) (hm : c.provider.Registered m)
    (hroster : ∀ m' ∈ roster, c.provider.Registered m') :
    Served R c.provider (r.invokeOnly roster depth c m args) := by
  unfold Resolver.invokeOnly
  split
  · exact serves_invoke hr depth c m _ args hp hm hroster
  · exact .stopped _ hp (.refl _)

theorem Resolver.served_invokeView {r : Resolver σ} (hr : r.Gives R) (depth : Nat) {c : CallState σ}
    {m : MockInstance} (view : Capability) (arg : Value) (hp : c.provider.Sound R)
    (hm : c.provider.Registered m) (hroster : ∀ m' ∈ roster, c.provider.Registered m') :
    Served R c.provider (r.invokeView roster depth c m view arg) := by
  unfold Resolver.invokeView
  split
  · exact serves_invoke hr depth c m _ _ hp hm hroster
  · exact .stopped _ hp (.refl _)

/-! ## Resolvers that answer outright -/

/-- Where a call of the only interceptable method goes. -/
def MockInstance.dispatchOnly (m : MockInstance) (args : List Value) : Except MockError MethodSig :=
  match m.target.interceptable with
  | [sig] => m.dispatch sig.name args
  | _ => .error (.unknownMethod m.target.name "<single abstract method>")

/-- Where a call through a view goes. -/
def MockInstance.dispatchView (m : MockInstance) (view : Capability) (arg : Value) :
    Except MockError MethodSig :=
  if view.admits m.target then m.dispatch view.method.name (view.args arg)
  else .error (.unknownMethod m.target.name view.method.text)

/-- What becomes of a call when the resolver answers outright from the model: it is refused, replayed, bound
to the answer, or the answer is inconsistent. -/
inductive Answered (r : Resolver σ) (model : Model) (m : MockInstance) (c : CallState σ) :
    Except MockError MethodSig → CallResult σ ConcolicValue → Prop where
  | refused {e : MockError} (he : e.severity = .caseLocal) :
      Answered r model m c (.error e) (.error (.raised e), c)
  | replayed {sig : MethodSig} {b : Binding} (b' : Binding)
      (hb : c.provider.bindings.get? (m.key sig) = some b) :
      Answered r model m c (.ok sig) (.ok ⟨b.value, sig.returns, some b.var⟩,
        { c with provider := { c.provider with bindings := c.provider.bindings.insert (m.key sig) b' } })
  | bound {sig : MethodSig} {state : σ} (b : Binding)
      (hask : r.react c.resolver (m.key sig).var sig.returns =
        .answer (model.resolve (m.key sig).var sig.returns) state)
      (hb : c.provider.bindings.get? (m.key sig) = none)
      (hacc : c.provider.Accepts (m.key sig).var sig.returns (model.resolve (m.key sig).var sig.returns)) :
      Answered r model m c (.ok sig)
        (.ok ⟨model.resolve (m.key sig).var sig.returns, sig.returns, some (m.key sig).var⟩,
          ⟨{ c.provider with bindings := c.provider.bindings.insert (m.key sig) b }, state⟩)
  | inconsistent {sig : MethodSig} {state : σ} {message : String}
      (hask : r.react c.resolver (m.key sig).var sig.returns =
        .answer (model.resolve (m.key sig).var sig.returns) state)
      (hb : c.provider.bindings.get? (m.key sig) = none)
      (hacc : ¬ c.provider.Accepts (m.key sig).var sig.returns (model.resolve (m.key sig).var sig.returns)) :
      Answered r model m c (.ok sig)
        (.error (.raised (.inconsistent (m.key sig).var.name message)), ⟨c.provider, state⟩)

section Outright

variable {r : Resolver σ} {model : Model} (hr : r.AnswersFrom model) (roster : List MockInstance) (depth : Nat)
  (c : CallState σ) (m : MockInstance)
include hr

theorem Resolver.AnswersFrom.serve
    (nested : CallState σ → MockInstance → String → List Value → CallResult σ ConcolicValue) (f : String)
    (args : List Value) : Answered r model m c (m.dispatch f args) (r.serve roster nested c m f args) := by
  unfold Resolver.serve
  cases hsig : m.dispatch f args with
  | error e => exact .refused (MockInstance.dispatch_error hsig)
  | ok sig =>
      cases hb : c.provider.bindings.get? (m.key sig) with
      | some b => simpa [Provider.replay?_eq hb] using .replayed _ hb
      | none =>
          obtain ⟨state, hask⟩ := hr c.resolver (m.key sig).var sig.returns
          simp only [Provider.replay?_eq_none hb, hask, Reaction.settle]
          by_cases hacc : c.provider.Accepts (m.key sig).var sig.returns
              (model.resolve (m.key sig).var sig.returns)
          · rw [Provider.bind_of_accepts hb hacc]
            exact .bound _ hask hb hacc
          · obtain ⟨message, hbad⟩ := Provider.bind_of_not_accepts args hb hacc
            rw [hbad]
            exact .inconsistent hask hb hacc

theorem Resolver.AnswersFrom.invoke (f : String) (args : List Value) :
    Answered r model m c (m.dispatch f args) (r.invoke roster depth c m f args) := by
  cases depth with
  | zero => exact hr.serve roster c m _ f args
  | succ depth => exact hr.serve roster c m _ f args

theorem Resolver.AnswersFrom.invokeOnly (args : List Value) :
    Answered r model m c (m.dispatchOnly args) (r.invokeOnly roster depth c m args) := by
  unfold Resolver.invokeOnly MockInstance.dispatchOnly
  rcases m.target.interceptable with _ | ⟨sig, _ | ⟨sig', rest⟩⟩
  · exact .refused rfl
  · exact hr.invoke roster depth c m _ args
  · exact .refused rfl

theorem Resolver.AnswersFrom.invokeView (view : Capability) (arg : Value) :
    Answered r model m c (m.dispatchView view arg) (r.invokeView roster depth c m view arg) := by
  unfold Resolver.invokeView MockInstance.dispatchView
  split
  · exact hr.invoke roster depth c m _ _
  · exact .refused rfl

end Outright

/-- Every way to call a mock ends at one of its methods. -/
theorem MockInstance.dispatchOnly_ok {m : MockInstance} {args : List Value} {sig : MethodSig}
    (h : m.dispatchOnly args = .ok sig) : ∃ f, m.dispatch f args = .ok sig := by
  unfold dispatchOnly at h
  split at h
  · exact ⟨_, h⟩
  · cases h

theorem MockInstance.dispatchView_ok {m : MockInstance} {view : Capability} {arg : Value} {sig : MethodSig}
    (h : m.dispatchView view arg = .ok sig) : m.dispatch view.method.name (view.args arg) = .ok sig := by
  unfold dispatchView at h
  split at h
  · exact h
  · cases h

end MockExplorer
