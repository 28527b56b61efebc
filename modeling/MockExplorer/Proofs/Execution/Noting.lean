import MockExplorer.Proofs.Execution.Replay

/-!
# What a run asks for

A resolver that notes what it is asked shows the inputs and types that a run under a model asks for. If the
model's values conform to these types, the model settles its run without assumptions.
-/

namespace MockExplorer

/-- Answers from a model and notes the questions, latest first. -/
def Resolver.noting (m : Model) : Resolver (List (SymVar × ValueType)) where
  react asked var ty := .answer (m.resolve var ty) ((var, ty) :: asked)

theorem Resolver.answersFrom_noting (m : Model) : (Resolver.noting m).AnswersFrom m :=
  fun asked var ty => ⟨(var, ty) :: asked, rfl⟩

/-- The inputs that a run under the model asks for, with the types at which it does. -/
def Body.questions (b : Body) (config : MockConfig) (m : Model) : List (SymVar × ValueType) :=
  (b.run { resolver := .noting m } (.start config 0 [] [])).1.calls.resolver

/-! ## Notes only grow -/

section

variable {m : Model} {a : Action} {x : Execution (List (SymVar × ValueType))}

theorem Answered.notes {mock : MockInstance} {c : CallState (List (SymVar × ValueType))}
    {method : Except MockError MethodSig} {out : CallResult (List (SymVar × ValueType)) ConcolicValue}
    (h : Answered (Resolver.noting m) m mock c method out) : c.resolver ⊆ out.2.resolver ∧
      ∀ sig, method = .ok sig → c.provider.bindings.get? (mock.key sig) = none →
        ((mock.key sig).var, sig.returns) ∈ out.2.resolver := by
  cases h with
  | refused he => exact ⟨List.Subset.refl _, fun sig h => by cases h⟩
  | replayed b' hb =>
      refine ⟨List.Subset.refl _, fun sig h hnone => ?_⟩
      cases h
      rw [hb] at hnone
      cases hnone
  | bound b hask hb hacc =>
      cases hask
      refine ⟨List.subset_cons_self .., fun sig h _ => ?_⟩
      cases h
      exact List.mem_cons_self ..
  | inconsistent hask hb hacc =>
      cases hask
      refine ⟨List.subset_cons_self .., fun sig h _ => ?_⟩
      cases h
      exact List.mem_cons_self ..

theorem Execution.calls_callNamed {σ : Type} {x : Execution σ} {name result : String} {mock : MockInstance}
    {call : CallState σ → MockInstance → CallResult σ ConcolicValue}
    (hmock : x.scope.mocks.get? name = some mock) :
    (x.callNamed name call result).1.calls = (call x.calls mock).2 := by
  rcases hout : call x.calls mock with ⟨_ | v, c⟩
  · rw [Execution.callNamed_error hmock hout]
  · rw [Execution.callNamed_ok hmock hout, Execution.write_calls]
    rfl

/-- A statement that calls no mock leaves the state of the resolver alone. -/
theorem Action.resolver_of_no_request {σ : Type} {r : Resolution σ} {a : Action} (ha : a.request? = none)
    (x : Execution σ) : (a.run r x).1.calls.resolver = x.calls.resolver := by
  cases a with
  | mock name target =>
      simp only [Action.run]
      split
      · rfl
      · split
        · rfl
        · rw [Execution.write_calls]
          rfl
  | invoke receiver method args name => cases ha
  | call receiver args name => cases ha
  | view receiver capability arg name => cases ha
  | keep v name => simp only [Action.run, Execution.write_calls]; rfl
  | assertReached l literal => rfl
  | reached site literal => simp only [Action.run, Execution.write_calls]; rfl
  | record clause => rfl
  | fail e => rfl
  | crash => rfl
  | cancel => rfl

theorem Action.notes_grow : x.calls.resolver ⊆ (a.run { resolver := .noting m } x).1.calls.resolver := by
  cases hq : a.request? with
  | none => rw [Action.resolver_of_no_request hq]; exact List.Subset.refl _
  | some q =>
      obtain ⟨call, hrun, hcall⟩ :=
        Action.run_request (r := { resolver := .noting m }) (Resolver.answersFrom_noting m) hq x
      rw [hrun]
      cases hmock : x.scope.mocks.get? q.receiver with
      | none => simp [Execution.callNamed, hmock]
      | some mock => rw [Execution.calls_callNamed hmock]; exact (hcall mock).notes.1

theorem Action.Asks.noted {k : BindingKey} {ty : ValueType} (h : a.Asks x k ty) :
    (k.var, ty) ∈ (a.run { resolver := .noting m } x).1.calls.resolver := by
  cases h with
  | @fresh q mock sig hq hmock hsig hb =>
      obtain ⟨call, hrun, hcall⟩ :=
        Action.run_request (r := { resolver := .noting m }) (Resolver.answersFrom_noting m) hq x
      rw [hrun, Execution.calls_callNamed hmock]
      exact (hcall mock).notes.2 sig hsig hb

theorem Resolver.noting_preserved (m : Model) :
    Preserved { resolver := .noting m } (fun _ => True) (fun c c' => c.resolver ⊆ c'.resolver) where
  refl c := List.Subset.refl _
  trans h h' := List.Subset.trans h h'
  act _ _ := ⟨trivial, Action.notes_grow⟩
  branch {x _ v} l op rhs _ _ := by
    refine ⟨trivial, ?_⟩
    unfold Execution.branch
    cases Condition.taken? ⟨v, op, rhs⟩ <;> exact List.Subset.refl _
  write _ _ := trivial
  enter _ := trivial
  leave _ _ := trivial

end

/-! ## Models that conform -/

/-- A model whose values conform to the types that its run asks for settles the run. -/
theorem Body.settledUnder_of_conforms {b : Body} (hb : b.MockDriven) {config : MockConfig} {m : Model}
    (hconf : ∀ q ∈ b.questions config m, (m.resolve q.1 q.2).conformsTo q.2 = true) (id : UInt64) :
    b.SettledUnder config id m [] := by
  have hm : ({ resolver := .ofModel m } : Resolution Unit).resolver.AnswersFrom m :=
    Resolver.answersFrom_ofModel m
  have hnoting : ({ resolver := .noting m } : Resolution (List (SymVar × ValueType))).resolver.AnswersFrom m :=
    Resolver.answersFrom_noting m
  have hnoted : b.Settled { resolver := .noting m } m (.start config 0 [] []) := by
    intro a x hx k ty hasks
    have hreached := ((Execution.Sound.preserved hnoting.gives).trail hb (.start ..) hx).reached
    have hends := ((Resolver.noting_preserved m).trail hb trivial hx).ends
    refine ⟨hconf _ (hends hasks.noted), fun p hp => ?_⟩
    rw [show x.provider.assumptions = [] from hreached.grown.assumptions] at hp
    cases hp
  -- The run that notes its questions and the run that does not never part, so they ask the same.
  have hsettled : ∀ a (x : Execution (List (SymVar × ValueType))) y,
      (a, x) ∈ b.trail { resolver := .noting m } (.start config 0 [] []) →
      (a, y) ∈ b.trailUnder config id m [] → x.Alike y → a.Settled m y := by
    intro a x y hx hy halike k ty hasks
    obtain ⟨_, hassumed, _⟩ := Body.trailUnder_passes hb hy
    refine ⟨(hnoted a x hx k ty (hasks.alike halike)).conforms, fun p hp => ?_⟩
    rw [hassumed] at hp
    cases hp
  intro a y hy
  have htracks := Body.tracks_of_settled hnoting hm hb (.start ..) (.start ..)
    (.start config 0 id [] [] [] ()) hnoted hsettled
  rcases htracks.way hy with ⟨x, hx, halike⟩ | hparted
  · exact hsettled a x y hx hy halike
  · have hend := ((Execution.Sound.preserved hnoting.gives).run hb (.start config 0 [] [])).kept
    exact absurd hparted (hend.provider.not_parted (Body.trailUnder_passes hb hy).1.provider)

end MockExplorer
