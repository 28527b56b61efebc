import MockExplorer.Proofs.Execution.Theorems

/-!
# Runs without inconsistencies

A run whose questions have acceptable answers raises no inconsistency, unless its body makes one up.
-/

namespace MockExplorer

variable {σ : Type}

theorem MockError.severity_eq_fatal {e : MockError} : e.severity = .fatal ↔ (Halt.raised e).isInconsistent = true := by
  cases e <;> simp [MockError.severity, Halt.isInconsistent]

theorem MockError.isInconsistent_outOfScope (missing : String) :
    (Halt.raised (.outOfScope missing)).isInconsistent = false := rfl

/-! ## Statements -/

/-- The statement raises an inconsistency that it made up. -/
def Action.feigns : Action → Bool
  | .fail e => (Halt.raised e).isInconsistent
  | _ => false

theorem Provider.createMock_error {p : Provider} {t : MockTarget} {e : MockError} (h : p.createMock t = .error e) :
    (Halt.raised e).isInconsistent = false := by
  unfold Provider.createMock MockTarget.classify at h
  cases hmechanism : t.mechanismUnder p.config with
  | error o => rw [hmechanism] at h; cases h; rfl
  | ok how => rw [hmechanism] at h; cases h

/-- A statement with acceptable answers raises no inconsistency, unless it makes one up. -/
theorem Action.run_consistent {r : Resolution σ} {model : Model} (hr : r.resolver.AnswersFrom model) {a : Action}
    {x : Execution σ} (hset : a.Settled model x) (ha : a.feigns = false) :
    (a.run r x).2.any Halt.isInconsistent = false := by
  cases hq : a.request? with
  | none =>
      cases a with
      | mock name target =>
          simp only [Action.run]
          cases hcreate : x.provider.createMock target with
          | error e => exact Provider.createMock_error hcreate
          | ok made => dsimp only; split <;> rfl
      | fail e => exact ha
      | invoke | call | view => cases hq
      | _ => rfl
  | some q =>
      -- A call: of the ways that it can go, only an answer that is not accepted is inconsistent.
      obtain ⟨call, hrun, hanswered⟩ := Action.run_request hr hq x
      rw [hrun]
      cases hm : x.scope.mocks.get? q.receiver with
      | none => simp [Execution.callNamed, hm, MockError.isInconsistent_outOfScope]
      | some m =>
          have hcall := hanswered m
          generalize hsig : q.dispatch m = sig at hcall
          generalize hout : call x.calls m = out at hcall
          cases hcall with
          | @refused e he =>
              rw [Execution.callNamed_error hm hout]
              cases e with
              | inconsistent var message => cases he
              | _ => rfl
          | replayed b' hb => rw [Execution.callNamed_ok hm hout]; rfl
          | bound b hask hb hacc => rw [Execution.callNamed_ok hm hout]; rfl
          | inconsistent hask hb hacc => exact absurd (hset _ _ (.fresh hq hm hsig hb)) hacc

/-! ## Bodies -/

section

variable {r : Resolution σ} {x : Execution σ}

theorem resume_consistent {out : Outcome σ} {left : Option (Body × Execution σ)}
    (hout : out.2.any Halt.isInconsistent = false)
    (hleft : ∀ b y, left = some (b, y) → (b.run r y).2.any Halt.isInconsistent = false) :
    (resume r out left).2.any Halt.isInconsistent = false := by
  rcases left with _ | ⟨b, y⟩
  · exact hout
  · exact hleft b y rfl

/-- The statements on the trail raise no inconsistency. -/
def TrailConsistent (r : Resolution σ) (trail : List (Action × Execution σ)) : Prop :=
  ∀ s ∈ trail, (s.1.run r s.2).2.any Halt.isInconsistent = false

theorem TrailConsistent.append {trail rest : List (Action × Execution σ)} (h : TrailConsistent r (trail ++ rest)) :
    TrailConsistent r trail ∧ TrailConsistent r rest :=
  ⟨fun s hs => h s (List.mem_append_left _ hs), fun s hs => h s (List.mem_append_right _ hs)⟩

theorem Body.seq_consistent {a b : Body}
    (ha : TrailConsistent r (a.trail r x) → (a.run r x).2.any Halt.isInconsistent = false)
    (hb : ∀ {y}, TrailConsistent r (b.trail r y) → (b.run r y).2.any Halt.isInconsistent = false)
    (h : TrailConsistent r ((Body.seq a b).trail r x)) :
    ((Body.seq a b).run r x).2.any Halt.isInconsistent = false := by
  rw [Body.trail_seq] at h
  rw [Body.run_seq]
  refine resume_consistent (ha h.append.1) fun b' y hleft => ?_
  have hrest := h.append.2
  rw [hleft] at hrest
  obtain ⟨rfl, _⟩ := Body.onward_eq_some hleft
  exact hb hrest

/-- A run stops with an inconsistency only if one of its statements raises it. -/
theorem Body.run_consistent {b : Body} (h : TrailConsistent r (b.trail r x)) :
    (b.run r x).2.any Halt.isInconsistent = false := by
  induction b generalizing x with
  | skip => rfl
  | seq a b iha ihb => exact Body.seq_consistent iha ihb h
  | act a => exact h (a, x) (List.mem_singleton_self _)
  | branch l value op rhs t e iht ihe =>
      cases hv : x.scope.values.get? value with
      | none => simp [Body.run, hv, MockError.isInconsistent_outOfScope]
      | some v =>
          rcases hz : x.branch l ⟨v, op, rhs⟩ with ⟨outcome, z⟩
          rw [Body.trail_branch t e hv hz] at h
          rw [Body.run_branch t e hv hz]
          cases outcome with
          | true => exact iht h
          | false => exact ihe h
  | times n b ih =>
      induction n generalizing x with
      | zero => rfl
      | succ n ihn =>
          rw [Body.trail_times_succ] at h
          rw [Body.run_times_succ]
          exact Body.seq_consistent ih ihn h
  | attempt b recovery ihb ihrec =>
      rw [Body.trail_attempt] at h
      rw [Body.run_attempt]
      refine resume_consistent (ihb h.append.1) fun b' y hleft => ?_
      have hrest := h.append.2
      rw [hleft] at hrest
      obtain ⟨rfl, _⟩ := Body.rescue_eq_some hleft
      exact ihrec hrest
  | enclosed b ih => exact ih h

/-! ## Inconsistencies that are made up -/

def Body.actions : Body → List Action
  | .skip => []
  | .seq a b => a.actions ++ b.actions
  | .act a => [a]
  | .branch _ _ _ _ t e => t.actions ++ e.actions
  | .times _ b => b.actions
  | .attempt b recovery => b.actions ++ recovery.actions
  | .enclosed b => b.actions

theorem mem_resumeTrail {left : Option (Body × Execution σ)} {s : Action × Execution σ}
    (h : s ∈ resumeTrail r left) : ∃ b y, left = some (b, y) ∧ s ∈ b.trail r y := by
  rcases left with _ | ⟨b, y⟩
  · cases h
  · exact ⟨b, y, rfl, h⟩

theorem Body.trail_seq_actions {a b : Body} {s : Action × Execution σ} (ha : s ∈ a.trail r x → s.1 ∈ a.actions)
    (hb : ∀ {y}, s ∈ b.trail r y → s.1 ∈ b.actions) (hs : s ∈ (Body.seq a b).trail r x) :
    s.1 ∈ a.actions ++ b.actions := by
  rw [Body.trail_seq] at hs
  rcases List.mem_append.1 hs with hfirst | hrest
  · exact List.mem_append_left _ (ha hfirst)
  · obtain ⟨b', y, hleft, hlater⟩ := mem_resumeTrail hrest
    obtain ⟨rfl, _⟩ := Body.onward_eq_some hleft
    exact List.mem_append_right _ (hb hlater)

theorem Body.trail_actions {b : Body} {s : Action × Execution σ} (hs : s ∈ b.trail r x) : s.1 ∈ b.actions := by
  induction b generalizing x with
  | skip => cases hs
  | seq a b iha ihb => exact Body.trail_seq_actions iha ihb hs
  | act a =>
      obtain rfl := List.mem_singleton.1 hs
      exact List.mem_singleton_self _
  | branch l value op rhs t e iht ihe =>
      cases hv : x.scope.values.get? value with
      | none => simp [Body.trail, hv] at hs
      | some v =>
          rcases hz : x.branch l ⟨v, op, rhs⟩ with ⟨outcome, z⟩
          rw [Body.trail_branch t e hv hz] at hs
          cases outcome with
          | true => exact List.mem_append_left _ (iht hs)
          | false => exact List.mem_append_right _ (ihe hs)
  | times n b ih =>
      induction n generalizing x with
      | zero => cases hs
      | succ n ihn =>
          rw [Body.trail_times_succ] at hs
          have hboth := Body.trail_seq_actions (b := .times n b) ih ihn hs
          simpa [Body.actions] using hboth
  | attempt b recovery ihb ihrec =>
      rw [Body.trail_attempt] at hs
      rcases List.mem_append.1 hs with hfirst | hrest
      · exact List.mem_append_left _ (ihb hfirst)
      · obtain ⟨b', y, hleft, hlater⟩ := mem_resumeTrail hrest
        obtain ⟨rfl, _⟩ := Body.rescue_eq_some hleft
        exact List.mem_append_right _ (ihrec hlater)
  | enclosed b ih => exact ih hs

end

variable {b : Body} {config : MockConfig}

/-- No run of the body comes to a statement that makes up an inconsistency. -/
def Body.Candid (b : Body) (config : MockConfig) : Prop :=
  ∀ id m assumptions, ∀ s ∈ b.trailUnder config id m assumptions, s.1.feigns = false

theorem Body.candid_of_actions (h : ∀ a ∈ b.actions, a.feigns = false) (config : MockConfig) : b.Candid config :=
  fun _ _ _ s hs => h s.1 (Body.trail_actions hs)

theorem Body.SettledUnder.consistent {id : UInt64} {m : Model} {assumptions : List Predicate}
    (h : b.SettledUnder config id m assumptions) (hb : b.Candid config) : b.Consistent config id m assumptions :=
  fun s hs => Action.run_consistent (Resolver.answersFrom_ofModel m) (h s.1 s.2 hs) (hb id m assumptions s hs)

theorem Body.execute_error {id : UInt64} {m : Model} {assumptions : List Predicate} {halt : Halt} :
    (b.execute config id m assumptions).result = .error halt ↔
      (b.runUnder config id m assumptions).2 = some halt := by
  unfold Body.execute
  rcases b.runUnder config id m assumptions with ⟨x, _ | halt'⟩ <;> simp

theorem Body.Consistent.execute {id : UInt64} {m : Model} {assumptions : List Predicate}
    (h : b.Consistent config id m assumptions) {halt : Halt}
    (hresult : (b.execute config id m assumptions).result = .error halt) : halt.isInconsistent = false := by
  have hrun : (b.runUnder config id m assumptions).2.any Halt.isInconsistent = false := Body.run_consistent h
  rw [Body.execute_error.1 hresult] at hrun
  exact hrun

end MockExplorer
