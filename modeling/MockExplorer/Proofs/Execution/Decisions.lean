import MockExplorer.Proofs.Execution.Course
import MockExplorer.Proofs.Execution.Footprint

/-!
# Branches on variables

A branch that is decided on a value with a variable leaves a clause at the location where it is reported. All
branches are of that kind in a body that keeps no other values than those that mocks return and those that it makes
up with a variable.
-/

namespace MockExplorer

variable {σ : Type} {r : Resolution σ} {x : Execution σ} {b : Body} {config : MockConfig}

/-- Whether what happens is other than a branch on a value without a variable. -/
def Occurrence.symbolic : Occurrence → Bool
  | .event _ => true
  | .decided _ c => c.lhs.var.isSome

/-- Under every model, all branches are decided on values that carry a variable. -/
def Body.BranchesOnVariables (config : MockConfig) (b : Body) : Prop :=
  ∀ id m assumptions, ∀ i ∈ b.course { resolver := .ofModel m } (.start config id assumptions ()),
    i.occurrence.symbolic = true

/-! ## Branches and clauses -/

/-- Every branch that was reported has left a clause. -/
def Execution.Located (x : Execution σ) : Prop :=
  ∀ l outcome, .branch l outcome ∈ x.observations → ∃ cl ∈ x.provider.path.clauses, cl.location = l

theorem Execution.Located.same {y : Execution σ} (hx : x.Located) (hobservations : y.observations = x.observations)
    (hclauses : y.provider.path.clauses = x.provider.path.clauses) : y.Located := by
  intro l outcome h
  rw [hobservations] at h
  rw [hclauses]
  exact hx l outcome h

theorem Execution.Located.act {model : Model} (hr : r.resolver.AnswersFrom model) (hx : x.Located) (a : Action) :
    (a.run r x).1.Located := by
  intro l outcome h
  have hdiscreet := a.discreet hr x
  obtain ⟨cl, hcl, hl⟩ := hx l outcome (hdiscreet.observations l outcome h)
  exact ⟨cl, hdiscreet.kept hcl, hl⟩

theorem Execution.Located.branch (hx : x.Located) (l : LocationId) {c : Condition} (hc : c.lhs.var.isSome = true) :
    (x.branch l c).2.Located := by
  obtain ⟨p, hp⟩ : ∃ p, c.taken? = some p := by
    apply Option.isSome_iff_exists.1
    simpa [Condition.taken?] using hc
  have hclauses : (x.branch l c).2.provider.path.clauses = x.provider.path.clauses ++ [⟨l, p⟩] := by
    rw [Execution.branch_provider, hp]
    rfl
  intro l' outcome h
  rw [Execution.branch_observations] at h
  rw [hclauses]
  rcases List.mem_cons.1 h with hnew | hold
  · cases hnew
    exact ⟨⟨l, p⟩, by simp, rfl⟩
  · obtain ⟨cl, hcl, hl'⟩ := hx l' outcome hold
    exact ⟨cl, List.mem_append_left _ hcl, hl'⟩

theorem Body.runUnder_located (hb : b.BranchesOnVariables config) (id : UInt64) (m : Model)
    (assumptions : List Predicate) : (b.runUnder config id m assumptions).1.Located := by
  have hlinks : b.Links { resolver := .ofModel m } fun x course y =>
      (∀ i ∈ course, i.occurrence.symbolic = true) → x.Located → y.Located := by
    constructor
    case same => exact fun x _ hx => hx
    case append =>
      intro x y z course course' hxy hyz hcourse hx
      obtain ⟨hfirst, hrest⟩ := List.forall_mem_append.1 hcourse
      exact hyz hrest (hxy hfirst hx)
    case write => exact fun x e _ hx => hx.same (by simp) (by simp)
    case act => exact fun a _ x _ hx => hx.act (Resolver.answersFrom_ofModel m) a
    case branch =>
      intro x z value v l op rhs outcome _ hz hcourse hx
      have hlocated := hx.branch l (hcourse _ (List.mem_singleton_self _))
      rwa [hz] at hlocated
    case enclosed => exact fun h hcourse hx => (h hcourse (hx.same rfl rfl)).same rfl rfl
  exact hlinks.run _ (hb id m assumptions) fun l outcome h => by cases h

/-! ## Values with variables -/

/-- Whether the statement makes up no value without a variable. -/
def Action.keepsVariables : Action → Bool
  | .keep v _ => v.var.isSome
  | _ => true

def Execution.Symbolic (x : Execution σ) : Prop :=
  ∀ name v, x.scope.values.get? name = some v → v.var.isSome = true

theorem Execution.Symbolic.same {y : Execution σ} (hx : x.Symbolic) (h : y.scope.values = x.scope.values) :
    y.Symbolic := by
  intro name v hv
  rw [h] at hv
  exact hx name v hv

theorem Execution.Symbolic.keepValue (hx : x.Symbolic) (name : String) {v : ConcolicValue}
    (hv : v.var.isSome = true) : (x.keepValue name v).Symbolic := by
  intro name' v' h
  rw [Execution.get?_keepValue] at h
  split at h
  · cases h
    exact hv
  · exact hx name' v' h

theorem Answered.symbolic {resolver : Resolver σ} {model : Model} {m : MockInstance} {c c' : CallState σ}
    {method : Except MockError MethodSig} {v : ConcolicValue}
    (h : Answered resolver model m c method (.ok v, c')) : v.var.isSome = true := by
  cases h <;> rfl

theorem Execution.Symbolic.request {model : Model} (hr : r.resolver.AnswersFrom model) (hx : x.Symbolic) {a : Action}
    {q : Request} (hq : a.request? = some q) : (a.run r x).1.Symbolic := by
  obtain ⟨call, hrun, hanswered⟩ := Action.run_request hr hq x
  rw [hrun]
  cases hmock : x.scope.mocks.get? q.receiver with
  | none => simpa [Execution.callNamed, hmock] using hx
  | some m =>
      have hcall := hanswered m
      rcases hout : call x.calls m with ⟨_ | v, c⟩
      · rw [Execution.callNamed_error hmock hout]
        exact hx.same rfl
      · rw [hout] at hcall
        rw [Execution.callNamed_ok hmock hout]
        have hkept := (hx.same (y := { x with calls := c }) rfl).keepValue q.name hcall.symbolic
        exact hkept.same (by simp)

theorem Execution.Symbolic.act {model : Model} (hr : r.resolver.AnswersFrom model) (hx : x.Symbolic) {a : Action}
    (ha : a.keepsVariables = true) : (a.run r x).1.Symbolic := by
  cases a with
  | mock name target =>
      cases hcreate : x.provider.createMock target with
      | error e => simpa [Action.run, hcreate] using hx
      | ok created =>
          by_cases hslot : created.2.nextSlot = 0
          · simpa [Action.run, hcreate, hslot] using hx
          · apply hx.same
            simp [Action.run, hcreate, hslot, Execution.keepMock, Execution.withProvider]
  | invoke receiver method args name => exact hx.request hr rfl
  | call receiver args name => exact hx.request hr rfl
  | view receiver capability arg name => exact hx.request hr rfl
  | keep v name => exact (hx.keepValue name ha).same (by simp [Action.run])
  | reached site literal => exact hx.same (by simp [Action.run, Execution.observe])
  | _ => exact hx.same rfl

/-- A body that makes up no value without a variable branches on variables alone. -/
theorem Body.branchesOnVariables_of_actions (hb : ∀ a ∈ b.actions, a.keepsVariables = true) (config : MockConfig) :
    b.BranchesOnVariables config := by
  intro id m assumptions
  have hlinks : b.Links { resolver := .ofModel m } fun x course y =>
      x.Symbolic → (∀ i ∈ course, i.occurrence.symbolic = true) ∧ y.Symbolic := by
    constructor
    case same => exact fun x hx => ⟨by simp, hx⟩
    case append =>
      intro x y z course course' hxy hyz hx
      obtain ⟨hfirst, hy⟩ := hxy hx
      obtain ⟨hrest, hz⟩ := hyz hy
      exact ⟨List.forall_mem_append.2 ⟨hfirst, hrest⟩, hz⟩
    case write => exact fun x e hx => ⟨by simp, hx.same (by simp)⟩
    case act =>
      intro a ha x hx
      refine ⟨fun i hi => ?_, hx.act (Resolver.answersFrom_ofModel m) (hb a ha)⟩
      obtain ⟨moment, _, rfl⟩ := List.mem_map.1 hi
      rfl
    case branch =>
      intro x z value v l op rhs outcome hv hz hx
      have hscope := x.branch_scope l ⟨v, op, rhs⟩
      rw [hz] at hscope
      exact ⟨List.forall_mem_singleton.2 (hx value v hv), hx.same (by rw [hscope])⟩
    case enclosed =>
      intro x course y h hx
      obtain ⟨hcourse, _⟩ := h fun name v hv => by cases hv
      exact ⟨hcourse, hx.same rfl⟩
  exact (hlinks.run _ fun name v hv => by cases hv).1

end MockExplorer
