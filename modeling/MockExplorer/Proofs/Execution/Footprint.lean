import MockExplorer.Proofs.Execution.Consistency
import MockExplorer.Proofs.Execution.Noting

/-!
# What a run leaves outside

An execution reports branches and records clauses only at the locations that its body names, cancels the
campaign only by a statement that does, and takes no notice of its number.
-/

namespace MockExplorer

variable {σ : Type} {r : Resolution σ} {b : Body} {x : Execution σ}

/-! ## What statements and branches keep -/

def Body.branchSites : Body → List LocationId
  | .skip => []
  | .seq a b => a.branchSites ++ b.branchSites
  | .act _ => []
  | .branch l _ _ _ t e => l :: (t.branchSites ++ e.branchSites)
  | .times _ b => b.branchSites
  | .attempt b recovery => b.branchSites ++ recovery.branchSites
  | .enclosed b => b.branchSites

/-- A property of executions that the statements and branches of the body keep, and that neither the log nor the
names in scope matter to. -/
structure Body.Keeps (r : Resolution σ) (P : Execution σ → Prop) (b : Body) : Prop where
  act : ∀ a ∈ b.actions, ∀ x, P x → P (a.run r x).1
  branch : ∀ l ∈ b.branchSites, ∀ x c, P x → P (x.branch l c).2
  write : ∀ x e, P x → P (x.write e)
  scope : ∀ x scope silent, P x → P { x with scope, silent }

variable {P : Execution σ → Prop}

theorem Body.Keeps.mono {a : Body} (h : b.Keeps r P) (hactions : a.actions ⊆ b.actions)
    (hsites : a.branchSites ⊆ b.branchSites) : a.Keeps r P :=
  ⟨fun a' ha' => h.act a' (hactions ha'), fun l hl => h.branch l (hsites hl), h.write, h.scope⟩

theorem Body.run_keeps (h : b.Keeps r P) (hx : P x) : P (b.run r x).1 := by
  induction b generalizing x with
  | skip => exact hx
  | seq a b iha ihb =>
      have ha := iha (h.mono (List.subset_append_left ..) (List.subset_append_left ..)) hx
      rw [Body.run_seq]
      rcases hfirst : a.run r x with ⟨y, _ | halt⟩ <;> rw [hfirst] at ha
      · exact ihb (h.mono (List.subset_append_right ..) (List.subset_append_right ..)) ha
      · exact ha
  | act a => exact h.act a (List.mem_singleton_self a) x hx
  | branch l value op rhs t e iht ihe =>
      cases hv : x.scope.values.get? value with
      | none => simpa [Body.run, hv] using hx
      | some v =>
          rcases hz : x.branch l ⟨v, op, rhs⟩ with ⟨outcome, z⟩
          have hbranch := h.branch l (List.mem_cons_self ..) x ⟨v, op, rhs⟩ hx
          rw [hz] at hbranch
          have harm := h.write z (.branched l outcome) hbranch
          rw [Body.run_branch t e hv hz]
          cases outcome with
          | true =>
              exact iht (h.mono (List.subset_append_left ..) fun l hl => by simp [Body.branchSites, hl]) harm
          | false =>
              exact ihe (h.mono (List.subset_append_right ..) fun l hl => by simp [Body.branchSites, hl]) harm
  | times n b ih =>
      have hb : b.Keeps r P := ⟨h.act, h.branch, h.write, h.scope⟩
      induction n generalizing x with
      | zero => exact hx
      | succ n ihn =>
          have hfirst := ih hb hx
          rw [Body.run_times_succ, Body.run_seq]
          rcases hout : b.run r x with ⟨y, _ | halt⟩ <;> rw [hout] at hfirst
          · exact ihn ⟨h.act, h.branch, h.write, h.scope⟩ hfirst
          · exact hfirst
  | attempt b recovery ihb ihrec =>
      have hb := ihb (h.mono (List.subset_append_left ..) (List.subset_append_left ..)) hx
      rw [Body.run_attempt]
      rcases hfirst : b.run r x with ⟨y, _ | ⟨e⟩ | _⟩ <;> rw [hfirst] at hb
      · exact hb
      · exact ihrec (h.mono (List.subset_append_right ..) (List.subset_append_right ..)) (h.write y _ hb)
      · exact hb
  | enclosed b ih =>
      have hinner := ih (h.mono (List.Subset.refl _) (List.Subset.refl _)) (h.scope x {} true hx)
      exact h.scope _ x.scope x.silent hinner

/-! ## Locations and cancellation -/

def Action.site? : Action → Option LocationId
  | .record c => some c.location
  | _ => none

def Body.sites (b : Body) : List LocationId := b.branchSites ++ b.actions.filterMap Action.site?

/-- Every branch that was reported and every clause that was recorded is at one of the locations. -/
structure Execution.Within (sites : List LocationId) (x : Execution σ) : Prop where
  observations : ∀ l outcome, .branch l outcome ∈ x.observations → l ∈ sites
  clauses : ∀ cl ∈ x.provider.path.clauses, cl.location ∈ sites

theorem Execution.Within.same {sites : List LocationId} {y : Execution σ} (hx : x.Within sites)
    (hobservations : y.observations = x.observations)
    (hclauses : y.provider.path.clauses = x.provider.path.clauses) : y.Within sites :=
  ⟨fun l outcome h => hx.observations l outcome (hobservations ▸ h), fun cl h => hx.clauses cl (hclauses ▸ h)⟩

theorem Answered.path {resolver : Resolver σ} {model : Model} {m : MockInstance} {c : CallState σ}
    {method : Except MockError MethodSig} {out : CallResult σ ConcolicValue}
    (h : Answered resolver model m c method out) : out.2.provider.path = c.provider.path := by
  cases h <;> rfl

theorem Execution.callNamed_observations (x : Execution σ) (mock : String)
    (call : CallState σ → MockInstance → CallResult σ ConcolicValue) (name : String) :
    (x.callNamed mock call name).1.observations = x.observations ∧
      (x.callNamed mock call name).1.cancelled = x.cancelled := by
  cases hmock : x.scope.mocks.get? mock with
  | none => simp [callNamed, hmock]
  | some m =>
      rcases hout : call x.calls m with ⟨_ | v, c⟩
      · rw [callNamed_error hmock hout]
        exact ⟨rfl, rfl⟩
      · rw [callNamed_ok hmock hout, write_observations, write_cancelled]
        exact ⟨rfl, rfl⟩

/-- What a statement leaves outside of its own state: no branch, a clause only at its location next to those that are
there, and no wish to cancel unless it says so. -/
structure Action.Discreet (r : Resolution σ) (a : Action) (x : Execution σ) : Prop where
  observations : ∀ l outcome, .branch l outcome ∈ (a.run r x).1.observations → .branch l outcome ∈ x.observations
  clauses : ∀ cl ∈ (a.run r x).1.provider.path.clauses, cl ∈ x.provider.path.clauses ∨ a.site? = some cl.location
  kept : x.provider.path.clauses ⊆ (a.run r x).1.provider.path.clauses
  cancelled : a ≠ .cancel → (a.run r x).1.cancelled = x.cancelled

theorem Action.Discreet.same {a : Action} (hobservations : (a.run r x).1.observations = x.observations)
    (hclauses : (a.run r x).1.provider.path.clauses = x.provider.path.clauses)
    (hcancelled : (a.run r x).1.cancelled = x.cancelled) : a.Discreet r x :=
  ⟨fun _ _ h => hobservations ▸ h, fun _ h => .inl (hclauses ▸ h), fun _ h => hclauses ▸ h, fun _ => hcancelled⟩

theorem Action.discreet_request {model : Model} (hr : r.resolver.AnswersFrom model) {a : Action} {q : Request}
    (hq : a.request? = some q) (x : Execution σ) : a.Discreet r x := by
  obtain ⟨call, hrun, hanswered⟩ := Action.run_request hr hq x
  obtain ⟨hobservations, hcancelled⟩ := x.callNamed_observations q.receiver call q.name
  refine .same (by rw [hrun, hobservations]) ?_ (by rw [hrun, hcancelled])
  cases hmock : x.scope.mocks.get? q.receiver with
  | none => simp [hrun, Execution.callNamed, hmock]
  | some m =>
      have hcalls : (a.run r x).1.calls = (call x.calls m).2 := by rw [hrun, Execution.calls_callNamed hmock]
      rw [Execution.provider, hcalls, (hanswered m).path]
      rfl

theorem Action.discreet {model : Model} (hr : r.resolver.AnswersFrom model) (a : Action) (x : Execution σ) :
    a.Discreet r x := by
  cases a with
  | mock name target =>
      cases hcreate : x.provider.createMock target with
      | error e =>
          have hrun : (Action.mock name target).run r x = (x, some (.raised e)) := by simp [Action.run, hcreate]
          exact .same (by rw [hrun]) (by rw [hrun]) (by rw [hrun])
      | ok created =>
          obtain ⟨m, p⟩ := created
          obtain ⟨_, _, _, _, _, _, hclauses, _⟩ := Provider.createMock_spec hcreate
          by_cases hslot : p.nextSlot = 0
          · have hrun : (Action.mock name target).run r x = (x, some .crashed) := by simp [Action.run, hcreate, hslot]
            exact .same (by rw [hrun]) (by rw [hrun]) (by rw [hrun])
          · have hrun : (Action.mock name target).run r x =
                (((x.withProvider p).keepMock name m).write (.created m), none) := by
              simp [Action.run, hcreate, hslot]
            refine .same ?_ ?_ ?_
            · rw [hrun, Execution.write_observations]
              rfl
            · rw [hrun, Execution.write_provider]
              exact hclauses
            · rw [hrun, Execution.write_cancelled]
              rfl
  | invoke receiver method args name => exact discreet_request hr rfl x
  | call receiver args name => exact discreet_request hr rfl x
  | view receiver capability arg name => exact discreet_request hr rfl x
  | keep v name =>
      refine .same (Execution.write_observations ..) ?_ (Execution.write_cancelled ..)
      rw [Action.run, Execution.write_provider]
      rfl
  | assertReached l literal =>
      refine ⟨fun l outcome h => ?_, fun _ h => .inl h, List.Subset.refl _, fun _ => rfl⟩
      simpa [Action.run, Execution.assertReached, Execution.observe] using h
  | reached site literal =>
      refine ⟨fun l outcome h => ?_, fun cl h => ?_, fun cl h => ?_, fun _ => Execution.write_cancelled ..⟩
      · rw [Action.run, Execution.write_observations] at h
        simpa [Execution.observe] using h
      · rw [Action.run, Execution.write_provider] at h
        exact .inl h
      · rw [Action.run, Execution.write_provider]
        exact h
  | record clause =>
      refine ⟨fun _ _ h => h, fun cl h => ?_, List.subset_append_left _ _, fun _ => rfl⟩
      rcases List.mem_append.1 h with hold | hnew
      · exact .inl hold
      · exact .inr (by rw [List.mem_singleton.1 hnew]; rfl)
  | fail e => exact .same rfl rfl rfl
  | crash => exact .same rfl rfl rfl
  | cancel => exact ⟨fun _ _ h => h, fun _ h => .inl h, List.Subset.refl _, fun h => absurd rfl h⟩

variable (config : MockConfig) (id : UInt64) (m : Model) (assumptions : List Predicate)

theorem Body.runUnder_within (b : Body) : (b.runUnder config id m assumptions).1.Within b.sites := by
  refine Body.run_keeps (P := Execution.Within b.sites) ⟨fun a ha x hx => ?_, fun l hl x c hx => ?_,
    fun x e hx => hx.same (by simp) (by simp), fun x scope silent hx => hx.same rfl rfl⟩
    ⟨fun l outcome h => by (cases h), fun cl h => by (cases h)⟩
  · have hdiscreet := a.discreet (r := { resolver := .ofModel m }) (Resolver.answersFrom_ofModel m) x
    refine ⟨fun l outcome h => hx.observations l outcome (hdiscreet.observations l outcome h), fun cl h => ?_⟩
    rcases hdiscreet.clauses cl h with hold | hsite
    · exact hx.clauses cl hold
    · exact List.mem_append_right _ (List.mem_filterMap.2 ⟨a, ha, hsite⟩)
  · have hsite : l ∈ b.sites := List.mem_append_left _ hl
    refine ⟨fun l' outcome h => ?_, fun cl h => ?_⟩
    · rw [Execution.branch_observations] at h
      rcases List.mem_cons.1 h with heq | hold
      · cases heq
        exact hsite
      · exact hx.observations l' outcome hold
    · rw [Execution.branch_provider] at h
      cases htaken : c.taken? with
      | none =>
          rw [htaken] at h
          exact hx.clauses cl h
      | some p =>
          rw [htaken] at h
          rcases List.mem_append.1 h with hold | hnew
          · exact hx.clauses cl hold
          · rw [List.mem_singleton.1 hnew]
            exact hsite

theorem Body.runUnder_cancelled (hb : .cancel ∉ b.actions) :
    (b.runUnder config id m assumptions).1.cancelled = false := by
  refine Body.run_keeps (P := fun x => x.cancelled = false) ⟨fun a ha x hx => ?_, fun l hl x c hx => ?_,
    fun x e hx => by rw [Execution.write_cancelled]; exact hx, fun x scope silent hx => hx⟩ rfl
  · have hdiscreet := a.discreet (r := { resolver := .ofModel m }) (Resolver.answersFrom_ofModel m) x
    rw [hdiscreet.cancelled fun h => hb (h ▸ ha)]
    exact hx
  · unfold Execution.branch
    cases c.taken? <;> exact hx

/-! ## Numbers of executions -/

def Execution.renumber (id : UInt64) (x : Execution σ) : Execution σ := { x with id }

theorem Execution.renumber_write (id : UInt64) (x : Execution σ) (e : LogEntry) :
    (x.renumber id).write e = (x.write e).renumber id := by
  unfold write
  cases h : x.silent <;> simp [renumber, h]

theorem Execution.renumber_callNamed (id : UInt64) (x : Execution σ) (mock : String)
    (call : CallState σ → MockInstance → CallResult σ ConcolicValue) (name : String) :
    (x.renumber id).callNamed mock call name =
      ((x.callNamed mock call name).1.renumber id, (x.callNamed mock call name).2) :=
  callNamed_comm (g := fun c => c) mock name rfl rfl (fun _ _ => rfl) (fun _ => rfl) (renumber_write id) fun _ => rfl

theorem Action.run_renumber (r : Resolution σ) (a : Action) (id : UInt64) (x : Execution σ) :
    a.run r (x.renumber id) = ((a.run r x).1.renumber id, (a.run r x).2) := by
  cases a with
  | mock name target =>
      simp only [Action.run, show (x.renumber id).provider = x.provider from rfl]
      cases x.provider.createMock target with
      | error e => rfl
      | ok created =>
          by_cases hslot : created.2.nextSlot = 0
          · simp [hslot]
          · simp only [hslot, ↓reduceIte, ← Execution.renumber_write]
            rfl
  | invoke receiver method args name => simp only [Action.run]; exact Execution.renumber_callNamed ..
  | call receiver args name => simp only [Action.run]; exact Execution.renumber_callNamed ..
  | view receiver capability arg name => simp only [Action.run]; exact Execution.renumber_callNamed ..
  | keep v name => simp only [Action.run, ← Execution.renumber_write]; rfl
  | reached site literal => simp only [Action.run, ← Execution.renumber_write]; rfl
  | _ => rfl

theorem Execution.carries_renumber (r : Resolution σ) (id : UInt64) :
    Carries r (fun (_ : List Unit) (x : Execution σ) => x.renumber id) (fun _ _ => []) fun _ _ => [] where
  act a _ x := a.run_renumber r id x
  branch _ x l c := by
    unfold Execution.branch
    cases c.taken? <;> rfl
  write _ x e := x.renumber_write id e
  names _ _ := ⟨rfl, rfl⟩
  rename _ _ _ _ := rfl

theorem Body.run_renumber (r : Resolution σ) (b : Body) (id : UInt64) (x : Execution σ) :
    b.run r (x.renumber id) = ((b.run r x).1.renumber id, (b.run r x).2) :=
  (Execution.carries_renumber r id).run b [] x

def Trace.unnumbered (t : Trace) : Trace := { t with id := 0 }

def Run.unnumbered (r : Run) : Run := { r with result := r.result.map Trace.unnumbered }

theorem Body.execute_unnumbered (b : Body) (config : MockConfig) (id id' : UInt64) (m : Model)
    (assumptions : List Predicate) :
    (b.execute config id m assumptions).unnumbered = (b.execute config id' m assumptions).unnumbered := by
  have hstart : b.runUnder config id m assumptions =
      ((b.runUnder config id' m assumptions).1.renumber id, (b.runUnder config id' m assumptions).2) :=
    Body.run_renumber { resolver := .ofModel m } b id (.start config id' assumptions ())
  unfold Body.execute
  rw [hstart]
  rcases b.runUnder config id' m assumptions with ⟨y, _ | halt⟩ <;> rfl

end MockExplorer
