import MockExplorer.Proofs.Execution.Question

/-!
# Two runs of one body

Two runs under different models do the same until a branch on an input takes different arms. Up to there
their states differ only in the values of inputs. From there on one path has a clause where the other has
its negation.
-/

namespace MockExplorer

variable {σ τ : Type}

/-! ## Where two paths part -/

/-- The other outcome of the same branch. -/
def Clause.negate (c : Clause) : Clause := ⟨c.location, c.predicate.negate⟩

/-- The paths have the same clauses up to one that is negated in the second path. -/
structure PartsAt (before : List Clause) (c : Clause) (l l' : List Clause) : Prop where
  left : before ++ [c] <+: l
  right : before ++ [c.negate] <+: l'

def Parted (l l' : List Clause) : Prop := ∃ before c, PartsAt before c l l'

theorem Parted.mono {l l' k k' : List Clause} (h : Parted l l') (hl : l <+: k) (hl' : l' <+: k') :
    Parted k k' := by
  obtain ⟨before, c, hleft, hright⟩ := h
  exact ⟨before, c, hleft.trans hl, hright.trans hl'⟩

/-! ## States that differ in the values of inputs -/

structure ConcolicValue.Alike (v w : ConcolicValue) : Prop where
  ty : v.ty = w.ty
  var : v.var = w.var
  concrete : v.var = none → v.value = w.value

theorem ConcolicValue.Alike.refl (v : ConcolicValue) : v.Alike v := ⟨rfl, rfl, fun _ => rfl⟩

structure Provider.Alike (p q : Provider) : Prop where
  config : p.config = q.config
  path : p.path = q.path
  nextSlot : p.nextSlot = q.nextSlot
  bindings : ∀ k, (p.bindings.get? k).isSome = (q.bindings.get? k).isSome

structure Execution.Alike (x : Execution σ) (y : Execution τ) : Prop where
  provider : x.provider.Alike y.provider
  mocks : x.scope.mocks = y.scope.mocks
  values : ∀ name, Option.Rel ConcolicValue.Alike (x.scope.values.get? name) (y.scope.values.get? name)
  observations : x.observations = y.observations

theorem Execution.Alike.start (config : MockConfig) (id id' : UInt64) (assumptions assumptions' : List Predicate)
    (state : σ) (state' : τ) :
    (Execution.start config id assumptions state).Alike (Execution.start config id' assumptions' state') where
  provider := ⟨rfl, rfl, rfl, fun _ => rfl⟩
  mocks := rfl
  values _ := .none
  observations := rfl

theorem Provider.Alike.insert {p q : Provider} (h : p.Alike q) (k : BindingKey) (b b' : Binding) :
    Provider.Alike { p with bindings := p.bindings.insert k b } { q with bindings := q.bindings.insert k b' } where
  config := h.config
  path := h.path
  nextSlot := h.nextSlot
  bindings k' := by
    simp only [SortedMap.get?_insert]
    split
    · rfl
    · exact h.bindings k'

theorem Provider.Alike.record {p q : Provider} (h : p.Alike q) (c : Clause) : (p.record c).Alike (q.record c) where
  config := h.config
  path := by simp [Provider.record, Provider.note, h.path]
  nextSlot := h.nextSlot
  bindings := h.bindings

/-- Registering methods leaves alike providers alike. -/
theorem Provider.Alike.registerAll {p q : Provider} (h : p.Alike q) (slot : UInt32) (ms : List MethodSig) :
    (p.registerAll slot ms).Alike (q.registerAll slot ms) := by
  induction ms generalizing p q with
  | nil => exact h
  | cons m ms ih =>
      refine ih (p := p.registerInput (.forCall slot m.name) m.returns)
        (q := q.registerInput (.forCall slot m.name) m.returns) ⟨h.config, ?_, h.nextSlot, h.bindings⟩
      simp [Provider.registerInput, Provider.note, h.path]

/-- Alike providers refuse the same targets and hand out the same mocks. -/
theorem Provider.Alike.createMock {p q : Provider} (h : p.Alike q) (t : MockTarget) :
    (∃ e, p.createMock t = .error e ∧ q.createMock t = .error e) ∨
      ∃ m p' q', p.createMock t = .ok (m, p') ∧ q.createMock t = .ok (m, q') ∧ p'.Alike q' := by
  unfold Provider.createMock
  rw [h.config, h.nextSlot]
  cases t.classify q.config with
  | error e => exact .inl ⟨e, rfl, rfl⟩
  | ok how =>
      refine .inr ⟨_, _, _, rfl, rfl, Provider.Alike.registerAll ?_ q.nextSlot t.interceptable⟩
      exact ⟨rfl, h.path, rfl, h.bindings⟩

/-! ## One statement -/

namespace Execution

variable {x : Execution σ} {y : Execution τ}

/-- A step that keeps the names in scope needs a look at the provider and the reports only. -/
theorem Alike.onward (h : x.Alike y) {x' : Execution σ} {y' : Execution τ}
    (hprovider : x'.provider.Alike y'.provider) (hscope : x'.scope = x.scope) (hscope' : y'.scope = y.scope)
    (hobserved : x'.observations = y'.observations) : x'.Alike y' where
  provider := hprovider
  mocks := by rw [hscope, hscope', h.mocks]
  values := by rw [hscope, hscope']; exact h.values
  observations := hobserved

theorem Alike.write (h : x.Alike y) (e e' : LogEntry) : (x.write e).Alike (y.write e') :=
  h.onward (by simpa using h.provider) (by simp) (by simp) (by simpa using h.observations)

theorem Alike.observe (h : x.Alike y) (o : Observation) : (x.observe o).Alike (y.observe o) :=
  h.onward h.provider rfl rfl (congrArg (o :: ·) h.observations)

theorem Alike.withCalls (h : x.Alike y) {c : CallState σ} {d : CallState τ} (hc : c.provider.Alike d.provider) :
    Execution.Alike { x with calls := c } { y with calls := d } :=
  h.onward hc rfl rfl h.observations

theorem Alike.keepValue (h : x.Alike y) (name : String) {v w : ConcolicValue} (hv : v.Alike w) :
    (x.keepValue name v).Alike (y.keepValue name w) where
  provider := h.provider
  mocks := h.mocks
  values name' := by
    rw [get?_keepValue, get?_keepValue]
    split
    · exact .some hv
    · exact h.values name'
  observations := h.observations

theorem Alike.keepMock (h : x.Alike y) (name : String) (m : MockInstance) :
    (x.keepMock name m).Alike (y.keepMock name m) where
  provider := h.provider
  mocks := by simp [Execution.keepMock, h.mocks]
  values := h.values
  observations := h.observations

end Execution

/-- In alike states a statement asks the same questions. -/
theorem Action.Asks.alike {a : Action} {x : Execution σ} {y : Execution τ} {k : BindingKey} {ty : ValueType}
    (h : a.Asks y k ty) (halike : x.Alike y) : a.Asks x k ty := by
  cases h with
  | @fresh q m sig hq hm hsig hb =>
      refine .fresh hq (halike.mocks ▸ hm) hsig ?_
      have hbound := halike.provider.bindings (m.key sig)
      rw [hb, Option.isSome_none] at hbound
      exact Option.not_isSome_iff_eq_none.1 (by simp [hbound])

/-- Two runs of a statement stopped for the same reason or not at all, in alike states. -/
structure Agree (out : Outcome σ) (out' : Outcome τ) : Prop where
  alike : out.1.Alike out'.1
  halt : out.2 = out'.2

section Calls

variable {R R' : SymVar → ValueType → Value → Prop} {model model' : Model}

theorem Answered.agree {r : Resolver σ} {r' : Resolver τ} {m : MockInstance} {c : CallState σ} {d : CallState τ}
    {method : Except MockError MethodSig} {out : CallResult σ ConcolicValue} {out' : CallResult τ ConcolicValue}
    (h : Answered r model m c method out) (h' : Answered r' model' m d method out')
    (halike : c.provider.Alike d.provider) (hc : c.provider.Sound R) (hd : d.provider.Sound R')
    (hacc : ∀ sig, method = .ok sig → c.provider.bindings.get? (m.key sig) = none →
      c.provider.Accepts (m.key sig).var sig.returns (model.resolve (m.key sig).var sig.returns))
    (hacc' : ∀ sig, method = .ok sig → d.provider.bindings.get? (m.key sig) = none →
      d.provider.Accepts (m.key sig).var sig.returns (model'.resolve (m.key sig).var sig.returns)) :
    out.2.provider.Alike out'.2.provider ∧
      ((∃ e, out.1 = .error e ∧ out'.1 = .error e) ∨ ∃ v w, out.1 = .ok v ∧ out'.1 = .ok w ∧ v.Alike w) := by
  -- A method is bound in both runs or in neither, so a call is replayed in both or asks in both.
  cases h with
  | refused he =>
      cases h'
      exact ⟨halike, .inl ⟨_, rfl, rfl⟩⟩
  | @replayed sig b b' hb =>
      have hbound := halike.bindings (m.key sig)
      cases h' with
      | @replayed _ b₂ b₂' hb₂ =>
          refine ⟨halike.insert _ _ _, .inr ⟨_, _, rfl, rfl, ⟨rfl, ?_, fun hvar => by cases hvar⟩⟩⟩
          rw [(hc.bound hb).1, (hd.bound hb₂).1]
      | bound b₂ hask hb₂ hacc₂ => rw [hb, hb₂] at hbound; cases hbound
      | inconsistent hask hb₂ hbad => exact absurd (hacc' sig rfl hb₂) hbad
  | @bound sig state b hask hb hacc₁ =>
      have hbound := halike.bindings (m.key sig)
      cases h' with
      | replayed b₂' hb₂ => rw [hb, hb₂] at hbound; cases hbound
      | bound b₂ hask₂ hb₂ hacc₂ =>
          exact ⟨halike.insert _ _ _, .inr ⟨_, _, rfl, rfl, ⟨rfl, rfl, fun hvar => by cases hvar⟩⟩⟩
      | inconsistent hask₂ hb₂ hbad => exact absurd (hacc' sig rfl hb₂) hbad
  | @inconsistent sig state message hask hb hbad => exact absurd (hacc sig rfl hb) hbad

/-- A call whose questions have acceptable answers in both runs does the same in both. -/
theorem Action.agree_of_request {r : Resolution σ} {r' : Resolution τ} (hr : r.resolver.AnswersFrom model)
    (hr' : r'.resolver.AnswersFrom model') {a : Action} {q : Request} (hq : a.request? = some q)
    {x : Execution σ} {y : Execution τ} (halike : x.Alike y) (hx : x.Sound R) (hy : y.Sound R')
    (hset : a.Settled model x) (hset' : a.Settled model' y) : Agree (a.run r x) (a.run r' y) := by
  obtain ⟨call, hrun, hcall⟩ := Action.run_request hr hq x
  obtain ⟨call', hrun', hcall'⟩ := Action.run_request hr' hq y
  rw [hrun, hrun']
  cases hm : x.scope.mocks.get? q.receiver with
  | none =>
      have hm' : y.scope.mocks.get? q.receiver = none := by rw [← halike.mocks, hm]
      simp only [Execution.callNamed, hm, hm']
      exact ⟨halike, rfl⟩
  | some m =>
      have hm' : y.scope.mocks.get? q.receiver = some m := by rw [← halike.mocks, hm]
      obtain ⟨hproviders, hresults⟩ := (hcall m).agree (hcall' m) halike.provider hx.provider hy.provider
        (fun sig hsig hb => hset _ _ (.fresh hq hm hsig hb)) (fun sig hsig hb => hset' _ _ (.fresh hq hm' hsig hb))
      rcases hout : call x.calls m with ⟨result, c⟩
      rcases hout' : call' y.calls m with ⟨result', d⟩
      rw [hout, hout'] at hproviders hresults
      rcases hresults with ⟨e, rfl, rfl⟩ | ⟨v, w, rfl, rfl, hvw⟩
      · rw [Execution.callNamed_error hm hout, Execution.callNamed_error hm' hout']
        exact ⟨halike.withCalls hproviders, rfl⟩
      · rw [Execution.callNamed_ok hm hout, Execution.callNamed_ok hm' hout']
        exact ⟨((halike.withCalls hproviders).keepValue q.name hvw).write _ _, rfl⟩

theorem Action.agree {r : Resolution σ} {r' : Resolution τ} (hr : r.resolver.AnswersFrom model)
    (hr' : r'.resolver.AnswersFrom model') {a : Action} (ha : a.MockDriven) {x : Execution σ} {y : Execution τ}
    (halike : x.Alike y) (hx : x.Sound R) (hy : y.Sound R') (hset : a.Settled model x)
    (hset' : a.Settled model' y) : Agree (a.run r x) (a.run r' y) := by
  cases a with
  | mock name target =>
      simp only [Action.run]
      rcases halike.provider.createMock target with ⟨e, he, he'⟩ | ⟨m, p, q, hp, hq, hpq⟩
      · rw [he, he']
        exact ⟨halike, rfl⟩
      · rw [hp, hq]
        simp only [hpq.nextSlot]
        split
        · exact ⟨halike, rfl⟩
        · have hwith : (x.withProvider p).Alike (y.withProvider q) :=
            halike.onward hpq rfl rfl halike.observations
          exact ⟨(hwith.keepMock name m).write _ _, rfl⟩
  | invoke receiver method args name =>
      exact Action.agree_of_request hr hr' rfl halike hx hy hset hset'
  | call receiver args name => exact Action.agree_of_request hr hr' rfl halike hx hy hset hset'
  | view receiver capability arg name => exact Action.agree_of_request hr hr' rfl halike hx hy hset hset'
  | keep v name => exact ⟨(halike.keepValue name (.refl v)).write _ _, rfl⟩
  | assertReached l literal =>
      have hcounted : Execution.Alike { x with assertions := x.assertions + 1 }
          { y with assertions := y.assertions + 1 } := halike.onward halike.provider rfl rfl halike.observations
      exact ⟨hcounted.observe (.tag l literal), rfl⟩
  | reached site literal => exact ⟨(halike.observe (.tag site.location literal)).write _ _, rfl⟩
  | record clause => exact ha.elim
  | fail e => exact ⟨halike, rfl⟩
  | crash => exact ⟨halike, rfl⟩
  | cancel => exact ⟨halike.onward halike.provider rfl rfl halike.observations, rfl⟩

end Calls

/-! ## One branch -/

theorem Condition.evaluate_of_concrete {v w : ConcolicValue} (h : v.Alike w) (hvar : v.var = none) (op : CmpOp)
    (rhs : Int64) : Condition.evaluate ⟨v, op, rhs⟩ = Condition.evaluate ⟨w, op, rhs⟩ := by
  simp [Condition.evaluate, h.concrete hvar]

theorem Condition.taken?_of_evaluate {v w : ConcolicValue} (h : v.Alike w) {op : CmpOp} {rhs : Int64}
    (heval : Condition.evaluate ⟨v, op, rhs⟩ = Condition.evaluate ⟨w, op, rhs⟩) :
    Condition.taken? ⟨v, op, rhs⟩ = Condition.taken? ⟨w, op, rhs⟩ := by
  simp [Condition.taken?, heval, h.var, h.ty]

/-- When the outcomes differ, the predicate that held in one run is the negation of the other run's. -/
theorem Condition.taken?_of_not_evaluate {v w : ConcolicValue} (h : v.Alike w) {op : CmpOp} {rhs : Int64}
    {p : Predicate} (hp : Condition.taken? ⟨v, op, rhs⟩ = some p)
    (heval : Condition.evaluate ⟨w, op, rhs⟩ = !Condition.evaluate ⟨v, op, rhs⟩) :
    Condition.taken? ⟨w, op, rhs⟩ = some p.negate := by
  obtain ⟨var, hvar, rfl⟩ := Option.map_eq_some_iff.1 hp
  have hvar' : w.var = some var := by rw [← h.var]; exact hvar
  cases hv : Condition.evaluate ⟨v, op, rhs⟩ <;>
    simp [Condition.taken?, hvar', heval, hv, Predicate.negate, h.ty]

theorem Execution.Alike.branch {x : Execution σ} {y : Execution τ} (h : x.Alike y) {v w : ConcolicValue}
    (hv : v.Alike w) (l : LocationId) (op : CmpOp) (rhs : Int64) :
    ((x.branch l ⟨v, op, rhs⟩).1 = (y.branch l ⟨w, op, rhs⟩).1 ∧
        (x.branch l ⟨v, op, rhs⟩).2.Alike (y.branch l ⟨w, op, rhs⟩).2) ∨
      Parted (x.branch l ⟨v, op, rhs⟩).2.provider.path.clauses
        (y.branch l ⟨w, op, rhs⟩).2.provider.path.clauses := by
  by_cases heval : Condition.evaluate ⟨v, op, rhs⟩ = Condition.evaluate ⟨w, op, rhs⟩
  · left
    refine ⟨heval, h.onward ?_ (by simp) (by simp) (by simp [heval, h.observations])⟩
    rw [Execution.branch_provider, Execution.branch_provider, Condition.taken?_of_evaluate hv heval]
    cases Condition.taken? ⟨w, op, rhs⟩ with
    | none => exact h.provider
    | some p => exact h.provider.record ⟨l, p⟩
  · right
    have hnot : Condition.evaluate ⟨w, op, rhs⟩ = !Condition.evaluate ⟨v, op, rhs⟩ := by
      revert heval
      cases Condition.evaluate ⟨v, op, rhs⟩ <;> cases Condition.evaluate ⟨w, op, rhs⟩ <;> simp
    cases htaken : Condition.taken? ⟨v, op, rhs⟩ with
    | none =>
        have hvar : v.var = none := by simpa [Condition.taken?] using htaken
        exact absurd (Condition.evaluate_of_concrete hv hvar op rhs) heval
    | some p =>
        have htaken' := Condition.taken?_of_not_evaluate hv htaken hnot
        refine ⟨x.provider.path.clauses, ⟨l, p⟩, ?_, ?_⟩
        · rw [Execution.branch_provider, htaken]
          exact List.prefix_rfl
        · rw [Execution.branch_provider, htaken', h.provider.path]
          exact List.prefix_rfl

/-! ## Whole runs -/

/-- One run, with the statements on its way, tracks another: they agree or their paths part, and what the
second run comes to before that the first run comes to in an alike state. -/
structure Tracks (out : Outcome σ) (trail : List (Action × Execution σ)) (out' : Outcome τ)
    (trail' : List (Action × Execution τ)) : Prop where
  ends : Agree out out' ∨ Parted out.1.provider.path.clauses out'.1.provider.path.clauses
  way : ∀ {a y}, (a, y) ∈ trail' →
    (∃ x, (a, x) ∈ trail ∧ x.Alike y) ∨ Parted out.1.provider.path.clauses y.provider.path.clauses

theorem Tracks.stop {out : Outcome σ} {out' : Outcome τ} (h : Agree out out') : Tracks out [] out' [] :=
  ⟨.inl h, fun hmem => by cases hmem⟩

/-- A first part and what follows it track together what they track apart. -/
theorem Tracks.append {out₁ out₂ : Outcome σ} {out₁' out₂' : Outcome τ} {t₁ t₂ : List (Action × Execution σ)}
    {t₁' t₂' : List (Action × Execution τ)} (h₁ : Tracks out₁ t₁ out₁' t₁')
    (h₂ : Agree out₁ out₁' → Tracks out₂ t₂ out₂' t₂')
    (hgrown : out₁.1.provider.path.clauses <+: out₂.1.provider.path.clauses)
    (hgrown' : out₁'.1.provider.path.clauses <+: out₂'.1.provider.path.clauses)
    (hway' : ∀ {a y}, (a, y) ∈ t₂' → out₁'.1.provider.path.clauses <+: y.provider.path.clauses) :
    Tracks out₂ (t₁ ++ t₂) out₂' (t₁' ++ t₂') where
  ends := by
    rcases h₁.ends with hagree | hparted
    · exact (h₂ hagree).ends
    · exact .inr (hparted.mono hgrown hgrown')
  way hmem := by
    rcases List.mem_append.1 hmem with hmem | hmem
    · rcases h₁.way hmem with ⟨x, hx, halike⟩ | hparted
      · exact .inl ⟨x, List.mem_append_left _ hx, halike⟩
      · exact .inr (hparted.mono hgrown List.prefix_rfl)
    · rcases h₁.ends with hagree | hparted
      · rcases (h₂ hagree).way hmem with ⟨x, hx, halike⟩ | hparted
        · exact .inl ⟨x, List.mem_append_right _ hx, halike⟩
        · exact .inr hparted
      · exact .inr (hparted.mono hgrown (hway' hmem))

/-- The run of the body from `x` tracks its run from `y`. -/
abbrev Body.TracksFrom (r : Resolution σ) (r' : Resolution τ) (b : Body) (x : Execution σ) (y : Execution τ) :
    Prop :=
  Tracks (b.run r x) (b.trail r x) (b.run r' y) (b.trail r' y)

/-- Statements that both runs come to in alike states agree. -/
def AgreesOn (r : Resolution σ) (r' : Resolution τ) (trail : List (Action × Execution σ))
    (trail' : List (Action × Execution τ)) : Prop :=
  ∀ a x y, (a, x) ∈ trail → (a, y) ∈ trail' → x.Alike y → Agree (a.run r x) (a.run r' y)

theorem AgreesOn.mono {r : Resolution σ} {r' : Resolution τ} {t u : List (Action × Execution σ)}
    {t' u' : List (Action × Execution τ)} (h : AgreesOn r r' t t') (hu : u ⊆ t) (hu' : u' ⊆ t') :
    AgreesOn r r' u u' :=
  fun a x y hx hy => h a x y (hu hx) (hu' hy)

section Bodies

variable {R R' : SymVar → ValueType → Value → Prop} {r : Resolution σ} {r' : Resolution τ}
  {out : Outcome σ} {out' : Outcome τ}

/-- The runs have the same body left to do. -/
inductive SameLeft (out : Outcome σ) (out' : Outcome τ) :
    Option (Body × Execution σ) → Option (Body × Execution τ) → Prop where
  | nothing (h : Agree out out') : SameLeft out out' none none
  | body (b : Body) {z : Execution σ} {z' : Execution τ} (h : z.Alike z') :
      SameLeft out out' (some (b, z)) (some (b, z'))

theorem Agree.onward (h : Agree out out') (second : Body) :
    SameLeft out out' (second.onward out) (second.onward out') := by
  obtain ⟨x, halt⟩ := out
  obtain ⟨y, halt'⟩ := out'
  obtain ⟨halike, rfl⟩ := h
  cases halt with
  | none => exact .body second halike
  | some halt => exact .nothing ⟨halike, rfl⟩

theorem Agree.rescue (h : Agree out out') (recovery : Body) :
    SameLeft out out' (recovery.rescue out) (recovery.rescue out') := by
  obtain ⟨x, halt⟩ := out
  obtain ⟨y, halt'⟩ := out'
  obtain ⟨halike, rfl⟩ := h
  rcases halt with _ | ⟨e⟩ | _
  · exact .nothing ⟨halike, rfl⟩
  · exact .body recovery (halike.write _ _)
  · exact .nothing ⟨halike, rfl⟩

/-- Runs that track each other through a first part go on to do so if they do in what is left. -/
theorem Tracks.resume (hr : r.resolver.Gives R) (hr' : r'.resolver.Gives R')
    {t : List (Action × Execution σ)} {t' : List (Action × Execution τ)} (h₁ : Tracks out t out' t')
    (hout : out.1.Sound R) (hout' : out'.1.Sound R')
    {left : Option (Body × Execution σ)} {left' : Option (Body × Execution τ)}
    (hleft : Continues (Execution.Sound R) (fun c c' => c.provider.Grows c'.provider) out left)
    (hleft' : Continues (Execution.Sound R') (fun c c' => c.provider.Grows c'.provider) out' left')
    (hsame : Agree out out' → SameLeft out out' left left')
    (hrest : ∀ b z z', left = some (b, z) → left' = some (b, z') → z.Alike z' → b.TracksFrom r r' z z') :
    Tracks (MockExplorer.resume r out left) (t ++ resumeTrail r left) (MockExplorer.resume r' out' left')
      (t' ++ resumeTrail r' left') := by
  have h := Execution.Sound.preserved hr
  have h' := Execution.Sound.preserved hr'
  refine h₁.append (fun hagree => ?_) (h.rest hout hleft).grown.clauses (h'.rest hout' hleft').grown.clauses
    fun hmem => (h'.rest_trail hleft' hmem).grown.clauses
  cases hsame hagree with
  | nothing hends => exact .stop hends
  | body b halike => exact hrest b _ _ rfl rfl halike

theorem Body.tracks_seq (hr : r.resolver.Gives R) (hr' : r'.resolver.Gives R') {b₁ b₂ : Body}
    (hb₁ : b₁.MockDriven) (hb₂ : b₂.MockDriven) {x : Execution σ} {y : Execution τ} (hx : x.Sound R)
    (hy : y.Sound R') (h₁ : b₁.TracksFrom r r' x y)
    (h₂ : ∀ {z z'}, z.Sound R → z'.Sound R' → z.Alike z' → AgreesOn r r' (b₂.trail r z) (b₂.trail r' z') →
      b₂.TracksFrom r r' z z')
    (hagree : AgreesOn r r' ((Body.seq b₁ b₂).trail r x) ((Body.seq b₁ b₂).trail r' y)) :
    (Body.seq b₁ b₂).TracksFrom r r' x y := by
  have h := Execution.Sound.preserved hr
  have h' := Execution.Sound.preserved hr'
  have hfirst := (h.run hb₁ hx).kept
  have hfirst' := (h'.run hb₁ hy).kept
  rw [Body.trail_seq, Body.trail_seq] at hagree
  rw [Body.TracksFrom, Body.trail_seq, Body.trail_seq, Body.run_seq, Body.run_seq]
  refine h₁.resume hr hr' hfirst hfirst' (h.continues_onward hb₂ hfirst) (h'.continues_onward hb₂ hfirst')
    (fun hends => hends.onward b₂) fun b z z' hleft hleft' halike => ?_
  rw [hleft, hleft'] at hagree
  obtain ⟨rfl, hz⟩ := h.left_onward hfirst hleft
  obtain ⟨-, hz'⟩ := h'.left_onward hfirst' hleft'
  exact h₂ hz.kept hz'.kept halike (hagree.mono (List.subset_append_right ..) (List.subset_append_right ..))

theorem Body.tracks_branch (hr : r.resolver.Gives R) (hr' : r'.resolver.Gives R') {t e : Body}
    (ht : t.MockDriven) (he : e.MockDriven) {l : LocationId} {value : String} {op : CmpOp} {rhs : Int64}
    {x : Execution σ} {y : Execution τ} (hx : x.Sound R) (hy : y.Sound R') (halike : x.Alike y)
    (harm : ∀ outcome {z z'}, z.Sound R → z'.Sound R' → z.Alike z' →
      AgreesOn r r' ((t.arm e outcome).trail r z) ((t.arm e outcome).trail r' z') →
      (t.arm e outcome).TracksFrom r r' z z')
    (hagree : AgreesOn r r' ((Body.branch l value op rhs t e).trail r x)
      ((Body.branch l value op rhs t e).trail r' y)) :
    (Body.branch l value op rhs t e).TracksFrom r r' x y := by
  have h := Execution.Sound.preserved hr
  have h' := Execution.Sound.preserved hr'
  rcases hv : x.scope.values.get? value with _ | v <;> rcases hw : y.scope.values.get? value with _ | w <;>
    have hvalues := halike.values value <;> rw [hv, hw] at hvalues
  · have hstop : Agree (x, some (Halt.raised (.outOfScope ("value " ++ value))))
        (y, some (Halt.raised (.outOfScope ("value " ++ value)))) := ⟨halike, rfl⟩
    simpa [Body.TracksFrom, Body.run, Body.trail, hv, hw] using Tracks.stop hstop
  · cases hvalues
  · cases hvalues
  · obtain ⟨hvw⟩ := hvalues
    have hstep := halike.branch hvw l op rhs
    rcases hz : x.branch l ⟨v, op, rhs⟩ with ⟨outcome, z⟩
    rcases hz' : y.branch l ⟨w, op, rhs⟩ with ⟨outcome', z'⟩
    rw [hz, hz'] at hstep
    have hwritten := h.branched hx hv hz
    have hwritten' := h'.branched hy hw hz'
    rw [Body.trail_branch t e hv hz, Body.trail_branch t e hw hz'] at hagree
    rw [Body.TracksFrom, Body.trail_branch t e hv hz, Body.trail_branch t e hw hz', Body.run_branch t e hv hz,
      Body.run_branch t e hw hz']
    rcases hstep with ⟨rfl, hafter⟩ | hparted
    · exact harm outcome hwritten.kept hwritten'.kept (hafter.write _ _) hagree
    · -- From here on both paths only grow, so they stay parted.
      have hdriven := Body.mockDriven_arm ht he
      have hgrown := (h.run (hdriven outcome) hwritten.kept).grown.clauses
      have hgrown' := (h'.run (hdriven outcome') hwritten'.kept).grown.clauses
      have hstart : Parted (z.write (.branched l outcome)).provider.path.clauses
          (z'.write (.branched l outcome')).provider.path.clauses := by simpa using hparted
      refine ⟨.inr (hstart.mono hgrown hgrown'), fun hmem => .inr (hstart.mono hgrown ?_)⟩
      exact (h'.trail (hdriven outcome') hwritten'.kept hmem).reached.grown.clauses

/-- Runs whose statements agree track each other: until their paths part they do the same. -/
theorem Body.tracks (hr : r.resolver.Gives R) (hr' : r'.resolver.Gives R') {b : Body} (hb : b.MockDriven)
    {x : Execution σ} {y : Execution τ} (hx : x.Sound R) (hy : y.Sound R') (halike : x.Alike y)
    (hagree : AgreesOn r r' (b.trail r x) (b.trail r' y)) :
    b.TracksFrom r r' x y := by
  have h := Execution.Sound.preserved hr
  have h' := Execution.Sound.preserved hr'
  induction b generalizing x y with
  | skip => exact .stop ⟨halike, rfl⟩
  | seq b₁ b₂ ih₁ ih₂ =>
      have hagree₁ : AgreesOn r r' (b₁.trail r x) (b₁.trail r' y) :=
        hagree.mono (List.subset_append_left ..) (List.subset_append_left ..)
      exact Body.tracks_seq hr hr' hb.1 hb.2 hx hy (ih₁ hb.1 hx hy halike hagree₁) (ih₂ hb.2) hagree
  | act a =>
      refine ⟨.inl (hagree _ _ _ (List.mem_singleton_self _) (List.mem_singleton_self _) halike), fun hmem => ?_⟩
      obtain ⟨rfl, rfl⟩ := Prod.mk.inj (List.mem_singleton.1 hmem)
      exact .inl ⟨x, List.mem_singleton_self _, halike⟩
  | branch l value op rhs t e iht ihe =>
      refine Body.tracks_branch hr hr' hb.1 hb.2 hx hy halike (fun outcome z z' hz hz' hzz' => ?_) hagree
      cases outcome with
      | true => exact iht hb.1 hz hz' hzz'
      | false => exact ihe hb.2 hz hz' hzz'
  | times n b ih =>
      induction n generalizing x y with
      | zero => exact .stop ⟨halike, rfl⟩
      | succ n ihn =>
          have hagree₁ : AgreesOn r r' (b.trail r x) (b.trail r' y) :=
            hagree.mono (List.subset_append_left ..) (List.subset_append_left ..)
          have hfirst := ih hb hx hy halike hagree₁
          have hrest : (Body.times n b).MockDriven := hb
          exact Body.tracks_seq hr hr' (show b.MockDriven from hb) hrest hx hy hfirst (ihn hb) hagree
  | attempt b recovery ihb ihrec =>
      have hfirst := (h.run hb.1 hx).kept
      have hfirst' := (h'.run hb.1 hy).kept
      rw [Body.trail_attempt, Body.trail_attempt] at hagree
      rw [Body.TracksFrom, Body.trail_attempt, Body.trail_attempt, Body.run_attempt, Body.run_attempt]
      have hagree₁ := hagree.mono (List.subset_append_left ..) (List.subset_append_left ..)
      refine (ihb hb.1 hx hy halike hagree₁).resume hr hr' hfirst hfirst' (h.continues_rescue hb.2 hfirst)
        (h'.continues_rescue hb.2 hfirst') (fun hends => hends.rescue recovery)
        fun b' z z' hleft hleft' hz => ?_
      rw [hleft, hleft'] at hagree
      obtain ⟨rfl, hz₁⟩ := h.left_rescue hfirst hleft
      obtain ⟨-, hz₁'⟩ := h'.left_rescue hfirst' hleft'
      exact ihrec hb.2 hz₁.kept hz₁'.kept hz
        (hagree.mono (List.subset_append_right ..) (List.subset_append_right ..))
  | enclosed b ih =>
      have hinside : Execution.Alike { x with scope := {}, silent := true } { y with scope := {}, silent := true } :=
        ⟨halike.provider, rfl, fun _ => .none, halike.observations⟩
      obtain ⟨hends, hway⟩ := ih hb (h.enter hx) (h'.enter hy) hinside hagree
      refine ⟨hends.imp_left fun hagreed => ⟨?_, hagreed.halt⟩, hway⟩
      exact ⟨hagreed.alike.provider, halike.mocks, halike.values, hagreed.alike.observations⟩

end Bodies

/-! ## Runs under models -/

/-- The model has an acceptable answer to every question of the run. -/
def Body.Settled (r : Resolution σ) (model : Model) (b : Body) (x : Execution σ) : Prop :=
  ∀ a y, (a, y) ∈ b.trail r x → a.Settled model y

/-- Runs under two models track each other if both models settle the statements that the runs share. -/
theorem Body.tracks_of_settled {model model' : Model} {r : Resolution σ} {r' : Resolution τ}
    (hr : r.resolver.AnswersFrom model) (hr' : r'.resolver.AnswersFrom model') {b : Body} (hb : b.MockDriven)
    {x : Execution σ} {y : Execution τ} (hx : x.Sound model.Answers) (hy : y.Sound model'.Answers)
    (halike : x.Alike y) (hset : b.Settled r model x)
    (hset' : ∀ a z z', (a, z) ∈ b.trail r x → (a, z') ∈ b.trail r' y → z.Alike z' → a.Settled model' z') :
    b.TracksFrom r r' x y := by
  refine Body.tracks hr.gives hr'.gives hb hx hy halike fun a z z' hz hz' hzz' => ?_
  obtain ⟨ha, hreached, _⟩ := (Execution.Sound.preserved hr.gives).trail hb hx hz
  obtain ⟨_, hreached', _⟩ := (Execution.Sound.preserved hr'.gives).trail hb hy hz'
  exact Action.agree hr hr' ha hzz' hreached.kept hreached'.kept (hset a z hz) (hset' a z z' hz hz' hzz')

end MockExplorer
