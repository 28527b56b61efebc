import MockExplorer.Execution.Run

/-!
# The statements on the way of a run

What every statement and every branch keeps holds at the end of a run, and in every state in which the run
comes to a statement.
-/

namespace MockExplorer

variable {σ : Type}

/-! ## Statements on the way -/

/-- The statements on the way of a repeated body. -/
def repeatTrail (step : Execution σ → Outcome σ) (trail : Execution σ → List (Action × Execution σ)) :
    Nat → Execution σ → List (Action × Execution σ)
  | 0, _ => []
  | n + 1, x =>
    trail x ++
      match step x with
      | (y, none) => repeatTrail step trail n y
      | _ => []

/-- The statements that a run of the body comes to, each with the state in which it does. -/
def Body.trail (r : Resolution σ) : Body → Execution σ → List (Action × Execution σ)
  | .skip, _ => []
  | .seq a b, x =>
    a.trail r x ++
      match a.run r x with
      | (y, none) => b.trail r y
      | _ => []
  | .act a, x => [(a, x)]
  | .branch l value op rhs t e, x =>
    match x.scope.values.get? value with
    | none => []
    | some v =>
      match x.branch l ⟨v, op, rhs⟩ with
      | (true, y) => t.trail r (y.write (.branched l true))
      | (false, y) => e.trail r (y.write (.branched l false))
  | .times n b, x => repeatTrail (b.run r) (b.trail r) n x
  | .attempt b recovery, x =>
    b.trail r x ++
      match b.run r x with
      | (y, some (.raised e)) => recovery.trail r (y.write (.raised e))
      | _ => []
  | .enclosed b, x => b.trail r { x with scope := {}, silent := true }

/-! ## Branches -/

/-- The arm of a branch that goes with an outcome. -/
def Body.arm (thenArm elseArm : Body) : Bool → Body
  | true => thenArm
  | false => elseArm

section Branch

variable {r : Resolution σ} {x z : Execution σ} {value : String} {v : ConcolicValue} {outcome : Bool}
  {l : LocationId} {op : CmpOp} {rhs : Int64} (t e : Body)

theorem Body.run_branch (hv : x.scope.values.get? value = some v)
    (hz : x.branch l ⟨v, op, rhs⟩ = (outcome, z)) :
    (Body.branch l value op rhs t e).run r x = (t.arm e outcome).run r (z.write (.branched l outcome)) := by
  cases outcome <;> simp [Body.run, hv, hz, Body.arm]

theorem Body.trail_branch (hv : x.scope.values.get? value = some v)
    (hz : x.branch l ⟨v, op, rhs⟩ = (outcome, z)) :
    (Body.branch l value op rhs t e).trail r x = (t.arm e outcome).trail r (z.write (.branched l outcome)) := by
  cases outcome <;> simp [Body.trail, hv, hz, Body.arm]

end Branch

theorem Body.mockDriven_arm {t e : Body} (ht : t.MockDriven) (he : e.MockDriven) (outcome : Bool) :
    (t.arm e outcome).MockDriven := by
  cases outcome with
  | true => exact ht
  | false => exact he

/-! ## Bodies that go on after a first part -/

/-- What is left to do when a second body follows. -/
def Body.onward (second : Body) : Outcome σ → Option (Body × Execution σ)
  | (y, none) => some (second, y)
  | _ => none

/-- What is left to do when a body recovers from errors. -/
def Body.rescue (recovery : Body) : Outcome σ → Option (Body × Execution σ)
  | (y, some (.raised e)) => some (recovery, y.write (.raised e))
  | _ => none

/-- The outcome once all is done that was left to do. -/
def resume (r : Resolution σ) (out : Outcome σ) : Option (Body × Execution σ) → Outcome σ
  | some (b, y) => b.run r y
  | none => out

def resumeTrail (r : Resolution σ) : Option (Body × Execution σ) → List (Action × Execution σ)
  | some (b, y) => b.trail r y
  | none => []

theorem Body.run_seq (r : Resolution σ) (a b : Body) (x : Execution σ) :
    (Body.seq a b).run r x = resume r (a.run r x) (b.onward (a.run r x)) := by
  rcases h : a.run r x with ⟨y, _ | halt⟩ <;> simp [Body.run, h, Body.onward, resume]

theorem Body.run_seq_ok {r : Resolution σ} {a b : Body} {x y : Execution σ} (h : a.run r x = (y, none)) :
    (Body.seq a b).run r x = b.run r y := by
  rw [Body.run_seq, h]
  rfl

theorem Body.trail_seq (r : Resolution σ) (a b : Body) (x : Execution σ) :
    (Body.seq a b).trail r x = a.trail r x ++ resumeTrail r (b.onward (a.run r x)) := by
  rcases h : a.run r x with ⟨y, _ | halt⟩ <;> simp [Body.trail, h, Body.onward, resumeTrail]

theorem Body.run_attempt (r : Resolution σ) (b recovery : Body) (x : Execution σ) :
    (Body.attempt b recovery).run r x = resume r (b.run r x) (recovery.rescue (b.run r x)) := by
  rcases h : b.run r x with ⟨y, _ | ⟨e⟩ | _⟩ <;> simp [Body.run, h, Body.rescue, resume]

theorem Body.trail_attempt (r : Resolution σ) (b recovery : Body) (x : Execution σ) :
    (Body.attempt b recovery).trail r x = b.trail r x ++ resumeTrail r (recovery.rescue (b.run r x)) := by
  rcases h : b.run r x with ⟨y, _ | ⟨e⟩ | _⟩ <;> simp [Body.trail, h, Body.rescue, resumeTrail]

theorem Body.run_times_succ (r : Resolution σ) (n : Nat) (b : Body) (x : Execution σ) :
    (Body.times (n + 1) b).run r x = (Body.seq b (.times n b)).run r x := rfl

theorem Body.trail_times_succ (r : Resolution σ) (n : Nat) (b : Body) (x : Execution σ) :
    (Body.times (n + 1) b).trail r x = (Body.seq b (.times n b)).trail r x := rfl

theorem Body.onward_eq_some {second b : Body} {out : Outcome σ} {y : Execution σ}
    (h : second.onward out = some (b, y)) : b = second ∧ out = (y, none) := by
  obtain ⟨z, _ | halt⟩ := out
  · cases h; exact ⟨rfl, rfl⟩
  · cases h

theorem Body.rescue_eq_some {recovery b : Body} {out : Outcome σ} {y : Execution σ}
    (h : recovery.rescue out = some (b, y)) :
    b = recovery ∧ ∃ z e, out = (z, some (.raised e)) ∧ y = z.write (.raised e) := by
  obtain ⟨z, _ | ⟨e⟩ | _⟩ := out
  · cases h
  · cases h; exact ⟨rfl, z, e, rfl, rfl⟩
  · cases h

/-! ## Parts of a state -/

namespace Execution

@[simp] theorem write_calls (x : Execution σ) (e : LogEntry) : (x.write e).calls = x.calls := by
  unfold write; split <;> rfl

@[simp] theorem write_provider (x : Execution σ) (e : LogEntry) : (x.write e).provider = x.provider := by
  simp [provider]

@[simp] theorem write_scope (x : Execution σ) (e : LogEntry) : (x.write e).scope = x.scope := by
  unfold write; split <;> rfl

@[simp] theorem write_roster (x : Execution σ) (e : LogEntry) : (x.write e).roster = x.roster := by
  unfold write; split <;> rfl

@[simp] theorem write_observations (x : Execution σ) (e : LogEntry) :
    (x.write e).observations = x.observations := by
  unfold write; split <;> rfl

@[simp] theorem write_cancelled (x : Execution σ) (e : LogEntry) : (x.write e).cancelled = x.cancelled := by
  unfold write; split <;> rfl

@[simp] theorem branch_scope (x : Execution σ) (l : LocationId) (c : Condition) :
    (x.branch l c).2.scope = x.scope := by
  unfold branch; cases c.taken? <;> rfl

@[simp] theorem branch_observations (x : Execution σ) (l : LocationId) (c : Condition) :
    (x.branch l c).2.observations = .branch l c.evaluate :: x.observations := by
  unfold branch; cases c.taken? <;> rfl

@[simp] theorem branch_roster (x : Execution σ) (l : LocationId) (c : Condition) :
    (x.branch l c).2.roster = x.roster := by
  unfold branch; cases c.taken? <;> rfl

theorem branch_provider (x : Execution σ) (l : LocationId) (c : Condition) :
    (x.branch l c).2.provider = (c.taken?.map fun p => x.provider.record ⟨l, p⟩).getD x.provider := by
  unfold branch; cases c.taken? <;> rfl

end Execution

/-! ## What statements and branches keep -/

/-- The execution went on from `x` to `y`, which keeps `S`, and what calls can change went on by `G`. -/
structure Leads (S : Execution σ → Prop) (G : CallState σ → CallState σ → Prop) (x y : Execution σ) : Prop where
  kept : S y
  grown : G x.calls y.calls

/-- Every statement of a mock-driven body and every branch leads on, as do the log and the names in scope. -/
structure Preserved (r : Resolution σ) (S : Execution σ → Prop) (G : CallState σ → CallState σ → Prop) :
    Prop where
  refl : ∀ c, G c c
  trans : ∀ {c c' c''}, G c c' → G c' c'' → G c c''
  act : ∀ {a : Action} {x}, a.MockDriven → S x → Leads S G x (a.run r x).1
  branch : ∀ {x : Execution σ} {name v} l op rhs, S x → x.scope.values.get? name = some v →
    Leads S G x (x.branch l ⟨v, op, rhs⟩).2
  write : ∀ {x : Execution σ} e, S x → S (x.write e)
  enter : ∀ {x : Execution σ}, S x → S { x with scope := {}, silent := true }
  leave : ∀ {x y : Execution σ}, S x → Leads S G x y → S { y with scope := x.scope, silent := x.silent }

section

variable {r : Resolution σ} {S : Execution σ → Prop} {G : CallState σ → CallState σ → Prop} {x y z : Execution σ}

theorem Preserved.here (h : Preserved r S G) (hx : S x) : Leads S G x x := ⟨hx, h.refl _⟩

theorem Preserved.onward (h : Preserved r S G) (hxy : Leads S G x y) (hyz : Leads S G y z) : Leads S G x z :=
  ⟨hyz.kept, h.trans hxy.grown hyz.grown⟩

theorem Preserved.written (h : Preserved r S G) (hxy : Leads S G x y) (e : LogEntry) :
    Leads S G x (y.write e) :=
  ⟨h.write e hxy.kept, by rw [Execution.write_calls]; exact hxy.grown⟩

/-- An arm of a branch starts in a state that the branch leads to. -/
theorem Preserved.branched (h : Preserved r S G) (hx : S x) {value : String} {v : ConcolicValue}
    (hv : x.scope.values.get? value = some v) {l : LocationId} {op : CmpOp} {rhs : Int64} {outcome : Bool}
    (hz : x.branch l ⟨v, op, rhs⟩ = (outcome, z)) : Leads S G x (z.write (.branched l outcome)) := by
  have hbranch := h.branch l op rhs hx hv
  rw [hz] at hbranch
  exact h.written hbranch (.branched l outcome)

/-! ## Whole runs -/

/-- Whatever is left to do starts where the first part ended, up to the log. -/
theorem Preserved.resumed (h : Preserved r S G) {out : Outcome σ} {left : Option (Body × Execution σ)}
    (hout : Leads S G x out.1)
    (hleft : ∀ b y, left = some (b, y) → Leads S G out.1 y ∧ Leads S G y (b.run r y).1) :
    Leads S G x (resume r out left).1 := by
  rcases left with _ | ⟨b, y⟩
  · exact hout
  · obtain ⟨hy, hrun⟩ := hleft b y rfl
    exact h.onward hout (h.onward hy hrun)

theorem Preserved.left_onward (h : Preserved r S G) {out : Outcome σ} {second b : Body} (hout : S out.1)
    (hleft : second.onward out = some (b, y)) : b = second ∧ Leads S G out.1 y := by
  obtain ⟨rfl, rfl⟩ := Body.onward_eq_some hleft
  exact ⟨rfl, h.here hout⟩

theorem Preserved.left_rescue (h : Preserved r S G) {out : Outcome σ} {recovery b : Body} (hout : S out.1)
    (hleft : recovery.rescue out = some (b, y)) : b = recovery ∧ Leads S G out.1 y := by
  obtain ⟨rfl, z, e, rfl, rfl⟩ := Body.rescue_eq_some hleft
  exact ⟨rfl, h.written (h.here hout) (.raised e)⟩

theorem Preserved.seq (h : Preserved r S G) {b₁ b₂ : Body} (h₁ : Leads S G x (b₁.run r x).1)
    (h₂ : ∀ {y}, S y → Leads S G y (b₂.run r y).1) : Leads S G x ((Body.seq b₁ b₂).run r x).1 := by
  rw [Body.run_seq]
  refine h.resumed h₁ fun b y hleft => ?_
  obtain ⟨rfl, hy⟩ := h.left_onward h₁.kept hleft
  exact ⟨hy, h₂ hy.kept⟩

theorem Preserved.run (h : Preserved r S G) {b : Body} (hb : b.MockDriven) (hx : S x) :
    Leads S G x (b.run r x).1 := by
  induction b generalizing x with
  | skip => exact h.here hx
  | seq a b iha ihb => exact h.seq (iha hb.1 hx) (ihb hb.2)
  | act a => exact h.act hb hx
  | branch l value op rhs t e iht ihe =>
      cases hv : x.scope.values.get? value with
      | none => simpa [Body.run, hv] using h.here hx
      | some v =>
          rcases hz : x.branch l ⟨v, op, rhs⟩ with ⟨outcome, z⟩
          have hwritten := h.branched hx hv hz
          rw [Body.run_branch t e hv hz]
          cases outcome with
          | true => exact h.onward hwritten (iht hb.1 hwritten.kept)
          | false => exact h.onward hwritten (ihe hb.2 hwritten.kept)
  | times n b ih =>
      induction n generalizing x with
      | zero => exact h.here hx
      | succ n ihn =>
          rw [Body.run_times_succ]
          exact h.seq (ih hb hx) (ihn hb)
  | attempt b recovery ihb ihrec =>
      have hfirst := ihb hb.1 hx
      rw [Body.run_attempt]
      refine h.resumed hfirst fun b' y hleft => ?_
      obtain ⟨rfl, hy⟩ := h.left_rescue hfirst.kept hleft
      exact ⟨hy, ihrec hb.2 hy.kept⟩
  | enclosed b ih =>
      obtain ⟨hkept, hgrown⟩ := ih hb (h.enter hx)
      exact ⟨h.leave hx ⟨hkept, hgrown⟩, hgrown⟩

/-- What is left to do is mock-driven and starts where the first part ended. -/
def Continues (S : Execution σ → Prop) (G : CallState σ → CallState σ → Prop) (out : Outcome σ)
    (left : Option (Body × Execution σ)) : Prop :=
  ∀ b z, left = some (b, z) → b.MockDriven ∧ Leads S G out.1 z

theorem Preserved.continues_onward (h : Preserved r S G) {second : Body} (hb : second.MockDriven)
    {out : Outcome σ} (hout : S out.1) : Continues S G out (second.onward out) := by
  intro b z hleft
  obtain ⟨rfl, hz⟩ := h.left_onward hout hleft
  exact ⟨hb, hz⟩

theorem Preserved.continues_rescue (h : Preserved r S G) {recovery : Body} (hb : recovery.MockDriven)
    {out : Outcome σ} (hout : S out.1) : Continues S G out (recovery.rescue out) := by
  intro b z hleft
  obtain ⟨rfl, hz⟩ := h.left_rescue hout hleft
  exact ⟨hb, hz⟩

theorem Preserved.rest (h : Preserved r S G) {out : Outcome σ} {left : Option (Body × Execution σ)}
    (hout : S out.1) (hleft : Continues S G out left) : Leads S G out.1 (resume r out left).1 := by
  refine h.resumed (h.here hout) fun b z hz => ?_
  obtain ⟨hb, hlead⟩ := hleft b z hz
  exact ⟨hlead, h.run hb hlead.kept⟩

/-! ## States on the way -/

/-- On the way from `x` to an outcome, a run comes to the statement in the state `y` and goes on after it. -/
structure Passes (r : Resolution σ) (S : Execution σ → Prop) (G : CallState σ → CallState σ → Prop)
    (x : Execution σ) (a : Action) (y : Execution σ) (out : Outcome σ) : Prop where
  driven : a.MockDriven
  reached : Leads S G x y
  ends : G (a.run r y).1.calls out.1.calls

variable {a : Action}

theorem Preserved.trail_resume (h : Preserved r S G) {out : Outcome σ} {left : Option (Body × Execution σ)}
    {first : List (Action × Execution σ)} (hout : Leads S G x out.1) (hleft : Continues S G out left)
    (hfirst : (a, y) ∈ first → Passes r S G x a y out)
    (hrest : ∀ b z, left = some (b, z) → (a, y) ∈ b.trail r z → Passes r S G z a y (b.run r z))
    (hmem : (a, y) ∈ first ++ resumeTrail r left) : Passes r S G x a y (resume r out left) := by
  rcases List.mem_append.1 hmem with hmem | hmem
  · obtain ⟨ha, hxy, hends⟩ := hfirst hmem
    exact ⟨ha, hxy, h.trans hends (h.rest hout.kept hleft).grown⟩
  · rcases left with _ | ⟨b, z⟩
    · cases hmem
    · obtain ⟨ha, hzy, hends⟩ := hrest b z rfl hmem
      exact ⟨ha, h.onward hout (h.onward (hleft b z rfl).2 hzy), hends⟩

theorem Preserved.trail_seq (h : Preserved r S G) {b₁ b₂ : Body} (hb₁ : b₁.MockDriven) (hb₂ : b₂.MockDriven)
    (hx : S x) (h₁ : (a, y) ∈ b₁.trail r x → Passes r S G x a y (b₁.run r x))
    (h₂ : ∀ {z}, S z → (a, y) ∈ b₂.trail r z → Passes r S G z a y (b₂.run r z))
    (hmem : (a, y) ∈ (Body.seq b₁ b₂).trail r x) : Passes r S G x a y ((Body.seq b₁ b₂).run r x) := by
  have hfirst := h.run hb₁ hx
  rw [Body.trail_seq] at hmem
  rw [Body.run_seq]
  refine h.trail_resume hfirst (h.continues_onward hb₂ hfirst.kept) h₁ (fun b z hleft hz => ?_) hmem
  obtain ⟨rfl, hkept⟩ := h.left_onward hfirst.kept hleft
  exact h₂ hkept.kept hz

theorem Preserved.trail (h : Preserved r S G) {b : Body} (hb : b.MockDriven) (hx : S x)
    (hmem : (a, y) ∈ b.trail r x) : Passes r S G x a y (b.run r x) := by
  induction b generalizing x with
  | skip => cases hmem
  | seq b₁ b₂ ih₁ ih₂ => exact h.trail_seq hb.1 hb.2 hx (ih₁ hb.1 hx) (ih₂ hb.2) hmem
  | act a' =>
      obtain ⟨rfl, rfl⟩ := Prod.mk.inj (List.mem_singleton.1 hmem)
      exact ⟨hb, h.here hx, h.refl _⟩
  | branch l value op rhs t e iht ihe =>
      cases hv : x.scope.values.get? value with
      | none => simp [Body.trail, hv] at hmem
      | some v =>
          rcases hz : x.branch l ⟨v, op, rhs⟩ with ⟨outcome, z⟩
          have hwritten := h.branched hx hv hz
          rw [Body.trail_branch t e hv hz] at hmem
          rw [Body.run_branch t e hv hz]
          cases outcome with
          | true =>
              obtain ⟨ha, hzy, hends⟩ := iht hb.1 hwritten.kept hmem
              exact ⟨ha, h.onward hwritten hzy, hends⟩
          | false =>
              obtain ⟨ha, hzy, hends⟩ := ihe hb.2 hwritten.kept hmem
              exact ⟨ha, h.onward hwritten hzy, hends⟩
  | times n b ih =>
      induction n generalizing x with
      | zero => cases hmem
      | succ n ihn =>
          rw [Body.trail_times_succ] at hmem
          rw [Body.run_times_succ]
          exact h.trail_seq hb hb hx (ih hb hx) (ihn hb) hmem
  | attempt b recovery ihb ihrec =>
      have hfirst := h.run hb.1 hx
      rw [Body.trail_attempt] at hmem
      rw [Body.run_attempt]
      refine h.trail_resume hfirst (h.continues_rescue hb.2 hfirst.kept) (ihb hb.1 hx)
        (fun b' z hleft hz => ?_) hmem
      obtain ⟨rfl, hkept⟩ := h.left_rescue hfirst.kept hleft
      exact ihrec hb.2 hkept.kept hz
  | enclosed b ih =>
      obtain ⟨ha, ⟨hkept, hgrown⟩, hends⟩ := ih hb (h.enter hx) hmem
      exact ⟨ha, ⟨hkept, hgrown⟩, hends⟩

theorem Preserved.rest_trail (h : Preserved r S G) {out : Outcome σ} {left : Option (Body × Execution σ)}
    (hleft : Continues S G out left) (hmem : (a, y) ∈ resumeTrail r left) :
    Leads S G out.1 y := by
  rcases left with _ | ⟨b, z⟩
  · cases hmem
  · obtain ⟨hb, hz⟩ := hleft b z rfl
    exact h.onward hz (h.trail hb hz.kept hmem).reached

end

/-! ## What a run gathers -/

section

variable {α : Type}

def repeatGather (step : Execution σ → Outcome σ) (gather : Execution σ → List α) : Nat → Execution σ → List α
  | 0, _ => []
  | n + 1, x =>
    gather x ++
      match step x with
      | (y, none) => repeatGather step gather n y
      | _ => []

/-- What comes of the statements and branches on the way of a run, in their order. -/
def Body.gather (r : Resolution σ) (told : Action → Execution σ → List α)
    (decided : LocationId → Condition → List α) : Body → Execution σ → List α
  | .skip, _ => []
  | .seq a b, x =>
    a.gather r told decided x ++
      match a.run r x with
      | (y, none) => b.gather r told decided y
      | _ => []
  | .act a, x => told a x
  | .branch l value op rhs t e, x =>
    match x.scope.values.get? value with
    | none => []
    | some v =>
      decided l ⟨v, op, rhs⟩ ++
        match x.branch l ⟨v, op, rhs⟩ with
        | (true, y) => t.gather r told decided (y.write (.branched l true))
        | (false, y) => e.gather r told decided (y.write (.branched l false))
  | .times n b, x => repeatGather (b.run r) (b.gather r told decided) n x
  | .attempt b recovery, x =>
    b.gather r told decided x ++
      match b.run r x with
      | (y, some (.raised e)) => recovery.gather r told decided (y.write (.raised e))
      | _ => []
  | .enclosed b, x => b.gather r told decided { x with scope := {}, silent := true }

/-- A change of states that runs do not notice: a changed state goes on as the state itself does, and is changed by
what was gathered on the way. -/
structure Carries (r : Resolution σ) (f : List α → Execution σ → Execution σ)
    (told : Action → Execution σ → List α) (decided : LocationId → Condition → List α) : Prop where
  act : ∀ a es x, a.run r (f es x) = (f (es ++ told a x) (a.run r x).1, (a.run r x).2)
  branch : ∀ es x l c, (f es x).branch l c = ((x.branch l c).1, f (es ++ decided l c) (x.branch l c).2)
  write : ∀ es x e, (f es x).write e = f es (x.write e)
  names : ∀ es x, (f es x).scope = x.scope ∧ (f es x).silent = x.silent
  rename : ∀ es x scope silent, { f es x with scope, silent } = f es { x with scope, silent }

theorem Carries.run {r : Resolution σ} {f : List α → Execution σ → Execution σ}
    {told : Action → Execution σ → List α} {decided : LocationId → Condition → List α}
    (h : Carries r f told decided) (b : Body) (es : List α) (x : Execution σ) :
    b.run r (f es x) = (f (es ++ b.gather r told decided x) (b.run r x).1, (b.run r x).2) := by
  induction b generalizing es x with
  | skip => simp [Body.run, Body.gather]
  | seq a b iha ihb =>
      simp only [Body.run, Body.gather, iha]
      rcases a.run r x with ⟨y, _ | halt⟩
      · simp only [ihb, List.append_assoc]
      · simp only [List.append_nil]
  | act a => exact h.act a es x
  | branch l value op rhs t e iht ihe =>
      cases hv : x.scope.values.get? value with
      | none => simp [Body.run, Body.gather, h.names, hv]
      | some v =>
          simp only [Body.run, Body.gather, h.names, hv, h.branch]
          rcases x.branch l ⟨v, op, rhs⟩ with ⟨_ | _, z⟩
          · simp only [h.write, ihe, List.append_assoc]
          · simp only [h.write, iht, List.append_assoc]
  | times n b ih =>
      induction n generalizing es x with
      | zero => simp [Body.run, repeatRun, Body.gather, repeatGather]
      | succ n ihn =>
          simp only [Body.run, repeatRun, Body.gather, repeatGather, ih] at ihn ⊢
          rcases b.run r x with ⟨y, _ | halt⟩
          · simp only [ihn, List.append_assoc]
          · simp only [List.append_nil]
  | attempt b recovery ihb ihrec =>
      simp only [Body.run, Body.gather, ihb]
      rcases b.run r x with ⟨y, _ | ⟨e⟩ | _⟩
      · simp only [List.append_nil]
      · simp only [h.write, ihrec, List.append_assoc]
      · simp only [List.append_nil]
  | enclosed b ih => simp only [Body.run, Body.gather, h.rename, h.names, ih]

end

end MockExplorer
