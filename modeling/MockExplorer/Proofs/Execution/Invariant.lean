import MockExplorer.Proofs.Execution.Trail
import MockExplorer.Proofs.Mock.Call

/-!
# The invariant along a run

A run of a mock-driven body keeps the invariant of the provider, and every mock and value in scope stays
rooted in it. This holds of the state in which the run ends and of every state in which it comes to a
statement.
-/

namespace MockExplorer

variable {σ : Type} {R : SymVar → ValueType → Value → Prop}

namespace Execution

variable {x y z : Execution σ}

/-! ## The invariant -/

/-- The provider is sound, and the mocks and values at hand are rooted in it. -/
structure Sound (R : SymVar → ValueType → Value → Prop) (x : Execution σ) : Prop where
  provider : x.provider.Sound R
  mocks : ∀ {name m}, x.scope.mocks.get? name = some m → x.provider.Registered m
  values : ∀ {name v}, x.scope.values.get? name = some v → x.provider.Roots v
  roster : ∀ m ∈ x.roster, x.provider.Registered m

/-- The execution went on from `x` to `y`, which is sound. -/
abbrev Proceeds (R : SymVar → ValueType → Value → Prop) (x y : Execution σ) : Prop :=
  Leads (Sound R) (fun c c' => c.provider.Grows c'.provider) x y

theorem Proceeds.refl (hx : x.Sound R) : Proceeds R x x := ⟨hx, .refl _⟩

theorem Proceeds.trans (h : Proceeds R x y) (h' : Proceeds R y z) : Proceeds R x z :=
  ⟨h'.kept, h.grown.trans h'.grown⟩

theorem Sound.start (config : MockConfig) (id : UInt64) (assumptions : List Predicate) (state : σ) :
    (Execution.start config id assumptions state).Sound R where
  provider := .start config assumptions
  mocks h := by cases h
  values h := by cases h
  roster m hm := by cases hm

/-- A state with the same mocks, values and roster over a grown provider. -/
theorem Sound.proceeds (hx : x.Sound R) (hp : y.provider.Sound R) (hgrown : x.provider.Grows y.provider)
    (hscope : y.scope = x.scope) (hroster : y.roster = x.roster) : Proceeds R x y where
  kept :=
    { provider := hp
      mocks := fun h => (hx.mocks (hscope ▸ h)).grows hgrown
      values := fun h => (hx.values (hscope ▸ h)).grows hgrown
      roster := fun m hm => (hx.roster m (hroster ▸ hm)).grows hgrown }
  grown := hgrown

theorem Sound.same (hx : x.Sound R) (hp : y.provider = x.provider) (hscope : y.scope = x.scope)
    (hroster : y.roster = x.roster) : Proceeds R x y :=
  hx.proceeds (hp ▸ hx.provider) (hp ▸ .refl _) hscope hroster

theorem Sound.write (hx : x.Sound R) (e : LogEntry) : Proceeds R x (x.write e) :=
  hx.same (by simp) (by simp) (by simp)

theorem get?_keepMock (x : Execution σ) (name name' : String) (m : MockInstance) :
    (x.keepMock name m).scope.mocks.get? name' =
      if name' = name then some m else x.scope.mocks.get? name' :=
  SortedMap.get?_insert _ _ _ _

theorem get?_keepValue (x : Execution σ) (name name' : String) (v : ConcolicValue) :
    (x.keepValue name v).scope.values.get? name' =
      if name' = name then some v else x.scope.values.get? name' :=
  SortedMap.get?_insert _ _ _ _

theorem Sound.keepMock {m : MockInstance} (hx : x.Sound R) (name : String) (hm : x.provider.Registered m) :
    Proceeds R x (x.keepMock name m) := by
  refine ⟨⟨hx.provider, fun {name' m'} h => ?_, hx.values, fun m' hm' => ?_⟩, .refl _⟩
  · rw [get?_keepMock] at h
    split at h
    · cases h; exact hm
    · exact hx.mocks h
  · have hroster : (x.keepMock name m).roster = if x.silent then x.roster else x.roster ++ [m] := rfl
    rw [hroster] at hm'
    split at hm'
    · exact hx.roster m' hm'
    · rcases List.mem_append.1 hm' with hold | hnew
      · exact hx.roster m' hold
      · obtain rfl := List.mem_singleton.1 hnew
        exact hm

theorem Sound.keepValue {v : ConcolicValue} (hx : x.Sound R) (name : String) (hv : x.provider.Roots v) :
    Proceeds R x (x.keepValue name v) := by
  refine ⟨⟨hx.provider, hx.mocks, fun {name' v'} h => ?_, hx.roster⟩, .refl _⟩
  rw [get?_keepValue] at h
  split at h
  · cases h; exact hv
  · exact hx.values h

theorem Sound.callNamed (hx : x.Sound R) (mock : String)
    {call : CallState σ → MockInstance → CallResult σ ConcolicValue} (name : String)
    (hcall : ∀ m, x.provider.Registered m → Served R x.provider (call x.calls m)) :
    Proceeds R x (x.callNamed mock call name).1 := by
  unfold Execution.callNamed
  split
  · exact .refl hx
  · rename_i m hm
    have hserved := hcall m (hx.mocks hm)
    split
    · rename_i h c hout
      rw [hout] at hserved
      exact hx.proceeds hserved.sound hserved.grown.toGrows rfl rfl
    · rename_i v c hout
      rw [hout] at hserved
      have hc : Proceeds R x { x with calls := c } :=
        hx.proceeds hserved.sound hserved.grown.toGrows rfl rfl
      have hkept := hc.kept.keepValue name (hserved.rooted v rfl)
      exact hc.trans (hkept.trans (hkept.kept.write _))

end Execution

/-! ## Branches -/

theorem Condition.taken?_eq_some {c : Condition} {p : Predicate} (h : c.taken? = some p) :
    c.lhs.var = some p.var ∧ p.ty = c.lhs.ty ∧ p.holds c.lhs.value = true := by
  obtain ⟨var, hvar, rfl⟩ := Option.map_eq_some_iff.1 h
  refine ⟨hvar, rfl, ?_⟩
  cases hc : c.evaluate with
  | true => simpa [Predicate.holds, Condition.evaluate] using hc
  | false =>
      have hneg : c.op.negate.apply c.lhs.value.toInt64? c.rhs = true := by
        rw [CmpOp.negate_apply]
        simpa [Condition.evaluate] using hc
      simpa [Predicate.holds] using hneg

theorem Execution.Sound.branch {x : Execution σ} {c : Condition} (hx : x.Sound R) (l : LocationId)
    (hc : x.provider.Roots c.lhs) : Proceeds R x (x.branch l c).2 := by
  unfold Execution.branch
  cases htaken : c.taken? with
  | none => exact hx.same rfl rfl rfl
  | some p =>
      obtain ⟨hvar, hty, hholds⟩ := Condition.taken?_eq_some htaken
      have hbinds := hc p.var hvar
      rw [← hty] at hbinds
      exact hx.proceeds (hx.provider.record hbinds hholds) (Provider.grows_record _ _) rfl rfl

/-! ## Statements and bodies -/

open Execution (Proceeds)

theorem Action.run_sound {r : Resolution σ} (hr : r.resolver.Gives R) {a : Action} (ha : a.MockDriven)
    {x : Execution σ} (hx : x.Sound R) : Proceeds R x (a.run r x).1 := by
  cases a with
  | mock name target =>
      simp only [Action.run]
      split
      · exact .refl hx
      · rename_i m p hcreate
        split
        · exact .refl hx
        · rename_i hslot
          obtain ⟨hp, hm⟩ := hx.provider.createMock hcreate hslot
          have hwith : Proceeds R x (x.withProvider p) :=
            hx.proceeds hp (Provider.grows_createMock hcreate) rfl rfl
          have hkept := hwith.kept.keepMock name hm
          exact hwith.trans (hkept.trans (hkept.kept.write _))
  | invoke receiver method args name =>
      exact hx.callNamed receiver name fun m hm =>
        Resolver.serves_invoke hr r.depth x.calls m method args hx.provider hm hx.roster
  | call receiver args name =>
      exact hx.callNamed receiver name fun m hm =>
        Resolver.served_invokeOnly hr r.depth args hx.provider hm hx.roster
  | view receiver capability arg name =>
      exact hx.callNamed receiver name fun m hm =>
        Resolver.served_invokeView hr r.depth capability arg hx.provider hm hx.roster
  | keep v name =>
      -- A value made by hand carries no input.
      have hroots : x.provider.Roots v := fun var hvar => by rw [show v.var = none from ha] at hvar; cases hvar
      have hkept := hx.keepValue name hroots
      exact hkept.trans (hkept.kept.write _)
  | assertReached l literal => exact hx.same rfl rfl rfl
  | reached site literal =>
      have hobserved : Proceeds R x (x.observe (.tag site.location literal)) := hx.same rfl rfl rfl
      exact hobserved.trans (hobserved.kept.write _)
  | record clause => exact ha.elim
  | fail e => exact .refl hx
  | crash => exact .refl hx
  | cancel => exact hx.same rfl rfl rfl

/-- The invariant holds along every run of a mock-driven body. -/
theorem Execution.Sound.preserved {r : Resolution σ} (hr : r.resolver.Gives R) :
    Preserved r (Execution.Sound R) (fun c c' => c.provider.Grows c'.provider) where
  refl c := .refl c.provider
  trans h h' := h.trans h'
  act ha hx := Action.run_sound hr ha hx
  branch l op rhs hx hv := hx.branch l (hx.values hv)
  write e hx := (hx.write e).kept
  enter hx := ⟨hx.provider, fun h => by (cases h), fun h => by (cases h), hx.roster⟩
  leave hx hy := ⟨hy.kept.provider, fun h => (hx.mocks h).grows hy.grown,
    fun h => (hx.values h).grows hy.grown, hy.kept.roster⟩

end MockExplorer
