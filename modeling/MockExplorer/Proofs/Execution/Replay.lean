import MockExplorer.Proofs.Execution.Lockstep
import MockExplorer.Proofs.Solver.Equality
import MockExplorer.Proofs.Value

/-!
# Replay of a flipped path

A model of the sibling path at a clause drives the body along the same clauses and through the other arm at
that clause. The run that it drives finds every answer of the model acceptable.
-/

namespace MockExplorer

/-! ## Models and paths -/

@[simp] theorem Clause.negate_negate (c : Clause) : c.negate.negate = c := by simp [Clause.negate]

theorem PartsAt.symm {before l l' : List Clause} {c : Clause} (h : PartsAt before c l l') :
    PartsAt before c.negate l' l :=
  ⟨h.right, by rw [Clause.negate_negate]; exact h.left⟩

/-- No clause of the path contradicts the value that the model gives its input. -/
def Model.Allows (m : Model) (path : List Clause) : Prop :=
  ∀ c ∈ path, ∀ v, m.get? c.predicate.var = some v → c.predicate.holds v = true

/-- Of a clause and its negation, a path that the model allows has only the one that the model satisfies. -/
theorem Model.Allows.notMem {m : Model} {path : List Clause} (h : m.Allows path) {c : Clause}
    {query : List Predicate} (hsat : m.Satisfies query) (hc : c.negate.predicate ∈ query) : c ∉ path := by
  intro hmem
  obtain ⟨v, hget, _, hholds⟩ := hsat _ hc
  have hcontra := h c hmem v hget
  rw [Clause.negate, Predicate.negate_holds, hcontra] at hholds
  cases hholds

/-- A path that the model allows does not part from another path along clauses that the model satisfies. -/
theorem PartsAt.satisfied {m : Model} {before l l' kept : List Clause} {c : Clause} (h : PartsAt before c l l')
    (hallows : m.Allows l) (hkept : kept <+: l') (hsat : m.Satisfies (kept.map (·.predicate))) :
    kept <+: before := by
  have hout : c.negate ∉ kept := fun hmem =>
    hallows.notMem hsat (List.mem_map_of_mem hmem) (h.left.subset (by simp))
  rcases List.prefix_or_prefix_of_prefix h.right hkept with hlong | hshort
  · exact absurd (hlong.subset (by simp)) hout
  · rcases List.prefix_concat_iff.1 hshort with heq | hprefix
    · exact absurd (by simp [heq]) hout
    · exact hprefix

/-- A path that is allowed by a model of a flipped path parts from the original at the flipped clause. -/
theorem PartsAt.flipped {m : Model} {path : PathCondition} {i : Nat} {query : List Predicate}
    (hq : path.flippedAt? i = some query) (hsat : m.Satisfies query) {before l' : List Clause} {c : Clause}
    (h : PartsAt before c path.clauses l') (hallows : m.Allows l') :
    before = path.clauses.take i ∧ path.clauses[i]? = some c ∧
      query = (before ++ [c.negate]).map (·.predicate) := by
  obtain ⟨c₀, hc₀, rfl⟩ := Option.map_eq_some_iff.1 hq
  have hkept : path.clauses.take i <+: before :=
    h.symm.satisfied hallows (List.take_prefix ..) fun p hp => hsat p (List.mem_append_left _ hp)
  -- The flipped clause itself is not on the second path, so the paths part no later.
  have hout : c₀ ∉ l' := hallows.notMem hsat (List.mem_append_right _ (List.mem_singleton_self _))
  have hnow := List.prefix_iff_getElem?.1 h.left
  have hle : before.length ≤ i := by
    by_contra hlt
    have hc := hnow i (by simp; omega)
    rw [List.getElem_append_left (by omega), hc₀, Option.some.injEq] at hc
    exact hout (h.right.subset (List.mem_append_left _ (hc ▸ List.getElem_mem _)))
  have hi : i < path.clauses.length := (List.getElem?_eq_some_iff.1 hc₀).1
  have hbefore : path.clauses.take i = before :=
    hkept.eq_of_length_le (by rw [List.length_take]; omega)
  have hlength : before.length = i := by rw [← hbefore, List.length_take]; omega
  have hc : path.clauses[i]? = some c := by
    have := hnow i (by simp [hlength])
    simpa [hlength] using this
  rw [hc₀, Option.some.injEq] at hc
  subst hc
  exact ⟨hbefore.symm, hc₀, by simp [hbefore, Clause.negate]⟩

theorem PathCondition.exists_flippedAt? {path : PathCondition} {i : Nat} (hi : i < path.length) :
    ∃ query, path.flippedAt? i = some query := by
  have hc : path.clauses[i]? = some _ := List.getElem?_eq_getElem hi
  exact ⟨_, by rw [PathCondition.flippedAt?, hc, Option.map_some]⟩

/-- A path that is allowed by a model of a flipped path is not the original. -/
theorem PathCondition.not_allows_of_flippedAt? {m : Model} {path : PathCondition} {i : Nat}
    {query : List Predicate} (hq : path.flippedAt? i = some query) (hsat : m.Satisfies query) :
    ¬ m.Allows path.clauses := by
  intro hallows
  obtain ⟨c, hc, rfl⟩ := Option.map_eq_some_iff.1 hq
  exact hallows.notMem hsat (List.mem_append_right _ (List.mem_singleton_self _)) (List.mem_of_getElem? hc)

/-! ## Paths of runs -/

theorem Provider.Sound.holds_resolve {p : Provider} {m : Model} (hp : p.Sound m.Answers) {c : Clause}
    (hc : c ∈ p.path.clauses) : c.predicate.holds (m.resolve c.predicate.var c.predicate.ty) = true := by
  obtain ⟨v, hbinds, hholds⟩ := hp.path c hc
  rwa [show v = m.resolve c.predicate.var c.predicate.ty from hp.of_binds hbinds] at hholds

theorem Provider.Sound.allows {p : Provider} {m : Model} (hp : p.Sound m.Answers) : m.Allows p.path.clauses := by
  intro c hc v hget
  have hholds := hp.holds_resolve hc
  rwa [Model.resolve, hget] at hholds

/-- Runs under one model do not part. -/
theorem Provider.Sound.not_parted {p q : Provider} {m : Model} (hp : p.Sound m.Answers) (hq : q.Sound m.Answers) :
    ¬ Parted p.path.clauses q.path.clauses := by
  rintro ⟨before, c, hleft, hright⟩
  have hholds := hp.holds_resolve (hleft.subset (List.mem_append_right _ (List.mem_singleton_self c)))
  have hnegated := hq.holds_resolve (hright.subset (List.mem_append_right _ (List.mem_singleton_self c.negate)))
  rw [Clause.negate, Predicate.negate_holds] at hnegated
  rw [show c.predicate.negate.var = c.predicate.var from rfl,
    show c.predicate.negate.ty = c.predicate.ty from rfl, hholds] at hnegated
  cases hnegated

/-- The type at which a clause uses its input is the registered one. -/
theorem Provider.Sound.typed {R : SymVar → ValueType → Value → Prop} {p : Provider} (hp : p.Sound R) {c : Clause}
    (hc : c ∈ p.path.clauses) : p.path.inputs.get? c.predicate.var = some c.predicate.ty := by
  obtain ⟨v, hbinds, _⟩ := hp.path c hc
  exact hbinds.typed

theorem Provider.Sound.typed_flipped {R : SymVar → ValueType → Value → Prop} {p : Provider} (hp : p.Sound R)
    {i : Nat} {query : List Predicate} (hq : p.path.flippedAt? i = some query) {a : Predicate} (ha : a ∈ query) :
    p.path.inputs.get? a.var = some a.ty := by
  obtain ⟨c, hc, rfl⟩ := Option.map_eq_some_iff.1 hq
  rcases List.mem_append.1 ha with ha | ha
  · obtain ⟨c', hc', rfl⟩ := List.mem_map.1 ha
    exact hp.typed (List.mem_of_mem_take hc')
  · obtain rfl := List.mem_singleton.1 ha
    exact hp.typed (List.mem_of_getElem? hc)

/-- The solver's model answers every question acceptably under the assumption of its query, if the query
uses the input at the type that is asked for. -/
theorem Provider.accepts_of_solve {p : Provider} {m : Model} (hs : Equality.solve p.assumptions = .sat m)
    {var : SymVar} {ty : ValueType} (hty : ∀ a ∈ p.assumptions, a.var = var → a.ty = ty) :
    p.Accepts var ty (m.resolve var ty) := by
  have hsat := Equality.satisfies_of_solve hs
  cases hget : m.get? var with
  | none =>
      rw [Model.resolve, hget]
      refine ⟨ValueType.default_conformsTo ty, fun a ha hvar => ?_⟩
      obtain ⟨v, hv, _⟩ := hsat a ha
      rw [hvar, hget] at hv
      cases hv
  | some v =>
      rw [Model.resolve, hget]
      obtain ⟨a, ha, hvar⟩ := (Equality.isSome_get?_of_solve hs var).1 ⟨v, hget⟩
      have hvalue : ∀ a ∈ p.assumptions, a.var = var → v.conformsTo a.ty = true ∧ a.holds v = true := by
        intro a ha hvar
        obtain ⟨w, hw, hconf, hholds⟩ := hsat a ha
        rw [hvar, hget] at hw
        cases hw
        exact ⟨hconf, hholds⟩
      exact ⟨hty a ha hvar ▸ (hvalue a ha hvar).1, fun a ha hvar => (hvalue a ha hvar).2⟩

/-! ## Runs that a model settles -/

/-- The statements that a run from the start under a model comes to. -/
def Body.trailUnder (b : Body) (config : MockConfig) (id : UInt64) (m : Model) (assumptions : List Predicate) :
    List (Action × Execution Unit) :=
  b.trail { resolver := .ofModel m } (.start config id assumptions ())

def Body.SettledUnder (b : Body) (config : MockConfig) (id : UInt64) (m : Model) (assumptions : List Predicate) :
    Prop :=
  b.Settled { resolver := .ofModel m } m (.start config id assumptions ())

section Under

variable {b : Body} (hb : b.MockDriven) {config : MockConfig} {id id' : UInt64} {m m' : Model}
  {assumptions : List Predicate}
include hb

theorem Body.runUnder_sound : (b.runUnder config id m assumptions).1.Sound m.Answers :=
  ((Execution.Sound.preserved (Resolver.answersFrom_ofModel m).gives).run hb (.start ..)).kept

theorem Body.trailUnder_passes {a : Action} {y : Execution Unit}
    (h : (a, y) ∈ b.trailUnder config id m assumptions) :
    y.Sound m.Answers ∧ y.provider.assumptions = assumptions ∧
      y.provider.Grows (b.runUnder config id m assumptions).1.provider := by
  have hpreserved := Execution.Sound.preserved (r := { resolver := .ofModel m })
    (Resolver.answersFrom_ofModel m).gives
  obtain ⟨ha, hreached, hends⟩ := hpreserved.trail hb (.start ..) h
  exact ⟨hreached.kept, hreached.grown.assumptions, (hpreserved.act ha hreached.kept).grown.trans hends⟩

variable (hset : b.SettledUnder config id m assumptions) {i : Nat} {query : List Predicate}
  (hq : (b.runUnder config id m assumptions).1.provider.path.flippedAt? i = some query)
  (hs : Equality.solve query = .sat m')

include hq hs in
/-- As long as the runs do the same, what the second run asks for was registered in the first. -/
theorem Body.settled_of_alike {a : Action} {x y : Execution Unit}
    (hx : (a, x) ∈ b.trailUnder config id m assumptions) (hy : (a, y) ∈ b.trailUnder config id' m' query)
    (halike : x.Alike y) : a.Settled m' y := by
  obtain ⟨_, _, hends⟩ := Body.trailUnder_passes hb hx
  obtain ⟨hsound, rfl, _⟩ := Body.trailUnder_passes hb hy
  intro k ty hasks
  refine Provider.accepts_of_solve hs fun p hp hvar => ?_
  have hasked := hasks.registered hsound
  rw [← halike.provider.path] at hasked
  have htyped := (Body.runUnder_sound hb).provider.typed_flipped hq hp
  rw [hvar, hends.inputs hasked] at htyped
  exact (Option.some.inj htyped).symm

include hq hs in
/-- Once the paths have parted, the inputs of the query are on the path of the second run. -/
theorem Body.settled_of_parted {a : Action} {y : Execution Unit} (hy : (a, y) ∈ b.trailUnder config id' m' query)
    (hparted : Parted (b.runUnder config id m assumptions).1.provider.path.clauses y.provider.path.clauses) :
    a.Settled m' y := by
  obtain ⟨hsound, hassumed, _⟩ := Body.trailUnder_passes hb hy
  obtain ⟨before, c, hparts⟩ := hparted
  obtain ⟨_, _, hquery⟩ := hparts.flipped hq (Equality.satisfies_of_solve hs) hsound.provider.allows
  intro k ty hasks
  refine Provider.accepts_of_solve (by rw [hassumed]; exact hs) fun p hp hvar => ?_
  rw [hassumed, hquery] at hp
  obtain ⟨c', hc', rfl⟩ := List.mem_map.1 hp
  have htyped := hsound.provider.typed (hparts.right.subset hc')
  rw [hvar, hasks.registered hsound] at htyped
  exact (Option.some.inj htyped).symm

include hset hq hs in
theorem Body.tracks_flipped (id' : UInt64) :
    Tracks (b.runUnder config id m assumptions) (b.trailUnder config id m assumptions)
      (b.runUnder config id' m' query) (b.trailUnder config id' m' query) :=
  Body.tracks_of_settled (Resolver.answersFrom_ofModel m) (Resolver.answersFrom_ofModel m') hb (.start ..)
    (.start ..) (.start ..) hset fun _ _ _ hx hy halike => Body.settled_of_alike hb hq hs hx hy halike

include hset hq hs in
/-- The solver's model of a flipped path settles its run. -/
theorem Body.settled_flipped (id' : UInt64) : b.SettledUnder config id' m' query := by
  intro a y hy
  rcases (Body.tracks_flipped hb hset hq hs id').way hy with ⟨x, hx, halike⟩ | hparted
  · exact Body.settled_of_alike hb hq hs hx hy halike
  · exact Body.settled_of_parted hb hq hs hy hparted

include hset hq hs in
/-- The run under the solver's model of a flipped path takes the other arm at the flipped clause. -/
theorem Body.parts_flipped (id' : UInt64) :
    ∃ c, (b.runUnder config id m assumptions).1.provider.path.clauses[i]? = some c ∧
      PartsAt ((b.runUnder config id m assumptions).1.provider.path.clauses.take i) c
        (b.runUnder config id m assumptions).1.provider.path.clauses
        (b.runUnder config id' m' query).1.provider.path.clauses := by
  have hsat := Equality.satisfies_of_solve hs
  have hallows : m'.Allows (b.runUnder config id' m' query).1.provider.path.clauses :=
    (Body.runUnder_sound hb).provider.allows
  rcases (Body.tracks_flipped hb hset hq hs id').ends with hagree | ⟨before, c, hparts⟩
  · rw [← hagree.alike.provider.path] at hallows
    exact absurd hallows (PathCondition.not_allows_of_flippedAt? hq hsat)
  · obtain ⟨rfl, hc, _⟩ := hparts.flipped hq hsat hallows
    exact ⟨c, hc, hparts⟩

end Under

end MockExplorer
