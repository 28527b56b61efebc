import MockExplorer.Proofs.Coverage.Oracle

/-!
# Threads that report to one oracle

A thread that reports a branch looks for the cell of the location, marks the outcome and counts it, and others get
in between. All these steps commute, so the order in which they come about does not show in the end: the oracle has
seen what it would have seen if one thread had reported after the other.
-/

namespace MockExplorer

/-! ## Interleavings -/

/-- The list takes what the threads do in turn, and leaves nothing of any thread. -/
inductive Interleaving {α : Type} : List (List α) → List α → Prop where
  | done {threads : List (List α)} (h : ∀ thread ∈ threads, thread = []) : Interleaving threads []
  | next {threads : List (List α)} {i : Nat} {a : α} {rest later : List α} (h : threads[i]? = some (a :: rest))
      (hlater : Interleaving (threads.set i rest) later) : Interleaving threads (a :: later)

theorem perm_flatten_set {α : Type} {threads : List (List α)} {i : Nat} {a : α} {rest : List α}
    (h : threads[i]? = some (a :: rest)) : (a :: (threads.set i rest).flatten).Perm threads.flatten := by
  induction threads generalizing i with
  | nil => cases h
  | cons thread threads ih =>
      cases i with
      | zero =>
          cases h
          exact .refl _
      | succ i =>
          rw [List.set_cons_succ, List.flatten_cons, List.flatten_cons]
          exact List.perm_middle.symm.trans ((ih h).append_left thread)

theorem Interleaving.perm {α : Type} {threads : List (List α)} {l : List α} (h : Interleaving threads l) :
    l.Perm threads.flatten := by
  induction h with
  | done h => rw [List.flatten_eq_nil_iff.2 h]
  | next h _ ih => exact (ih.cons _).trans (perm_flatten_set h)

/-! ## Updates of a map -/

namespace SortedMap

variable {κ α : Type} [Ord κ] [Std.TransOrd κ] [Std.LawfulEqOrd κ] [DecidableEq κ] (m : SortedMap κ α)

theorem get?_update (k k' : κ) (start : α) (f : α → α) :
    (m.update k start f).get? k' = if k' = k then some (f ((m.get? k).getD start)) else m.get? k' :=
  m.get?_insert ..

theorem update_comm (k k' : κ) (start : α) (f g : α → α) (h : ∀ v, f (g v) = g (f v)) :
    (m.update k start f).update k' start g = (m.update k' start g).update k start f := by
  refine ext_get? fun k'' => ?_
  simp only [get?_update]
  by_cases hk : k = k'
  · subst hk
    by_cases hk'' : k'' = k <;> simp [hk'', h]
  · by_cases hk'' : k'' = k
    · subst hk''
      simp [hk]
    · simp [hk'', Ne.symm hk]

theorem update_update (k : κ) (start : α) (f g : α → α) :
    (m.update k start f).update k start g = m.update k start fun v => g (f v) := by
  refine ext_get? fun k' => ?_
  simp only [get?_update]
  by_cases hk : k' = k <;> simp [hk]

end SortedMap

/-! ## Steps -/

/-- What a thread does to the cell of a branch in one step. -/
inductive PointStep where
  /-- The cell is looked up, and set up if there is none. -/
  | found
  | marked (outcome : Bool)
  | counted (outcome : Bool)
deriving DecidableEq

def PointCell.step (c : PointCell) : PointStep → PointCell
  | .found => c
  | .marked outcome => { c with state := c.state.after (.ofBool outcome) }
  | .counted true => { c with trueHits := c.trueHits + 1 }
  | .counted false => { c with falseHits := c.falseHits + 1 }

/-- What a thread does to the cell of an assertion in one step. -/
inductive TagStep where
  | found
  | counted (literal : Bool)
deriving DecidableEq

def TagCell.step (c : TagCell) : TagStep → TagCell
  | .found => c
  | .counted literal => c.tag literal

theorem PointCell.step_comm (c : PointCell) (s s' : PointStep) : (c.step s).step s' = (c.step s').step s := by
  cases s with
  | found => rfl
  | marked outcome =>
      cases s' with
      | found => rfl
      | marked outcome' => simp only [step, BranchState.after_comm c.state (.ofBool outcome)]
      | counted outcome' => cases outcome' <;> rfl
  | counted outcome => cases outcome <;> rcases s' with _ | outcome' | (_ | _) <;> rfl

theorem PointCell.has_step {c : PointCell} {b : Bool} (h : c.state.has b = true) (s : PointStep) :
    (c.step s).state.has b = true := by
  rcases s with _ | outcome | (_ | _)
  · exact h
  · have hafter := c.state.has_after outcome b
    rw [h, Bool.true_or] at hafter
    cases outcome <;> exact hafter
  · exact h
  · exact h

theorem TagCell.step_comm (c : TagCell) (s s' : TagStep) : (c.step s).step s' = (c.step s').step s := by
  rcases s with _ | (_ | _) <;> rcases s' with _ | (_ | _) <;> rfl

inductive OracleStep where
  | point (l : LocationId) (s : PointStep)
  | tag (l : LocationId) (s : TagStep)
deriving DecidableEq

/-- The steps in which a thread makes a report. -/
def Observation.steps : Observation → List OracleStep
  | .branch l outcome => [.point l .found, .point l (.marked outcome), .point l (.counted outcome)]
  | .tag l literal => [.tag l .found, .tag l (.counted literal)]

namespace Oracle

def step (o : Oracle) : OracleStep → Oracle
  | .point l s => { o with points := o.points.update l {} (·.step s) }
  | .tag l s => { o with tags := o.tags.update l {} (·.step s) }

def stepAll (o : Oracle) (steps : List OracleStep) : Oracle := steps.foldl step o

theorem stepAll_append (o : Oracle) (steps more : List OracleStep) :
    o.stepAll (steps ++ more) = (o.stepAll steps).stepAll more :=
  List.foldl_append

theorem step_comm (o : Oracle) (s s' : OracleStep) : (o.step s).step s' = (o.step s').step s := by
  cases s with
  | point l s =>
      cases s' with
      | point l' s' =>
          have hpoints := o.points.update_comm l l' {} (·.step s) (·.step s') fun c => c.step_comm s' s
          simp only [step, hpoints]
      | tag l' s' => rfl
  | tag l s =>
      cases s' with
      | point l' s' => rfl
      | tag l' s' =>
          have htags := o.tags.update_comm l l' {} (·.step s) (·.step s') fun c => c.step_comm s' s
          simp only [step, htags]

theorem stepAll_perm {steps steps' : List OracleStep} (h : steps.Perm steps') (o : Oracle) :
    o.stepAll steps = o.stepAll steps' :=
  h.foldl_eq' (fun s _ s' _ o => o.step_comm s s') o

theorem stepAll_steps (o : Oracle) (ob : Observation) : o.stepAll ob.steps = o.observe ob := by
  cases ob with
  | branch l outcome =>
      cases outcome <;>
        simp [stepAll, Observation.steps, step, SortedMap.update_update, observe, onBranch, PointCell.step,
          PointCell.hit, Polarity.ofBool]
  | tag l literal =>
      simp [stepAll, Observation.steps, step, SortedMap.update_update, observe, assertReached, TagCell.step]

theorem stepAll_flatMap (o : Oracle) (obs : List Observation) :
    o.stepAll (obs.flatMap Observation.steps) = o.observeAll obs := by
  induction obs generalizing o with
  | nil => rfl
  | cons ob obs ih =>
      rw [List.flatMap_cons, stepAll_append, stepAll_steps, ih]
      rfl

theorem has_step {o : Oracle} {l : LocationId} {b : Bool} (h : (o.state l).has b = true) (s : OracleStep) :
    ((o.step s).state l).has b = true := by
  cases s with
  | tag l' s => exact h
  | point l' s =>
      rw [state, step, SortedMap.get?_update]
      split
      · rename_i hl
        subst hl
        exact PointCell.has_step h s
      · exact h

theorem reachedBoth_stepAll {o : Oracle} {l : LocationId} (h : o.state l = .reachedBoth) (steps : List OracleStep) :
    (o.stepAll steps).state l = .reachedBoth := by
  induction steps generalizing o with
  | nil => exact h
  | cons s steps ih =>
      refine ih (o := o.step s) ?_
      rw [BranchState.eq_reachedBoth_iff] at h ⊢
      exact fun outcome => has_step (h outcome) s

/-! ## All that the threads report -/

theorem observeAll_perm {obs obs' : List Observation} (h : obs.Perm obs') (o : Oracle) :
    o.observeAll obs = o.observeAll obs' := by
  rw [← stepAll_flatMap, ← stepAll_flatMap]
  exact stepAll_perm (h.flatMap_right _) o

theorem stepAll_interleaving {threads : List (List Observation)} {steps : List OracleStep}
    (h : Interleaving (threads.map (·.flatMap Observation.steps)) steps) (o : Oracle) :
    o.stepAll steps = o.observeAll threads.flatten := by
  have hflat : ∀ threads : List (List Observation),
      (threads.map (·.flatMap Observation.steps)).flatten = threads.flatten.flatMap Observation.steps := by
    intro threads
    induction threads with
    | nil => rfl
    | cons thread threads ih => simp [ih]
  rw [stepAll_perm h.perm, hflat, stepAll_flatMap]

end Oracle

/-- The later report has what the earlier one has, and the observations on top. Counters are compared as they
count, from the maximum on to zero. -/
structure BranchReport.Gathers (r : BranchReport) (obs : List Observation) (r' : BranchReport) : Prop where
  hits : ∀ l outcome, ((r'.pointAt l).hits outcome - (r.pointAt l).hits outcome).toNat = obs.count (.branch l outcome)
  tags : ∀ l literal, ((r'.tagsAt l).count literal - (r.tagsAt l).count literal).toNat = obs.count (.tag l literal)
  outcomes : ∀ l outcome, (r'.pointAt l).state.has outcome = true ↔
    (r.pointAt l).state.has outcome = true ∨ .branch l outcome ∈ obs
  points : ∀ l, l ∈ r'.points.map (·.location) ↔
    l ∈ r.points.map (·.location) ∨ ∃ outcome, .branch l outcome ∈ obs
  tagged : ∀ l, l ∈ r'.tags.map (·.location) ↔ l ∈ r.tags.map (·.location) ∨ ∃ literal, .tag l literal ∈ obs

theorem Oracle.report_gathers (o : Oracle) {obs : List Observation} (h : obs.length < 2 ^ 64) :
    o.report.Gathers obs (o.observeAll obs).report := by
  have hgrown : ∀ (counter : UInt64) (ob : Observation),
      (counter + .ofNat (obs.count ob) - counter).toNat = obs.count ob := by
    intro counter ob
    rw [UInt64.add_comm, UInt64.add_sub_cancel]
    exact UInt64.toNat_ofNat_of_lt' (Nat.lt_of_le_of_lt List.count_le_length h)
  constructor
  case hits =>
    intro l outcome
    rw [report_pointAt, report_pointAt, hits_observeAll, hgrown]
  case tags =>
    intro l literal
    rw [report_tagsAt, report_tagsAt, count_observeAll, hgrown]
  case outcomes =>
    intro l outcome
    rw [report_pointAt, report_pointAt, pointAt_state, pointAt_state]
    exact o.has_observeAll obs l outcome
  case points =>
    intro l
    rw [report_points, report_points]
    exact o.mem_branchPoints_observeAll obs l
  case tagged =>
    intro l
    rw [report_tags, report_tags]
    exact o.mem_tags_observeAll obs l

/-- Let any number of threads report to an oracle, fewer than `2 ^ 64` reports in all. Whether a report is made at
once or in steps between which the others get in, the oracle comes to the same report in every interleaving: the
counters have moved by the numbers of reports, the states show the outcomes that they showed and those that were
reported, branches have left the assertions as they are and assertions the branches. At no time is a branch
incomplete that was complete before. -/
theorem Oracle.report_interleaved (o : Oracle) (threads : List (List Observation))
    (hcount : threads.flatten.length < 2 ^ 64) :
    let final := o.observeAll threads.flatten
    (∀ obs, Interleaving threads obs → (o.observeAll obs).report = final.report) ∧
      (∀ steps, Interleaving (threads.map (·.flatMap Observation.steps)) steps →
        (o.stepAll steps).report = final.report ∧
          ∀ before later, before ++ later <+: steps → ∀ l, (o.stepAll before).state l = .reachedBoth →
            (o.stepAll (before ++ later)).state l = .reachedBoth) ∧
      o.report.Gathers threads.flatten final.report ∧
      final.points = (o.observeAll (threads.flatten.filter (·.isBranch))).points ∧
      final.tags = (o.observeAll (threads.flatten.filter (!·.isBranch))).tags := by
  intro final
  refine ⟨fun obs h => ?_, fun steps h => ⟨?_, fun before later _ l hboth => ?_⟩, o.report_gathers hcount,
    points_observeAll rfl _, tags_observeAll rfl _⟩
  · rw [observeAll_perm h.perm]
  · rw [stepAll_interleaving h]
  · rw [stepAll_append]
    exact reachedBoth_stepAll hboth later

/-- Two threads come to a branch that no one has been at. The second sets up the cell and marks its outcome while the
first is on its way from the look-up to the mark, and a counter goes on from its maximum. -/
theorem Oracle.report_interleaved_two_threads :
    let o : Oracle := { points := (∅ : SortedMap LocationId PointCell).insert ⟨2⟩ ⟨.reachedFalse, 0, 0xFFFFFFFFFFFFFFFF⟩ }
    let threads : List (List Observation) := [[.branch ⟨1⟩ true, .tag ⟨1⟩ true], [.branch ⟨1⟩ false, .branch ⟨2⟩ false]]
    let steps : List OracleStep := [.point ⟨1⟩ .found, .point ⟨1⟩ .found, .point ⟨1⟩ (.marked false),
      .point ⟨1⟩ (.marked true), .point ⟨1⟩ (.counted false), .point ⟨2⟩ .found, .point ⟨1⟩ (.counted true),
      .point ⟨2⟩ (.marked false), .tag ⟨1⟩ .found, .tag ⟨1⟩ (.counted true), .point ⟨2⟩ (.counted false)]
    Interleaving (threads.map (·.flatMap Observation.steps)) steps ∧
      (o.stepAll steps).report = (o.observeAll threads.flatten).report ∧
      (o.stepAll steps).pointAt ⟨1⟩ = ⟨.reachedBoth, 1, 1⟩ ∧ (o.stepAll steps).pointAt ⟨2⟩ = ⟨.reachedFalse, 0, 0⟩ := by
  intro o threads steps
  have h : Interleaving (threads.map (·.flatMap Observation.steps)) steps :=
    .next (i := 0) rfl <| .next (i := 1) rfl <| .next (i := 1) rfl <| .next (i := 0) rfl <| .next (i := 1) rfl <|
      .next (i := 1) rfl <| .next (i := 0) rfl <| .next (i := 1) rfl <| .next (i := 0) rfl <| .next (i := 0) rfl <|
      .next (i := 1) rfl <| .done (by decide)
  exact ⟨h, ((report_interleaved o threads (by decide)).2.1 steps h).1, by decide +kernel, by decide +kernel⟩

end MockExplorer
