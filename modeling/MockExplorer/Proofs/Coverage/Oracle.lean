import MockExplorer.Coverage.Oracle
import MockExplorer.Proofs.SortedMap
import Mathlib.Algebra.Group.Nat.Defs
import Mathlib.Data.List.Perm.Subperm

/-!
# What an oracle has seen

An observation changes the cell of its own kind at its own location. So the state of a location is the set of
outcomes that were reported there, its counters are the numbers of reports, and branches and assertions do not get
in each other's way.
-/

namespace MockExplorer

/-! ## States of locations -/

/-- What an observation does to the state of a location. -/
def Observation.moves (l : LocationId) (state : BranchState) : Observation → BranchState
  | .branch l' outcome => if l = l' then state.after (if outcome then .onTrue else .onFalse) else state
  | .tag _ _ => state

theorem Oracle.state_observe (o : Oracle) (obs : Observation) (l : LocationId) :
    (o.observe obs).state l = obs.moves l (o.state l) := by
  cases obs with
  | tag l' literal => rfl
  | branch l' outcome =>
      simp only [Oracle.observe, Oracle.onBranch, Oracle.state, SortedMap.update, SortedMap.get?_insert,
        Observation.moves]
      by_cases hl : l = l'
      · subst hl
        cases outcome <;> simp [PointCell.hit]
      · simp [hl]

theorem Oracle.state_observeAll (o : Oracle) (obs : List Observation) (l : LocationId) :
    (o.observeAll obs).state l = obs.foldl (fun state ob => ob.moves l state) (o.state l) := by
  induction obs generalizing o with
  | nil => rfl
  | cons ob obs ih =>
      rw [List.foldl_cons, ← Oracle.state_observe]
      exact ih (o.observe ob)

theorem Oracle.state_observeAll_of_not_mem (o : Oracle) {obs : List Observation} {l : LocationId}
    (h : ∀ outcome, .branch l outcome ∉ obs) : (o.observeAll obs).state l = o.state l := by
  rw [Oracle.state_observeAll]
  induction obs with
  | nil => rfl
  | cons ob obs ih =>
      have hstays : ob.moves l (o.state l) = o.state l := by
        cases ob with
        | tag l' literal => rfl
        | branch l' outcome =>
            refine if_neg fun heq => h outcome ?_
            rw [heq]
            exact List.mem_cons_self ..
      rw [List.foldl_cons, hstays]
      exact ih fun outcome hmem => h outcome (List.mem_cons_of_mem _ hmem)

theorem Oracle.state_labelAll (o : Oracle) (names : List (LocationId × String)) (l : LocationId) :
    (o.labelAll names).state l = o.state l := by
  induction names generalizing o with
  | nil => rfl
  | cons name names ih => exact ih (o.label name.1 name.2)

theorem Oracle.branchPoints_labelAll (o : Oracle) (names : List (LocationId × String)) :
    (o.labelAll names).branchPoints = o.branchPoints := by
  induction names generalizing o with
  | nil => rfl
  | cons name names ih => exact ih (o.label name.1 name.2)

/-! ## Outcomes -/

namespace BranchState

def has : BranchState → Bool → Bool
  | .unreached, _ => false
  | .reachedTrue, outcome => outcome
  | .reachedFalse, outcome => !outcome
  | .reachedBoth, _ => true

theorem eq_reachedBoth_iff {state : BranchState} : state = .reachedBoth ↔ ∀ outcome, state.has outcome = true := by
  cases state <;> simp [has]

theorem has_after (state : BranchState) (outcome b : Bool) :
    (state.after (if outcome then .onTrue else .onFalse)).has b = (state.has b || outcome == b) := by
  cases state <;> cases outcome <;> cases b <;> rfl

end BranchState

theorem Observation.has_moves (ob : Observation) (l : LocationId) (state : BranchState) (b : Bool) :
    (ob.moves l state).has b = true ↔ state.has b = true ∨ .branch l b = ob := by
  cases ob with
  | tag l' literal => simp [moves]
  | branch l' outcome =>
      by_cases hl : l = l'
      · subst hl
        rw [moves, if_pos rfl, BranchState.has_after]
        simp [eq_comm (a := b)]
      · simp [moves, hl]

namespace Oracle

/-- What one observation brings about or not, observations bring about if one of them does. -/
theorem observeAll_iff {P : Oracle → Prop} {Q : Observation → Prop} (h : ∀ o ob, P (o.observe ob) ↔ P o ∨ Q ob)
    (o : Oracle) (obs : List Observation) : P (o.observeAll obs) ↔ P o ∨ ∃ ob ∈ obs, Q ob := by
  induction obs generalizing o with
  | nil => simp [observeAll]
  | cons ob obs ih =>
      have hcons : (∃ ob' ∈ ob :: obs, Q ob') ↔ Q ob ∨ ∃ ob' ∈ obs, Q ob' := by simp
      rw [hcons, ← or_assoc, ← h]
      exact ih (o.observe ob)

/-- A state shows the outcomes that it showed before and those that were reported. -/
theorem has_observeAll (o : Oracle) (obs : List Observation) (l : LocationId) (b : Bool) :
    ((o.observeAll obs).state l).has b = true ↔ (o.state l).has b = true ∨ .branch l b ∈ obs := by
  have hstep : ∀ (o : Oracle) (ob : Observation),
      ((o.observe ob).state l).has b = true ↔ (o.state l).has b = true ∨ .branch l b = ob := by
    intro o ob
    rw [state_observe, Observation.has_moves]
  simpa using observeAll_iff (P := fun o => (o.state l).has b = true) hstep o obs

theorem mem_branchPoints_observeAll (o : Oracle) (obs : List Observation) (l : LocationId) :
    l ∈ (o.observeAll obs).branchPoints ↔ l ∈ o.branchPoints ∨ ∃ outcome, .branch l outcome ∈ obs := by
  have hstep : ∀ (o : Oracle) (ob : Observation),
      l ∈ (o.observe ob).branchPoints ↔ l ∈ o.branchPoints ∨ ∃ outcome, .branch l outcome = ob := by
    intro o ob
    cases ob with
    | tag l' literal => simp [observe, assertReached, branchPoints]
    | branch l' outcome =>
        simp only [observe, onBranch, branchPoints, SortedMap.mem_keys, SortedMap.update, SortedMap.get?_insert]
        by_cases hl : l = l' <;> simp [hl]
  have hall := observeAll_iff (P := fun o => l ∈ o.branchPoints) hstep o obs
  rw [hall]
  apply or_congr_right
  constructor
  · rintro ⟨ob, hob, outcome, rfl⟩
    exact ⟨outcome, hob⟩
  · rintro ⟨outcome, hob⟩
    exact ⟨_, hob, outcome, rfl⟩

theorem mem_tags_observeAll (o : Oracle) (obs : List Observation) (l : LocationId) :
    l ∈ (o.observeAll obs).tags.keys ↔ l ∈ o.tags.keys ∨ ∃ literal, .tag l literal ∈ obs := by
  have hstep : ∀ (o : Oracle) (ob : Observation),
      l ∈ (o.observe ob).tags.keys ↔ l ∈ o.tags.keys ∨ ∃ literal, .tag l literal = ob := by
    intro o ob
    cases ob with
    | branch l' outcome => simp [observe, onBranch]
    | tag l' literal =>
        simp only [observe, assertReached, SortedMap.mem_keys, SortedMap.update, SortedMap.get?_insert]
        by_cases hl : l = l' <;> simp [hl]
  have hall := observeAll_iff (P := fun o => l ∈ o.tags.keys) hstep o obs
  rw [hall]
  apply or_congr_right
  constructor
  · rintro ⟨ob, hob, literal, rfl⟩
    exact ⟨literal, hob⟩
  · rintro ⟨literal, hob⟩
    exact ⟨_, hob, literal, rfl⟩

theorem reachedBoth_observeAll {o : Oracle} {l : LocationId} (h : o.state l = .reachedBoth)
    (obs : List Observation) : (o.observeAll obs).state l = .reachedBoth := by
  rw [BranchState.eq_reachedBoth_iff] at h ⊢
  exact fun outcome => (o.has_observeAll obs l outcome).2 (.inl (h outcome))

end Oracle

/-! ## Counters -/

def PointCell.hits (c : PointCell) (outcome : Bool) : UInt64 := if outcome then c.trueHits else c.falseHits

def TagCell.count (c : TagCell) (literal : Bool) : UInt64 := if literal then c.trueTags else c.falseTags

theorem PointCell.hits_hit (c : PointCell) (outcome b : Bool) :
    (c.hit outcome).hits b = c.hits b + if outcome = b then 1 else 0 := by
  cases outcome <;> cases b <;> simp [hit, hits]

theorem TagCell.count_tag (c : TagCell) (literal b : Bool) :
    (c.tag literal).count b = c.count b + if literal = b then 1 else 0 := by
  cases literal <;> cases b <;> simp [tag, count]

namespace Oracle

def pointAt (o : Oracle) (l : LocationId) : PointCell := (o.points.get? l).getD {}

theorem pointAt_state (o : Oracle) (l : LocationId) : (o.pointAt l).state = o.state l := rfl

theorem hits_observe (o : Oracle) (ob : Observation) (l : LocationId) (b : Bool) :
    ((o.observe ob).pointAt l).hits b = (o.pointAt l).hits b + if .branch l b = ob then 1 else 0 := by
  cases ob with
  | tag l' literal => simp [observe, assertReached, pointAt]
  | branch l' outcome =>
      simp only [observe, onBranch, pointAt, SortedMap.update, SortedMap.get?_insert]
      by_cases hl : l = l'
      · simp [hl, PointCell.hits_hit, eq_comm]
      · simp [hl]

theorem count_observe (o : Oracle) (ob : Observation) (l : LocationId) (b : Bool) :
    ((o.observe ob).tagsAt l).count b = (o.tagsAt l).count b + if .tag l b = ob then 1 else 0 := by
  cases ob with
  | branch l' outcome => simp [observe, onBranch, tagsAt]
  | tag l' literal =>
      simp only [observe, assertReached, tagsAt, SortedMap.update, SortedMap.get?_insert]
      by_cases hl : l = l'
      · simp [hl, TagCell.count_tag, eq_comm]
      · simp [hl]

/-- A counter that every report of one kind moves by one stands, in the end, at the number of these reports past
where it stood. -/
theorem counter_observeAll (counter : Oracle → UInt64) {counted : Observation}
    (h : ∀ o ob, counter (o.observe ob) = counter o + if counted = ob then 1 else 0) (o : Oracle)
    (obs : List Observation) : counter (o.observeAll obs) = counter o + .ofNat (obs.count counted) := by
  induction obs generalizing o with
  | nil => simp [observeAll]
  | cons ob obs ih =>
      have hrest : counter (o.observeAll (ob :: obs)) = counter (o.observe ob) + .ofNat (obs.count counted) :=
        ih (o.observe ob)
      rw [hrest, h, List.count_cons, UInt64.add_assoc]
      by_cases hob : counted = ob
      · simp [hob, UInt64.add_comm]
      · simp [hob, Ne.symm hob]

theorem hits_observeAll (o : Oracle) (obs : List Observation) (l : LocationId) (b : Bool) :
    ((o.observeAll obs).pointAt l).hits b = (o.pointAt l).hits b + .ofNat (obs.count (.branch l b)) :=
  counter_observeAll (fun o => (o.pointAt l).hits b) (fun o ob => o.hits_observe ob l b) o obs

theorem count_observeAll (o : Oracle) (obs : List Observation) (l : LocationId) (b : Bool) :
    ((o.observeAll obs).tagsAt l).count b = (o.tagsAt l).count b + .ofNat (obs.count (.tag l b)) :=
  counter_observeAll (fun o => (o.tagsAt l).count b) (fun o ob => o.count_observe ob l b) o obs

end Oracle

/-! ## Branches and assertions apart -/

def Observation.isBranch : Observation → Bool
  | .branch _ _ => true
  | .tag _ _ => false

namespace Oracle

theorem points_observeAll {o o' : Oracle} (h : o.points = o'.points) (obs : List Observation) :
    (o.observeAll obs).points = (o'.observeAll (obs.filter (·.isBranch))).points := by
  induction obs generalizing o o' with
  | nil => exact h
  | cons ob obs ih =>
      cases ob with
      | branch l outcome =>
          have hstep : (o.onBranch l outcome).points = (o'.onBranch l outcome).points := by simp [onBranch, h]
          exact ih hstep
      | tag l literal => exact ih (o := o.assertReached l literal) h

theorem tags_observeAll {o o' : Oracle} (h : o.tags = o'.tags) (obs : List Observation) :
    (o.observeAll obs).tags = (o'.observeAll (obs.filter (!·.isBranch))).tags := by
  induction obs generalizing o o' with
  | nil => exact h
  | cons ob obs ih =>
      cases ob with
      | branch l outcome => exact ih (o := o.onBranch l outcome) h
      | tag l literal =>
          have hstep : (o.assertReached l literal).tags = (o'.assertReached l literal).tags := by
            simp [assertReached, h]
          exact ih hstep

end Oracle

/-! ## Reports -/

namespace BranchReport

def pointAt (r : BranchReport) (l : LocationId) : PointCell :=
  match r.points.find? (·.location = l) with
  | some row => ⟨row.state, row.trueHits, row.falseHits⟩
  | none => {}

def tagsAt (r : BranchReport) (l : LocationId) : TagCell :=
  match r.tags.find? (·.location = l) with
  | some row => ⟨row.trueTags, row.falseTags⟩
  | none => {}

end BranchReport

namespace Oracle

theorem report_pointAt (o : Oracle) (l : LocationId) : o.report.pointAt l = o.pointAt l := by
  have hrow : o.report.points.find? (·.location = l) = (o.points.get? l).map fun c =>
      { location := l, label := o.labels.get? l, state := c.state
        trueHits := c.trueHits, falseHits := c.falseHits } := by
    have hentry := o.points.find?_entries l
    simp only [report, pointReports, List.find?_map, Function.comp_def, hentry, Option.map_map]
  rw [BranchReport.pointAt, hrow, pointAt]
  cases o.points.get? l <;> rfl

theorem report_tagsAt (o : Oracle) (l : LocationId) : o.report.tagsAt l = o.tagsAt l := by
  have hrow : o.report.tags.find? (·.location = l) = (o.tags.get? l).map fun c =>
      { location := l, label := o.labels.get? l, trueTags := c.trueTags, falseTags := c.falseTags } := by
    have hentry := o.tags.find?_entries l
    simp only [report, tagReports, List.find?_map, Function.comp_def, hentry, Option.map_map]
  rw [BranchReport.tagsAt, hrow, tagsAt]
  cases o.tags.get? l <;> rfl

theorem report_points (o : Oracle) : o.report.points.map (·.location) = o.branchPoints := by
  simp [report, pointReports, branchPoints, SortedMap.keys, Function.comp_def]

theorem report_tags (o : Oracle) : o.report.tags.map (·.location) = o.tags.keys := by
  simp [report, tagReports, SortedMap.keys, Function.comp_def]

theorem mem_report_points {o : Oracle} {row : PointReport} (h : row ∈ o.report.points) :
    row.location ∈ o.branchPoints ∧ row.state = o.state row.location := by
  constructor
  · rw [← report_points]
    exact List.mem_map_of_mem h
  · obtain ⟨⟨l, c⟩, hentry, rfl⟩ := List.mem_map.1 h
    simp [state, SortedMap.mem_entries.1 hentry]

theorem length_branchPoints_le (o : Oracle) : o.branchPoints.length ≤ 2 ^ 32 := by
  have hnodup : (o.branchPoints.map (·.id.toNat)).Nodup := by
    rw [branchPoints, SortedMap.keys, List.map_map, List.Nodup, List.pairwise_map]
    refine o.points.ascending.imp fun {e e'} hlt heq => ?_
    have hsame : e.1 = e'.1 := congrArg LocationId.mk (UInt32.toNat_inj.1 heq)
    simp [hsame] at hlt
  -- Every branch point has a number of its own, and these have 32 bits.
  have hrange : o.branchPoints.map (·.id.toNat) ⊆ List.range (2 ^ 32) := by
    intro n hn
    obtain ⟨l, _, rfl⟩ := List.mem_map.1 hn
    exact List.mem_range.2 l.id.toNat_lt
  have hlength := (hnodup.subperm hrange).length_le
  rwa [List.length_map, List.length_range] at hlength

end Oracle

/-! ## Summaries -/

/-- A reached point has one outcome, and a complete one has one more. -/
theorem foldl_outcomes {points : List PointReport} (h : ∀ row ∈ points, row.state ≠ .unreached) (n : Nat) :
    points.foldl (fun n p => n + p.state.outcomes) n =
      n + (points.length + points.countP (·.state.isComplete)) := by
  induction points generalizing n with
  | nil => rfl
  | cons row points ih =>
      obtain ⟨hrow, hrest⟩ := List.forall_mem_cons.1 h
      have houtcomes : row.state.outcomes = 1 + if row.state.isComplete then 1 else 0 := by
        cases hstate : row.state with
        | unreached => exact absurd hstate hrow
        | reachedTrue => rfl
        | reachedFalse => rfl
        | reachedBoth => rfl
      rw [List.foldl_cons, ih hrest, houtcomes, List.countP_cons, List.length_cons]
      omega

namespace Oracle

theorem length_report_points_le (o : Oracle) : o.report.points.length ≤ 2 ^ 32 := by
  rw [← List.length_map PointReport.location, report_points]
  exact o.length_branchPoints_le

theorem report_totalPoints (o : Oracle) : o.report.summary.totalPoints.toNat = o.report.points.length :=
  UInt64.toNat_ofNat_of_lt' (Nat.lt_of_le_of_lt o.length_report_points_le (by decide))

theorem report_completePoints (o : Oracle) :
    o.report.summary.completePoints.toNat = o.report.points.countP (·.state.isComplete) := by
  refine UInt64.toNat_ofNat_of_lt' (Nat.lt_of_le_of_lt List.countP_le_length ?_)
  exact Nat.lt_of_le_of_lt o.length_report_points_le (by decide)

theorem report_reachedOutcomes {o : Oracle} (h : ∀ row ∈ o.report.points, row.state ≠ .unreached) :
    o.report.summary.reachedOutcomes.toNat =
      o.report.summary.totalPoints.toNat + o.report.summary.completePoints.toNat := by
  have hreached := congrArg UInt64.ofNat (foldl_outcomes h 0)
  have hlength := o.length_report_points_le
  have hcount : o.report.points.countP (·.state.isComplete) ≤ o.report.points.length := List.countP_le_length
  rw [report_totalPoints, report_completePoints]
  refine (congrArg UInt64.toNat hreached).trans ?_
  rw [Nat.zero_add]
  refine UInt64.toNat_ofNat_of_lt' ?_
  rw [UInt64.size]
  omega

end Oracle

/-! ## Full coverage -/

/-- Every point of the report is shown as reached both ways, and counted so. -/
structure BranchReport.Full (r : BranchReport) : Prop where
  rows : ∀ row ∈ r.points, row.state = .reachedBoth
  isComplete : r.isComplete = true
  totalPoints : r.summary.totalPoints.toNat = r.points.length
  reachedOutcomes : r.summary.reachedOutcomes.toNat = 2 * r.summary.totalPoints.toNat
  completePoints : r.summary.completePoints = r.summary.totalPoints

namespace Oracle

variable {o : Oracle}

def Complete (o : Oracle) : Prop := ∀ l ∈ o.branchPoints, o.state l = .reachedBoth

theorem Complete.labelAll (h : o.Complete) (names : List (LocationId × String)) : (o.labelAll names).Complete := by
  intro l hl
  rw [branchPoints_labelAll] at hl
  rw [state_labelAll]
  exact h l hl

theorem Complete.observeAll (h : o.Complete) {obs : List Observation}
    (hobs : ∀ l outcome, .branch l outcome ∈ obs → (o.observeAll obs).state l = .reachedBoth) :
    (o.observeAll obs).Complete := by
  intro l hl
  rcases (o.mem_branchPoints_observeAll obs l).1 hl with hold | ⟨outcome, hnew⟩
  · exact reachedBoth_observeAll (h l hold) obs
  · exact hobs l outcome hnew

theorem Complete.report (h : o.Complete) : o.report.Full := by
  have hrows : ∀ row ∈ o.report.points, row.state = .reachedBoth := by
    intro row hrow
    obtain ⟨hl, hstate⟩ := mem_report_points hrow
    rw [hstate, h _ hl]
  have hcomplete : ∀ row ∈ o.report.points, row.state.isComplete = true := fun row hrow => by
    rw [hrows row hrow]
    rfl
  have hcount : o.report.points.countP (·.state.isComplete) = o.report.points.length :=
    List.countP_eq_length.2 hcomplete
  have hall : o.report.summary.completePoints = o.report.summary.totalPoints := congrArg UInt64.ofNat hcount
  refine ⟨hrows, List.all_eq_true.2 hcomplete, o.report_totalPoints, ?_, hall⟩
  rw [report_reachedOutcomes fun row hrow => by simp [hrows row hrow], hall, Nat.two_mul]

end Oracle

end MockExplorer
