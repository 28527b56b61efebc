import MockExplorer.Proofs.Coverage.Oracle

/-!
# What a report tells

An oracle is told of branches and assertions, given labels and reset, in any order. Its report lists the branches that
were seen since the last reset, in the order of their locations, with the number of times that each went either way and
with the label that the location got last. The summary counts these rows.
-/

namespace MockExplorer

/-! ## Calls -/

/-- What changes an oracle. -/
inductive OracleCall where
  | observed (ob : Observation)
  | labelled (location : LocationId) (name : String)
  | reset
deriving DecidableEq

namespace OracleCall

def observation? : OracleCall → Option Observation
  | .observed ob => some ob
  | .labelled _ _ => none
  | .reset => none

def labelOf? (l : LocationId) : OracleCall → Option String
  | .observed _ => none
  | .labelled l' name => if l = l' then some name else none
  | .reset => none

end OracleCall

/-- The observations after the last reset, or all of them if there was none. -/
def sinceReset (calls : List OracleCall) : List Observation :=
  ((calls.reverse.takeWhile (· ≠ .reset)).reverse).filterMap OracleCall.observation?

/-- The label that a location got last. -/
def lastLabel? (calls : List OracleCall) (l : LocationId) : Option String :=
  calls.reverse.findSome? (OracleCall.labelOf? l)

theorem sinceReset_observed (calls : List OracleCall) (ob : Observation) :
    sinceReset (calls ++ [.observed ob]) = sinceReset calls ++ [ob] := by
  simp [sinceReset, OracleCall.observation?]

theorem sinceReset_labelled (calls : List OracleCall) (l : LocationId) (name : String) :
    sinceReset (calls ++ [.labelled l name]) = sinceReset calls := by
  simp [sinceReset, OracleCall.observation?]

theorem sinceReset_reset (calls : List OracleCall) : sinceReset (calls ++ [.reset]) = [] := by
  simp [sinceReset]

theorem lastLabel?_append (calls : List OracleCall) (call : OracleCall) (l : LocationId) :
    lastLabel? (calls ++ [call]) l = (call.labelOf? l).or (lastLabel? calls l) := by
  rw [lastLabel?, List.reverse_append, List.reverse_singleton, List.singleton_append, List.findSome?_cons]
  cases call.labelOf? l <;> rfl

theorem length_sinceReset_le (calls : List OracleCall) : (sinceReset calls).length ≤ calls.length := by
  have hkept := (List.takeWhile_prefix (· ≠ OracleCall.reset) : _ <+: calls.reverse).length_le
  rw [List.length_reverse] at hkept
  refine Nat.le_trans (List.length_filterMap_le ..) ?_
  rwa [List.length_reverse]

theorem count_sinceReset_lt {calls : List OracleCall} (h : calls.length < 2 ^ 64) (ob : Observation) :
    (sinceReset calls).count ob < 2 ^ 64 :=
  Nat.lt_of_le_of_lt (Nat.le_trans List.count_le_length (length_sinceReset_le calls)) h

namespace Oracle

def perform (o : Oracle) : OracleCall → Oracle
  | .observed ob => o.observe ob
  | .labelled l name => o.label l name
  | .reset => o.reset

def performAll (o : Oracle) (calls : List OracleCall) : Oracle := calls.foldl perform o

/-! ## What the calls leave behind -/

variable {o : Oracle} {calls : List OracleCall}

/-- The oracle holds what was observed since the last reset, and every label. -/
structure Records (o : Oracle) (calls : List OracleCall) : Prop where
  points : o.points = (({} : Oracle).observeAll (sinceReset calls)).points
  tags : o.tags = (({} : Oracle).observeAll (sinceReset calls)).tags
  labels : ∀ l, o.labels.get? l = lastLabel? calls l

theorem observeAll_append (o : Oracle) (obs : List Observation) (ob : Observation) :
    o.observeAll (obs ++ [ob]) = (o.observeAll obs).observe ob := by
  simp [observeAll]

theorem points_observe {o o' : Oracle} (h : o.points = o'.points) (ob : Observation) :
    (o.observe ob).points = (o'.observe ob).points := by
  cases ob with
  | branch l outcome => simp [observe, onBranch, h]
  | tag l literal => exact h

theorem tags_observe {o o' : Oracle} (h : o.tags = o'.tags) (ob : Observation) :
    (o.observe ob).tags = (o'.observe ob).tags := by
  cases ob with
  | branch l outcome => exact h
  | tag l literal => simp [observe, assertReached, h]

theorem labels_observe (o : Oracle) (ob : Observation) : (o.observe ob).labels = o.labels := by
  cases ob <;> rfl

theorem Records.perform (h : o.Records calls) (call : OracleCall) :
    (o.perform call).Records (calls ++ [call]) := by
  cases call with
  | observed ob =>
      constructor
      · rw [sinceReset_observed, observeAll_append]
        exact points_observe h.points ob
      · rw [sinceReset_observed, observeAll_append]
        exact tags_observe h.tags ob
      · intro l
        rw [lastLabel?_append]
        exact (congrArg (·.get? l) (o.labels_observe ob)).trans (h.labels l)
  | labelled l name =>
      constructor
      · rw [sinceReset_labelled]
        exact h.points
      · rw [sinceReset_labelled]
        exact h.tags
      · intro l'
        rw [lastLabel?_append, ← h.labels]
        simp only [Oracle.perform, label, SortedMap.get?_insert, OracleCall.labelOf?]
        split <;> rfl
  | reset =>
      constructor
      · rw [sinceReset_reset]
        rfl
      · rw [sinceReset_reset]
        rfl
      · intro l
        rw [lastLabel?_append]
        exact h.labels l

theorem Records.performAll {before : List OracleCall} (h : o.Records before) (calls : List OracleCall) :
    (o.performAll calls).Records (before ++ calls) := by
  induction calls generalizing o before with
  | nil => rwa [List.append_nil]
  | cons call calls ih =>
      have hrest := ih (h.perform call)
      rwa [List.append_assoc] at hrest

theorem Records.new : ({} : Oracle).Records [] := ⟨rfl, rfl, fun _ => rfl⟩

theorem Records.hits (h : o.Records calls) (hlength : calls.length < 2 ^ 64)
    (l : LocationId) (b : Bool) : ((o.pointAt l).hits b).toNat = (sinceReset calls).count (.branch l b) := by
  have hcell : o.pointAt l = (({} : Oracle).observeAll (sinceReset calls)).pointAt l := by
    rw [pointAt, pointAt, h.points]
  have hnew : (({} : Oracle).pointAt l).hits b = 0 := by cases b <;> rfl
  rw [hcell, hits_observeAll, hnew, UInt64.zero_add]
  exact UInt64.toNat_ofNat_of_lt' (count_sinceReset_lt hlength _)

theorem Records.counts (h : o.Records calls) (hlength : calls.length < 2 ^ 64)
    (l : LocationId) (b : Bool) : ((o.tagsAt l).count b).toNat = (sinceReset calls).count (.tag l b) := by
  have hcell : o.tagsAt l = (({} : Oracle).observeAll (sinceReset calls)).tagsAt l := by
    rw [tagsAt, tagsAt, h.tags]
  have hnew : (({} : Oracle).tagsAt l).count b = 0 := by cases b <;> rfl
  rw [hcell, count_observeAll, hnew, UInt64.zero_add]
  exact UInt64.toNat_ofNat_of_lt' (count_sinceReset_lt hlength _)

theorem Records.has (h : o.Records calls) (l : LocationId) (b : Bool) :
    (o.state l).has b = true ↔ 0 < (sinceReset calls).count (.branch l b) := by
  have hstate : o.state l = (({} : Oracle).observeAll (sinceReset calls)).state l := by
    rw [state, state, h.points]
  have hnew : ¬ (({} : Oracle).state l).has b = true := Bool.false_ne_true
  rw [hstate, has_observeAll, List.count_pos_iff, or_iff_right hnew]

theorem Records.mem_branchPoints (h : o.Records calls) (l : LocationId) :
    l ∈ o.branchPoints ↔ ∃ outcome, .branch l outcome ∈ sinceReset calls := by
  have hnew : l ∉ ({} : Oracle).branchPoints := List.not_mem_nil
  rw [branchPoints, h.points]
  exact (mem_branchPoints_observeAll {} (sinceReset calls) l).trans (or_iff_right hnew)

theorem Records.mem_tags (h : o.Records calls) (l : LocationId) :
    l ∈ o.tags.keys ↔ ∃ literal, .tag l literal ∈ sinceReset calls := by
  have hnew : l ∉ ({} : Oracle).tags.keys := List.not_mem_nil
  rw [h.tags, mem_tags_observeAll, or_iff_right hnew]

end Oracle

/-! ## Rows -/

/-- The row counts what was observed at its location since the last reset, and has the last label given there. -/
structure PointReport.Tells (row : PointReport) (calls : List OracleCall) : Prop where
  trueHits : row.trueHits.toNat = (sinceReset calls).count (.branch row.location true)
  falseHits : row.falseHits.toNat = (sinceReset calls).count (.branch row.location false)
  reached : row.state ≠ .unreached
  onlyTrue : row.state = .reachedTrue ↔ 0 < row.trueHits.toNat ∧ row.falseHits.toNat = 0
  onlyFalse : row.state = .reachedFalse ↔ row.trueHits.toNat = 0 ∧ 0 < row.falseHits.toNat
  both : row.state = .reachedBoth ↔ 0 < row.trueHits.toNat ∧ 0 < row.falseHits.toNat
  label : row.label = lastLabel? calls row.location

structure TagReport.Tells (row : TagReport) (calls : List OracleCall) : Prop where
  trueTags : row.trueTags.toNat = (sinceReset calls).count (.tag row.location true)
  falseTags : row.falseTags.toNat = (sinceReset calls).count (.tag row.location false)
  label : row.label = lastLabel? calls row.location

theorem BranchState.cases_hits {state : BranchState} {t f : Nat} (ht : state.has true = true ↔ 0 < t)
    (hf : state.has false = true ↔ 0 < f) :
    (state = .unreached ↔ t = 0 ∧ f = 0) ∧ (state = .reachedTrue ↔ 0 < t ∧ f = 0) ∧
      (state = .reachedFalse ↔ t = 0 ∧ 0 < f) ∧ (state = .reachedBoth ↔ 0 < t ∧ 0 < f) := by
  cases state <;> simp [has] at ht hf ⊢ <;> omega

namespace Oracle

variable {o : Oracle} {calls : List OracleCall}

theorem report_row {row : PointReport} (h : row ∈ o.report.points) :
    row.trueHits = (o.pointAt row.location).hits true ∧ row.falseHits = (o.pointAt row.location).hits false ∧
      row.label = o.labels.get? row.location := by
  obtain ⟨⟨l, c⟩, hentry, rfl⟩ := List.mem_map.1 h
  have hcell : o.pointAt l = c := by
    rw [pointAt, SortedMap.mem_entries.1 hentry]
    rfl
  simp [hcell, PointCell.hits]

theorem report_tagRow {row : TagReport} (h : row ∈ o.report.tags) :
    row.trueTags = (o.tagsAt row.location).count true ∧ row.falseTags = (o.tagsAt row.location).count false ∧
      row.label = o.labels.get? row.location := by
  obtain ⟨⟨l, c⟩, hentry, rfl⟩ := List.mem_map.1 h
  have hcell : o.tagsAt l = c := by
    rw [tagsAt, SortedMap.mem_entries.1 hentry]
    rfl
  simp [hcell, TagCell.count]

theorem Records.row (h : o.Records calls) (hlength : calls.length < 2 ^ 64) {row : PointReport}
    (hrow : row ∈ o.report.points) : row.Tells calls := by
  obtain ⟨hl, hstate⟩ := mem_report_points hrow
  obtain ⟨htrue, hfalse, hlabel⟩ := report_row hrow
  have hhits := h.hits hlength row.location
  have hhas := h.has row.location
  rw [← hstate] at hhas
  have htrueHits := (congrArg UInt64.toNat htrue).trans (hhits true)
  have hfalseHits := (congrArg UInt64.toNat hfalse).trans (hhits false)
  obtain ⟨hunreached, honlyTrue, honlyFalse, hboth⟩ := BranchState.cases_hits (hhas true) (hhas false)
  rw [← htrueHits, ← hfalseHits] at hunreached honlyTrue honlyFalse hboth
  refine ⟨htrueHits, hfalseHits, ?_, honlyTrue, honlyFalse, hboth, hlabel.trans (h.labels _)⟩
  -- A branch point is there because some outcome was observed, and that one is counted.
  obtain ⟨outcome, hobserved⟩ := (h.mem_branchPoints row.location).1 hl
  rintro hnone
  have hhas' := (hhas outcome).2 (List.count_pos_iff.2 hobserved)
  rw [hnone] at hhas'
  cases hhas'

theorem Records.tagRow (h : o.Records calls) (hlength : calls.length < 2 ^ 64) {row : TagReport}
    (hrow : row ∈ o.report.tags) : row.Tells calls := by
  obtain ⟨htrue, hfalse, hlabel⟩ := report_tagRow hrow
  have hcounts := h.counts hlength row.location
  exact ⟨(congrArg UInt64.toNat htrue).trans (hcounts true), (congrArg UInt64.toNat hfalse).trans (hcounts false),
    hlabel.trans (h.labels _)⟩

end Oracle

/-! ## Whole reports -/

/-- The report has a row for each location with an observation since the last reset, in ascending order, and its
summary counts the rows. -/
structure BranchReport.Tells (r : BranchReport) (calls : List OracleCall) : Prop where
  pointsAscending : r.points.Pairwise fun row row' => row.location.id < row'.location.id
  tagsAscending : r.tags.Pairwise fun row row' => row.location.id < row'.location.id
  points : ∀ l, l ∈ r.points.map (·.location) ↔ ∃ outcome, .branch l outcome ∈ sinceReset calls
  tags : ∀ l, l ∈ r.tags.map (·.location) ↔ ∃ literal, .tag l literal ∈ sinceReset calls
  rows : ∀ row ∈ r.points, row.Tells calls
  tagRows : ∀ row ∈ r.tags, row.Tells calls
  totalPoints : r.summary.totalPoints.toNat = r.points.length
  completePoints : r.summary.completePoints.toNat = r.points.countP (·.state = .reachedBoth)
  reachedOutcomes : r.summary.reachedOutcomes.toNat = r.summary.totalPoints.toNat + r.summary.completePoints.toNat
  incomplete : r.isComplete = true ↔ r.incomplete = []
  full : r.isComplete = true ↔ r.summary.reachedOutcomes.toNat = 2 * r.summary.totalPoints.toNat

theorem BranchReport.isComplete_iff_incomplete (r : BranchReport) : r.isComplete = true ↔ r.incomplete = [] := by
  simp [isComplete, incomplete]

theorem BranchState.isComplete_eq (state : BranchState) : state.isComplete = decide (state = .reachedBoth) := by
  cases state <;> rfl

namespace Oracle

variable {o : Oracle} {calls : List OracleCall}

theorem report_full (h : ∀ row ∈ o.report.points, row.state ≠ .unreached) :
    o.report.isComplete = true ↔
      o.report.summary.reachedOutcomes.toNat = 2 * o.report.summary.totalPoints.toNat := by
  have hall : o.report.isComplete = true ↔
      o.report.points.countP (·.state.isComplete) = o.report.points.length := by
    rw [BranchReport.isComplete, List.all_eq_true, List.countP_eq_length]
  rw [hall, report_reachedOutcomes h, report_completePoints, report_totalPoints]
  omega

theorem Records.report (h : o.Records calls) (hlength : calls.length < 2 ^ 64) : o.report.Tells calls := by
  have hrows : ∀ row ∈ o.report.points, row.Tells calls := fun row hrow => h.row hlength hrow
  have hreached : ∀ row ∈ o.report.points, row.state ≠ .unreached := fun row hrow => (hrows row hrow).reached
  constructor
  case pointsAscending => exact List.pairwise_map.2 (o.points.ascending.imp fun hlt => compareOfLessAndEq_eq_lt.1 hlt)
  case tagsAscending => exact List.pairwise_map.2 (o.tags.ascending.imp fun hlt => compareOfLessAndEq_eq_lt.1 hlt)
  case points =>
    rw [report_points]
    exact h.mem_branchPoints
  case tags =>
    rw [report_tags]
    exact h.mem_tags
  case rows => exact hrows
  case tagRows => exact fun row hrow => h.tagRow hlength hrow
  case totalPoints => exact o.report_totalPoints
  case completePoints =>
    rw [report_completePoints]
    simp only [BranchState.isComplete_eq]
  case reachedOutcomes => exact report_reachedOutcomes hreached
  case incomplete => exact o.report.isComplete_iff_incomplete
  case full => exact report_full hreached

/-- Whatever a new oracle was told, its report, its branch points and its snapshot agree with each other and with what
it was told. -/
theorem report_performAll (calls : List OracleCall) (hlength : calls.length < 2 ^ 64) :
    let o := ({} : Oracle).performAll calls
    o.report.Tells calls ∧ o.report.points.map (·.location) = o.branchPoints ∧
      o.report.points.map (fun row => (row.location, row.state)) = o.snapshot := by
  intro o
  have hrecords : o.Records calls := Records.new.performAll calls
  refine ⟨hrecords.report hlength, o.report_points, ?_⟩
  simp [report, pointReports, snapshot, Function.comp_def]

/-- A location keeps the label that it got before the reset, and loses the hits. -/
theorem report_performAll_after_reset :
    let calls : List OracleCall :=
      [.labelled ⟨9⟩ "loop", .observed (.branch ⟨5⟩ false), .observed (.branch ⟨2⟩ true), .reset,
        .observed (.branch ⟨9⟩ false), .observed (.tag ⟨5⟩ true), .observed (.branch ⟨5⟩ true),
        .observed (.branch ⟨9⟩ true), .labelled ⟨5⟩ "guard", .observed (.branch ⟨5⟩ true)]
    let o := ({} : Oracle).performAll calls
    o.report.Tells calls ∧
      o.report.points = [⟨⟨5⟩, some "guard", .reachedTrue, 2, 0⟩, ⟨⟨9⟩, some "loop", .reachedBoth, 1, 1⟩] ∧
      o.snapshot = [(⟨5⟩, .reachedTrue), (⟨9⟩, .reachedBoth)] ∧ o.report.isComplete = false := by
  intro calls o
  exact ⟨(report_performAll calls (by decide)).1, by decide, by decide, by decide⟩

end Oracle

end MockExplorer
