import MockExplorer.Proofs.Execution.Consistency
import MockExplorer.Proofs.Execution.History

/-!
# The course of a run

The course of a run lists the mocks that are handed out, the calls that return, those that a resolver makes included,
and the branches that are decided, each with the provider that it leaves. Nothing else that a mock-driven body does
changes the provider.
-/

namespace MockExplorer

variable {σ : Type} {past : List Event}

/-! ## Courses -/

inductive Occurrence where
  | event (e : Event)
  | decided (l : LocationId) (c : Condition)
deriving DecidableEq

def Occurrence.event? : Occurrence → Option Event
  | .event e => some e
  | .decided _ _ => none

/-- Something that happens in a run, and the provider that it leaves. -/
structure Instant where
  occurrence : Occurrence
  provider : Provider

/-- The mocks that were handed out and the calls that returned. -/
def eventsOf (course : List Instant) : List Event := course.filterMap (·.occurrence.event?)

theorem eventsOf_append (course course' : List Instant) :
    eventsOf (course ++ course') = eventsOf course ++ eventsOf course' :=
  List.filterMap_append

def Action.course (r : Resolution σ) (a : Action) (x : Execution σ) : List Instant :=
  (a.history r x).map fun moment => ⟨.event moment.event, moment.provider⟩

theorem Action.eventsOf_course (r : Resolution σ) (a : Action) (x : Execution σ) :
    eventsOf (a.course r x) = (a.history r x).map (·.event) := by
  simp [eventsOf, Action.course, List.filterMap_map, Occurrence.event?]

def repeatCourse (step : Execution σ → Outcome σ) (course : Execution σ → List Instant) :
    Nat → Execution σ → List Instant
  | 0, _ => []
  | n + 1, x =>
    course x ++
      match step x with
      | (y, none) => repeatCourse step course n y
      | _ => []

def Body.course (r : Resolution σ) : Body → Execution σ → List Instant
  | .skip, _ => []
  | .seq a b, x =>
    a.course r x ++
      match a.run r x with
      | (y, none) => b.course r y
      | _ => []
  | .act a, x => a.course r x
  | .branch l value op rhs t e, x =>
    match x.scope.values.get? value with
    | none => []
    | some v =>
      match x.branch l ⟨v, op, rhs⟩ with
      | (true, y) => ⟨.decided l ⟨v, op, rhs⟩, y.provider⟩ :: t.course r (y.write (.branched l true))
      | (false, y) => ⟨.decided l ⟨v, op, rhs⟩, y.provider⟩ :: e.course r (y.write (.branched l false))
  | .times n b, x => repeatCourse (b.run r) (b.course r) n x
  | .attempt b recovery, x =>
    b.course r x ++
      match b.run r x with
      | (y, some (.raised e)) => recovery.course r (y.write (.raised e))
      | _ => []
  | .enclosed b, x => b.course r { x with scope := {}, silent := true }

def resumeCourse (r : Resolution σ) : Option (Body × Execution σ) → List Instant
  | some (b, y) => b.course r y
  | none => []

namespace Body

theorem course_seq (r : Resolution σ) (a b : Body) (x : Execution σ) :
    (Body.seq a b).course r x = a.course r x ++ resumeCourse r (b.onward (a.run r x)) := by
  rcases h : a.run r x with ⟨y, _ | halt⟩ <;> simp [Body.course, h, Body.onward, resumeCourse]

theorem course_attempt (r : Resolution σ) (b recovery : Body) (x : Execution σ) :
    (Body.attempt b recovery).course r x = b.course r x ++ resumeCourse r (recovery.rescue (b.run r x)) := by
  rcases h : b.run r x with ⟨y, _ | ⟨e⟩ | _⟩ <;> simp [Body.course, h, Body.rescue, resumeCourse]

theorem course_times_succ (r : Resolution σ) (n : Nat) (b : Body) (x : Execution σ) :
    (Body.times (n + 1) b).course r x = (Body.seq b (.times n b)).course r x := rfl

theorem course_branch {r : Resolution σ} {x z : Execution σ} {value : String} {v : ConcolicValue} {outcome : Bool}
    {l : LocationId} {op : CmpOp} {rhs : Int64} (t e : Body) (hv : x.scope.values.get? value = some v)
    (hz : x.branch l ⟨v, op, rhs⟩ = (outcome, z)) :
    (Body.branch l value op rhs t e).course r x =
      ⟨.decided l ⟨v, op, rhs⟩, z.provider⟩ :: (t.arm e outcome).course r (z.write (.branched l outcome)) := by
  cases outcome <;> simp [Body.course, hv, hz, Body.arm]

end Body

/-! ## From part to part -/

/-- A relation between the state before a part of a run, the course of that part and the state after it, which
statements and branches establish, and which goes on from one part to the next. -/
structure Body.Links (r : Resolution σ) (R : Execution σ → List Instant → Execution σ → Prop) (b : Body) : Prop where
  same : ∀ x, R x [] x
  append : ∀ {x y z course course'}, R x course y → R y course' z → R x (course ++ course') z
  write : ∀ x e, R x [] (x.write e)
  act : ∀ a ∈ b.actions, ∀ x, R x (a.course r x) (a.run r x).1
  branch : ∀ {x z value v l op rhs outcome}, x.scope.values.get? value = some v →
    x.branch l ⟨v, op, rhs⟩ = (outcome, z) → R x [⟨.decided l ⟨v, op, rhs⟩, z.provider⟩] z
  enclosed : ∀ {x course y}, R { x with scope := {}, silent := true } course y →
    R x course { y with scope := x.scope, silent := x.silent }

namespace Body.Links

variable {r : Resolution σ} {R : Execution σ → List Instant → Execution σ → Prop} {b : Body} {x : Execution σ}

theorem mono {a : Body} (h : b.Links r R) (hactions : a.actions ⊆ b.actions) : a.Links r R where
  same := h.same
  append := h.append
  write := h.write
  act a' ha' := h.act a' (hactions ha')
  branch := h.branch
  enclosed := h.enclosed

theorem resume (h : b.Links r R) {out : Outcome σ} {course : List Instant} {left : Option (Body × Execution σ)}
    (hout : R x course out.1)
    (hleft : ∀ b' y, left = some (b', y) → R out.1 [] y ∧ R y (b'.course r y) (b'.run r y).1) :
    R x (course ++ resumeCourse r left) (resume r out left).1 := by
  rcases left with _ | ⟨b', y⟩
  · simpa [resumeCourse, MockExplorer.resume] using hout
  · obtain ⟨hy, hrest⟩ := hleft b' y rfl
    exact h.append hout (h.append hy hrest)

theorem seq (h : b.Links r R) {b₁ b₂ : Body} (h₁ : R x (b₁.course r x) (b₁.run r x).1)
    (h₂ : ∀ y, R y (b₂.course r y) (b₂.run r y).1) :
    R x ((Body.seq b₁ b₂).course r x) ((Body.seq b₁ b₂).run r x).1 := by
  rw [Body.course_seq, Body.run_seq]
  refine h.resume h₁ fun b' y hleft => ?_
  obtain ⟨rfl, hout⟩ := Body.onward_eq_some hleft
  rw [hout]
  exact ⟨h.same y, h₂ y⟩

/-- What links the parts of a run links its first state to its last. -/
theorem run (h : b.Links r R) (x : Execution σ) : R x (b.course r x) (b.run r x).1 := by
  induction b generalizing x with
  | skip => exact h.same x
  | seq b₁ b₂ ih₁ ih₂ =>
      exact h.seq (ih₁ (h.mono (List.subset_append_left ..)) x) (ih₂ (h.mono (List.subset_append_right ..)))
  | act a => exact h.act a (List.mem_singleton_self a) x
  | branch l value op rhs t e iht ihe =>
      cases hv : x.scope.values.get? value with
      | none => simpa [Body.run, Body.course, hv] using h.same x
      | some v =>
          rcases hz : x.branch l ⟨v, op, rhs⟩ with ⟨outcome, z⟩
          have hfirst := h.append (h.branch hv hz) (h.write z (.branched l outcome))
          rw [Body.run_branch t e hv hz, Body.course_branch t e hv hz]
          cases outcome with
          | true => exact h.append hfirst (iht (h.mono (List.subset_append_left ..)) _)
          | false => exact h.append hfirst (ihe (h.mono (List.subset_append_right ..)) _)
  | times n b ih =>
      have hb := ih (h.mono (List.Subset.refl _))
      induction n generalizing x with
      | zero => exact h.same x
      | succ n ihn =>
          rw [Body.run_times_succ, Body.course_times_succ]
          exact h.seq (hb x) (ihn (h.mono (List.Subset.refl _)))
  | attempt b recovery ihb ihrec =>
      rw [Body.course_attempt, Body.run_attempt]
      refine h.resume (ihb (h.mono (List.subset_append_left ..)) x) fun b' y hleft => ?_
      obtain ⟨rfl, z, e, hout, rfl⟩ := Body.rescue_eq_some hleft
      rw [hout]
      exact ⟨h.write z _, ihrec (h.mono (List.subset_append_right ..)) _⟩
  | enclosed b ih => exact h.enclosed (ih (h.mono (List.Subset.refl _)) _)

end Body.Links

/-! ## Providers along a course -/

namespace Provider

variable {p q q' : Provider} {course course' : List Instant}

def along (p : Provider) (course : List Instant) : Provider := (course.getLast?.map (·.provider)).getD p

theorem along_append (p : Provider) (course course' : List Instant) :
    p.along (course ++ course') = (p.along course).along course' := by
  unfold along
  rw [List.getLast?_append]
  cases course'.getLast? <;> rfl

def decided (p : Provider) (l : LocationId) (c : Condition) : Provider :=
  (c.taken?.map fun a => p.record ⟨l, a⟩).getD p

/-- The provider goes on along the course, `past` being the events before it. Branches are decided on concrete values
and on values that inputs are bound to. -/
inductive Follows : List Event → Provider → List Instant → Provider → Prop where
  | refl (past : List Event) (p : Provider) : Follows past p [] p
  | event {past : List Event} {p q q' : Provider} {e : Event} {course : List Instant} (h : p.Step past e q)
      (rest : Follows (past ++ [e]) q course q') : Follows past p (⟨.event e, q⟩ :: course) q'
  | decided {past : List Event} {p q' : Provider} {l : LocationId} {c : Condition} {course : List Instant}
      (h : p.Roots c.lhs) (rest : Follows past (p.decided l c) course q') :
      Follows past p (⟨.decided l c, p.decided l c⟩ :: course) q'

theorem Follows.append (h : Follows past p course q) (h' : Follows (past ++ eventsOf course) q course' q') :
    Follows past p (course ++ course') q' := by
  induction h with
  | refl past p => simpa [eventsOf] using h'
  | event h _ ih => exact .event h (ih (by simpa [eventsOf, Occurrence.event?] using h'))
  | decided h _ ih => exact .decided h (ih (by simpa [eventsOf, Occurrence.event?] using h'))

theorem Follows.along (h : Follows past p course q) : p.along course = q := by
  have hcons : ∀ (p : Provider) (i : Instant) (course : List Instant),
      p.along (i :: course) = i.provider.along course := fun p i course => p.along_append [i] course
  induction h with
  | refl past p => rfl
  | event _ _ ih => rw [hcons, ih]
  | decided _ _ ih => rw [hcons, ih]

theorem Follows.of_append (h : Follows past p (course ++ course') q) : Follows past p course (p.along course) := by
  induction course generalizing past p with
  | nil => exact .refl past p
  | cons i course ih =>
      cases h with
      | event h rest =>
          have hfirst := Follows.event h (ih rest)
          rwa [← hfirst.along] at hfirst
      | decided h rest =>
          have hfirst := Follows.decided h (ih rest)
          rwa [← hfirst.along] at hfirst

theorem Evolves.follows {history : List Moment} (h : Evolves past p history q) :
    Follows past p (history.map fun moment => ⟨.event moment.event, moment.provider⟩) q := by
  induction h with
  | refl past p => exact .refl past p
  | step h _ ih => exact .event h ih

end Provider

/-! ## Statements -/

theorem Resolver.gives_any (r : Resolver σ) : r.Gives fun _ _ _ => True := by
  intro state var ty
  induction r.react state var ty with
  | answer v s => exact .answer trivial
  | fail e s => exact .fail e s
  | call mock method args s resume ih => exact .call ih

/-- The execution went on from `x` to `y` along the course, and the mocks at hand were handed out. -/
structure Execution.Traverses (past : List Event) (x : Execution σ) (course : List Instant) (y : Execution σ) :
    Prop where
  follows : Provider.Follows past x.provider course y.provider
  knows : y.Knows (past ++ eventsOf course)

namespace Execution.Traverses

variable {x y z : Execution σ} {course course' : List Instant}

theorem same (hx : x.Knows past) (hprovider : y.provider = x.provider) (hscope : y.scope.mocks = x.scope.mocks)
    (hroster : y.roster = x.roster) : x.Traverses past [] y :=
  ⟨hprovider ▸ .refl past _, hx.later [] hscope hroster⟩

theorem append (h : x.Traverses past course y) (h' : y.Traverses (past ++ eventsOf course) course' z) :
    x.Traverses past (course ++ course') z :=
  ⟨h.follows.append h'.follows, by rw [eventsOf_append, ← List.append_assoc]; exact h'.knows⟩

theorem write (h : x.Traverses past course y) (e : LogEntry) : x.Traverses past course (y.write e) :=
  ⟨by simpa using h.follows, by simpa using h.knows.later [] (by simp) (by simp)⟩

end Execution.Traverses

theorem Action.traverses (r : Resolution σ) {a : Action} (ha : a.MockDriven) {x : Execution σ} (hx : x.Knows past) :
    x.Traverses past (a.course r x) (a.run r x).1 := by
  have huses : a.UsesMocks → x.Traverses past (a.course r x) (a.run r x).1 := by
    intro huses
    obtain ⟨hevolves, hknows, _⟩ := a.records r huses hx
    exact ⟨hevolves.follows, by rw [Action.eventsOf_course]; exact hknows⟩
  cases a with
  | mock name target => exact huses trivial
  | invoke receiver method args name => exact huses trivial
  | call receiver args name => exact huses trivial
  | view receiver capability arg name => exact huses trivial
  | keep v name =>
      have hkept : x.Traverses past [] (x.keepValue name v) := .same hx rfl rfl rfl
      exact hkept.write (.kept v)
  | assertReached l literal => exact .same hx rfl rfl rfl
  | reached site literal =>
      have hobserved : x.Traverses past [] (x.observe (.tag site.location literal)) := .same hx rfl rfl rfl
      exact hobserved.write (.reached site.location)
  | record clause => exact ha.elim
  | fail e => exact .same hx rfl rfl rfl
  | crash => exact .same hx rfl rfl rfl
  | cancel => exact .same hx rfl rfl rfl

/-! ## Bodies -/

theorem Execution.Knows.enter {x : Execution σ} (hx : x.Knows past) :
    Execution.Knows past { x with scope := {}, silent := true } :=
  ⟨fun h => by (cases h), hx.roster⟩

/-- The mocks and values at hand are rooted, whatever the resolver answers. -/
abbrev Execution.Grounded (x : Execution σ) : Prop := x.Sound fun _ _ _ => True

theorem Execution.Traverses.branch {x z : Execution σ} (hx : x.Knows past) {v : ConcolicValue}
    (hv : x.provider.Roots v) {l : LocationId} {op : CmpOp} {rhs : Int64} {outcome : Bool}
    (hz : x.branch l ⟨v, op, rhs⟩ = (outcome, z)) :
    x.Traverses past [⟨.decided l ⟨v, op, rhs⟩, z.provider⟩] z := by
  have hprovider : z.provider = x.provider.decided l ⟨v, op, rhs⟩ := by
    have hbranch := x.branch_provider l ⟨v, op, rhs⟩
    rwa [hz] at hbranch
  have hscope : z.scope = x.scope := by
    have hbranch := x.branch_scope l ⟨v, op, rhs⟩
    rwa [hz] at hbranch
  have hroster : z.roster = x.roster := by
    have hbranch := x.branch_roster l ⟨v, op, rhs⟩
    rwa [hz] at hbranch
  refine ⟨?_, hx.later [] (by rw [hscope]) hroster⟩
  rw [hprovider]
  exact .decided hv (.refl past _)

theorem Body.MockDriven.actions {b : Body} (hb : b.MockDriven) : ∀ a ∈ b.actions, a.MockDriven := by
  induction b with
  | skip => exact fun a ha => by cases ha
  | seq b₁ b₂ ih₁ ih₂ => exact List.forall_mem_append.2 ⟨ih₁ hb.1, ih₂ hb.2⟩
  | act a => exact List.forall_mem_singleton.2 hb
  | branch l value op rhs t e iht ihe => exact List.forall_mem_append.2 ⟨iht hb.1, ihe hb.2⟩
  | times n b ih => exact ih hb
  | attempt b recovery ihb ihrec => exact List.forall_mem_append.2 ⟨ihb hb.1, ihrec hb.2⟩
  | enclosed b ih => exact ih hb

section

variable (r : Resolution σ)

/-- A run of a mock-driven body follows its course. -/
theorem Body.traverses {b : Body} (hb : b.MockDriven) {x : Execution σ} (hx : x.Grounded) (hknows : x.Knows past) :
    x.Traverses past (b.course r x) (b.run r x).1 := by
  have hpreserved := Execution.Sound.preserved r.resolver.gives_any
  have hlinks : b.Links r fun x course y => ∀ past, x.Grounded → x.Knows past →
      Leads Execution.Grounded (fun c c' => c.provider.Grows c'.provider) x y ∧ x.Traverses past course y := by
    constructor
    case same => exact fun x past hx hknows => ⟨hpreserved.here hx, .same hknows rfl rfl rfl⟩
    case append =>
      intro x y z course course' hxy hyz past hx hknows
      obtain ⟨hy, hfirst⟩ := hxy past hx hknows
      obtain ⟨hz, hrest⟩ := hyz _ hy.kept hfirst.knows
      exact ⟨hpreserved.onward hy hz, hfirst.append hrest⟩
    case write =>
      intro x e past hx hknows
      exact ⟨hpreserved.written (hpreserved.here hx) e, (Execution.Traverses.same hknows rfl rfl rfl).write e⟩
    case act =>
      intro a ha x past hx hknows
      exact ⟨hpreserved.act (hb.actions a ha) hx, a.traverses r (hb.actions a ha) hknows⟩
    case branch =>
      intro x z value v l op rhs outcome hv hz past hx hknows
      have hbranch := hpreserved.branch l op rhs hx hv
      rw [hz] at hbranch
      exact ⟨hbranch, .branch hknows (hx.values hv) hz⟩
    case enclosed =>
      intro x course y h past hx hknows
      obtain ⟨hleads, hfollows, hafter⟩ := h past (hpreserved.enter hx) hknows.enter
      -- The names are those of the outer body again, whose mocks were handed out before.
      exact ⟨⟨hpreserved.leave hx ⟨hleads.kept, hleads.grown⟩, hleads.grown⟩, hfollows,
        fun h => List.mem_append_left _ (hknows.mocks h), hafter.roster⟩
  exact (hlinks.run x past hx hknows).2

/-! ## States on the way -/

/-- On the course from `p`, the provider comes to `q`. -/
def Provider.Visits (p : Provider) (course : List Instant) (q : Provider) : Prop :=
  ∃ before later, course = before ++ later ∧ p.along before = q

section

variable {a : Action} {y : Execution σ}

theorem Provider.visits_resume {p q : Provider} {course : List Instant} {trail : List (Action × Execution σ)}
    {left : Option (Body × Execution σ)} (hcourse : p.along course = q)
    (hfirst : (a, y) ∈ trail → p.Visits course y.provider)
    (hleft : ∀ b z, left = some (b, z) → (a, y) ∈ b.trail r z → q.Visits (b.course r z) y.provider)
    (hmem : (a, y) ∈ trail ++ resumeTrail r left) : p.Visits (course ++ resumeCourse r left) y.provider := by
  rcases List.mem_append.1 hmem with hmem | hmem
  · obtain ⟨before, later, rfl, hq⟩ := hfirst hmem
    exact ⟨before, later ++ resumeCourse r left, List.append_assoc .., hq⟩
  · rcases left with _ | ⟨b, z⟩
    · cases hmem
    · obtain ⟨before, later, hrest, hq⟩ := hleft b z rfl hmem
      exact ⟨course ++ before, later, by simp [resumeCourse, hrest], by rw [p.along_append, hcourse, hq]⟩

theorem Body.visits_seq {b₁ b₂ : Body} (hb₁ : b₁.MockDriven) {x : Execution σ} (hx : x.Grounded)
    (hknows : x.Knows past) (h₁ : (a, y) ∈ b₁.trail r x → x.provider.Visits (b₁.course r x) y.provider)
    (h₂ : ∀ {past} {z : Execution σ}, z.Grounded → z.Knows past → (a, y) ∈ b₂.trail r z →
      z.provider.Visits (b₂.course r z) y.provider)
    (hmem : (a, y) ∈ (Body.seq b₁ b₂).trail r x) : x.provider.Visits ((Body.seq b₁ b₂).course r x) y.provider := by
  have hgrounded := ((Execution.Sound.preserved r.resolver.gives_any).run hb₁ hx).kept
  have htraverses := Body.traverses r hb₁ hx hknows
  rw [Body.trail_seq] at hmem
  rw [Body.course_seq]
  refine Provider.visits_resume r htraverses.follows.along h₁ (fun b z hleft hz => ?_) hmem
  obtain ⟨rfl, hout⟩ := Body.onward_eq_some hleft
  rw [hout] at hgrounded htraverses ⊢
  exact h₂ hgrounded htraverses.knows hz

/-- Every state in which a run comes to a statement has its place in the course. -/
theorem Body.visits_trail {b : Body} (hb : b.MockDriven) {x : Execution σ} (hx : x.Grounded) (hknows : x.Knows past)
    (hmem : (a, y) ∈ b.trail r x) : x.provider.Visits (b.course r x) y.provider := by
  have hpreserved := Execution.Sound.preserved r.resolver.gives_any
  induction b generalizing past x with
  | skip => cases hmem
  | seq b₁ b₂ ih₁ ih₂ => exact Body.visits_seq r hb.1 hx hknows (ih₁ hb.1 hx hknows) (ih₂ hb.2) hmem
  | act a' =>
      obtain ⟨rfl, rfl⟩ := Prod.mk.inj (List.mem_singleton.1 hmem)
      exact ⟨[], _, rfl, rfl⟩
  | branch l value op rhs t e iht ihe =>
      cases hv : x.scope.values.get? value with
      | none => simp [Body.trail, hv] at hmem
      | some v =>
          rcases hz : x.branch l ⟨v, op, rhs⟩ with ⟨outcome, z⟩
          have hfirst := (Execution.Traverses.branch hknows (hx.values hv) hz).write (.branched l outcome)
          have hwritten := (hpreserved.branched hx hv hz).kept
          rw [Body.trail_branch t e hv hz] at hmem
          rw [Body.course_branch t e hv hz]
          have harm : (z.write (.branched l outcome)).provider.Visits
              ((t.arm e outcome).course r (z.write (.branched l outcome))) y.provider := by
            cases outcome with
            | true => exact iht hb.1 hwritten hfirst.knows hmem
            | false => exact ihe hb.2 hwritten hfirst.knows hmem
          obtain ⟨before, later, hcourse, hy⟩ := harm
          refine ⟨_ :: before, later, congrArg (_ :: ·) hcourse, ?_⟩
          rw [← hy, ← hfirst.follows.along]
          exact x.provider.along_append [_] before
  | times n b ih =>
      induction n generalizing past x with
      | zero => cases hmem
      | succ n ihn =>
          rw [Body.trail_times_succ] at hmem
          rw [Body.course_times_succ]
          exact Body.visits_seq r (show b.MockDriven from hb) hx hknows (ih hb hx hknows) (ihn hb) hmem
  | attempt b recovery ihb ihrec =>
      have hgrounded := (hpreserved.run hb.1 hx).kept
      have htraverses := Body.traverses r hb.1 hx hknows
      rw [Body.trail_attempt] at hmem
      rw [Body.course_attempt]
      refine Provider.visits_resume r htraverses.follows.along (ihb hb.1 hx hknows) (fun b' z hleft hz => ?_) hmem
      obtain ⟨rfl, z, e, hout, rfl⟩ := Body.rescue_eq_some hleft
      rw [hout] at hgrounded htraverses ⊢
      have hrest := ihrec hb.2 (hpreserved.write (.raised e) hgrounded) (htraverses.write (.raised e)).knows hz
      simpa using hrest
  | enclosed b ih => exact ih hb (hpreserved.enter hx) hknows.enter hmem

end

end

end MockExplorer
