import MockExplorer.Proofs.Execution.Course
import MockExplorer.Proofs.Execution.Trace

/-!
# Paths that are true of their runs

Wherever a run of a mock-driven body is, each clause of its path holds of the value that its input has, at the type
that is registered for the input. The registered inputs are the methods of the mocks that were handed out. So no
sibling of the path uses an input at two types.
-/

namespace MockExplorer

variable {σ : Type}

namespace Provider

variable {p q : Provider} {past : List Event} {e : Event} {R : SymVar → ValueType → Value → Prop}

/-! ## The inputs that were used -/

/-- The inputs of a trace that is taken now. -/
def model (p : Provider) : Model := p.bindings.values.foldl (fun m b => m.insert b.var b.value) {}

theorem Sound.get?_model (hp : p.Sound R) {var : SymVar} {ty : ValueType} {v : Value} (hv : p.Binds var ty v) :
    p.model.get? var = some v := by
  obtain ⟨k, b, rfl, hb, rfl⟩ := hv.bound
  let x : Execution Unit := { id := 0, calls := ⟨p, ()⟩ }
  have hnamed : x.provider.Named := hp.named
  exact Execution.trace_get? hnamed hb

/-! ## Registered inputs -/

/-- The input stands for the first interceptable method of a name on a mock that was handed out, and has its return
type. -/
def StandsFor (past : List Event) (var : SymVar) (ty : ValueType) : Prop :=
  ∃ m f sig, .created m ∈ past ∧ m.target.method? f = some sig ∧ var = .forCall m.id.slot f ∧ ty = sig.returns

theorem StandsFor.mono {var : SymVar} {ty : ValueType} (h : StandsFor past var ty) (e : Event) :
    StandsFor (past ++ [e]) var ty := by
  obtain ⟨m, f, sig, hm, hfacts⟩ := h
  exact ⟨m, f, sig, List.mem_append_left _ hm, hfacts⟩

/-- The invariant of a provider along a course: it is sound, and what is registered are the methods of the mocks. -/
structure Charted (past : List Event) (p : Provider) : Prop where
  sound : p.Sound fun _ _ _ => True
  registered : ∀ m, .created m ∈ past → p.Registered m
  charted : ∀ {var ty}, p.path.inputs.get? var = some ty → StandsFor past var ty

theorem Charted.start (config : MockConfig) (assumptions : List Predicate) : Charted [] { config, assumptions } where
  sound := .start config assumptions
  registered m hm := by cases hm
  charted h := by cases h

theorem Charted.created {t : MockTarget} {m : MockInstance} (hp : p.Charted past) (h : p.createMock t = .ok (m, q))
    (hslot : q.nextSlot ≠ 0) : q.Charted (past ++ [.created m]) := by
  obtain ⟨hid, htarget, _, _, _, _, _, hinputs⟩ := createMock_spec h
  obtain ⟨hsound, hregistered⟩ := hp.sound.createMock h hslot
  refine ⟨hsound, fun m' hm' => ?_, fun {var ty} hty => ?_⟩
  · rcases List.mem_append.1 hm' with hold | hnew
    · exact (hp.registered m' hold).grows (grows_createMock h)
    · cases List.mem_singleton.1 hnew
      exact hregistered
  · rw [hinputs, Option.or_eq_some_iff] at hty
    rcases hty with hold | ⟨_, hnew⟩
    · exact (hp.charted hold).mono _
    · obtain ⟨sig, hfind, rfl⟩ := Option.map_eq_some_iff.1 hnew
      have hvar : SymVar.forCall p.nextSlot sig.name = var := by simpa using List.find?_some hfind
      subst hvar
      refine ⟨m, sig.name, sig, by simp, ?_, by rw [hid], rfl⟩
      rw [MockTarget.method?, htarget, ← hfind]
      simp [SymVar.forCall_inj]

theorem Charted.returned {m : MockInstance} {f : String} {args : List Value} {sig : MethodSig} {v : Value}
    {w : ConcolicValue} (hp : p.Charted past) (hm : .created m ∈ past) (hsig : m.dispatch f args = .ok sig)
    (h : p.bind (m.key sig) sig args v = .ok (w, q)) : q.Charted (past ++ [.returned m sig args w]) := by
  have hserved := served_bind () hp.sound ((hp.registered m hm).dispatch hsig) trivial h
  have hpath : q.path = p.path := hserved.grown.path
  refine ⟨hserved.sound, fun m' hm' => ?_, fun hty => ?_⟩
  · have hold : .created m' ∈ past := by simpa using hm'
    exact (hp.registered m' hold).grows hserved.grown.toGrows
  · rw [hpath] at hty
    exact (hp.charted hty).mono _

theorem Charted.step (hp : p.Charted past) (h : p.Step past e q) : q.Charted (past ++ [e]) := by
  cases h with
  | created h hslot => exact hp.created h hslot
  | returned hm hsig h => exact hp.returned hm hsig h

theorem Charted.decided {c : Condition} (hp : p.Charted past) (h : p.Roots c.lhs) (l : LocationId) :
    (p.decided l c).Charted past := by
  unfold Provider.decided
  cases htaken : c.taken? with
  | none => exact hp
  | some a =>
      obtain ⟨hvar, hty, hholds⟩ := Condition.taken?_eq_some htaken
      have hbinds := h a.var hvar
      rw [← hty] at hbinds
      exact ⟨hp.sound.record hbinds hholds, hp.registered, hp.charted⟩

theorem Follows.charted {course : List Instant} (h : Follows past p course q) (hp : p.Charted past) :
    q.Charted (past ++ eventsOf course) := by
  induction h with
  | refl past p => simpa [eventsOf] using hp
  | event h _ ih => simpa [eventsOf, Occurrence.event?] using ih (hp.step h)
  | decided h _ ih => simpa [eventsOf, Occurrence.event?] using ih (hp.decided h _)

/-! ## What is true of a path -/

/-- The path is true of the inputs that were used and well typed, `past` being the mocks and calls so far. -/
structure Truthful (past : List Event) (p : Provider) : Prop where
  satisfied : ∀ c ∈ p.path.clauses, ∃ v, p.model.get? c.predicate.var = some v ∧
    c.predicate.holds v = true ∧ c.predicate.negate.holds v = false
  typed : ∀ c ∈ p.path.clauses, p.path.inputs.get? c.predicate.var = some c.predicate.ty
  registered : ∀ var ty, p.path.inputs.get? var = some ty ↔ StandsFor past var ty
  single : ∀ i query, p.path.flippedAt? i = some query → Equality.SingleTyped query
  solvable : ∀ i query, p.path.flippedAt? i = some query →
    ∀ var first other, Equality.solve query ≠ .unknown (.mixedTypes var first other)

theorem Sound.singleTyped_flipped (hp : p.Sound R) {i : Nat} {query : List Predicate}
    (hq : p.path.flippedAt? i = some query) : Equality.SingleTyped query := by
  intro a ha a' ha' hvar
  have hty := hp.typed_flipped hq ha
  rw [← hvar, hp.typed_flipped hq ha'] at hty
  exact Option.some.inj hty

theorem Charted.truthful (hp : p.Charted past) : p.Truthful past where
  satisfied c hc := by
    obtain ⟨v, hbinds, hholds⟩ := hp.sound.path c hc
    exact ⟨v, hp.sound.get?_model hbinds, hholds, by rw [Predicate.negate_holds, hholds]; rfl⟩
  typed c hc := hp.sound.typed hc
  registered var ty := by
    constructor
    · exact hp.charted
    · rintro ⟨m, f, sig, hm, hsig, rfl, rfl⟩
      exact hp.registered m hm f sig hsig
  single i query hq := hp.sound.singleTyped_flipped hq
  solvable i query hq := Equality.solve_ne_mixed (hp.sound.singleTyped_flipped hq)

end Provider

/-! ## Whole runs -/

/-- Whatever the resolver does and wherever a run of a mock-driven body is, within a call, after a branch or at a
statement, its path is true of the inputs that it has used and well typed. -/
theorem Body.course_truthful (r : Resolution σ) (config : MockConfig) (id : UInt64) (assumptions : List Predicate)
    (state : σ) {b : Body} (hb : b.MockDriven) :
    let x := Execution.start config id assumptions state
    let course := b.course r x
    x.provider.along course = (b.run r x).1.provider ∧
      (b.run r x).1.trace.model = (x.provider.along course).model ∧
      (∀ a y, (a, y) ∈ b.trail r x → x.provider.Visits course y.provider) ∧
      ∀ before later, course = before ++ later → (x.provider.along before).Truthful (eventsOf before) := by
  intro x course
  have hgrounded : x.Grounded := .start config id assumptions state
  have hknows : x.Knows [] := ⟨fun h => by (cases h), fun m hm => by (cases hm)⟩
  obtain ⟨hfollows, _⟩ := Body.traverses r hb hgrounded hknows
  refine ⟨hfollows.along, ?_, fun a y => Body.visits_trail r hb hgrounded hknows, fun before later hsplit => ?_⟩
  · rw [hfollows.along]
    rfl
  · rw [show b.course r x = before ++ later from hsplit] at hfollows
    exact (hfollows.of_append.charted (.start config assumptions)).truthful

/-- A resolver calls the method it is asked about and answers too late. The path is true of the value that the inner
call was given, at the type of the first method that calls can reach. -/
theorem Body.course_truthful_reentrant :
    let target : MockTarget := {
      name := "Source", kind := .interface
      methods := [{ name := "get", returns := .long, modifiers := { isPrivate := true } },
        { name := "get", returns := .int }, { name := "get", params := [.int], returns := .boxedInt }] }
    let var : SymVar := .forCall 0 "get"
    let script : Script := ⟨(∅ : SortedMap SymVar (List ScriptAction)).insert var
      [.invoke 0 "get" [] (some (.int 4)), .value (.int 7)]⟩
    let r : Resolution Script := { resolver := .script, depth := 2 }
    let b : Body := .ofList [.act (.mock "m" target), .act (.invoke "m" "get" [] "v"),
      .branch ⟨1⟩ "v" .eq 7 (.branch ⟨2⟩ "v" .eq 4 .skip .skip) .skip]
    let x := Execution.start {} 0 [] script
    b.MockDriven ∧ (b.course r x).length = 5 ∧
      (b.run r x).1.trace.path.clauses = [⟨⟨1⟩, ⟨var, .int, .eq, 7⟩⟩, ⟨⟨2⟩, ⟨var, .int, .ne, 4⟩⟩] ∧
      (x.provider.along ((b.course r x).take 2)).Truthful (eventsOf ((b.course r x).take 2)) ∧
      (b.run r x).1.provider.Truthful (eventsOf (b.course r x)) := by
  intro target var script r b x
  have hb : b.MockDriven := by simp [b, Body.ofList, Body.MockDriven, Action.MockDriven]
  obtain ⟨hend, _, _, htrue⟩ := course_truthful r {} 0 [] script hb
  refine ⟨hb, by decide +kernel, by decide +kernel, ?_, ?_⟩
  · exact htrue _ _ (List.take_append_drop 2 _).symm
  · rw [← hend]
    exact htrue _ [] (List.append_nil _).symm

end MockExplorer
