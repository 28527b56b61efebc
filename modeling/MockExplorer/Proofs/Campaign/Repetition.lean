import MockExplorer.Proofs.Campaign.Accounting
import MockExplorer.Proofs.Campaign.Consistency
import MockExplorer.Proofs.Solver.Choice

/-!
# Repeated paths

A search keeps the models that it has seen and takes none of them up again. It compares whole models, though, and
models of the solver leave inputs open where traces have values for them. So a path is run again for a model that
writes out defaults which an earlier model left open, and it is run again for no other reason.
-/

namespace MockExplorer

/-! ## Different models -/

/-- Traces of executions that use exactly their models list some of the models, in order. -/
theorem models_sublist {name : String} {run : Runner} {es : List (UInt64 × Candidate)}
    {results : List (Except MockError Trace)}
    (h : List.Forall₂ (fun e => (run e.1 e.2).Reports name) es results)
    (hexact : ∀ e ∈ es, ∀ u, (run e.1 e.2).result = .ok u → u.model = e.2.model) :
    ((results.filterMap Except.toOption).map Trace.model).Sublist (es.map (·.2.model)) := by
  induction h with
  | nil => exact .slnil
  | @cons e result es results hreport _ ih =>
      have hrest := ih fun e he => hexact e (List.mem_cons_of_mem _ he)
      cases result with
      | error _ => exact hrest.cons e.2.model
      | ok u =>
          have hmodel := hexact e (List.mem_cons_self ..) u hreport.result_eq
          rw [List.map_cons, ← hmodel]
          exact hrest.cons_cons u.model

namespace Search

/-- The past models and those that wait are all different, and the search has seen them. -/
structure Distinct (past : List Model) (s : Search) : Prop where
  nodup : (past ++ s.worklist.map (·.model)).Nodup
  seen : past ++ s.worklist.map (·.model) ⊆ s.seen

theorem map_model_numbered (id : UInt64) (ds : List Candidate) :
    (numbered id ds).map (·.2.model) = ds.map (·.model) := by
  have hmap := congrArg (List.map Candidate.model) (map_snd_numbered id ds)
  rwa [List.map_map] at hmap

section

variable {past : List Model} {x : Exploration} {c c' : Campaign} {s s' : Search}

theorem Distinct.answered (h : Distinct past s) (query : List Predicate) (a : Answer) :
    Distinct past (s.answered query a) := by
  cases a with
  | unsat => exact ⟨h.nodup, h.seen⟩
  | unknown reason => exact ⟨h.nodup, h.seen⟩
  | sat m =>
      by_cases hm : m ∈ s.seen
      · simp only [Search.answered, if_pos hm]
        exact ⟨h.nodup, h.seen⟩
      · -- What is past or waits was seen before, so it is not the new model.
        have hnew : m ∉ past ++ s.worklist.map (·.model) := fun hmem => hm (h.seen hmem)
        simp only [Search.answered, if_neg hm]
        constructor
        · simp only [List.map_append, List.map_cons, List.map_nil, ← List.append_assoc]
          refine List.nodup_append.2 ⟨h.nodup, List.nodup_singleton m, fun a ha b hb hab => hnew ?_⟩
          rw [← List.mem_singleton.1 hb, ← hab]
          exact ha
        · simp only [List.map_append, List.map_cons, List.map_nil, ← List.append_assoc]
          exact List.append_subset.2 ⟨fun a ha => List.mem_cons_of_mem _ (h.seen ha), by simp⟩

theorem Distinct.askFlipped (h : Distinct past s) (query : List Predicate) :
    Distinct past (askFlipped x c s query).2 := by
  rw [askFlipped_eq]
  split
  · exact h
  · exact h.answered query _

theorem Distinct.askAll (h : Distinct past s) (queries : List (List Predicate)) :
    Distinct past (askAll x queries (c, s)).2 := by
  induction queries generalizing c s with
  | nil => exact h
  | cons query queries ih => exact ih (h.askFlipped query)

theorem Distinct.expand {t : Trace} (h : Distinct past { s with seen := t.model :: s.seen }) :
    Distinct past (absorb x c s t).2 := by
  unfold Search.absorb
  rw [expand_eq]
  refine Distinct.askAll (s := { s.track t.locations with
    inputs := (s.track t.locations).inputs ++ [t.model], seen := t.model :: (s.track t.locations).seen }) ?_ _
  exact ⟨h.nodup, h.seen⟩

theorem Distinct.absorb (h : Distinct past s) (t : Trace) : Distinct past (absorb x c s t).2 :=
  .expand ⟨h.nodup, fun _ hm => List.mem_cons_of_mem _ (h.seen hm)⟩

/-- If nothing waits, then none of the candidates that follow from a trace has the model of the trace. -/
theorem distinct_absorb (hempty : s.worklist = []) (t : Trace) : Distinct [t.model] (absorb x c s t).2 :=
  .expand ⟨by simp [hempty], by simp [hempty]⟩

theorem Distinct.absorbAll (h : Distinct past s) {failure failure' : Option MockError}
    {results : List (Except MockError Trace)} (hout : absorbAll x c s failure results = (c', s', failure')) :
    Distinct past s' := by
  have hkept : Distinct past (Search.absorbAll x c s failure results).2.1 :=
    absorbAll_keeps (fun _ _ t _ hs => hs.absorb t) h
  rwa [hout] at hkept

theorem Distinct.take (h : Distinct past s) (n executions : Nat) :
    Distinct (past ++ (s.worklist.take n).map (·.model))
      { s with worklist := s.worklist.drop n, executions := executions } := by
  have hlist : (past ++ (s.worklist.take n).map (·.model)) ++ (s.worklist.drop n).map (·.model) =
      past ++ s.worklist.map (·.model) := by
    rw [List.append_assoc, ← List.map_append, List.take_append_drop]
  exact ⟨by rw [hlist]; exact h.nodup, by rw [hlist]; exact h.seen⟩

theorem Distinct.nextBatch (h : Distinct past s) {failure : Option MockError}
    (hout : nextBatch x c s = (c', s', failure)) :
    Distinct (past ++ (s.worklist.take (batchLength x s)).map (·.model)) s' :=
  (h.take _ _).absorbAll hout

theorem Distinct.explores {done : List (UInt64 × Candidate)} {results : List (Except MockError Trace)}
    {out : Campaign × Search × CaseStatus} (h : Distinct past s) (hexplores : Explores x c s done results out) :
    (past ++ done.map (·.2.model)).Nodup := by
  induction hexplores generalizing past with
  | ended _ =>
      rw [List.map_nil, List.append_nil]
      exact h.nodup.of_append_left
  | failed _ hbatch =>
      rw [map_model_numbered]
      exact (h.nextBatch hbatch).nodup.of_append_left
  | next _ hbatch _ ih =>
      rw [List.map_append, map_model_numbered, ← List.append_assoc]
      exact ih (h.nextBatch hbatch)

theorem Distinct.start (ls : List LocationId) : Distinct [] (({} : Search).track ls) :=
  ⟨List.nodup_singleton _, List.Subset.refl _⟩

theorem distinct_absorbAll (hempty : s.worklist = []) {e : UInt64 × Candidate}
    {results : List (Except MockError Trace)} (hsettles : Settles x.run [e] results) {u : Trace}
    (hu : (x.run e.1 e.2).result = .ok u) (hout : absorbAll x c s none results = (c', s', none)) :
    Distinct [u.model] s' := by
  obtain ⟨_, hall⟩ := absorbAll_ok hout
  cases hsettles with
  | cons hsettled hnil =>
      cases hnil
      obtain ⟨t, rfl⟩ := hall _ (List.mem_singleton_self _)
      have ht := Run.settled?_eq_ok.1 hsettled
      rw [hu] at ht
      cases ht
      cases hout
      exact distinct_absorb hempty u

section

variable {d : Candidate} {done : List (UInt64 × Candidate)} {results : List (Except MockError Trace)}
  {out : Campaign × Search × CaseStatus} (hone : s.worklist = [d]) (h : Explores x c s done results out)
include hone h

/-- The first execution is alone in its batch, so no later one has the model that its trace has. -/
theorem Explores.nodup_tail {e : UInt64 × Candidate} (he : done.head? = some e) {u : Trace}
    (hu : (x.run e.1 e.2).result = .ok u) : (u.model :: done.tail.map (·.2.model)).Nodup := by
  have hbatch : ∀ {c : Campaign}, ending? x c s = none →
      numbered c.nextExecution (s.worklist.take (batchLength x s)) = [(c.nextExecution, d)] ∧
        s.worklist.drop (batchLength x s) = [] := by
    intro c hending
    have hall : [d].length ≤ batchLength x s := (batchLength_of_ending? hending).1
    rw [hone, List.take_of_length_le hall, List.drop_of_length_le hall]
    exact ⟨rfl, rfl⟩
  cases h with
  | ended _ => cases he
  | failed hending _ =>
      rw [(hbatch hending).1]
      exact List.nodup_singleton _
  | next hending hnext hrest =>
      obtain ⟨hfirst, hempty⟩ := hbatch hending
      have hsettles := runBatch_settles c.nextExecution (s.worklist.take (batchLength x s)) (absorbAll_ok hnext).2
      rw [hfirst] at he hsettles ⊢
      cases he
      exact (distinct_absorbAll hempty hsettles hu hnext).explores hrest

theorem Explores.nodup_inputs (hnodup : (done.map (·.2.model)).Nodup)
    (hexact : ∀ e ∈ done.tail, ∀ u, (x.run e.1 e.2).result = .ok u → u.model = e.2.model) :
    ((results.filterMap Except.toOption).map Trace.model).Nodup := by
  have hhead : ∀ e u, done.head? = some e → (x.run e.1 e.2).result = .ok u →
      (u.model :: done.tail.map (·.2.model)).Nodup := fun e u he hu => h.nodup_tail hone he hu
  have hreports := h.reports
  clear h
  cases hreports with
  | nil => exact .nil
  | @cons e result rest results hreport hrest =>
      have hlater : ((results.filterMap Except.toOption).map Trace.model).Sublist (rest.map (·.2.model)) :=
        models_sublist hrest hexact
      cases result with
      | error _ => exact (List.nodup_cons.1 hnodup).2.sublist hlater
      | ok u => exact (hhead e u rfl hreport.result_eq).sublist (hlater.cons_cons u.model)

end

end

end Search

/-! ## What a run is driven by -/

/-- Runs of the candidate end in the provider: the solver found the model, the model gave the values, and the path goes
on from the assumptions. -/
structure Candidate.Drives (d : Candidate) (p : Provider) : Prop where
  solved : Equality.solve d.assumptions = .sat d.model
  sound : p.Sound d.model.Answers
  assumed : d.assumptions <+: p.path.clauses.map (·.predicate)

theorem Candidate.Sprung.drives {b : Body} (hb : b.MockDriven) {config : MockConfig} {d : Candidate}
    (h : d.Sprung b config) (id : UInt64) :
    d.Drives (b.runUnder config id d.model d.assumptions).1.provider where
  solved := by
    cases h with
    | origin => rfl
    | flipped _ _ hs => exact hs
  sound := (Body.runUnder_sound hb).provider
  assumed := by
    cases h with
    | origin => exact List.nil_prefix
    | @flipped e id₀ i query m h hq hs =>
        obtain ⟨cl, hcl, hparts⟩ := Body.parts_flipped hb (h.settled hb id₀) hq hs id
        obtain ⟨cl', hcl', rfl⟩ := Option.map_eq_some_iff.1 hq
        obtain rfl : cl = cl' := Option.some.inj (hcl.symm.trans hcl')
        have hpath := hparts.right.map (·.predicate)
        rwa [List.map_append] at hpath

namespace Candidate.Drives

variable {d d' : Candidate} {p q : Provider}

theorem mem_clauses (h : d.Drives p) {a : Predicate} (ha : a ∈ d.assumptions) :
    ∃ cl ∈ p.path.clauses, cl.predicate = a :=
  List.mem_map.1 (h.assumed.subset ha)

theorem padded (h : d.Drives p) (h' : d'.Drives q) (hpath : p.path.clauses = q.path.clauses)
    (hle : d.assumptions <+: d'.assumptions) : d.model.Padded d'.model := by
  refine Equality.padded_of_solve h.solved h'.solved hle.subset fun a ha => ?_
  obtain ⟨cl, hcl, rfl⟩ := h'.mem_clauses ha
  exact h.sound.holds_resolve (hpath ▸ hcl)

theorem padded_or_padded (h : d.Drives p) (h' : d'.Drives q) (hpath : p.path.clauses = q.path.clauses) :
    d.model.Padded d'.model ∨ d'.model.Padded d.model := by
  have hassumed := h.assumed
  rw [hpath] at hassumed
  rcases List.prefix_or_prefix_of_prefix hassumed h'.assumed with hle | hle
  · exact .inl (h.padded h' hpath hle)
  · exact .inr (h'.padded h hpath.symm hle)

theorem resolve_eq (h' : d'.Drives q) {m : Model} (hpadded : m.Padded d'.model) {var : SymVar} {ty : ValueType}
    (hty : q.path.inputs.get? var = some ty) : m.resolve var ty = d'.model.resolve var ty := by
  refine Equality.resolve_of_padded h'.solved hpadded fun a ha hvar => ?_
  obtain ⟨cl, hcl, rfl⟩ := h'.mem_clauses ha
  have htyped := h'.sound.typed hcl
  rw [hvar, hty] at htyped
  exact (Option.some.inj htyped).symm

theorem not_parted (h : d.Drives p) (h' : d'.Drives q) (hpadded : d.model.Padded d'.model) :
    ¬ Parted p.path.clauses q.path.clauses := by
  rintro ⟨before, cl, hleft, hright⟩
  have hmem : cl.negate ∈ q.path.clauses := hright.subset (by simp)
  have hholds := h.sound.holds_resolve (hleft.subset (List.mem_append_right _ (List.mem_singleton_self cl)))
  have hnegated := h'.sound.holds_resolve hmem
  -- The input has the same value in both runs, so a clause and its negation hold of one value.
  rw [← h'.resolve_eq hpadded (h'.sound.typed hmem), Clause.negate, Predicate.negate_holds] at hnegated
  rw [show cl.predicate.negate.var = cl.predicate.var from rfl,
    show cl.predicate.negate.ty = cl.predicate.ty from rfl, hholds] at hnegated
  cases hnegated

theorem trace_model_eq {x y : Execution Unit} (h : d.Drives x.provider) (h' : d'.Drives y.provider)
    (halike : x.provider.Alike y.provider) (hpadded : d.model.Padded d'.model) : x.trace.model = y.trace.model := by
  have hget : ∀ var, x.trace.model.get? var = y.trace.model.get? var := by
    intro var
    by_cases hbound : ∃ k b, x.provider.bindings.get? k = some b ∧ b.var = var
    · obtain ⟨k, b, hb, rfl⟩ := hbound
      have hsome := halike.bindings k
      rw [hb, Option.isSome_some] at hsome
      obtain ⟨b', hb'⟩ := Option.isSome_iff_exists.1 hsome.symm
      obtain ⟨hvar, ty, hty, _, hvalue⟩ := h.sound.bound hb
      obtain ⟨_, ty', hty', _, hvalue'⟩ := h'.sound.bound hb'
      rw [halike.path, hty'] at hty
      cases hty
      rw [hvar, Execution.trace_get? h.sound.named hb, Execution.trace_get? h'.sound.named hb', hvalue, hvalue',
        h'.resolve_eq hpadded hty']
    · push Not at hbound
      rw [Execution.trace_get?_eq_none hbound, Execution.trace_get?_eq_none fun k b' hb' hvar => ?_]
      have hsome := halike.bindings k
      rw [hb', Option.isSome_some] at hsome
      obtain ⟨b, hb⟩ := Option.isSome_iff_exists.1 hsome
      refine hbound k b hb ?_
      rw [(h.sound.bound hb).1, ← (h'.sound.bound hb').1, hvar]
  exact congrArg Model.mk (SortedMap.ext_get? hget)

end Candidate.Drives

theorem Execution.Sound.not_parted_of_trace {R R' : SymVar → ValueType → Value → Prop} {x y : Execution Unit}
    (hx : x.Sound R) (hy : y.Sound R') (hmodel : x.trace.model = y.trace.model) :
    ¬ Parted x.provider.path.clauses y.provider.path.clauses := by
  rintro ⟨before, cl, hleft, hright⟩
  have hallows := hy.trace_allows
  rw [← hmodel] at hallows
  have hmem : cl.negate.negate.predicate ∈ x.provider.path.clauses.map (·.predicate) := by
    rw [Clause.negate_negate]
    exact List.mem_map_of_mem (hleft.subset (by simp))
  exact hallows.notMem hx.trace_satisfies hmem (hright.subset (by simp))

section

variable {b : Body} (hb : b.MockDriven) {config : MockConfig} {d d' : Candidate} (h : d.Sprung b config)
  (h' : d'.Sprung b config)
include hb h h'

theorem Candidate.Sprung.same_of_padded (hpadded : d.model.Padded d'.model) (id id' : UInt64) :
    (b.runUnder config id d.model d.assumptions).1.provider.path.clauses =
        (b.runUnder config id' d'.model d'.assumptions).1.provider.path.clauses ∧
      (b.runUnder config id d.model d.assumptions).1.trace.model =
        (b.runUnder config id' d'.model d'.assumptions).1.trace.model := by
  have hdrives := h.drives hb id
  have hdrives' := h'.drives hb id'
  have hagree := ((h.settled hb id).agree_or_parted hb (h'.settled hb id')).resolve_right
    (hdrives.not_parted hdrives' hpadded)
  have halike := hagree.alike.provider
  exact ⟨congrArg PathCondition.clauses halike.path, hdrives.trace_model_eq hdrives' halike hpadded⟩

theorem Candidate.Sprung.same_path_iff_padded (id id' : UInt64) :
    (b.runUnder config id d.model d.assumptions).1.provider.path.clauses =
        (b.runUnder config id' d'.model d'.assumptions).1.provider.path.clauses ↔
      d.model.Padded d'.model ∨ d'.model.Padded d.model := by
  constructor
  · exact (h.drives hb id).padded_or_padded (h'.drives hb id')
  · rintro (hpadded | hpadded)
    · exact (h.same_of_padded hb h' hpadded id id').1
    · exact (h'.same_of_padded hb h hpadded id' id).1.symm

theorem Candidate.Sprung.same_path_iff_same_model (id id' : UInt64) :
    (b.runUnder config id d.model d.assumptions).1.provider.path.clauses =
        (b.runUnder config id' d'.model d'.assumptions).1.provider.path.clauses ↔
      (b.runUnder config id d.model d.assumptions).1.trace.model =
        (b.runUnder config id' d'.model d'.assumptions).1.trace.model := by
  constructor
  · intro hpath
    rcases (h.same_path_iff_padded hb h' id id').1 hpath with hpadded | hpadded
    · exact (h.same_of_padded hb h' hpadded id id').2
    · exact (h'.same_of_padded hb h hpadded id' id).2.symm
  · intro hmodel
    have hnot := (Body.runUnder_sound hb).not_parted_of_trace (Body.runUnder_sound hb) hmodel
    have hagree := ((h.settled hb id).agree_or_parted hb (h'.settled hb id')).resolve_right hnot
    exact congrArg PathCondition.clauses hagree.alike.provider.path

end

/-! ## Test cases -/

namespace CampaignContext

/-- Let the equality solver explore a mock-driven body. No model is run twice. Two executions follow one path if and
only if one of their models is the other with more inputs at their defaults, and if and only if they use the same
inputs. If every execution but the first uses exactly the inputs that its model has, then all that are reported are
different. -/
theorem run_repeats (x : CampaignContext) (hsolver : x.solver = .equality) (c : Campaign) (t : TestCase)
    (hb : t.body.MockDriven) :
    let run := t.runner x.config.mock
    let done := x.performedBy run c t
    (done.map (·.2.model)).Nodup ∧
      (∀ e ∈ done, ∀ e' ∈ done, ∀ u u' : Trace, (run e.1 e.2).result = .ok u → (run e'.1 e'.2).result = .ok u' →
        (u.path.clauses = u'.path.clauses ↔ e.2.model.Padded e'.2.model ∨ e'.2.model.Padded e.2.model) ∧
          (u.path.clauses = u'.path.clauses ↔ u.model = u'.model)) ∧
      ((∀ e ∈ done.tail, ∀ u : Trace, (run e.1 e.2).result = .ok u → u.model = e.2.model) →
        (x.run c t).1.inputs.Nodup) := by
  intro run done
  obtain ⟨c', s', status, hexplores, hreport⟩ := x.runBy_explores run c t
  have hsprung : ∀ e ∈ done, e.2.Sprung t.body x.config.mock :=
    fun e he => performedBy_sprung hsolver (fun _ _ => rfl) c he
  have hnodup : (done.map (·.2.model)).Nodup := (Search.Distinct.start _).explores hexplores
  refine ⟨hnodup, fun e he e' he' u u' hu hu' => ?_, fun hexact => ?_⟩
  · obtain ⟨_, rfl⟩ := Body.execute_result.1 hu
    obtain ⟨_, rfl⟩ := Body.execute_result.1 hu'
    exact ⟨(hsprung e he).same_path_iff_padded hb (hsprung e' he') e.1 e'.1,
      (hsprung e he).same_path_iff_same_model hb (hsprung e' he') e.1 e'.1⟩
  · have htally := (Search.Tally.start (t.locations.map (·.1))).explores hexplores
    have hinputs : (x.run c t).1.inputs = ((x.outcomesBy run c t).filterMap Except.toOption).map Trace.model := by
      rw [← x.runBy_runner, hreport]
      exact htally.inputs
    rw [hinputs]
    exact hexplores.nodup_inputs rfl hnodup hexact

/-- With a single input, each execution uses the model it is given. -/
theorem run_repeats_one_input :
    let t : TestCase := {
      name := "one input"
      body := .ofList [.act (.mock "a" Capability.intSupplier.descriptor), .act (.call "a" [] "v"),
        .branch ⟨1⟩ "v" .eq 5 .skip (.branch ⟨2⟩ "v" .eq 0 .skip .skip)] }
    let x : CampaignContext := { config := { campaign := { stopWhenComplete := false } }, solver := .equality }
    let done := x.performedBy (t.runner x.config.mock) {} t
    t.body.MockDriven ∧ done.length = 3 ∧
      (∀ e ∈ done.tail, ∀ u : Trace, (t.runner x.config.mock e.1 e.2).result = .ok u → u.model = e.2.model) ∧
      (x.run {} t).1.inputs.Nodup := by
  intro t x done
  have hb : t.body.MockDriven := by simp [t, Body.ofList, Body.MockDriven, Action.MockDriven]
  have hused : ∀ e ∈ done.tail, ∀ u ∈ (t.runner x.config.mock e.1 e.2).result.toOption, u.model = e.2.model := by
    decide +kernel
  have hexact : ∀ e ∈ done.tail, ∀ u : Trace, (t.runner x.config.mock e.1 e.2).result = .ok u → u.model = e.2.model :=
    fun e he u hu => hused e he u (by rw [hu]; rfl)
  exact ⟨hb, by decide +kernel, hexact, (run_repeats x rfl {} t hb).2.2 hexact⟩

/-- With a second input that no branch looks at, the first path is run again: the model of the first execution leaves
both inputs open, the trace has both, and the model that comes back for the path has one. -/
theorem run_repeats_two_inputs :
    let t : TestCase := {
      name := "two inputs"
      body := .ofList [.act (.mock "a" Capability.intSupplier.descriptor),
        .act (.mock "b" Capability.intSupplier.descriptor), .act (.call "a" [] "v"), .act (.call "b" [] "w"),
        .branch ⟨1⟩ "v" .eq 5 .skip .skip] }
    let x : CampaignContext := { config := { campaign := { stopWhenComplete := false } }, solver := .equality }
    t.body.MockDriven ∧
      (∀ e ∈ x.performedBy (t.runner x.config.mock) {} t, (t.runner x.config.mock e.1 e.2).result.toOption.isSome) ∧
      ¬ (x.run {} t).1.inputs.Nodup := by
  intro t x
  have hb : t.body.MockDriven := by simp [t, Body.ofList, Body.MockDriven, Action.MockDriven]
  exact ⟨hb, by decide +kernel, by decide +kernel⟩

end CampaignContext

end MockExplorer
