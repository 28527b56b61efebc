import MockExplorer.Proofs.Execution.Refusal
import MockExplorer.Proofs.Execution.TruePath
import MockExplorer.Proofs.Target

/-!
# Calling the methods of a target

A call names a method, and goes to the first one of the name that can be called at all. Whenever the resolver has an
acceptable value for it, that method returns a value of its return type, bound to an input of this type. Another
method of the same name can be called just as far as the first one looks like it: it takes as many arguments and
returns the same type.
-/

namespace MockExplorer

variable {σ : Type} {past : List Event}

/-! ## The first method of a name -/

/-- Calls of `f` on a mock of the target go to the method. -/
structure MockTarget.Reaches (t : MockTarget) (f : String) (sig : MethodSig) : Prop where
  callable : sig.Open
  name : sig.name = f
  first : ∃ before after, t.methods = before ++ sig :: after ∧ ∀ m ∈ before, m.Open → m.name ≠ f

theorem MockTarget.method?_eq_some {t : MockTarget} {f : String} {sig : MethodSig} :
    t.method? f = some sig ↔ t.Reaches f sig := by
  rw [method?, interceptable, List.find?_filter, List.find?_eq_some_iff_append]
  simp only [decide_eq_true_eq, Bool.not_eq_true', decide_eq_false_iff_not, MethodSig.isInterceptable_iff, not_and]
  constructor
  · rintro ⟨⟨hopen, hname⟩, hfirst⟩
    exact ⟨hopen, hname, hfirst⟩
  · rintro ⟨hopen, hname, hfirst⟩
    exact ⟨⟨hopen, hname⟩, hfirst⟩

theorem MockTarget.exists_reaches {t : MockTarget} {m : MethodSig} (hm : m ∈ t.methods) (hopen : m.Open) :
    ∃ first, t.Reaches m.name first := by
  cases hfirst : t.method? m.name with
  | some first => exact ⟨first, method?_eq_some.1 hfirst⟩
  | none => simpa using List.find?_eq_none.1 hfirst m (mem_interceptable.2 ⟨hm, hopen⟩)

/-! ## Providers apart from their clauses -/

namespace Provider

variable {p q : Provider} {e : Event} {history : List Moment}

/-- The provider as if nothing was recorded. A body may record any clause, so that a path says nothing of the table
of bindings. -/
def bare (p : Provider) : Provider := { p with path := { inputs := p.path.inputs }, journal := none }

theorem Enters.bare {k : BindingKey} {ty : ValueType} {args : List Value} {v : Value} {b : Binding}
    (h : p.Enters k ty args v b) : p.bare.Enters k ty args v b := by
  cases h with
  | again hb => exact .again hb
  | first hb hv => exact .first hb ⟨hv.conforms, hv.assumed⟩

theorem Step.bare (h : p.Step past e q) : p.bare.Step past e q.bare := by
  cases h with
  | created h hslot => exact .created (createMock_comm (fun _ _ _ => rfl) (fun _ _ => rfl) ⟨rfl, rfl⟩ h) hslot
  | returned hm hsig h =>
      obtain ⟨b, henters, rfl, rfl⟩ := bind_eq_ok.1 h
      exact .returned hm hsig (bind_eq_ok.2 ⟨b, henters.bare, rfl, rfl⟩)

theorem Evolves.charted_bare (h : Evolves past p history q) (hp : p.bare.Charted past) :
    q.bare.Charted (past ++ history.map (·.event)) := by
  induction h with
  | refl past p => simpa using hp
  | step h _ ih => simpa using ih (hp.step h.bare)

theorem Step.assumptions (h : p.Step past e q) : q.assumptions = p.assumptions := by
  cases h with
  | created h _ => exact (grows_createMock h).assumptions
  | returned _ _ h =>
      obtain ⟨_, _, _, rfl⟩ := bind_eq_ok.1 h
      rfl

theorem Evolves.assumptions (h : Evolves past p history q) : q.assumptions = p.assumptions := by
  induction h with
  | refl past p => rfl
  | step h _ ih => exact ih.trans h.assumptions

/-- What a call enters for a method of a mock is a value of the method's return type. -/
theorem Charted.enters {m : MockInstance} {f : String} {sig : MethodSig} {args : List Value} {v : Value} {b : Binding}
    (hp : p.bare.Charted past) (hm : .created m ∈ past) (hsig : m.target.method? f = some sig)
    (h : p.Enters ⟨m.id, f⟩ sig.returns args v b) :
    b.var = .forCall m.id.slot f ∧ b.value.conformsTo sig.returns = true ∧
      Binds { p with bindings := p.bindings.insert ⟨m.id, f⟩ b } (.forCall m.id.slot f) sig.returns b.value := by
  have hty : p.path.inputs.get? (.forCall m.id.slot f) = some sig.returns := hp.registered m hm f sig hsig
  refine ⟨?_, ?_, binds_insert (k := ⟨m.id, f⟩) b hty⟩
  · cases h with
    | again hb => exact (hp.sound.bound hb).1
    | first hb hv => rfl
  · cases h with
    | again hb =>
        obtain ⟨_, ty, hty', hacc, _⟩ := hp.sound.bound hb
        rw [show ty = sig.returns from Option.some.inj (hty'.symm.trans hty)] at hacc
        exact hacc.conforms
    | first hb hv => exact hv.conforms

end Provider

/-! ## Runs -/

/-- Of what was handed out, all is at its place: the mocks at hand were created, and their methods are registered and
bound at their return types. -/
structure Execution.Furnished (past : List Event) (x : Execution σ) : Prop where
  knows : x.Knows past
  charted : x.provider.bare.Charted past

namespace Execution

variable {x y : Execution σ}

theorem Furnished.start (config : MockConfig) (id : UInt64) (assumptions : List Predicate) (state : σ) :
    (Execution.start config id assumptions state).Furnished [] :=
  ⟨⟨fun h => by (cases h), fun m hm => by (cases hm)⟩, .start config assumptions⟩

theorem Furnished.onlyRecords (hx : x.Furnished past) (h : x.OnlyRecords y) : y.Furnished (past ++ []) := by
  obtain ⟨_, _, hprovider⟩ := h.provider
  refine ⟨hx.knows.later [] h.mocks h.roster, ?_⟩
  rw [List.append_nil, hprovider]
  exact hx.charted

end Execution

theorem Action.furnished (r : Resolution σ) (a : Action) {x : Execution σ} (hx : x.Furnished past) :
    (a.run r x).1.Furnished (past ++ eventsOf (a.course r x)) := by
  rw [Action.eventsOf_course]
  rcases a.usesMocks_or r x with huses | ⟨hhistory, hrecords⟩
  · obtain ⟨hevolves, hknows, _⟩ := a.records r huses hx.knows
    exact ⟨hknows, hevolves.charted_bare hx.charted⟩
  · rw [hhistory]
    exact hx.onlyRecords hrecords

theorem Body.links_furnished (r : Resolution σ) (b : Body) :
    b.Links r fun x course y => ∀ past, x.Furnished past → y.Furnished (past ++ eventsOf course) where
  same x past hx := hx.onlyRecords (.same rfl rfl rfl)
  append hxy hyz past hx := by
    rw [eventsOf_append, ← List.append_assoc]
    exact hyz _ (hxy past hx)
  write x e past hx := hx.onlyRecords (.write (.same rfl rfl rfl) e)
  act a _ x past hx := a.furnished r hx
  branch {x z value v l op rhs outcome} _ hz past hx := by
    have hrecords := Execution.OnlyRecords.branch x l ⟨v, op, rhs⟩
    rw [hz] at hrecords
    exact hx.onlyRecords hrecords
  enclosed {x course y} h past hx := by
    obtain ⟨hknows, hcharted⟩ := h past ⟨hx.knows.enter, hx.charted⟩
    exact ⟨⟨fun hm => List.mem_append_left _ (hx.knows.mocks hm), hknows.roster⟩, hcharted⟩

/-! ## Calls -/

/-- What the resolver comes to when it is asked for the value of an input, the calls on mocks that it makes being
served. -/
def Resolver.ask (r : Resolver σ) (roster : List MockInstance) (depth : Nat) (c : CallState σ) (var : SymVar)
    (ty : ValueType) : CallResult σ Value :=
  (r.react c.resolver var ty).settle (r.nested roster depth) roster c.provider

theorem Resolver.chronicles_nested (r : Resolver σ) (roster : List MockInstance) (depth : Nat) :
    ∃ within, Chronicles roster (r.nested roster depth) within := by
  cases depth with
  | zero => exact ⟨fun _ _ _ _ => [], fun past c _ _ _ _ _ => .refused _ rfl⟩
  | succ depth => exact ⟨_, r.chronicles_invoke depth⟩

/-- If the method has no value yet, the resolver gives one when asked that may be bound to it. -/
def Resolution.Supplies (r : Resolution σ) (x : Execution σ) (k : BindingKey) (ty : ValueType) : Prop :=
  x.provider.bindings.get? k = none →
    ∃ v c, r.resolver.ask x.roster r.depth x.calls k.var ty = (.ok v, c) ∧ x.provider.Accepts k.var ty v

/-- Whatever it is given, the method returns a value of its return type when it is called with as many arguments as it
has parameters, and the value is bound to an input that is registered at the type. -/
def Resolution.Callable (r : Resolution σ) (x : Execution σ) (mock : MockInstance) (m : MethodSig) : Prop :=
  ∀ args : List Value, args.length = m.params.length →
    ∃ v var c, r.resolver.invoke x.roster r.depth x.calls mock m.name args = (.ok ⟨v, m.returns, some var⟩, c) ∧
      v.conformsTo m.returns = true ∧ c.provider.Binds var m.returns v

section

variable {r : Resolution σ} {x : Execution σ} {mock : MockInstance} {f : String} {sig : MethodSig}

theorem Execution.Furnished.callable (hx : x.Furnished past) (hm : .created mock ∈ past)
    (hsig : mock.target.Reaches f sig) (hsupplies : r.Supplies x ⟨mock.id, f⟩ sig.returns) : r.Callable x mock sig := by
  intro args harity
  obtain rfl := hsig.name
  have hmethod := MockTarget.method?_eq_some.2 hsig
  rw [r.resolver.invoke_eq_serve, Resolver.serve]
  simp only [MockInstance.dispatch_eq_ok.2 ⟨hmethod, harity.symm⟩, MockInstance.key_of_method? hmethod]
  cases hb : x.provider.bindings.get? ⟨mock.id, sig.name⟩ with
  | some b =>
      have henters : x.provider.Enters ⟨mock.id, sig.name⟩ sig.returns args b.value _ := .again hb
      obtain ⟨hvar, hconforms, hbinds⟩ := hx.charted.enters hm hmethod henters
      rw [Provider.replay?_eq (show x.calls.provider.bindings.get? _ = some b from hb)]
      exact ⟨b.value, b.var, _, rfl, hconforms, hvar ▸ hbinds⟩
  | none =>
      obtain ⟨v, c, hask, haccepts⟩ := hsupplies hb
      obtain ⟨within, hnested⟩ := r.resolver.chronicles_nested x.roster r.depth
      have hevolves := Reaction.evolves_settle hnested
        (r.resolver.react x.calls.resolver (BindingKey.mk mock.id sig.name).var sig.returns) x.provider
        hx.knows.roster
      rw [show Reaction.settle _ _ _ x.provider = (.ok v, c) from hask] at hevolves
      have hcharted := hevolves.charted_bare hx.charted
      -- The resolver may have bound the method itself before it answers.
      obtain ⟨b, henters⟩ : ∃ b, c.provider.Enters ⟨mock.id, sig.name⟩ sig.returns args v b := by
        cases hb' : c.provider.bindings.get? ⟨mock.id, sig.name⟩ with
        | some b => exact ⟨_, .again hb'⟩
        | none => exact ⟨_, .first hb' ⟨haccepts.conforms, by rw [hevolves.assumptions]; exact haccepts.assumed⟩⟩
      obtain ⟨hvar, hconforms, hbinds⟩ := hcharted.enters (List.mem_append_left _ hm) hmethod henters
      rw [Provider.replay?_eq_none (show x.calls.provider.bindings.get? _ = none from hb)]
      simp only [show Reaction.settle _ _ _ x.calls.provider = (.ok v, c) from hask,
        Provider.bind_eq_ok.2 ⟨b, henters, rfl, rfl⟩]
      exact ⟨b.value, b.var, _, rfl, hconforms, hvar ▸ hbinds⟩

theorem MockTarget.Reaches.invoke_arity (h : mock.target.Reaches f sig) {args : List Value}
    (harity : sig.params.length ≠ args.length) :
    r.resolver.invoke x.roster r.depth x.calls mock f args =
      (.error (.raised (.arity f sig.params.length args.length)), x.calls) := by
  rw [r.resolver.invoke_eq_serve]
  exact (Refused.arity (method?_eq_some.2 h) harity).serve _

/-- A method that is not the first of its name is taken for the first one. -/
theorem MockTarget.Reaches.callable_iff {m : MethodSig} (h : mock.target.Reaches m.name sig)
    (hsig : r.Callable x mock sig) :
    r.Callable x mock m ↔ sig.params.length = m.params.length ∧ sig.returns = m.returns := by
  constructor
  · intro hm
    have hlength : (List.replicate m.params.length Value.null).length = m.params.length := List.length_replicate
    obtain ⟨v, var, c, hcall, _⟩ := hm _ hlength
    have harity : sig.params.length = m.params.length := by
      by_contra hne
      rw [h.invoke_arity (by rw [hlength]; exact hne)] at hcall
      cases hcall
    obtain ⟨v', var', c', hcall', _⟩ := hsig _ (hlength.trans harity.symm)
    rw [h.name, hcall] at hcall'
    simp only [Prod.mk.injEq, Except.ok.injEq, ConcolicValue.mk.injEq] at hcall'
    exact ⟨harity, hcall'.1.2.1.symm⟩
  · rintro ⟨harity, hreturns⟩ args hargs
    have hcall := hsig args (hargs.trans harity.symm)
    rwa [h.name, hreturns] at hcall

end

/-! ## Mocks that were created -/

theorem Action.run_mock_ok {r : Resolution σ} {name : String} {t : MockTarget} {x y : Execution σ}
    (h : (Action.mock name t).run r x = (y, none)) :
    ∃ mock p, x.provider.createMock t = .ok (mock, p) ∧ p.nextSlot ≠ 0 ∧
      y = ((x.withProvider p).keepMock name mock).write (.created mock) := by
  simp only [Action.run] at h
  cases hcreate : x.provider.createMock t with
  | error e =>
      rw [hcreate] at h
      cases h
  | ok created =>
      simp only [hcreate] at h
      split at h
      · cases h
      · rename_i hslot
        cases h
        exact ⟨created.1, created.2, rfl, hslot, rfl⟩

/-- Whatever was done before and is done after a target was mocked, a call on the mock goes to the first method of its
name that can be called. Given a value that may be bound, this method returns one as declared. Any other method of the
name does so exactly if it takes as many arguments as the first one and has its return type. -/
theorem Resolution.callable_methods (r : Resolution σ) (config : MockConfig) (id : UInt64)
    (assumptions : List Predicate) (state : σ) (b : Body) (name : String) (t : MockTarget) (y : Execution σ)
    (hmock : (Action.mock name t).run r (b.run r (.start config id assumptions state)).1 = (y, none)) :
    ∃ mock, y.scope.mocks.get? name = some mock ∧ mock.target = t ∧
      ∀ (later : Body) (m : MethodSig), m ∈ t.methods → m.Open →
        let z := (later.run r y).1
        ∃ first, t.Reaches m.name first ∧
          (first.params.length ≠ m.params.length → ∀ args : List Value, args.length = m.params.length →
            r.resolver.invoke z.roster r.depth z.calls mock m.name args =
              (.error (.raised (.arity m.name first.params.length m.params.length)), z.calls)) ∧
          (r.Supplies z ⟨mock.id, m.name⟩ first.returns →
            r.Callable z mock first ∧
              (r.Callable z mock m ↔ first.params.length = m.params.length ∧ first.returns = m.returns)) := by
  obtain ⟨mock, p, hcreate, hslot, hy⟩ := Action.run_mock_ok hmock
  obtain ⟨_, rfl, _⟩ := Provider.createMock_spec hcreate
  have hx := (b.links_furnished r).run _ [] (.start config id assumptions state)
  have hfurnished := (Action.mock name mock.target).furnished r hx
  rw [hmock] at hfurnished
  have hcreated : .created mock ∈ eventsOf ((Action.mock name mock.target).course r
      (b.run r (.start config id assumptions state)).1) := by
    simp [Action.eventsOf_course, Action.history, hcreate, hslot]
  refine ⟨mock, by rw [hy, Execution.write_scope, Execution.get?_keepMock, if_pos rfl], rfl, ?_⟩
  intro later m hm hopen z
  have hz := (later.links_furnished r).run y _ hfurnished
  obtain ⟨first, hfirst⟩ := MockTarget.exists_reaches hm hopen
  refine ⟨first, hfirst, fun harity args hargs => ?_, fun hsupplies => ?_⟩
  · rw [← hargs]
    exact hfirst.invoke_arity (by rw [hargs]; exact harity)
  · have hcallable := hz.callable (List.mem_append_left _ (List.mem_append_right _ hcreated)) hfirst hsupplies
    exact ⟨hcallable, hfirst.callable_iff hcallable⟩

/-- A resolver calls the method that it is asked about. Of five methods of one name the first is private; of the others
the first can be called, and so can the one that looks like it. -/
theorem Resolution.callable_methods_reentrant :
    let plain : MethodSig := { name := "get", returns := .int }
    let wide : MethodSig := { name := "get", params := [.int], returns := .int }
    let long : MethodSig := { name := "get", returns := .long }
    let twin : MethodSig := { name := "get", returns := .int, modifiers := { isFinal := true } }
    let t : MockTarget := {
      name := "Source", kind := .interface
      methods := [{ long with modifiers := { isPrivate := true } }, plain, wide, long, twin] }
    let script : Script := ⟨(∅ : SortedMap SymVar (List ScriptAction)).insert (.forCall 0 "get")
      [.invoke 0 "get" [] (some (.int 4)), .value (.int 7)]⟩
    let r : Resolution Script := { resolver := .script, depth := 2 }
    let mock : MockInstance := ⟨⟨0⟩, t, .proxy⟩
    let y := ((Action.mock "s" t).run r (.start {} 0 [] script)).1
    y.scope.mocks.get? "s" = some mock ∧ r.Supplies y ⟨⟨0⟩, "get"⟩ .int ∧ r.Callable y mock plain ∧
      ¬ r.Callable y mock wide ∧ ¬ r.Callable y mock long ∧ r.Callable y mock twin := by
  intro plain wide long twin t script r mock y
  have hmock : y.scope.mocks.get? "s" = some mock := by decide +kernel
  have hrun : (Action.mock "s" t).run r (.start {} 0 [] script) = (y, none) := Prod.ext rfl (by decide +kernel)
  have hask : (r.resolver.ask y.roster r.depth y.calls (.forCall 0 "get") .int).1 = .ok (.int 4) := by decide +kernel
  have hassumed : y.provider.assumptions = [] := by decide +kernel
  have hfirst : t.method? "get" = some plain := by decide +kernel
  have hid : mock.id = ⟨0⟩ := rfl
  have hget : ∀ m ∈ t.methods.drop 1, m ∈ t.methods ∧ m.Open ∧ m.name = "get" := by
    simp [t, plain, wide, long, twin, MethodSig.Open]
  clear_value y mock
  have hsupplies : r.Supplies y ⟨⟨0⟩, "get"⟩ .int := by
    intro _
    rcases hout : r.resolver.ask y.roster r.depth y.calls (.forCall 0 "get") .int with ⟨v, c⟩
    rw [hout] at hask
    refine ⟨.int 4, c, hout.trans (by rw [← hask]), rfl, fun a ha => ?_⟩
    rw [hassumed] at ha
    cases ha
  obtain ⟨mock', hmock', _, hmethods⟩ := callable_methods r {} 0 [] script .skip "s" t y hrun
  obtain rfl : mock = mock' := Option.some.inj (hmock.symm.trans hmock')
  have hcallable : ∀ m ∈ t.methods.drop 1, r.Callable y mock plain ∧
      (r.Callable y mock m ↔ plain.params.length = m.params.length ∧ plain.returns = m.returns) := by
    intro m hm
    obtain ⟨hm, hopen, hname⟩ := hget m hm
    obtain ⟨first, hreaches, _, hfacts⟩ := hmethods .skip m hm hopen
    rw [hname] at hreaches hfacts
    obtain rfl : plain = first := Option.some.inj (hfirst.symm.trans (MockTarget.method?_eq_some.2 hreaches))
    exact hfacts (hid ▸ hsupplies)
  refine ⟨hmock, hsupplies, (hcallable plain (by simp [t])).1, fun h => ?_, fun h => ?_, ?_⟩
  · cases ((hcallable wide (by simp [t])).2.1 h).1
  · cases ((hcallable long (by simp [t])).2.1 h).2
  · exact (hcallable twin (by simp [t])).2.2 ⟨rfl, rfl⟩

theorem Resolver.ofModel_supplies {x : Execution Unit} (hx : x.provider.assumptions = []) (k : BindingKey)
    (ty : ValueType) : Resolution.Supplies { resolver := .ofModel {} } x k ty := by
  intro _
  refine ⟨ty.default, x.calls, rfl, ty.default_conformsTo, fun a ha => ?_⟩
  rw [hx] at ha
  cases ha

/-- A parser of a text or of the default text: with one argument the method that takes none is called. -/
theorem Resolution.callable_methods_not_overloads :
    let plain : MethodSig := { name := "parse", returns := .long }
    let m : MethodSig := { name := "parse", params := [.object], returns := .long }
    let t : MockTarget := { name := "Parser", kind := .interface, methods := [plain, m] }
    let r : Resolution Unit := { resolver := .ofModel {} }
    ∃ y mock, (Action.mock "p" t).run r (.start {} 0 [] ()) = (y, none) ∧ y.scope.mocks.get? "p" = some mock ∧
      m ∈ t.methods ∧ m.Open ∧ (∀ k ty, r.Supplies y k ty) ∧
      r.resolver.invoke y.roster r.depth y.calls mock "parse" [.null] =
        (.error (.raised (.arity "parse" 0 1)), y.calls) ∧
      ¬ r.Callable y mock m := by
  intro plain m t r
  have hcall : ∀ y : Execution Unit, r.resolver.invoke y.roster r.depth y.calls ⟨⟨0⟩, t, .proxy⟩ "parse" [.null] =
      (.error (.raised (.arity "parse" 0 1)), y.calls) := fun y => rfl
  refine ⟨_, ⟨⟨0⟩, t, .proxy⟩, rfl, rfl, by simp [t], by simp [MethodSig.Open, m], fun k ty => ?_, hcall _, ?_⟩
  · exact Resolver.ofModel_supplies rfl k ty
  · intro hcallable
    obtain ⟨v, var, c, hok, _⟩ := hcallable [.null] rfl
    rw [hcall] at hok
    cases hok

end MockExplorer
