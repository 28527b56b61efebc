import MockExplorer.Proofs.Execution.Course

/-!
# Refused mocks and calls

A mock is refused if its target is, and a call for one of five reasons, which are looked at in a fixed order. Whatever
the reason, the provider stays as it was: a refused mock takes no slot, and a method whose call was refused may still be
bound by the next one. Only the resolver remembers that it was asked.
-/

namespace MockExplorer

variable {σ : Type} {past : List Event}

/-! ## Values that are not bound -/

/-- Why a value may not be bound to the input: it has another type, or it is at odds with an assumption, the first such
one being told. -/
inductive Provider.Rejects (p : Provider) (var : SymVar) (ty : ValueType) (v : Value) : MockError → Prop where
  | mistyped (hty : v.conformsTo ty = false) :
      Rejects p var ty v (.inconsistent var.name ("resolver produced " ++ v.text ++ ", declared type is " ++ ty.text))
  | violated {a : Predicate} {before after : List Predicate} (hty : v.conformsTo ty = true)
      (hassumed : p.assumptions = before ++ a :: after) (hbefore : ∀ a' ∈ before, a'.var = var → a'.holds v = true)
      (hvar : a.var = var) (ha : a.holds v = false) :
      Rejects p var ty v (.inconsistent var.name ("resolver produced " ++ v.text ++ ", path requires " ++ a.text))

namespace Provider

variable {p q : Provider} {k : BindingKey} {sig : MethodSig} {args : List Value} {v : Value} {e : MockError}

theorem Rejects.bind (h : p.Rejects k.var sig.returns v e) (args : List Value) (hnone : p.bindings.get? k = none) :
    p.bind k sig args v = .error e := by
  unfold Provider.bind
  rw [replay?_eq_none hnone]
  cases h with
  | mistyped hty => simp only [hty, ↓reduceIte]
  | @violated a before after hty hassumed hbefore hvar ha =>
      have hfind : p.assumptions.find? (fun a => a.var = k.var && !a.holds v) = some a := by
        rw [List.find?_eq_some_iff_append]
        refine ⟨by simp [hvar, ha], before, after, hassumed, fun a' ha' => ?_⟩
        by_cases hvar' : a'.var = k.var
        · simp [hbefore a' ha' hvar']
        · simp [hvar']
      simp only [hty, hfind, Bool.true_eq_false, ↓reduceIte]

theorem rejects_of_bind (h : p.bind k sig args v = .error e) :
    p.bindings.get? k = none ∧ p.Rejects k.var sig.returns v e := by
  cases hb : p.bindings.get? k with
  | some b =>
      unfold Provider.bind at h
      rw [replay?_eq hb] at h
      cases h
  | none =>
      unfold Provider.bind at h
      rw [replay?_eq_none hb] at h
      refine ⟨rfl, ?_⟩
      cases hty : v.conformsTo sig.returns with
      | false =>
          simp only [hty, ↓reduceIte] at h
          cases h
          exact .mistyped hty
      | true =>
          simp only [hty, Bool.true_eq_false, ↓reduceIte] at h
          cases hfind : p.assumptions.find? fun a => a.var = k.var && !a.holds v with
          | none =>
              rw [hfind] at h
              cases h
          | some a =>
              rw [hfind] at h
              cases h
              obtain ⟨ha, before, after, hassumed, hbefore⟩ := List.find?_eq_some_iff_append.1 hfind
              simp only [Bool.and_eq_true, decide_eq_true_eq, Bool.not_eq_true'] at ha
              refine .violated hty hassumed (fun a' ha' hvar => ?_) ha.1 ha.2
              simpa [hvar] using hbefore a' ha'

end Provider

/-! ## Refused calls -/

/-- Why a call is refused, in the order in which the reasons are looked for, and the state that its resolver is left
in. -/
inductive Refused (r : Resolver σ) (c : CallState σ) (m : MockInstance) (f : String) (args : List Value) :
    MockError → σ → Prop where
  | unknown (h : ∀ sig ∈ m.target.interceptable, sig.name ≠ f) :
      Refused r c m f args (.unknownMethod m.target.name f) c.resolver
  | arity {sig : MethodSig} (hsig : m.target.method? f = some sig) (h : sig.params.length ≠ args.length) :
      Refused r c m f args (.arity f sig.params.length args.length) c.resolver
  | failed {sig : MethodSig} {e : MockError} {state : σ} (hsig : m.target.method? f = some sig)
      (harity : sig.params.length = args.length) (hunbound : c.provider.bindings.get? ⟨m.id, f⟩ = none)
      (hask : r.react c.resolver (.forCall m.id.slot f) sig.returns = .fail e state) : Refused r c m f args e state
  | rejected {sig : MethodSig} {v : Value} {e : MockError} {state : σ} (hsig : m.target.method? f = some sig)
      (harity : sig.params.length = args.length) (hunbound : c.provider.bindings.get? ⟨m.id, f⟩ = none)
      (hask : r.react c.resolver (.forCall m.id.slot f) sig.returns = .answer v state)
      (h : c.provider.Rejects (.forCall m.id.slot f) sig.returns v e) : Refused r c m f args e state

theorem MockInstance.dispatch_eq_ok {m : MockInstance} {f : String} {args : List Value} {sig : MethodSig} :
    m.dispatch f args = .ok sig ↔ m.target.method? f = some sig ∧ sig.params.length = args.length := by
  unfold dispatch
  cases hsig : m.target.method? f with
  | none => simp
  | some sig' =>
      by_cases harity : sig'.params.length = args.length
      · simp only [harity, ne_eq, not_true_eq_false, ↓reduceIte, Except.ok.injEq, Option.some.injEq]
        exact ⟨fun h => ⟨h, h ▸ harity⟩, fun h => h.1⟩
      · simp only [ne_eq, harity, not_false_eq_true, ↓reduceIte, reduceCtorEq, Option.some.injEq, false_iff]
        rintro ⟨rfl, h⟩
        exact harity h

theorem MockInstance.key_of_method? {m : MockInstance} {f : String} {sig : MethodSig}
    (h : m.target.method? f = some sig) : m.key sig = ⟨m.id, f⟩ := by
  have hname : sig.name = f := by simpa using List.find?_some h
  rw [MockInstance.key, hname]

section

variable {r : Resolver σ} {roster : List MockInstance} {c c' : CallState σ} {m : MockInstance} {f : String}
  {args : List Value} {e : MockError} {state : σ}

theorem Refused.serve (h : Refused r c m f args e state)
    (nested : CallState σ → MockInstance → String → List Value → CallResult σ ConcolicValue) :
    r.serve roster nested c m f args = (.error (.raised e), ⟨c.provider, state⟩) := by
  unfold Resolver.serve
  cases h with
  | unknown h =>
      have hsig : m.target.method? f = none := List.find?_eq_none.2 fun sig hmem => by simpa using h sig hmem
      simp only [MockInstance.dispatch, hsig]
  | arity hsig h => simp only [MockInstance.dispatch, hsig, ne_eq, h, not_false_eq_true, ↓reduceIte]
  | failed hsig harity hunbound hask =>
      simp only [MockInstance.dispatch_eq_ok.2 ⟨hsig, harity⟩, MockInstance.key_of_method? hsig,
        Provider.replay?_eq_none hunbound, BindingKey.var, hask, Reaction.settle]
  | rejected hsig harity hunbound hask h =>
      simp only [MockInstance.dispatch_eq_ok.2 ⟨hsig, harity⟩, MockInstance.key_of_method? hsig,
        Provider.replay?_eq_none hunbound, BindingKey.var, hask, Reaction.settle, h.bind (k := ⟨m.id, f⟩) args hunbound]

theorem MockInstance.refused_of_dispatch (h : m.dispatch f args = .error e) : Refused r c m f args e c.resolver := by
  unfold dispatch at h
  split at h
  · rename_i hsig
    cases h
    exact .unknown fun sig hmem => by simpa using List.find?_eq_none.1 hsig sig hmem
  · rename_i sig hsig
    split at h
    · rename_i harity
      cases h
      exact .arity hsig harity
    · cases h

/-- A resolver that calls no mock fails in no other way. -/
theorem Resolver.Direct.refused_of_serve (hr : r.Direct)
    {nested : CallState σ → MockInstance → String → List Value → CallResult σ ConcolicValue} {halt : Halt}
    (h : r.serve roster nested c m f args = (.error halt, c')) :
    ∃ e state, halt = .raised e ∧ c' = ⟨c.provider, state⟩ ∧ Refused r c m f args e state := by
  unfold Resolver.serve at h
  cases hdispatch : m.dispatch f args with
  | error e =>
      rw [hdispatch] at h
      cases h
      exact ⟨e, c.resolver, rfl, rfl, MockInstance.refused_of_dispatch hdispatch⟩
  | ok sig =>
      obtain ⟨hsig, harity⟩ := MockInstance.dispatch_eq_ok.1 hdispatch
      have hkey := MockInstance.key_of_method? hsig
      simp only [hdispatch, hkey] at h
      cases hb : c.provider.bindings.get? ⟨m.id, f⟩ with
      | some b =>
          rw [Provider.replay?_eq hb] at h
          cases h
      | none =>
          rw [Provider.replay?_eq_none hb] at h
          have hdirect := hr c.resolver (.forCall m.id.slot f) sig.returns
          cases hask : r.react c.resolver (.forCall m.id.slot f) sig.returns with
          | call mock method args state resume =>
              rw [hask] at hdirect
              cases hdirect
          | fail e state =>
              simp only [BindingKey.var, hask, Reaction.settle] at h
              cases h
              exact ⟨e, state, rfl, rfl, .failed hsig harity hb hask⟩
          | answer v state =>
              simp only [BindingKey.var, hask, Reaction.settle] at h
              cases hbind : c.provider.bind ⟨m.id, f⟩ sig args v with
              | ok served =>
                  rw [hbind] at h
                  cases h
              | error e =>
                  rw [hbind] at h
                  cases h
                  exact ⟨e, state, rfl, rfl, .rejected hsig harity hb hask (Provider.rejects_of_bind hbind).2⟩

/-- Serves the calls that the resolver makes within a call that may nest `depth` deep. -/
def Resolver.nested (r : Resolver σ) (roster : List MockInstance) :
    (depth : Nat) → CallState σ → MockInstance → String → List Value → CallResult σ ConcolicValue
  | 0 => fun c _ _ _ => (.error .crashed, c)
  | depth + 1 => r.invoke roster depth

theorem Resolver.invoke_eq_serve (r : Resolver σ) (roster : List MockInstance) (depth : Nat) :
    r.invoke roster depth = r.serve roster (r.nested roster depth) := by
  cases depth <;> rfl

theorem Resolver.Direct.invoke_eq_error (hr : r.Direct) {depth : Nat} {halt : Halt} :
    r.invoke roster depth c m f args = (.error halt, c') ↔
      ∃ e state, halt = .raised e ∧ c' = ⟨c.provider, state⟩ ∧ Refused r c m f args e state := by
  rw [r.invoke_eq_serve]
  constructor
  · exact hr.refused_of_serve
  · rintro ⟨e, state, rfl, rfl, h⟩
    exact h.serve _

/-- A call that nothing speaks against binds what the resolver answers. -/
theorem Resolver.invoke_binds {sig : MethodSig} {v : Value} (hsig : m.target.method? f = some sig)
    (harity : sig.params.length = args.length) (hunbound : c.provider.bindings.get? ⟨m.id, f⟩ = none)
    (hask : r.react c.resolver (.forCall m.id.slot f) sig.returns = .answer v state)
    (hv : c.provider.Accepts (.forCall m.id.slot f) sig.returns v) (depth : Nat) :
    r.invoke roster depth c m f args =
      (.ok ⟨v, sig.returns, some (.forCall m.id.slot f)⟩,
        ⟨{ c.provider with
            bindings := c.provider.bindings.insert ⟨m.id, f⟩ ⟨.forCall m.id.slot f, v, args, 1⟩ }, state⟩) := by
  rw [r.invoke_eq_serve, Resolver.serve]
  simp only [MockInstance.dispatch_eq_ok.2 ⟨hsig, harity⟩, MockInstance.key_of_method? hsig,
    Provider.replay?_eq_none hunbound, BindingKey.var, hask, Reaction.settle]
  rw [Provider.bind_of_accepts (k := ⟨m.id, f⟩) hunbound hv]
  rfl

end

/-! ## Refused statements -/

theorem Provider.createMock_eq_error {p : Provider} {t : MockTarget} {e : MockError} :
    p.createMock t = .error e ↔ t.classify p.config = .error e := by
  unfold Provider.createMock
  cases t.classify p.config <;> simp

theorem Action.run_mock_stopped {r : Resolution σ} {name : String} {t : MockTarget} {x y : Execution σ} {halt : Halt}
    (h : (Action.mock name t).run r x = (y, some halt)) :
    y = x ∧ ∀ e, halt = .raised e → x.provider.createMock t = .error e := by
  simp only [Action.run] at h
  cases hcreate : x.provider.createMock t with
  | error e =>
      rw [hcreate] at h
      cases h
      exact ⟨rfl, fun e heq => by cases heq; rfl⟩
  | ok created =>
      simp only [hcreate] at h
      split at h
      · cases h
        exact ⟨rfl, fun e heq => by cases heq⟩
      · cases h

theorem Action.run_mock_raised {r : Resolution σ} {name : String} {t : MockTarget} {x y : Execution σ} {e : MockError} :
    (Action.mock name t).run r x = (y, some (.raised e)) ↔ t.classify x.provider.config = .error e ∧ y = x := by
  constructor
  · intro h
    obtain ⟨hsame, hrefused⟩ := Action.run_mock_stopped h
    exact ⟨Provider.createMock_eq_error.1 (hrefused e rfl), hsame⟩
  · rintro ⟨hclassify, rfl⟩
    simp only [Action.run, Provider.createMock_eq_error.2 hclassify]

/-- A failed call has changed nothing but the resolver. -/
def Spares (call : CallState σ → MockInstance → CallResult σ ConcolicValue) : Prop :=
  ∀ c m halt c', call c m = (.error halt, c') → ∃ state, c' = ⟨c.provider, state⟩

section

variable {r : Resolver σ} (hr : r.Direct) (roster : List MockInstance) (depth : Nat)
include hr

theorem Resolver.Direct.spares_invoke (f : String) (args : List Value) :
    Spares fun c m => r.invoke roster depth c m f args := by
  intro c m halt c' h
  obtain ⟨_, state, _, hc', _⟩ := hr.invoke_eq_error.1 h
  exact ⟨state, hc'⟩

theorem Resolver.Direct.spares_invokeOnly (args : List Value) :
    Spares fun c m => r.invokeOnly roster depth c m args := by
  intro c m halt c' h
  simp only [Resolver.invokeOnly] at h
  split at h
  · exact hr.spares_invoke roster depth _ args c m halt c' h
  · cases h
    exact ⟨c.resolver, rfl⟩

theorem Resolver.Direct.spares_invokeView (view : Capability) (arg : Value) :
    Spares fun c m => r.invokeView roster depth c m view arg := by
  intro c m halt c' h
  simp only [Resolver.invokeView] at h
  split at h
  · exact hr.spares_invoke roster depth _ _ c m halt c' h
  · cases h
    exact ⟨c.resolver, rfl⟩

end

theorem Execution.callNamed_spares {call : CallState σ → MockInstance → CallResult σ ConcolicValue}
    (hcall : Spares call) {x y : Execution σ} {mock name : String} {halt : Halt}
    (h : x.callNamed mock call name = (y, some halt)) : ∃ state, y = { x with calls := ⟨x.provider, state⟩ } := by
  unfold Execution.callNamed at h
  split at h
  · cases h
    exact ⟨x.calls.resolver, rfl⟩
  · split at h
    · rename_i hout
      cases h
      obtain ⟨state, rfl⟩ := hcall _ _ _ _ hout
      exact ⟨state, rfl⟩
    · cases h

theorem Action.run_spares {r : Resolution σ} (hr : r.resolver.Direct) {a : Action} (ha : a.UsesMocks)
    {x y : Execution σ} {halt : Halt} (h : a.run r x = (y, some halt)) :
    ∃ state, y = { x with calls := ⟨x.provider, state⟩ } := by
  cases a with
  | mock name target => exact ⟨x.calls.resolver, (Action.run_mock_stopped h).1⟩
  | invoke receiver method args name =>
      simp only [Action.run] at h
      exact Execution.callNamed_spares (hr.spares_invoke x.roster r.depth method args) h
  | call receiver args name =>
      simp only [Action.run] at h
      exact Execution.callNamed_spares (hr.spares_invokeOnly x.roster r.depth args) h
  | view receiver capability arg name =>
      simp only [Action.run] at h
      exact Execution.callNamed_spares (hr.spares_invokeView x.roster r.depth capability arg) h
  | _ => exact ha.elim

/-! ## Slots -/

def Event.mock? : Event → Option MockInstance
  | .created m => some m
  | .returned _ _ _ _ => none

/-- The mocks that are handed out, in order. -/
def handedOut (events : List Event) : List MockInstance := events.filterMap Event.mock?

/-- The mocks among the events get the slots from the one that `p` has next to the one before `q` has next. -/
structure Provider.Numbers (p : Provider) (events : List Event) (q : Provider) : Prop where
  slots : (handedOut events).map (·.id.slot.toNat) = List.range' p.nextSlot.toNat (handedOut events).length
  next : q.nextSlot.toNat = p.nextSlot.toNat + (handedOut events).length

namespace Provider

variable {p q q' : Provider} {events events' : List Event} {e : Event} {history : List Moment}

theorem Numbers.same (h : q.nextSlot = p.nextSlot) : p.Numbers [] q := ⟨rfl, by rw [h]; rfl⟩

theorem Numbers.append (h : p.Numbers events q) (h' : q.Numbers events' q') : p.Numbers (events ++ events') q' := by
  have hsplit : handedOut (events ++ events') = handedOut events ++ handedOut events' := List.filterMap_append
  constructor
  · rw [hsplit, List.map_append, h.slots, h'.slots, h.next, List.length_append, List.range'_append_1]
  · rw [hsplit, h'.next, h.next, List.length_append, Nat.add_assoc]

/-- A new mock takes the next slot, and the counter moves on by one because it does not come back to zero. -/
theorem Step.numbers (h : p.Step past e q) : p.Numbers [e] q := by
  cases h with
  | @created t m q h hslot =>
      obtain ⟨hid, _, _, _, _, hnext, _⟩ := createMock_spec h
      have hlt := lt_nextSlot h hslot (UInt32.le_refl _)
      have hone : (handedOut [.created m]).length = 1 := rfl
      refine ⟨by simp [handedOut, Event.mock?, hid], ?_⟩
      rw [UInt32.lt_iff_toNat_lt, hnext, UInt32.toNat_add, UInt32.toNat_one] at hlt
      rw [hnext, UInt32.toNat_add, UInt32.toNat_one, hone]
      have hbound := p.nextSlot.toNat_lt
      omega
  | returned hm hsig h =>
      obtain ⟨b, _, _, rfl⟩ := bind_eq_ok.1 h
      exact ⟨rfl, rfl⟩

theorem Evolves.numbers (h : Evolves past p history q) : p.Numbers (history.map (·.event)) q := by
  induction h with
  | refl past p => exact .same rfl
  | step h _ ih => exact h.numbers.append ih

end Provider

/-- Whichever mocks are at hand, they were handed out at some time. -/
theorem Execution.exists_knows (x : Execution σ) : ∃ past, x.Knows past := by
  refine ⟨(x.scope.mocks.values ++ x.roster).map .created, fun {name m} hm => ?_, fun m hm => ?_⟩
  · exact List.mem_map_of_mem (List.mem_append_left _ (SortedMap.mem_values.2 ⟨name, hm⟩))
  · exact List.mem_map_of_mem (List.mem_append_right _ hm)

/-- The execution went on from `x` to `y` without handing out or calling a mock. Clauses may have been recorded. -/
structure Execution.OnlyRecords (x y : Execution σ) : Prop where
  provider : ∃ clauses journal, y.provider = { x.provider with path := { x.provider.path with clauses }, journal }
  mocks : y.scope.mocks = x.scope.mocks
  roster : y.roster = x.roster

namespace Execution.OnlyRecords

variable {x y : Execution σ}

theorem same (hprovider : y.provider = x.provider) (hmocks : y.scope.mocks = x.scope.mocks)
    (hroster : y.roster = x.roster) : x.OnlyRecords y :=
  ⟨⟨_, _, hprovider⟩, hmocks, hroster⟩

theorem write (h : x.OnlyRecords y) (e : LogEntry) : x.OnlyRecords (y.write e) := by
  refine ⟨?_, ?_, ?_⟩
  · rw [write_provider]; exact h.provider
  · rw [write_scope]; exact h.mocks
  · rw [write_roster]; exact h.roster

theorem branch (x : Execution σ) (l : LocationId) (c : Condition) : x.OnlyRecords (x.branch l c).2 := by
  refine ⟨?_, by rw [branch_scope], branch_roster ..⟩
  rw [branch_provider]
  cases c.taken? with
  | none => exact ⟨_, _, rfl⟩
  | some a => exact ⟨_, _, rfl⟩

end Execution.OnlyRecords

theorem Action.usesMocks_or (r : Resolution σ) (a : Action) (x : Execution σ) :
    a.UsesMocks ∨ a.history r x = [] ∧ x.OnlyRecords (a.run r x).1 := by
  cases a with
  | mock name target => exact .inl trivial
  | invoke receiver method args name => exact .inl trivial
  | call receiver args name => exact .inl trivial
  | view receiver capability arg name => exact .inl trivial
  | keep v name =>
      have hkept : x.OnlyRecords (x.keepValue name v) := .same rfl rfl rfl
      exact .inr ⟨rfl, hkept.write _⟩
  | assertReached l literal => exact .inr ⟨rfl, .same rfl rfl rfl⟩
  | reached site literal =>
      have hobserved : x.OnlyRecords (x.observe (.tag site.location literal)) := .same rfl rfl rfl
      exact .inr ⟨rfl, hobserved.write _⟩
  | record clause => exact .inr ⟨rfl, ⟨_, _, rfl⟩, rfl, rfl⟩
  | fail e => exact .inr ⟨rfl, .same rfl rfl rfl⟩
  | crash => exact .inr ⟨rfl, .same rfl rfl rfl⟩
  | cancel => exact .inr ⟨rfl, .same rfl rfl rfl⟩

theorem Execution.OnlyRecords.numbers {x y : Execution σ} (h : x.OnlyRecords y) : x.provider.Numbers [] y.provider := by
  obtain ⟨_, _, hprovider⟩ := h.provider
  exact .same (by rw [hprovider])

theorem Action.numbers (r : Resolution σ) (a : Action) (x : Execution σ) :
    x.provider.Numbers (eventsOf (a.course r x)) (a.run r x).1.provider := by
  rw [Action.eventsOf_course]
  rcases a.usesMocks_or r x with huses | ⟨hhistory, hrecords⟩
  · obtain ⟨past, hx⟩ := x.exists_knows
    exact (a.records r huses hx).evolves.numbers
  · rw [hhistory]
    exact hrecords.numbers

theorem Body.links_numbers (r : Resolution σ) (b : Body) :
    b.Links r fun x course y => x.provider.Numbers (eventsOf course) y.provider where
  same x := .same rfl
  append h h' := by
    rw [eventsOf_append]
    exact h.append h'
  write x e := .same (by rw [Execution.write_provider])
  act a _ x := a.numbers r x
  branch {x z value v l op rhs outcome} _ hz := by
    have hrecords := Execution.OnlyRecords.branch x l ⟨v, op, rhs⟩
    rw [hz] at hrecords
    exact hrecords.numbers
  enclosed h := h

/-! ## Errors -/

/-- A mock is refused exactly if its target is, and a call exactly for the stated reasons, as long as the resolver calls
no mock. Neither changes the provider, so mocks are numbered without gaps, and a method can be bound after calls of it
were refused. -/
theorem Resolution.errors_atomic (r : Resolution σ) :
    (∀ (x y : Execution σ) (name : String) (t : MockTarget) (e : MockError),
      (Action.mock name t).run r x = (y, some (.raised e)) ↔ t.classify x.provider.config = .error e ∧ y = x) ∧
    (∀ (b : Body) (x : Execution σ), x.provider.nextSlot = 0 →
      (handedOut (eventsOf (b.course r x))).map (·.id.slot.toNat) =
        List.range (b.run r x).1.provider.nextSlot.toNat) ∧
    (r.resolver.Direct →
      (∀ (roster : List MockInstance) (c c' : CallState σ) (m : MockInstance) (f : String) (args : List Value)
        (halt : Halt), r.resolver.invoke roster r.depth c m f args = (.error halt, c') ↔
          ∃ e state, halt = .raised e ∧ c' = ⟨c.provider, state⟩ ∧ Refused r.resolver c m f args e state) ∧
      (∀ (a : Action) (x y : Execution σ) (halt : Halt), a.UsesMocks → a.run r x = (y, some halt) →
        ∃ state, y = { x with calls := ⟨x.provider, state⟩ }) ∧
      ∀ (roster : List MockInstance) (c c' : CallState σ) (m : MockInstance) (f : String) (args args' : List Value)
        (halt : Halt) (sig : MethodSig) (v : Value) (state state' : σ),
        r.resolver.invoke roster r.depth c m f args = (.error halt, c') →
        m.target.method? f = some sig → sig.params.length = args'.length →
        c.provider.bindings.get? ⟨m.id, f⟩ = none → c.provider.Accepts (.forCall m.id.slot f) sig.returns v →
        r.resolver.react state (.forCall m.id.slot f) sig.returns = .answer v state' →
        r.resolver.invoke roster r.depth ⟨c'.provider, state⟩ m f args' =
          (.ok ⟨v, sig.returns, some (.forCall m.id.slot f)⟩,
            ⟨{ c.provider with
                bindings := c.provider.bindings.insert ⟨m.id, f⟩ ⟨.forCall m.id.slot f, v, args', 1⟩ }, state'⟩)) := by
  refine ⟨fun x y name t e => Action.run_mock_raised, fun b x hstart => ?_, fun hr => ⟨?_, ?_, ?_⟩⟩
  · obtain ⟨hslots, hnext⟩ := (b.links_numbers r).run x
    rw [hstart] at hslots hnext
    rw [hslots, hnext, List.range_eq_range']
    simp
  · exact fun roster c c' m f args halt => hr.invoke_eq_error
  · exact fun a x y halt ha h => Action.run_spares hr ha h
  · intro roster c c' m f args args' halt sig v state state' hrefused hsig harity hunbound hv hask
    obtain ⟨_, _, _, rfl, _⟩ := hr.invoke_eq_error.1 hrefused
    exact Resolver.invoke_binds (c := ⟨c.provider, state⟩) hsig harity hunbound hask hv r.depth

/-- Answers and fails by a list, in turn. -/
def Resolver.listed : Resolver (List (Except MockError Value)) where
  react state _ ty :=
    match state with
    | [] => .answer ty.default []
    | .ok v :: rest => .answer v rest
    | .error e :: rest => .fail e rest

theorem Resolver.direct_listed : Resolver.listed.Direct := by
  rintro (_ | ⟨e | v, rest⟩) var ty
  · exact .answer _ _
  · exact .fail _ _
  · exact .answer _ _

/-- A primitive type is refused between two mocks. A call fails with the resolver, then for a value of another type,
then for one at odds with the assumption, before the method is bound. -/
theorem Resolution.errors_atomic_fourth_answer :
    let r : Resolution (List (Except MockError Value)) := { resolver := .listed }
    let m : MockInstance := ⟨⟨0⟩, Capability.intSupplier.descriptor, .proxy⟩
    let var : SymVar := .forCall 0 "getAsInt"
    let answers : List (Except MockError Value) := [.error (.io "busy"), .ok (.bool true), .ok (.int 6), .ok (.int 7)]
    let x := Execution.start {} 0 [⟨var, .int, .eq, 7⟩] answers
    let sealed : MockTarget := { name := "int", kind := .primitive }
    let call : Body := .attempt (.act (.call "a" [] "v")) .skip
    let b : Body := .ofList [.act (.mock "a" m.target), .attempt (.act (.mock "b" sealed)) .skip, call, call, call,
      call, .act (.mock "b" Capability.supplier.descriptor)]
    (Action.mock "b" sealed).run r x = (x, some (.raised (.unmockable "int" Obstacle.noCallBoundary.text))) ∧
      (handedOut (eventsOf (b.course r x))).map (·.id.slot.toNat) = [0, 1] ∧
      (b.run r x).1.provider.bindings.get? ⟨⟨0⟩, "getAsInt"⟩ = some ⟨var, .int 7, [], 1⟩ ∧
      r.resolver.invoke [] 0 x.calls m "getAsInt" [] =
        (.error (.raised (.io "busy")), ⟨x.provider, answers.drop 1⟩) ∧
      r.resolver.invoke [] 0 ⟨x.provider, answers.drop 2⟩ m "getAsInt" [] =
        (.error (.raised (.inconsistent var.name
          ("resolver produced " ++ (Value.int 6).text ++ ", path requires " ++ (Predicate.mk var .int .eq 7).text))),
          ⟨x.provider, answers.drop 3⟩) ∧
      (r.resolver.invoke [] 0 ⟨x.provider, answers.drop 3⟩ m "getAsInt" []).1 = .ok ⟨.int 7, .int, some var⟩ := by
  intro r m var answers x sealed call b
  obtain ⟨hmock, hslots, hdirect⟩ := r.errors_atomic
  obtain ⟨hrefused, _, hbinds⟩ := hdirect Resolver.direct_listed
  have hfailed := (hrefused [] x.calls ⟨x.provider, answers.drop 1⟩ m "getAsInt" [] _).2
    ⟨_, _, rfl, rfl, .failed rfl rfl rfl rfl⟩
  have hassumed : x.provider.assumptions = [] ++ ⟨var, .int, .eq, 7⟩ :: [] := rfl
  have hviolated := (hrefused [] ⟨x.provider, answers.drop 2⟩ ⟨x.provider, answers.drop 3⟩ m "getAsInt" [] _).2
    ⟨_, _, rfl, rfl, .rejected rfl rfl rfl rfl (.violated rfl hassumed (fun _ h => by cases h) rfl (by decide))⟩
  refine ⟨(hmock x x "b" sealed _).2 ⟨rfl, rfl⟩, (hslots b x rfl).trans ?_, by decide +kernel, hfailed, hviolated, ?_⟩
  · have hnext : (b.run r x).1.provider.nextSlot = 2 := by decide +kernel
    rw [hnext]
    rfl
  · have haccepts : x.provider.Accepts var .int (.int 7) := ⟨rfl, fun a ha _ => by
      cases List.mem_singleton.1 ha
      decide⟩
    have hbound := hbinds [] x.calls _ m "getAsInt" [] [] _ _ (.int 7) (answers.drop 3) [] hfailed rfl rfl rfl haccepts
      rfl
    exact congrArg Prod.fst hbound

end MockExplorer
