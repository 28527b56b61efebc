import MockExplorer.Mock.Provider
import MockExplorer.Proofs.SortedMap

/-!
# The binding table and the path of an execution

An input is named after one method of one mock, so the registered type of an input is the return type of
that method, and every value that carries the input is the one value bound to it. Both survive whatever
an execution does to its provider.
-/

namespace MockExplorer

/-! ## Names of inputs -/

theorem takeWhile_isDigit_toDigits (n : Nat) (rest : List Char) :
    (Nat.toDigits 10 n ++ '.' :: rest).takeWhile Char.isDigit = Nat.toDigits 10 n := by
  rw [List.takeWhile_append_of_pos fun c hc => Nat.isDigit_of_mem_toDigits (b := 10) (by decide) (by decide) hc]
  simp [show '.'.isDigit = false from rfl]

/-- The name of an input up to its first dot is the slot, and what follows is the method. -/
theorem SymVar.forCall_inj {slot slot' : UInt32} {f f' : String} :
    SymVar.forCall slot f = SymVar.forCall slot' f' ↔ slot = slot' ∧ f = f' := by
  constructor
  · intro h
    have hchars := congrArg (fun v => v.name.toList) h
    simp only [forCall, String.toList_append, List.append_assoc, Nat.toString_eq_ofList_toDigits,
      String.toList_ofList] at hchars
    have hrest : Nat.toDigits 10 slot.toNat ++ '.' :: f.toList =
        Nat.toDigits 10 slot'.toNat ++ '.' :: f'.toList := List.append_cancel_left hchars
    have hdigits : Nat.toDigits 10 slot.toNat = Nat.toDigits 10 slot'.toNat := by
      have := congrArg (List.takeWhile Char.isDigit) hrest
      rwa [takeWhile_isDigit_toDigits, takeWhile_isDigit_toDigits] at this
    have hslot : slot.toNat = slot'.toNat := by
      simpa using congrArg (fun ds => Nat.ofDigitChars 10 ds 0) hdigits
    rw [hdigits] at hrest
    have hmethod := List.append_cancel_left hrest
    exact ⟨UInt32.toNat_inj.1 hslot, String.toList_inj.1 (List.cons.inj hmethod).2⟩
  · rintro ⟨rfl, rfl⟩; rfl

theorem BindingKey.var_inj {k k' : BindingKey} : k.var = k'.var ↔ k = k' := by
  obtain ⟨⟨slot⟩, f⟩ := k
  obtain ⟨⟨slot'⟩, f'⟩ := k'
  simp [BindingKey.var, SymVar.forCall_inj]

namespace Provider

variable {p p' p'' : Provider}

/-! ## Registering inputs -/

theorem registerInput_inputs (var var' : SymVar) (ty : ValueType) :
    (p.registerInput var ty).path.inputs.get? var' =
      (p.path.inputs.get? var').or (if var' = var then some ty else none) :=
  SortedMap.get?_insertIfNew _ _ _ _

/-- Registering methods changes nothing but the inputs, where the first method of a name counts, and only if
its input was not there yet. -/
theorem registerAll_spec (p : Provider) (slot : UInt32) (ms : List MethodSig) :
    (p.registerAll slot ms).config = p.config ∧ (p.registerAll slot ms).assumptions = p.assumptions ∧
      (p.registerAll slot ms).bindings = p.bindings ∧ (p.registerAll slot ms).nextSlot = p.nextSlot ∧
      (p.registerAll slot ms).path.clauses = p.path.clauses ∧
      ∀ var, (p.registerAll slot ms).path.inputs.get? var =
        (p.path.inputs.get? var).or ((ms.find? fun m => .forCall slot m.name = var).map (·.returns)) := by
  induction ms generalizing p with
  | nil => simp [registerAll]
  | cons m ms ih =>
      have hstep : p.registerAll slot (m :: ms) =
        (p.registerInput (.forCall slot m.name) m.returns).registerAll slot ms := rfl
      obtain ⟨hconfig, hassume, hbind, hslot, hclauses, hinputs⟩ :=
        ih (p.registerInput (.forCall slot m.name) m.returns)
      rw [hstep]
      refine ⟨hconfig, hassume, hbind, hslot, hclauses, fun var => ?_⟩
      rw [hinputs, registerInput_inputs, List.find?_cons]
      by_cases hvar : SymVar.forCall slot m.name = var
      · cases p.path.inputs.get? var <;> simp [hvar]
      · simp [hvar, Ne.symm hvar]

/-- A new mock takes the next slot, and the first method of each name is registered under it. -/
theorem createMock_spec {t : MockTarget} {m : MockInstance} (h : p.createMock t = .ok (m, p')) :
    m.id.slot = p.nextSlot ∧ m.target = t ∧ p'.config = p.config ∧ p'.assumptions = p.assumptions ∧
      p'.bindings = p.bindings ∧ p'.nextSlot = p.nextSlot + 1 ∧ p'.path.clauses = p.path.clauses ∧
      ∀ var, p'.path.inputs.get? var = (p.path.inputs.get? var).or
        ((t.interceptable.find? fun sig => .forCall p.nextSlot sig.name = var).map (·.returns)) := by
  unfold createMock at h
  split at h
  · cases h
  · cases h
    exact ⟨rfl, rfl, registerAll_spec { p with nextSlot := p.nextSlot + 1 } p.nextSlot t.interceptable⟩

theorem registerAll_comm {f : Provider → Provider}
    (hregister : ∀ p var ty, f (p.registerInput var ty) = (f p).registerInput var ty) (p : Provider) (slot : UInt32)
    (ms : List MethodSig) : f (p.registerAll slot ms) = (f p).registerAll slot ms := by
  induction ms generalizing p with
  | nil => rfl
  | cons m ms ih =>
      have hrest := ih (p.registerInput (.forCall slot m.name) m.returns)
      rw [hregister] at hrest
      exact hrest

/-- Mocks are handed out in the same way by a provider that was changed in what they do not depend on. -/
theorem createMock_comm {f : Provider → Provider}
    (hregister : ∀ p var ty, f (p.registerInput var ty) = (f p).registerInput var ty)
    (hslot : ∀ p n, f { p with nextSlot := n } = { f p with nextSlot := n })
    (hsame : (f p).config = p.config ∧ (f p).nextSlot = p.nextSlot) {t : MockTarget} {m : MockInstance}
    (h : p.createMock t = .ok (m, p')) : (f p).createMock t = .ok (m, f p') := by
  unfold createMock at h
  cases hclass : t.classify p.config with
  | error e => rw [hclass] at h; cases h
  | ok how =>
      rw [hclass] at h
      cases h
      have hnext : f { p with nextSlot := p.nextSlot + 1 } = { f p with nextSlot := p.nextSlot + 1 } := hslot ..
      rw [registerAll_comm hregister, hnext]
      simp only [createMock, hsame.1, hsame.2, hclass]

/-! ## What an execution never takes back -/

/-- What stays of a provider when its execution goes on. -/
structure Grows (p p' : Provider) : Prop where
  config : p'.config = p.config
  assumptions : p'.assumptions = p.assumptions
  clauses : p.path.clauses <+: p'.path.clauses
  inputs : ∀ {var ty}, p.path.inputs.get? var = some ty → p'.path.inputs.get? var = some ty
  bindings : ∀ {k b}, p.bindings.get? k = some b → ∃ b', p'.bindings.get? k = some b' ∧ b'.value = b.value

theorem Grows.refl (p : Provider) : p.Grows p :=
  ⟨rfl, rfl, List.prefix_rfl, fun h => h, fun h => ⟨_, h, rfl⟩⟩

theorem Grows.trans (h : p.Grows p') (h' : p'.Grows p'') : p.Grows p'' where
  config := h'.config.trans h.config
  assumptions := h'.assumptions.trans h.assumptions
  clauses := h.clauses.trans h'.clauses
  inputs hi := h'.inputs (h.inputs hi)
  bindings hk := by
    obtain ⟨b', hb', hv'⟩ := h.bindings hk
    obtain ⟨b'', hb'', hv''⟩ := h'.bindings hb'
    exact ⟨b'', hb'', hv''.trans hv'⟩

/-- The provider after calls on mocks: only the bindings grew. -/
structure Extends (p p' : Provider) : Prop extends Grows p p' where
  path : p'.path = p.path
  nextSlot : p'.nextSlot = p.nextSlot

theorem Extends.refl (p : Provider) : p.Extends p := ⟨.refl p, rfl, rfl⟩

theorem Extends.trans (h : p.Extends p') (h' : p'.Extends p'') : p.Extends p'' :=
  ⟨h.toGrows.trans h'.toGrows, h'.path.trans h.path, h'.nextSlot.trans h.nextSlot⟩

/-- Every interceptable method of the mock is registered at its return type. -/
def Registered (p : Provider) (m : MockInstance) : Prop :=
  ∀ f sig, m.target.method? f = some sig → p.path.inputs.get? (.forCall m.id.slot f) = some sig.returns

theorem Registered.grows {m : MockInstance} (hm : p.Registered m) (h : p.Grows p') : p'.Registered m :=
  fun f sig hsig => h.inputs (hm f sig hsig)

/-- The input is registered at the type and bound to the value. -/
structure Binds (p : Provider) (var : SymVar) (ty : ValueType) (v : Value) : Prop where
  typed : p.path.inputs.get? var = some ty
  bound : ∃ k b, k.var = var ∧ p.bindings.get? k = some b ∧ b.value = v

theorem Binds.grows {var : SymVar} {ty : ValueType} {v : Value} (hv : p.Binds var ty v) (h : p.Grows p') :
    p'.Binds var ty v := by
  obtain ⟨k, b, hk, hb, rfl⟩ := hv.bound
  obtain ⟨b', hb', hvalue⟩ := h.bindings hb
  exact ⟨h.inputs hv.typed, k, b', hk, hb', hvalue⟩

/-- A value that carries an input is the value bound to the input, at its type. -/
def Roots (p : Provider) (v : ConcolicValue) : Prop := ∀ var, v.var = some var → p.Binds var v.ty v.value

theorem Roots.grows {v : ConcolicValue} (hv : p.Roots v) (h : p.Grows p') : p'.Roots v :=
  fun var hvar => (hv var hvar).grows h

/-! ## The invariant -/

/-- The value may be bound to the input at the type: it conforms and meets every assumption on the input. -/
structure Accepts (p : Provider) (var : SymVar) (ty : ValueType) (v : Value) : Prop where
  conforms : v.conformsTo ty = true
  assumed : ∀ a ∈ p.assumptions, a.var = var → a.holds v = true

theorem Accepts.grows {var : SymVar} {ty : ValueType} {v : Value} (hv : p.Accepts var ty v) (h : p.Grows p') :
    p'.Accepts var ty v :=
  ⟨hv.conforms, by rw [h.assumptions]; exact hv.assumed⟩

/-- The invariant of a provider whose resolver answers values in `R`: inputs belong to slots that were handed
out; a bound value was accepted at the type of its input and is one of the resolver's; and every clause of
the path holds of the value that its input is bound to, at the type of the input. -/
structure Sound (R : SymVar → ValueType → Value → Prop) (p : Provider) : Prop where
  slots : ∀ {slot f ty}, p.path.inputs.get? (.forCall slot f) = some ty → slot < p.nextSlot
  bound : ∀ {k b}, p.bindings.get? k = some b → b.var = k.var ∧
    ∃ ty, p.path.inputs.get? k.var = some ty ∧ p.Accepts k.var ty b.value ∧ R k.var ty b.value
  path : ∀ c ∈ p.path.clauses, ∃ v, p.Binds c.predicate.var c.predicate.ty v ∧ c.predicate.holds v = true

variable {R : SymVar → ValueType → Value → Prop}

theorem Sound.start (config : MockConfig) (assumptions : List Predicate) :
    Sound R { config, assumptions } where
  slots h := by cases h
  bound h := by cases h
  path c hc := by cases hc

/-- The registered type of an input that is bound is the type at which it was bound. -/
theorem Sound.of_binds {var : SymVar} {ty : ValueType} {v : Value} (hp : p.Sound R) (hv : p.Binds var ty v) :
    R var ty v := by
  obtain ⟨k, b, rfl, hb, rfl⟩ := hv.bound
  obtain ⟨_, ty', hty', _, hR⟩ := hp.bound hb
  rw [hv.typed] at hty'
  cases hty'
  exact hR

/-! ## One step of the provider -/

theorem grows_createMock {t : MockTarget} {m : MockInstance} (h : p.createMock t = .ok (m, p')) :
    p.Grows p' := by
  obtain ⟨_, _, hconfig, hassume, hbind, _, hclauses, hinputs⟩ := createMock_spec h
  refine ⟨hconfig, hassume, hclauses ▸ List.prefix_rfl, fun {var ty} hi => ?_, fun {k b} hb => ?_⟩
  · rw [hinputs, hi, Option.some_or]
  · exact ⟨b, by rw [hbind, hb], rfl⟩

/-- The slot of a new mock, and every slot before it, is below the counter of slots, unless the counter came back
to zero. -/
theorem lt_nextSlot {t : MockTarget} {m : MockInstance} (h : p.createMock t = .ok (m, p'))
    (hslot : p'.nextSlot ≠ 0) {slot : UInt32} (hle : slot ≤ p.nextSlot) : slot < p'.nextSlot := by
  obtain ⟨_, _, _, _, _, hnext, _⟩ := createMock_spec h
  rw [hnext] at hslot ⊢
  have hne : (p.nextSlot + 1).toNat ≠ 0 := fun h0 => hslot (UInt32.toNat_inj.1 h0)
  rw [UInt32.le_iff_toNat_le] at hle
  rw [UInt32.lt_iff_toNat_lt]
  rw [UInt32.toNat_add] at hne ⊢
  have := p.nextSlot.toNat_lt
  simp only [UInt32.toNat_one] at hne ⊢
  omega

/-- The slot of a new mock is fresh as long as the counter of slots does not come back to zero. -/
theorem Sound.createMock {t : MockTarget} {m : MockInstance} (hp : p.Sound R)
    (h : p.createMock t = .ok (m, p')) (hslot : p'.nextSlot ≠ 0) : p'.Sound R ∧ p'.Registered m := by
  obtain ⟨hid, htarget, hconfig, hassume, hbind, hnext, hclauses, hinputs⟩ := createMock_spec h
  have hgrows := grows_createMock h
  refine ⟨⟨fun {slot f ty} hi => ?_, fun {k b} hb => ?_, fun c hc => ?_⟩, fun f sig hsig => ?_⟩
  · rw [hinputs, Option.or_eq_some_iff] at hi
    rcases hi with hi | ⟨_, hi⟩
    · exact lt_nextSlot h hslot (UInt32.le_of_lt (hp.slots hi))
    · obtain ⟨sig, hfind, _⟩ := Option.map_eq_some_iff.1 hi
      have hvar : SymVar.forCall p.nextSlot sig.name = .forCall slot f := by
        simpa using List.find?_some hfind
      exact lt_nextSlot h hslot (UInt32.le_of_eq (SymVar.forCall_inj.1 hvar).1.symm)
  · rw [hbind] at hb
    obtain ⟨hvar, ty, hty, hacc, hR⟩ := hp.bound hb
    exact ⟨hvar, ty, hgrows.inputs hty, hacc.grows hgrows, hR⟩
  · rw [hclauses] at hc
    obtain ⟨v, hv, hholds⟩ := hp.path c hc
    exact ⟨v, hv.grows hgrows, hholds⟩
  · have hfresh : p.path.inputs.get? (.forCall p.nextSlot f) = none := by
      cases hi : p.path.inputs.get? (.forCall p.nextSlot f) with
      | none => rfl
      | some ty => exact absurd (hp.slots hi) (UInt32.lt_irrefl _)
    rw [hinputs, hid, hfresh, Option.none_or]
    have hfind : t.interceptable.find? (fun s => SymVar.forCall p.nextSlot s.name = .forCall p.nextSlot f) =
        some sig := by
      rw [← hsig, htarget]
      simp [MockTarget.method?, SymVar.forCall_inj]
    rw [hfind, Option.map_some]

theorem grows_record (p : Provider) (c : Clause) : p.Grows (p.record c) :=
  ⟨rfl, rfl, List.prefix_append _ _, fun h => h, fun h => ⟨_, h, rfl⟩⟩

theorem Sound.record {c : Clause} {v : Value} (hp : p.Sound R)
    (hv : p.Binds c.predicate.var c.predicate.ty v) (hc : c.predicate.holds v = true) :
    (p.record c).Sound R where
  slots := hp.slots
  bound hb := by
    obtain ⟨hvar, ty, hty, hacc, hR⟩ := hp.bound hb
    exact ⟨hvar, ty, hty, hacc.grows (grows_record p c), hR⟩
  path c' hc' := by
    have hgrows := grows_record p c
    rcases List.mem_append.1 hc' with hold | hnew
    · obtain ⟨w, hw, hholds⟩ := hp.path c' hold
      exact ⟨w, hw.grows hgrows, hholds⟩
    · obtain rfl := List.mem_singleton.1 hnew
      exact ⟨v, hv.grows hgrows, hc⟩

/-- A binding is entered for a method that has none, or replaces one that has the same value. -/
theorem extends_insert {k : BindingKey} {b : Binding}
    (hsame : ∀ b', p.bindings.get? k = some b' → b.value = b'.value) :
    p.Extends { p with bindings := p.bindings.insert k b } := by
  refine ⟨⟨rfl, rfl, List.prefix_rfl, fun h => h, fun {k' b'} hb' => ?_⟩, rfl, rfl⟩
  by_cases hk : k' = k
  · subst hk
    exact ⟨b, SortedMap.get?_insert_self .., hsame b' hb'⟩
  · exact ⟨b', by rw [SortedMap.get?_insert_of_ne _ _ hk, hb'], rfl⟩

theorem Sound.insert {k : BindingKey} {b : Binding} {ty : ValueType} (hp : p.Sound R)
    (hsame : ∀ b', p.bindings.get? k = some b' → b.value = b'.value) (hvar : b.var = k.var)
    (hty : p.path.inputs.get? k.var = some ty) (hacc : p.Accepts k.var ty b.value) (hR : R k.var ty b.value) :
    Sound R { p with bindings := p.bindings.insert k b } where
  slots := hp.slots
  bound {k' b'} hb' := by
    by_cases hk : k' = k
    · subst hk
      rw [SortedMap.get?_insert_self] at hb'
      cases hb'
      exact ⟨hvar, ty, hty, ⟨hacc.conforms, hacc.assumed⟩, hR⟩
    · rw [SortedMap.get?_insert_of_ne _ _ hk] at hb'
      obtain ⟨hvar', ty', hty', hacc', hR'⟩ := hp.bound hb'
      exact ⟨hvar', ty', hty', ⟨hacc'.conforms, hacc'.assumed⟩, hR'⟩
  path c hc := by
    obtain ⟨v, hv, hholds⟩ := hp.path c hc
    exact ⟨v, hv.grows (extends_insert hsame).toGrows, hholds⟩

/-! ## Replaying and binding -/

theorem replay?_eq {k : BindingKey} {sig : MethodSig} {b : Binding} (h : p.bindings.get? k = some b) :
    p.replay? k sig = some (⟨b.value, sig.returns, some b.var⟩,
      { p with bindings := p.bindings.insert k { b with calls := b.calls + 1 } }) := by
  simp [replay?, h]

theorem replay?_eq_none {k : BindingKey} {sig : MethodSig} (h : p.bindings.get? k = none) :
    p.replay? k sig = none := by
  simp [replay?, h]

theorem bind_of_accepts {k : BindingKey} {sig : MethodSig} {args : List Value} {v : Value}
    (hnone : p.bindings.get? k = none) (hv : p.Accepts k.var sig.returns v) :
    p.bind k sig args v = .ok (⟨v, sig.returns, some k.var⟩,
      { p with bindings := p.bindings.insert k ⟨k.var, v, args, 1⟩ }) := by
  have hfind : p.assumptions.find? (fun a => a.var = k.var && !a.holds v) = none := by
    rw [List.find?_eq_none]
    intro a ha hviolated
    simp only [Bool.and_eq_true, decide_eq_true_eq, Bool.not_eq_true'] at hviolated
    rw [hv.assumed a ha hviolated.1] at hviolated
    cases hviolated.2
  simp [bind, replay?_eq_none hnone, hv.conforms, hfind]

/-- A value that may not be bound is an inconsistency. -/
theorem bind_of_not_accepts {k : BindingKey} {sig : MethodSig} (args : List Value) {v : Value}
    (hnone : p.bindings.get? k = none) (hv : ¬ p.Accepts k.var sig.returns v) :
    ∃ message, p.bind k sig args v = .error (.inconsistent k.var.name message) := by
  unfold bind
  rw [replay?_eq_none hnone]
  by_cases hconf : v.conformsTo sig.returns = true
  · simp only [hconf, Bool.true_eq_false, ↓reduceIte]
    cases hfind : p.assumptions.find? fun a => a.var = k.var && !a.holds v with
    | some a => exact ⟨_, rfl⟩
    | none =>
        refine absurd ⟨hconf, fun a ha hvar => ?_⟩ hv
        simpa [hvar] using List.find?_eq_none.1 hfind a ha
  · simp only [hconf, ↓reduceIte]
    exact ⟨_, rfl⟩

/-- The entry that a served call leaves in the table: the one that stood there, counted once more, or a new one with an
acceptable value. -/
inductive Enters (p : Provider) (k : BindingKey) (ty : ValueType) (args : List Value) (v : Value) : Binding → Prop where
  | again {b : Binding} (hb : p.bindings.get? k = some b) : Enters p k ty args v { b with calls := b.calls + 1 }
  | first (hb : p.bindings.get? k = none) (hv : p.Accepts k.var ty v) : Enters p k ty args v ⟨k.var, v, args, 1⟩

theorem bind_eq_ok {k : BindingKey} {sig : MethodSig} {args : List Value} {v : Value} {w : ConcolicValue} :
    p.bind k sig args v = .ok (w, p') ↔ ∃ b, p.Enters k sig.returns args v b ∧
      w = ⟨b.value, sig.returns, some b.var⟩ ∧ p' = { p with bindings := p.bindings.insert k b } := by
  cases hb : p.bindings.get? k with
  | some b =>
      have hbind : p.bind k sig args v = .ok (⟨b.value, sig.returns, some b.var⟩,
          { p with bindings := p.bindings.insert k { b with calls := b.calls + 1 } }) := by
        simp [bind, replay?_eq hb]
      rw [hbind]
      constructor
      · intro h
        cases h
        exact ⟨_, .again hb, rfl, rfl⟩
      · rintro ⟨_, hb' | ⟨hnone, _⟩, rfl, rfl⟩
        · rw [hb] at hb'
          cases hb'
          rfl
        · rw [hb] at hnone
          cases hnone
  | none =>
      constructor
      · intro h
        by_cases hv : p.Accepts k.var sig.returns v
        · rw [bind_of_accepts hb hv] at h
          cases h
          exact ⟨_, .first hb hv, rfl, rfl⟩
        · obtain ⟨message, hbad⟩ := bind_of_not_accepts args hb hv
          rw [hbad] at h
          cases h
      · rintro ⟨_, hb' | ⟨_, hv⟩, rfl, rfl⟩
        · rw [hb] at hb'
          cases hb'
        · exact bind_of_accepts hb hv

theorem binds_insert {k : BindingKey} {ty : ValueType} (b : Binding)
    (hty : p.path.inputs.get? k.var = some ty) :
    Binds { p with bindings := p.bindings.insert k b } k.var ty b.value :=
  ⟨hty, k, b, rfl, SortedMap.get?_insert_self .., rfl⟩

/-! ## Names of bindings -/

/-- Every binding carries the name of its method. -/
def Named (p : Provider) : Prop := ∀ k b, p.bindings.get? k = some b → b.var = k.var

theorem Sound.named (hp : p.Sound R) : p.Named := fun _ _ hb => (hp.bound hb).1

theorem Named.enter {k : BindingKey} {ty : ValueType} {args : List Value} {v : Value} {b : Binding} (hp : p.Named)
    (h : p.Enters k ty args v b) : Named { p with bindings := p.bindings.insert k b } := by
  intro k' b' hb'
  by_cases hk : k' = k
  · subst hk
    rw [SortedMap.get?_insert_self] at hb'
    cases hb'
    cases h with
    | @again b hb => exact (hp k' b hb :)
    | first _ _ => rfl
  · rw [SortedMap.get?_insert_of_ne _ _ hk] at hb'
    exact hp k' b' hb'

end Provider

end MockExplorer
