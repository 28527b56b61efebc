import MockExplorer.Proofs.Mock.Call

/-!
# The binding table and the calls behind it

Mocks are handed out and calls on them return, one event after the other. After any number of events the table
has an entry for exactly the methods from which calls returned: its variable names the method, its value was
accepted at the declared type, it counts the calls, and every one of them returned it.
-/

namespace MockExplorer

/-! ## Events -/

/-- A mock is handed out, or a call on it returns. -/
inductive Event where
  | created (m : MockInstance)
  | returned (m : MockInstance) (sig : MethodSig) (args : List Value) (v : ConcolicValue)
deriving DecidableEq

def Event.isReturn (k : BindingKey) : Event → Bool
  | .created _ => false
  | .returned m sig _ _ => m.key sig = k

theorem Event.eq_returned {k : BindingKey} {e : Event} (h : e.isReturn k = true) :
    ∃ m sig args v, e = .returned m sig args v ∧ m.key sig = k := by
  cases e with
  | created m => cases h
  | returned m sig args v => exact ⟨m, sig, args, v, rfl, by simpa [isReturn] using h⟩

/-- An event and the provider that it leaves. -/
structure Moment where
  event : Event
  provider : Provider

def Provider.after (p : Provider) (history : List Moment) : Provider :=
  (history.getLast?.map (·.provider)).getD p

namespace Provider

variable {p q q' : Provider} {past : List Event} {e : Event}

/-- What an event does to the provider, `past` being the events before it. Only mocks that were handed out are
called. -/
inductive Step (past : List Event) (p : Provider) : Event → Provider → Prop where
  | created {t : MockTarget} {m : MockInstance} {q : Provider} (h : p.createMock t = .ok (m, q))
      (hslot : q.nextSlot ≠ 0) : Step past p (.created m) q
  | returned {m : MockInstance} {f : String} {args : List Value} {sig : MethodSig} {v : Value} {w : ConcolicValue}
      {q : Provider} (hm : .created m ∈ past) (hsig : m.dispatch f args = .ok sig)
      (h : p.bind (m.key sig) sig args v = .ok (w, q)) : Step past p (.returned m sig args w) q

/-- An entry stays what it is, but for the count of calls. -/
def Retains (p q : Provider) : Prop :=
  ∀ k b, p.bindings.get? k = some b → ∃ calls, q.bindings.get? k = some { b with calls }

theorem Retains.trans (h : p.Retains q) (h' : q.Retains q') : p.Retains q' := by
  intro k b hb
  obtain ⟨calls, hq⟩ := h k b hb
  exact h' k { b with calls } hq

theorem Retains.enter {k : BindingKey} {ty : ValueType} {args : List Value} {v : Value} {b : Binding}
    (h : p.Enters k ty args v b) : p.Retains { p with bindings := p.bindings.insert k b } := by
  intro k' b' hb'
  by_cases hk : k' = k
  · subst hk
    cases h with
    | again hb =>
        rw [hb] at hb'
        cases hb'
        exact ⟨_, SortedMap.get?_insert_self ..⟩
    | first hb _ => rw [hb] at hb'; cases hb'
  · exact ⟨b'.calls, by rw [SortedMap.get?_insert_of_ne _ _ hk]; exact hb'⟩

theorem Step.retains (h : p.Step past e q) : p.Retains q := by
  cases h with
  | created h _ =>
      obtain ⟨_, _, _, _, hbind, _⟩ := createMock_spec h
      intro k b hb
      exact ⟨b.calls, by rw [hbind]; exact hb⟩
  | returned _ _ h =>
      obtain ⟨b, henters, _, rfl⟩ := bind_eq_ok.1 h
      exact .enter henters

/-! ## The ledger -/

/-- The table is the ledger of the events that led to it. -/
structure Ledger (assumptions : List Predicate) (past : List Event) (p : Provider) : Prop where
  assumed : p.assumptions = assumptions
  slots : ∀ m, .created m ∈ past → m.id.slot < p.nextSlot
  distinct : ∀ m m', .created m ∈ past → .created m' ∈ past → m.id = m'.id → m = m'
  bound : ∀ k b, p.bindings.get? k = some b → b.var = .forCall k.mock.slot k.method ∧
    ∃ m sig, .created m ∈ past ∧ m.id = k.mock ∧ m.target.method? k.method = some sig ∧
      b.value.conformsTo sig.returns = true ∧ ∀ a ∈ assumptions, a.var = b.var → a.holds b.value = true
  counted : ∀ k b, p.bindings.get? k = some b → b.calls = .ofNat (past.countP (·.isReturn k))
  returned : ∀ m sig args v, .returned m sig args v ∈ past → .created m ∈ past ∧
    m.target.method? sig.name = some sig ∧
    ∃ b, p.bindings.get? (m.key sig) = some b ∧ v = ⟨b.value, sig.returns, some b.var⟩

variable {assumptions : List Predicate}

theorem Ledger.start (config : MockConfig) (assumptions : List Predicate) :
    Ledger assumptions [] { config, assumptions } where
  assumed := rfl
  slots m hm := by cases hm
  distinct m m' hm := by cases hm
  bound k b hb := by cases hb
  counted k b hb := by cases hb
  returned m sig args v hv := by cases hv

theorem Ledger.countP_eq_zero (hp : p.Ledger assumptions past) {k : BindingKey} (hk : p.bindings.get? k = none) :
    past.countP (·.isReturn k) = 0 := by
  rw [List.countP_eq_zero]
  intro e he hreturn
  obtain ⟨m, sig, args, v, rfl, rfl⟩ := Event.eq_returned hreturn
  obtain ⟨_, _, b, hb, _⟩ := hp.returned m sig args v he
  rw [hk] at hb
  cases hb

theorem Ledger.created {t : MockTarget} {m : MockInstance} (hp : p.Ledger assumptions past)
    (h : p.createMock t = .ok (m, q)) (hslot : q.nextSlot ≠ 0) : q.Ledger assumptions (past ++ [.created m]) := by
  obtain ⟨hid, _, _, hassume, hbind, _⟩ := createMock_spec h
  have hmem : ∀ m', .created m' ∈ past ++ [.created m] → .created m' ∈ past ∨ m' = m := by simp
  -- The slot of the new mock is above every slot that was handed out.
  have hfresh : ∀ m', .created m' ∈ past → m'.id ≠ m.id := by
    intro m' hm' heq
    have hlt := hp.slots m' hm'
    rw [heq, hid] at hlt
    exact UInt32.lt_irrefl _ hlt
  refine ⟨hassume.trans hp.assumed, fun m' hm' => ?_, fun m₁ m₂ h₁ h₂ hids => ?_, fun k b hb => ?_, fun k b hb => ?_,
    fun m' sig args v hv => ?_⟩
  · rcases hmem m' hm' with hold | rfl
    · exact lt_nextSlot h hslot (UInt32.le_of_lt (hp.slots m' hold))
    · exact lt_nextSlot h hslot (UInt32.le_of_eq hid)
  · rcases hmem m₁ h₁ with hold₁ | rfl <;> rcases hmem m₂ h₂ with hold₂ | rfl
    · exact hp.distinct m₁ m₂ hold₁ hold₂ hids
    · exact absurd hids (hfresh m₁ hold₁)
    · exact absurd hids.symm (hfresh m₂ hold₂)
    · rfl
  · rw [hbind] at hb
    obtain ⟨hvar, m', sig, hm', hfacts⟩ := hp.bound k b hb
    exact ⟨hvar, m', sig, List.mem_append_left _ hm', hfacts⟩
  · rw [hbind] at hb
    rw [List.countP_append, hp.counted k b hb]
    rfl
  · have hv' : .returned m' sig args v ∈ past := by simpa using hv
    obtain ⟨hm', hsig, b, hb, hvalue⟩ := hp.returned m' sig args v hv'
    exact ⟨List.mem_append_left _ hm', hsig, b, by rw [hbind]; exact hb, hvalue⟩

theorem Ledger.entered {m : MockInstance} {sig : MethodSig} {args : List Value} {v : Value} {b : Binding}
    (hp : p.Ledger assumptions past) (hm : .created m ∈ past) (hsig : m.target.method? sig.name = some sig)
    (h : p.Enters (m.key sig) sig.returns args v b) :
    Ledger assumptions (past ++ [.returned m sig args ⟨b.value, sig.returns, some b.var⟩])
      { p with bindings := p.bindings.insert (m.key sig) b } := by
  have hretains := Retains.enter h
  have hcreated : ∀ m' w, .created m' ∈ past ++ [.returned m sig args w] ↔ .created m' ∈ past := by simp
  refine ⟨hp.assumed, fun m' hm' => hp.slots m' ((hcreated ..).1 hm'),
    fun m₁ m₂ h₁ h₂ => hp.distinct m₁ m₂ ((hcreated ..).1 h₁) ((hcreated ..).1 h₂),
    fun k b' hb' => ?_, fun k b' hb' => ?_, fun m' sig' args' w hw => ?_⟩
  · by_cases hk : k = m.key sig
    · subst hk
      rw [SortedMap.get?_insert_self] at hb'
      cases hb'
      cases h with
      | again hb =>
          obtain ⟨hvar, m', sig', hm', hfacts⟩ := hp.bound _ _ hb
          exact ⟨hvar, m', sig', (hcreated ..).2 hm', hfacts⟩
      | first _ hv =>
          refine ⟨rfl, m, sig, (hcreated ..).2 hm, rfl, hsig, hv.conforms, fun a ha => ?_⟩
          exact hv.assumed a (by rw [hp.assumed]; exact ha)
    · rw [SortedMap.get?_insert_of_ne _ _ hk] at hb'
      obtain ⟨hvar, m', sig', hm', hfacts⟩ := hp.bound k b' hb'
      exact ⟨hvar, m', sig', (hcreated ..).2 hm', hfacts⟩
  · rw [List.countP_append]
    by_cases hk : k = m.key sig
    · subst hk
      rw [SortedMap.get?_insert_self] at hb'
      cases hb'
      have hone : List.countP (·.isReturn (m.key sig))
          [Event.returned m sig args ⟨b.value, sig.returns, some b.var⟩] = 1 := by simp [Event.isReturn]
      rw [hone, UInt64.ofNat_add]
      cases h with
      | again hb => rw [← hp.counted _ _ hb]; rfl
      | first hb _ => rw [hp.countP_eq_zero hb]; rfl
    · rw [SortedMap.get?_insert_of_ne _ _ hk] at hb'
      rw [hp.counted k b' hb']
      simp [Event.isReturn, Ne.symm hk]
  · rcases List.mem_append.1 hw with hold | hnew
    · obtain ⟨hm', hsig', b', hb', hvalue⟩ := hp.returned m' sig' args' w hold
      obtain ⟨calls, hq⟩ := hretains _ _ hb'
      exact ⟨(hcreated ..).2 hm', hsig', _, hq, hvalue⟩
    · cases List.mem_singleton.1 hnew
      exact ⟨(hcreated ..).2 hm, hsig, b, SortedMap.get?_insert_self .., rfl⟩

theorem Ledger.step (hp : p.Ledger assumptions past) (h : p.Step past e q) : q.Ledger assumptions (past ++ [e]) := by
  cases h with
  | created h hslot => exact hp.created h hslot
  | returned hm hsig h =>
      obtain ⟨b, henters, rfl, rfl⟩ := bind_eq_ok.1 h
      obtain ⟨hmethod, rfl⟩ := MockInstance.dispatch_ok hsig
      exact hp.entered hm hmethod henters

/-! ## Histories -/

inductive Evolves : List Event → Provider → List Moment → Provider → Prop where
  | refl (past : List Event) (p : Provider) : Evolves past p [] p
  | step {past : List Event} {p q q' : Provider} {e : Event} {history : List Moment} (h : p.Step past e q)
      (rest : Evolves (past ++ [e]) q history q') : Evolves past p (⟨e, q⟩ :: history) q'

variable {history history' : List Moment}

theorem Step.evolves (h : p.Step past e q) : Evolves past p [⟨e, q⟩] q := .step h (.refl _ q)

theorem Evolves.append (h : Evolves past p history q)
    (h' : Evolves (past ++ history.map (·.event)) q history' q') : Evolves past p (history ++ history') q' := by
  induction h with
  | refl past p => simpa using h'
  | step h _ ih => exact .step h (ih (by simpa using h'))

theorem Evolves.after (h : Evolves past p history q) : p.after history = q := by
  induction h with
  | refl past p => rfl
  | @step past p q q' e history h rest ih =>
      rw [← ih]
      cases history with
      | nil => rfl
      | cons moment history => simp [Provider.after, List.getLast?_cons]

theorem Evolves.ledger (h : Evolves past p history q) (hp : p.Ledger assumptions past) :
    q.Ledger assumptions (past ++ history.map (·.event)) := by
  induction h with
  | refl past p => simpa using hp
  | step h _ ih => simpa using ih (hp.step h)

theorem Evolves.retains (h : Evolves past p history q) {moment : Moment} (hmem : moment ∈ history) :
    p.Retains moment.provider := by
  induction h with
  | refl past p => cases hmem
  | step h _ ih =>
      rcases List.mem_cons.1 hmem with rfl | hmem
      · exact h.retains
      · exact h.retains.trans (ih hmem)

theorem Evolves.split (h : Evolves past p (history ++ history') q) :
    Evolves past p history (p.after history) ∧
      Evolves (past ++ history.map (·.event)) (p.after history) history' q := by
  induction history generalizing past p with
  | nil => exact ⟨.refl past p, by simpa [Provider.after] using h⟩
  | cons moment history ih =>
      cases h with
      | step h rest =>
          obtain ⟨hfirst, hrest⟩ := ih rest
          have hafter := (Evolves.step h hfirst).after
          rw [hafter]
          exact ⟨.step h hfirst, by simpa using hrest⟩

end Provider

end MockExplorer
