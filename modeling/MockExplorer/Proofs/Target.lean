import MockExplorer.Target

/-!
# Which targets can be mocked

The kind of a target and those of its methods that calls can be redirected from decide how a mock of it works, and the
policy may refuse that. Other methods do not count, final ones included, nor does the order of methods. A policy that
admits more refuses no target that was accepted.
-/

namespace MockExplorer

/-! ## Methods that count -/

/-- Calls of the method can be redirected: it is neither private nor static and returns something. -/
def MethodSig.Open (m : MethodSig) : Prop :=
  m.modifiers.isPrivate = false ∧ m.modifiers.isStatic = false ∧ m.returns ≠ .void

/-- The method is private, static or returns nothing. -/
def MethodSig.Hidden (m : MethodSig) : Prop :=
  m.modifiers.isPrivate = true ∨ m.modifiers.isStatic = true ∨ m.returns = .void

theorem MethodSig.isInterceptable_iff {m : MethodSig} : m.isInterceptable = true ↔ m.Open := by
  simp [isInterceptable, Open, ValueType.isResolvable, and_assoc]

theorem MethodSig.Hidden.not_open {m : MethodSig} (h : m.Hidden) : ¬ m.Open := by
  rintro ⟨hprivate, hstatic, hreturns⟩
  rcases h with h | h | h
  · rw [hprivate] at h; cases h
  · rw [hstatic] at h; cases h
  · exact hreturns h

namespace MockTarget

variable {t t' : MockTarget} {config config' : MockConfig} {how : Interception}

theorem mem_interceptable {m : MethodSig} : m ∈ t.interceptable ↔ m ∈ t.methods ∧ m.Open := by
  rw [interceptable, List.mem_filter, MethodSig.isInterceptable_iff]

/-! ## Mechanisms -/

def Offers (t : MockTarget) : Prop := ∃ m ∈ t.methods, m.Open

def IsClass (t : MockTarget) : Prop := ∃ isFinal isAbstract, t.kind = .classType isFinal isAbstract

def IsFinal (t : MockTarget) : Prop := ∃ isAbstract, t.kind = .classType true isAbstract

/-- The target is a class that is not abstract. -/
def IsConcrete (t : MockTarget) : Prop := ∃ isFinal, t.kind = .classType isFinal false

def HasFinal (t : MockTarget) : Prop := ∃ m ∈ t.methods, m.Open ∧ m.modifiers.isFinal = true

/-- A subtype could not override all that counts. -/
def NeedsCallSite (t : MockTarget) : Prop := t.IsFinal ∨ t.IsClass ∧ t.HasFinal

/-- How calls on a mock of the target can be redirected. -/
inductive RedirectedBy (t : MockTarget) : Interception → Prop where
  | proxy (hkind : t.kind = .interface) (hoffers : t.Offers) : RedirectedBy t .proxy
  | subclass (hclass : t.IsClass) (hneeds : ¬ t.NeedsCallSite) (hoffers : t.Offers) : RedirectedBy t .subclass
  | callSite (hneeds : t.NeedsCallSite) (hoffers : t.Offers) : RedirectedBy t .callSite

theorem isEmpty_interceptable : t.interceptable.isEmpty = false ↔ t.Offers := by
  rw [List.isEmpty_eq_false_iff_exists_mem]
  exact exists_congr fun m => mem_interceptable

theorem any_isFinal : t.interceptable.any (·.modifiers.isFinal) = true ↔ t.HasFinal := by
  rw [List.any_eq_true]
  refine exists_congr fun m => ?_
  rw [mem_interceptable, and_assoc]

theorem isInstantiable_iff : t.isInstantiable = true ↔ t.IsConcrete := by
  unfold isInstantiable IsConcrete
  cases t.kind with
  | classType isFinal isAbstract => cases isAbstract <;> simp
  | interface => simp
  | primitive => simp
  | array => simp

theorem needsCallSite_of_class {isFinal isAbstract : Bool} (hkind : t.kind = .classType isFinal isAbstract) :
    t.NeedsCallSite ↔ (isFinal || t.interceptable.any (·.modifiers.isFinal)) = true := by
  rw [Bool.or_eq_true, any_isFinal]
  simp [NeedsCallSite, IsFinal, IsClass, hkind]

theorem mechanism_of_class {isFinal isAbstract : Bool} (hkind : t.kind = .classType isFinal isAbstract)
    (hoffers : t.Offers) :
    t.mechanism =
      if isFinal || t.interceptable.any (·.modifiers.isFinal) then .ok .callSite else .ok .subclass := by
  have hempty := isEmpty_interceptable.2 hoffers
  simp [mechanism, hkind, hempty]

theorem RedirectedBy.mechanism (h : t.RedirectedBy how) : t.mechanism = .ok how := by
  cases h with
  | proxy hkind hoffers =>
      have hempty := isEmpty_interceptable.2 hoffers
      simp [MockTarget.mechanism, hkind, hempty]
  | subclass hclass hneeds hoffers =>
      obtain ⟨isFinal, isAbstract, hkind⟩ := hclass
      rw [mechanism_of_class hkind hoffers, if_neg fun h => hneeds ((needsCallSite_of_class hkind).2 h)]
  | callSite hneeds hoffers =>
      have hclass : t.IsClass := by
        rcases hneeds with ⟨isAbstract, hkind⟩ | ⟨hclass, _⟩
        · exact ⟨true, isAbstract, hkind⟩
        · exact hclass
      obtain ⟨isFinal, isAbstract, hkind⟩ := hclass
      rw [mechanism_of_class hkind hoffers, if_pos ((needsCallSite_of_class hkind).1 hneeds)]

theorem offers_of_mechanism (h : t.mechanism = .ok how) : t.Offers := by
  rw [← isEmpty_interceptable]
  cases hempty : t.interceptable.isEmpty with
  | false => rfl
  | true =>
      unfold mechanism at h
      cases hkind : t.kind <;> simp [hkind, hempty] at h

theorem mechanism_eq_ok : t.mechanism = .ok how ↔ t.RedirectedBy how := by
  refine ⟨fun h => ?_, RedirectedBy.mechanism⟩
  have hoffers := offers_of_mechanism h
  cases hkind : t.kind with
  | primitive => simp [mechanism, hkind] at h
  | array => simp [mechanism, hkind] at h
  | interface =>
      have hproxy := RedirectedBy.proxy hkind hoffers
      rw [hproxy.mechanism] at h
      cases h
      exact hproxy
  | classType isFinal isAbstract =>
      by_cases hneeds : t.NeedsCallSite
      · have hcallSite := RedirectedBy.callSite hneeds hoffers
        rw [hcallSite.mechanism] at h
        cases h
        exact hcallSite
      · have hsubclass := RedirectedBy.subclass ⟨isFinal, isAbstract, hkind⟩ hneeds hoffers
        rw [hsubclass.mechanism] at h
        cases h
        exact hsubclass

/-! ## Policies -/

theorem classify_eq_ok : t.classify config = .ok how ↔ t.mechanismUnder config = .ok how := by
  unfold classify
  cases t.mechanismUnder config with
  | error o =>
      constructor
      · intro h
        cases h
      · intro h
        cases h
  | ok how' =>
      constructor
      · intro h
        cases h
        rfl
      · intro h
        cases h
        rfl

theorem mechanismUnder_eq_ok : t.mechanismUnder config = .ok how ↔
    config.enabled = true ∧ t.RedirectedBy how ∧ ¬ (config.mode = .basic ∧ t.IsConcrete) ∧
      ¬ (how = .callSite ∧ config.callSiteRedirect = false) := by
  rw [← mechanism_eq_ok, ← isInstantiable_iff]
  unfold mechanismUnder
  cases config.enabled with
  | false => simp
  | true =>
      cases t.mechanism with
      | error o => simp
      | ok how' =>
          simp only [Bool.true_eq_false, ↓reduceIte, Bool.and_eq_true, decide_eq_true_eq, Bool.not_eq_true',
            true_and, Except.ok.injEq]
          split
          · rename_i hbasic
            simp [hbasic]
          · rename_i hbasic
            split
            · rename_i hredirect
              constructor
              · intro h
                cases h
              · rintro ⟨rfl, _, hadmitted⟩
                exact absurd hredirect hadmitted
            · rename_i hredirect
              constructor
              · intro h
                cases h
                exact ⟨rfl, hbasic, hredirect⟩
              · rintro ⟨rfl, _⟩
                rfl

theorem classify_eq_error {e : MockError} (h : t.classify config = .error e) :
    ∃ o : Obstacle, e = .unmockable t.name o.text := by
  unfold classify at h
  cases hmechanism : t.mechanismUnder config with
  | ok how =>
      rw [hmechanism] at h
      cases h
  | error o =>
      rw [hmechanism] at h
      cases h
      exact ⟨o, rfl⟩

theorem RedirectedBy.eq_callSite_iff (h : t.RedirectedBy how) : how = .callSite ↔ t.NeedsCallSite := by
  cases h with
  | proxy hkind _ => simp [NeedsCallSite, IsFinal, IsClass, hkind]
  | subclass _ hneeds _ => simp [hneeds]
  | callSite hneeds _ => simp [hneeds]

theorem RedirectedBy.eq_subclass_iff (h : t.RedirectedBy how) :
    how = .subclass ↔ t.IsClass ∧ ¬ t.NeedsCallSite := by
  cases h with
  | proxy hkind _ => simp [IsClass, hkind]
  | subclass hclass hneeds _ => simp [hclass, hneeds]
  | callSite hneeds _ => simp [hneeds]

theorem RedirectedBy.eq_proxy_iff (h : t.RedirectedBy how) : how = .proxy ↔ t.kind = .interface := by
  have hclass : t.IsClass → ¬ t.kind = .interface := by
    rintro ⟨isFinal, isAbstract, hkind⟩ hinterface
    rw [hkind] at hinterface
    cases hinterface
  cases h with
  | proxy hkind _ => simp [hkind]
  | subclass hc _ _ => simp [hclass hc]
  | callSite hneeds _ =>
      rcases hneeds with ⟨isAbstract, hkind⟩ | ⟨hc, _⟩
      · simp [hkind]
      · simp [hclass hc]

theorem exists_redirectedBy : (∃ how, t.RedirectedBy how) ↔ (t.IsClass ∨ t.kind = .interface) ∧ t.Offers := by
  constructor
  · rintro ⟨_, ⟨hkind, hoffers⟩ | ⟨hclass, _, hoffers⟩ | ⟨⟨isAbstract, hkind⟩ | ⟨hclass, _⟩, hoffers⟩⟩
    · exact ⟨.inr hkind, hoffers⟩
    · exact ⟨.inl hclass, hoffers⟩
    · exact ⟨.inl ⟨true, isAbstract, hkind⟩, hoffers⟩
    · exact ⟨.inl hclass, hoffers⟩
  · rintro ⟨hclass | hkind, hoffers⟩
    · by_cases hneeds : t.NeedsCallSite
      · exact ⟨_, .callSite hneeds hoffers⟩
      · exact ⟨_, .subclass hclass hneeds hoffers⟩
    · exact ⟨_, .proxy hkind hoffers⟩

/-! ## Edits of the methods -/

/-- The methods are put in another order, or methods that do not count come and go. -/
inductive Edited : List MethodSig → List MethodSig → Prop where
  | reordered {ms ms' : List MethodSig} (h : ms.Perm ms') : Edited ms ms'
  | added {before after : List MethodSig} {m : MethodSig} (h : m.Hidden) :
      Edited (before ++ after) (before ++ m :: after)
  | removed {before after : List MethodSig} {m : MethodSig} (h : m.Hidden) :
      Edited (before ++ m :: after) (before ++ after)
  | trans {ms ms' ms'' : List MethodSig} (h : Edited ms ms') (h' : Edited ms' ms'') : Edited ms ms''

theorem mem_insert_hidden {before after : List MethodSig} {m m' : MethodSig} (h : m.Hidden) (hm' : m'.Open) :
    m' ∈ before ++ m :: after ↔ m' ∈ before ++ after := by
  have hne : m' ≠ m := by
    rintro rfl
    exact h.not_open hm'
  simp [hne]

theorem Edited.mem_iff {ms ms' : List MethodSig} (h : Edited ms ms') {m : MethodSig} (hm : m.Open) :
    m ∈ ms' ↔ m ∈ ms := by
  induction h with
  | reordered h => exact h.mem_iff.symm
  | added h => exact mem_insert_hidden h hm
  | removed h => exact (mem_insert_hidden h hm).symm
  | trans _ _ ih ih' => exact ih'.trans ih

/-- Only the kind and the methods that count matter. -/
theorem mechanism_congr (hkind : t'.kind = t.kind) (h : ∀ m, m.Open → (m ∈ t'.methods ↔ m ∈ t.methods)) :
    t'.mechanism = t.mechanism := by
  have hmem : ∀ m, m ∈ t'.interceptable ↔ m ∈ t.interceptable := by
    intro m
    rw [mem_interceptable, mem_interceptable]
    exact and_congr_left (h m)
  have hempty : t'.interceptable.isEmpty = t.interceptable.isEmpty := by
    rw [Bool.eq_iff_iff, List.isEmpty_iff, List.isEmpty_iff, List.eq_nil_iff_forall_not_mem,
      List.eq_nil_iff_forall_not_mem]
    exact forall_congr' fun m => not_congr (hmem m)
  have hfinal : t'.interceptable.any (·.modifiers.isFinal) = t.interceptable.any (·.modifiers.isFinal) := by
    rw [Bool.eq_iff_iff, List.any_eq_true, List.any_eq_true]
    exact exists_congr fun m => and_congr_left' (hmem m)
  simp only [mechanism, hkind, hempty, hfinal]

theorem Edited.classify {ms : List MethodSig} (h : Edited t.methods ms) (config : MockConfig) :
    { t with methods := ms }.classify config = t.classify config := by
  have hmechanism : { t with methods := ms }.mechanism = t.mechanism := mechanism_congr rfl fun m hm => h.mem_iff hm
  have hinstantiable : { t with methods := ms }.isInstantiable = t.isInstantiable := rfl
  have hrefuse : { t with methods := ms }.refuse = t.refuse := rfl
  simp only [MockTarget.classify, mechanismUnder, hmechanism, hinstantiable, hrefuse]

end MockTarget

/-! ## Classification -/

/-- The second policy admits all that the first one does. -/
structure MockConfig.Loosens (config config' : MockConfig) : Prop where
  enabled : config.enabled = true → config'.enabled = true
  mode : config.mode = .full → config'.mode = .full
  callSiteRedirect : config.callSiteRedirect = true → config'.callSiteRedirect = true

theorem MockConfig.Loosens.classify {config config' : MockConfig} (h : config.Loosens config') {t : MockTarget}
    {how : Interception} (ht : t.classify config = .ok how) : t.classify config' = .ok how := by
  rw [MockTarget.classify_eq_ok, MockTarget.mechanismUnder_eq_ok] at ht ⊢
  obtain ⟨henabled, hredirected, hbasic, hredirect⟩ := ht
  refine ⟨h.enabled henabled, hredirected, fun hrefused => ?_, fun hrefused => ?_⟩
  · refine hbasic ⟨?_, hrefused.2⟩
    cases hmode : config.mode with
    | basic => rfl
    | full =>
        rw [h.mode hmode] at hrefused
        cases hrefused.1
  · refine hredirect ⟨hrefused.1, ?_⟩
    cases hallowed : config.callSiteRedirect with
    | false => rfl
    | true =>
        rw [h.callSiteRedirect hallowed] at hrefused
        cases hrefused.2

/-- Which targets are accepted under which policy, and how calls on their mocks are redirected. All others are refused
as unmockable. Edits of what does not count change nothing, and a looser policy accepts what was accepted in the same
way. -/
theorem MockTarget.classify_exact (t : MockTarget) (config : MockConfig) :
    ((∃ how, t.classify config = .ok how) ↔
      config.enabled = true ∧ (t.IsClass ∨ t.kind = .interface) ∧ t.Offers ∧
        ¬ (config.mode = .basic ∧ t.IsConcrete) ∧ ¬ (t.NeedsCallSite ∧ config.callSiteRedirect = false)) ∧
    (∀ how, t.classify config = .ok how → (how = .proxy ↔ t.kind = .interface) ∧
      (t.IsClass → (how = .subclass ↔ ¬ t.IsFinal ∧ ¬ t.HasFinal) ∧ (how = .callSite ↔ t.IsFinal ∨ t.HasFinal))) ∧
    (∀ e, t.classify config = .error e → ∃ o : Obstacle, e = .unmockable t.name o.text) ∧
    (∀ ms, Edited t.methods ms → { t with methods := ms }.classify config = t.classify config) ∧
    (∀ config' how, config.Loosens config' → t.classify config = .ok how → t.classify config' = .ok how) := by
  have hok : ∀ how, t.classify config = .ok how ↔ config.enabled = true ∧ t.RedirectedBy how ∧
      ¬ (config.mode = .basic ∧ t.IsConcrete) ∧ ¬ (how = .callSite ∧ config.callSiteRedirect = false) :=
    fun how => classify_eq_ok.trans mechanismUnder_eq_ok
  refine ⟨?_, fun how h => ?_, fun e => classify_eq_error, fun ms h => h.classify config,
    fun config' how h => h.classify⟩
  · constructor
    · rintro ⟨how, h⟩
      obtain ⟨henabled, hredirected, hbasic, hredirect⟩ := (hok how).1 h
      obtain ⟨hkind, hoffers⟩ := exists_redirectedBy.1 ⟨how, hredirected⟩
      rw [hredirected.eq_callSite_iff] at hredirect
      exact ⟨henabled, hkind, hoffers, hbasic, hredirect⟩
    · rintro ⟨henabled, hkind, hoffers, hbasic, hredirect⟩
      obtain ⟨how, hredirected⟩ := exists_redirectedBy.2 ⟨hkind, hoffers⟩
      rw [← hredirected.eq_callSite_iff] at hredirect
      exact ⟨how, (hok how).2 ⟨henabled, hredirected, hbasic, hredirect⟩⟩
  · obtain ⟨_, hredirected, _⟩ := (hok how).1 h
    refine ⟨hredirected.eq_proxy_iff, fun hclass => ?_⟩
    have hneeds : t.NeedsCallSite ↔ t.IsFinal ∨ t.HasFinal := by simp [NeedsCallSite, hclass]
    rw [hredirected.eq_subclass_iff, hredirected.eq_callSite_iff, hneeds, not_or]
    exact ⟨and_iff_right hclass, Iff.rfl⟩

/-- A class with final methods that are private, static or return nothing is overridden by a subtype, wherever they
stand. One final method among those that count makes the difference. -/
theorem MockTarget.classify_exact_hidden_finals :
    let sealed : Modifiers := { isFinal := true, isPrivate := true }
    let shared : Modifiers := { isFinal := true, isStatic := true }
    let size : MethodSig := { name := "size", returns := .int }
    let check : MethodSig := { name := "check", returns := .bool, modifiers := sealed }
    let make : MethodSig := { name := "make", returns := .object, modifiers := shared }
    let clear : MethodSig := { name := "clear", returns := .void, modifiers := { isFinal := true } }
    let t : MockTarget := { name := "Store", kind := .classType false true, methods := [check, size, make] }
    let strict : MockConfig := { mode := .basic, callSiteRedirect := false }
    t.classify strict = .ok .subclass ∧
      { t with methods := [clear, size, check] }.classify strict = .ok .subclass ∧ t.classify {} = .ok .subclass ∧
      { t with methods := { size with modifiers := { isFinal := true } } :: t.methods }.classify strict =
        .error (.unmockable "Store" Obstacle.redirectDisabled.text) := by
  intro sealed shared size check make clear t strict
  obtain ⟨_, _, _, hedited, hloosened⟩ := t.classify_exact strict
  have hclassify : t.classify strict = .ok .subclass := rfl
  have hreordered : Edited t.methods [size, check, make] := .reordered (.swap ..)
  have hremoved : Edited ([size, check] ++ make :: []) ([size, check] ++ []) := .removed (.inr (.inl rfl))
  have hadded : Edited ([] ++ [size, check]) ([] ++ clear :: [size, check]) := .added (.inr (.inr rfl))
  refine ⟨hclassify, ?_, hloosened {} .subclass ⟨fun _ => rfl, fun _ => rfl, fun _ => rfl⟩ hclassify, rfl⟩
  exact (hedited _ (hreordered.trans (hremoved.trans hadded))).trans hclassify

end MockExplorer
