import MockExplorer.Proofs.Execution.Question

/-!
# Recorders

A recorder that is attached to an execution is told what the path is told: the methods of a mock when it is handed out,
and the predicate that held at a branch or was recorded by hand. What it was told builds the same path again. Nothing
that an execution does depends on it.
-/

namespace MockExplorer

variable {σ : Type}

/-! ## Paths from what was told -/

def JournalEntry.clause? : JournalEntry → Option Clause
  | .input _ _ => none
  | .clause c => some c

/-- The type at which the entry registers the input, if it does. -/
def JournalEntry.typeOf? (var : SymVar) : JournalEntry → Option ValueType
  | .input var' ty => if var = var' then some ty else none
  | .clause _ => none

namespace PathCondition

def hear (path : PathCondition) : JournalEntry → PathCondition
  | .input var ty => path.register var ty
  | .clause c => path.record c

def hearAll (path : PathCondition) (es : List JournalEntry) : PathCondition := es.foldl hear path

theorem clauses_hearAll (path : PathCondition) (es : List JournalEntry) :
    (path.hearAll es).clauses = path.clauses ++ es.filterMap JournalEntry.clause? := by
  induction es generalizing path with
  | nil => simp [hearAll]
  | cons e es ih =>
      rw [show path.hearAll (e :: es) = (path.hear e).hearAll es from rfl, ih]
      cases e with
      | input var ty => rfl
      | clause c => exact List.append_assoc ..

/-- The first registration of an input counts. -/
theorem inputs_hearAll (path : PathCondition) (es : List JournalEntry) (var : SymVar) :
    (path.hearAll es).inputs.get? var =
      (path.inputs.get? var).or (es.findSome? (JournalEntry.typeOf? var)) := by
  induction es generalizing path with
  | nil => simp [hearAll]
  | cons e es ih =>
      rw [show path.hearAll (e :: es) = (path.hear e).hearAll es from rfl, ih]
      cases e with
      | clause c => rfl
      | input var' ty =>
          have hget : (path.hear (.input var' ty)).inputs.get? var =
              (path.inputs.get? var).or (JournalEntry.typeOf? var (.input var' ty)) :=
            SortedMap.get?_insertIfNew _ _ _ _
          rw [hget, Option.or_assoc, List.findSome?_cons]
          cases JournalEntry.typeOf? var (.input var' ty) <;> rfl

end PathCondition

/-! ## What statements tell -/

def MockTarget.registrations (t : MockTarget) (slot : UInt32) : List JournalEntry :=
  t.interceptable.map fun m => .input (.forCall slot m.name) m.returns

/-- A mock that is handed out tells of all its methods, also of those whose name was there before. -/
def Action.tells (a : Action) (x : Execution σ) : List JournalEntry :=
  match a with
  | .mock _ target =>
    match target.classify x.provider.config with
    | .error _ => []
    | .ok _ => if x.provider.nextSlot + 1 = 0 then [] else target.registrations x.provider.nextSlot
  | .record c => [.clause c]
  | _ => []

def Condition.tells (c : Condition) (l : LocationId) : List JournalEntry :=
  (c.taken?.map fun a => .clause ⟨l, a⟩).toList

def Body.tells (r : Resolution σ) (b : Body) (x : Execution σ) : List JournalEntry :=
  b.gather r Action.tells (fun l c => c.tells l) x

def tellsEach (r : Resolution σ) : List Body → Execution σ → List JournalEntry
  | [], _ => []
  | b :: rest, x =>
    b.tells r { x with log := [] } ++
      match b.run r { x with log := [] } with
      | (_, some .crashed) => []
      | (y, _) => tellsEach r rest y

theorem Action.tells_of_stopped {r : Resolution σ} {a : Action} {x : Execution σ} {halt : Halt}
    (h : (a.run r x).2 = some halt) : a.tells x = [] := by
  cases a with
  | mock name target =>
      simp only [Action.run, Provider.createMock] at h
      simp only [Action.tells]
      cases hclassify : target.classify x.provider.config with
      | error e => rfl
      | ok how =>
          simp only [hclassify, (Provider.registerAll_spec ..).2.2.2.1] at h
          by_cases hslot : x.provider.nextSlot + 1 = 0
          · simp only [hslot, ↓reduceIte]
          · simp [hslot] at h
  | record c => cases h
  | _ => rfl

/-! ## Calls -/

/-- The provider with another path and recorder. -/
def Provider.onPath (p : Provider) (path : PathCondition) (journal : Option (List JournalEntry)) : Provider :=
  { p with path, journal }

def CallState.onPath (c : CallState σ) (path : PathCondition) (journal : Option (List JournalEntry)) : CallState σ :=
  { c with provider := c.provider.onPath path journal }

def Execution.onPath (x : Execution σ) (path : PathCondition) (journal : Option (List JournalEntry)) : Execution σ :=
  { x with calls := x.calls.onPath path journal }

section

variable {path : PathCondition} {journal : Option (List JournalEntry)} {p : Provider}

theorem Provider.onPath_replay? (k : BindingKey) (sig : MethodSig) :
    (p.onPath path journal).replay? k sig = (p.replay? k sig).map fun s => (s.1, s.2.onPath path journal) := by
  unfold replay?
  rw [show (p.onPath path journal).bindings = p.bindings from rfl]
  cases p.bindings.get? k <;> rfl

theorem Provider.onPath_bind (k : BindingKey) (sig : MethodSig) (args : List Value) (v : Value) :
    (p.onPath path journal).bind k sig args v =
      (p.bind k sig args v).map fun s => (s.1, s.2.onPath path journal) := by
  unfold bind
  rw [onPath_replay?, show (p.onPath path journal).assumptions = p.assumptions from rfl]
  cases p.replay? k sig with
  | some served => rfl
  | none =>
      simp only [Option.map_none]
      split
      · rfl
      · cases p.assumptions.find? fun a => a.var = k.var && !a.holds v <;> rfl

/-- Calls neither read nor change the path and the recorder. -/
def Oblivious (call : CallState σ → MockInstance → String → List Value → CallResult σ ConcolicValue) : Prop :=
  ∀ path journal c m f args,
    call (c.onPath path journal) m f args = ((call c m f args).1, (call c m f args).2.onPath path journal)

variable {nested : CallState σ → MockInstance → String → List Value → CallResult σ ConcolicValue}
  {roster : List MockInstance}

theorem Reaction.settle_onPath (hn : Oblivious nested) (reaction : Reaction σ) (p : Provider) :
    reaction.settle nested roster (p.onPath path journal) =
      ((reaction.settle nested roster p).1, (reaction.settle nested roster p).2.onPath path journal) := by
  induction reaction generalizing p with
  | answer v s => rfl
  | fail e s => rfl
  | call mock method args s resume ih =>
      simp only [Reaction.settle]
      cases roster[mock]? with
      | none => exact ih _ _ p
      | some m =>
          have hcall := hn path journal ⟨p, s⟩ m method args
          simp only [CallState.onPath] at hcall
          simp only [hcall]
          rcases nested ⟨p, s⟩ m method args with ⟨(e | _) | v, c⟩
          · exact ih (.error e) c.resolver c.provider
          · rfl
          · exact ih (.ok v) c.resolver c.provider

theorem Resolver.oblivious_serve (r : Resolver σ) (hn : Oblivious nested) : Oblivious (r.serve roster nested) := by
  intro path journal c m f args
  unfold Resolver.serve
  cases m.dispatch f args with
  | error e => rfl
  | ok sig =>
      simp only [CallState.onPath, Provider.onPath_replay?]
      cases c.provider.replay? (m.key sig) sig with
      | some served => rfl
      | none =>
          simp only [Option.map_none, Reaction.settle_onPath hn]
          rcases (r.react c.resolver (m.key sig).var sig.returns).settle nested roster c.provider with ⟨_ | v, c'⟩
          · rfl
          · simp only [CallState.onPath, Provider.onPath_bind]
            cases c'.provider.bind (m.key sig) sig args v <;> rfl

theorem Resolver.oblivious_invoke (r : Resolver σ) (depth : Nat) : Oblivious (r.invoke roster depth) := by
  induction depth with
  | zero => exact r.oblivious_serve fun _ _ _ _ _ _ => rfl
  | succ depth ih => exact r.oblivious_serve ih

variable (r : Resolver σ) (depth : Nat) (c : CallState σ) (m : MockInstance)

theorem Resolver.invokeOnly_onPath (args : List Value) :
    r.invokeOnly roster depth (c.onPath path journal) m args =
      ((r.invokeOnly roster depth c m args).1, (r.invokeOnly roster depth c m args).2.onPath path journal) := by
  unfold Resolver.invokeOnly
  rcases m.target.interceptable with _ | ⟨sig, _ | ⟨sig', rest⟩⟩
  · rfl
  · exact r.oblivious_invoke depth ..
  · rfl

theorem Resolver.invokeView_onPath (view : Capability) (arg : Value) :
    r.invokeView roster depth (c.onPath path journal) m view arg =
      ((r.invokeView roster depth c m view arg).1, (r.invokeView roster depth c m view arg).2.onPath path journal) := by
  unfold Resolver.invokeView
  split
  · exact r.oblivious_invoke depth ..
  · rfl

theorem Execution.onPath_write (x : Execution σ) (e : LogEntry) :
    (x.onPath path journal).write e = (x.write e).onPath path journal := by
  unfold write
  cases h : x.silent <;> simp [onPath, h]

theorem Execution.onPath_callNamed (x : Execution σ) (mock : String)
    {call : CallState σ → MockInstance → CallResult σ ConcolicValue} (name : String)
    (hcall : ∀ m, call (x.calls.onPath path journal) m =
      ((call x.calls m).1, (call x.calls m).2.onPath path journal)) :
    (x.onPath path journal).callNamed mock call name =
      ((x.callNamed mock call name).1.onPath path journal, (x.callNamed mock call name).2) :=
  callNamed_comm (f := (·.onPath path journal)) mock name rfl rfl (fun _ _ => rfl) (fun _ => rfl) onPath_write hcall

end

/-! ## Statements -/

/-- The provider after its path was told `es`, next to a recorder that had been told `journal` before. -/
def Provider.heard (journal : Option (List JournalEntry)) (es : List JournalEntry) (p : Provider) : Provider :=
  p.onPath (PathCondition.hearAll {} es) (journal.map (· ++ es))

def Execution.heard (journal : Option (List JournalEntry)) (es : List JournalEntry) (x : Execution σ) : Execution σ :=
  x.onPath (PathCondition.hearAll {} es) (journal.map (· ++ es))

section

variable (journal : Option (List JournalEntry))

theorem Provider.registerInput_heard (p : Provider) (es : List JournalEntry) (var : SymVar) (ty : ValueType) :
    (p.heard journal es).registerInput var ty = (p.registerInput var ty).heard journal (es ++ [.input var ty]) := by
  simp [registerInput, note, heard, onPath, PathCondition.hearAll, PathCondition.hear, Function.comp_def]

theorem Provider.record_heard (p : Provider) (es : List JournalEntry) (c : Clause) :
    (p.heard journal es).record c = (p.record c).heard journal (es ++ [.clause c]) := by
  simp [record, note, heard, onPath, PathCondition.hearAll, PathCondition.hear, Function.comp_def]

theorem Provider.registerAll_heard (p : Provider) (es : List JournalEntry) (slot : UInt32) (ms : List MethodSig) :
    (p.heard journal es).registerAll slot ms =
      (p.registerAll slot ms).heard journal (es ++ ms.map fun m => .input (.forCall slot m.name) m.returns) := by
  induction ms generalizing p es with
  | nil => simp [registerAll]
  | cons m ms ih =>
      have hrest := ih (p.registerInput (.forCall slot m.name) m.returns)
        (es ++ [.input (.forCall slot m.name) m.returns])
      rw [← registerInput_heard, List.append_assoc] at hrest
      exact hrest

theorem Provider.createMock_heard (p : Provider) (es : List JournalEntry) (t : MockTarget) :
    (p.heard journal es).createMock t =
      (p.createMock t).map fun s => (s.1, s.2.heard journal (es ++ t.registrations p.nextSlot)) := by
  unfold createMock
  rw [show (p.heard journal es).config = p.config from rfl]
  cases t.classify p.config with
  | error e => rfl
  | ok how =>
      have hall := registerAll_heard journal { p with nextSlot := p.nextSlot + 1 } es p.nextSlot t.interceptable
      exact congrArg (fun q => Except.ok (MockInstance.mk ⟨p.nextSlot⟩ t how, q)) hall

theorem Action.run_heard (r : Resolution σ) (a : Action) (es : List JournalEntry) (x : Execution σ) :
    a.run r (x.heard journal es) = ((a.run r x).1.heard journal (es ++ a.tells x), (a.run r x).2) := by
  cases a with
  | mock name target =>
      simp only [Action.run, Action.tells]
      rw [show (x.heard journal es).provider = x.provider.heard journal es from rfl, Provider.createMock_heard]
      cases hclassify : target.classify x.provider.config with
      | error e =>
          have hcreate : x.provider.createMock target = .error e := by simp [Provider.createMock, hclassify]
          simp only [hcreate, Except.map, List.append_nil]
      | ok how =>
          obtain ⟨m, q, hcreate⟩ : ∃ m q, x.provider.createMock target = .ok (m, q) := by
            simp [Provider.createMock, hclassify]
          have hnext : q.nextSlot = x.provider.nextSlot + 1 := (Provider.createMock_spec hcreate).2.2.2.2.2.1
          have hheard : ∀ es', (q.heard journal es').nextSlot = x.provider.nextSlot + 1 := fun _ => hnext
          simp only [hcreate, Except.map, hheard, hnext]
          by_cases hslot : x.provider.nextSlot + 1 = 0
          · simp only [hslot, ↓reduceIte, List.append_nil]
          · simp only [hslot, ↓reduceIte, Execution.heard, ← Execution.onPath_write]
            rfl
  | invoke receiver method args name =>
      simp only [Action.run, Action.tells, List.append_nil]
      exact x.onPath_callNamed receiver name fun m => r.resolver.oblivious_invoke r.depth ..
  | call receiver args name =>
      simp only [Action.run, Action.tells, List.append_nil]
      exact x.onPath_callNamed receiver name fun m => r.resolver.invokeOnly_onPath r.depth ..
  | view receiver capability arg name =>
      simp only [Action.run, Action.tells, List.append_nil]
      exact x.onPath_callNamed receiver name fun m => r.resolver.invokeView_onPath r.depth ..
  | keep v name =>
      simp only [Action.run, Action.tells, List.append_nil, Execution.heard, ← Execution.onPath_write]
      rfl
  | reached site literal =>
      simp only [Action.run, Action.tells, List.append_nil, Execution.heard, ← Execution.onPath_write]
      rfl
  | record c =>
      exact congrArg (fun p => (x.withProvider p, none)) (x.provider.record_heard journal es c)
  | _ => simp only [Action.tells, List.append_nil]; rfl

theorem Execution.branch_heard (x : Execution σ) (es : List JournalEntry) (l : LocationId) (c : Condition) :
    (x.heard journal es).branch l c = ((x.branch l c).1, (x.branch l c).2.heard journal (es ++ c.tells l)) := by
  unfold Execution.branch Condition.tells
  cases c.taken? with
  | none => simp only [Option.map_none, Option.toList_none, List.append_nil]; rfl
  | some a =>
      have hrecord := x.provider.record_heard journal es ⟨l, a⟩
      exact congrArg (fun p => (c.evaluate,
        Execution.observe { x.withProvider p with branches := x.branches + 1 } (.branch l c.evaluate))) hrecord

/-! ## Runs -/

theorem Execution.carries_heard (r : Resolution σ) :
    Carries r (fun es (x : Execution σ) => x.heard journal es) Action.tells fun l c => c.tells l where
  act a es x := a.run_heard journal r es x
  branch es x l c := x.branch_heard journal es l c
  write _ x e := x.onPath_write e
  names _ _ := ⟨rfl, rfl⟩
  rename _ _ _ _ := rfl

theorem runEach_heard (r : Resolution σ) (bodies : List Body) (es : List JournalEntry) (x : Execution σ) :
    runEach r bodies (x.heard journal es) =
      ((runEach r bodies x).1, (runEach r bodies x).2.heard journal (es ++ tellsEach r bodies x)) := by
  induction bodies generalizing es x with
  | nil => simp [runEach, tellsEach]
  | cons b rest ih =>
      have hrun := (Execution.carries_heard journal r).run b es { x with log := [] }
      have hstart : { x.heard journal es with log := [] } = Execution.heard journal es { x with log := [] } := rfl
      simp only [runEach, tellsEach, hstart, hrun]
      rw [show b.gather r Action.tells (fun l c => c.tells l) { x with log := [] } = b.tells r { x with log := [] }
        from rfl]
      rcases b.run r { x with log := [] } with ⟨y, _ | ⟨e⟩ | _⟩
      · simp only [ih, List.append_assoc]
        rfl
      · simp only [ih, List.append_assoc]
        rfl
      · simp only [List.append_nil]
        rfl

end

/-- The execution with a recorder that has been told `journal`. -/
def Execution.attach (x : Execution σ) (journal : List JournalEntry) : Execution σ :=
  x.withProvider { x.provider with journal := some journal }

/-- With a recorder attached from the start, statements do what they do without it. The recorder is told exactly what
they tell, and so is the path. Statements that stop tell nothing. -/
theorem runEach_attach (r : Resolution σ) (config : MockConfig) (id : UInt64) (assumptions : List Predicate)
    (state : σ) (bodies : List Body) :
    let x := Execution.start config id assumptions state
    let told := tellsEach r bodies x
    let y := (runEach r bodies x).2
    runEach r bodies (x.attach []) = ((runEach r bodies x).1, y.attach told) ∧
      y.provider.path = PathCondition.hearAll {} told ∧
      y.provider.path.clauses = told.filterMap JournalEntry.clause? ∧
      (∀ var, y.provider.path.inputs.get? var = told.findSome? (JournalEntry.typeOf? var)) ∧
      ∀ (a : Action) (z : Execution σ) (halt : Halt), (a.run r z).2 = some halt → a.tells z = [] := by
  intro x told y
  -- At the start nothing was told, with or without a recorder; so both runs are told the same.
  have hplain : runEach r bodies x = ((runEach r bodies x).1, y.heard none told) :=
    runEach_heard none r bodies [] x
  have hattached : runEach r bodies (x.attach []) = ((runEach r bodies x).1, y.heard (some []) told) :=
    runEach_heard (some []) r bodies [] x
  have hy : y = y.heard none told := congrArg Prod.snd hplain
  have hpath : y.provider.path = PathCondition.hearAll {} told := by
    rw [hy]
    rfl
  refine ⟨?_, hpath, ?_, fun var => ?_, fun a z halt => Action.tells_of_stopped⟩
  · -- Attaching `told` to the state without a recorder gives the one that was told it.
    rw [hattached, hy]
    rfl
  · rw [hpath, PathCondition.clauses_hearAll]
    rfl
  · rw [hpath, PathCondition.inputs_hearAll]
    rfl

end MockExplorer
