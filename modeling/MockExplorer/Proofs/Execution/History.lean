import MockExplorer.Proofs.Execution.Invariant
import MockExplorer.Proofs.Mock.Ledger

/-!
# The history of a run

A resolver may call mocks before it answers, the very method it is asked about included. The history of a
call lists what happens in it, the resolver's own calls first and its return last. Statements that create and
call mocks evolve the provider along their histories, so after each event, also within a call, the table of
bindings is the ledger of what happened until then.
-/

namespace MockExplorer

variable {σ : Type} {roster : List MockInstance} {past : List Event}
  {nested : CallState σ → MockInstance → String → List Value → CallResult σ ConcolicValue}
  {within : CallState σ → MockInstance → String → List Value → List Moment}

/-! ## Calls -/

/-- What happens until a reaction has come to its end. `nested` serves the calls that it makes, and `within` is what
happens in them. -/
def Reaction.history (nested : CallState σ → MockInstance → String → List Value → CallResult σ ConcolicValue)
    (within : CallState σ → MockInstance → String → List Value → List Moment) (roster : List MockInstance) :
    Reaction σ → Provider → List Moment
  | .answer _ _, _ => []
  | .fail _ _, _ => []
  | .call mock method args s resume, p =>
    match roster[mock]? with
    | none => (resume (.error (.outOfScope "mock")) s).history nested within roster p
    | some m =>
      within ⟨p, s⟩ m method args ++
        match nested ⟨p, s⟩ m method args with
        | (.ok v, c) => (resume (.ok v) c.resolver).history nested within roster c.provider
        | (.error (.raised e), c) => (resume (.error e) c.resolver).history nested within roster c.provider
        | (.error .crashed, _) => []

/-- What happens in a call: the resolver's reaction if the method is not bound, and the return if there is one. -/
def Resolver.serveHistory (r : Resolver σ) (roster : List MockInstance)
    (nested : CallState σ → MockInstance → String → List Value → CallResult σ ConcolicValue)
    (within : CallState σ → MockInstance → String → List Value → List Moment)
    (c : CallState σ) (m : MockInstance) (method : String) (args : List Value) : List Moment :=
  match m.dispatch method args with
  | .error _ => []
  | .ok sig =>
    (match c.provider.bindings.get? (m.key sig) with
      | some _ => []
      | none => (r.react c.resolver (m.key sig).var sig.returns).history nested within roster c.provider) ++
    (match r.serve roster nested c m method args with
      | (.ok v, c') => [⟨.returned m sig args v, c'.provider⟩]
      | (.error _, _) => [])

def Resolver.history (r : Resolver σ) (roster : List MockInstance) :
    (depth : Nat) → CallState σ → MockInstance → String → List Value → List Moment
  | 0 => r.serveHistory roster (fun c _ _ _ => (.error .crashed, c)) fun _ _ _ _ => []
  | depth + 1 => r.serveHistory roster (r.invoke roster depth) (r.history roster depth)

/-- A call on `m` evolves the provider along its history, which has the value that the call returned. -/
structure Chronicled (past : List Event) (p : Provider) (m : MockInstance) (history : List Moment)
    (out : CallResult σ ConcolicValue) : Prop where
  evolves : Provider.Evolves past p history out.2.provider
  returned : ∀ v, out.1 = .ok v → ∃ sig args, .returned m sig args v ∈ history.map (·.event)

theorem Chronicled.refused {p : Provider} {m : MockInstance} {c : CallState σ} (h : Halt) (hc : c.provider = p) :
    Chronicled past p m [] (.error h, c) :=
  ⟨hc ▸ .refl past p, fun _ hv => by cases hv⟩

def Chronicles (roster : List MockInstance)
    (call : CallState σ → MockInstance → String → List Value → CallResult σ ConcolicValue)
    (history : CallState σ → MockInstance → String → List Value → List Moment) : Prop :=
  ∀ past c m f args, .created m ∈ past → (∀ m' ∈ roster, .created m' ∈ past) →
    Chronicled past c.provider m (history c m f args) (call c m f args)

theorem Reaction.evolves_settle (hn : Chronicles roster nested within) (reaction : Reaction σ) (p : Provider)
    (hroster : ∀ m ∈ roster, .created m ∈ past) :
    Provider.Evolves past p (reaction.history nested within roster p)
      (reaction.settle nested roster p).2.provider := by
  induction reaction generalizing past p with
  | answer v s => exact .refl past p
  | fail e s => exact .refl past p
  | call mock method args s resume ih =>
      cases hmock : roster[mock]? with
      | none => simpa only [Reaction.history, Reaction.settle, hmock] using ih _ _ p hroster
      | some m =>
          simp only [Reaction.history, Reaction.settle, hmock]
          have hcall := (hn past ⟨p, s⟩ m method args (hroster m (List.mem_of_getElem? hmock)) hroster).evolves
          have hroster' : ∀ m' ∈ roster, .created m' ∈ past ++ (within ⟨p, s⟩ m method args).map (·.event) :=
            fun m' hm' => List.mem_append_left _ (hroster m' hm')
          -- After the nested call the reaction goes on, unless the stack is exhausted.
          generalize nested ⟨p, s⟩ m method args = out at hcall ⊢
          rcases out with ⟨(e | _) | v, c⟩
          · exact hcall.append (ih (.error e) c.resolver c.provider hroster')
          · simpa using hcall
          · exact hcall.append (ih (.ok v) c.resolver c.provider hroster')

theorem Resolver.chronicles_serve (r : Resolver σ) (hn : Chronicles roster nested within) :
    Chronicles roster (r.serve roster nested) (r.serveHistory roster nested within) := by
  intro past c m f args hm hroster
  cases hsig : m.dispatch f args with
  | error e => simpa only [Resolver.serveHistory, Resolver.serve, hsig] using .refused _ rfl
  | ok sig =>
      refine ⟨?_, fun v hv => ?_⟩
      · cases hb : c.provider.bindings.get? (m.key sig) with
        | some b =>
            simp only [Resolver.serveHistory, Resolver.serve, hsig, hb, Provider.replay?_eq hb, List.nil_append]
            -- A replay enters what binding any value would.
            exact (Provider.Step.returned hm hsig
              ((Provider.bind_eq_ok (v := b.value)).2 ⟨_, .again hb, rfl, rfl⟩)).evolves
        | none =>
            have hreaction :=
              (r.react c.resolver (m.key sig).var sig.returns).evolves_settle hn c.provider hroster
            simp only [Resolver.serveHistory, Resolver.serve, hsig, hb, Provider.replay?_eq_none hb]
            generalize (r.react c.resolver (m.key sig).var sig.returns).settle nested roster c.provider = out
              at hreaction ⊢
            rcases out with ⟨_ | v, c'⟩
            · simpa using hreaction
            · cases hbind : c'.provider.bind (m.key sig) sig args v with
              | error e => simpa [hbind] using hreaction
              | ok served =>
                  simp only [hbind]
                  exact hreaction.append (Provider.Step.returned (List.mem_append_left _ hm) hsig hbind).evolves
      · rcases hout : r.serve roster nested c m f args with ⟨_ | w, c'⟩ <;> rw [hout] at hv <;> cases hv
        exact ⟨sig, args, by simp [Resolver.serveHistory, hsig, hout]⟩

theorem Resolver.chronicles_invoke (r : Resolver σ) (depth : Nat) :
    Chronicles roster (r.invoke roster depth) (r.history roster depth) := by
  induction depth with
  | zero => exact r.chronicles_serve fun past c _ _ _ _ _ => .refused _ rfl
  | succ depth ih => exact r.chronicles_serve ih

def Resolver.historyOnly (r : Resolver σ) (roster : List MockInstance) (depth : Nat) (c : CallState σ)
    (m : MockInstance) (args : List Value) : List Moment :=
  match m.target.interceptable with
  | [sig] => r.history roster depth c m sig.name args
  | _ => []

def Resolver.historyView (r : Resolver σ) (roster : List MockInstance) (depth : Nat) (c : CallState σ)
    (m : MockInstance) (view : Capability) (arg : Value) : List Moment :=
  if view.admits m.target then r.history roster depth c m view.method.name (view.args arg) else []

section

variable (r : Resolver σ) (depth : Nat) (c : CallState σ) {m : MockInstance} (hm : .created m ∈ past)
  (hroster : ∀ m' ∈ roster, .created m' ∈ past)
include hm hroster

theorem Resolver.chronicled_invokeOnly (args : List Value) :
    Chronicled past c.provider m (r.historyOnly roster depth c m args) (r.invokeOnly roster depth c m args) := by
  unfold Resolver.historyOnly Resolver.invokeOnly
  rcases m.target.interceptable with _ | ⟨sig, _ | ⟨sig', rest⟩⟩
  · exact .refused _ rfl
  · exact r.chronicles_invoke depth past c m sig.name args hm hroster
  · exact .refused _ rfl

theorem Resolver.chronicled_invokeView (view : Capability) (arg : Value) :
    Chronicled past c.provider m (r.historyView roster depth c m view arg)
      (r.invokeView roster depth c m view arg) := by
  unfold Resolver.historyView Resolver.invokeView
  split
  · exact r.chronicles_invoke depth past c m _ _ hm hroster
  · exact .refused _ rfl

end

/-! ## Statements -/

def Action.UsesMocks : Action → Prop
  | .mock .. => True
  | .invoke .. => True
  | .call .. => True
  | .view .. => True
  | _ => False

def Execution.historyNamed (x : Execution σ) (mock : String) (history : MockInstance → List Moment) : List Moment :=
  match x.scope.mocks.get? mock with
  | none => []
  | some m => history m

def Action.history (r : Resolution σ) (a : Action) (x : Execution σ) : List Moment :=
  match a with
  | .mock _ target =>
    match x.provider.createMock target with
    | .error _ => []
    | .ok (m, p) => if p.nextSlot = 0 then [] else [⟨.created m, p⟩]
  | .invoke receiver method args _ =>
    x.historyNamed receiver fun m => r.resolver.history x.roster r.depth x.calls m method args
  | .call receiver args _ => x.historyNamed receiver fun m => r.resolver.historyOnly x.roster r.depth x.calls m args
  | .view receiver capability arg _ =>
    x.historyNamed receiver fun m => r.resolver.historyView x.roster r.depth x.calls m capability arg
  | _ => []

def historyEach (r : Resolution σ) : List Action → Execution σ → List Moment
  | [], _ => []
  | a :: rest, x =>
    a.history r { x with log := [] } ++
      match a.run r { x with log := [] } with
      | (_, some .crashed) => []
      | (y, _) => historyEach r rest y

namespace Execution

variable {x y : Execution σ}

structure Knows (past : List Event) (x : Execution σ) : Prop where
  mocks : ∀ {name m}, x.scope.mocks.get? name = some m → .created m ∈ past
  roster : ∀ m ∈ x.roster, .created m ∈ past

theorem Knows.later (hx : x.Knows past) (events : List Event) (hscope : y.scope.mocks = x.scope.mocks)
    (hroster : y.roster = x.roster) : y.Knows (past ++ events) where
  mocks h := List.mem_append_left _ (hx.mocks (hscope ▸ h))
  roster m hm := List.mem_append_left _ (hx.roster m (hroster ▸ hm))

theorem Knows.keepMock (hx : x.Knows past) (name : String) {m : MockInstance} :
    (x.keepMock name m).Knows (past ++ [.created m]) where
  mocks {name' m'} h := by
    rw [get?_keepMock] at h
    split at h
    · cases h
      simp
    · exact List.mem_append_left _ (hx.mocks h)
  roster m' hm' := by
    have hroster : (x.keepMock name m).roster = if x.silent then x.roster else x.roster ++ [m] := rfl
    rw [hroster] at hm'
    split at hm'
    · exact List.mem_append_left _ (hx.roster m' hm')
    · rcases List.mem_append.1 hm' with hold | hnew
      · exact List.mem_append_left _ (hx.roster m' hold)
      · simp [List.mem_singleton.1 hnew]

/-- The execution went on from `x` to `y` along a history: the mocks at hand were handed out, and values that were
kept on the way were returned. -/
structure Records (past : List Event) (x : Execution σ) (history : List Moment) (y : Execution σ) : Prop where
  evolves : Provider.Evolves past x.provider history y.provider
  knows : y.Knows (past ++ history.map (·.event))
  kept : ∀ v, .kept v ∈ y.log → .kept v ∈ x.log ∨ ∃ m sig args, .returned m sig args v ∈ history.map (·.event)

theorem Records.refl (hx : x.Knows past) : x.Records past [] x :=
  ⟨.refl past _, hx.later [] rfl rfl, fun _ => .inl⟩

theorem kept_mem_write {e : LogEntry} {v : ConcolicValue} (h : .kept v ∈ (x.write e).log) :
    .kept v ∈ x.log ∨ e = .kept v := by
  unfold write at h
  split at h
  · exact .inl h
  · rcases List.mem_cons.1 h with h | h
    · exact .inr h.symm
    · exact .inl h

theorem Knows.callNamed (hx : x.Knows past) (mock : String)
    {call : CallState σ → MockInstance → CallResult σ ConcolicValue} {history : MockInstance → List Moment}
    (name : String)
    (hcall : ∀ m, .created m ∈ past → Chronicled past x.provider m (history m) (call x.calls m)) :
    x.Records past (x.historyNamed mock history) (x.callNamed mock call name).1 := by
  unfold Execution.historyNamed Execution.callNamed
  cases hm : x.scope.mocks.get? mock with
  | none => exact .refl hx
  | some m =>
      obtain ⟨hevolves, hreturned⟩ := hcall m (hx.mocks hm)
      simp only
      generalize call x.calls m = out at hevolves hreturned ⊢
      rcases out with ⟨_ | v, c⟩
      · exact ⟨hevolves, hx.later _ rfl rfl, fun _ => .inl⟩
      · refine ⟨?_, ?_, fun w hw => ?_⟩
        · rw [write_provider]
          exact hevolves
        · exact hx.later _ (by rw [write_scope]; rfl) (by rw [write_roster]; rfl)
        · rcases kept_mem_write hw with hw | hw
          · exact .inl hw
          · cases hw
            obtain ⟨sig, args, hmem⟩ := hreturned v rfl
            exact .inr ⟨m, sig, args, hmem⟩

end Execution

theorem Action.records (r : Resolution σ) {a : Action} (ha : a.UsesMocks) {x : Execution σ} (hx : x.Knows past) :
    x.Records past (a.history r x) (a.run r x).1 := by
  cases a with
  | mock name target =>
      simp only [Action.history, Action.run]
      cases hcreate : x.provider.createMock target with
      | error e => exact .refl hx
      | ok created =>
          obtain ⟨m, p⟩ := created
          by_cases hslot : p.nextSlot = 0
          · simpa only [hslot, ↓reduceIte] using .refl hx
          · simp only [hslot, ↓reduceIte]
            have hwith : (x.withProvider p).Knows past := ⟨hx.mocks, hx.roster⟩
            refine ⟨?_, ?_, fun v hv => ?_⟩
            · rw [Execution.write_provider]
              exact (Provider.Step.created hcreate hslot).evolves
            · have hkept := hwith.keepMock name (m := m)
              simpa using hkept.later [] (by rw [Execution.write_scope]) (by rw [Execution.write_roster])
            · rcases Execution.kept_mem_write hv with hv | hv
              · exact .inl hv
              · cases hv
  | invoke receiver method args name =>
      exact hx.callNamed receiver name fun m hm =>
        r.resolver.chronicles_invoke r.depth past x.calls m method args hm hx.roster
  | call receiver args name =>
      exact hx.callNamed receiver name fun m hm => r.resolver.chronicled_invokeOnly r.depth x.calls hm hx.roster args
  | view receiver capability arg name =>
      exact hx.callNamed receiver name fun m hm =>
        r.resolver.chronicled_invokeView r.depth x.calls hm hx.roster capability arg
  | _ => exact ha.elim

/-! ## Sequences of statements -/

/-- The provider goes on along the history, and the values in the logs were returned on the way. -/
structure Documented (past : List Event) (p : Provider) (history : List Moment) (logs : List (List LogEntry))
    (q : Provider) : Prop where
  evolves : Provider.Evolves past p history q
  kept : ∀ log ∈ logs, ∀ v, .kept v ∈ log → ∃ m sig args, .returned m sig args v ∈ history.map (·.event)

theorem Documented.cons {p q q' : Provider} {first history : List Moment} {log : List LogEntry}
    {logs : List (List LogEntry)} (h : Provider.Evolves past p first q)
    (hkept : ∀ v, .kept v ∈ log → ∃ m sig args, .returned m sig args v ∈ first.map (·.event))
    (rest : Documented (past ++ first.map (·.event)) q history logs q') :
    Documented past p (first ++ history) (log :: logs) q' where
  evolves := h.append rest.evolves
  kept log' hlog' v hv := by
    rw [List.map_append]
    rcases List.mem_cons.1 hlog' with rfl | hlog'
    · obtain ⟨m, sig, args, hmem⟩ := hkept v hv
      exact ⟨m, sig, args, List.mem_append_left _ hmem⟩
    · obtain ⟨m, sig, args, hmem⟩ := rest.kept log' hlog' v hv
      exact ⟨m, sig, args, List.mem_append_right _ hmem⟩

theorem documented_runEach (r : Resolution σ) {as : List Action} (has : ∀ a ∈ as, a.UsesMocks) {x : Execution σ}
    (hx : x.Knows past) :
    Documented past x.provider (historyEach r as x) (runEach r (as.map .act) x).1
      (runEach r (as.map .act) x).2.provider := by
  induction as generalizing past x with
  | nil => exact ⟨.refl past _, fun log hlog => by (cases hlog)⟩
  | cons a rest ih =>
      have hcleared : Execution.Knows past { x with log := [] } := ⟨hx.mocks, hx.roster⟩
      obtain ⟨hevolves, hknows, hkept⟩ := a.records r (has a List.mem_cons_self) hcleared
      simp only [List.map_cons, runEach, historyEach, Body.run]
      generalize a.history r { x with log := [] } = history at hevolves hknows hkept ⊢
      generalize a.run r { x with log := [] } = out at hevolves hknows hkept ⊢
      obtain ⟨y, halt⟩ := out
      have hhere : ∀ v, .kept v ∈ y.log → ∃ m sig args, .returned m sig args v ∈ history.map (·.event) :=
        fun v hv => (hkept v hv).resolve_left (by simp)
      have hrest := ih (fun a ha => has a (List.mem_cons_of_mem _ ha)) hknows
      -- An error is logged and the run goes on; only an exhausted stack ends it.
      rcases halt with _ | ⟨e⟩ | _
      · exact .cons hevolves (fun v hv => hhere v (List.mem_reverse.1 hv)) hrest
      · exact .cons hevolves (fun v hv => hhere v (by simpa using hv)) hrest
      · exact .cons hevolves (fun v hv => hhere v (List.mem_reverse.1 hv))
          ⟨.refl _ _, fun log hlog => by (cases hlog)⟩

/-- Whatever the resolver does, and wherever the run is stopped, within a call or between calls: the table of
bindings is the ledger of the events until then, no entry ever changes but in its count of calls, and the
values that statements kept are among those that were returned. -/
theorem runEach_ledger (r : Resolution σ) (config : MockConfig) (id : UInt64) (assumptions : List Predicate)
    (state : σ) {as : List Action} (has : ∀ a ∈ as, a.UsesMocks) :
    let x := Execution.start config id assumptions state
    let events (history : List Moment) := history.map Moment.event
    x.provider.after (historyEach r as x) = (runEach r (as.map .act) x).2.provider ∧
      (∀ log ∈ (runEach r (as.map .act) x).1, ∀ v, .kept v ∈ log →
        ∃ m sig args, .returned m sig args v ∈ events (historyEach r as x)) ∧
      ∀ before later, historyEach r as x = before ++ later →
        (x.provider.after before).Ledger assumptions (events before) ∧
          ∀ moment ∈ later, (x.provider.after before).Retains moment.provider := by
  intro x events
  have hknows : x.Knows [] := ⟨fun h => by (cases h), fun m hm => by (cases hm)⟩
  obtain ⟨hevolves, hkept⟩ := documented_runEach r has hknows
  refine ⟨hevolves.after, hkept, fun before later hsplit => ?_⟩
  rw [hsplit] at hevolves
  obtain ⟨hbefore, hlater⟩ := hevolves.split
  exact ⟨hbefore.ledger (.start config assumptions), fun moment hmem => hlater.retains hmem⟩

/-- A resolver that calls the method it is asked about: the inner call binds 7, and the answer 4 comes too late. -/
theorem runEach_ledger_reentrant :
    let k : BindingKey := ⟨⟨0⟩, "apply"⟩
    let script : Script := ⟨(∅ : SortedMap SymVar (List ScriptAction)).insert k.var
      [.invoke 0 "apply" [.long 9] (some (.long 4)), .value (.long 7)]⟩
    let r : Resolution Script := { resolver := .script, depth := 2 }
    let as : List Action := [.mock "f" Capability.function.descriptor, .invoke "f" "apply" [.null] "v",
      .view "f" .function (.int 3) "w"]
    let x := Execution.start {} 0 [⟨k.var, .long, .eq, 7⟩] script
    (∀ a ∈ as, a.UsesMocks) ∧
      (runEach r (as.map .act) x).2.provider.bindings.get? k = some ⟨k.var, .long 7, [.long 9], 3⟩ ∧
      (runEach r (as.map .act) x).2.provider.Ledger [⟨k.var, .long, .eq, 7⟩]
        ((historyEach r as x).map Moment.event) := by
  intro k script r as x
  have has : ∀ a ∈ as, a.UsesMocks := by simp [as, Action.UsesMocks]
  obtain ⟨hafter, _, hledger⟩ := runEach_ledger r {} 0 [⟨k.var, .long, .eq, 7⟩] script has
  refine ⟨has, by decide +kernel, ?_⟩
  rw [← hafter]
  exact (hledger _ [] (List.append_nil _).symm).1

end MockExplorer
