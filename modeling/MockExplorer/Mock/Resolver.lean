import MockExplorer.Error
import MockExplorer.Symbolic.Model
import MockExplorer.Symbolic.Predicate

/-!
# Resolvers

A resolver supplies the concrete value of a fresh symbolic input. It may keep a state of its own and may
call mocks of the same execution before it answers, so what it does is described as a reaction: answer,
fail, or call a mock and go on with the result.
-/

namespace MockExplorer

/-- What a resolver with state `σ` does when it is asked. Mocks are counted in order of creation. -/
inductive Reaction (σ : Type) where
  | answer (v : Value) (state : σ)
  | fail (e : MockError) (state : σ)
  | call (mock : Nat) (method : String) (args : List Value) (state : σ)
      (resume : Except MockError ConcolicValue → σ → Reaction σ)

/-- Reacts to a question for the value of an input of a type. -/
structure Resolver (σ : Type) where
  react : σ → SymVar → ValueType → Reaction σ

/-- A reaction that calls no mock. -/
inductive Reaction.Direct {σ : Type} : Reaction σ → Prop where
  | answer (v : Value) (state : σ) : Direct (.answer v state)
  | fail (e : MockError) (state : σ) : Direct (.fail e state)

/-- The resolver never calls a mock. -/
def Resolver.Direct {σ : Type} (r : Resolver σ) : Prop := ∀ s var ty, (r.react s var ty).Direct

/-- Answers from a model. -/
def Resolver.ofModel (m : Model) : Resolver Unit where
  react _ var ty := .answer (m.resolve var ty) ()

theorem Resolver.direct_ofModel (m : Model) : (Resolver.ofModel m).Direct :=
  fun _ _ _ => .answer _ _

/-! ## Scripts -/

/-- One line of a script. -/
inductive ScriptAction where
  | value (v : Value)
  | useDefault
  | fail (e : MockError)
  /-- Calls a mock, passes on its error, and answers `value`, or what the call returned. -/
  | invoke (mock : Nat) (method : String) (args : List Value) (value : Option Value)
deriving DecidableEq, Inhabited

/-- The actions still to come for each input. The last action of an input repeats. -/
structure Script where
  pending : SortedMap SymVar (List ScriptAction) := ∅
deriving DecidableEq, Inhabited

namespace Script

/-- The next action for an input, and the script after it. -/
def next? (s : Script) (var : SymVar) : Option (ScriptAction × Script) :=
  match s.pending.get? var with
  | none | some [] => none
  | some [last] => some (last, s)
  | some (a :: rest) => some (a, ⟨s.pending.insert var rest⟩)

/-- Answers with the result of a call, or with its error. -/
def passOn (value : Option Value) : Except MockError ConcolicValue → Script → Reaction Script
  | .error e, s => .fail e s
  | .ok got, s => .answer (value.getD got.value) s

def react (s : Script) (var : SymVar) (ty : ValueType) : Reaction Script :=
  match s.next? var with
  | none => .answer ty.default s
  | some (.value v, s) => .answer v s
  | some (.useDefault, s) => .answer ty.default s
  | some (.fail e, s) => .fail e s
  | some (.invoke mock method args value, s) => .call mock method args s (passOn value)

/-- A bound on how deep the calls of a script that comes to an end can nest. Between two actions that
are used up, no input can repeat its last action twice, or the calls would never end. -/
def nesting (s : Script) : Nat :=
  (s.pending.values.foldl (fun n actions => n + actions.length) 1) * (s.pending.size + 1)

end Script

/-- Answers by the lines of a script. -/
def Resolver.script : Resolver Script := ⟨Script.react⟩

end MockExplorer
