import MockExplorer.Mock.Provider
import MockExplorer.Mock.Resolver

/-!
# Calls on mocks

A call on a mock looks up the method, checks the number of arguments, and is served from the table of
bindings or by asking the resolver. The resolver may itself call mocks; such calls nest, up to a depth.
-/

namespace MockExplorer

/-- Why a run stopped early. -/
inductive Halt where
  | raised (e : MockError)
  | crashed
deriving DecidableEq, Inhabited

/-- The provider together with the state of its resolver. -/
structure CallState (σ : Type) where
  provider : Provider
  resolver : σ

/-- A result or an early stop, and the state that is left in either case. -/
abbrev CallResult (σ α : Type) := Except Halt α × CallState σ

variable {σ : Type}

/-- Runs a reaction to its end. `nested` serves the calls it makes on the mocks in `roster`. -/
def Reaction.settle
    (nested : CallState σ → MockInstance → String → List Value → CallResult σ ConcolicValue)
    (roster : List MockInstance) : Reaction σ → Provider → CallResult σ Value
  | .answer v s, p => (.ok v, ⟨p, s⟩)
  | .fail e s, p => (.error (.raised e), ⟨p, s⟩)
  | .call mock method args s resume, p =>
    match roster[mock]? with
    | none => (resume (.error (.outOfScope "mock")) s).settle nested roster p
    | some m =>
      match nested ⟨p, s⟩ m method args with
      | (.ok v, c) => (resume (.ok v) c.resolver).settle nested roster c.provider
      | (.error (.raised e), c) => (resume (.error e) c.resolver).settle nested roster c.provider
      | (.error .crashed, c) => (.error .crashed, c)

/-- The method that a call on the mock goes to. -/
def MockInstance.dispatch (m : MockInstance) (method : String) (args : List Value) :
    Except MockError MethodSig :=
  match m.target.method? method with
  | none => .error (.unknownMethod m.target.name method)
  | some sig =>
    if sig.params.length ≠ args.length then .error (.arity method sig.params.length args.length)
    else .ok sig

/-- The key under which the return value of a method of the mock is bound. -/
def MockInstance.key (m : MockInstance) (sig : MethodSig) : BindingKey := ⟨m.id, sig.name⟩

/-- Serves a call whose nested calls are served by `nested`. -/
def Resolver.serve (r : Resolver σ) (roster : List MockInstance)
    (nested : CallState σ → MockInstance → String → List Value → CallResult σ ConcolicValue)
    (c : CallState σ) (m : MockInstance) (method : String) (args : List Value) :
    CallResult σ ConcolicValue :=
  match m.dispatch method args with
  | .error e => (.error (.raised e), c)
  | .ok sig =>
    let k := m.key sig
    match c.provider.replay? k sig with
    | some (v, p) => (.ok v, { c with provider := p })
    | none =>
      match (r.react c.resolver k.var sig.returns).settle nested roster c.provider with
      | (.error h, c) => (.error h, c)
      | (.ok v, c) =>
        match c.provider.bind k sig args v with
        | .error e => (.error (.raised e), c)
        | .ok (v, p) => (.ok v, { c with provider := p })

/-- Calls a method of a mock. Calls that the resolver makes nest at most `depth` deep; a resolver that
goes deeper exhausts the stack. -/
def Resolver.invoke (r : Resolver σ) (roster : List MockInstance) :
    (depth : Nat) → CallState σ → MockInstance → String → List Value → CallResult σ ConcolicValue
  | 0 => r.serve roster fun c _ _ _ => (.error .crashed, c)
  | depth + 1 => r.serve roster (r.invoke roster depth)

/-- Calls the only interceptable method of a mock. -/
def Resolver.invokeOnly (r : Resolver σ) (roster : List MockInstance) (depth : Nat) (c : CallState σ)
    (m : MockInstance) (args : List Value) : CallResult σ ConcolicValue :=
  match m.target.interceptable with
  | [sig] => r.invoke roster depth c m sig.name args
  | _ => (.error (.raised (.unknownMethod m.target.name "<single abstract method>")), c)

/-! ## Typed views -/

/-- A well-known interface with one method. -/
inductive Capability where
  | intSupplier
  | supplier
  | function
deriving DecidableEq, Repr, Inhabited

namespace Capability

def interfaceName : Capability → String
  | .intSupplier => "IntSupplier"
  | .supplier => "Supplier"
  | .function => "Function"

def method : Capability → MethodSig
  | .intSupplier => { name := "getAsInt", returns := .int }
  | .supplier => { name := "get", returns := .boxedInt }
  | .function => { name := "apply", params := [.object], returns := .long }

/-- The arguments of a call through the view; only a function takes one. -/
def args (c : Capability) (arg : Value) : List Value :=
  match c with
  | .function => [arg]
  | _ => []

/-- The bare interface. -/
def descriptor (c : Capability) : MockTarget :=
  { name := c.interfaceName, kind := .interface, methods := [c.method] }

/-- Whether the target has the view's method at the same types. -/
def admits (c : Capability) (t : MockTarget) : Bool :=
  match t.method? c.method.name with
  | some sig => sig.returns = c.method.returns && sig.params = c.method.params
  | none => false

end Capability

/-- Calls a mock through a typed view. -/
def Resolver.invokeView (r : Resolver σ) (roster : List MockInstance) (depth : Nat) (c : CallState σ)
    (m : MockInstance) (view : Capability) (arg : Value) : CallResult σ ConcolicValue :=
  if view.admits m.target then r.invoke roster depth c m view.method.name (view.args arg)
  else (.error (.raised (.unknownMethod m.target.name view.method.text)), c)

end MockExplorer
