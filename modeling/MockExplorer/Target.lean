import MockExplorer.Settings
import MockExplorer.Value

/-!
# Mock targets

A target describes a type: its kind and its methods. The kind and the interceptable methods decide by
which mechanism calls on a mock of it are redirected, and the mocking policy may refuse that mechanism.
-/

namespace MockExplorer

structure Modifiers where
  isFinal : Bool := false
  isStatic : Bool := false
  isPrivate : Bool := false
deriving DecidableEq, Repr, Inhabited

/-- A declared method. -/
structure MethodSig where
  name : String
  params : List ValueType := []
  returns : ValueType
  modifiers : Modifiers := {}
deriving DecidableEq, Repr, Inhabited

namespace MethodSig

/-- Whether calls can be redirected: they need a receiver that sees them and a result that matters. -/
def isInterceptable (m : MethodSig) : Bool :=
  !m.modifiers.isPrivate && !m.modifiers.isStatic && m.returns.isResolvable

def text (m : MethodSig) : String :=
  (if m.modifiers.isFinal then "final " else "") ++ m.returns.text ++ " " ++ m.name ++ "("
    ++ ", ".intercalate (m.params.map ValueType.text) ++ ")"

end MethodSig

inductive TypeKind where
  | classType (isFinal isAbstract : Bool)
  | interface
  | primitive
  | array
deriving DecidableEq, Repr, Inhabited

namespace TypeKind

/-- Marks a class final; other kinds have no such mark. -/
def markFinal : TypeKind → TypeKind
  | .classType _ isAbstract => .classType true isAbstract
  | k => k

/-- Marks a class abstract; other kinds have no such mark. -/
def markAbstract : TypeKind → TypeKind
  | .classType isFinal _ => .classType isFinal true
  | k => k

end TypeKind

/-- How calls on a mock are redirected. -/
inductive Interception where
  /-- A proxy implements the interface. -/
  | proxy
  /-- A generated subtype overrides every interceptable method. -/
  | subclass
  /-- The callers are redirected, which also reaches final classes and methods. -/
  | callSite
deriving DecidableEq, Repr, Inhabited

def Interception.text : Interception → String
  | .proxy => "proxy"
  | .subclass => "subclass"
  | .callSite => "call-site"

/-- Why a target cannot be mocked. -/
inductive Obstacle where
  | disabled
  | noCallBoundary
  | noInterceptableMethod
  | instantiable
  | redirectDisabled
deriving DecidableEq, Repr, Inhabited

def Obstacle.text : Obstacle → String
  | .disabled => "mocking is disabled"
  | .noCallBoundary => "sealed type without a method call boundary"
  | .noInterceptableMethod => "no non-private instance method with a resolvable return type"
  | .instantiable => "type is instantiable and mocking mode is basic"
  | .redirectDisabled => "final type or method requires call-site rewriting, which is disabled"

/-- A type that may be mocked. -/
structure MockTarget where
  name : String
  kind : TypeKind
  methods : List MethodSig := []
deriving DecidableEq, Repr, Inhabited

namespace MockTarget

def interceptable (t : MockTarget) : List MethodSig := t.methods.filter (·.isInterceptable)

/-- The first interceptable method of that name. -/
def method? (t : MockTarget) (name : String) : Option MethodSig :=
  t.interceptable.find? (·.name = name)

/-- Whether the target is an interface with exactly one interceptable method. -/
def isFunctional (t : MockTarget) : Bool := t.kind = .interface && t.interceptable.length = 1

/-- Whether the real type could be constructed instead. -/
def isInstantiable (t : MockTarget) : Bool :=
  match t.kind with
  | .classType _ false => true
  | _ => false

/-- The mechanism that the type admits under any policy. -/
def mechanism (t : MockTarget) : Except Obstacle Interception :=
  match t.kind with
  | .primitive | .array => .error .noCallBoundary
  | .interface => if t.interceptable.isEmpty then .error .noInterceptableMethod else .ok .proxy
  | .classType isFinal _ =>
    if t.interceptable.isEmpty then .error .noInterceptableMethod
    else if isFinal || t.interceptable.any (·.modifiers.isFinal) then .ok .callSite
    else .ok .subclass

/-- The mechanism under the policy, or what stands in its way. -/
def mechanismUnder (t : MockTarget) (config : MockConfig) : Except Obstacle Interception :=
  if config.enabled = false then .error .disabled
  else
    match t.mechanism with
    | .error o => .error o
    | .ok how =>
      if config.mode = .basic && t.isInstantiable then .error .instantiable
      else if how = .callSite && !config.callSiteRedirect then .error .redirectDisabled
      else .ok how

/-- The obstacle as an error that names the type. -/
def refuse (t : MockTarget) (o : Obstacle) : MockError := .unmockable t.name o.text

def interception (t : MockTarget) : Except MockError Interception := t.mechanism.mapError t.refuse

def classify (t : MockTarget) (config : MockConfig) : Except MockError Interception :=
  (t.mechanismUnder config).mapError t.refuse

end MockTarget

end MockExplorer
