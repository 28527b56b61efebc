/-!
# Errors

What can go wrong while mocking or exploring, how each error reads, and how far it reaches. Only an
inconsistent resolution is fatal: it says that the interception itself cannot be trusted.
-/

namespace MockExplorer

/-- How far an error reaches through a campaign. -/
inductive Severity where
  | caseLocal
  | fatal
deriving DecidableEq, Repr, Inhabited

/-- What can go wrong while mocking or exploring. -/
inductive MockError where
  /-- The type has no interception point. -/
  | unmockable (typeName reason : String)
  /-- A resolved value contradicts its type or the path it was resolved for. -/
  | inconsistent (variableName message : String)
  | unknownMethod (typeName method : String)
  | arity (method : String) (expected actual : Nat)
  | crashed (testName : String)
  | config (message : String)
  | io (message : String)
  | yaml
  | json
deriving DecidableEq, Repr, Inhabited

namespace MockError

def text : MockError → String
  | .unmockable typeName reason => "Cannot mock " ++ typeName ++ ": " ++ reason
  | .inconsistent variableName message =>
    "Resolution of " ++ variableName ++ " is inconsistent: " ++ message
  | .unknownMethod typeName method => typeName ++ " has no interceptable method `" ++ method ++ "`"
  | .arity method expected actual =>
    "`" ++ method ++ "` expects " ++ toString expected ++ " argument(s), got " ++ toString actual
  | .crashed testName => "Test case " ++ testName ++ " panicked"
  | .config message => "Configuration error: " ++ message
  | .io message => "I/O error: " ++ message
  | .yaml => "YAML error"
  | .json => "JSON error"

/-- The error of a test body that names a mock or a value which is not in scope. Test bodies are a small
language of this library, and only there can a name be out of scope. -/
def outOfScope (missing : String) : MockError := .config ("driver: no " ++ missing)

def severity : MockError → Severity
  | .inconsistent .. => .fatal
  | _ => .caseLocal

def isUnmockable : MockError → Bool
  | .unmockable .. => true
  | _ => false

end MockError

end MockExplorer
