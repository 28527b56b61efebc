import MockExplorer.Form.Settings
import MockExplorer.Settings
import MockExplorer.Yaml.Block

/-!
# Settings as YAML

Settings are a mapping of mappings. Every field may be left out, an empty section has its defaults, and
unknown fields are ignored, but a known field stands at most once. What counts as a mapping, a number or a
truth value is up to the library.
-/

namespace MockExplorer.Yaml

/-! ## Writing -/

def Word.ofMode (m : MockingMode) : Word where
  text := m.key
  ne_nil := by cases m <;> decide
  all_isWordChar := by cases m <;> decide
  length_le := by cases m <;> decide

def mockSection (c : MockConfig) : Section where
  name := { text := "mock" }
  first := ({ text := "enabled" }, .bool c.enabled)
  more := [
    ({ text := "mode" }, .word (.ofMode c.mode)),
    ({ text := "call_site_rewrite" }, .bool c.callSiteRedirect)]

def campaignSection (c : CampaignConfig) : Section where
  name := { text := "campaign" }
  first := ({ text := "max_executions" }, .number c.maxExecutions)
  more := [
    ({ text := "workers" }, .number c.workers),
    ({ text := "batch_size" }, .number c.batchSize),
    ({ text := "stop_when_complete" }, .bool c.stopWhenComplete)]

def sectionsOf (c : Config) : List Section := [mockSection c.mock, campaignSection c.campaign]

/-! ## Reading -/

/-- A field that may be left out and stands at most once. -/
def field? {δ α : Type} (name : String) (default : α) (read? : δ → Option α) (entries : List (String × δ)) :
    Option α :=
  match entries.filter fun e => e.1 = name with
  | [] => some default
  | [e] => read? e.2
  | _ => none

namespace Library

variable (yaml : Library)

def mode? (d : yaml.Document) : Option MockingMode :=
  (yaml.name? d).bind fun text => MockingMode.names.lookup text

def mockConfig? (d : yaml.Document) : Option MockConfig := do
  let es ← yaml.entries? d
  return {
    enabled := ← field? "enabled" true yaml.bool? es
    mode := ← field? "mode" .full yaml.mode? es
    callSiteRedirect := ← field? "call_site_rewrite" true yaml.bool? es }

def campaignConfig? (d : yaml.Document) : Option CampaignConfig := do
  let es ← yaml.entries? d
  return {
    maxExecutions := ← field? "max_executions" 64 yaml.number? es
    workers := ← field? "workers" 1 yaml.number? es
    batchSize := ← field? "batch_size" 4 yaml.number? es
    stopWhenComplete := ← field? "stop_when_complete" true yaml.bool? es }

def config? (d : yaml.Document) : Option Config := do
  let es ← yaml.entries? d
  return {
    mock := ← field? "mock" {} yaml.mockConfig? es
    campaign := ← field? "campaign" {} yaml.campaignConfig? es }

/-! ## Texts -/

/-- The settings of a text, which have to be usable. -/
def loadConfig (text : String) : Except MockError Config :=
  match (yaml.document? text).bind yaml.config? with
  | none => .error .yaml
  | some c => c.validate.map fun _ => c

/-- The text of the settings, with every field. -/
def saveConfig (c : Config) : Except MockError String :=
  match yaml.write? (sectionsOf c) with
  | none => .error .yaml
  | some text => .ok text

end Library

end MockExplorer.Yaml

namespace MockExplorer

/-- The settings of a text, read with the library of nodes. -/
def Config.ofYaml (text : String) : Except MockError Config := Yaml.nodes.loadConfig text

/-- The settings in block style, as the library of nodes writes them. -/
def Config.toYaml (c : Config) : String := Yaml.blockText (Yaml.sectionsOf c)

end MockExplorer
