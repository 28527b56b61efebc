import Mathlib.Data.List.Forall2
import MockExplorer.Yaml.Settings

/-!
# Libraries that read back what they write

All that settings ask of a YAML library: sections of truth values, numbers and words are shown again by the
document of the text that was written for them. With such a library every field of the settings is found
under its name.
-/

namespace MockExplorer.Yaml

/-! ## Reading back -/

/-- The entry of a mapping has the name of the item for its key, and its value shows the item. -/
structure EntryFor {δ α : Type} (name : α → Word) (Shows : δ → α → Prop) (e : String × δ) (item : α) : Prop where
  key : e.1 = (name item).text
  value : Shows e.2 item

namespace Library

variable (yaml : Library)

/-- The document is a mapping with one entry for each item, in order. -/
def ShowsEach {α : Type} (name : α → Word) (Shows : yaml.Document → α → Prop) (d : yaml.Document)
    (items : List α) : Prop :=
  ∃ entries, yaml.entries? d = some entries ∧ List.Forall₂ (EntryFor name Shows) entries items

def ShowsAtom (d : yaml.Document) : Atom → Prop
  | .bool b => yaml.bool? d = some b
  | .number n => yaml.number? d = some n
  | .word w => yaml.name? d = some w.text

def ShowsSection (d : yaml.Document) (s : Section) : Prop :=
  yaml.ShowsEach Prod.fst (fun d e => yaml.ShowsAtom d e.2) d s.entries

/-- The library writes any sections, and takes the text for a document that shows them. -/
def ReadsBack : Prop :=
  ∀ s ss, ∃ text d, yaml.write? (s :: ss) = some text ∧ yaml.document? text = some d ∧
    yaml.ShowsEach Section.name yaml.ShowsSection d (s :: ss)

end Library

/-! ## Settings -/

/-- A field is read from the only item of its name. -/
theorem field?_of_forall₂ {δ α β : Type} {name : α → Word} {Shows : δ → α → Prop} {entries : List (String × δ)}
    {items : List α} (h : List.Forall₂ (EntryFor name Shows) entries items)
    {key : String} {item : α} (hitem : (items.filter fun i => (name i).text = key) = [item]) {default v : β}
    {read? : δ → Option β} (hread : ∀ d, Shows d item → read? d = some v) :
    field? key default read? entries = some v := by
  have hfiltered : List.Forall₂ (EntryFor name Shows) (entries.filter fun e => e.1 = key)
      (items.filter fun i => (name i).text = key) := by
    refine List.rel_filter (fun e i he => ?_) h
    simp [he.key]
  rw [hitem] at hfiltered
  obtain ⟨e, _, he, hnil, hentries⟩ := List.forall₂_cons_right_iff.1 hfiltered
  rw [List.forall₂_nil_right_iff.1 hnil] at hentries
  rw [field?, hentries]
  exact hread e.2 he.value

namespace Library

variable {yaml : Library} {d : yaml.Document}

theorem bool?_of_showsAtom {b : Bool} (h : yaml.ShowsAtom d (.bool b)) : yaml.bool? d = some b := h

theorem number?_of_showsAtom {n : UInt64} (h : yaml.ShowsAtom d (.number n)) : yaml.number? d = some n := h

theorem mode?_of_showsAtom {m : MockingMode} (h : yaml.ShowsAtom d (.word (.ofMode m))) : yaml.mode? d = some m := by
  have hname : yaml.name? d = some m.key := h
  rw [mode?, hname]
  cases m with
  | basic => rfl
  | full => rfl

theorem mockConfig?_of_showsSection {c : MockConfig} (h : yaml.ShowsSection d (mockSection c)) :
    yaml.mockConfig? d = some c := by
  obtain ⟨entries, hentries, hfields⟩ := h
  have henabled : field? "enabled" true yaml.bool? entries = some c.enabled :=
    field?_of_forall₂ hfields rfl fun _ h => bool?_of_showsAtom h
  have hmode : field? "mode" .full yaml.mode? entries = some c.mode :=
    field?_of_forall₂ hfields rfl fun _ h => mode?_of_showsAtom h
  have hredirect : field? "call_site_rewrite" true yaml.bool? entries = some c.callSiteRedirect :=
    field?_of_forall₂ hfields rfl fun _ h => bool?_of_showsAtom h
  simp [mockConfig?, hentries, henabled, hmode, hredirect]

theorem campaignConfig?_of_showsSection {c : CampaignConfig} (h : yaml.ShowsSection d (campaignSection c)) :
    yaml.campaignConfig? d = some c := by
  obtain ⟨entries, hentries, hfields⟩ := h
  have hmax : field? "max_executions" 64 yaml.number? entries = some c.maxExecutions :=
    field?_of_forall₂ hfields rfl fun _ h => number?_of_showsAtom h
  have hworkers : field? "workers" 1 yaml.number? entries = some c.workers :=
    field?_of_forall₂ hfields rfl fun _ h => number?_of_showsAtom h
  have hbatch : field? "batch_size" 4 yaml.number? entries = some c.batchSize :=
    field?_of_forall₂ hfields rfl fun _ h => number?_of_showsAtom h
  have hstop : field? "stop_when_complete" true yaml.bool? entries = some c.stopWhenComplete :=
    field?_of_forall₂ hfields rfl fun _ h => bool?_of_showsAtom h
  simp [campaignConfig?, hentries, hmax, hworkers, hbatch, hstop]

theorem config?_of_showsEach {c : Config} (h : yaml.ShowsEach Section.name yaml.ShowsSection d (sectionsOf c)) :
    yaml.config? d = some c := by
  obtain ⟨entries, hentries, hsections⟩ := h
  have hmock : field? "mock" {} yaml.mockConfig? entries = some c.mock :=
    field?_of_forall₂ hsections rfl fun _ h => mockConfig?_of_showsSection h
  have hcampaign : field? "campaign" {} yaml.campaignConfig? entries = some c.campaign :=
    field?_of_forall₂ hsections rfl fun _ h => campaignConfig?_of_showsSection h
  simp [config?, hentries, hmock, hcampaign]

/-- Settings are in the text that is written for them, usable or not. -/
theorem ReadsBack.config? (h : yaml.ReadsBack) (c : Config) :
    ∃ text, yaml.saveConfig c = .ok text ∧ (yaml.document? text).bind yaml.config? = some c := by
  obtain ⟨text, d, hwrite, hdocument, hshows⟩ := h (mockSection c.mock) [campaignSection c.campaign]
  refine ⟨text, ?_, ?_⟩
  · rw [saveConfig, sectionsOf, hwrite]
  · rw [hdocument, Option.bind_some]
    exact config?_of_showsEach hshows

end Library

end MockExplorer.Yaml
