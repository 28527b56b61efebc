import MockExplorer.Proofs.Yaml.Document

/-!
# Settings in YAML

With any library that reads back what it writes, settings are loaded as they were saved. Loading what was saved
fails only where the settings themselves are unusable.
-/

namespace MockExplorer

namespace Config

/-- Settings with which a campaign can run. -/
def Usable (c : Config) : Prop := 0 < c.campaign.maxExecutions ∧ 0 < c.campaign.batchSize

theorem validate_ok_iff {c : Config} : c.validate = .ok () ↔ c.Usable := by
  simp only [validate, Usable, UInt64.pos_iff_ne_zero]
  split
  · simp_all
  · split
    · simp_all
    · simp_all

theorem validate_error {c : Config} (h : ¬ c.Usable) : ∃ message, c.validate = .error (.config message) := by
  simp only [validate]
  split
  · exact ⟨_, rfl⟩
  · rename_i hmax
    split
    · exact ⟨_, rfl⟩
    · rename_i hbatch
      exact absurd ⟨UInt64.pos_iff_ne_zero.mpr hmax, UInt64.pos_iff_ne_zero.mpr hbatch⟩ h

end Config

namespace Yaml.Library

variable {yaml : Library} {text : String} {c : Config}

theorem loadConfig_eq (h : (yaml.document? text).bind yaml.config? = some c) :
    yaml.loadConfig text = c.validate.map fun _ => c := by
  rw [loadConfig, h]

theorem loadConfig_ok (h : (yaml.document? text).bind yaml.config? = some c) (hc : c.Usable) :
    yaml.loadConfig text = .ok c := by
  rw [loadConfig_eq h, Config.validate_ok_iff.mpr hc]
  rfl

theorem usable_of_loadConfig (h : yaml.loadConfig text = .ok c) : c.Usable := by
  unfold loadConfig at h
  split at h
  · cases h
  · rename_i c' _
    cases hvalid : c'.validate with
    | error e =>
        rw [hvalid] at h
        cases h
    | ok u =>
        rw [hvalid] at h
        cases h
        exact Config.validate_ok_iff.mp hvalid

end Yaml.Library

namespace Config

open Yaml.Library

/-- Let a library read back what it writes. Then settings can be saved, and are loaded as they were saved if they are
usable, and refused otherwise. So what was loaded from any text can be saved and loaded again, and different settings
are saved as different texts. -/
theorem yaml_roundTrip (yaml : Yaml.Library) (hyaml : yaml.ReadsBack) :
    (∀ c : Config, ∃ text, yaml.saveConfig c = .ok text ∧
      (0 < c.campaign.maxExecutions ∧ 0 < c.campaign.batchSize → yaml.loadConfig text = .ok c) ∧
      (¬ (0 < c.campaign.maxExecutions ∧ 0 < c.campaign.batchSize) →
        ∃ message, yaml.loadConfig text = .error (.config message))) ∧
    (∀ text c, yaml.loadConfig text = .ok c →
      ∃ saved, yaml.saveConfig c = .ok saved ∧ yaml.loadConfig saved = .ok c) ∧
    Function.Injective yaml.saveConfig := by
  refine ⟨fun c => ?_, fun text c hload => ?_, fun c c' hsaved => ?_⟩
  · obtain ⟨text, hsave, hconfig⟩ := hyaml.config? c
    refine ⟨text, hsave, loadConfig_ok hconfig, fun hc => ?_⟩
    obtain ⟨message, hmessage⟩ := validate_error hc
    exact ⟨message, by rw [loadConfig_eq hconfig, hmessage]; rfl⟩
  · obtain ⟨saved, hsave, hconfig⟩ := hyaml.config? c
    exact ⟨saved, hsave, loadConfig_ok hconfig (usable_of_loadConfig hload)⟩
  · obtain ⟨text, hsave, hconfig⟩ := hyaml.config? c
    obtain ⟨text', hsave', hconfig'⟩ := hyaml.config? c'
    -- Both are in the one text, also if neither can be loaded from it.
    rw [hsave, hsave', Except.ok.injEq] at hsaved
    rw [hsaved, hconfig'] at hconfig
    exact (Option.some.inj hconfig).symm

/-- The library of nodes reads back what it writes. It loads settings from a text with a comment, a hexadecimal number
and a quoted word, in an order and with an indentation of its own. -/
theorem yaml_roundTrip_commented :
    let yaml := Yaml.nodes
    let text := "campaign:\n  max_executions: 0xFFFFFFFFFFFFFFFF # nightly\nmock:\n    mode: 'basic'"
    let c : Config := { mock := { mode := .basic }, campaign := { maxExecutions := 18446744073709551615 } }
    yaml.ReadsBack ∧ yaml.loadConfig text = .ok c ∧
      (∃ saved, yaml.saveConfig c = .ok saved ∧ yaml.loadConfig saved = .ok c) ∧
      ∃ saved message, yaml.saveConfig { campaign := { batchSize := 0 } } = .ok saved ∧
        yaml.loadConfig saved = .error (.config message) := by
  intro yaml text c
  obtain ⟨hsaved, hloaded, _⟩ := yaml_roundTrip yaml Yaml.readsBack_nodes
  have hread : (yaml.document? text).bind yaml.config? = some c := by decide +kernel
  have hload := loadConfig_ok hread ⟨by decide, by decide⟩
  obtain ⟨saved, hsave, _, hrefused⟩ := hsaved { campaign := { batchSize := 0 } }
  obtain ⟨message, hmessage⟩ := hrefused (by decide)
  exact ⟨Yaml.readsBack_nodes, hload, hloaded text c hload, saved, message, hsave, hmessage⟩

end Config

end MockExplorer
