import MockExplorer.Error

/-!
# Settings

The mocking policy and the bounds of a campaign, with their defaults and the check that a campaign can
make progress under them.
-/

namespace MockExplorer

/-- Whether types that could be constructed for real are mocked too. -/
inductive MockingMode where
  | basic
  | full
deriving DecidableEq, Repr, Inhabited

/-- The mocking policy. -/
structure MockConfig where
  enabled : Bool := true
  mode : MockingMode := .full
  callSiteRedirect : Bool := true
deriving DecidableEq, Repr, Inhabited

/-- The bounds of a campaign. Zero workers means as many as the machine has processors. -/
structure CampaignConfig where
  maxExecutions : UInt64 := 64
  workers : UInt64 := 1
  batchSize : UInt64 := 4
  stopWhenComplete : Bool := true
deriving DecidableEq, Repr, Inhabited

namespace CampaignConfig

/-- The settings with a batch size that drains the worklist. -/
def withUsableBatch (c : CampaignConfig) : CampaignConfig :=
  if c.batchSize = 0 then { c with batchSize := 1 } else c

/-- The number of workers on a machine with `processors` processors. -/
def effectiveWorkers (c : CampaignConfig) (processors : Nat) : Nat :=
  if c.workers = 0 then processors else c.workers.toNat

end CampaignConfig

/-- All settings. -/
structure Config where
  mock : MockConfig := {}
  campaign : CampaignConfig := {}
deriving DecidableEq, Repr, Inhabited

/-- Refuses settings under which no execution could ever run. -/
def Config.validate (c : Config) : Except MockError Unit :=
  if c.campaign.maxExecutions = 0 then .error (.config "campaign.max_executions must be positive")
  else if c.campaign.batchSize = 0 then .error (.config "campaign.batch_size must be positive")
  else .ok ()

end MockExplorer
