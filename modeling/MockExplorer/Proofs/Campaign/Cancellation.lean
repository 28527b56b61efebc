import MockExplorer.Proofs.Campaign.Alike
import MockExplorer.Proofs.Campaign.Consistency

/-!
# Cancelled campaigns

A search looks at the cancel flag before every batch and nobody takes the flag down. So the batch in which it is
raised is the last one of the campaign: its test case is cancelled unless something failed in that batch, and the
test cases after it are named in the report and do nothing.
-/

namespace MockExplorer

/-! ## Executions that are started -/

def Run.fails (r : Run) : Bool := !r.result.isOk

/-- The executions that a worker starts: it does not get past one that crashes. -/
def startedUntilCrash (run : Runner) : UInt64 → List Candidate → List (UInt64 × Candidate)
  | _, [] => []
  | id, d :: rest => (id, d) :: if (run id d).crashes then [] else startedUntilCrash run (id + 1) rest

def startedInChunks (run : Runner) : UInt64 → List (List Candidate) → List (UInt64 × Candidate)
  | _, [] => []
  | id, cs :: rest => startedUntilCrash run id cs ++ startedInChunks run (id + .ofNat cs.length) rest

/-- The executions that are started in a batch. -/
def startedInBatch (run : Runner) (workers : Nat) (id : UInt64) (batch : List Candidate) :
    List (UInt64 × Candidate) :=
  startedInChunks run id (chunksOf (chunkSize workers batch.length) batch.length batch)

section

variable {name : String} {run : Runner}

theorem runUntilCrash_started (run : Runner) (id : UInt64) (cs : List Candidate) :
    runUntilCrash run id cs = (startedUntilCrash run id cs).map fun e => run e.1 e.2 := by
  induction cs generalizing id with
  | nil => rfl
  | cons d cs ih =>
      rw [runUntilCrash_cons_eq, startedUntilCrash, List.map_cons]
      split
      · rfl
      · rw [ih]

/-- Runs that settle come back with an error exactly if one of them fails, and if they do not settle one of them
has crashed. -/
theorem errorOf?_settled (runs : List Run) :
    ((runs.mapM Run.settled?).map fun results => (results.findSome? errorOf?).isSome).getD true =
      runs.any (·.fails) := by
  induction runs with
  | nil => rfl
  | cons r runs ih =>
      rw [List.any_cons, ← ih, List.mapM_cons]
      obtain ⟨(e | _) | t, _, _⟩ := r
      · cases runs.mapM Run.settled? <;> rfl
      · rfl
      · cases runs.mapM Run.settled? <;> rfl

theorem runChunk_fails (id : UInt64) (cs : List Candidate) :
    ((runChunk name run id cs).results.findSome? errorOf?).isSome =
      (startedUntilCrash run id cs).any fun e => (run e.1 e.2).fails := by
  have hsettled := errorOf?_settled (runUntilCrash run id cs)
  rw [runUntilCrash_started, List.any_map] at hsettled
  rw [runChunk, runUntilCrash_started, ← Function.comp_def Run.fails, ← hsettled]
  cases cs with
  | nil => rfl
  | cons d cs =>
      cases ((startedUntilCrash run id (d :: cs)).map fun e => run e.1 e.2).mapM Run.settled? <;> rfl

theorem runChunks_started (id : UInt64) (chunks : List (List Candidate)) :
    ((runChunks name run id chunks).results.findSome? errorOf?).isSome =
        ((startedInChunks run id chunks).any fun e => (run e.1 e.2).fails) ∧
      (runChunks name run id chunks).cancels =
        (startedInChunks run id chunks).any fun e => (run e.1 e.2).cancels := by
  induction chunks generalizing id with
  | nil => exact ⟨rfl, rfl⟩
  | cons cs chunks ih =>
      obtain ⟨hfails, hcancels⟩ := ih (id + .ofNat cs.length)
      have hresults : (runChunks name run id (cs :: chunks)).results = (runChunk name run id cs).results ++
          (runChunks name run (id + .ofNat cs.length) chunks).results := rfl
      have hflag : (runChunks name run id (cs :: chunks)).cancels = ((runChunk name run id cs).cancels ||
          (runChunks name run (id + .ofNat cs.length) chunks).cancels) := rfl
      have hfirst : (runChunk name run id cs).cancels =
          (startedUntilCrash run id cs).any fun e => (run e.1 e.2).cancels := by
        rw [runChunk, runUntilCrash_started, List.any_map]
        rfl
      rw [startedInChunks, List.any_append, List.any_append]
      refine ⟨?_, by rw [hflag, hfirst, hcancels]⟩
      rw [hresults, List.findSome?_append, Option.isSome_or, runChunk_fails, hfails]

end

/-! ## The batches of a search -/

/-- A batch of a search: the executions that are started in it, and the campaign as it stands right after it. -/
structure Round where
  started : List (UInt64 × Candidate)
  after : Campaign

/-- The status of a test case whose last batch is the one in which the campaign was cancelled. -/
def Round.Leaves (run : Runner) (b : Round) (status : CaseStatus) : Prop :=
  if b.started.any (fun e => (run e.1 e.2).fails) then status.isError = true else status = .cancelled

theorem Round.Leaves.settle {run : Runner} {b : Round} {status : CaseStatus} (h : b.Leaves run status) (c : Campaign)
    (s : Search) : b.Leaves run (Search.settle c s status) := by
  unfold Leaves at h ⊢
  split_ifs at h ⊢ with hfails
  · exact (Search.settle_isError c s status).trans h
  · rw [h]
    rfl

namespace Search

variable {x : Exploration} {c : Campaign} {s : Search}

def round (x : Exploration) (c : Campaign) (s : Search) : Round where
  started := startedInBatch x.run x.workers c.nextExecution (s.worklist.take (batchLength x s))
  after := (nextBatch x c s).1

/-- The batches of a search from some point on. -/
def batches (x : Exploration) : (rounds : Nat) → Campaign → Search → List Round
  | rounds, c, s =>
    match ending? x c s with
    | some _ => []
    | none =>
      match rounds with
      | 0 => []
      | rounds + 1 =>
        round x c s ::
          match nextBatch x c s with
          | (_, _, some _) => []
          | (c, s, none) => batches x rounds c s

theorem round_fails (x : Exploration) (c : Campaign) (s : Search) :
    (nextBatch x c s).2.2.isSome = (round x c s).started.any fun e => (x.run e.1 e.2).fails := by
  rw [nextBatch_failure, batchResult, runBatch_eq_runChunks]
  exact (runChunks_started ..).1

theorem round_cancels (h : ∃ e ∈ (round x c s).started, (x.run e.1 e.2).cancels = true) :
    (nextBatch x c s).1.cancelled = true := by
  have hcancels : (batchResult x c s).cancels = true := by
    rw [batchResult, runBatch_eq_runChunks, (runChunks_started ..).2]
    exact List.any_eq_true.2 h
  obtain ⟨asked, hcampaign⟩ := nextBatch_campaign x c s
  rw [hcampaign, hcancels, Bool.or_true]

/-! ## Where the flag is up -/

theorem ending?_cancelled (h : c.cancelled = true) : ending? x c s = some .cancelled := by
  rw [ending?, if_pos h]

theorem explore_cancelled (h : c.cancelled = true) (rounds : Nat) :
    explore x rounds c s = (c, s, .cancelled) ∧ batches x rounds c s = [] := by
  unfold explore batches
  rw [ending?_cancelled h]
  exact ⟨rfl, rfl⟩

/-- The batch in which the flag is raised is the last one of its search. -/
theorem explore_raised {rounds : Nat} {before after : List Round} {b : Round}
    (hbatches : batches x rounds c s = before ++ b :: after)
    (hraised : ∃ e ∈ b.started, (x.run e.1 e.2).cancels = true) :
    after = [] ∧ b.after.cancelled = true ∧ ∃ s' status, explore x rounds c s = (b.after, s', status) ∧
      b.Leaves x.run status := by
  induction rounds generalizing c s before with
  | zero =>
      rw [batches] at hbatches
      split at hbatches <;> simp at hbatches
  | succ rounds ih =>
      cases hending : ending? x c s with
      | some status =>
          rw [batches, hending] at hbatches
          simp at hbatches
      | none =>
          rw [batches, hending] at hbatches
          rw [explore, hending]
          have hfails := round_fails x c s
          rcases hnext : nextBatch x c s with ⟨c₁, s₁, failure⟩
          have hafter : (round x c s).after = c₁ := by rw [round, hnext]
          cases before with
          | nil =>
              obtain ⟨rfl, hrest⟩ := List.cons_eq_cons.1 hbatches
              have hflag : c₁.cancelled = true := by simpa [hnext] using round_cancels hraised
              rw [hnext] at hrest hfails
              rw [hafter]
              cases failure with
              | some e =>
                  refine ⟨hrest.symm, hflag, s₁, _, rfl, ?_⟩
                  rw [Round.Leaves, ← hfails]
                  exact CaseStatus.isError_ofError e
              | none =>
                  obtain ⟨hexplore, hnone⟩ := explore_cancelled (x := x) (s := s₁) hflag rounds
                  refine ⟨hrest.symm.trans hnone, hflag, s₁, _, hexplore, ?_⟩
                  rw [Round.Leaves, ← hfails]
                  rfl
          | cons b' before =>
              obtain ⟨-, hrest⟩ := List.cons_eq_cons.1 hbatches
              rw [hnext] at hrest
              cases failure with
              | some e => simp at hrest
              | none => exact ih hrest

end Search

/-! ## Test cases that do nothing -/

/-- The report of a test case that never had a turn. -/
structure CaseReport.Idle (t : TestCase) (r : CaseReport) : Prop where
  name : r.name = t.name
  status : r.status = .cancelled
  executions : r.executions = 0
  inputs : r.inputs = []
  ascending : r.locations.Pairwise fun l l' => l.id < l'.id
  locations : ∀ l, l ∈ r.locations ↔ l ∈ t.locations.map (·.1)

/-- Nothing has happened between two states of a campaign, except that locations may have got other labels. -/
structure Campaign.Rests (c c' : Campaign) : Prop where
  points : c'.oracle.points = c.oracle.points
  tags : c'.oracle.tags = c.oracle.tags
  nextExecution : c'.nextExecution = c.nextExecution
  asked : c'.asked = c.asked

theorem Campaign.Rests.trans {c c' c'' : Campaign} (h : c.Rests c') (h' : c'.Rests c'') : c.Rests c'' :=
  ⟨h'.points.trans h.points, h'.tags.trans h.tags, h'.nextExecution.trans h.nextExecution, h'.asked.trans h.asked⟩

theorem Oracle.labelAll_eq (o : Oracle) (names : List (LocationId × String)) :
    ∃ labels, o.labelAll names = { o with labels } := by
  induction names generalizing o with
  | nil => exact ⟨o.labels, rfl⟩
  | cons name names ih => exact ih (o.label name.1 name.2)

namespace CampaignContext

variable {x : CampaignContext} {c : Campaign} {run : Runner} {t : TestCase}

/-- The batches of the search of a test case. -/
def batchesBy (x : CampaignContext) (run : Runner) (c : Campaign) (t : TestCase) : List Round :=
  Search.batches (x.explorationBy run t) x.config.campaign.maxExecutions.toNat (opening c t).1 (opening c t).2

theorem runBy_of_exploreBy {c' : Campaign} {s' : Search} {status : CaseStatus}
    (h : x.exploreBy run x.config.campaign.maxExecutions.toNat c t = (c', s', status)) :
    x.runBy run c t = (Search.report c' s' t.name status, c') := by
  have hrun : x.runBy run c t =
      (Search.report (x.exploreBy run x.config.campaign.maxExecutions.toNat c t).1
        (x.exploreBy run x.config.campaign.maxExecutions.toNat c t).2.1 t.name
        (x.exploreBy run x.config.campaign.maxExecutions.toNat c t).2.2,
      (x.exploreBy run x.config.campaign.maxExecutions.toNat c t).1) := rfl
  rw [hrun, h]

theorem runBy_idle (h : c.cancelled = true) (run : Runner) (t : TestCase) :
    x.batchesBy run c t = [] ∧ (x.runBy run c t).1.Idle t ∧ (x.runBy run c t).2.cancelled = true ∧
      c.Rests (x.runBy run c t).2 := by
  obtain ⟨hexplore, hnone⟩ := Search.explore_cancelled (x := x.explorationBy run t) (c := (opening c t).1)
    (s := (opening c t).2) h x.config.campaign.maxExecutions.toNat
  obtain ⟨labels, hlabels⟩ := c.oracle.labelAll_eq (t.locations ++ t.tagSites)
  have htracked := (Search.Tally.start (t.locations.map (·.1))).tracked
  rw [runBy_of_exploreBy hexplore]
  refine ⟨hnone, ⟨rfl, rfl, rfl, rfl, Search.ascending_keys _, fun l => ?_⟩, h, ?_⟩
  · exact (htracked l).trans (by simp)
  · rw [opening, hlabels]
    exact ⟨rfl, rfl, rfl, rfl⟩

theorem runBy_raised {before after : List Round} {b : Round} (hbatches : x.batchesBy run c t = before ++ b :: after)
    (hraised : ∃ e ∈ b.started, (run e.1 e.2).cancels = true) :
    after = [] ∧ b.after.cancelled = true ∧ (x.runBy run c t).2 = b.after ∧
      b.Leaves run (x.runBy run c t).1.status := by
  obtain ⟨hlast, hflag, s', status, hexplore, hstatus⟩ := Search.explore_raised hbatches hraised
  rw [runBy_of_exploreBy hexplore]
  exact ⟨hlast, hflag, rfl, hstatus.settle b.after s'⟩

end CampaignContext

/-! ## Turns -/

/-- The campaign as the turn finds it: it may have been cancelled just before. -/
def Turn.opened (o : Turn) (c : Campaign) : Campaign := { c with cancelled := c.cancelled || o.cancelled }

namespace CampaignContext

variable {x : CampaignContext} {c : Campaign}

/-- The batches of all turns, in order. -/
def batchesOf (x : CampaignContext) : Campaign → List Turn → List Round
  | _, [] => []
  | c, o :: rest => x.batchesBy o.run (o.opened c) o.test ++ batchesOf x (x.runBy o.run (o.opened c) o.test).2 rest

theorem runTurns_append (x : CampaignContext) (c : Campaign) (earlier later : List Turn) :
    x.runTurns c (earlier ++ later) = ((x.runTurns c earlier).1 ++ (x.runTurns (x.runTurns c earlier).2 later).1,
      (x.runTurns (x.runTurns c earlier).2 later).2) := by
  induction earlier generalizing c with
  | nil => rfl
  | cons o earlier ih => simp only [List.cons_append, runTurns, ih]

theorem batchesOf_append (x : CampaignContext) (c : Campaign) (earlier later : List Turn) :
    x.batchesOf c (earlier ++ later) = x.batchesOf c earlier ++ x.batchesOf (x.runTurns c earlier).2 later := by
  induction earlier generalizing c with
  | nil => rfl
  | cons o earlier ih =>
      simp only [List.cons_append, batchesOf, ih, List.append_assoc]
      rfl

theorem runTurns_idle (h : c.cancelled = true) (turns : List Turn) :
    x.batchesOf c turns = [] ∧ List.Forall₂ (fun o r => r.Idle o.test) turns (x.runTurns c turns).1 ∧
      c.Rests (x.runTurns c turns).2 := by
  induction turns generalizing c with
  | nil => exact ⟨rfl, .nil, rfl, rfl, rfl, rfl⟩
  | cons o turns ih =>
      have hopened : (o.opened c).cancelled = true := by rw [Turn.opened, h, Bool.true_or]
      obtain ⟨hnone, hidle, hflag, hrests⟩ := runBy_idle (x := x) hopened o.run o.test
      obtain ⟨hrest, hidles, hlater⟩ := ih hflag
      have hfirst : c.Rests (o.opened c) := ⟨rfl, rfl, rfl, rfl⟩
      refine ⟨?_, .cons hidle hidles, (hfirst.trans hrests).trans hlater⟩
      rw [batchesOf, hnone, hrest, List.nil_append]

/-- The test cases of a campaign are turns that nobody cancels but their bodies. If a campaign is cancelled
beforehand, it starts no batch at all, every test case is reported as idle, and the campaign rests. If it is cancelled
by an execution in a batch of some turn, be it by the test or by anyone else while the execution runs, then that batch
is the last one of the campaign. The test case of the turn has failed if an execution in that batch has, and is
cancelled otherwise; the later ones are idle, and the campaign rests from the end of that batch on. -/
theorem runAllTurns_halts (x : CampaignContext) (c : Campaign) :
    (∀ ts : List TestCase, x.runAll c ts = x.runAllTurns c (ts.map (.ofCase x.config.mock))) ∧
    (∀ turns : List Turn, c.cancelled = true →
      x.batchesOf c turns = [] ∧
        List.Forall₂ (fun o r => r.Idle o.test) turns (x.runAllTurns c turns).1.cases ∧
        c.Rests (x.runAllTurns c turns).2) ∧
    ∀ (earlier later : List Turn) (o : Turn) (before after : List Round) (b : Round),
      x.batchesBy o.run (o.opened (x.runTurns c earlier).2) o.test = before ++ b :: after →
      (∃ e ∈ b.started, (o.run e.1 e.2).cancels = true) →
      x.batchesOf c (earlier ++ o :: later) = x.batchesOf c earlier ++ before ++ [b] ∧
        ∃ r idle, (x.runAllTurns c (earlier ++ o :: later)).1.cases = (x.runTurns c earlier).1 ++ r :: idle ∧
          r.name = o.test.name ∧ b.Leaves o.run r.status ∧
          List.Forall₂ (fun o r => r.Idle o.test) later idle ∧
          b.after.Rests (x.runAllTurns c (earlier ++ o :: later)).2 := by
  refine ⟨fun ts => (runAllTurns_ofCase x c ts).symm, fun turns h => runTurns_idle h turns,
    fun earlier later o before after b hbatches hraised => ?_⟩
  obtain ⟨rfl, hflag, hend, hstatus⟩ := runBy_raised hbatches hraised
  obtain ⟨hrest, hidle, hrests⟩ := runTurns_idle (x := x) hflag later
  have hturns : x.runTurns c (earlier ++ o :: later) =
      ((x.runTurns c earlier).1 ++ (x.runBy o.run (o.opened (x.runTurns c earlier).2) o.test).1 ::
        (x.runTurns b.after later).1, (x.runTurns b.after later).2) := by
    rw [runTurns_append, ← hend]
    rfl
  refine ⟨?_, _, _, congrArg Prod.fst hturns, rfl, hstatus, hidle, ?_⟩
  · rw [batchesOf_append, batchesOf, hbatches, hend, hrest, List.append_nil, List.append_assoc]
  · have hlast : (x.runAllTurns c (earlier ++ o :: later)).2 = (x.runTurns c (earlier ++ o :: later)).2 := rfl
    rw [hlast, hturns]
    exact hrests

/-- The second test case cancels the campaign in its second batch, in which another execution goes well; the third
declares a location twice. Nobody gets to run anything after that, nor in a campaign that was cancelled before. -/
theorem runAllTurns_halts_second_batch :
    let body (last : Action) : Body := .ofList [.act (.mock "m" Capability.intSupplier.descriptor),
      .act (.call "m" [] "v"), .branch ⟨1⟩ "v" .eq 5 (.act last) (.branch ⟨2⟩ "v" .eq 6 .skip .skip)]
    let first := Turn.ofCase {} { name := "first", body := body (.assertReached ⟨3⟩ true) }
    let second := Turn.ofCase {} { name := "second", body := body .cancel }
    let third := Turn.ofCase {}
      { name := "third", locations := [(⟨9⟩, "a"), (⟨3⟩, "b"), (⟨9⟩, "c")], body := .skip }
    let x : CampaignContext := { config := { campaign := { stopWhenComplete := false } }, solver := .equality }
    let batches := x.batchesBy second.run (second.opened (x.runTurns {} [first]).2) second.test
    batches.map (fun b => b.started.map fun e => (second.run e.1 e.2).cancels) = [[false], [true, false]] ∧
      (x.runAllTurns {} [first, second, third]).1.cases.map (fun r => (r.status, r.locations)) =
        [(.complete, [⟨1⟩, ⟨2⟩]), (.cancelled, [⟨1⟩, ⟨2⟩]), (.cancelled, [⟨3⟩, ⟨9⟩])] ∧
      (∃ b ∈ batches, (x.batchesOf {} [first, second, third]).getLast? = some b ∧
        b.after.Rests (x.runAllTurns {} [first, second, third]).2) ∧
      ({ cancelled := true } : Campaign).Rests (x.runAllTurns { cancelled := true } [first, second, third]).2 := by
  intro body first second third x batches
  have hflags : batches.map (fun b => b.started.map fun e => (second.run e.1 e.2).cancels) =
      [[false], [true, false]] := by
    decide +kernel
  have hcases : (x.runAllTurns {} [first, second, third]).1.cases.map (fun r => (r.status, r.locations)) =
      [(.complete, [⟨1⟩, ⟨2⟩]), (.cancelled, [⟨1⟩, ⟨2⟩]), (.cancelled, [⟨3⟩, ⟨9⟩])] := by
    decide +kernel
  obtain ⟨b₁, b₂, hbatches⟩ : ∃ b₁ b₂, batches = [b₁, b₂] :=
    List.length_eq_two.1 (by rw [← List.length_map, hflags]; rfl)
  have hlast : b₂.started.map (fun e => (second.run e.1 e.2).cancels) = [true, false] := by
    rw [hbatches] at hflags
    exact (List.cons_eq_cons.1 (List.cons_eq_cons.1 hflags).2).1
  have hraised : ∃ e ∈ b₂.started, (second.run e.1 e.2).cancels = true :=
    List.mem_map.1 (hlast ▸ List.mem_cons_self ..)
  obtain ⟨hall, _, _, _, _, _, _, hrests⟩ :=
    (runAllTurns_halts x {}).2.2 [first] [third] second [b₁] [] b₂ hbatches hraised
  have hend : (x.batchesOf {} [first, second, third]).getLast? = some b₂ :=
    (congrArg List.getLast? hall).trans List.getLast?_concat
  exact ⟨hflags, hcases, ⟨b₂, hbatches ▸ List.mem_cons_of_mem _ (List.mem_cons_self ..), hend, hrests⟩,
    ((runAllTurns_halts x { cancelled := true }).2.1 [first, second, third] rfl).2.2⟩

end CampaignContext

end MockExplorer
