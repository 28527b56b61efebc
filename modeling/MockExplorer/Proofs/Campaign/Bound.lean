import MockExplorer.Proofs.Campaign.Repetition
import MockExplorer.Proofs.Campaign.Scheduling
import Mathlib.Data.List.Perm.Subperm

/-!
# The size of a search

The outcomes that a candidate assumes lead to a node of a binary tree: at every clause a path goes on to the one
side or to the other. Candidates at one node have the same model and no model is run twice, so a search has at most
as many executions as the tree has nodes.
-/

namespace MockExplorer

/-! ## Nodes of the tree -/

/-- The number of the node that the outcomes lead to. The root has number 1, and the numbers with `n + 1` bits are
those of the nodes at depth `n`. -/
def nodeOf : List CmpOp → Nat
  | [] => 1
  | .eq :: ops => 2 * nodeOf ops
  | .ne :: ops => 2 * nodeOf ops + 1

theorem nodeOf_pos (ops : List CmpOp) : 0 < nodeOf ops := by
  induction ops with
  | nil => exact Nat.one_pos
  | cons op ops ih => cases op <;> simp only [nodeOf] <;> omega

theorem nodeOf_lt (ops : List CmpOp) : nodeOf ops < 2 ^ (ops.length + 1) := by
  induction ops with
  | nil => simp [nodeOf]
  | cons op ops ih =>
      rw [List.length_cons, Nat.pow_succ]
      cases op <;> simp only [nodeOf] <;> omega

theorem nodeOf_inj {ops ops' : List CmpOp} (h : nodeOf ops = nodeOf ops') : ops = ops' := by
  have hroot : ∀ op rest, nodeOf (op :: rest) ≠ 1 := by
    intro op rest
    have hpos := nodeOf_pos rest
    cases op <;> simp only [nodeOf] <;> omega
  induction ops generalizing ops' with
  | nil =>
      cases ops' with
      | nil => rfl
      | cons op' ops' => exact absurd h.symm (hroot op' ops')
  | cons op ops ih =>
      cases ops' with
      | nil => exact absurd h (hroot op ops)
      | cons op' ops' =>
          -- The last bit tells the first outcome, the others the rest.
          obtain ⟨rfl, hrest⟩ : op = op' ∧ nodeOf ops = nodeOf ops' := by
            cases op <;> cases op' <;> simp only [nodeOf] at h <;> simp <;> omega
          rw [ih hrest]

theorem length_le_of_nodup {paths : List (List CmpOp)} (hnodup : paths.Nodup) {depth : Nat}
    (hdepth : ∀ ops ∈ paths, ops.length ≤ depth) : paths.length ≤ 2 ^ (depth + 1) - 1 := by
  have hnodes : (paths.map nodeOf).Nodup := hnodup.map fun _ _ => nodeOf_inj
  have hrange : paths.map nodeOf ⊆ List.range' 1 (2 ^ (depth + 1) - 1) := by
    intro n hn
    obtain ⟨ops, hops, rfl⟩ := List.mem_map.1 hn
    have hpos := nodeOf_pos ops
    have hlt : nodeOf ops < 2 ^ (depth + 1) :=
      Nat.lt_of_lt_of_le (nodeOf_lt ops) (Nat.pow_le_pow_right Nat.two_pos (Nat.succ_le_succ (hdepth ops hops)))
    rw [List.mem_range'_1]
    omega
  simpa using (hnodes.subperm hrange).length_le

/-! ## Candidates at nodes -/

def Candidate.outcomes (d : Candidate) : List CmpOp := d.assumptions.map (·.op)

namespace Candidate

variable {d d' : Candidate} {p q : Provider}

theorem Drives.length_outcomes (h : d.Drives p) : d.outcomes.length ≤ p.path.length := by
  have hle := h.assumed.length_le
  rw [List.length_map] at hle
  rw [outcomes, List.length_map]
  exact hle

/-- Along paths that part, the same outcomes are those before the parting. -/
theorem Drives.assumptions_eq_of_parted (h : d.Drives p) (h' : d'.Drives q) (hops : d.outcomes = d'.outcomes)
    (hparted : Parted p.path.clauses q.path.clauses) : d.assumptions = d'.assumptions := by
  obtain ⟨before, c, hleft, hright⟩ := hparted
  replace hleft := hleft.map (·.predicate)
  replace hright := hright.map (·.predicate)
  rw [List.map_append] at hleft hright
  have hlength : d.assumptions.length = d'.assumptions.length := by
    simpa [outcomes] using congrArg List.length hops
  rcases Nat.lt_or_ge before.length d.assumptions.length with hlong | hshort
  · -- Both candidates assume an outcome at the parting, and these are opposite.
    have hthrough := List.prefix_of_prefix_length_le hleft h.assumed (by simp; omega)
    have hthrough' := List.prefix_of_prefix_length_le hright h'.assumed (by simp; omega)
    replace hthrough := hthrough.map (·.op)
    replace hthrough' := hthrough'.map (·.op)
    rw [show d'.assumptions.map (·.op) = d.assumptions.map (·.op) from hops.symm] at hthrough'
    have hsame := (List.prefix_of_prefix_length_le hthrough hthrough' (by simp)).eq_of_length (by simp)
    have hnot : c.predicate.op = c.predicate.op.negate := by
      simpa [Clause.negate, Predicate.negate] using hsame
    cases hop : c.predicate.op <;> rw [hop] at hnot <;> cases hnot
  · have hbefore := List.prefix_of_prefix_length_le h.assumed ((List.prefix_append ..).trans hleft)
      (by simpa using hshort)
    have hbefore' := List.prefix_of_prefix_length_le h'.assumed ((List.prefix_append ..).trans hright)
      (by simpa using hlength ▸ hshort)
    exact (List.prefix_of_prefix_length_le hbefore hbefore' (Nat.le_of_eq hlength)).eq_of_length hlength

theorem Drives.assumptions_eq_of_path (h : d.Drives p) (h' : d'.Drives q) (hops : d.outcomes = d'.outcomes)
    (hpath : p.path.clauses = q.path.clauses) : d.assumptions = d'.assumptions := by
  have hlength : d.assumptions.length = d'.assumptions.length := by
    simpa [outcomes] using congrArg List.length hops
  have hassumed := h.assumed
  rw [hpath] at hassumed
  exact (List.prefix_of_prefix_length_le hassumed h'.assumed (Nat.le_of_eq hlength)).eq_of_length hlength

/-- Candidates of one search that are at one node have the same model. -/
theorem Sprung.model_eq {b : Body} (hb : b.MockDriven) {config : MockConfig} (h : d.Sprung b config)
    (h' : d'.Sprung b config) (hops : d.outcomes = d'.outcomes) : d.model = d'.model := by
  have hdrives := h.drives hb 0
  have hdrives' := h'.drives hb 0
  have hassumed : d.assumptions = d'.assumptions := by
    rcases (h.settled hb 0).agree_or_parted hb (h'.settled hb 0) with hagree | hparted
    · exact hdrives.assumptions_eq_of_path hdrives' hops (congrArg PathCondition.clauses hagree.alike.provider.path)
    · exact hdrives.assumptions_eq_of_parted hdrives' hops hparted
  have hsolved := hdrives.solved
  rw [hassumed, hdrives'.solved] at hsolved
  exact (Answer.sat.inj hsolved).symm

end Candidate

/-! ## Test cases -/

namespace CampaignContext

section

variable {x : CampaignContext} (hsolver : x.solver = .equality) {run : Runner} {t : TestCase}
  (hb : t.body.MockDriven) (hrun : ∀ id d, (run id d).result = (t.runner x.config.mock id d).result) (c : Campaign)
include hsolver hb hrun

theorem performedBy_nodup : ((x.performedBy run c t).map (·.2.outcomes)).Nodup := by
  obtain ⟨c', s', status, hexplores, _⟩ := x.runBy_explores run c t
  have hmodels : ((x.performedBy run c t).map (·.2.model)).Nodup := (Search.Distinct.start _).explores hexplores
  refine List.pairwise_map.2 ((List.pairwise_map.1 hmodels).imp_of_mem fun he he' hne hops => hne ?_)
  exact (performedBy_sprung hsolver hrun c he).model_eq hb (performedBy_sprung hsolver hrun c he') hops

theorem length_performedBy {bound : Nat} (hbound : ∀ e ∈ x.performedBy run c t,
      (t.body.runUnder x.config.mock e.1 e.2.model e.2.assumptions).1.provider.path.length ≤ bound) :
    (x.performedBy run c t).length ≤ 2 ^ (bound + 1) - 1 := by
  have hdepth : ∀ ops ∈ (x.performedBy run c t).map (·.2.outcomes), ops.length ≤ bound := by
    intro ops hops
    obtain ⟨e, he, rfl⟩ := List.mem_map.1 hops
    have hdrives := (performedBy_sprung hsolver hrun c he).drives hb e.1
    exact Nat.le_trans hdrives.length_outcomes (hbound e he)
  have hlength := length_le_of_nodup (performedBy_nodup hsolver hb hrun c) hdepth
  rwa [List.length_map] at hlength

end

/-- Let the equality solver explore a mock-driven body, and let no execution record more than `bound` clauses, as is
the case if no run of the body does. However the candidates are run, there are fewer than `2 ^ (bound + 1)`
executions. If the budget has room for that many and the search may go on after full coverage, then it comes to an
end with nothing left to try, unless an execution fails or the campaign is cancelled. -/
theorem runBy_bounded (x : CampaignContext) (hsolver : x.solver = .equality) (run : Runner) (c : Campaign)
    (t : TestCase) (hb : t.body.MockDriven)
    (hrun : ∀ id d, (run id d).result = (t.runner x.config.mock id d).result) (bound : Nat)
    (hbound : ∀ e ∈ x.performedBy run c t,
      (t.body.runUnder x.config.mock e.1 e.2.model e.2.assumptions).1.provider.path.length ≤ bound) :
    let done := x.performedBy run c t
    let ended := x.exploreBy run x.config.campaign.maxExecutions.toNat c t
    (x.runBy run c t).1.executions.toNat = done.length ∧ done.length ≤ 2 ^ (bound + 1) - 1 ∧
      (2 ^ (bound + 1) ≤ x.config.campaign.maxExecutions.toNat → x.config.campaign.stopWhenComplete = false →
        c.cancelled = false → Undisturbed run done →
        ended.2.1.worklist = [] ∧ ended.2.2 = .exhausted ∧
          (x.runBy run c t).1.status = if Search.covered ended.1 ended.2.1 then .complete else .exhausted) := by
  intro done ended
  have hexplores : Search.Explores (x.explorationBy run t) (opening c t).1 (opening c t).2 done
      (x.outcomesBy run c t) (ended.1, ended.2.1, ended.2.2) :=
    Search.explore_explores (Nat.le_add_right ..)
  have hlength : done.length ≤ 2 ^ (bound + 1) - 1 := length_performedBy hsolver hb hrun c hbound
  refine ⟨hexplores.toNat_executions t.name, hlength, fun hroom hgo hopen hok => ?_⟩
  obtain ⟨_, hcancelled, hending⟩ := hexplores.sequential hok
  have hspent : ended.2.1.executions < x.config.campaign.maxExecutions.toNat := by
    have hpos := Nat.two_pow_pos (bound + 1)
    rw [hexplores.executions_eq.1]
    omega
  rcases Search.ending?_cases hending with ⟨_, hstop⟩ | ⟨_, hstop, _⟩ | ⟨_, hfull⟩ | ⟨hstatus, _, hempty⟩
  · rw [hcancelled, show (opening c t).1.cancelled = c.cancelled from rfl, hopen] at hstop
    cases hstop
  · rw [show (x.explorationBy run t).config.stopWhenComplete = false from hgo] at hstop
    cases hstop
  · exact absurd hspent (Nat.not_lt.2 hfull)
  · refine ⟨hempty, hstatus, ?_⟩
    show Search.settle ended.1 ended.2.1 ended.2.2 = _
    rw [hstatus]
    rfl

/-- The bound is attained: with an input that no branch looks at, every node of the tree is run. -/
theorem runBy_bounded_attained :
    let t : TestCase := {
      name := "three inputs"
      body := .ofList [.act (.mock "a" Capability.intSupplier.descriptor),
        .act (.mock "b" Capability.intSupplier.descriptor), .act (.mock "c" Capability.intSupplier.descriptor),
        .act (.call "a" [] "u"), .act (.call "b" [] "v"), .act (.call "c" [] "w"),
        .branch ⟨1⟩ "u" .eq 5 .skip .skip, .branch ⟨2⟩ "v" .eq 5 .skip .skip] }
    let x : CampaignContext := {
      config := { campaign := { batchSize := 3, maxExecutions := 8, stopWhenComplete := false } }, solver := .equality }
    let run := t.runner x.config.mock
    t.body.MockDriven ∧
      (∀ e ∈ x.performedBy run {} t,
        (t.body.runUnder x.config.mock e.1 e.2.model e.2.assumptions).1.provider.path.length ≤ 2) ∧
      Undisturbed run (x.performedBy run {} t) ∧ (x.performedBy run {} t).length = 2 ^ (2 + 1) - 1 ∧
      (x.exploreBy run x.config.campaign.maxExecutions.toNat {} t).2.1.worklist = [] := by
  intro t x run
  have hb : t.body.MockDriven := by simp [t, Body.ofList, Body.MockDriven, Action.MockDriven]
  -- One evaluation for all three, as each has to run the search.
  have hruns : (∀ e ∈ x.performedBy run {} t,
        (t.body.runUnder x.config.mock e.1 e.2.model e.2.assumptions).1.provider.path.length ≤ 2) ∧
      Undisturbed run (x.performedBy run {} t) ∧ (x.performedBy run {} t).length = 2 ^ (2 + 1) - 1 := by
    decide +kernel
  obtain ⟨hbound, hok, hlength⟩ := hruns
  obtain ⟨_, _, hends⟩ := runBy_bounded x rfl run {} t hb (fun _ _ => rfl) 2 hbound
  exact ⟨hb, hbound, hok, hlength, (hends (by decide) rfl rfl hok).1⟩

end CampaignContext

end MockExplorer
