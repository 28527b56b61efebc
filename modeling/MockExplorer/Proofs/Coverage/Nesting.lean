import MockExplorer.Coverage.Installation
import MockExplorer.Proofs.Coverage.Oracle
import Mathlib.Data.List.Induction

/-!
# Nested installation of oracles

A guard only remembers what was installed before, so the oracles that were entered and not left form a chain: the
installed one, and one for each live guard. An assertion is counted by the innermost of them, and calls that leave what
they enter put back what they found.
-/

namespace MockExplorer

/-! ## Calls -/

/-- What a thread does to its installed oracle. -/
inductive InstallationCall where
  | enter (k : Nat)
  | leave
  | reached (site : SourceSite) (literal : Bool)
deriving DecidableEq

namespace InstallationCall

def isEnter : InstallationCall → Bool
  | .enter _ => true
  | _ => false

def isLeave : InstallationCall → Bool
  | .leave => true
  | _ => false

end InstallationCall

def enters (calls : List InstallationCall) : Nat := calls.countP (·.isEnter)

def leaves (calls : List InstallationCall) : Nat := calls.countP (·.isLeave)

@[simp] theorem enters_append (calls calls' : List InstallationCall) :
    enters (calls ++ calls') = enters calls + enters calls' :=
  List.countP_append

@[simp] theorem leaves_append (calls calls' : List InstallationCall) :
    leaves (calls ++ calls') = leaves calls + leaves calls' :=
  List.countP_append

/-- The calls leave as often as they enter, and no guard but their own. -/
structure Balanced (calls : List InstallationCall) : Prop where
  own : ∀ before, before <+: calls → leaves before ≤ enters before
  even : leaves calls = enters calls

/-- Among the enters that were not left, the last one is of this oracle. -/
def Innermost (calls : List InstallationCall) (k : Nat) : Prop :=
  ∃ before after, calls = before ++ .enter k :: after ∧ Balanced after

namespace Balanced

variable {calls calls' : List InstallationCall}

theorem nil : Balanced [] where
  own before h := by rw [List.prefix_nil.1 h]; exact Nat.le_refl _
  even := rfl

theorem reached (site : SourceSite) (literal : Bool) : Balanced [.reached site literal] where
  own _ h := Nat.le_trans h.sublist.countP_le (Nat.zero_le _)
  even := rfl

theorem append (h : Balanced calls) (h' : Balanced calls') : Balanced (calls ++ calls') where
  own before hbefore := by
    rcases List.prefix_or_prefix_of_prefix hbefore (List.prefix_append calls calls') with hfirst | ⟨rest, rfl⟩
    · exact h.own before hfirst
    · have hrest := h'.own rest ((List.prefix_append_right_inj calls).1 hbefore)
      rw [leaves_append, enters_append, h.even]
      omega
  even := by rw [leaves_append, enters_append, h.even, h'.even]

/-- What is entered before the calls is left after them. -/
theorem around (h : Balanced calls) (k : Nat) : Balanced (.enter k :: (calls ++ [.leave])) where
  own before hbefore := by
    rcases List.prefix_cons_iff.1 hbefore with rfl | ⟨rest, rfl, hrest⟩
    · exact Nat.le_refl _
    · have hheight : leaves rest ≤ enters rest + 1 := by
        rcases List.prefix_concat_iff.1 hrest with rfl | hrest
        · rw [leaves_append, enters_append, h.even]
          exact Nat.le_refl _
        · exact Nat.le_succ_of_le (h.own rest hrest)
      have henters : enters (.enter k :: rest) = enters rest + 1 := List.countP_cons_of_pos rfl
      rw [henters]
      exact hheight
  even := by
    have henters : enters (.enter k :: (calls ++ [.leave])) = enters (calls ++ [.leave]) + 1 :=
      List.countP_cons_of_pos rfl
    have hleaves : leaves (.enter k :: (calls ++ [.leave])) = leaves (calls ++ [.leave]) := rfl
    rw [henters, hleaves, leaves_append, enters_append, h.even]
    rfl

end Balanced

namespace Installation

variable {s : Installation} {calls : List InstallationCall}

def perform (s : Installation) : InstallationCall → Installation
  | .enter k => s.enter k
  | .leave => s.leave
  | .reached site literal => s.reached site literal

def performAll (s : Installation) (calls : List InstallationCall) : Installation := calls.foldl perform s

theorem performAll_append (s : Installation) (calls calls' : List InstallationCall) :
    s.performAll (calls ++ calls') = (s.performAll calls).performAll calls' :=
  List.foldl_append

/-! ## The chain -/

/-- The installed oracle and what the guards restore. -/
def chain (s : Installation) : List (Option Nat) := s.installed :: s.guards

theorem chain_enter (s : Installation) (k : Nat) : (s.enter k).chain = some k :: s.chain := rfl

theorem chain_leave {slot : Option Nat} {rest : List (Option Nat)} (h : s.chain = slot :: rest) (hrest : rest ≠ []) :
    s.leave.chain = rest := by
  obtain ⟨rfl, rfl⟩ := List.cons.inj h
  unfold leave
  cases hguards : s.guards with
  | nil => exact absurd hguards hrest
  | cons before rest => rfl

theorem chain_reached (s : Installation) (site : SourceSite) (literal : Bool) :
    (s.reached site literal).chain = s.chain := by
  unfold reached
  split <;> rfl

/-- As long as no guard but their own is dropped, calls build on top of the chain. -/
theorem chain_performAll (s : Installation) (h : ∀ before, before <+: calls → leaves before ≤ enters before) :
    ∃ slots, (s.performAll calls).chain = slots ++ s.chain ∧ slots.length + leaves calls = enters calls := by
  induction calls using List.reverseRecOn with
  | nil => exact ⟨[], rfl, rfl⟩
  | append_singleton calls call ih =>
      obtain ⟨slots, hchain, hlength⟩ := ih fun before hbefore => h before (hbefore.trans (List.prefix_append ..))
      have hnext := h _ List.prefix_rfl
      rw [leaves_append, enters_append] at hnext ⊢
      rw [performAll_append]
      cases call with
      | enter k =>
          refine ⟨some k :: slots, (chain_enter ..).trans (congrArg (some k :: ·) hchain), ?_⟩
          have henters : enters [.enter k] = 1 := rfl
          have hleaves : leaves [.enter k] = 0 := rfl
          rw [List.length_cons]
          omega
      | leave =>
          have henters : enters [.leave] = 0 := rfl
          have hleaves : leaves [.leave] = 1 := rfl
          cases slots with
          | nil =>
              rw [List.length_nil] at hlength
              omega
          | cons slot slots =>
              refine ⟨slots, chain_leave hchain (by simp [chain]), ?_⟩
              rw [List.length_cons] at hlength
              omega
      | reached site literal => exact ⟨slots, (chain_reached ..).trans hchain, hlength⟩

theorem chain_balanced (s : Installation) (h : Balanced calls) : (s.performAll calls).chain = s.chain := by
  obtain ⟨slots, hchain, hlength⟩ := s.chain_performAll h.own
  have hnone : slots.length = 0 := by
    rw [h.even] at hlength
    omega
  rw [hchain, List.eq_nil_of_length_eq_zero hnone, List.nil_append]

/-- The chain that calls of a new thread lead to. -/
inductive Chained : List InstallationCall → List (Option Nat) → Prop where
  | bottom (calls : List InstallationCall) : Chained calls [none]
  | entered {before after : List InstallationCall} {k : Nat} {slots : List (Option Nat)} (h : Chained before slots)
      (hafter : Balanced after) : Chained (before ++ .enter k :: after) (some k :: slots)

theorem Chained.ne_nil {slots : List (Option Nat)} (h : Chained calls slots) : slots ≠ [] := by
  cases h <;> simp

theorem Chained.later {calls' : List InstallationCall} {slots : List (Option Nat)} (h : Chained calls slots)
    (h' : Balanced calls') : Chained (calls ++ calls') slots := by
  cases h with
  | bottom calls => exact .bottom _
  | entered h hafter =>
      rw [List.append_assoc, List.cons_append]
      exact .entered h (hafter.append h')

theorem Chained.step (h : Chained calls s.chain) (call : InstallationCall) :
    Chained (calls ++ [call]) (s.perform call).chain := by
  cases call with
  | enter k => exact .entered h .nil
  | leave =>
      generalize hchain : s.chain = slots at h
      cases h with
      | bottom calls =>
          obtain ⟨hinstalled, hguards⟩ := List.cons.inj hchain
          have hleave : s.leave.chain = [none] := by rw [leave, hguards, chain, hinstalled, hguards]
          exact hleave ▸ .bottom _
      | @entered before after k slots h hafter =>
          have hleave : (s.perform .leave).chain = slots := chain_leave hchain h.ne_nil
          rw [hleave, List.append_assoc, List.cons_append]
          exact h.later (hafter.around k)
  | reached site literal =>
      rw [show (s.perform (.reached site literal)).chain = s.chain from chain_reached ..]
      exact h.later (.reached site literal)

theorem Chained.performAll (h : s.chain = [none]) (calls : List InstallationCall) :
    Chained calls (s.performAll calls).chain := by
  induction calls using List.reverseRecOn with
  | nil => exact h ▸ .bottom []
  | append_singleton calls call ih =>
      rw [performAll_append]
      exact ih.step call

theorem installed_iff_innermost (h : s.chain = [none]) {k : Nat} :
    (s.performAll calls).installed = some k ↔ Innermost calls k := by
  constructor
  · intro hinstalled
    have hchained := Chained.performAll h calls
    rw [chain, hinstalled] at hchained
    cases hchained with
    | @entered before after _ _ _ hafter => exact ⟨before, after, rfl, hafter⟩
  · rintro ⟨before, after, rfl, hafter⟩
    rw [performAll_append]
    exact (List.cons.inj (((s.performAll before).enter k).chain_balanced hafter)).1

/-! ## Oracles -/

theorem oracle_setOracle (s : Installation) (k j : Nat) (o : Oracle) :
    (s.setOracle k o).oracle j = if j = k then o else s.oracle j := by
  simp only [oracle, setOracle, SortedMap.get?_insert]
  split <;> rfl

theorem oracle_reached (s : Installation) (site : SourceSite) (literal : Bool) (j : Nat) :
    (s.reached site literal).oracle j =
      if s.installed = some j then (s.oracle j).assertReached site.location literal else s.oracle j := by
  unfold reached
  cases s.installed with
  | none => rfl
  | some k =>
      rw [oracle_setOracle]
      by_cases hj : j = k
      · simp [hj]
      · simp [hj, Ne.symm hj]

theorem points_perform (s : Installation) (call : InstallationCall) (j : Nat) :
    ((s.perform call).oracle j).points = (s.oracle j).points := by
  cases call with
  | enter k => rfl
  | leave =>
      simp only [perform, leave]
      split <;> rfl
  | reached site literal =>
      simp only [perform, oracle_reached]
      split <;> rfl

theorem points_performAll (s : Installation) (calls : List InstallationCall) (j : Nat) :
    ((s.performAll calls).oracle j).points = (s.oracle j).points := by
  induction calls generalizing s with
  | nil => rfl
  | cons call calls ih => exact (ih (s.perform call)).trans (s.points_perform call j)

end Installation

/-- The second oracle has counted one more assertion at the location, by its literal, and is otherwise the same. -/
structure Oracle.Tagged (l : LocationId) (literal : Bool) (o o' : Oracle) : Prop where
  points : o'.points = o.points
  labels : o'.labels = o.labels
  others : ∀ l', l' ≠ l → o'.tags.get? l' = o.tags.get? l'
  counts : ∀ b, (o'.tagsAt l).count b = (o.tagsAt l).count b + if b = literal then 1 else 0

theorem Oracle.tagged_assertReached (o : Oracle) (l : LocationId) (literal : Bool) :
    o.Tagged l literal (o.assertReached l literal) where
  points := rfl
  labels := rfl
  others l' hl' := SortedMap.get?_insert_of_ne _ _ hl'
  counts b := by
    have hcount : ((o.assertReached l literal).tagsAt l).count b = _ := o.count_observe (.tag l literal) l b
    simpa using hcount

/-- On a thread where nothing was installed, an assertion is counted by the oracle that was entered last and not left,
once and by its literal, and by no other. Entering and leaving concern no oracle, no call concerns a branch point, and
calls that leave what they enter put back what was installed. -/
theorem Installation.nested_calls (oracles : SortedMap Nat Oracle) (calls : List InstallationCall) :
    let s : Installation := { oracles }
    let p := s.performAll calls
    (∀ site literal,
      (∀ k, Innermost calls k → (p.oracle k).Tagged site.location literal ((p.reached site literal).oracle k) ∧
        ∀ j, j ≠ k → (p.reached site literal).oracle j = p.oracle j) ∧
      ((∀ k, ¬ Innermost calls k) → p.reached site literal = p)) ∧
    (∀ k, (p.enter k).oracles = p.oracles) ∧ p.leave.oracles = p.oracles ∧
    (∀ k, (p.oracle k).points = (s.oracle k).points) ∧
    ∀ nested, Balanced nested →
      (p.performAll nested).installed = p.installed ∧ (p.performAll nested).guards = p.guards := by
  intro s p
  have hinnermost : ∀ k, p.installed = some k ↔ Innermost calls k := fun k => installed_iff_innermost rfl
  refine ⟨fun site literal => ⟨fun k hk => ?_, fun hnone => ?_⟩, fun k => rfl, ?_, points_performAll s calls,
    fun nested h => List.cons.inj (p.chain_balanced h)⟩
  · have hinstalled := (hinnermost k).2 hk
    constructor
    · rw [oracle_reached, if_pos hinstalled]
      exact Oracle.tagged_assertReached ..
    · intro j hj
      rw [oracle_reached, if_neg]
      rw [hinstalled]
      exact fun h => hj (Option.some.inj h).symm
  · have hinstalled : p.installed = none := by
      rw [Option.eq_none_iff_forall_ne_some]
      exact fun k hk => hnone k ((hinnermost k).1 hk)
    simp only [reached, hinstalled]
  · unfold leave
    split <;> rfl

/-- The first oracle is entered again inside the second one and left again: the second one counts. Once both are left,
nothing does. -/
theorem Installation.nested_calls_twice :
    let site : SourceSite := ⟨"Store", 7, 3⟩
    let calls : List InstallationCall := [.enter 0, .reached site true, .enter 1, .enter 0, .leave]
    let s : Installation := {}
    let p := s.performAll calls
    let q := s.performAll (calls ++ [.leave, .leave])
    Innermost calls 1 ∧ (p.oracle 1).Tagged site.location false ((p.reached site false).oracle 1) ∧
      (p.reached site false).oracle 0 = p.oracle 0 ∧
      (p.performAll [.enter 1, .reached site true, .leave]).installed = some 1 ∧ q.reached site false = q := by
  intro site calls s p q
  have hempty : Balanced [] := .nil
  have hinnermost : Innermost calls 1 := ⟨[.enter 0, .reached site true], _, rfl, hempty.around 0⟩
  obtain ⟨htagged, _, _, _, hbalanced⟩ := nested_calls ∅ calls
  obtain ⟨hone, hothers⟩ := (htagged site false).1 1 hinnermost
  refine ⟨hinnermost, hone, hothers 0 (by decide), ?_, ?_⟩
  · exact (hbalanced _ ((Balanced.reached site true).around 1)).1
  · obtain ⟨hleft, _⟩ := nested_calls ∅ (calls ++ [.leave, .leave])
    refine (hleft site false).2 fun k hk => ?_
    have hinstalled : q.installed = some k := (installed_iff_innermost rfl).2 hk
    cases hinstalled

end MockExplorer
