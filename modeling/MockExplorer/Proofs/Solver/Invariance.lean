import MockExplorer.Proofs.Solver.Equality

/-!
# Queries that say the same

The answer to a query depends on which predicates it has, not on their order or on how often it has them. What it
demands of an input is then the same up to the order of the literals, and the inputs come in the order of their names.
Only a query that uses an input at two types is another matter: the order decides which two uses are told, though not
that they are.
-/

namespace MockExplorer.Equality

variable {query query' : List Predicate}

/-! ## One demand -/

theorem Demand.least?_congr {d d' : Demand} (hty : d.ty = d'.ty) (hexcluded : d.excluded.Perm d'.excluded) :
    d.least? = d'.least? := by
  unfold Demand.least? Demand.probes
  simp only [hty, hexcluded.length_eq, hexcluded.mem_iff]

theorem Demand.solve_congr {d d' : Demand} (hty : d.ty = d'.ty) (hequal : d.equal.Perm d'.equal)
    (hexcluded : d.excluded.Perm d'.excluded) (var : SymVar) : d.solve var = d'.solve var := by
  unfold Demand.solve
  rw [hty]
  split
  · rfl
  · match hd : d.equal with
    | [] =>
        rw [hd] at hequal
        rw [hequal.symm.eq_nil, Demand.least?_congr hty hexcluded]
    | [wanted] =>
        rw [hd] at hequal
        simp only [hequal.symm.eq_singleton, hexcluded.mem_iff]
    | n :: n' :: rest =>
        rw [hd] at hequal
        -- Two literals stay two in any order.
        match hd' : d'.equal with
        | [] => rw [hd'] at hequal; cases hequal.length_eq
        | [_] => rw [hd'] at hequal; cases hequal.length_eq
        | _ :: _ :: _ => rfl

theorem literals_perm (h : ∀ p, p ∈ query ↔ p ∈ query') (op : CmpOp) (var : SymVar) :
    (literals query op var).Perm (literals query' op var) := by
  refine (List.perm_ext_iff_of_nodup (nodup_literals op var) (nodup_literals op var)).2 fun n => ?_
  simp only [mem_literals, h]

theorem solve_demandOn_congr (h : ∀ p, p ∈ query ↔ p ∈ query') (var : SymVar) (ty : ValueType) :
    (demandOn query var ty).solve var = (demandOn query' var ty).solve var := by
  apply Demand.solve_congr
  · rfl
  · exact literals_perm h .eq var
  · exact literals_perm h .ne var

/-! ## Whole queries -/

theorem SingleTyped.congr (h : ∀ p, p ∈ query ↔ p ∈ query') : SingleTyped query ↔ SingleTyped query' := by
  simp only [SingleTyped, h]

/-- The inputs in turn, each with the value that it gets or the answer that it forces. -/
def solutions (entries : List (SymVar × Demand)) : List (SymVar × Except Answer Value) :=
  entries.map fun e => (e.1, e.2.solve e.1)

theorem assign_congr {entries entries' : List (SymVar × Demand)} (h : solutions entries = solutions entries')
    (m : Model) : assign entries m = assign entries' m := by
  induction entries generalizing entries' m with
  | nil => rw [List.map_eq_nil_iff.1 h.symm]
  | cons e entries ih =>
      obtain ⟨e', rest, rfl, hhead, hrest⟩ := List.map_eq_cons_iff.1 h.symm
      obtain ⟨hvar, hsolve⟩ := Prod.mk.inj hhead
      rw [assign, assign, hsolve, hvar]
      split
      · exact ih hrest.symm _
      · rfl

theorem mem_solutions (hsingle : SingleTyped query) {var : SymVar} {a : Except Answer Value} :
    (var, a) ∈ solutions (demands query).entries ↔
      ∃ p ∈ query, p.var = var ∧ (demandOn query var p.ty).solve var = a := by
  simp only [solutions, List.mem_map]
  constructor
  · rintro ⟨⟨var, d⟩, he, heq⟩
    cases heq
    obtain ⟨p, hp, hvar, rfl⟩ := (mem_demands hsingle).1 he
    exact ⟨p, hp, hvar, rfl⟩
  · rintro ⟨p, hp, rfl, rfl⟩
    exact ⟨_, (mem_demands hsingle).2 ⟨p, hp, rfl, rfl⟩, rfl⟩

theorem solutions_congr (h : ∀ p, p ∈ query ↔ p ∈ query') (hsingle : SingleTyped query) :
    solutions (demands query).entries = solutions (demands query').entries := by
  have hascending : ∀ m : SortedMap SymVar Demand,
      (solutions m.entries).Pairwise fun a b => compare a.1 b.1 = .lt := fun m => List.pairwise_map.2 m.ascending
  refine SortedMap.entries_ext (hascending _) (hascending _) ?_
  rintro ⟨var, a⟩
  rw [mem_solutions hsingle, mem_solutions ((SingleTyped.congr h).1 hsingle)]
  simp only [h, solve_demandOn_congr h]

theorem solve_eq_assign (hsingle : SingleTyped query) : solve query = assign (demands query).entries {} := by
  rw [solve, mixed?_eq_none.2 hsingle]

theorem solve_of_mixed (hmixed : ¬ SingleTyped query) : ∃ reason, solve query = .unknown reason := by
  unfold solve
  cases hreason : mixed? query with
  | some reason => exact ⟨reason, rfl⟩
  | none => exact absurd (mixed?_eq_none.1 hreason) hmixed

/-- Two queries with the same predicates, in any order and any number, get the same answer if no input is used at two
types. Otherwise both are left open. -/
theorem solve_invariant (h : ∀ p, p ∈ query ↔ p ∈ query') :
    (SingleTyped query → solve query = solve query') ∧
      (¬ SingleTyped query →
        (∃ reason, solve query = .unknown reason) ∧ ∃ reason, solve query' = .unknown reason) := by
  refine ⟨fun hsingle => ?_, fun hmixed => ⟨solve_of_mixed hmixed, solve_of_mixed ?_⟩⟩
  · rw [solve_eq_assign hsingle, solve_eq_assign ((SingleTyped.congr h).1 hsingle)]
    exact assign_congr (solutions_congr h hsingle) {}
  · rwa [← SingleTyped.congr h]

/-- The inputs of the first two queries come in another order and with repeats, and one that is not numeric comes before
one that has no value. The two others use an input at two types and tell so in different ways. -/
theorem solve_invariant_reordered :
    let a : Predicate := ⟨.forCall 0 "get", .object, .ne, 0⟩
    let b : Predicate := ⟨.forCall 1 "ready", .bool, .eq, 1⟩
    let b' : Predicate := ⟨.forCall 1 "ready", .bool, .eq, 0⟩
    let c : Predicate := ⟨.forCall 1 "ready", .int, .eq, 1⟩
    solve [b, a, b', b] = solve [a, b', a, b] ∧
      solve [b, a, b', b] = .unknown (.notNumeric (.forCall 0 "get") .object) ∧
      (∃ reason, solve [b, c] = .unknown reason) ∧ (∃ reason, solve [c, b] = .unknown reason) ∧
      solve [b, c] ≠ solve [c, b] := by
  intro a b b' c
  have hsame : ∀ p, p ∈ [b, a, b', b] ↔ p ∈ [a, b', a, b] := by
    intro p
    simp only [List.mem_cons, List.not_mem_nil, or_false]
    tauto
  have hswap : ∀ p, p ∈ [b, c] ↔ p ∈ [c, b] := by
    intro p
    simp only [List.mem_cons, List.not_mem_nil, or_false]
    exact or_comm
  have hmixed : ¬ SingleTyped [b, c] := by
    intro hsingle
    cases hsingle b (by simp) c (by simp) rfl
  obtain ⟨hleft, hright⟩ := (solve_invariant hswap).2 hmixed
  refine ⟨(solve_invariant hsame).1 ?_, by decide, hleft, hright, by decide⟩
  unfold SingleTyped
  decide

end MockExplorer.Equality
