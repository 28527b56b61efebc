import MockExplorer.SortedMap

/-!
# Look-ups in sorted maps

The entries of a map are exactly its look-ups, because the order leaves room for one entry to a key. A
list of insertions leaves under a key some value that was inserted there, or what stood there before.
-/

namespace MockExplorer.SortedMap

variable {κ α : Type} [Ord κ] [Std.LawfulEqOrd κ]

/-! ## Entries -/

theorem lookup_eq_some {k : κ} {v : α} {l : List (κ × α)}
    (hl : l.Pairwise (fun a b => compare a.1 b.1 = .lt)) : lookup k l = some v ↔ (k, v) ∈ l := by
  induction l with
  | nil => simp [lookup]
  | cons e rest ih =>
      obtain ⟨k', v'⟩ := e
      obtain ⟨hhead, hrest⟩ := List.pairwise_cons.1 hl
      simp only [lookup]
      split
      · rename_i heq
        obtain rfl := Std.LawfulEqOrd.eq_of_compare heq
        -- No later entry has the key of the first one.
        have hnot : (k, v) ∉ rest := fun h => by simpa using hhead _ h
        simp [hnot, eq_comm]
      · rename_i hne
        have hk : k ≠ k' := by rintro rfl; simp at hne
        simp [ih hrest, hk]

theorem mem_entries {m : SortedMap κ α} {k : κ} {v : α} : (k, v) ∈ m.entries ↔ m.get? k = some v :=
  (lookup_eq_some m.ascending).symm

theorem mem_values {m : SortedMap κ α} {v : α} : v ∈ m.values ↔ ∃ k, m.get? k = some v := by
  simp [values, ← mem_entries]

theorem mem_keys {m : SortedMap κ α} {k : κ} : k ∈ m.keys ↔ ∃ v, m.get? k = some v := by
  simp [keys, ← mem_entries]

theorem find?_entries [DecidableEq κ] (m : SortedMap κ α) (k : κ) :
    m.entries.find? (·.1 = k) = (m.get? k).map (k, ·) := by
  unfold get?
  induction m.entries with
  | nil => rfl
  | cons e rest ih =>
      by_cases hk : e.1 = k
      · simp [lookup, hk.symm]
      · have hne : compare k e.1 ≠ .eq := fun heq => hk (Std.LawfulEqOrd.eq_of_compare heq).symm
        simp [lookup, hk, hne, ih]

theorem nodup_entries (m : SortedMap κ α) : m.entries.Nodup :=
  m.ascending.imp fun {e e'} hlt heq => by simp [heq] at hlt

/-- Entry lists in key order that have the same entries are the same. -/
theorem entries_ext [Std.TransOrd κ] {l l' : List (κ × α)} (hl : l.Pairwise fun a b => compare a.1 b.1 = .lt)
    (hl' : l'.Pairwise fun a b => compare a.1 b.1 = .lt) (h : ∀ e, e ∈ l ↔ e ∈ l') : l = l' := by
  have hperm : l.Perm l' :=
    (List.perm_ext_iff_of_nodup (nodup_entries ⟨l, hl⟩) (nodup_entries ⟨l', hl'⟩)).2 h
  refine hperm.eq_of_pairwise (fun e e' _ _ hlt hgt => ?_) hl hl'
  have hloop := Std.TransCmp.lt_trans hlt hgt
  simp at hloop

/-- Maps with the same look-ups are the same. -/
theorem ext_get? [Std.TransOrd κ] {m m' : SortedMap κ α} (h : ∀ k, m.get? k = m'.get? k) : m = m' := by
  have hentries : m.entries = m'.entries := by
    refine entries_ext m.ascending m'.ascending fun e => ?_
    rw [mem_entries, mem_entries, h]
  cases m
  cases m'
  cases hentries
  rfl

/-! ## Insertions -/

variable [Std.TransOrd κ]

theorem get?_insert [DecidableEq κ] (m : SortedMap κ α) (k k' : κ) (v : α) :
    (m.insert k v).get? k' = if k' = k then some v else m.get? k' := by
  split
  · rename_i h; rw [h, get?_insert_self]
  · rename_i h; exact get?_insert_of_ne m v h

theorem get?_insertIfNew [DecidableEq κ] (m : SortedMap κ α) (k k' : κ) (v : α) :
    (m.insertIfNew k v).get? k' = (m.get? k').or (if k' = k then some v else none) := by
  unfold insertIfNew contains
  by_cases h : (m.get? k).isSome
  · obtain ⟨w, hw⟩ := Option.isSome_iff_exists.1 h
    rw [if_pos h]
    by_cases hk : k' = k <;> simp [hk, hw]
  · have hnone : m.get? k = none := by simpa using h
    rw [if_neg h, get?_insert]
    by_cases hk : k' = k <;> simp [hk, hnone]

theorem get?_foldl_insert_of_notMem [DecidableEq κ] {l : List (κ × α)} {m : SortedMap κ α} {k : κ}
    (hk : k ∉ l.map Prod.fst) : (l.foldl (fun m e => m.insert e.1 e.2) m).get? k = m.get? k := by
  induction l generalizing m with
  | nil => rfl
  | cons e rest ih =>
      simp only [List.map_cons, List.mem_cons, not_or] at hk
      rw [List.foldl_cons, ih hk.2, get?_insert_of_ne m _ hk.1]

theorem get?_foldl_insert_of_mem [DecidableEq κ] {l : List (κ × α)} {m : SortedMap κ α} {k : κ}
    (hk : k ∈ l.map Prod.fst) :
    ∃ v, (k, v) ∈ l ∧ (l.foldl (fun m e => m.insert e.1 e.2) m).get? k = some v := by
  induction l generalizing m with
  | nil => simp at hk
  | cons e rest ih =>
      by_cases hrest : k ∈ rest.map Prod.fst
      · obtain ⟨v, hv, hget⟩ := ih (m := m.insert e.1 e.2) hrest
        exact ⟨v, List.mem_cons_of_mem _ hv, hget⟩
      · obtain rfl : k = e.1 := by simpa [hrest] using hk
        exact ⟨e.2, List.mem_cons_self, by
          rw [List.foldl_cons, get?_foldl_insert_of_notMem hrest, get?_insert_self]⟩

/-- A map is what its entries make up. -/
theorem ofList_entries [DecidableEq κ] (m : SortedMap κ α) : ofList m.entries = m := by
  refine ext_get? fun k => ?_
  by_cases hk : k ∈ m.entries.map Prod.fst
  · obtain ⟨v, hv, hget⟩ := get?_foldl_insert_of_mem (m := empty) hk
    exact hget.trans (mem_entries.1 hv).symm
  · have hnone : m.get? k = none := by
      rw [Option.eq_none_iff_forall_ne_some]
      exact fun v hv => hk (List.mem_map_of_mem (f := Prod.fst) (mem_entries.2 hv))
    rw [hnone]
    exact get?_foldl_insert_of_notMem hk

end MockExplorer.SortedMap
