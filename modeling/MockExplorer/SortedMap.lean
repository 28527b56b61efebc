/-!
# Maps kept in key order

A finite map is the list of its entries in strictly ascending key order. The order is part of the type,
so two maps with the same look-ups are the same map, and every listing of a map comes out in key order.
-/

namespace MockExplorer

/-- A finite map as its entries in strictly ascending key order. -/
structure SortedMap (κ : Type) (α : Type) [Ord κ] where
  entries : List (κ × α)
  ascending : entries.Pairwise (fun a b => compare a.1 b.1 = .lt)
deriving DecidableEq

namespace SortedMap

variable {κ α β : Type} [Ord κ]

/-! ## Entry lists -/

/-- The value under `k` in an entry list. -/
def lookup (k : κ) : List (κ × α) → Option α
  | [] => none
  | (k', v) :: rest => if compare k k' = .eq then some v else lookup k rest

/-- Puts `(k, v)` at its place in an entry list, in exchange for an entry with the same key. -/
def place (k : κ) (v : α) : List (κ × α) → List (κ × α)
  | [] => [(k, v)]
  | (k', v') :: rest =>
    match compare k k' with
    | .lt => (k, v) :: (k', v') :: rest
    | .eq => (k, v) :: rest
    | .gt => (k', v') :: place k v rest

theorem mem_place {k : κ} {v : α} {e : κ × α} {l : List (κ × α)} (h : e ∈ place k v l) :
    e = (k, v) ∨ e ∈ l := by
  induction l with
  | nil => exact .inl (by simpa [place] using h)
  | cons x rest ih =>
    obtain ⟨k', v'⟩ := x
    simp only [place] at h
    split at h
    · simpa using h
    · rcases List.mem_cons.1 h with rfl | h
      · exact .inl rfl
      · exact .inr (List.mem_cons_of_mem _ h)
    · rcases List.mem_cons.1 h with rfl | h
      · exact .inr List.mem_cons_self
      · exact (ih h).imp_right (List.mem_cons_of_mem _)

theorem place_ascending [Std.TransOrd κ] [Std.LawfulEqOrd κ] (k : κ) (v : α) {l : List (κ × α)}
    (h : l.Pairwise (fun a b => compare a.1 b.1 = .lt)) :
    (place k v l).Pairwise (fun a b => compare a.1 b.1 = .lt) := by
  induction l with
  | nil => simp [place]
  | cons x rest ih =>
    obtain ⟨k', v'⟩ := x
    have hrest := (List.pairwise_cons.1 h).2
    have hhead := (List.pairwise_cons.1 h).1
    simp only [place]
    split
    · rename_i hlt
      refine List.pairwise_cons.2 ⟨fun e he => ?_, h⟩
      rcases List.mem_cons.1 he with rfl | he
      · exact hlt
      · exact Std.TransCmp.lt_trans hlt (hhead e he)
    · rename_i heq
      obtain rfl := Std.LawfulEqOrd.eq_of_compare heq
      exact List.pairwise_cons.2 ⟨hhead, hrest⟩
    · rename_i hgt
      refine List.pairwise_cons.2 ⟨fun e he => ?_, ih hrest⟩
      rcases mem_place he with rfl | he
      · exact Std.OrientedCmp.gt_iff_lt.1 hgt
      · exact hhead e he

theorem lookup_place_self [Std.LawfulEqOrd κ] (k : κ) (v : α) (l : List (κ × α)) : lookup k (place k v l) = some v := by
  induction l with
  | nil => simp [place, lookup]
  | cons x rest ih =>
    obtain ⟨k', v'⟩ := x
    simp only [place]
    split
    · simp [lookup]
    · simp [lookup]
    · rename_i hgt
      simp [lookup, hgt, ih]

theorem lookup_place_of_ne [Std.LawfulEqOrd κ] {k k' : κ} (v : α) (l : List (κ × α)) (h : k' ≠ k) :
    lookup k' (place k v l) = lookup k' l := by
  have hne : compare k' k ≠ .eq := fun he => h (Std.LawfulEqOrd.eq_of_compare he)
  induction l with
  | nil => simp [place, lookup, hne]
  | cons x rest ih =>
    obtain ⟨k'', v''⟩ := x
    simp only [place]
    split
    · simp [lookup, hne]
    · rename_i heq
      obtain rfl := Std.LawfulEqOrd.eq_of_compare heq
      simp [lookup, hne]
    · simp [lookup, ih]

/-! ## The map -/

/-- The map with no entries. -/
def empty : SortedMap κ α := ⟨[], .nil⟩

instance : EmptyCollection (SortedMap κ α) := ⟨empty⟩

instance : Inhabited (SortedMap κ α) := ⟨empty⟩

/-- The value under `k`. -/
def get? (m : SortedMap κ α) (k : κ) : Option α := lookup k m.entries

/-- Whether some value stands under `k`. -/
def contains (m : SortedMap κ α) (k : κ) : Bool := (m.get? k).isSome

/-- The keys in ascending order. -/
def keys (m : SortedMap κ α) : List κ := m.entries.map Prod.fst

/-- The values in the order of their keys. -/
def values (m : SortedMap κ α) : List α := m.entries.map Prod.snd

/-- The number of entries. -/
def size (m : SortedMap κ α) : Nat := m.entries.length

/-- Whether there is no entry. -/
def isEmpty (m : SortedMap κ α) : Bool := m.entries.isEmpty

@[simp] theorem get?_empty (k : κ) : (empty : SortedMap κ α).get? k = none := rfl

variable [Std.TransOrd κ] [Std.LawfulEqOrd κ]

/-- Sets the value under `k`. -/
def insert (m : SortedMap κ α) (k : κ) (v : α) : SortedMap κ α :=
  ⟨place k v m.entries, place_ascending k v m.ascending⟩

/-- Sets the value under `k` unless there is one already. -/
def insertIfNew (m : SortedMap κ α) (k : κ) (v : α) : SortedMap κ α :=
  if m.contains k then m else m.insert k v

/-- Changes the value under `k` by `f`, starting from `start` where there is none. -/
def update (m : SortedMap κ α) (k : κ) (start : α) (f : α → α) : SortedMap κ α :=
  m.insert k (f ((m.get? k).getD start))

/-- The map of a list of entries; of two entries with one key the later stays. -/
def ofList (l : List (κ × α)) : SortedMap κ α :=
  l.foldl (fun m e => m.insert e.1 e.2) empty

/-! ## Look-ups -/

@[simp] theorem get?_insert_self (m : SortedMap κ α) (k : κ) (v : α) : (m.insert k v).get? k = some v :=
  lookup_place_self k v m.entries

theorem get?_insert_of_ne (m : SortedMap κ α) {k k' : κ} (v : α) (h : k' ≠ k) :
    (m.insert k v).get? k' = m.get? k' :=
  lookup_place_of_ne v m.entries h

end SortedMap

end MockExplorer
