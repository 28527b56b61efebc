import MockExplorer.Form.Report
import MockExplorer.Form.Target
import MockExplorer.Proofs.SortedMap

/-!
# Reading what was written

A form is lawful if every value is read back from the document that it is written as. Lists, maps and records of
lawful forms are lawful, so the forms of all data are.
-/

namespace MockExplorer

open JsonForm

/-- Every value is read back from the document that it is written as. -/
class LawfulForm (α : Type) [JsonForm α] : Prop where
  read?_write : ∀ a : α, read? (write a) = some a

attribute [simp] LawfulForm.read?_write

section

variable {α : Type} [JsonForm α] [LawfulForm α]

theorem LawfulForm.write_injective : Function.Injective (write : α → Json) := by
  intro a b h
  have hread := congrArg (read? (α := α)) h
  rwa [read?_write, read?_write, Option.some.injEq] at hread

/-! ## Scalars -/

instance : LawfulForm Bool := ⟨fun _ => rfl⟩

instance : LawfulForm String := ⟨fun _ => rfl⟩

instance : LawfulForm UInt32 where
  read?_write n := by
    have hrange : 0 ≤ (n.toNat : Int) ∧ (n.toNat : Int) < UInt32.size :=
      ⟨Int.natCast_nonneg _, Int.ofNat_lt.2 n.toNat_lt⟩
    exact (if_pos hrange).trans (by simp)

instance : LawfulForm UInt64 where
  read?_write n := by
    have hrange : 0 ≤ (n.toNat : Int) ∧ (n.toNat : Int) < UInt64.size :=
      ⟨Int.natCast_nonneg _, Int.ofNat_lt.2 n.toNat_lt⟩
    exact (if_pos hrange).trans (by simp)

instance : LawfulForm Int32 where
  read?_write n := (if_pos ⟨n.minValue_le_toInt, n.toInt_le⟩).trans (by simp)

instance : LawfulForm Int64 where
  read?_write n := (if_pos ⟨n.minValue_le_toInt, n.toInt_le⟩).trans (by simp)

/-! ## Collections -/

theorem mapM_eq_some {β γ : Type} {f : β → Option γ} {g : β → γ} {l : List β} (h : ∀ b ∈ l, f b = some (g b)) :
    l.mapM f = some (l.map g) := by
  induction l with
  | nil => rfl
  | cons b l ih =>
      obtain ⟨hb, hl⟩ := List.forall_mem_cons.1 h
      simp [hb, ih hl]

instance : LawfulForm (List α) where
  read?_write l := by
    show (l.map write).mapM read? = some l
    rw [List.mapM_map]
    exact (mapM_eq_some fun a _ => LawfulForm.read?_write a).trans (congrArg some (List.map_id' l))

/-- What may be absent is read back if presence is never written as null. -/
theorem LawfulForm.option (h : ∀ a : α, write a ≠ .null) (o : Option α) : read? (write o) = some o := by
  cases o with
  | none => rfl
  | some a =>
      have hread : ∀ j : Json, j ≠ .null → read? (α := Option α) j = (read? j).map some := by
        intro j hj
        cases j with
        | null => exact absurd rfl hj
        | _ => rfl
      exact (hread _ (h a)).trans (by simp)

instance : LawfulForm (SortedMap SymVar α) where
  read?_write m := by
    have hentries : (m.entries.map fun e => (e.1.name, write e.2)).mapM
        (fun f => (read? f.2).map fun a => (SymVar.mk f.1, a)) = some m.entries := by
      rw [List.mapM_map]
      refine (mapM_eq_some fun e _ => ?_).trans (congrArg some (List.map_id' m.entries))
      simp
    show Option.map SortedMap.ofList _ = some m
    rw [hentries, Option.map_some, SortedMap.ofList_entries]

end

/-! ## Records -/

theorem filter_fst_eq {fields : List (String × Json)} (hnodup : (fields.map Prod.fst).Nodup) {f : String × Json}
    (hf : f ∈ fields) : fields.filter (fun g => g.1 = f.1) = [f] := by
  induction fields with
  | nil => cases hf
  | cons g fields ih =>
      obtain ⟨hnew, hrest⟩ := List.nodup_cons.1 hnodup
      rcases List.mem_cons.1 hf with rfl | hf
      · have hnone : fields.filter (fun g => g.1 = f.1) = [] := by
          rw [List.filter_eq_nil_iff]
          intro g hg hname
          exact hnew (List.mem_map.2 ⟨g, hg, by simpa using hname⟩)
        simp [hnone]
      · have hne : g.1 ≠ f.1 := fun heq => hnew (heq ▸ List.mem_map_of_mem hf)
        simp [hne, ih hrest hf]

/-- The fields of an object that has each of them once, in declared order. -/
theorem Json.fields?_zip (names : List String) (values : List Json) (hnodup : names.Nodup)
    (hlength : names.length = values.length) :
    Json.fields? names (.object (names.zip values)) = some (values.map some) := by
  have hnames : (names.zip values).map Prod.fst = names := List.map_fst_zip (Nat.le_of_eq hlength)
  have hvalues : (names.zip values).map Prod.snd = values := List.map_snd_zip (Nat.le_of_eq hlength.symm)
  have hpick : ((names.zip values).map Prod.fst).mapM (fun name => pick? name (names.zip values)) =
      some (((names.zip values).map Prod.snd).map some) := by
    rw [List.mapM_map, List.map_map]
    refine mapM_eq_some fun f hf => ?_
    rw [Function.comp_apply, pick?, filter_fst_eq (hnames.symm ▸ hnodup) hf]
    rfl
  rwa [hnames, hvalues] at hpick

@[simp] theorem required?_write {α : Type} [JsonForm α] [LawfulForm α] (a : α) :
    required? (some (write a)) = some a := by
  simp [required?]

@[simp] theorem optional?_write {α : Type} [JsonForm α] [LawfulForm α] (default a : α) :
    optional? default (some (write a)) = some a := by
  simp [optional?]

/-! ## Values, paths and models -/

instance : LawfulForm SymVar := ⟨fun _ => rfl⟩

instance : LawfulForm LocationId where
  read?_write l := by
    show (read? (write l.id)).map LocationId.mk = some l
    simp

instance : LawfulForm ValueType where
  read?_write ty := by cases ty <;> rfl

instance : LawfulForm CmpOp where
  read?_write op := by cases op <;> rfl

instance : LawfulForm Value where
  read?_write v := by
    cases v with
    | null => rfl
    | bool b => rfl
    | int n => exact congrArg (Option.map Value.int) (required?_write n)
    | long n => exact congrArg (Option.map Value.long) (required?_write n)
    | boxed n =>
        have hbox : read? (write n) = some n := LawfulForm.option (fun _ h => by cases h) n
        exact congrArg (Option.map Value.boxed) hbox

instance : LawfulForm Predicate where
  read?_write p := by
    have hfields : Json.fields? _ (write p) = _ :=
      Json.fields?_zip ["var", "ty", "op", "rhs"] [write p.var, write p.ty, write p.op, write p.rhs] (by decide) rfl
    simp only [read?, hfields]
    simp

instance : LawfulForm Clause where
  read?_write c := by
    have hfields : Json.fields? _ (write c) = _ :=
      Json.fields?_zip ["location", "predicate"] [write c.location, write c.predicate] (by decide) rfl
    simp only [read?, hfields]
    simp

instance : LawfulForm PathCondition where
  read?_write p := by
    have hfields : Json.fields? _ (write p) = _ :=
      Json.fields?_zip ["inputs", "clauses"] [write p.inputs, write p.clauses] (by decide) rfl
    simp only [read?, hfields]
    simp

instance : LawfulForm Model where
  read?_write m := by
    have hfields : Json.fields? _ (write m) = _ :=
      Json.fields?_zip ["assignments"] [write m.assignments] (by decide) rfl
    simp only [read?, hfields]
    simp

/-! ## Targets -/

instance : LawfulForm Modifiers where
  read?_write m := by
    have hfields : Json.fields? _ (write m) = _ :=
      Json.fields?_zip ["is_final", "is_static", "is_private"]
        [write m.isFinal, write m.isStatic, write m.isPrivate] (by decide) rfl
    simp only [read?, hfields]
    simp

instance : LawfulForm MethodSig where
  read?_write m := by
    have hfields : Json.fields? _ (write m) = _ :=
      Json.fields?_zip ["name", "params", "returns", "modifiers"]
        [write m.name, write m.params, write m.returns, write m.modifiers] (by decide) rfl
    simp only [read?, hfields]
    simp

instance : LawfulForm TypeKind where
  read?_write k := by
    cases k with
    | classType isFinal isAbstract => rfl
    | _ => rfl

instance : LawfulForm Interception where
  read?_write i := by cases i <;> rfl

instance : LawfulForm MockTarget where
  read?_write t := by
    have hfields : Json.fields? _ (write t) = _ :=
      Json.fields?_zip ["name", "kind", "methods"] [write t.name, write t.kind, write t.methods] (by decide) rfl
    simp only [read?, hfields]
    simp

/-! ## Settings -/

instance : LawfulForm MockingMode where
  read?_write m := by cases m <;> rfl

instance : LawfulForm MockConfig where
  read?_write c := by
    have hfields : Json.fields? _ (write c) = _ :=
      Json.fields?_zip ["enabled", "mode", "call_site_rewrite"]
        [write c.enabled, write c.mode, write c.callSiteRedirect] (by decide) rfl
    simp only [read?, hfields]
    simp

instance : LawfulForm CampaignConfig where
  read?_write c := by
    have hfields : Json.fields? _ (write c) = _ :=
      Json.fields?_zip ["max_executions", "workers", "batch_size", "stop_when_complete"]
        [write c.maxExecutions, write c.workers, write c.batchSize, write c.stopWhenComplete] (by decide) rfl
    simp only [read?, hfields]
    simp

instance : LawfulForm Config where
  read?_write c := by
    have hfields : Json.fields? _ (write c) = _ :=
      Json.fields?_zip ["mock", "campaign"] [write c.mock, write c.campaign] (by decide) rfl
    simp only [read?, hfields]
    simp

/-! ## Reports -/

instance : LawfulForm BranchState where
  read?_write s := by cases s <;> rfl

instance : LawfulForm CaseStatus where
  read?_write s := by
    cases s with
    | failed error => rfl
    | fatal error => rfl
    | _ => rfl

instance : LawfulForm CaseReport where
  read?_write r := by
    have hfields : Json.fields? _ (write r) = _ :=
      Json.fields?_zip ["name", "status", "executions", "locations", "inputs"]
        [write r.name, write r.status, write r.executions, write r.locations, write r.inputs] (by decide) rfl
    simp only [read?, hfields]
    simp

/-! ## All forms -/

/-- Reading succeeds on what was written and gives the value back, and different values are written differently. -/
structure JsonForm.RoundTrips (α : Type) [JsonForm α] : Prop where
  read?_write : ∀ a : α, read? (write a) = some a
  injective : Function.Injective (write : α → Json)

theorem JsonForm.RoundTrips.of_lawful {α : Type} [JsonForm α] [LawfulForm α] : RoundTrips α :=
  ⟨LawfulForm.read?_write, LawfulForm.write_injective⟩

/-- Every form round-trips. Above all, null, an empty box, and one number at three widths have different documents. -/
theorem JsonForm.roundTrips_all :
    (RoundTrips Value ∧ RoundTrips ValueType ∧ RoundTrips CmpOp ∧ RoundTrips Predicate ∧ RoundTrips Clause ∧
      RoundTrips PathCondition ∧ RoundTrips Model) ∧
    (RoundTrips MethodSig ∧ RoundTrips TypeKind ∧ RoundTrips MockTarget ∧ RoundTrips Interception) ∧
    (RoundTrips MockConfig ∧ RoundTrips CampaignConfig ∧ RoundTrips Config) ∧
    (RoundTrips BranchState ∧ RoundTrips CaseStatus ∧ RoundTrips CaseReport) ∧
    ∀ n : Int32, ([.null, .boxed none, .int n, .long n.toInt64, .boxed (some n)].map (write (α := Value))).Nodup := by
  have hvalues : ∀ n : Int32, [Value.null, .boxed none, .int n, .long n.toInt64, .boxed (some n)].Nodup := by simp
  exact ⟨⟨.of_lawful, .of_lawful, .of_lawful, .of_lawful, .of_lawful, .of_lawful, .of_lawful⟩,
    ⟨.of_lawful, .of_lawful, .of_lawful, .of_lawful⟩, ⟨.of_lawful, .of_lawful, .of_lawful⟩,
    ⟨.of_lawful, .of_lawful, .of_lawful⟩,
    fun n => List.Pairwise.map _ (fun _ _ hne heq => hne (LawfulForm.write_injective heq)) (hvalues n)⟩

end MockExplorer
