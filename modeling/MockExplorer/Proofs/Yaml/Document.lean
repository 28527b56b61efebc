import MockExplorer.Proofs.Yaml.Block
import MockExplorer.Proofs.Yaml.Library

/-!
# Reading block style back

The tokens of sections are read as a mapping of mappings, and the scalars in it as the truth values, numbers and
words that they were written for: the library of nodes reads back what it writes.
-/

namespace MockExplorer.Yaml

def plain (text : String) : Node := .scalar text true

def Entry.node (e : Entry) : Node × Node := (plain e.1.text, plain e.2.text)

def Section.node (s : Section) : Node × Node := (plain s.name.text, .mapping (s.entries.map Entry.node))

/-! ## Reading -/

theorem length_entryTokens (es : List Entry) : (es.flatMap Entry.tokens).length = 4 * es.length := by
  induction es with
  | nil => rfl
  | cons e es ih => simp [ih, Entry.tokens]; omega

section Reading

variable {fuel : Nat} {ts : List Token}

theorem readBlockPart_scalar (text : String) (hfuel : 2 ≤ fuel) :
    readBlockPart fuel (.scalar text true :: ts) = some (plain text, ts) := by
  obtain ⟨fuel, rfl⟩ : ∃ k, fuel = k + 2 := ⟨fuel - 2, by omega⟩
  simp [readBlockPart, endsBlockEntry, readNode, plain]

theorem readBlockMapping_entries (es : List Entry) (hfuel : es.length + 3 ≤ fuel) :
    readBlockMapping fuel (es.flatMap Entry.tokens ++ .blockEnd :: ts) = some (es.map Entry.node, ts) := by
  induction es generalizing fuel with
  | nil =>
      obtain ⟨fuel, rfl⟩ : ∃ k, fuel = k + 1 := ⟨fuel - 1, by omega⟩
      simp [readBlockMapping]
  | cons e es ih =>
      rw [List.length_cons] at hfuel
      obtain ⟨fuel, rfl⟩ : ∃ k, fuel = k + 1 := ⟨fuel - 1, by omega⟩
      have hpart : ∀ text ts, readBlockPart fuel (.scalar text true :: ts) = some (plain text, ts) :=
        fun text ts => readBlockPart_scalar text (by omega)
      have hmore := ih (by omega : es.length + 3 ≤ fuel)
      simp [readBlockMapping, Entry.tokens, hpart, hmore, Entry.node]

theorem readBlockPart_section (s : Section) (hfuel : s.entries.length + 5 ≤ fuel) :
    readBlockPart fuel (.mappingStart :: (s.entries.flatMap Entry.tokens ++ .blockEnd :: ts)) =
      some (.mapping (s.entries.map Entry.node), ts) := by
  obtain ⟨fuel, rfl⟩ : ∃ k, fuel = k + 2 := ⟨fuel - 2, by omega⟩
  have hentries : readBlockMapping fuel (s.entries.flatMap Entry.tokens ++ .blockEnd :: ts) = _ :=
    readBlockMapping_entries s.entries (by omega)
  simp [readBlockPart, endsBlockEntry, readNode, hentries]

theorem readBlockMapping_sections (ss : List Section)
    (hfuel : (ss.flatMap Section.tokens).length + 3 ≤ fuel) :
    readBlockMapping fuel (ss.flatMap Section.tokens ++ .blockEnd :: ts) = some (ss.map Section.node, ts) := by
  induction ss generalizing fuel with
  | nil =>
      obtain ⟨fuel, rfl⟩ : ∃ k, fuel = k + 1 := ⟨fuel - 1, by omega⟩
      simp [readBlockMapping]
  | cons s ss ih =>
      obtain ⟨fuel, rfl⟩ : ∃ k, fuel = k + 1 := ⟨fuel - 1, by omega⟩
      have hlen : (s.entries.flatMap Entry.tokens).length = 4 * s.entries.length := length_entryTokens _
      simp only [List.flatMap_cons, Section.tokens, List.length_append, List.length_cons, List.length_nil,
        hlen] at hfuel
      have hname : ∀ ts, readBlockPart fuel (.scalar s.name.text true :: ts) = some (plain s.name.text, ts) :=
        fun ts => readBlockPart_scalar _ (by omega)
      have hbody : ∀ ts, readBlockPart fuel
          (.mappingStart :: (s.entries.flatMap Entry.tokens ++ .blockEnd :: ts)) =
            some (.mapping (s.entries.map Entry.node), ts) :=
        fun ts => readBlockPart_section s (by omega)
      have hmore := ih (by omega : (ss.flatMap Section.tokens).length + 3 ≤ fuel)
      simp [readBlockMapping, Section.tokens, hname, hbody, hmore, Section.node]

end Reading

theorem document?_tokens (ss : List Section) :
    document? (.mappingStart :: (ss.flatMap Section.tokens ++ [.blockEnd])) =
      some (some (.mapping (ss.map Section.node))) := by
  have h : ∀ fuel, (ss.flatMap Section.tokens).length + 3 ≤ fuel →
      readNode (fuel + 1) true false (.mappingStart :: (ss.flatMap Section.tokens ++ [.blockEnd])) =
        some (.mapping (ss.map Section.node), []) := by
    intro fuel hfuel
    simp [readNode, readBlockMapping_sections ss hfuel]
  simp only [document?, List.length_cons, List.length_append, List.length_nil]
  rw [h _ (by omega)]
  rfl

/-! ## Writing -/

theorem toList_blockText (ss : List Section) : (blockText ss).toList = ss.flatMap Section.lines := by
  rw [blockText, String.toList_join]
  induction ss with
  | nil => rfl
  | cons s ss ih =>
      simp only [List.flatMap_cons, List.map_append, List.flatMap_append, ih]
      simp [Section.blockLines, Section.lines, entryLines, Entry.line, Word.chars, List.flatMap_map]

theorem read?_blockText (s : Section) (ss : List Section) :
    read? (blockText (s :: ss)) = some (some (.mapping ((s :: ss).map Section.node))) := by
  rw [read?, ← String.ofList_toList (s := blockText _), toList_blockText, tokens?_lines, Option.bind_some,
    document?_tokens]

/-! ## Numbers -/

theorem foldlM_digitIn? (cs : List Char) (n : Nat) (hcs : ∀ c ∈ cs, c.isDigit = true) :
    cs.foldlM (fun n c => (digitIn? 10 c).map (n * 10 + ·)) n = some (Nat.ofDigitChars 10 cs n) := by
  induction cs generalizing n with
  | nil => rfl
  | cons c cs ih =>
      have hc : c.isDigit = true := hcs c List.mem_cons_self
      have hlt : c.toNat - 48 < 10 := by
        have hle : c.toNat ≤ 57 := (Char.isDigit_iff_toNat.mp hc).2
        omega
      have hdigit : digitIn? 10 c = some (c.toNat - 48) := by
        simp [digitIn?, Json.hexValue?, hc, hlt]
      rw [List.foldlM_cons, hdigit, Nat.ofDigitChars_cons, Nat.mul_comm 10 n]
      exact ih _ fun x hx => hcs x (List.mem_cons_of_mem _ hx)

/-- Only zero is written with a leading zero. -/
theorem toDigits_eq_zero_cons {n : Nat} {ds : List Char} (h : Nat.toDigits 10 n = '0' :: ds) : ds = [] := by
  induction n using Nat.base_induction 10 (by decide) generalizing ds with
  | single m hm =>
      rw [Nat.toDigits_of_lt_base hm] at h
      exact (List.cons.inj h).2.symm
  | digit m k hk hm ih =>
      rw [← Nat.toDigits_append_toDigits (by decide) hm hk] at h
      obtain ⟨d, ds', hds⟩ := List.exists_cons_of_ne_nil (Nat.toDigits_ne_nil (n := m) (b := 10))
      rw [hds, List.cons_append, List.cons.injEq] at h
      rw [h.1] at hds
      have hzero : m = 0 := by
        have hvalue := Nat.ofDigitChars_ten_toDigits (n := m)
        rw [hds, ih hds] at hvalue
        exact hvalue.symm
      omega

theorem natural?_toString (n : Nat) : natural? (toString n) = some n := by
  have hdigits : ∀ c ∈ Nat.toDigits 10 n, c.isDigit = true :=
    fun c hc => Nat.isDigit_of_mem_toDigits (by decide) (by decide) hc
  have hnat : natIn? 10 (Nat.toDigits 10 n) = some n := by
    simp [natIn?, foldlM_digitIn? _ _ hdigits]
  have hpadded : isPaddedNumber (Nat.toDigits 10 n) = false := by
    unfold isPaddedNumber
    split
    · next ds hds => simp [toDigits_eq_zero_cons hds]
    · rfl
  have hnotMem : ∀ x, x.isDigit = false → x ∉ Nat.toDigits 10 n := by
    intro x hx hmem
    simp [hdigits x hmem] at hx
  have hsign : ∀ ds, Nat.toDigits 10 n = '+' :: ds → False :=
    fun ds hds => hnotMem '+' (by decide) (by simp [hds])
  have hradix : ∀ x ds, x.isDigit = false → Nat.toDigits 10 n = '0' :: x :: ds → False :=
    fun x ds hx hds => hnotMem x hx (by simp [hds])
  simp only [natural?, Nat.toString_eq_ofList_toDigits, String.toList_ofList]
  split
  · next ds hds => exact (hradix 'x' ds (by decide) hds).elim
  · next ds hds => exact (hradix 'o' ds (by decide) hds).elim
  · next ds hds => exact (hradix 'b' ds (by decide) hds).elim
  · simp [hpadded, hnat]

/-! ## Documents -/

theorem readUInt64?_toString (n : UInt64) : readUInt64? (plain (toString n.toNat)) = some n := by
  simp only [readUInt64?, plain, natural?_toString, Option.bind_some, n.toNat_lt_size, if_true, UInt64.ofNat_toNat]

theorem showsAtom_plain (a : Atom) : nodes.ShowsAtom (plain a.text) a := by
  cases a with
  | bool b =>
      cases b with
      | false => rfl
      | true => rfl
  | number n => exact readUInt64?_toString n
  | word w => rfl

theorem entries?_mapping {α : Type} (name : α → Word) (node : α → Node) (items : List α) :
    Node.entries? (.mapping (items.map fun item => (plain (name item).text, node item))) =
      some (items.map fun item => ((name item).text, node item)) := by
  rw [Node.entries?, List.mapM_map]
  exact List.mapM_pure

theorem showsEach_mapping {α : Type} {name : α → Word} {node : α → Node} {Shows : Node → α → Prop} {items : List α}
    (h : ∀ item ∈ items, Shows (node item) item) :
    nodes.ShowsEach name Shows (.mapping (items.map fun item => (plain (name item).text, node item))) items := by
  refine ⟨items.map fun item => ((name item).text, node item), entries?_mapping name node items, ?_⟩
  rw [List.forall₂_map_left_iff, List.forall₂_same]
  exact fun item hitem => ⟨rfl, h item hitem⟩

/-- The library of nodes reads back what it writes. -/
theorem readsBack_nodes : nodes.ReadsBack := by
  intro s ss
  refine ⟨blockText (s :: ss), .mapping ((s :: ss).map Section.node), rfl, ?_, ?_⟩
  · show (read? _).map _ = _
    rw [read?_blockText]
    rfl
  · refine showsEach_mapping fun s _ => ?_
    exact showsEach_mapping fun e _ => showsAtom_plain e.2

end MockExplorer.Yaml
