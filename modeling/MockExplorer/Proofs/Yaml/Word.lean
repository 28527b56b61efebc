import MockExplorer.Yaml.Library
import MockExplorer.Yaml.Token

/-!
# Plain words

A word of letters, digits and underscores is read as one plain scalar, up to the colon that makes it a key
or to the end of its line. What follows the line is skipped as far as it is blank.
-/

namespace MockExplorer.Yaml

abbrev Word.chars (w : Word) : List Char := w.text.toList

/-! ## Characters -/

section Character

variable {c : Char}

theorem ne_of_isWordChar {x : Char} (hc : isWordChar c = true) (hx : isWordChar x = false) : c ≠ x := by
  rintro rfl
  simp [hc] at hx

theorem isSpace_of_isWordChar (hc : isWordChar c = true) : isSpace c = false := by
  simp only [isSpace, isBlank, isBreak, Bool.or_eq_false_iff, decide_eq_false_iff_not]
  and_intros <;> exact ne_of_isWordChar hc (by decide)

theorem isIndicator_of_isWordChar (hc : isWordChar c = true) : Scanner.isIndicator c = false := by
  simp only [Scanner.isIndicator, isFlowIndicator, Bool.or_eq_false_iff, decide_eq_false_iff_not]
  and_intros <;> exact ne_of_isWordChar hc (by decide)

theorem toNat_of_isWordChar (hc : isWordChar c = true) : 48 ≤ c.toNat ∧ c.toNat ≤ 122 := by
  rw [isWordChar, Bool.or_eq_true, decide_eq_true_eq] at hc
  obtain hc | rfl := hc
  · change ((decide ('A'.val ≤ c.val ∧ c.val ≤ 'Z'.val) || ('a'.val ≤ c.val && c.val ≤ 'z'.val))
      || c.isDigit) = true at hc
    simp only [Bool.or_eq_true, Bool.and_eq_true, decide_eq_true_eq, UInt32.le_iff_toNat_le,
      Char.isDigit_iff_toNat] at hc
    obtain (h | h) | h := hc
    · exact ⟨Nat.le_trans (by decide) h.1, Nat.le_trans h.2 (by decide)⟩
    · exact ⟨Nat.le_trans (by decide) h.1, Nat.le_trans h.2 (by decide)⟩
    · exact ⟨h.1, Nat.le_trans h.2 (by decide)⟩
  · decide

theorem isPrintable_of_isWordChar (hc : isWordChar c = true) : isPrintable c = true := by
  obtain ⟨hlow, hhigh⟩ := toNat_of_isWordChar hc
  have h : 32 ≤ c.toNat ∧ c.toNat ≤ 126 := by omega
  simp [isPrintable, h]

theorem utf8Size_of_isWordChar (hc : isWordChar c = true) : c.utf8Size = 1 := by
  have h := (toNat_of_isWordChar hc).2
  rw [Char.utf8Size_eq_one_iff, UInt32.le_iff_toNat_le]
  exact Nat.le_trans h (by decide)

end Character

theorem Word.isWordChar (w : Word) : ∀ c ∈ w.chars, Yaml.isWordChar c = true :=
  List.all_eq_true.mp w.all_isWordChar

theorem Word.exists_cons (w : Word) : ∃ c cs, w.chars = c :: cs ∧ Yaml.isWordChar c = true := by
  obtain ⟨c, cs, hw⟩ : ∃ c cs, w.chars = c :: cs := List.exists_cons_of_ne_nil w.ne_nil
  exact ⟨c, cs, hw, w.isWordChar c (by rw [hw]; exact List.mem_cons_self)⟩

theorem Word.length_pos (w : Word) : 0 < w.chars.length := List.length_pos_iff.mpr w.ne_nil

theorem byteLength_word (w : Word) : byteLength w.chars = w.chars.length := by
  have hfold : ∀ (cs : List Char) (n : Nat), (∀ c ∈ cs, isWordChar c = true) →
      cs.foldl (fun n c => n + c.utf8Size) n = n + cs.length := by
    intro cs
    induction cs with
    | nil => intro n _; rfl
    | cons c cs ih =>
        intro n h
        rw [List.foldl_cons, ih _ fun x hx => h x (List.mem_cons_of_mem _ hx),
          utf8Size_of_isWordChar (h c List.mem_cons_self), List.length_cons]
        omega
  rw [byteLength, hfold _ 0 w.isWordChar, Nat.zero_add]

/-! ## Blank text -/

/-- The text is at its end, at a word or at a colon: there is nothing to skip. -/
def Solid (cs : List Char) : Prop := ∀ c ∈ cs.head?, isWordChar c = true ∨ c = ':'

theorem solid_word (w : Word) (r : List Char) : Solid (w.chars ++ r) := by
  obtain ⟨c, cs, hw, hc⟩ := w.exists_cons
  intro x hx
  have hx : c = x := by simpa [hw] using hx
  exact .inl (hx ▸ hc)

theorem solid_colon (r : List Char) : Solid (':' :: r) := by
  intro c hc
  exact .inr (by simpa using hc.symm)

theorem Solid.head {c : Char} {cs : List Char} (h : Solid (c :: cs)) :
    isBlank c = false ∧ isBreak c = false ∧ c ≠ '#' ∧ c ≠ byteOrderMark := by
  obtain hc | rfl := h c rfl
  · have hspace := isSpace_of_isWordChar hc
    rw [isSpace, Bool.or_eq_false_iff] at hspace
    exact ⟨hspace.1, hspace.2, ne_of_isWordChar hc (by decide), ne_of_isWordChar hc (by decide)⟩
  · decide

section Blank

variable {more : List Char} {index line column n : Nat}

theorem takeBreak?_solid {c : Cursor} (h : Solid c.rest) : c.takeBreak? = none := by
  rw [Cursor.takeBreak?]
  split
  · next hrest => exact absurd (hrest ▸ h).head.2.1 (by decide)
  · next hrest => simp [(hrest ▸ h).head.2.1]
  · rfl

theorem takeBreak?_lineFeed :
    Cursor.takeBreak? ⟨'\n' :: more, index, line, column⟩ = some ('\n', ⟨more, index + 1, line + 1, 0⟩) := by
  simp [Cursor.takeBreak?]
  decide

theorem takeBreak?_blank : Cursor.takeBreak? ⟨' ' :: more, index, line, column⟩ = none := by
  simp [Cursor.takeBreak?]
  decide

theorem advance_one {x : Char} (hx : x.utf8Size = 1) :
    Cursor.advance ⟨x :: more, index, line, column⟩ 1 = ⟨more, index + 1, line, column + 1⟩ := by
  simp [Cursor.advance, byteLength, hx]

theorem advance_blank :
    Cursor.advance ⟨' ' :: more, index, line, column⟩ 1 = ⟨more, index + 1, line, column + 1⟩ :=
  advance_one (by decide)

theorem takeGap?_blanks (hmore : Solid more) (margin : Nat) {g : Gap} (hg : g.breaks ≠ []) (fuel : Nat)
    (hfuel : n ≤ fuel) :
    takeGap? margin fuel g ⟨List.replicate n ' ' ++ more, index, line, column⟩ =
      some (g, ⟨more, index + n, line, column + n⟩) := by
  induction n generalizing fuel index column with
  | zero =>
      cases fuel with
      | zero => rfl
      | succ fuel =>
          rw [takeGap?, takeBreak?_solid (by simpa using hmore)]
          cases more with
          | nil => rfl
          | cons c more => simp [hmore.head.1]
  | succ n ih =>
      obtain ⟨fuel, rfl⟩ : ∃ k, fuel = k + 1 := ⟨fuel - 1, by omega⟩
      rw [List.replicate_succ, List.cons_append, takeGap?, takeBreak?_blank]
      have hblank : isBlank ' ' = true := by decide
      have hempty : g.breaks.isEmpty = false := by simpa using hg
      have htab : (' ' = '\t') = False := by simp
      simp only [hblank, hempty, htab, decide_false, Bool.false_and, if_true, if_false, Bool.false_eq_true,
        advance_blank]
      rw [ih fuel (by omega)]
      simp only [Nat.add_assoc, Nat.add_comm 1 n]

theorem takeGap?_line (hmore : Solid more) (margin : Nat) (fuel : Nat) (hfuel : n < fuel) :
    takeGap? margin fuel {} ⟨'\n' :: (List.replicate n ' ' ++ more), index, line, column⟩ =
      some ({ breaks := ['\n'] }, ⟨more, index + 1 + n, line + 1, n⟩) := by
  obtain ⟨fuel, rfl⟩ : ∃ k, fuel = k + 1 := ⟨fuel - 1, by omega⟩
  rw [takeGap?, takeBreak?_lineFeed]
  show takeGap? margin fuel { breaks := ['\n'] } _ = _
  rw [takeGap?_blanks hmore margin (List.cons_ne_nil _ _) fuel (by omega), Nat.zero_add]

end Blank

/-! ## Plain scalars -/

theorem plainWord?_append {cs r : List Char} (hcs : ∀ c ∈ cs, isWordChar c = true)
    (hr : plainWord? false r = some []) : plainWord? false (cs ++ r) = some cs := by
  induction cs with
  | nil => exact hr
  | cons c cs ih =>
      have hc := hcs c List.mem_cons_self
      have hcolon : c ≠ ':' := ne_of_isWordChar hc (by decide)
      rw [List.cons_append, plainWord?, ih fun x hx => hcs x (List.mem_cons_of_mem _ hx)]
      simp [isSpace_of_isWordChar hc, misplacedColon, stopsPlain, hcolon]

theorem plainWord?_colon {r : List Char} (hr : endsWord r = true) : plainWord? false (':' :: r) = some [] := by
  have hspace : isSpace ':' = false := by decide
  simp [plainWord?, hspace, misplacedColon, stopsPlain, hr]

theorem plainWord?_lineFeed (r : List Char) : plainWord? false ('\n' :: r) = some [] := by
  have hspace : isSpace '\n' = true := by decide
  simp [plainWord?, hspace]

section Plain

variable (w : Word) {r more : List Char} {index line column n margin : Nat}

/-- The place behind a word. -/
theorem advance_word :
    Cursor.advance ⟨w.chars ++ r, index, line, column⟩ w.chars.length =
      ⟨r, index + w.chars.length, line, column + w.chars.length⟩ := by
  simp only [Cursor.advance, List.drop_left, List.take_left, byteLength_word]

theorem atMarker_of_ne {c : Cursor} {x mark : Char} {cs : List Char} (hrest : c.rest = x :: cs)
    (hx : x ≠ mark) : c.atMarker mark = false := by
  rw [Cursor.atMarker]
  split
  · next heq =>
    simp only [hrest, List.cons.injEq] at heq
    simp [← heq.1, hx]
  · rfl

/-- Neither a document marker nor a comment starts with a word. -/
theorem starts_word :
    ¬(Cursor.atAnyMarker ⟨w.chars ++ r, index, line, column⟩
      || (w.chars ++ r).head? = some '#') = true := by
  have hcomment : (w.chars ++ r).head? ≠ some '#' := by
    intro h
    obtain hc | hc := solid_word w r '#' h
    · exact absurd hc (by decide)
    · exact absurd hc (by decide)
  obtain ⟨c, cs, hw, hc⟩ := w.exists_cons
  rw [hw, List.cons_append] at hcomment ⊢
  rw [Cursor.atAnyMarker, atMarker_of_ne rfl (ne_of_isWordChar hc (by decide)),
    atMarker_of_ne rfl (ne_of_isWordChar hc (by decide))]
  simpa using hcomment

theorem plain?_key (hr : endsWord r = true) :
    plain? false margin ⟨w.chars ++ ':' :: r, index, line, column⟩ =
      some (w.text, false, ⟨':' :: r, index + w.chars.length, line, column + w.chars.length⟩) := by
  have hword := plainWord?_append w.isWordChar (plainWord?_colon hr)
  have hspace : isSpace ':' = false := by decide
  rw [plain?, plainRest?, if_neg (starts_word w), hword]
  simp [w.ne_nil, advance_word, hspace, Gap.text]

theorem plain?_line (hmore : Solid more) (hn : n < margin) :
    plain? false margin ⟨w.chars ++ '\n' :: (List.replicate n ' ' ++ more), index, line, column⟩ =
      some (w.text, true, ⟨more, index + w.chars.length + 1 + n, line + 1, n⟩) := by
  have hword := plainWord?_append w.isWordChar (plainWord?_lineFeed (List.replicate n ' ' ++ more))
  have hspace : isSpace '\n' = true := by decide
  have hfuel : n < n + more.length + 1 + 1 := by omega
  rw [plain?, plainRest?, if_neg (starts_word w), hword]
  simp [w.ne_nil, advance_word, hspace, takeGap?_line hmore margin _ hfuel, hn, Gap.text]

end Plain

namespace Scanner

variable {s : Scanner} {more : List Char} {index line column n fuel : Nat}

theorem skipSpace_solid (h : Solid s.cursor.rest) : skipSpace fuel s = s := by
  cases fuel with
  | zero => rfl
  | succ fuel =>
      simp only [skipSpace, takeBreak?_solid h]
      split
      · next hrest => exact absurd (hrest ▸ h).head.1 (by decide)
      · next hrest => exact absurd (hrest ▸ h).head.1 (by decide)
      · next hrest => exact absurd rfl (hrest ▸ h).head.2.2.1
      · next hrest => simp [(hrest ▸ h).head.2.2.2]
      · rfl

theorem skipSpace_blanks (hmore : Solid more)
    (hcursor : s.cursor = ⟨List.replicate n ' ' ++ more, index, line, column⟩) (hfuel : n ≤ fuel) :
    skipSpace fuel s = { s with cursor := ⟨more, index + n, line, column + n⟩ } := by
  induction n generalizing fuel index column s with
  | zero =>
      rw [skipSpace_solid (by simpa [hcursor] using hmore)]
      simpa using congrArg (fun c => { s with cursor := c }) hcursor
  | succ n ih =>
      obtain ⟨fuel, rfl⟩ : ∃ k, fuel = k + 1 := ⟨fuel - 1, by omega⟩
      rw [List.replicate_succ, List.cons_append] at hcursor
      simp only [skipSpace, hcursor, takeBreak?_blank]
      rw [ih (s := s.advance 1) (by rw [advance, hcursor, advance_blank]) (by omega)]
      simp only [advance, Nat.add_assoc, Nat.add_comm 1 n]

theorem skipSpace_line (hmore : Solid more) (hflow : s.inFlow = false)
    (hcursor : s.cursor = ⟨'\n' :: (List.replicate n ' ' ++ more), index, line, column⟩) (hfuel : n < fuel) :
    skipSpace fuel s = { s with cursor := ⟨more, index + 1 + n, line + 1, n⟩, keyAllowed := true } := by
  obtain ⟨fuel, rfl⟩ : ∃ k, fuel = k + 1 := ⟨fuel - 1, by omega⟩
  simp only [skipSpace, hcursor, takeBreak?_lineFeed, hflow, Bool.not_false, Bool.or_true]
  rw [skipSpace_blanks hmore rfl (by omega), Nat.zero_add]

end Scanner

end MockExplorer.Yaml
