import MockExplorer.Proofs.Yaml.Word
import MockExplorer.Yaml.Block

/-!
# Block mappings

Sections in block style: every key on a line of its own, the entries of a section two columns right of its
name. Main result: the tokens of such a text are those of its sections, in order.
-/

namespace MockExplorer.Yaml

/-! ## Sections -/

/-- Truth values and numbers are written as words. -/
def Atom.asWord (a : Atom) : Word where
  text := a.text
  ne_nil := by
    cases a with
    | bool b => cases b <;> decide
    | number n => simp [Atom.text]
    | word w => exact w.ne_nil
  all_isWordChar := by
    cases a with
    | bool b => cases b <;> decide
    | number n =>
        rw [Atom.text, Nat.toString_eq_ofList_toDigits, String.toList_ofList, List.all_eq_true]
        intro c hc
        simp [isWordChar, Char.isAlphanum, Nat.isDigit_of_mem_toDigits (by decide) (by decide) hc]
    | word w => exact w.all_isWordChar
  length_le := by
    cases a with
    | bool b => cases b <;> decide
    | number n =>
        rw [Atom.text, Nat.toString_eq_ofList_toDigits, String.toList_ofList]
        have h := (Nat.length_toDigits_le_iff (n := n.toNat) (b := 10) (k := 20) (by decide) (by decide)).mpr
          (Nat.lt_trans n.toNat_lt_size (by decide))
        exact Nat.le_trans h (by decide)
    | word w => exact w.length_le

@[simp] theorem Atom.asWord_text (a : Atom) : a.asWord.text = a.text := rfl

namespace Entry

def line (e : Entry) : List Char := e.1.chars ++ ':' :: ' ' :: (e.2.asWord.chars ++ ['\n'])

def tokens (e : Entry) : List Token := [.key, .scalar e.1.text true, .value, .scalar e.2.text true]

end Entry

def entryLines (es : List Entry) : List Char := es.flatMap fun e => ' ' :: ' ' :: e.line

namespace Section

def lines (s : Section) : List Char := s.name.chars ++ ':' :: '\n' :: entryLines s.entries

def tokens (s : Section) : List Token :=
  [.key, .scalar s.name.text true, .value, .mappingStart] ++ s.entries.flatMap Entry.tokens ++ [.blockEnd]

end Section

theorem entryLines_cons (e : Entry) (es : List Entry) (more : List Char) :
    entryLines (e :: es) ++ more =
      List.replicate 2 ' ' ++
        (e.1.chars ++ ':' :: ' ' :: (e.2.asWord.chars ++ '\n' :: (entryLines es ++ more))) := by
  simp [entryLines, Entry.line, List.replicate_succ]

theorem Section.lines_append (s : Section) (more : List Char) :
    s.lines ++ more = s.name.chars ++ ':' :: '\n' :: (entryLines s.entries ++ more) := by
  simp [Section.lines]

theorem solid_sections (ss : List Section) : Solid (ss.flatMap Section.lines) := by
  cases ss with
  | nil => simp [Solid]
  | cons s ss =>
      rw [List.flatMap_cons, Section.lines_append]
      exact solid_word s.name _

/-! ## Scanning -/

namespace Scanner

variable {s : Scanner} {c : Char} {cs : List Char}

theorem scan?_nil (hrest : s.cursor.rest = []) (hexpire : s.expireAll? = some s) (fuel : Nat) :
    scan? (fuel + 1) s = (s.closeTo (-1)).dropCandidate?.map (·.tokens) := by
  rw [scan?, skipSpace_solid (by simp [Solid, hrest]), hexpire]
  simp [hrest]

theorem scan?_cons (hrest : s.cursor.rest = c :: cs) (hsolid : Solid (c :: cs))
    (hexpire : s.expireAll? = some s) (fuel : Nat) :
    scan? (fuel + 1) s = ((s.closeTo s.cursor.column).token? c cs).bind (scan? fuel) := by
  rw [scan?, skipSpace_solid (by rwa [hrest]), hexpire]
  simp [hrest]

theorem scan?_skip {s' : Scanner} (hskip : skipSpace (s.cursor.rest.length + 1) s = s')
    (hsolid : Solid s'.cursor.rest) (fuel : Nat) : scan? (fuel + 1) s = scan? (fuel + 1) s' := by
  rw [scan?, scan?, hskip, skipSpace_solid hsolid]

theorem closeBlocks_cursor (column : Int) (outer : List Int) (s : Scanner) :
    (closeBlocks column outer s).cursor = s.cursor := by
  induction outer generalizing s with
  | nil => rfl
  | cons i outer ih =>
      rw [closeBlocks]
      split
      · rfl
      · rw [ih, emit]

theorem closeTo_of_le {column : Int} (h : s.indent ≤ column) : s.closeTo column = s := by
  rw [closeTo]
  cases s.outer with
  | nil => rfl
  | cons i outer => simp [closeBlocks, h]

/-- At a word, a plain scalar is read. -/
theorem token?_word (hrest : s.cursor.rest = c :: cs) (hc : isWordChar c = true) :
    s.token? c cs = s.plainScalar? := by
  have hmarker : ∀ mark, isWordChar mark = false → s.cursor.atMarker mark = false :=
    fun mark hmark => atMarker_of_ne hrest (ne_of_isWordChar hc hmark)
  have hindicator := isIndicator_of_isWordChar hc
  have hstarts : startsPlain s.inFlow c cs = true := by
    simp [startsPlain, isSpace_of_isWordChar hc, hindicator]
  simp only [isIndicator, isFlowIndicator, Bool.or_eq_false_iff, decide_eq_false_iff_not] at hindicator
  simp [token?, hmarker '-' (by decide), hmarker '.' (by decide), hindicator, hstarts]

theorem token?_colon (hrest : s.cursor.rest = ':' :: cs) (hends : endsWord cs = true) :
    s.token? ':' cs = s.value? := by
  have hmarker : ∀ mark, ':' ≠ mark → s.cursor.atMarker mark = false :=
    fun mark hmark => atMarker_of_ne hrest hmark
  simp [token?, hmarker '-' (by decide), hmarker '.' (by decide), hends]

theorem scan?_word (w : Word) (hrest : s.cursor.rest = w.chars ++ cs)
    (hexpire : s.expireAll? = some s) (fuel : Nat) :
    scan? (fuel + 1) s = (s.closeTo s.cursor.column).plainScalar?.bind (scan? fuel) := by
  have hsolid := solid_word w cs
  obtain ⟨c, tail, hw, hc⟩ := w.exists_cons
  rw [hw, List.cons_append] at hrest hsolid
  have hclosed : (s.closeTo s.cursor.column).cursor.rest = c :: (tail ++ cs) := by
    rw [closeTo, closeBlocks_cursor, hrest]
  rw [scan?_cons hrest hsolid hexpire, token?_word hclosed hc]

end Scanner

/-- A scanner between two tokens of a block mapping: no key is being waited for. -/
structure Resting where
  rest : List Char
  column : Nat
  done : List Token
  indent : Int
  outer : List Int
  keyAllowed : Bool

namespace Resting

def scanner (r : Resting) (index line : Nat) : Scanner :=
  { cursor := ⟨r.rest, index, line, r.column⟩, tokens := r.done, indent := r.indent, outer := r.outer,
    keyAllowed := r.keyAllowed }

/-- Wherever this stands in a text, scanning to the end gives the tokens. -/
def Yields (r : Resting) (ts : List Token) : Prop :=
  ∀ index line fuel, r.rest.length < fuel → Scanner.scan? fuel (r.scanner index line) = some ts

variable {r : Resting} {ts done : List Token} {more : List Char} {column n : Nat} {indent i : Int}
  {outer : List Int} {keyAllowed : Bool}

theorem expireAll?_resting (r : Resting) (index line : Nat) :
    (r.scanner index line).expireAll? = some (r.scanner index line) := rfl

theorem yields_end :
    Yields ⟨[], 0, done, 2, [0, -1], keyAllowed⟩ (done ++ [.blockEnd, .blockEnd]) := by
  intro index line fuel hfuel
  obtain ⟨fuel, rfl⟩ : ∃ k, fuel = k + 1 := ⟨fuel - 1, by omega⟩
  rw [Scanner.scan?_nil rfl (expireAll?_resting ..)]
  simp [scanner, Scanner.closeTo, Scanner.closeBlocks, Scanner.inFlow, Scanner.emit, Scanner.dropCandidate?]

/-- A line break, and blanks before what stands on the next line. -/
theorem Yields.line (hmore : Solid more) (h : Yields ⟨more, n, done, indent, outer, true⟩ ts) :
    Yields ⟨'\n' :: (List.replicate n ' ' ++ more), column, done, indent, outer, keyAllowed⟩ ts := by
  intro index line fuel hfuel
  simp only [List.length_cons, List.length_append] at hfuel
  rw [← h (index + 1 + n) (line + 1) fuel (by show more.length < fuel; omega)]
  obtain ⟨fuel, rfl⟩ : ∃ k, fuel = k + 1 := ⟨fuel - 1, by omega⟩
  exact Scanner.scan?_skip (Scanner.skipSpace_line hmore rfl rfl (by simp [scanner]; omega)) hmore fuel

theorem Yields.blank (hmore : Solid more)
    (h : Yields ⟨more, column + 1, done, indent, outer, keyAllowed⟩ ts) :
    Yields ⟨' ' :: more, column, done, indent, outer, keyAllowed⟩ ts := by
  intro index line fuel hfuel
  simp only [List.length_cons] at hfuel
  rw [← h (index + 1) line fuel (by show more.length < fuel; omega)]
  obtain ⟨fuel, rfl⟩ : ∃ k, fuel = k + 1 := ⟨fuel - 1, by omega⟩
  exact Scanner.scan?_skip (Scanner.skipSpace_blanks (n := 1) hmore rfl (by simp [scanner])) hmore fuel

/-- A word left of the current block ends it. -/
theorem Yields.dedent (w : Word) (hcolumn : column < indent)
    (h : Yields ⟨w.chars ++ more, column, done ++ [.blockEnd], i, outer, keyAllowed⟩ ts) :
    Yields ⟨w.chars ++ more, column, done, indent, i :: outer, keyAllowed⟩ ts := by
  intro index line fuel hfuel
  rw [← h index line fuel hfuel]
  obtain ⟨fuel, rfl⟩ : ∃ k, fuel = k + 1 := ⟨fuel - 1, by omega⟩
  rw [Scanner.scan?_word w rfl (expireAll?_resting ..), Scanner.scan?_word w rfl (expireAll?_resting ..)]
  have hindent : ¬indent ≤ column := by omega
  simp [Scanner.closeTo, Scanner.closeBlocks, scanner, Scanner.inFlow, hindent, Scanner.emit]

theorem insertIdx_length_append {α : Type} (xs ys : List α) (x : α) :
    (xs ++ ys).insertIdx xs.length x = xs ++ x :: ys := by
  induction xs with
  | nil => rfl
  | cons y xs ih => simp [ih]

/-- The scanner behind a word that may turn out to be a key. -/
def waiting (r : Resting) (w : Word) (index line : Nat) : Scanner :=
  { r.scanner index line with
    cursor := ⟨r.rest, index + w.chars.length, line, r.column + w.chars.length⟩
    tokens := r.done ++ [.scalar w.text true]
    keyAllowed := false
    candidate := some (r.scanner index line).here }

theorem scan?_candidate (w : Word) (hmore : endsWord more = true) (hindent : indent ≤ column)
    (index line fuel : Nat) :
    Scanner.scan? (fuel + 1)
        (scanner ⟨w.chars ++ ':' :: more, column, done, indent, outer, true⟩ index line) =
      Scanner.scan? fuel (waiting ⟨':' :: more, column, done, indent, outer, true⟩ w index line) := by
  have hscalar :
      (scanner ⟨w.chars ++ ':' :: more, column, done, indent, outer, true⟩ index line).plainScalar? =
        some (waiting ⟨':' :: more, column, done, indent, outer, true⟩ w index line) := by
    simp only [Scanner.plainScalar?, Scanner.saveCandidate?, Scanner.dropCandidate?, scanner, Scanner.inFlow,
      if_true, Option.map_some, Option.bind_eq_bind, Option.bind_some, List.isEmpty_nil, Bool.not_true,
      plain?_key w hmore]
    rfl
  rw [Scanner.scan?_word w rfl (expireAll?_resting ..), Scanner.closeTo_of_le hindent, hscalar,
    Option.bind_some]

/-- A colon makes the word before it a key. -/
theorem scan?_colon (w : Word) (hmore : endsWord more = true) (hindent : indent ≤ column)
    (index line fuel : Nat) :
    Scanner.scan? (fuel + 1) (waiting ⟨':' :: more, column, done, indent, outer, true⟩ w index line) =
      (waiting ⟨':' :: more, column, done, indent, outer, true⟩ w index line).value?.bind
        (Scanner.scan? fuel) := by
  have hexpire : (waiting ⟨':' :: more, column, done, indent, outer, true⟩ w index line).expireAll? =
      some (waiting ⟨':' :: more, column, done, indent, outer, true⟩ w index line) := by
    have hlen : w.chars.length ≤ Scanner.maxKeyLength := Nat.le_trans w.length_le (by decide)
    have hindex : ¬index + Scanner.maxKeyLength < index + w.chars.length := by omega
    simp [Scanner.expireAll?, Scanner.expire?, waiting, Scanner.here, scanner, hindex]
  have hclosed : indent ≤ ((column + w.chars.length : Nat) : Int) := by omega
  rw [Scanner.scan?_cons rfl (solid_colon more) hexpire, Scanner.closeTo_of_le hclosed,
    Scanner.token?_colon rfl hmore]

/-- A key right of the current block opens a mapping, any other is one of the block's keys. -/
theorem Yields.key (w : Word) (hmore : endsWord more = true) (hindent : indent ≤ column)
    (h : Yields ⟨more, column + w.chars.length + 1,
      done ++ (if indent < column then [.mappingStart] else []) ++ [.key, .scalar w.text true, .value],
      column, if indent < column then indent :: outer else outer, false⟩ ts) :
    Yields ⟨w.chars ++ ':' :: more, column, done, indent, outer, true⟩ ts := by
  intro index line fuel hfuel
  have hpos := w.length_pos
  simp only [List.length_append, List.length_cons] at hfuel
  obtain ⟨fuel, rfl⟩ : ∃ k, fuel = k + 2 := ⟨fuel - 2, by omega⟩
  have hadvance : Cursor.advance
      ⟨':' :: more, index + w.chars.length, line, column + w.chars.length⟩ 1 =
        ⟨more, index + w.chars.length + 1, line, column + w.chars.length + 1⟩ :=
    advance_one (by decide)
  rw [scan?_candidate w hmore hindent, scan?_colon w hmore hindent,
    ← h (index + w.chars.length + 1) line fuel (by show more.length < fuel; omega)]
  by_cases hopen : indent < column
  · have hle : ¬(column : Int) ≤ indent := by omega
    simp [Scanner.value?, waiting, Scanner.here, scanner, insertIdx_length_append, Scanner.openBlock,
      Scanner.inFlow, hle, hopen, Scanner.emit, Scanner.advance, hadvance]
  · have heq : indent = column := by omega
    simp [Scanner.value?, waiting, Scanner.here, scanner, insertIdx_length_append, Scanner.openBlock,
      Scanner.inFlow, heq, Scanner.emit, Scanner.advance, hadvance]

/-- A value ends with its line. -/
theorem Yields.value (w : Word) (hmore : Solid more) (hcolumn : indent ≤ column) (hn : n ≤ indent)
    (h : Yields ⟨more, n, done ++ [.scalar w.text true], indent, outer, true⟩ ts) :
    Yields ⟨w.chars ++ '\n' :: (List.replicate n ' ' ++ more), column, done, indent, outer, false⟩
      ts := by
  intro index line fuel hfuel
  have hpos := w.length_pos
  simp only [List.length_append, List.length_cons] at hfuel
  obtain ⟨fuel, rfl⟩ : ∃ k, fuel = k + 1 := ⟨fuel - 1, by omega⟩
  have hmargin : n < (indent + 1).toNat := by omega
  rw [Scanner.scan?_word w rfl (expireAll?_resting ..), Scanner.closeTo_of_le hcolumn,
    ← h (index + w.chars.length + 1 + n) (line + 1) fuel (by show more.length < fuel; omega)]
  simp [Scanner.plainScalar?, Scanner.saveCandidate?, scanner, Scanner.inFlow, plain?_line w hmore hmargin,
    Scanner.emit]

/-! ## Entries and sections -/

/-- What stands behind the colon of an entry: its value and the entries after it. -/
theorem Yields.entries (w : Word) (es : List Entry) (hmore : Solid more) (hcolumn : 2 ≤ column)
    (h : Yields ⟨more, 0, done ++ .scalar w.text true :: es.flatMap Entry.tokens, 2, outer, true⟩ ts) :
    Yields ⟨' ' :: (w.chars ++ '\n' :: (entryLines es ++ more)), column, done, 2, outer, false⟩ ts := by
  -- A value takes the blanks before the next key with it, so the induction starts behind a colon.
  induction es generalizing w column done with
  | nil =>
      refine .blank (solid_word w _) (.value (n := 0) w hmore (by omega) (by omega) ?_)
      simpa using h
  | cons e es ih =>
      rw [entryLines_cons]
      refine .blank (solid_word w _) (.value w (solid_word e.1 _) (by omega) (by omega) ?_)
      refine .key e.1 rfl (by omega) (ih e.2.asWord (by omega) ?_)
      simpa [Entry.tokens] using h

/-- The entries of a section behind the colon of its name. -/
theorem Yields.body (s : Section) (hmore : Solid more)
    (h : Yields ⟨more, 0, done ++ .mappingStart :: s.entries.flatMap Entry.tokens, 2, 0 :: outer, true⟩
      ts) :
    Yields ⟨'\n' :: (entryLines s.entries ++ more), column, done, 0, outer, false⟩ ts := by
  rw [Section.entries, entryLines_cons]
  refine .line (solid_word s.first.1 _) (.key s.first.1 rfl (by omega) ?_)
  refine .entries s.first.2.asWord s.more hmore (by omega) ?_
  simpa [Section.entries, Entry.tokens] using h

/-- Sections after one whose entries have been read. -/
theorem yields_sections (done : List Token) (ss : List Section) :
    Yields ⟨ss.flatMap Section.lines, 0, done, 2, [0, -1], true⟩
      (done ++ .blockEnd :: (ss.flatMap Section.tokens ++ [.blockEnd])) := by
  induction ss generalizing done with
  | nil => exact yields_end
  | cons s ss ih =>
      rw [List.flatMap_cons, Section.lines_append]
      refine .dedent s.name (by omega) (.key s.name rfl (by omega) (.body s (solid_sections ss) ?_))
      have h := ih (done ++ [.blockEnd, .key, .scalar s.name.text true, .value, .mappingStart]
        ++ s.entries.flatMap Entry.tokens)
      simpa [Section.tokens] using h

theorem yields_document (s : Section) (ss : List Section) :
    Yields ⟨(s :: ss).flatMap Section.lines, 0, [], -1, [], true⟩
      (.mappingStart :: ((s :: ss).flatMap Section.tokens ++ [.blockEnd])) := by
  rw [List.flatMap_cons, Section.lines_append]
  refine .key s.name rfl (by omega) (.body s (solid_sections ss) ?_)
  have h := yields_sections ([.mappingStart, .key, .scalar s.name.text true, .value, .mappingStart]
    ++ s.entries.flatMap Entry.tokens) ss
  simpa [Section.tokens] using h

end Resting

/-! ## Texts -/

theorem isPrintable_lines (ss : List Section) : (ss.flatMap Section.lines).all isPrintable = true := by
  have hword : ∀ (w : Word) (c : Char), c ∈ w.chars → isPrintable c = true :=
    fun w c hc => isPrintable_of_isWordChar (w.isWordChar c hc)
  have hblank : isPrintable ' ' = true ∧ isPrintable '\n' = true ∧ isPrintable ':' = true := by decide
  simp only [List.all_eq_true, List.mem_flatMap, Section.lines, entryLines, Entry.line, List.mem_append,
    List.mem_cons, List.not_mem_nil, or_false]
  grind

/-- The tokens of a text in block style are those of its sections. -/
theorem tokens?_lines (s : Section) (ss : List Section) :
    tokens? (String.ofList ((s :: ss).flatMap Section.lines)) =
      some (.mappingStart :: ((s :: ss).flatMap Section.tokens ++ [.blockEnd])) := by
  rw [tokens?, String.toList_ofList]
  simp only [isPrintable_lines, if_true]
  exact Resting.yields_document s ss 0 0 _ (Nat.lt_succ_self _)

end MockExplorer.Yaml
