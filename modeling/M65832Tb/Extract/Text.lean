import M65832Tb.Convert.Text
import M65832Tb.Extract.Parse

/-!
# What the extractor reads of a line

`parse_vhdl_testbench` splits the testbench at `'\n'` and asks each line nine patterns, all
compiled with `re.IGNORECASE`, and one containment test.  `Line.ofText` is what they return: the
`Line` the model of the parser works on, so that the parser on the text of a testbench is
`parseVhdlTestbench` on the lines read (`parseVhdlTestbenchText`).

* `test_pattern`, `--+\s*TEST\s+(\d+):\s*([^\n]+)`: the head is `testHeadX`, and the name is what
  `([^\n]+)` takes after `\s*` (`spacesThenLine`), stripped;
* `reset_pattern` is the converter's `rst_pat`, `poke_pattern` has the language of its `POKE_PAT`;
* `poke16_pattern` and `check_pattern` spell a call with a hexadecimal address and datum like
  `poke_pattern` (`hexCallParts`), the interrupt patterns assign a level to a signal
  (`levelParts`), and `cycles_pattern` reads `wait_cycles(n)`;
* `'poke16' in line.lower()` is the search for the text `poke16` under case folding
  (`poke16Word`): `str.lower` turns a character into one of `p`, `o`, `k`, `e`, `1`, `6` exactly
  when case folding matches it with that letter.

A word write is spelled `poke16`, so a line with one mentions `poke16` (`poke16_mentioned`): the
invariant the model's `Line` carries holds of every line read.

`\d` matches every Unicode decimal digit, and `int()` reads each with its decimal value
(`digitValue`).  `int()` also refuses more than `intMaxStrDigits` digits: the loop calls it on a
header's number and, inside a test, on each `wait_cycles` count (`intArgs`), and raises the
`ValueError` of the first it refuses (`parseVhdlTestbenchE`).

* `parseVhdlTestbenchE_spec`: the parse raises exactly when one of these numbers has too many
  digits, and otherwise returns the tests of `parseVhdlTestbenchText`.
* `poke16_line_drops_poke`, `held_back_write_dropped`: two texts whose tests lose writes their
  lines spell: a byte write on a line that mentions `poke16`, and a write after a test's last
  check.
-/

namespace M65832Tb

/-! ### The patterns -/

/-- The head of `test_pattern`, `--+\s*TEST\s+(\d+):`. -/
def testHeadX : Pattern where
  parts := [[.lit '-', .plus .dash, .star .space, .lit 'T', .lit 'E', .lit 'S', .lit 'T',
    .plus .space], [.plus .digit], [.lit ':']]
  det := by decide
  solid := by decide

/-- What `([^\n]+)` takes after `\s*` at the start of `r`: `\s*` takes all the white space it
can, and when nothing but white space is left it gives back its last character that is not a
newline. -/
def spacesThenLine (r : List Char) : Option (List Char) :=
  match r.dropWhile isPySpace with
  | [] => (r.reverse.find? (· ≠ '\n')).map ([·])
  | c :: r0 => some ((c :: r0).takeWhile (· ≠ '\n'))

/-- `unicodedata.decimal(c)`, the value `int()` gives a decimal digit; `0` for any other
character. -/
def digitValue (c : Char) : ℕ :=
  match decimalZero? c.toNat with
  | some z => c.toNat - z
  | none => 0

/-- The value `int(s)` gives the decimal digits `\d+` matched (`pyInt` adds its limit on their
number). -/
def decNum (ds : List Char) : ℕ := ds.foldl (fun acc c => 10 * acc + digitValue c) 0

/-- `test_pattern` at the start of a text: `int(group(1))` and `group(2).strip()`. -/
def testMatchX (y : List Char) : Option (ℕ × String) :=
  (testHeadX.run y).bind fun p =>
    (spacesThenLine p.2).map fun g => (decNum (p.1.getD 1 []), String.mk (pyStrip g))

/-- The parts of `NAME\s*\(\s*16#([0-9A-Fa-f]+)#\s*,\s*x"([0-9A-Fa-f]+)"`, then `tail`. -/
def hexCallParts (name : String) (tail : List (List Atom)) : List (List Atom) :=
  [name.toList.map .lit ++ [.star .space, .lit '(', .star .space, .lit '1', .lit '6', .lit '#'],
    [.plus .hex], [.lit '#', .star .space, .lit ',', .star .space, .lit 'x', .lit '"'],
    [.plus .hex]] ++ tail

theorem pokePat_parts : pokePat.parts = hexCallParts "poke" [[.lit '"', .star .space, .lit ')']] :=
  rfl

/-- `poke16_pattern`, `poke16\s*\(\s*16#([0-9A-Fa-f]+)#\s*,\s*x"([0-9A-Fa-f]+)"\s*\)`. -/
def poke16Pat : Pattern where
  parts := hexCallParts "poke16" [[.lit '"', .star .space, .lit ')']]
  det := by decide
  solid := by decide

/-- `check_pattern`,
`check_mem\s*\(\s*16#([0-9A-Fa-f]+)#\s*,\s*x"([0-9A-Fa-f]+)"\s*,\s*"([^"]+)"\s*\)`. -/
def checkPat : Pattern where
  parts := hexCallParts "check_mem"
    [[.lit '"', .star .space, .lit ',', .star .space, .lit '"'], [.plus .notQuote],
      [.lit '"', .star .space, .lit ')']]
  det := by decide
  solid := by decide

/-- `cycles_pattern`, `wait_cycles\s*\(\s*(\d+)\s*\)`. -/
def cyclesPat : Pattern where
  parts := ["wait_cycles".toList.map .lit ++ [.star .space, .lit '(', .star .space], [.plus .digit],
    [.star .space, .lit ')']]
  det := by decide
  solid := by decide

/-- The parts of `NAME\s*<=\s*'([01])'`. -/
def levelParts (name : String) : List (List Atom) :=
  [name.toList.map .lit ++ [.star .space, .lit '<', .lit '=', .star .space, .lit '\''], [.one .bit],
    [.lit '\'']]

/-- `irq_pattern`, `irq_n\s*<=\s*'([01])'`. -/
def irqPat : Pattern := ⟨levelParts "irq_n", by decide, by decide⟩

/-- `nmi_pattern`, `nmi_n\s*<=\s*'([01])'`. -/
def nmiPat : Pattern := ⟨levelParts "nmi_n", by decide, by decide⟩

/-- `abort_pattern`, `abort_n\s*<=\s*'([01])'`. -/
def abortPat : Pattern := ⟨levelParts "abort_n", by decide, by decide⟩

/-- The text `poke16` under case folding: `'poke16' in line.lower()` is its search. -/
def poke16Word : Pattern := ⟨["poke16".toList.map .lit], by decide, by decide⟩

/-! ### A line -/

/-- `int(match.group(1), 16)`, `int(match.group(2), 16)` of a call with an address and a datum. -/
def hexPair (gs : List (List Char)) : ℕ × ℕ := (hexNum (gs.getD 1 []), hexNum (gs.getD 3 []))

/-- The level `group(1)` of the first assignment a level pattern finds. -/
def levelOf (P : Pattern) (line : List Char) : Option Char :=
  (P.search line).bind fun m => (m.1.getD 1 []).head?

/-- A pattern whose atoms start with all the atoms of `Q` matches only where `Q` does. -/
theorem Pattern.run_isSome_of_prefix {P Q : Pattern} {rest : List Atom}
    (h : P.parts.flatten = Q.parts.flatten ++ rest) {y : List Char} (hy : (P.run y).isSome) :
    (Q.run y).isSome := by
  obtain ⟨⟨gs, r⟩, hr⟩ := Option.isSome_iff_exists.1 hy
  obtain ⟨rfl, hg⟩ := P.run_eq_some_iff.1 hr
  obtain ⟨xs, hxs, -, hf⟩ := exists_of_partTakes hg
  rw [h] at hxs
  have h1 := List.forall₂_take Q.parts.flatten.length hxs
  rw [List.take_left] at h1
  have hq : runAtoms Q.parts.flatten (gs.flatten ++ r) =
      some (xs.take Q.parts.flatten.length, (xs.drop Q.parts.flatten.length).flatten ++ r) :=
    (runAtoms_eq_some_iff Q.det).2 ⟨by rw [← List.append_assoc, ← List.flatten_append,
      List.take_append_drop, hf], h1⟩
  simp [Pattern.run, hq]

/-- **A word write is spelled `poke16`.** -/
theorem poke16_mentioned (line : List Char) :
    ((poke16Pat.finditer line).map Match.parts).map hexPair ≠ [] →
      (poke16Word.search line).isSome = true := by
  intro h
  have hne : poke16Pat.finditer line ≠ [] := fun h' => h (by rw [h']; rfl)
  obtain ⟨x, y, rfl, hy⟩ := (poke16Pat.scan_ne_nil_iff le_rfl).1 hne
  exact (firstMatch_isSome_iff _ _).2 ⟨x, y, rfl,
    Pattern.run_isSome_of_prefix (P := poke16Pat) (Q := poke16Word) rfl hy⟩

/-- What `parse_vhdl_testbench` reads of a line of the testbench. -/
def Line.ofText (line : List Char) : Line where
  test := firstMatch testMatchX line
  reset := (rstPat.search line).isSome
  poke16s := ((poke16Pat.finditer line).map Match.parts).map hexPair
  mentionsPoke16 := (poke16Word.search line).isSome
  pokes := ((pokePat.finditer line).map Match.parts).map hexPair
  waits := ((cyclesPat.finditer line).map Match.parts).map fun gs => decNum (gs.getD 1 [])
  checks := ((checkPat.finditer line).map Match.parts).map fun gs =>
    ⟨hexNum (gs.getD 1 []), hexNum (gs.getD 3 []), String.mk (gs.getD 5 [])⟩
  irq := levelOf irqPat line
  nmi := levelOf nmiPat line
  abort := levelOf abortPat line
  mentions_of_poke16 := poke16_mentioned line

/-- `parse_vhdl_testbench` on the text of a testbench: `content.split('\n')`, each line read. -/
def parseVhdlTestbenchText (content : List Char) : List (Test Poke CheckMem) :=
  parseVhdlTestbench ((content.splitOn '\n').map Line.ofText)

/-! ### The `int()` calls of the loop -/

/-- The `ValueError` of `int()` on `n` decimal digits, past `intMaxStrDigits`. -/
def intLimitError (n : ℕ) : PyError :=
  .valueError ("Exceeds the limit (4300 digits) for integer string conversion: value has " ++
    toString n ++ " digits; use sys.set_int_max_str_digits() to increase the limit")

/-- `int(s)` on the decimal digits `\d+` matched: their value, or the `ValueError` CPython raises
past `intMaxStrDigits` digits. -/
def pyInt (ds : List Char) : Except PyError ℕ :=
  if ds.length ≤ intMaxStrDigits then .ok (decNum ds) else .error (intLimitError ds.length)

/-- `test_pattern` at the start of a text: the digits of `group(1)` and the text of `group(2)`. -/
def testGroupsX (y : List Char) : Option (List Char × List Char) :=
  (testHeadX.run y).bind fun p => (spacesThenLine p.2).map fun g => (p.1.getD 1 [], g)

/-- The digit strings the loop body of `parse_vhdl_testbench` hands to `int()` on a line, in
order: a header's number; on any other line of a test, each `wait_cycles` count. -/
def intArgs (inTest : Bool) (line : List Char) : List (List Char) :=
  match firstMatch testGroupsX line with
  | some g => [g.1]
  | none => if inTest then (cyclesPat.finditer line).map fun m => m.parts.getD 1 [] else []

/-- The `int()` calls of the loop over the lines, `inTest` once a header has been read: the
`ValueError` of the first that refuses its digits. -/
def checkInts : Bool → List (List Char) → Except PyError Unit
  | _, [] => .ok ()
  | inTest, line :: lines =>
    ((intArgs inTest line).mapM pyInt).bind fun _ =>
      checkInts (inTest || (firstMatch testGroupsX line).isSome) lines

/-- `parse_vhdl_testbench` on a text, with the `ValueError` of `int()` on a number of more than
`intMaxStrDigits` digits.  The loop does nothing but build the tests, so it returns them exactly
when none of its `int()` calls raises. -/
def parseVhdlTestbenchE (content : List Char) : Except PyError (List (Test Poke CheckMem)) :=
  (checkInts false (content.splitOn '\n')).map fun _ => parseVhdlTestbenchText content

theorem parseVhdlTestbenchE_ok {content : List Char}
    (h : checkInts false (content.splitOn '\n') = .ok ()) :
    parseVhdlTestbenchE content = .ok (parseVhdlTestbenchText content) := by
  rw [parseVhdlTestbenchE, h]
  rfl

theorem parseVhdlTestbenchE_error {content : List Char} {e : PyError}
    (h : checkInts false (content.splitOn '\n') = .error e) : parseVhdlTestbenchE content = .error e := by
  rw [parseVhdlTestbenchE, h]
  rfl

theorem testMatchX_eq (y : List Char) :
    testMatchX y = (testGroupsX y).map fun g => (decNum g.1, String.mk (pyStrip g.2)) := by
  unfold testMatchX testGroupsX
  rw [Option.map_bind]
  congr 1
  funext p
  rw [Function.comp_apply, Option.map_map]
  rfl

theorem digitValue_lt (c : Char) : digitValue c < 10 := by
  unfold digitValue
  split
  · rename_i z hz
    have := (decimalZero?_spec hz).2
    omega
  · omega

theorem decNum_lt (ds : List Char) : decNum ds < 10 ^ ds.length := by
  suffices ∀ acc, ds.foldl (fun acc c => 10 * acc + digitValue c) acc < (acc + 1) * 10 ^ ds.length by
    simpa using this 0
  induction ds with
  | nil => intro acc; simp
  | cons c ds ih =>
    intro acc
    have h : (10 * acc + digitValue c + 1) * 10 ^ ds.length ≤ (acc + 1) * 10 ^ (ds.length + 1) := by
      rw [pow_succ', ← mul_assoc]
      exact Nat.mul_le_mul_right _ (by have := digitValue_lt c; omega)
    exact (ih _).trans_le h

theorem mapM_pyInt_ok {l : List (List Char)} :
    (∃ ns, l.mapM pyInt = .ok ns) ↔ ∀ ds ∈ l, ds.length ≤ intMaxStrDigits := by
  induction l with
  | nil => exact ⟨fun _ => by simp, fun _ => ⟨[], rfl⟩⟩
  | cons ds l ih =>
    rw [List.mapM_cons, List.forall_mem_cons, ← ih, pyInt]
    by_cases h : ds.length ≤ intMaxStrDigits
    · rw [if_pos h]
      cases hl : l.mapM pyInt with
      | error e => exact ⟨fun ⟨_, hn⟩ => (by cases hn), fun ⟨_, _, hn⟩ => (by cases hn)⟩
      | ok ms => exact ⟨fun _ => ⟨h, ms, rfl⟩, fun _ => ⟨_, rfl⟩⟩
    · rw [if_neg h]
      exact ⟨fun ⟨_, hn⟩ => (by cases hn), fun ⟨hh, _⟩ => absurd hh h⟩

theorem mapM_pyInt_error {l : List (List Char)} {e : PyError} (h : l.mapM pyInt = .error e) :
    ∃ n, intMaxStrDigits < n ∧ e = intLimitError n := by
  induction l with
  | nil => cases h
  | cons ds l ih =>
    rw [List.mapM_cons, pyInt] at h
    split_ifs at h with hd
    · cases hl : l.mapM pyInt with
      | ok ms => rw [hl] at h; cases h
      | error e' =>
        rw [hl] at h
        change Except.error e' = _ at h
        cases h
        exact ih hl
    · change Except.error _ = _ at h
      cases h
      exact ⟨_, by omega, rfl⟩

/-- The loop's `int()` calls all succeed exactly when every digit string it hands to `int()` has
at most `intMaxStrDigits` digits; `inTest` holds below the first header. -/
theorem checkInts_ok_iff (inTest : Bool) (lines : List (List Char)) :
    checkInts inTest lines = .ok () ↔
      ∀ pre line post, lines = pre ++ line :: post →
        ∀ ds ∈ intArgs (inTest || pre.any fun l => (firstMatch testGroupsX l).isSome) line,
          ds.length ≤ intMaxStrDigits := by
  induction lines generalizing inTest with
  | nil => simp [checkInts]
  | cons line lines ih =>
    rw [checkInts]
    constructor
    · intro h pre l post he
      cases hm : (intArgs inTest line).mapM pyInt with
      | error e => rw [hm] at h; cases h
      | ok ns =>
        rw [hm] at h
        rcases pre with _ | ⟨l0, pre⟩
        · obtain ⟨rfl, rfl⟩ := List.cons_eq_cons.1 he
          simpa using mapM_pyInt_ok.1 ⟨ns, hm⟩
        · obtain ⟨rfl, hl⟩ := List.cons_eq_cons.1 (he.trans (List.cons_append _ _ _))
          simpa [Bool.or_assoc] using (ih _).1 h pre l post hl
    · intro h
      obtain ⟨ns, hns⟩ := mapM_pyInt_ok.2 (by simpa using h [] line lines rfl)
      rw [hns]
      exact (ih _).2 fun pre l post he => by
        simpa [he, Bool.or_assoc] using h (line :: pre) l post (by rw [he]; rfl)

/-- An `int()` call that raises has more digits than `intMaxStrDigits`. -/
theorem checkInts_error {inTest : Bool} {lines : List (List Char)} {e : PyError}
    (h : checkInts inTest lines = .error e) : ∃ n, intMaxStrDigits < n ∧ e = intLimitError n := by
  induction lines generalizing inTest with
  | nil => cases h
  | cons line lines ih =>
    rw [checkInts] at h
    cases hm : (intArgs inTest line).mapM pyInt with
    | ok ns => rw [hm] at h; exact ih h
    | error e' =>
      rw [hm] at h
      change Except.error e' = _ at h
      cases h
      exact mapM_pyInt_error hm

/-- A test the parser returns carries the number of a header line: the value of its digits. -/
theorem mem_parse_number {content : List Char} {t : Test Poke CheckMem}
    (ht : t ∈ parseVhdlTestbenchText content) :
    ∃ pre line post, content.splitOn '\n' = pre ++ line :: post ∧
      ∃ g, firstMatch testGroupsX line = some g ∧ t.number = decNum g.1 := by
  rw [parseVhdlTestbenchText, parseVhdlTestbench, parseViews_eq_blocks, List.mem_map] at ht
  obtain ⟨b, hb, rfl⟩ := ht
  have hhead := splitBlocks_heads LineView.test (((content.splitOn '\n').map Line.ofText).map Line.view)
    ▸ List.mem_map_of_mem Prod.fst hb
  obtain ⟨v, hv, hvt⟩ := List.mem_filterMap.1 hhead
  obtain ⟨_, hl, rfl⟩ := List.mem_map.1 hv
  obtain ⟨line, hline, rfl⟩ := List.mem_map.1 hl
  obtain ⟨pre, post, he⟩ := List.append_of_mem hline
  have hm : firstMatch testMatchX line = some b.1 := hvt
  rw [funext testMatchX_eq, firstMatch_map] at hm
  obtain ⟨g, hg, hgb⟩ := Option.map_eq_some'.1 hm
  exact ⟨pre, line, post, he, g, hg,
    (congrArg Prod.fst (parseBlock_spec b.1 b.2).1).trans (congrArg Prod.fst hgb.symm)⟩

/-- When no `int()` call of the parse raises, every test number has at most `intMaxStrDigits`
digits, so printing it raises nothing either. -/
theorem number_fits {content : List Char} (h : checkInts false (content.splitOn '\n') = .ok ())
    {t : Test Poke CheckMem} (ht : t ∈ parseVhdlTestbenchText content) : strFits t.number = true := by
  obtain ⟨pre, line, post, he, g, hg, hn⟩ := mem_parse_number ht
  have hlen := (checkInts_ok_iff false _).1 h pre line post he g.1 (by simp [intArgs, hg])
  simp only [strFits, hn, decide_eq_true_eq]
  exact (decNum_lt g.1).trans_le (Nat.pow_le_pow_right (by norm_num) hlen)

/-! ### Writes the parser loses -/

/-- A test whose only line writes a word and then a byte. -/
def wordAndByteText : List Char :=
  "-- TEST 1: vectors\npoke16(16#FFFE#, x\"9000\"); poke(16#9000#, x\"DB\");".toList

/-- The byte write on a line that mentions `poke16` is lost: the line spells three writes, and
the test's phases hold the two of the word. -/
theorem poke16_line_drops_poke :
    (parseVhdlTestbenchText wordAndByteText).map (fun T => T.phases.flatMap Phase.pokes) =
        [[(0xFFFE, 0x00), (0xFFFF, 0x90)]] ∧
      (wordAndByteText.splitOn '\n').map (fun l => (Line.ofText l).allWrites) =
        [[], [(0xFFFE, 0x00), (0xFFFF, 0x90), (0x9000, 0xDB)]] := by
  decide

/-- A test that ends with a write after its check. -/
def heldBackText : List Char :=
  "-- TEST 1: tail\ncheck_mem(16#0200#, x\"00\", \"zero\");\npoke(16#0300#, x\"01\");".toList

/-- A write after the last check of a test is held back for a next phase that never opens: the
test's phases write nothing. -/
theorem held_back_write_dropped :
    (parseVhdlTestbenchText heldBackText).map (fun T => T.phases.flatMap Phase.pokes) = [[]] ∧
      (heldBackText.splitOn '\n').map (fun l => (Line.ofText l).allWrites) =
        [[], [], [(0x300, 0x01)]] := by
  decide

/-! ### Lines under white space -/

section indent

variable {x : List Char}

/-- A pattern whose first atom is a character that no white space matches starts at no white
space. -/
theorem run_space_none {P : Pattern} {p : Char} {rest : List Atom}
    (hP : P.parts.flatten = .lit p :: rest) (hp : CSet.disjoint (.cls .space) (.lit p) = true)
    (hx : ∀ c ∈ x, isPySpace c = true) : ∀ c ∈ x, ∀ y, P.run (c :: y) = none :=
  fun c hc => Pattern.run_eq_none_of_space hP hp (hx c hc)

theorem finditer_parts_indent {P : Pattern} (hx : ∀ c ∈ x, ∀ y, P.run (c :: y) = none)
    (t : List Char) : (P.finditer (x ++ t)).map Match.parts = (P.finditer t).map Match.parts := by
  rw [Pattern.finditer, P.scan_append_of_none hx, List.length_append, Nat.add_sub_cancel_left,
    Pattern.finditer, P.scan_parts _ 0]

/-- **White space before a line changes nothing the extractor reads.** -/
theorem Line.ofText_indent (hx : ∀ c ∈ x, isPySpace c = true) (t : List Char) :
    Line.ofText (x ++ t) = Line.ofText t := by
  have hT : ∀ c ∈ x, ∀ y, testMatchX (c :: y) = none := fun c hc y => by
    simp [testMatchX, Pattern.run_eq_none_of_space (P := testHeadX) rfl (by decide) (hx c hc)]
  simp only [Line.ofText, levelOf, Pattern.search, firstMatch_append_of_none hT,
    firstMatch_append_of_none (run_space_none (P := rstPat) rfl (by decide) hx),
    firstMatch_append_of_none (run_space_none (P := poke16Word) rfl (by decide) hx),
    firstMatch_append_of_none (run_space_none (P := irqPat) rfl (by decide) hx),
    firstMatch_append_of_none (run_space_none (P := nmiPat) rfl (by decide) hx),
    firstMatch_append_of_none (run_space_none (P := abortPat) rfl (by decide) hx),
    finditer_parts_indent (run_space_none (P := poke16Pat) rfl (by decide) hx),
    finditer_parts_indent (run_space_none (P := pokePat) rfl (by decide) hx),
    finditer_parts_indent (run_space_none (P := cyclesPat) rfl (by decide) hx),
    finditer_parts_indent (run_space_none (P := checkPat) rfl (by decide) hx)]

end indent

/-! ### Headers -/

theorem spacesThenLine_any {r g : List Char} (h : spacesThenLine r = some g) :
    r.any (· ≠ '\n') = true := by
  unfold spacesThenLine at h
  split at h
  · obtain ⟨c, hc, -⟩ := Option.map_eq_some'.1 h
    have := List.find?_some hc
    simp only [List.any_eq_true, decide_eq_true_eq]
    exact ⟨c, List.mem_reverse.1 (List.mem_of_find?_eq_some hc), by simpa using this⟩
  · rename_i c r0 hd
    have hc : isPySpace c = false := by
      have := List.head_dropWhile_not isPySpace r (by rw [hd]; simp)
      simpa [hd] using this
    simp only [List.any_eq_true, decide_eq_true_eq]
    refine ⟨c, (List.dropWhile_suffix isPySpace).subset (by rw [hd]; simp), fun he => ?_⟩
    rw [he] at hc
    cases hc

/-- **Every header of the extractor is a header of the converter.**  (Not conversely: the
converter also takes a letter after the number, `-- TEST 12a:`.) -/
theorem header_of_test {line : List Char} (h : (Line.ofText line).test.isSome) :
    (readCLine line).header = true := by
  obtain ⟨x, y, rfl, hy⟩ := (firstMatch_isSome_iff _ _).1 h
  refine (firstMatch_isSome_iff _ _).2 ⟨x, y, rfl, ?_⟩
  obtain ⟨v, hv⟩ := Option.isSome_iff_exists.1 hy
  obtain ⟨⟨gs, r⟩, hr, hv⟩ := Option.bind_eq_some.1 hv
  obtain ⟨g, hg, -⟩ := Option.map_eq_some'.1 hv
  obtain ⟨rfl, hgs⟩ := testHeadX.run_eq_some_iff.1 hr
  refine (testPatMatch_isSome_iff _).2 ⟨gs.flatten, r, rfl, ⟨gs, rfl, ?_⟩, spacesThenLine_any hg⟩
  obtain ⟨_, _, h0, hA, rfl⟩ := List.forall₂_cons_left_iff.1 hgs
  obtain ⟨_, _, ⟨xs1, rfl, h1⟩, hB, rfl⟩ := List.forall₂_cons_left_iff.1 hA
  exact .cons h0 (.cons ⟨xs1 ++ [[]], by simp, List.rel_append h1 (.cons (.inl rfl) .nil)⟩ hB)

end M65832Tb
