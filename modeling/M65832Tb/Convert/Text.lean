import M65832Tb.Text.Flank
import M65832Tb.Convert.Program
import M65832Tb.Extract.Dump

/-!
# What the converter reads of a line

`convert_width_encoding.py` reads a line of the testbench through three patterns, `test_pat` (a
test header), `rst_pat` (the line asserts reset) and `POKE_PAT` (its `poke`s), through
`line.strip()` (a comment about the old program) and through `re.match(r'^(\s*)', line)` (the
indent).  `readCLine` is what they read: the `CLine` the model of the converter works on.

The converter writes two kinds of text, and both are read back as the model says:

* a shift line, rewritten by the source's loop over its matches (`shiftText`), is read as the
  model's `shiftLine` of the line (`readCLine_shiftText`).  The rewrite changes only the address
  digits of the `poke`s it moves (`shiftText_flank`); no pattern but `POKE_PAT` can see the
  difference, and `POKE_PAT` finds the moved `poke`s where it found the old ones;
* the new lines, under an indent of white space, are read as `newPokeLines`
  (`readCLine_newPokeText`).  `POKE_PAT` reads a written call back as its address and datum
  (`pokePat_run_call`), and every pattern needs one of `:`, `_` and `k`, so a text without them
  is read as no directive (`readCLine_of_noDirectiveChar`).

The model's `CLine` also records `poke16` directives.  `POKE_PAT` never matches one, and the
converter reads no other pattern, so a line read from its text records only its `poke`s.
-/

namespace M65832Tb

/-! ### The patterns -/

/-- `POKE_PAT`, `(poke\s*\(\s*16#)([0-9A-Fa-f]+)(#\s*,\s*x")([0-9A-Fa-f]+)("\s*\))`: its five
groups are the parts. -/
def pokePat : Pattern where
  parts := [[.lit 'p', .lit 'o', .lit 'k', .lit 'e', .star .space, .lit '(', .star .space, .lit '1',
      .lit '6', .lit '#'], [.plus .hex],
    [.lit '#', .star .space, .lit ',', .star .space, .lit 'x', .lit '"'], [.plus .hex],
    [.lit '"', .star .space, .lit ')']]
  det := by decide
  solid := by decide

/-- `rst_pat`, `rst_n\s*<=\s*'0'`. -/
def rstPat : Pattern where
  parts := [[.lit 'r', .lit 's', .lit 't', .lit '_', .lit 'n', .star .space, .lit '<', .lit '=',
    .star .space, .lit '\'', .lit '0', .lit '\'']]
  det := by decide
  solid := by decide

/-- The head of `test_pat`, `--+\s*TEST\s+(\d+[A-Za-z]?):`. -/
def testHead : Pattern where
  parts := [[.lit '-', .plus .dash, .star .space, .lit 'T', .lit 'E', .lit 'S', .lit 'T',
    .plus .space], [.plus .digit, .opt .letter], [.lit ':']]
  det := by decide
  solid := by decide

/-- `test_pat`, `--+\s*TEST\s+(\d+[A-Za-z]?):\s*([^\n]+)`, at the start of a text: its head, then
a rest that holds a character other than a newline, since `\s*` gives back to `[^\n]+` what it
needs (`tail_iff`). -/
def testPatMatch (y : List Char) : Option (List (List Char)) :=
  (testHead.run y).bind fun p => if p.2.any (· ≠ '\n') then some p.1 else none

/-- `\s*([^\n]+)` matches at the start of `r` exactly when `r` holds a character other than a
newline. -/
theorem tail_iff (r : List Char) :
    (∃ a b r', r = a ++ b ++ r' ∧ (∀ c ∈ a, isPySpace c = true) ∧ b ≠ [] ∧ ∀ c ∈ b, c ≠ '\n') ↔
      r.any (· ≠ '\n') = true := by
  constructor
  · rintro ⟨a, _ | ⟨c, b⟩, r', rfl, -, hb, hb'⟩
    · exact absurd rfl hb
    · simp only [List.any_append, List.any_cons, Bool.or_eq_true, decide_eq_true_eq]
      exact .inl (.inr (.inl (hb' c (List.mem_cons_self _ _))))
  · intro h
    induction r with
    | nil => cases h
    | cons c r ih =>
      by_cases hc : c = '\n'
      · obtain ⟨a, b, r', rfl, ha, hb⟩ := ih (by simpa [hc] using h)
        exact ⟨c :: a, b, r', rfl, List.forall_mem_cons.2 ⟨by rw [hc]; rfl, ha⟩, hb⟩
      · exact ⟨[], [c], r, rfl, by simp, by simp, by simpa using hc⟩

/-- `line.strip()`. -/
def pyStrip (s : List Char) : List Char :=
  ((s.dropWhile isPySpace).reverse.dropWhile isPySpace).reverse

/-- The test on the line above the first replace line: `cl = line.strip()` starts with `--` and
mentions `Program:`, `SEP`, `REP`, `M0` or `M1`. -/
def isOldComment (line : List Char) : Bool :=
  let cl := pyStrip line
  decide (['-', '-'] <+: cl) &&
    ["Program:", "SEP", "REP", "M0", "M1"].any fun w => decide (w.toList <:+: cl)

/-- The directive of a match of `POKE_PAT`: `int(m.group(2), 16)`, `int(m.group(4), 16)`. -/
def pokeDir (gs : List (List Char)) : Directive :=
  .poke (hexNum (gs.getD 1 [])) (hexNum (gs.getD 3 []))

/-- What the converter reads of a line of the file. -/
def readCLine (line : List Char) : CLine where
  header := (firstMatch testPatMatch line).isSome
  reset := (rstPat.search line).isSome
  writes := ((pokePat.finditer line).map Match.parts).map pokeDir
  indent := String.mk (line.takeWhile isPySpace)
  oldComment := isOldComment line

/-- The empty line reads as the model's default line. -/
@[simp] theorem readCLine_nil : readCLine [] = {} := by decide

theorem readCLine_writes (line : List Char) :
    (readCLine line).writes = ((pokePat.finditer line).map Match.parts).map pokeDir :=
  rfl

/-! ### What rewriting an address leaves alone -/

section flank

variable {s s' : List Char}

theorem testPatMatch_isSome_iff (y : List Char) : (testPatMatch y).isSome ↔
    ∃ t r, y = t ++ r ∧ (∃ gs, t = gs.flatten ∧ List.Forall₂ PartTakes testHead.parts gs) ∧
      r.any (· ≠ '\n') = true := by
  constructor
  · intro hy
    obtain ⟨gs, hgs⟩ := Option.isSome_iff_exists.1 hy
    obtain ⟨⟨gs', r⟩, hr, he⟩ := Option.bind_eq_some.1 hgs
    split_ifs at he with hn
    obtain ⟨rfl, hg⟩ := testHead.run_eq_some_iff.1 hr
    exact ⟨_, r, rfl, ⟨gs', rfl, hg⟩, hn⟩
  · rintro ⟨t, r, rfl, ⟨gs, rfl, hg⟩, hn⟩
    rw [testPatMatch, testHead.run_eq_some_iff.2 ⟨rfl, hg⟩]
    simp only [Option.some_bind, hn, ite_true, Option.isSome_some]

theorem Flank.header (h : Flank s s') :
    (firstMatch testPatMatch s).isSome = (firstMatch testPatMatch s').isSome :=
  Flank.firstMatch_isSome (R := fun r => r.any (· ≠ '\n') = true) testPatMatch_isSome_iff
    (fun _ ⟨_, ht, hg⟩ => ht ▸ testHead.avoidsRuns_text (by decide) hg)
    (fun _ _ hr h => hr.any_ne_newline.symm.trans h) h

theorem Flank.strip (h : Flank s s') : Flank (pyStrip s) (pyStrip s') :=
  h.dropWhile_space.reverse.dropWhile_space.reverse

theorem Flank.isOldComment (h : Flank s s') : isOldComment s = isOldComment s' := by
  have hc := h.strip
  simp only [M65832Tb.isOldComment, List.any_cons, List.any_nil, Bool.or_false,
    hc.isPrefix_iff (by decide : '#' ∉ ['-', '-']),
    hc.isInfix_iff (by decide : '#' ∉ "Program:".toList) (by decide),
    hc.isInfix_iff (by decide : '#' ∉ "SEP".toList) (by decide),
    hc.isInfix_iff (by decide : '#' ∉ "REP".toList) (by decide),
    hc.isInfix_iff (by decide : '#' ∉ "M0".toList) (by decide),
    hc.isInfix_iff (by decide : '#' ∉ "M1".toList) (by decide)]

/-- Two lines that differ only in runs are read alike but for their writes. -/
theorem readCLine_of_flank (h : Flank s s') :
    readCLine s' = { readCLine s with writes := (readCLine s').writes } := by
  simp only [readCLine, h.header, Flank.search_isSome (P := rstPat) (by decide) h,
    h.takeWhile_space, h.isOldComment]

end flank

/-! ### A shift line -/

/-- `addr >= 0x8000 + old_len`: a `poke` the shift moves. -/
def movesPoke (oldLen : ℕ) (gs : List (List Char)) : Bool :=
  0x8000 + oldLen ≤ hexNum (gs.getD 1 [])

/-- `new_match`: the groups of a `poke` with the address `f'{new_addr:04X}'`, where
`new_addr = addr + delta` and `delta = new_len - old_len`. -/
def movedGroups (oldLen newLen : ℕ) (gs : List (List Char)) : List (List Char) :=
  [gs.getD 0 [], hexUpper 4 (hexNum (gs.getD 1 []) + newLen - oldLen), gs.getD 2 [], gs.getD 3 [],
    gs.getD 4 []]

/-- The shift of a line: over `reversed(poke_info)`, each `poke` the shift moves is cut out of the
line by its positions and its moved text put in. -/
def shiftText (oldLen newLen : ℕ) (line : List Char) : List Char :=
  rewriteLoop (movesPoke oldLen) (movedGroups oldLen newLen) line (pokePat.finditer line)

/-- The groups a match of a shift line becomes. -/
def shiftGroups (oldLen newLen : ℕ) (gs : List (List Char)) : List (List Char) :=
  if movesPoke oldLen gs then movedGroups oldLen newLen gs else gs

section shift

variable {L n : ℕ} {gs : List (List Char)}

theorem shiftText_eq (L n : ℕ) (line : List Char) :
    shiftText L n line = pokePat.rewrite (shiftGroups L n) line.length line :=
  pokePat.rewriteLoop_scan _ _ (x := []) le_rfl

theorem pokePat_start : startB pokePat 'p' = true := by decide

theorem eq_hash_of_ciEq {c : Char} (h : ciEq '#' c = true) : c = '#' := by
  have h35 : foldCode c.toNat = 35 := by simpa [ciEq] using h
  have : c.toNat = 35 := by unfold foldCode at h35; split_ifs at h35 <;> omega
  rw [← Char.ofNat_toNat c, this]

theorem hexUpper_ne_nil {w : ℕ} (hw : 0 < w) (n : ℕ) : hexUpper w n ≠ [] :=
  List.ne_nil_of_length_pos (by simp only [hexUpper, List.length_append, List.length_replicate]; omega)

theorem isHexChar_of_mem_hexUpper {w n : ℕ} {c : Char} (h : c ∈ hexUpper w n) : isHexChar c = true :=
  (upperHexChars_spec c (mem_hexUpper h)).1

/-- The groups of a `poke`: the first ends and the third starts with `#`, and the second is the
address digits. -/
theorem pokePat_groups (h : List.Forall₂ PartTakes pokePat.parts gs) :
    ∃ a b c d e, gs = [a ++ ['#'], b, '#' :: c, d, e] ∧ b ≠ [] ∧ ∀ x ∈ b, isHexChar x = true := by
  obtain ⟨_, _, ⟨xs0, rfl, h0⟩, hA, rfl⟩ := List.forall₂_cons_left_iff.1 h
  obtain ⟨_, _, ⟨xs1, rfl, h1⟩, hB, rfl⟩ := List.forall₂_cons_left_iff.1 hA
  obtain ⟨_, _, ⟨xs2, rfl, h2⟩, hC, rfl⟩ := List.forall₂_cons_left_iff.1 hB
  obtain ⟨d, _, -, hD, rfl⟩ := List.forall₂_cons_left_iff.1 hC
  obtain ⟨e, _, -, hE, rfl⟩ := List.forall₂_cons_left_iff.1 hD
  cases List.forall₂_nil_left_iff.1 hE
  -- the first group ends with the `#` of `16#`
  have h0' : List.Forall₂ Atom.Takes [.lit '#', .lit '6', .lit '1', .star .space, .lit '(',
      .star .space, .lit 'e', .lit 'k', .lit 'o', .lit 'p'] xs0.reverse := List.forall₂_reverse_iff.2 h0
  obtain ⟨_, rest0, ⟨c0, rfl, hc0⟩, -, he0⟩ := List.forall₂_cons_left_iff.1 h0'
  have hx0 : xs0 = rest0.reverse ++ [[c0]] := by
    rw [← List.reverse_reverse xs0, he0, List.reverse_cons]
  -- the third starts with the `#` after the address
  obtain ⟨_, xs2', ⟨c2, rfl, hc2⟩, -, rfl⟩ := List.forall₂_cons_left_iff.1 h2
  obtain ⟨b, _, hb, hnil, rfl⟩ := List.forall₂_cons_left_iff.1 h1
  cases List.forall₂_nil_left_iff.1 hnil
  subst hx0
  rw [eq_hash_of_ciEq hc0, eq_hash_of_ciEq hc2]
  exact ⟨rest0.reverse.flatten, b, xs2'.flatten, d, e, by simp, hb.1, fun x hx => by
    rw [← CharClass.test_hex]; exact hb.2 x hx⟩

theorem partTakes_plus {k : CharClass} {x : List Char} (h : x ≠ []) (hx : ∀ c ∈ x, k.test c = true) :
    PartTakes [.plus k] x :=
  ⟨[x], by simp, .cons ⟨h, hx⟩ .nil⟩

theorem flank_shiftGroups (h : List.Forall₂ PartTakes pokePat.parts gs) :
    Flank gs.flatten (shiftGroups L n gs).flatten := by
  unfold shiftGroups
  split_ifs
  · obtain ⟨a, b, c, d, e, rfl, hb, hbx⟩ := pokePat_groups h
    simp only [movedGroups, List.getD_cons_zero, List.getD_cons_succ, List.flatten_cons,
      List.flatten_nil, List.append_nil, List.append_assoc, List.singleton_append, List.cons_append]
    exact (Flank.refl a).append (.run hb (hexUpper_ne_nil (by decide) _) hbx (fun _ => isHexChar_of_mem_hexUpper)
      (Flank.refl _))
  · exact Flank.refl _

theorem shiftGroups_valid (h : List.Forall₂ PartTakes pokePat.parts gs) :
    List.Forall₂ PartTakes pokePat.parts (shiftGroups L n gs) ∧
      (shiftGroups L n gs).flatten.head? = gs.flatten.head? := by
  unfold shiftGroups
  split_ifs
  · obtain ⟨a, b, c, d, e, rfl, -, -⟩ := pokePat_groups h
    rcases h with _ | ⟨h0, _ | ⟨-, _ | ⟨h2, _ | ⟨h3, _ | ⟨h4, -⟩⟩⟩⟩⟩
    refine ⟨.cons h0 (.cons (partTakes_plus (hexUpper_ne_nil (by decide) _) fun x hx => ?_)
      (.cons h2 (.cons h3 (.cons h4 .nil)))), by simp [movedGroups]⟩
    rw [CharClass.test_hex]
    exact isHexChar_of_mem_hexUpper hx
  · exact ⟨h, rfl⟩

/-- **A shift line changes only in address digits.** -/
theorem shiftText_flank (L n : ℕ) (line : List Char) : Flank line (shiftText L n line) := by
  rw [shiftText_eq]
  exact pokePat.rewrite_flank (fun _ h => flank_shiftGroups h) _ _

theorem pokeDir_shiftGroups (L n : ℕ) (gs : List (List Char)) :
    pokeDir (shiftGroups L n gs) = shiftDirective L n (pokeDir gs) := by
  simp only [shiftGroups, movesPoke, decide_eq_true_eq, shiftDirective, pokeDir]
  split_ifs
  · simp [movedGroups, hexNum_hexUpper]
  · rfl

/-- **A shift line is read as the model's shift of the line.** -/
theorem readCLine_shiftText (L n : ℕ) (line : List Char) :
    readCLine (shiftText L n line) = shiftLine L n (readCLine line) := by
  rw [readCLine_of_flank (shiftText_flank L n line)]
  have hw : (readCLine (shiftText L n line)).writes = (readCLine line).writes.map (shiftDirective L n) := by
    rw [readCLine_writes, readCLine_writes, Pattern.finditer, Pattern.finditer, shiftText_eq,
      pokePat.scan_rewrite pokePat_start (fun _ h => shiftGroups_valid h) le_rfl le_rfl, List.map_map,
      List.map_map, List.map_map]
    exact List.map_congr_left fun m _ => pokeDir_shiftGroups L n m.parts
  rw [hw]
  rfl

end shift

/-! ### The new lines -/

/-- The comment `convert_sub_program` writes after the `i`-th new byte. -/
def byteComment : PatName → ℕ → String
  | .bit32, 0 => "  -- SEPE #$03"
  | .bit32, 2 => "  -- set W1+W0 -> W=11 (32-bit)"
  | .bit16m, 0 => "  -- SEPE #$01"
  | .bit16m, 2 => "  -- set W0 -> W=01 (native)"
  | .bit16m, 3 => "  -- REP #$20"
  | .bit16m, 4 => "  -- clear M -> 16-bit acc"
  | .bit16x, 0 => "  -- SEPE #$01"
  | .bit16x, 2 => "  -- set W0 -> W=01 (native)"
  | .bit16x, 3 => "  -- REP #$10"
  | .bit16x, 4 => "  -- clear X -> 16-bit idx"
  | _, _ => ""

/-- `new_poke_lines`: the line `f'{indent}-- {desc}\n'`, then for the `i`-th new byte the line
`f'{indent}poke(16#{addr:04X}#, x"{byte_val:02X}");{comment}\n'` with `addr = 0x8000 + i`. -/
def newPokeText (indent : List Char) (p : ModePattern) : List (List Char) :=
  (indent ++ "-- ".toList ++ p.desc.toList ++ ['\n']) ::
    p.newBytes.enum.map fun ib => indent ++ "poke(16#".toList ++ hexUpper 4 (0x8000 + ib.1) ++
      "#, x\"".toList ++ hexUpper 2 ib.2 ++ "\");".toList ++ (byteComment p.name ib.1).toList ++ ['\n']

/-- The sequences `identify_mode_pattern` returns, in its order. -/
def modePatterns : List ModePattern :=
  [⟨.bit32, 8, [0x02, 0x61, 0x03], "SEPE #$03 -> W=11 (32-bit)"⟩,
    ⟨.bit32, 6, [0x02, 0x61, 0x03], "SEPE #$03 -> W=11 (32-bit)"⟩,
    ⟨.bit16m, 6, [0x02, 0x61, 0x01, 0xC2, 0x20], "SEPE #$01 (W=01 native); REP #$20 (16-bit M)"⟩,
    ⟨.bit32, 4, [0x02, 0x61, 0x03], "SEPE #$03 -> W=11 (32-bit)"⟩,
    ⟨.bit32, 4, [0x02, 0x61, 0x03], "SEPE #$03 -> W=11 (32-bit)"⟩,
    ⟨.bit16m, 4, [0x02, 0x61, 0x01, 0xC2, 0x20], "SEPE #$01 (W=01); REP #$20 (16-bit M)"⟩,
    ⟨.bit16m, 2, [0x02, 0x61, 0x01, 0xC2, 0x20], "SEPE #$01 (W=01); REP #$20 (16-bit M)"⟩,
    ⟨.bit16x, 2, [0x02, 0x61, 0x01, 0xC2, 0x10], "SEPE #$01 (W=01); REP #$10 (16-bit X)"⟩]

/-- The sequences as the new lines show them: by name, new bytes and description, without the
length of the old sequence. -/
def newSequences : List ModePattern := (modePatterns.map fun p => { p with oldLen := 0 }).dedup

theorem newPokeText_oldLen (x : List Char) (p : ModePattern) (n : ℕ) :
    newPokeText x { p with oldLen := n } = newPokeText x p :=
  rfl

theorem newPokeLines_oldLen (i : String) (p : ModePattern) (n : ℕ) :
    newPokeLines i { p with oldLen := n } = newPokeLines i p :=
  rfl

theorem mem_newSequences {p : ModePattern} (hp : p ∈ modePatterns) :
    { p with oldLen := 0 } ∈ newSequences :=
  List.mem_dedup.2 (List.mem_map_of_mem _ hp)

theorem identifyModePattern_mem {code : ℕ → Option ℕ} {p : ModePattern}
    (h : identifyModePattern code = some p) : p ∈ modePatterns := by
  unfold identifyModePattern at h
  dsimp only at h
  rcases ite_eq_iff.1 h with ⟨-, h⟩ | ⟨-, h⟩
  · cases h
  iterate 8
    rcases ite_eq_iff.1 h with ⟨-, h⟩ | ⟨-, h⟩
    · cases h; decide
  cases h

/-- No pattern of the converter starts at a white-space character. -/
theorem Pattern.run_eq_none_of_space {P : Pattern} {p : Char} {rest : List Atom}
    (hP : P.parts.flatten = .lit p :: rest) (hp : CSet.disjoint (.cls .space) (.lit p) = true)
    {c : Char} (hc : isPySpace c = true) (y : List Char) : P.run (c :: y) = none := by
  have : ciEq p c = false := CSet.disjoint_sound hp (c := c) hc
  simp [Pattern.run, hP, runAtoms, Atom.run, this]

/-- A line under an indent of white space is read as the line with that indent. -/
theorem readCLine_indent {x t : List Char} (hx : ∀ c ∈ x, isPySpace c = true)
    (ht : ∀ c ∈ t.head?, isPySpace c = false) :
    readCLine (x ++ t) = { readCLine t with indent := String.mk x } := by
  have hT : ∀ c ∈ x, ∀ y, testPatMatch (c :: y) = none := fun c hc y => by
    simp [testPatMatch, Pattern.run_eq_none_of_space (P := testHead) rfl (by decide) (hx c hc)]
  have hR : ∀ c ∈ x, ∀ y, rstPat.run (c :: y) = none := fun c hc =>
    Pattern.run_eq_none_of_space (P := rstPat) rfl (by decide) (hx c hc)
  have hP : ∀ c ∈ x, ∀ y, pokePat.run (c :: y) = none := fun c hc =>
    Pattern.run_eq_none_of_space (P := pokePat) rfl (by decide) (hx c hc)
  have hw : t.takeWhile isPySpace = [] := by
    cases t with
    | nil => rfl
    | cons c t => simp [List.takeWhile_cons, ht c rfl]
  have hs : (pokePat.finditer (x ++ t)).map Match.parts = (pokePat.finditer t).map Match.parts := by
    rw [Pattern.finditer, pokePat.scan_append_of_none hP, List.length_append, Nat.add_sub_cancel_left,
      Pattern.finditer, pokePat.scan_parts _ 0]
  simp only [readCLine, Pattern.search, firstMatch_append_of_none hT, firstMatch_append_of_none hR, hs,
    List.takeWhile_append_of_pos hx, hw, List.append_nil, isOldComment, pyStrip,
    List.dropWhile_append_of_pos hx]

/-! ### Reading the written text -/

/-- No character of the text folds to `:`, `_` or `k`.  Every pattern of the two scripts needs
one of them: a test header `:`, `rst_n` and the other assignments, `wait_cycles` and
`check_mem` `_`, and each write the `k` of `poke`. -/
def noDirectiveChar (s : List Char) : Bool :=
  s.all fun c => !ciEq ':' c && !ciEq '_' c && !ciEq 'k' c

section directiveChars

variable {s t : List Char}

theorem noDirectiveChar_iff : noDirectiveChar s = true ↔
    ∀ c ∈ s, ciEq ':' c = false ∧ ciEq '_' c = false ∧ ciEq 'k' c = false := by
  simp [noDirectiveChar, List.all_eq_true, and_assoc]

@[simp] theorem noDirectiveChar_append :
    noDirectiveChar (s ++ t) = (noDirectiveChar s && noDirectiveChar t) :=
  List.all_append

theorem noDirectiveChar_hexUpper (w n : ℕ) : noDirectiveChar (hexUpper w n) = true :=
  noDirectiveChar_iff.2 fun c hc =>
    (by decide : ∀ c ∈ upperHexChars, ciEq ':' c = false ∧ ciEq '_' c = false ∧ ciEq 'k' c = false)
      c (mem_hexUpper hc)

theorem byteComment_noDirectiveChar (n : PatName) (i : ℕ) :
    noDirectiveChar (byteComment n i).toList = true := by
  cases n <;> rcases i with _ | _ | _ | _ | _ | i <;> rfl

/-- The first character of a stripped line that starts with no white space. -/
theorem pyStrip_head {c : Char} (hc : isPySpace c = false) (s : List Char) :
    (pyStrip (c :: s)).head? = some c := by
  unfold pyStrip
  rw [List.dropWhile_cons_of_neg (by simp [hc]), List.reverse_cons, List.dropWhile_append]
  split <;> simp [List.dropWhile_cons_of_neg, hc]

theorem isOldComment_cons {c : Char} (hc : isPySpace c = false) (hd : c ≠ '-') (s : List Char) :
    isOldComment (c :: s) = false := by
  have h := pyStrip_head hc s
  unfold isOldComment
  cases ht : pyStrip (c :: s) with
  | nil => rw [ht] at h; cases h
  | cons c' t =>
    rw [ht, List.head?_cons, Option.some.injEq] at h
    subst h
    simp [Ne.symm hd]

/-- No test header in a text without `:`. -/
theorem firstMatch_testPatMatch_none (h : ∀ c ∈ s, ciEq ':' c = false) :
    firstMatch testPatMatch s = none :=
  firstMatch_eq_none fun x y he => by
    rw [testPatMatch, testHead.run_eq_none_of_lit (p := ':') (by decide)
      fun c hy => h c (he ▸ List.mem_append_right x hy)]
    rfl

/-- No reset in a text without `_`. -/
theorem rstPat_search_none (h : ∀ c ∈ s, ciEq '_' c = false) : rstPat.search s = none :=
  rstPat.search_eq_none_of_lit (p := '_') (by decide) h

theorem takeWhile_isPySpace_cons {c : Char} (hc : isPySpace c = false) (s : List Char) :
    (c :: s).takeWhile isPySpace = [] := by
  simp [hc]

/-- A text without the characters a directive needs is read as its indent and its comment test
alone. -/
theorem readCLine_of_noDirectiveChar (h : noDirectiveChar s = true) :
    readCLine s = { indent := String.mk (s.takeWhile isPySpace), oldComment := isOldComment s } := by
  have hc := noDirectiveChar_iff.1 h
  simp only [readCLine, firstMatch_testPatMatch_none fun c h' => (hc c h').1,
    rstPat_search_none fun c h' => (hc c h').2.1, pokePat.finditer_eq_nil_of_lit (p := 'k')
    (by decide) fun c h' => (hc c h').2.2, Option.isSome_none, List.map_nil]

end directiveChars

/-- **`POKE_PAT` reads the call the converter writes**, `poke(16#AAAA#, x"DD")`, whatever follows
it. -/
theorem pokePat_run_call {w₁ w₂ : ℕ} (h₁ : 0 < w₁) (h₂ : 0 < w₂) (a d : ℕ) (r : List Char) :
    pokePat.run ("poke(16#".toList ++ hexUpper w₁ a ++ "#, x\"".toList ++ hexUpper w₂ d ++
        "\")".toList ++ r) =
      some (["poke(16#".toList, hexUpper w₁ a, "#, x\"".toList, hexUpper w₂ d, "\")".toList], r) := by
  have hx : ∀ {w} n, 0 < w → PartTakes [.plus .hex] (hexUpper w n) := fun n hw =>
    partTakes_plus (hexUpper_ne_nil hw n) fun c hc =>
      (CharClass.test_hex c).trans (isHexChar_of_mem_hexUpper hc)
  refine pokePat.run_eq_some_iff.2 ⟨by simp, .cons (partTakes_of_runAtoms (by decide) (by decide))
    (.cons (hx a h₁) (.cons (partTakes_of_runAtoms (by decide) (by decide))
      (.cons (hx d h₂) (.cons (partTakes_of_runAtoms (by decide) (by decide)) .nil))))⟩

/-- The text after the name of a written `poke`. -/
theorem noDirectiveChar_call (a d : ℕ) {C : List Char} (hC : noDirectiveChar C = true) :
    noDirectiveChar ("16#".toList ++ hexUpper 4 a ++ "#, x\"".toList ++ hexUpper 2 d ++
      "\");".toList ++ C) = true := by
  simp only [noDirectiveChar_append, noDirectiveChar_hexUpper, hC]
  decide

/-- A written `poke` line is a match of `POKE_PAT` and nothing after it. -/
theorem pokePat_finditer_call (a d : ℕ) {C : List Char} (hC : noDirectiveChar C = true) :
    (pokePat.finditer ("poke(16#".toList ++ hexUpper 4 a ++ "#, x\"".toList ++ hexUpper 2 d ++
        "\");".toList ++ C)).map Match.parts =
      [["poke(16#".toList, hexUpper 4 a, "#, x\"".toList, hexUpper 2 d, "\")".toList]] := by
  have hr : noDirectiveChar (';' :: C) = true := by simpa using hC
  have he : "poke(16#".toList ++ hexUpper 4 a ++ "#, x\"".toList ++ hexUpper 2 d ++ "\");".toList ++ C =
      "poke(16#".toList ++ hexUpper 4 a ++ "#, x\"".toList ++ hexUpper 2 d ++ "\")".toList ++
        (';' :: C) := by
    simp
  rw [he]
  exact pokePat.finditer_parts_of_run (pokePat_run_call (by decide) (by decide) a d _)
    fun x y he => pokePat.run_eq_none_of_lit (p := 'k') (by decide)
      fun c hc => (noDirectiveChar_iff.1 hr c (he ▸ List.mem_append_right x hc)).2.2

/-- A written `poke` line is `poke(` and a text without the characters a directive needs. -/
theorem pokeText_split (a d : ℕ) (C : List Char) :
    "poke(16#".toList ++ hexUpper 4 a ++ "#, x\"".toList ++ hexUpper 2 d ++ "\");".toList ++ C =
      "poke(".toList ++ ("16#".toList ++ hexUpper 4 a ++ "#, x\"".toList ++ hexUpper 2 d ++
        "\");".toList ++ C) := by
  simp

/-- A written `poke` line holds neither `:` nor `_`. -/
theorem pokeText_chars (a d : ℕ) {C : List Char} (hC : noDirectiveChar C = true) :
    ∀ c ∈ "poke(16#".toList ++ hexUpper 4 a ++ "#, x\"".toList ++ hexUpper 2 d ++ "\");".toList ++ C,
      ciEq ':' c = false ∧ ciEq '_' c = false := by
  rw [pokeText_split]
  intro c hc
  rcases List.mem_append.1 hc with hc | hc
  · exact (by decide : ∀ c ∈ "poke(".toList, ciEq ':' c = false ∧ ciEq '_' c = false) c hc
  · obtain ⟨h1, h2, -⟩ := noDirectiveChar_iff.1 (noDirectiveChar_call a d hC) c hc
    exact ⟨h1, h2⟩

/-- **The converter reads a `poke` line it writes as its address and datum.** -/
theorem readCLine_pokeText (a d : ℕ) {C : List Char} (hC : noDirectiveChar C = true) :
    readCLine ("poke(16#".toList ++ hexUpper 4 a ++ "#, x\"".toList ++ hexUpper 2 d ++
      "\");".toList ++ C) = { writes := [.poke a d] } := by
  have hc := pokeText_chars a d hC
  have hi : ("poke(16#".toList ++ hexUpper 4 a ++ "#, x\"".toList ++ hexUpper 2 d ++ "\");".toList ++
      C).takeWhile isPySpace = [] :=
    takeWhile_isPySpace_cons (c := 'p') (by decide) _
  have ho : isOldComment ("poke(16#".toList ++ hexUpper 4 a ++ "#, x\"".toList ++ hexUpper 2 d ++
      "\");".toList ++ C) = false :=
    isOldComment_cons (c := 'p') (by decide) (by decide) _
  simp only [readCLine, firstMatch_testPatMatch_none fun c h' => (hc c h').1,
    rstPat_search_none fun c h' => (hc c h').2, pokePat_finditer_call a d hC, hi, ho,
    Option.isSome_none, List.map_cons, List.map_nil, pokeDir, List.getD_cons_succ,
    List.getD_cons_zero, hexNum_hexUpper]

/-- The descriptions of the new sequences hold no directive character, and each names `SEPE`. -/
theorem newSequences_desc : ∀ p ∈ newSequences, noDirectiveChar p.desc.toList = true ∧
    isOldComment ("-- ".toList ++ p.desc.toList ++ ['\n']) = true := by
  decide

theorem newPokeText_read : ∀ p ∈ newSequences, (newPokeText [] p).map readCLine = newPokeLines "" p ∧
    ∀ t ∈ newPokeText [] p, ∀ c ∈ t.head?, isPySpace c = false := by
  intro p hp
  obtain ⟨hd, ho⟩ := newSequences_desc p hp
  refine ⟨?_, fun t ht c hc => ?_⟩
  · simp only [newPokeText, newPokeLines, List.map_cons, List.map_map, List.nil_append]
    refine congrArg₂ List.cons ?_ ?_
    · have hi : ("-- ".toList ++ p.desc.toList ++ ['\n']).takeWhile isPySpace = [] :=
        takeWhile_isPySpace_cons (c := '-') (by decide) _
      rw [readCLine_of_noDirectiveChar (by rw [noDirectiveChar_append, noDirectiveChar_append, hd]; rfl),
        ho, hi]
    · refine List.map_congr_left fun ib _ => ?_
      rw [Function.comp_apply, List.append_assoc _ _ ['\n'],
        readCLine_pokeText _ _ (by rw [noDirectiveChar_append, byteComment_noDirectiveChar]; rfl)]
  · rw [Option.mem_def] at hc
    simp only [newPokeText, List.nil_append, List.mem_cons, List.mem_map] at ht
    rcases ht with rfl | ⟨ib, -, rfl⟩
    · obtain rfl := Option.some.inj hc
      decide
    · obtain rfl := Option.some.inj hc
      decide

/-- **The new lines are read as the model's new lines.** -/
theorem readCLine_newPokeText {x : List Char} (hx : ∀ c ∈ x, isPySpace c = true) {p : ModePattern}
    (hp : p ∈ modePatterns) : (newPokeText x p).map readCLine = newPokeLines (String.mk x) p := by
  obtain ⟨h1, h2⟩ := newPokeText_read _ (mem_newSequences hp)
  rw [newPokeText_oldLen] at h1 h2
  rw [newPokeLines_oldLen] at h1
  have hx' : newPokeText x p = (newPokeText [] p).map (x ++ ·) := by simp [newPokeText]
  have hl : newPokeLines (String.mk x) p =
      (newPokeLines "" p).map fun l => { l with indent := String.mk x } := by
    simp [newPokeLines]
  rw [hx', hl, ← h1, List.map_map, List.map_map]
  exact List.map_congr_left fun t ht => readCLine_indent hx (h2 t ht)

end M65832Tb
