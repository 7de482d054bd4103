import Mathlib.Data.List.Basic
import Mathlib.Logic.Function.Basic

/-!
# The width-encoding converter

`convert_width_encoding.py` rewrites a VHDL testbench in place.  It splits the file into tests at
their header comments (`parseTestBlocks`) and each test into sub-programs at the lines that assert
reset (`findSubPrograms`).  In each sub-program it reads the `poke` directives, builds the byte map
of `$8000..$80FF` (`codeMap`) and looks there for an old-style mode-entry sequence
(`identifyModePattern`).  When it finds one it rewrites the sub-program (`convertSubProgram`):

* a line whose `poke`s all write into the old sequence is a *replace* line; the replace lines, from
  the first to the last, and the comment line just above them when it talks about the old program,
  give way to a comment and one `poke` per byte of the new sequence (`newPokeLines`);
* every other line with a `poke` into or past the old sequence is a *shift* line: each of its
  `poke`s at or past the end of the old sequence moves by `new_len - old_len` (`shiftLine`).

Tests are processed last first, and the sub-programs of a test last first (`convertTest`,
`convertMain`), so that the indices computed on the file stay valid.

A line is what the script's patterns read of it (`CLine`): whether it is a test header, whether it
asserts reset, its write directives in text order, its leading white space, and whether it is a
comment about the old program.  `POKE_PAT` matches `poke(...)` but never `poke16(...)`, so a
`poke16` directive is on the line but invisible to the converter.  Rewriting the address of a
`poke` changes nothing else the patterns read of the line.
-/

namespace M65832Tb

/-! ### Lines -/

/-- A write directive of a testbench line. -/
inductive Directive where
  /-- `poke(16#ADDR#, x"DATA")`, which `POKE_PAT` matches. -/
  | poke (addr data : ℕ)
  /-- `poke16(16#ADDR#, x"DATA")`, which `POKE_PAT` does not match. -/
  | poke16 (addr data : ℕ)
  deriving DecidableEq, Repr

/-- What the converter's patterns read of a line. -/
structure CLine where
  /-- `test_pat.search(line)`: the line is a test header. -/
  header : Bool := false
  /-- `rst_pat.search(line)`: the line asserts reset. -/
  reset : Bool := false
  /-- The write directives of the line, in text order. -/
  writes : List Directive := []
  /-- `re.match(r'^(\s*)', line).group(1)`. -/
  indent : String := ""
  /-- The stripped line starts with `--` and mentions `Program:`, `SEP`, `REP`, `M0` or `M1`. -/
  oldComment : Bool := false
  deriving DecidableEq, Repr

/-- The address and data of a `poke`. -/
def Directive.poke? : Directive → Option (ℕ × ℕ)
  | .poke a d => some (a, d)
  | .poke16 .. => none

/-- The address and data of a `poke16`. -/
def Directive.poke16? : Directive → Option (ℕ × ℕ)
  | .poke .. => none
  | .poke16 a d => some (a, d)

/-- `POKE_PAT.finditer(line)`: the `poke`s of a line, in order. -/
def CLine.pokes (l : CLine) : List (ℕ × ℕ) := l.writes.filterMap Directive.poke?

/-- The `poke16`s of a line, in order. -/
def CLine.poke16s (l : CLine) : List (ℕ × ℕ) := l.writes.filterMap Directive.poke16?

/-! ### Tests and sub-programs -/

/-- The loop body of `parse_test_blocks`: a header line closes the open test and opens its own. -/
def testBlockStep (acc : List (ℕ × ℕ) × Option ℕ) (il : ℕ × CLine) : List (ℕ × ℕ) × Option ℕ :=
  if il.2.header then
    ((match acc.2 with
      | some s => acc.1 ++ [(s, il.1)]
      | none => acc.1), some il.1)
  else acc

/-- `parse_test_blocks`: the line range `(start, end)` of each test, from its header to the next
header or the end of the file.  (The test's id is only printed.) -/
def parseTestBlocks (lines : List CLine) : List (ℕ × ℕ) :=
  match (lines.enum.foldl testBlockStep ([], none)) with
  | (tests, some s) => tests ++ [(s, lines.length)]
  | (tests, none) => tests

/-- `find_sub_programs`: the ranges between the start of the test and the reset lines, each
ending at a reset line; the whole test when it has none. -/
def findSubPrograms (lines : List CLine) (start stop : ℕ) : List (ℕ × ℕ) :=
  let rstLines := (List.range' start (stop - start)).filter fun i => (lines.getD i {}).reset
  if rstLines.isEmpty then [(start, stop)] else (start :: rstLines).zip rstLines

/-! ### The mode-entry sequences -/

/-- The byte map `code`: the last byte each `poke` into `$8000..$80FF` writes. -/
def codeMap (pokes : List (ℕ × ℕ)) : ℕ → Option ℕ :=
  pokes.foldl (fun code p => if 0x8000 ≤ p.1 ∧ p.1 < 0x8100 then Function.update code p.1 (some p.2)
    else code) fun _ => none

/-- The name of a pattern: `'32bit'`, `'16bit_m'`, `'16bit_x'`. -/
inductive PatName where
  | bit32
  | bit16m
  | bit16x
  deriving DecidableEq, Repr

/-- `(pattern_name, pattern_length_bytes, replacement_bytes, description)`. -/
structure ModePattern where
  name : PatName
  oldLen : ℕ
  newBytes : List ℕ
  desc : String
  deriving DecidableEq, Repr

/-- `identify_mode_pattern`: the old sequence the first bytes at `$8000` spell, longest first. -/
def identifyModePattern (code : ℕ → Option ℕ) : Option ModePattern :=
  if code 0x8000 = none then none
  else
    let b : ℕ → ℕ := fun i => (code (0x8000 + i)).getD 0
    if b 0 = 0xC2 ∧ b 1 = 0x40 ∧ b 2 = 0xE2 ∧ b 3 = 0x80 ∧ b 4 = 0xC2 ∧ b 5 = 0x10 ∧ b 6 = 0xE2 ∧
        b 7 = 0x20 then
      some ⟨.bit32, 8, [0x02, 0x61, 0x03], "SEPE #$03 -> W=11 (32-bit)"⟩
    else if b 0 = 0x18 ∧ b 1 = 0xFB ∧ b 2 = 0xC2 ∧ b 3 = 0x40 ∧ b 4 = 0xE2 ∧ b 5 = 0x80 then
      some ⟨.bit32, 6, [0x02, 0x61, 0x03], "SEPE #$03 -> W=11 (32-bit)"⟩
    else if b 0 = 0x18 ∧ b 1 = 0xFB ∧ b 2 = 0xC2 ∧ b 3 = 0x80 ∧ b 4 = 0xE2 ∧ b 5 = 0x40 then
      some ⟨.bit16m, 6, [0x02, 0x61, 0x01, 0xC2, 0x20], "SEPE #$01 (W=01 native); REP #$20 (16-bit M)"⟩
    else if b 0 = 0xC2 ∧ b 1 = 0x40 ∧ b 2 = 0xE2 ∧ b 3 = 0x80 then
      some ⟨.bit32, 4, [0x02, 0x61, 0x03], "SEPE #$03 -> W=11 (32-bit)"⟩
    else if b 0 = 0xC2 ∧ b 1 = 0x10 ∧ b 2 = 0xE2 ∧ b 3 = 0x20 then
      some ⟨.bit32, 4, [0x02, 0x61, 0x03], "SEPE #$03 -> W=11 (32-bit)"⟩
    else if b 0 = 0xC2 ∧ b 1 = 0x80 ∧ b 2 = 0xE2 ∧ b 3 = 0x40 then
      some ⟨.bit16m, 4, [0x02, 0x61, 0x01, 0xC2, 0x20], "SEPE #$01 (W=01); REP #$20 (16-bit M)"⟩
    else if b 0 = 0xE2 ∧ b 1 = 0x40 then
      some ⟨.bit16m, 2, [0x02, 0x61, 0x01, 0xC2, 0x20], "SEPE #$01 (W=01); REP #$20 (16-bit M)"⟩
    else if b 0 = 0xE2 ∧ b 1 = 0x10 then
      some ⟨.bit16x, 2, [0x02, 0x61, 0x01, 0xC2, 0x10], "SEPE #$01 (W=01); REP #$10 (16-bit X)"⟩
    else none

/-! ### Rewriting a sub-program -/

/-- `has_mode_entry`: a `poke` into the old sequence. -/
def hasModeEntry (oldLen : ℕ) (ps : List (ℕ × ℕ)) : Bool :=
  ps.any fun p => 0x8000 ≤ p.1 ∧ p.1 < 0x8000 + oldLen

/-- `has_code`: a `poke` at or past the end of the old sequence. -/
def hasCode (oldLen : ℕ) (ps : List (ℕ × ℕ)) : Bool := ps.any fun p => 0x8000 + oldLen ≤ p.1

/-- `has_data`: a `poke` below `$8000`. -/
def hasData (ps : List (ℕ × ℕ)) : Bool := ps.any fun p => p.1 < 0x8000

/-- A replace line: only `poke`s into the old sequence. -/
def isReplaceLine (oldLen : ℕ) (ps : List (ℕ × ℕ)) : Bool :=
  hasModeEntry oldLen ps && !hasCode oldLen ps && !hasData ps

/-- A shift line: a `poke` into or past the old sequence, on a line that is not a replace line. -/
def isShiftLine (oldLen : ℕ) (ps : List (ℕ × ℕ)) : Bool :=
  !isReplaceLine oldLen ps && (hasCode oldLen ps || hasModeEntry oldLen ps)

/-- `for i in range(sub_start, sub_end)`: the lines of the range with their indices. -/
def rangeLines (lines : List CLine) (s e : ℕ) : List (ℕ × CLine) :=
  (List.range' s (e - s)).map fun i => (i, lines.getD i {})

/-- `lines_to_replace`: the indices of the replace lines among the lines with a `poke`. -/
def replaceLines (oldLen : ℕ) (r : List (ℕ × CLine)) : List ℕ :=
  (((r.filter fun il => !il.2.pokes.isEmpty).filter fun il => isReplaceLine oldLen il.2.pokes)).map
    Prod.fst

/-- `lines_to_shift`: the indices of the shift lines among the lines with a `poke`. -/
def shiftLines (oldLen : ℕ) (r : List (ℕ × CLine)) : List ℕ :=
  (((r.filter fun il => !il.2.pokes.isEmpty).filter fun il => isShiftLine oldLen il.2.pokes)).map
    Prod.fst

/-- `new_poke_lines`: the comment naming the new sequence (it mentions `SEPE`), then one `poke`
per new byte at `$8000 + i`, with the indent of the first replace line.  The comments' texts are
left out. -/
def newPokeLines (indent : String) (p : ModePattern) : List CLine :=
  { indent, oldComment := true } ::
    p.newBytes.enum.map fun ib => { writes := [.poke (0x8000 + ib.1) ib.2], indent }

/-- `new_addr = addr + delta` for a `poke` at or past the end of the old sequence. -/
def shiftDirective (oldLen newLen : ℕ) : Directive → Directive
  | .poke a d => if 0x8000 + oldLen ≤ a then .poke (a + newLen - oldLen) d else .poke a d
  | .poke16 a d => .poke16 a d

/-- A shift line with its addresses moved. -/
def shiftLine (oldLen newLen : ℕ) (l : CLine) : CLine :=
  { l with writes := l.writes.map (shiftDirective oldLen newLen) }

/-- What a shift line does to one of its `poke`s. -/
def shiftPoke (oldLen newLen : ℕ) (q : ℕ × ℕ) : ℕ × ℕ :=
  (if 0x8000 + oldLen ≤ q.1 then q.1 + newLen - oldLen else q.1, q.2)

@[simp] theorem shiftLine_pokes {L n : ℕ} (l : CLine) :
    (shiftLine L n l).pokes = l.pokes.map (shiftPoke L n) := by
  simp only [CLine.pokes, shiftLine, List.filterMap_map, List.map_filterMap]
  congr 1; funext w
  cases w with
  | poke a d => by_cases h : 0x8000 + L ≤ a <;> simp [shiftDirective, Directive.poke?, shiftPoke, h]
  | poke16 => rfl

@[simp] theorem shiftLine_poke16s {L n : ℕ} (l : CLine) : (shiftLine L n l).poke16s = l.poke16s := by
  simp only [CLine.poke16s, shiftLine, List.filterMap_map]
  congr 1; funext w
  cases w with
  | poke a d => simp only [Function.comp, shiftDirective]; split_ifs <;> rfl
  | poke16 => rfl

@[simp] theorem shiftLine_oldComment {L n : ℕ} (l : CLine) :
    (shiftLine L n l).oldComment = l.oldComment :=
  rfl

/-- `indent`: the leading white space of the first replace line, or eight spaces. -/
def newIndent (lines : List CLine) (replace : List ℕ) : String :=
  match replace.head? with
  | some i => (lines.getD i {}).indent
  | none => "        "

/-- The shift step, `if delta != 0`: each shift line rewritten in place. -/
def shiftAt (p : ModePattern) (idx : List ℕ) (lines : List CLine) : List CLine :=
  if p.newBytes.length ≠ p.oldLen then
    idx.foldl (fun ls i => ls.set i (shiftLine p.oldLen p.newBytes.length (ls.getD i {}))) lines
  else lines

/-- The replace step: the lines from the first to the last replace line, and the comment line
above them when it lies in the range and talks about the old program, give way to `newLines`. -/
def spliceNew (s : ℕ) (newLines : List CLine) (replace : List ℕ) (lines : List CLine) :
    List CLine :=
  match replace.min?, replace.max? with
  | some first, some last =>
    let first := if s < first ∧ (lines.getD (first - 1) {}).oldComment then first - 1 else first
    lines.take first ++ newLines ++ lines.drop (last + 1)
  | _, _ => lines

/-- `convert_sub_program`: the lines with the sub-program `[s, e)` rewritten, and whether it was. -/
def convertSubProgram (lines : List CLine) (s e : ℕ) : List CLine × Bool :=
  let r := rangeLines lines s e
  let pokes := r.flatMap fun il => il.2.pokes
  if pokes.isEmpty then (lines, false)
  else
    match identifyModePattern (codeMap pokes) with
    | none => (lines, false)
    | some pat =>
      let rep := replaceLines pat.oldLen r
      let sh := shiftLines pat.oldLen r
      if rep.isEmpty && sh.isEmpty then (lines, false)
      else (spliceNew s (newPokeLines (newIndent lines rep) pat) rep (shiftAt pat sh lines), true)

/-- `convert_test`: the sub-programs of the test converted last first. -/
def convertTest (lines : List CLine) (start stop : ℕ) : List CLine × Bool :=
  (findSubPrograms lines start stop).reverse.foldl
    (fun acc r => ((convertSubProgram acc.1 r.1 r.2).1, acc.2 || (convertSubProgram acc.1 r.1 r.2).2))
    (lines, false)

/-- `main`: the lines written back, every test converted, last first.  (The counts are only
printed.) -/
def convertMain (lines : List CLine) : List CLine :=
  (parseTestBlocks lines).reverse.foldl (fun ls t => (convertTest ls t.1 t.2).1) lines

end M65832Tb
