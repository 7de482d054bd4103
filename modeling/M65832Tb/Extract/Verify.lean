import M65832Tb.Extract.Steps

/-!
# Judging the checks against the emulator's output

After the emulator has run the script, `run_emulator_test_v2` judges every check of the test, in
order (`Test.allChecks`), against the emulator's standard output: it searches the output for
`{addr:08X}:\s+([0-9A-Fa-f]{2})`, case-insensitively, and compares the byte the first match
captures with the check's expected value (`verifyCheck`).  A test with no phase is not run at all;
a run that times out or raises fails every check (`runEmulatorTestV2`).  Whatever the emulator
does, every check is counted once, as passed or as failed (`runEmulatorTestV2_counts`).

The search is Python's `re.search`: the leftmost position of the output where the pattern matches
(`reSearch`, `dumpMatch`).  `\s` is Python's whitespace on `str` (`isPySpace`).

`recheck_reads_first_dump`: when a test reads one address at two step points, both checks are
judged against the first dump of that address, so a check can fail on a dump that was taken for
another check.

Before its `try`, `run_emulator_test_v2` writes the script's counts and, with `verbose`, a summary
line, with `str`; a number of more than `intMaxStrDigits` digits raises `ValueError` there, which
the `try` does not catch (`runEmulatorTestV2E`, `runEmulatorTestV2E_eq`).
-/

namespace M65832Tb

/-! ### Text -/

/-- Python's `{n:0wX}`: upper-case hexadecimal, zero-padded to `w` digits. -/
def hexUpper (w n : ℕ) : List Char :=
  let d := (Nat.toDigits 16 n).map Char.toUpper
  List.replicate (w - d.length) '0' ++ d

/-- Python's `\s` on a `str`, the characters `str.isspace` accepts. -/
def isPySpace (c : Char) : Bool :=
  let n := c.toNat
  (0x09 ≤ n && n ≤ 0x0D) || (0x1C ≤ n && n ≤ 0x20) || n == 0x85 || n == 0xA0 || n == 0x1680 ||
    (0x2000 ≤ n && n ≤ 0x200A) || n == 0x2028 || n == 0x2029 || n == 0x202F || n == 0x205F ||
    n == 0x3000

/-- `[0-9A-Fa-f]`. -/
def isHexChar (c : Char) : Bool :=
  ('0' ≤ c && c ≤ '9') || ('a' ≤ c && c ≤ 'f') || ('A' ≤ c && c ≤ 'F')

/-- The value of a hexadecimal digit, as `int(_, 16)` reads it. -/
def hexValue (c : Char) : ℕ :=
  if c ≤ '9' then c.toNat - '0'.toNat
  else if c ≤ 'F' then c.toNat - 'A'.toNat + 10
  else c.toNat - 'a'.toNat + 10

/-! ### The search -/

/-- The rest of `s` after the literal `pat`, matched with `re.IGNORECASE`; `pat` holds only
digits, upper-case letters and `:`. -/
def matchCI : List Char → List Char → Option (List Char)
  | [], s => some s
  | _ :: _, [] => none
  | p :: ps, c :: s => if c.toUpper = p then matchCI ps s else none

/-- `([0-9A-Fa-f]{2})`: the byte two hexadecimal digits spell. -/
def hexByte : List Char → Option ℕ
  | h :: l :: _ => if isHexChar h && isHexChar l then some (hexValue h * 16 + hexValue l) else none
  | _ => none

/-- `\s+([0-9A-Fa-f]{2})`: the greedy `\s+` gives back no character the class could take, so the
match exists exactly when the digits follow the longest run of spaces. -/
def spacesThenByte : List Char → Option ℕ
  | c :: s => if isPySpace c then hexByte (s.dropWhile isPySpace) else none
  | [] => none

/-- `re.match` of `{addr:08X}:\s+([0-9A-Fa-f]{2})` at the start of `s`: the captured byte. -/
def dumpMatch (pat s : List Char) : Option ℕ := (matchCI pat s).bind spacesThenByte

/-- `re.search`: the match at the leftmost position where there is one. -/
def reSearch (pat : List Char) : List Char → Option ℕ
  | [] => dumpMatch pat []
  | c :: s => (dumpMatch pat (c :: s)).or (reSearch pat s)

/-- The literal part of the pattern for `addr`. -/
def dumpPattern (addr : ℕ) : List Char := hexUpper 8 addr ++ [':']

/-! ### The verdicts -/

/-- `results`: the counts and the error messages. -/
structure Results where
  passed : ℕ
  failed : ℕ
  errors : List String
  deriving DecidableEq, Repr

/-- The loop body of the verification: one check judged against the output. -/
def verifyCheck (output : List Char) (r : Results) (c : CheckMem) : Results :=
  match reSearch (dumpPattern c.addr) output with
  | some actual =>
    if actual = c.expected then { r with passed := r.passed + 1 }
    else { r with failed := r.failed + 1,
                  errors := r.errors ++ [c.msg ++ ": expected $" ++ String.mk (hexUpper 2 c.expected) ++
                    ", got $" ++ String.mk (hexUpper 2 actual)] }
  | none =>
    { r with failed := r.failed + 1,
             errors := r.errors ++ [c.msg ++ ": could not read address $" ++ String.mk (hexUpper 4 c.addr)] }

/-- What running the emulator on the script gives back. -/
inductive EmulatorRun where
  /-- It ran to the end, with this standard output. -/
  | completed (stdout : String)
  /-- `subprocess.TimeoutExpired`. -/
  | timeout
  /-- Any other exception, with its `str(e)`. -/
  | raised (e : String)

/-- `run_emulator_test_v2`, with the emulator a function of the script it is fed. -/
def runEmulatorTestV2 (t : Test Poke CheckMem) (emulator : String → EmulatorRun) : Results :=
  if t.phases.isEmpty then ⟨0, 0, []⟩
  else
    match emulator (renderScript (buildScript t)) with
    | .completed out => t.allChecks.foldl (verifyCheck out.toList) ⟨0, 0, []⟩
    | .timeout => ⟨0, t.allChecks.length, ["Timeout"]⟩
    | .raised e => ⟨0, t.allChecks.length, [e]⟩

/-- The counts the verbose summary of `run_emulator_test_v2` prints before the emulator runs: the
phases' writes, which `run_phase` has replaced by their vector-normalised lists, the test's cycles,
and the number of phases. -/
def summaryCounts (t : Test Poke CheckMem) : List ℕ :=
  [(t.phases.map fun p => (vectorPokes p.pokes).length).sum, t.cycles, t.phases.length]

/-- `run_emulator_test_v2` with the `ValueError`s it lets through: `run_phase` writes the script's
counts with `str` before the `try`, and with `verbose` so does the summary.  Past them it gives
what `runEmulatorTestV2` gives. -/
def runEmulatorTestV2E (verbose : Bool) (t : Test Poke CheckMem) (emulator : String → EmulatorRun) :
    Except PyError Results :=
  if t.phases.isEmpty then .ok ⟨0, 0, []⟩
  else (runPhasesE t.phases).bind fun _ =>
    if verbose && !(summaryCounts t).all strFits then .error strLimitError
    else .ok (runEmulatorTestV2 t emulator)

/-- `run_emulator_test_v2` raises exactly when a count of its script, or with `verbose` one of its
summary, has too many digits. -/
theorem runEmulatorTestV2E_eq (verbose : Bool) (t : Test Poke CheckMem) (emulator : String → EmulatorRun) :
    runEmulatorTestV2E verbose t emulator =
      if t.phases.isEmpty || ((t.phases.flatMap phaseCmds).all Cmd.fits &&
          (!verbose || (summaryCounts t).all strFits)) then .ok (runEmulatorTestV2 t emulator)
      else .error strLimitError := by
  unfold runEmulatorTestV2E
  by_cases he : t.phases.isEmpty
  · simp [he, runEmulatorTestV2]
  · rw [runPhasesE_eq]
    by_cases hf : (t.phases.flatMap phaseCmds).all Cmd.fits <;>
      by_cases hs : (summaryCounts t).all strFits <;> cases verbose <;> simp [he, hf, hs] <;> rfl

/-! ### Every check is counted once -/

/-- One check adds one to `passed` or to `failed`, and an error message with each failure. -/
theorem verifyCheck_counts (out : List Char) (r : Results) (c : CheckMem) :
    (verifyCheck out r c).passed + (verifyCheck out r c).failed = r.passed + r.failed + 1 ∧
      (verifyCheck out r c).errors.length + r.failed = r.errors.length + (verifyCheck out r c).failed := by
  unfold verifyCheck
  split
  · split_ifs
    · exact ⟨Nat.add_right_comm _ _ _, rfl⟩
    · simp only [List.length_append, List.length_singleton]; omega
  · simp only [List.length_append, List.length_singleton]; omega

theorem foldl_verifyCheck_counts (out : List Char) (cs : List CheckMem) (r : Results) :
    (cs.foldl (verifyCheck out) r).passed + (cs.foldl (verifyCheck out) r).failed =
        r.passed + r.failed + cs.length ∧
      (cs.foldl (verifyCheck out) r).errors.length + r.failed =
        r.errors.length + (cs.foldl (verifyCheck out) r).failed := by
  induction cs generalizing r with
  | nil => exact ⟨rfl, rfl⟩
  | cons c cs ih =>
    obtain ⟨h1, h2⟩ := verifyCheck_counts out r c
    obtain ⟨h3, h4⟩ := ih (verifyCheck out r c)
    rw [List.foldl_cons, List.length_cons]
    omega

/-- Whatever the emulator does, each check is counted once, as passed or as failed. -/
theorem runEmulatorTestV2_total (t : Test Poke CheckMem) (emulator : String → EmulatorRun) :
    (runEmulatorTestV2 t emulator).passed + (runEmulatorTestV2 t emulator).failed =
      t.allChecks.length := by
  unfold runEmulatorTestV2
  split_ifs with ht
  · simp [Test.allChecks, List.isEmpty_iff.1 ht]
  · split
    · simpa using (foldl_verifyCheck_counts _ t.allChecks ⟨0, 0, []⟩).1
    all_goals simp

/-- **Every check is judged once.**  Whatever the emulator does, `passed + failed` is the number
of checks of the test; and when it runs to the end, each failed check has its own error message. -/
theorem runEmulatorTestV2_counts (t : Test Poke CheckMem) (emulator : String → EmulatorRun) :
    (runEmulatorTestV2 t emulator).passed + (runEmulatorTestV2 t emulator).failed =
        t.allChecks.length ∧
      ∀ out, emulator (renderScript (buildScript t)) = .completed out →
        (runEmulatorTestV2 t emulator).errors.length = (runEmulatorTestV2 t emulator).failed := by
  refine ⟨runEmulatorTestV2_total t emulator, fun out hout => ?_⟩
  unfold runEmulatorTestV2
  split_ifs
  · rfl
  · rw [hout]
    simpa using (foldl_verifyCheck_counts out.toList t.allChecks ⟨0, 0, []⟩).2

/-- The line `AAAAAAAA: VV` the emulator prints for a read of one byte. -/
def dumpLine (r : ℕ × ℕ) : List Char := hexUpper 8 r.1 ++ [':', ' '] ++ hexUpper 2 r.2 ++ ['\n']

/-- An emulator output that answers each read `(addr, value)` with its dump line. -/
def dumpText (reads : List (ℕ × ℕ)) : String := String.mk (reads.flatMap dumpLine)

/-! ### A check judged against another check's dump -/

/-- A test that reads `$0200` twice, at two step points, expecting it to change in between. -/
def recheckText : List Line :=
  [{ test := some (1, "recheck") }, { pokes := [(0x8000, 0xEA)] }, { waits := [30] },
   { checks := [⟨0x200, 0x01, "before"⟩] }, { waits := [30] },
   { checks := [⟨0x200, 0x02, "after"⟩] }]

/-- The script reads `$0200` twice, and the output answers the reads with `01` and then `02`, the
values both checks expect; yet the second check fails, judged against the first dump. -/
theorem recheck_reads_first_dump :
    ∃ T ∈ parseVhdlTestbench recheckText,
      (buildScript T).filter Cmd.isRead = [.m 0x200 1, .m 0x200 1] ∧
      T.allChecks = [⟨0x200, 0x01, "before"⟩, ⟨0x200, 0x02, "after"⟩] ∧
      runEmulatorTestV2 T (fun _ => .completed (dumpText [(0x200, 0x01), (0x200, 0x02)])) =
        ⟨1, 1, ["after: expected $02, got $01"]⟩ :=
  let p : Phase Poke CheckMem :=
    { pokes := [(0x8000, 0xEA)], checks := [(⟨0x200, 0x01, "before"⟩, 15), (⟨0x200, 0x02, "after"⟩, 30)],
      cycles := 160, cyclesSoFar := 30 }
  ⟨⟨1, "recheck", [p]⟩, by decide, by decide, by decide, by decide⟩

end M65832Tb
