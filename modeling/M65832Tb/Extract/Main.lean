import M65832Tb.Extract.Size
import M65832Tb.Extract.Memory

/-!
# The extractor's entry point

`main` checks that the emulator exists, parses the testbench, and then either lists the tests
(`--list`, `--vhdl-only`) or runs the tests `--test` selects, each through `run_emulator_test_v2`,
adding up the passed and failed checks.  What it prints is left out but for the numbers it writes
in decimal: `str` raises `ValueError` on one of more than `intMaxStrDigits` digits
(`printCounts`).  How it ends is `MainEnd`: an exit code, or the exception that escapes it.

On a text of fewer than `10 ^ (intMaxStrDigits - 2)` characters every count of tests, writes and
checks can be printed (`strFits_of_le`), and so can every test number once the parse has raised
nothing (`number_fits`).  What can still raise is the parse (`int()` on a number of too many
digits), a step count of a script or a total of cycles, and the verbose listing.

* `extractMain_exit`: when it runs the tests, `main` exits with `0` exactly when the parse raises
  nothing, `--test` selects some test (or is not given), and every selected test with checks has
  a script whose counts can be written and passes: the emulator runs its script to the end, and
  each check finds its expected byte in the output (`Test.Passes`).  It raises exactly the error
  of the parse, or the `ValueError` of a count when a selected test with checks has one of too
  many digits; otherwise it exits with `1`.
* `extractMain_listing`: the listing returns normally (status `0`) or raises `ValueError`.  It
  returns exactly when the parse raises nothing and, with `--verbose`, no line below a test
  header, itself no header, holds a check and every test's total of cycles can be written.  A
  check is four values, `(addr, expected, msg, cycles)`, and the verbose listing unpacks each into
  three names.
* `createTestBinary_image`: `create_test_binary` lays out the bytes from the lowest to the highest
  address the test writes, each the last one written there and `0` where none is, which is the
  memory the same writes leave from zeros (`replay`).  `bytearray` raises `OverflowError` on a
  size past a signed 64-bit index and `MemoryError` on one the allocator refuses; a datum above
  `255` raises `ValueError`, and a test that writes nothing gets `(None, 0, 0)`.
-/

namespace M65832Tb

/-! ### The memory image of a test -/

/-- `test.pokes`: the writes of every phase, in order. -/
def Test.pokes (t : Test Poke CheckMem) : List Poke := t.phases.flatMap Phase.pokes

/-- The `OverflowError` of `bytearray(size)` for a size past a signed 64-bit index. -/
def indexOverflowError : PyError :=
  .overflowError "cannot fit \x27int\x27 into an index-sized integer"

/-- The `ValueError` of storing a datum above `255` in a `bytearray`. -/
def byteRangeError : PyError := .valueError "byte must be in range(0, 256)"

/-- `bytearray(size)`: `size` zeros.  A size past a signed 64-bit index raises `OverflowError`, and
one the allocator refuses raises `MemoryError`; `alloc` says which sizes it grants. -/
def bytearrayZeros (alloc : ℕ → Bool) (size : ℕ) : Except PyError (List ℕ) :=
  if 2 ^ 63 ≤ size then .error indexOverflowError
  else if alloc size then .ok (List.replicate size 0) else .error .memoryError

/-- `memory[i] = data` on a `bytearray`: a datum above `255` raises `ValueError`. -/
def storeByte (memory : List ℕ) (i d : ℕ) : Except PyError (List ℕ) :=
  if d < 256 then .ok (memory.set i d) else .error byteRangeError

/-- `create_test_binary`: `(None, 0, 0)` for a test without writes; otherwise a zeroed
`bytearray` from `min(addrs)` to `max(addrs)`, each write stored at `addr - min_addr` in order. -/
def createTestBinary (alloc : ℕ → Bool) (t : Test Poke CheckMem) :
    Except PyError (Option (List ℕ) × ℕ × ℕ) :=
  match (t.pokes.map Prod.fst).min?, (t.pokes.map Prod.fst).max? with
  | some minAddr, some maxAddr => do
    let memory ← bytearrayZeros alloc (maxAddr - minAddr + 1)
    let memory ← t.pokes.foldlM (fun memory p => storeByte memory (p.1 - minAddr) p.2) memory
    pure (some memory, minAddr, maxAddr)
  | _, _ => .ok (none, 0, 0)

/-- The writes of a list of pokes as commands. -/
def pokeCmds (ps : List Poke) : List Cmd := ps.map fun p => .w p.1 p.2

/-- The `n` bytes of a memory from `lo` on. -/
def memSlice (M : Mem) (lo n : ℕ) : List ℕ := (List.range n).map fun j => M (lo + j)

/-- Storing a byte at `a - lo` is writing it at `a`. -/
theorem memSlice_set (M : Mem) {lo a : ℕ} (ha : lo ≤ a) (n d : ℕ) :
    (memSlice M lo n).set (a - lo) d = memSlice (Function.update M a d) lo n := by
  refine List.ext_getElem (by simp [memSlice]) fun j h1 h2 => ?_
  simp only [memSlice, List.getElem_set, List.getElem_map, List.getElem_range, Function.update_apply]
  by_cases hj : a - lo = j
  · rw [if_pos hj, if_pos (by omega)]
  · rw [if_neg hj, if_neg (by omega)]

/-- The store loop from a slice of memory: the slice after the writes, or the error of the first
datum above `255`. -/
theorem foldlM_storeByte (ps : List Poke) {lo : ℕ} (hlo : ∀ p ∈ ps, lo ≤ p.1) (M : Mem) (n : ℕ) :
    ps.foldlM (fun memory p => storeByte memory (p.1 - lo) p.2) (memSlice M lo n) =
      if ∀ p ∈ ps, p.2 < 256 then .ok (memSlice (replay M (pokeCmds ps)) lo n)
      else .error byteRangeError := by
  induction ps generalizing M with
  | nil => simp [pokeCmds]; rfl
  | cons p ps ih =>
    have hp := hlo p (List.mem_cons_self _ _)
    rw [List.foldlM_cons, storeByte]
    by_cases hd : p.2 < 256
    · rw [if_pos hd, memSlice_set M hp]
      refine (ih (fun q hq => hlo q (List.mem_cons_of_mem _ hq)) _).trans ?_
      simp only [List.forall_mem_cons, hd, true_and, pokeCmds, List.map_cons, replay_cons, Cmd.write]
    · rw [if_neg hd, if_neg (fun h => hd (h p (List.mem_cons_self _ _)))]
      rfl

/-- **The binary image of a test.**  Without writes, `(None, 0, 0)`.  Otherwise, with `lo` and
`hi` the lowest and highest addresses written: `OverflowError` if `hi - lo + 1` is past a signed
64-bit index, `MemoryError` if the allocator refuses it, `ValueError` if a datum is above `255`,
and else the bytes at `lo`, ..., `hi` of the memory the writes leave from zeros, with `lo` and
`hi`. -/
theorem createTestBinary_image (alloc : ℕ → Bool) (t : Test Poke CheckMem) :
    (t.pokes = [] ∧ createTestBinary alloc t = .ok (none, 0, 0)) ∨
      ∃ lo hi, (∃ p ∈ t.pokes, p.1 = lo) ∧ (∃ p ∈ t.pokes, p.1 = hi) ∧
        (∀ p ∈ t.pokes, lo ≤ p.1 ∧ p.1 ≤ hi) ∧
        createTestBinary alloc t =
          if 2 ^ 63 ≤ hi - lo + 1 then .error indexOverflowError
          else if alloc (hi - lo + 1) = false then .error .memoryError
          else if ∀ p ∈ t.pokes, p.2 < 256 then
            .ok (some (memSlice (replay (fun _ => 0) (pokeCmds t.pokes)) lo (hi - lo + 1)), lo, hi)
          else .error byteRangeError := by
  by_cases hps : t.pokes = []
  · exact .inl ⟨hps, by simp [createTestBinary, hps]⟩
  right
  have hne : t.pokes.map Prod.fst ≠ [] := by simpa using hps
  obtain ⟨lo, hlo⟩ := Option.ne_none_iff_exists'.1 (mt List.min?_eq_none_iff.1 hne)
  obtain ⟨hi, hhi⟩ := Option.ne_none_iff_exists'.1 (mt List.max?_eq_none_iff.1 hne)
  obtain ⟨hlo1, hlo2⟩ := List.min?_eq_some_iff'.1 hlo
  obtain ⟨hhi1, hhi2⟩ := List.max?_eq_some_iff'.1 hhi
  have hle : ∀ p ∈ t.pokes, lo ≤ p.1 := fun p hp => hlo2 _ (List.mem_map_of_mem _ hp)
  refine ⟨lo, hi, by simpa using hlo1, by simpa using hhi1,
    fun p hp => ⟨hle p hp, hhi2 _ (List.mem_map_of_mem _ hp)⟩, ?_⟩
  have h0 : List.replicate (hi - lo + 1) 0 = memSlice (fun _ => 0) lo (hi - lo + 1) := by
    simp [memSlice]
  simp only [createTestBinary, hlo, hhi, bytearrayZeros]
  by_cases hsz : 2 ^ 63 ≤ hi - lo + 1
  · rw [if_pos hsz, if_pos hsz]
    rfl
  rw [if_neg hsz, if_neg hsz]
  cases alloc (hi - lo + 1)
  · rfl
  · simp only [if_true, Bool.true_eq_false, if_false, ok_bind, h0, foldlM_storeByte _ hle]
    split_ifs <;> rfl

/-! ### The entry point -/

/-- The options `main` reads: `--vhdl-only`, the numbers of every `--test`, in order (`[]` where
argparse leaves `None`), `--verbose` and `--list`.  argparse reads each number with `int()`, which
takes at most `intMaxStrDigits` digits, so `str` can write each back. -/
structure Args where
  vhdlOnly : Bool := false
  test : List ℤ := []
  verbose : Bool := false
  list : Bool := false
  test_fits : ∀ n ∈ test, strFits n.natAbs = true := by decide

/-- How `main` ends. -/
inductive MainEnd where
  /-- `sys.exit(code)`; returning from `main` ends the process with `0`. -/
  | exit (code : ℕ)
  /-- An exception escapes `main`. -/
  | raised (e : PyError)
  deriving DecidableEq, Repr

/-- A `print` whose f-string writes the numbers `ns` in decimal: `str` raises on one of more than
`intMaxStrDigits` digits.  Numbers written in hexadecimal, and the text, raise nothing. -/
def printCounts (ns : List ℕ) : Except PyError Unit :=
  if ns.all strFits then .ok () else .error strLimitError

/-- The `ValueError` of unpacking a check, four values, into `addr, expected, msg`. -/
def unpackError : PyError := .valueError "too many values to unpack (expected 3)"

/-- The verbose listing of the phase at index `pi`: its counts, `... and n more pokes` past three
writes, then each check unpacked into three names, which raises on the first. -/
def listPhase (pi : ℕ) (p : Phase Poke CheckMem) : Except PyError Unit := do
  printCounts [pi + 1, p.pokes.length, p.checks.length, p.cycles]
  printCounts (if p.pokes.length > 3 then [p.pokes.length - 3] else [])
  if p.checks.isEmpty then pure () else throw unpackError

/-- One test of the listing: with `--verbose` its number, its counts and each phase; without, the
number of phases past one, and its number. -/
def listTest (verbose : Bool) (t : Test Poke CheckMem) : Except PyError Unit :=
  if verbose then do
    printCounts [t.number]
    printCounts [t.phases.length, t.pokes.length, t.allChecks.length, t.cycles]
    t.phases.enum.forM fun ip => listPhase ip.1 ip.2
  else printCounts ((if 1 < t.phases.length then [t.phases.length] else []) ++ [t.number])

/-- `[t for t in tests if t.number in args.test]` when `--test` is given. -/
def selectTests (sel : List ℤ) (tests : List (Test Poke CheckMem)) : List (Test Poke CheckMem) :=
  if sel.isEmpty then tests else tests.filter fun t => decide ((t.number : ℤ) ∈ sel)

/-- The totals one turn of the run loop adds to `(total_passed, total_failed)`: nothing for a test
without checks, which is skipped. -/
def runTest (emulator : String → EmulatorRun) (totals : ℕ × ℕ) (t : Test Poke CheckMem) : ℕ × ℕ :=
  if t.allChecks.isEmpty then totals
  else (totals.1 + (runEmulatorTestV2 t emulator).passed,
    totals.2 + (runEmulatorTestV2 t emulator).failed)

/-- One turn of the run loop: the test's number is printed, a test without checks is skipped, and
a test with checks is run, its counts added to the totals and printed. -/
def runTestE (verbose : Bool) (emulator : String → EmulatorRun) (totals : ℕ × ℕ)
    (t : Test Poke CheckMem) : Except PyError (ℕ × ℕ) := do
  printCounts [t.number]
  if t.allChecks.isEmpty then pure totals
  else
    let results ← runEmulatorTestV2E verbose t emulator
    let totals := (totals.1 + results.passed, totals.2 + results.failed)
    printCounts (if results.failed = 0 then [results.passed] else [results.passed, results.failed])
    pure totals

/-- `main` past the check for the emulator binary: the exit code it ends with, or the exception
that escapes it.  The listing returns from `main`, which ends the process with `0`. -/
def mainBody (content : List Char) (args : Args) (emulator : String → EmulatorRun) :
    Except PyError ℕ := do
  let tests ← parseVhdlTestbenchE content
  printCounts [tests.length]
  if args.list || args.vhdlOnly then
    tests.forM (listTest args.verbose)
    pure 0
  else
    let tests := selectTests args.test tests
    if !args.test.isEmpty && tests.isEmpty then
      printCounts (args.test.map Int.natAbs)
      pure 1
    else
      let totals ← tests.foldlM (runTestE args.verbose emulator) (0, 0)
      printCounts [totals.1, totals.2]
      pure (if totals.2 = 0 then 0 else 1)

/-- `main`, given whether the emulator binary exists, the text of the testbench, the options and
the emulator as a function of the script it is fed. -/
def extractMain (emulatorFound : Bool) (content : List Char) (args : Args)
    (emulator : String → EmulatorRun) : MainEnd :=
  if !emulatorFound then .exit 1
  else
    match mainBody content args emulator with
    | .ok code => .exit code
    | .error e => .raised e

/-! ### Loops and prints that raise -/

theorem forM_eq_ok {α : Type} (f : α → Except PyError Unit) (as : List α) :
    as.forM f = .ok () ↔ ∀ a ∈ as, f a = .ok () := by
  induction as with
  | nil => simp only [List.forM, List.not_mem_nil, false_implies, implies_true, iff_true]; rfl
  | cons a as ih =>
    simp only [List.forM, List.forall_mem_cons, ← ih]
    cases f a <;> simp

theorem forM_error {α : Type} {f : α → Except PyError Unit} {as : List α} {e : PyError}
    (h : as.forM f = .error e) : ∃ a ∈ as, f a = .error e := by
  induction as with
  | nil => cases h
  | cons a as ih =>
    simp only [List.forM] at h
    rcases bind_eq_error h with h1 | ⟨_, -, h2⟩
    · exact ⟨a, List.mem_cons_self _ _, h1⟩
    · obtain ⟨b, hb, hfb⟩ := ih h2
      exact ⟨b, List.mem_cons_of_mem _ hb, hfb⟩

theorem printCounts_ok {ns : List ℕ} (h : ∀ n ∈ ns, strFits n = true) : printCounts ns = .ok () :=
  if_pos (List.all_eq_true.2 h)

theorem printCounts_error {ns : List ℕ} {e : PyError} (h : printCounts ns = .error e) :
    e = strLimitError := by
  unfold printCounts at h
  split at h <;> cases h
  rfl

/-! ### The exit status -/

/-- A test passes: the emulator runs its script to the end, and each of its checks finds its
expected byte in the output. -/
def Test.Passes (emulator : String → EmulatorRun) (t : Test Poke CheckMem) : Prop :=
  ∀ c ∈ t.allChecks, ∃ out, emulator (renderScript (buildScript t)) = .completed out ∧
    reSearch (dumpPattern c.addr) out.toList = some c.expected

/-- Whether running a test writes only numbers `str` can write: the step counts of its script, and
with `--verbose` its total of cycles. -/
def Test.countsFit (verbose : Bool) (t : Test Poke CheckMem) : Bool :=
  (buildScript t).all Cmd.fits && (!verbose || strFits t.cycles)

/-- A check fails unless its address reads its expected byte. -/
theorem verifyCheck_failed (out : List Char) (r : Results) (c : CheckMem) :
    (verifyCheck out r c).failed =
      r.failed + if reSearch (dumpPattern c.addr) out = some c.expected then 0 else 1 := by
  unfold verifyCheck
  split
  · rename_i v hv
    by_cases he : v = c.expected
    · subst he; simp [hv]
    · simp [he, hv]
  · rename_i hv
    simp [hv]

theorem foldl_verifyCheck_failed (out : List Char) (cs : List CheckMem) (r : Results) :
    (cs.foldl (verifyCheck out) r).failed =
      r.failed + cs.countP fun c => reSearch (dumpPattern c.addr) out ≠ some c.expected := by
  induction cs generalizing r with
  | nil => rfl
  | cons c cs ih =>
    rw [List.foldl_cons, ih, verifyCheck_failed, List.countP_cons]
    by_cases h : reSearch (dumpPattern c.addr) out = some c.expected
    · simp [h]
    · simp [h]; omega

/-- A test with checks fails none of them exactly when it passes. -/
theorem runEmulatorTestV2_failed {t : Test Poke CheckMem} (ht : t.allChecks ≠ [])
    (emulator : String → EmulatorRun) :
    (runEmulatorTestV2 t emulator).failed = 0 ↔ t.Passes emulator := by
  have hp : t.phases.isEmpty = false := by
    cases h : t.phases with
    | nil => exact absurd (by simp [Test.allChecks, h]) ht
    | cons _ _ => rfl
  obtain ⟨c0, hc0⟩ := List.exists_mem_of_ne_nil _ ht
  unfold runEmulatorTestV2 Test.Passes
  rw [hp, if_neg Bool.false_ne_true]
  split
  · rename_i out he
    rw [foldl_verifyCheck_failed, Nat.zero_add, List.countP_eq_zero]
    simp [he]
  all_goals
    rename_i he
    simp only [List.length_eq_zero, ht, false_iff, not_forall]
    exact ⟨c0, hc0, fun ⟨_, h, _⟩ => by rw [he] at h; cases h⟩

/-- The run loop fails no check exactly when every test with checks fails none. -/
theorem foldl_runTest_failed (emulator : String → EmulatorRun) (tests : List (Test Poke CheckMem))
    (totals : ℕ × ℕ) :
    (tests.foldl (runTest emulator) totals).2 = 0 ↔
      totals.2 = 0 ∧ ∀ t ∈ tests, t.allChecks ≠ [] → (runEmulatorTestV2 t emulator).failed = 0 := by
  induction tests generalizing totals with
  | nil => simp
  | cons t ts ih =>
    rw [List.foldl_cons, ih, List.forall_mem_cons]
    unfold runTest
    by_cases ht : t.allChecks = []
    · simp [ht]
    · simp only [List.isEmpty_iff, ht, if_false, ne_eq, not_false_eq_true, forall_const,
        Nat.add_eq_zero_iff]
      tauto

/-- The run loop adds at most one to the totals per check. -/
theorem foldl_runTest_le (emulator : String → EmulatorRun) (tests : List (Test Poke CheckMem))
    (totals : ℕ × ℕ) :
    (tests.foldl (runTest emulator) totals).1 + (tests.foldl (runTest emulator) totals).2 ≤
      totals.1 + totals.2 + (tests.map fun t => t.allChecks.length).sum := by
  induction tests generalizing totals with
  | nil => simp
  | cons t ts ih =>
    refine (ih _).trans ?_
    have := runEmulatorTestV2_total t emulator
    unfold runTest
    split <;> simp only [List.map_cons, List.sum_cons] <;> omega

theorem mem_selectTests {sel : List ℤ} {tests : List (Test Poke CheckMem)} {t : Test Poke CheckMem} :
    t ∈ selectTests sel tests ↔ t ∈ tests ∧ (sel = [] ∨ (t.number : ℤ) ∈ sel) := by
  unfold selectTests
  by_cases h : sel = [] <;> simp [h]

theorem selectTests_sublist (sel : List ℤ) (tests : List (Test Poke CheckMem)) :
    (selectTests sel tests).Sublist tests := by
  unfold selectTests
  split
  · exact List.Sublist.refl _
  · exact List.filter_sublist _

/-- `--test` selects nothing exactly when it is given and names no test. -/
theorem selectTests_none (sel : List ℤ) (tests : List (Test Poke CheckMem)) :
    (!sel.isEmpty && (selectTests sel tests).isEmpty) = true ↔
      ¬ (sel = [] ∨ ∃ t ∈ tests, (t.number : ℤ) ∈ sel) := by
  unfold selectTests
  by_cases h : sel = []
  · simp [h]
  · simp [h, List.filter_eq_nil_iff]

/-- The run over the selected tests fails no check exactly when every selected test passes. -/
theorem runTests_pass (emulator : String → EmulatorRun) (sel : List ℤ)
    (tests : List (Test Poke CheckMem)) :
    ((selectTests sel tests).foldl (runTest emulator) (0, 0)).2 = 0 ↔
      ∀ t ∈ tests, (sel = [] ∨ (t.number : ℤ) ∈ sel) → t.Passes emulator := by
  rw [foldl_runTest_failed]
  refine ⟨fun ⟨_, h⟩ t ht hs => ?_, fun h => ⟨rfl, fun t ht hc => ?_⟩⟩
  · by_cases hc : t.allChecks = []
    · exact fun c hcm => by simp [hc] at hcm
    · exact (runEmulatorTestV2_failed hc _).1 (h t (mem_selectTests.2 ⟨ht, hs⟩) hc)
  · obtain ⟨ht, hs⟩ := mem_selectTests.1 ht
    exact (runEmulatorTestV2_failed hc _).2 (h t ht hs)

/-- The selected tests with checks all have counts `str` can write. -/
theorem all_selectTests_countsFit (sel : List ℤ) (tests : List (Test Poke CheckMem)) (verbose : Bool) :
    ((selectTests sel tests).all fun t => t.allChecks.isEmpty || t.countsFit verbose) = true ↔
      ∀ t ∈ tests, (sel = [] ∨ (t.number : ℤ) ∈ sel) → t.allChecks ≠ [] →
        t.countsFit verbose = true := by
  simp only [List.all_eq_true, mem_selectTests, Bool.or_eq_true, List.isEmpty_iff, and_imp]
  exact forall_congr' fun t => forall_congr' fun _ => forall_congr' fun _ => or_iff_not_imp_left

/-- The script's counts are those of its phases: the default vectors and `q` write none. -/
theorem buildScript_all_fits (t : Test Poke CheckMem) :
    (buildScript t).all Cmd.fits = (t.phases.flatMap phaseCmds).all Cmd.fits := by
  have hv : (defaultVectorCmds t.pokeAddrs).all Cmd.fits = true := List.all_eq_true.2 fun c hc => by
    obtain ⟨v, -, hv⟩ := List.mem_filterMap.1 hc
    split at hv <;> cases hv
    rfl
  rw [buildScript_eq, List.all_append, List.all_append, hv]
  simp [Cmd.fits]

section run

variable {content : List Char} (hlen : content.length < 10 ^ (intMaxStrDigits - 2))

include hlen

/-- The totals the run loop prints can be written. -/
theorem runTotals_fit (emulator : String → EmulatorRun) (sel : List ℤ) :
    ∀ n ∈ [((selectTests sel (parseVhdlTestbenchText content)).foldl (runTest emulator) (0, 0)).1,
      ((selectTests sel (parseVhdlTestbenchText content)).foldl (runTest emulator) (0, 0)).2],
      strFits n = true := by
  have hle := foldl_runTest_le emulator (selectTests sel (parseVhdlTestbenchText content)) (0, 0)
  have hsel : ((selectTests sel (parseVhdlTestbenchText content)).map
      fun t => t.allChecks.length).sum ≤ 4 * content.length :=
    calc _ ≤ ((parseVhdlTestbenchText content).map fun t => t.allChecks.length).sum :=
          ((selectTests_sublist _ _).map _).sum_le_sum fun _ _ => Nat.zero_le _
      _ ≤ ((parseVhdlTestbenchText content).map Test.size).sum :=
          List.sum_le_sum fun t _ => Test.allChecks_length_le t
      _ ≤ 4 * content.length := (parseText_size content).1
  simp only [List.mem_cons, List.not_mem_nil, or_false, forall_eq_or_imp, forall_eq]
  exact ⟨strFits_of_le hlen (by omega), strFits_of_le hlen (by omega)⟩

/-- The count of tests can be written. -/
theorem printCounts_tests : printCounts [(parseVhdlTestbenchText content).length] = .ok () := by
  have := (parseText_size content).2
  refine printCounts_ok fun n hn => strFits_of_le hlen ?_
  rw [List.mem_singleton.1 hn]
  omega

variable (hc : checkInts false (content.splitOn '\n') = .ok ())
include hc

/-- One turn of the run loop on a test of a text that parses: it raises exactly when the test has
checks and a count of too many digits, and otherwise adds what `runTest` adds. -/
theorem runTestE_eq {t : Test Poke CheckMem} (ht : t ∈ parseVhdlTestbenchText content)
    (verbose : Bool) (emulator : String → EmulatorRun) (totals : ℕ × ℕ) :
    runTestE verbose emulator totals t =
      if t.allChecks.isEmpty || t.countsFit verbose then .ok (runTest emulator totals t)
      else .error strLimitError := by
  have hn : printCounts [t.number] = .ok () := printCounts_ok (by simp [number_fits hc ht])
  simp only [runTestE, runTest, hn, ok_bind]
  by_cases he : t.allChecks.isEmpty
  · simp only [he, if_true, Bool.true_or]
    rfl
  have hp : t.phases.isEmpty = false := by
    cases h : t.phases with
    | nil => exact absurd (by simp [Test.allChecks, h]) he
    | cons _ _ => rfl
  rw [if_neg he, if_neg he, Bool.eq_false_iff.2 he, Bool.false_or, runEmulatorTestV2E_eq, hp,
    Bool.false_or, summaryCounts_fit hlen ht, Test.countsFit, buildScript_all_fits]
  split_ifs
  · have htot := runEmulatorTestV2_total t emulator
    have hsize := Test.allChecks_length_le t
    have hfit : ∀ n ≤ t.allChecks.length, strFits n = true := fun n hn =>
      size_fits hlen ht (hn.trans hsize)
    have h1 := hfit (runEmulatorTestV2 t emulator).passed (by omega)
    have h2 := hfit (runEmulatorTestV2 t emulator).failed (by omega)
    rw [ok_bind, printCounts_ok (by split <;> simp [h1, h2])]
    rfl
  · rfl

/-- `main` running the tests of a text that parses: `1` when `--test` names no test, the
`ValueError` of a count when a selected test with checks has one of too many digits, and
otherwise `0` exactly when the run fails no check. -/
theorem mainBody_run {args : Args} (emulator : String → EmulatorRun)
    (hl : (args.list || args.vhdlOnly) = false) :
    mainBody content args emulator =
      if (!args.test.isEmpty && (selectTests args.test (parseVhdlTestbenchText content)).isEmpty)
        then .ok 1
      else if (selectTests args.test (parseVhdlTestbenchText content)).all
          (fun t => t.allChecks.isEmpty || t.countsFit args.verbose) then
        .ok (if ((selectTests args.test (parseVhdlTestbenchText content)).foldl
          (runTest emulator) (0, 0)).2 = 0 then 0 else 1)
      else .error strLimitError := by
  simp only [mainBody, parseVhdlTestbenchE_ok hc, ok_bind, printCounts_tests hlen, hl,
    Bool.false_eq_true, if_false]
  by_cases hsel : (!args.test.isEmpty &&
      (selectTests args.test (parseVhdlTestbenchText content)).isEmpty) = true
  · rw [if_pos hsel, if_pos hsel, printCounts_ok fun n hn => by
      obtain ⟨m, hm, rfl⟩ := List.mem_map.1 hn
      exact args.test_fits m hm]
    rfl
  rw [if_neg hsel, if_neg hsel, foldlM_guard (fun t => t.allChecks.isEmpty || t.countsFit args.verbose)
    (runTest emulator) strLimitError fun t ht totals => runTestE_eq hlen hc (mem_selectTests.1 ht).1 _ _ _]
  by_cases hall : (selectTests args.test (parseVhdlTestbenchText content)).all
      (fun t => t.allChecks.isEmpty || t.countsFit args.verbose) = true
  · rw [if_pos hall, if_pos hall, ok_bind, printCounts_ok (runTotals_fit hlen emulator args.test)]
    rfl
  · rw [if_neg hall, if_neg hall]
    rfl

end run

/-- **The exit status.**  When it runs the tests of a text of fewer than
`10 ^ (intMaxStrDigits - 2)` characters, `main` exits with `0` exactly when the parse raises
nothing, `--test` is not given or names some test, and every selected test with checks has counts
`str` can write and passes.  It raises exactly the error of the parse, or the `ValueError` of a
count when a selected test with checks has one of too many digits.  Else it exits with `1`. -/
theorem extractMain_exit (content : List Char) (args : Args) (emulator : String → EmulatorRun)
    (hl : args.list = false) (hv : args.vhdlOnly = false)
    (hlen : content.length < 10 ^ (intMaxStrDigits - 2)) :
    (extractMain true content args emulator = .exit 0 ↔
        parseVhdlTestbenchE content = .ok (parseVhdlTestbenchText content) ∧
        (args.test = [] ∨ ∃ t ∈ parseVhdlTestbenchText content, (t.number : ℤ) ∈ args.test) ∧
        ∀ t ∈ parseVhdlTestbenchText content, (args.test = [] ∨ (t.number : ℤ) ∈ args.test) →
          t.allChecks ≠ [] → t.countsFit args.verbose = true ∧ t.Passes emulator) ∧
      (∀ e, extractMain true content args emulator = .raised e ↔
        parseVhdlTestbenchE content = .error e ∨
          parseVhdlTestbenchE content = .ok (parseVhdlTestbenchText content) ∧ e = strLimitError ∧
          ∃ t ∈ parseVhdlTestbenchText content, (args.test = [] ∨ (t.number : ℤ) ∈ args.test) ∧
            t.allChecks ≠ [] ∧ t.countsFit args.verbose = false) ∧
      ∀ code, extractMain true content args emulator = .exit code → code = 0 ∨ code = 1 := by
  have hl' : (args.list || args.vhdlOnly) = false := by simp [hl, hv]
  cases hc : checkInts false (content.splitOn '\n') with
  | error e0 =>
    have hp := parseVhdlTestbenchE_error hc
    have hm : extractMain true content args emulator = .raised e0 := by
      simp only [extractMain, mainBody, hp, error_bind, Bool.not_true, Bool.false_eq_true, if_false]
    simp [hm, hp]
  | ok u =>
    cases u
    have hp := parseVhdlTestbenchE_ok hc
    have hnone := selectTests_none args.test (parseVhdlTestbenchText content)
    have hrun := runTests_pass emulator args.test (parseVhdlTestbenchText content)
    have hall := all_selectTests_countsFit args.test (parseVhdlTestbenchText content) args.verbose
    simp only [extractMain, Bool.not_true, Bool.false_eq_true, if_false, hp, true_and,
      mainBody_run hlen hc emulator hl']
    by_cases h1 : (!args.test.isEmpty &&
        (selectTests args.test (parseVhdlTestbenchText content)).isEmpty) = true
    · -- `--test` names no test: `exit 1`
      have hs := hnone.1 h1
      simp only [if_pos h1, MainEnd.exit.injEq, reduceCtorEq, false_or, false_iff, not_and,
        Nat.one_ne_zero]
      refine ⟨fun h => absurd h hs, fun e _ ⟨t, ht, hsel, _⟩ => ?_, fun code h => .inr h.symm⟩
      exact hs (hsel.imp_right fun h => ⟨t, ht, h⟩)
    have hs : args.test = [] ∨ ∃ t ∈ parseVhdlTestbenchText content, (t.number : ℤ) ∈ args.test :=
      not_not.1 (mt hnone.2 h1)
    by_cases h2 : (selectTests args.test (parseVhdlTestbenchText content)).all
        (fun t => t.allChecks.isEmpty || t.countsFit args.verbose) = true
    · -- every count can be written: the run decides
      have hfit := hall.1 h2
      simp only [if_neg h1, if_pos h2, MainEnd.exit.injEq, reduceCtorEq, false_or, false_iff,
        not_and, hs, true_and]
      refine ⟨?_, fun e _ ⟨t, ht, hsel, hch, hf⟩ => (by rw [hfit t ht hsel hch] at hf; cases hf),
        fun code h => by rw [← h]; split <;> simp⟩
      simp only [ite_eq_left_iff, Nat.one_ne_zero, imp_false, not_not, hrun]
      exact ⟨fun h t ht hsel hch => ⟨hfit t ht hsel hch, h t ht hsel⟩, fun h t ht hsel =>
        if hch : t.allChecks = [] then fun c hc => by simp [hch] at hc else (h t ht hsel hch).2⟩
    · -- a selected test with checks has a count of too many digits
      have hbad : ∃ t ∈ parseVhdlTestbenchText content, (args.test = [] ∨ (t.number : ℤ) ∈ args.test) ∧
          t.allChecks ≠ [] ∧ t.countsFit args.verbose = false := by
        simpa only [not_forall, exists_prop, Bool.not_eq_true] using mt hall.2 h2
      simp only [if_neg h1, if_neg h2, MainEnd.raised.injEq, reduceCtorEq, false_or, false_iff,
        not_and, hs, true_and, hbad, and_true, IsEmpty.forall_iff, implies_true]
      refine ⟨fun h => ?_, fun e => eq_comm⟩
      obtain ⟨t, ht, hsel, hch, hf⟩ := hbad
      rw [(h t ht hsel hch).1] at hf
      cases hf

/-- A testbench of one test with one check of `$0200`. -/
def checkText : List Char := "-- TEST 1: a\ncheck_mem(16#0200#, x\"01\", \"m\");".toList

theorem checkText_length : checkText.length < 10 ^ (intMaxStrDigits - 2) :=
  (show checkText.length < 10 ^ 2 by decide).trans_le (Nat.pow_le_pow_right (by norm_num) (by decide))

set_option exponentiation.threshold 5000 in
/-- The emulator's dump confirms the one check of `checkText`, and `main` exits with `0`. -/
theorem extractMain_exit_pass :
    extractMain true checkText {} (fun _ => .completed "00000200: 01\n") = .exit 0 := by
  have hfit : ∀ t ∈ parseVhdlTestbenchText checkText, t.countsFit false = true := by decide
  have hdump : ∀ t ∈ parseVhdlTestbenchText checkText, ∀ c ∈ t.allChecks,
      reSearch (dumpPattern c.addr) "00000200: 01\n".toList = some c.expected := by decide
  exact (extractMain_exit checkText {} _ rfl rfl checkText_length).1.2
    ⟨rfl, .inl rfl, fun t ht _ _ => ⟨hfit t ht, fun c hc => ⟨_, rfl, hdump t ht c hc⟩⟩⟩

/-! ### The listing -/

section blocks

variable {α H : Type} (hdr : α → Option H)

/-- The lines before the first header and those of the blocks are the lines that are no header. -/
theorem mem_splitBlocks {a : α} (as : List α) :
    (a ∈ (splitBlocks hdr as).1 ∨ ∃ b ∈ (splitBlocks hdr as).2, a ∈ b.2) ↔
      a ∈ as ∧ hdr a = none := by
  induction as with
  | nil => simp [splitBlocks]
  | cons c cs ih =>
    cases hc : hdr c with
    | none =>
      simp only [splitBlocks, hc, List.mem_cons, or_assoc, ih.symm]
      constructor
      · rintro (rfl | h)
        · exact ⟨.inl rfl, hc⟩
        · exact ⟨.inr (ih.1 h).1, (ih.1 h).2⟩
      · rintro ⟨rfl | h, ha⟩
        · exact .inl rfl
        · exact .inr (ih.2 ⟨h, ha⟩)
    | some h =>
      simp only [splitBlocks, hc, List.not_mem_nil, false_or, List.mem_cons, exists_eq_or_imp, ih]
      constructor
      · rintro ⟨h1, h2⟩
        exact ⟨.inr h1, h2⟩
      · rintro ⟨rfl | h1, h2⟩
        · rw [hc] at h2; cases h2
        · exact ⟨h1, h2⟩

/-- Some line of some block has a property exactly when a line that is no header and has it
stands below a header. -/
theorem exists_mem_blocks (P : α → Prop) (as : List α) :
    (∃ b ∈ (splitBlocks hdr as).2, ∃ a ∈ b.2, P a) ↔
      ∃ xs x ys, as = xs ++ x :: ys ∧ (hdr x).isSome ∧ ∃ a ∈ ys, hdr a = none ∧ P a := by
  induction as with
  | nil => simp [splitBlocks]
  | cons c cs ih =>
    simp only [List.cons_eq_append_iff]
    cases hc : hdr c with
    | none =>
      simp only [splitBlocks, hc]
      rw [ih]
      constructor
      · rintro ⟨xs, x, ys, rfl, hx, hys⟩
        exact ⟨c :: xs, x, ys, .inr ⟨xs, rfl, rfl⟩, hx, hys⟩
      · rintro ⟨xs, x, ys, ⟨rfl, h⟩ | ⟨xs', rfl, h⟩, hx, hys⟩
        · obtain ⟨rfl, rfl⟩ := List.cons_eq_cons.1 h
          rw [hc] at hx; cases hx
        · exact ⟨xs', x, ys, h, hx, hys⟩
    | some h =>
      simp only [splitBlocks, hc, List.mem_cons, exists_eq_or_imp]
      constructor
      · rintro (⟨a, ha, hp⟩ | hb)
        · obtain ⟨ha1, ha2⟩ := (mem_splitBlocks hdr cs).1 (.inl ha)
          exact ⟨[], c, cs, .inl ⟨rfl, rfl⟩, by simp [hc], a, ha1, ha2, hp⟩
        · obtain ⟨xs, x, ys, rfl, hx, hys⟩ := ih.1 hb
          exact ⟨c :: xs, x, ys, .inr ⟨xs, rfl, rfl⟩, hx, hys⟩
      · rintro ⟨xs, x, ys, ⟨rfl, h'⟩ | ⟨xs', rfl, h'⟩, hx, a, ha, hn, hp⟩
        · obtain ⟨rfl, rfl⟩ := List.cons_eq_cons.1 h'
          rcases (mem_splitBlocks hdr ys).2 ⟨ha, hn⟩ with h3 | ⟨b, hb, hab⟩
          · exact .inl ⟨a, h3, hp⟩
          · exact .inr ⟨b, hb, a, hab, hp⟩
        · exact .inr (ih.2 ⟨xs', x, ys, h', hx, a, ha, hn, hp⟩)

end blocks

theorem Test.allChecks_map (t : Test (ℕ × Poke) (ℕ × CheckMem)) :
    (t.map Prod.snd Prod.snd).allChecks =
      (t.phases.flatMap fun p => p.checks.map Prod.fst).map Prod.snd := by
  simp only [Test.allChecks, Test.map, Phase.map, List.map_flatMap, List.flatMap_map, List.map_map]
  rfl

/-- Some test has a check exactly when some line of some block has one. -/
theorem exists_test_allChecks (lines : List Line) :
    (∃ t ∈ parseVhdlTestbench lines, t.allChecks ≠ []) ↔
      ∃ b ∈ (splitBlocks Line.test lines).2, ∃ l ∈ b.2, l.checks ≠ [] := by
  have hs := @splitBlocks_map _ _ _ Prod.snd Line.test (fun il => il.2.test) (fun _ => rfl) lines.enum
  rw [List.enum_map_snd] at hs
  rw [← parseTagged_erase, parseTagged_eq_blocks, hs]
  simp only [List.map_map, List.mem_map, exists_exists_and_eq_and, Function.comp, Test.allChecks_map]
  refine exists_congr fun b => and_congr_right fun hb => ?_
  have hacc := (parseBlock_accounts b.1 b.2 (numberedBlocks_sorted lines b hb)).1
  rw [hacc]
  simp [blockChecks, List.flatMap_eq_nil_iff]

/-- Some test of a text has a check exactly when a line below a test header, itself no header,
holds one. -/
theorem exists_checks_text (content : List Char) :
    (∃ t ∈ parseVhdlTestbenchText content, t.allChecks ≠ []) ↔
      ∃ pre hd post, content.splitOn '\n' = pre ++ hd :: post ∧ (Line.ofText hd).test.isSome ∧
        ∃ l ∈ post, (Line.ofText l).test = none ∧ (Line.ofText l).checks ≠ [] := by
  rw [parseVhdlTestbenchText, exists_test_allChecks,
    @splitBlocks_map _ _ _ Line.ofText Line.test (fun l => (Line.ofText l).test) (fun _ => rfl),
    ← exists_mem_blocks]
  constructor
  · rintro ⟨_, hb, _, hl, hc⟩
    obtain ⟨b, hb', rfl⟩ := List.mem_map.1 hb
    obtain ⟨l, hl', rfl⟩ := List.mem_map.1 hl
    exact ⟨b, hb', l, hl', hc⟩
  · rintro ⟨b, hb, l, hl, hc⟩
    exact ⟨_, List.mem_map_of_mem _ hb, _, List.mem_map_of_mem _ hl, hc⟩

theorem strFits_mono {m n : ℕ} (h : m ≤ n) (hn : strFits n = true) : strFits m = true := by
  simp only [strFits, decide_eq_true_eq] at hn ⊢
  omega

/-- The listing of a phase whose writes and checks can be counted: it raises unless its cycles
can be written and it holds no check. -/
theorem listPhase_eq_ok {pi : ℕ} {p : Phase Poke CheckMem}
    (h : ∀ n ∈ [pi + 1, p.pokes.length, p.checks.length, p.pokes.length - 3], strFits n = true) :
    listPhase pi p = .ok () ↔ strFits p.cycles = true ∧ p.checks = [] := by
  simp only [List.mem_cons, List.not_mem_nil, or_false, forall_eq_or_imp, forall_eq] at h
  obtain ⟨h1, h2, h3, h4⟩ := h
  have h5 : printCounts (if p.pokes.length > 3 then [p.pokes.length - 3] else []) = .ok () :=
    printCounts_ok (by split <;> simp [h4])
  unfold listPhase
  cases hc : strFits p.cycles
  · rw [show printCounts [pi + 1, p.pokes.length, p.checks.length, p.cycles] = .error strLimitError by
      simp [printCounts, hc]]
    simp
  · rw [printCounts_ok (by simp [h1, h2, h3, hc]), ok_bind, h5, ok_bind]
    by_cases he : p.checks = [] <;> simp [he]
    rfl

theorem listPhase_error {pi : ℕ} {p : Phase Poke CheckMem} {e : PyError}
    (h : listPhase pi p = .error e) : e = strLimitError ∨ e = unpackError := by
  unfold listPhase at h
  rcases bind_eq_error h with h1 | ⟨_, -, h2⟩
  · exact .inl (printCounts_error h1)
  rcases bind_eq_error h2 with h3 | ⟨_, -, h4⟩
  · exact .inl (printCounts_error h3)
  · split at h4 <;> cases h4
    exact .inr rfl

theorem listTest_error {verbose : Bool} {t : Test Poke CheckMem} {e : PyError}
    (h : listTest verbose t = .error e) : e = strLimitError ∨ e = unpackError := by
  unfold listTest at h
  split at h
  · rcases bind_eq_error h with h1 | ⟨_, -, h2⟩
    · exact .inl (printCounts_error h1)
    rcases bind_eq_error h2 with h3 | ⟨_, -, h4⟩
    · exact .inl (printCounts_error h3)
    · obtain ⟨_, -, h5⟩ := forM_error h4
      exact listPhase_error h5
  · exact .inl (printCounts_error h)

section listing

variable {content : List Char} (hlen : content.length < 10 ^ (intMaxStrDigits - 2))
  (hc : checkInts false (content.splitOn '\n') = .ok ())
include hlen hc

/-- The listing of a test of a text that parses: without `--verbose` it raises nothing; with it,
it raises unless the test has no check and its total of cycles can be written. -/
theorem listTest_eq_ok {t : Test Poke CheckMem} (ht : t ∈ parseVhdlTestbenchText content)
    (verbose : Bool) :
    listTest verbose t = .ok () ↔ (verbose = true → t.allChecks = [] ∧ strFits t.cycles = true) := by
  have hfit : ∀ n ≤ t.size, strFits n = true := fun n hn => size_fits hlen ht hn
  have hph := phases_length_le ht
  have hn := number_fits hc ht
  cases verbose
  · simp only [listTest, Bool.false_eq_true, if_false, false_implies, iff_true]
    exact printCounts_ok (by split <;> simp [hn, hfit _ hph])
  have hpk : t.pokes.length ≤ t.size := Nat.le_add_right _ _
  have hck := Test.allChecks_length_le t
  simp only [listTest, if_true, true_implies]
  rw [printCounts_ok (by simp [hn]), ok_bind]
  cases hcy : strFits t.cycles
  · rw [show printCounts [t.phases.length, t.pokes.length, t.allChecks.length, t.cycles] =
        .error strLimitError by simp [printCounts, hcy]]
    simp
  rw [printCounts_ok (by simp [hfit _ hph, hfit _ hpk, hfit _ hck, hcy]), ok_bind, forM_eq_ok]
  simp only [and_true]
  have hphase : ∀ ip ∈ t.phases.enum, listPhase ip.1 ip.2 = .ok () ↔ ip.2.checks = [] := by
    intro ip hip
    have hi := List.fst_lt_of_mem_enum hip
    have hp := List.snd_mem_of_mem_enum hip
    have hs := Test.phase_size_le hp
    rw [listPhase_eq_ok (by simp [hfit (ip.1 + 1) (by omega), hfit ip.2.pokes.length (by omega),
      hfit ip.2.checks.length (by omega), hfit (ip.2.pokes.length - 3) (by omega)]),
      and_iff_right (strFits_mono (List.le_sum_of_mem (List.mem_map_of_mem Phase.cycles hp)) hcy)]
  rw [forall₂_congr hphase]
  simp only [Test.allChecks, List.flatMap_eq_nil_iff, List.map_eq_nil_iff]
  refine ⟨fun h p hp => ?_, fun h ip hip => h _ (List.snd_mem_of_mem_enum hip)⟩
  have hp' : p ∈ t.phases.enum.map Prod.snd := by rwa [List.enum_map_snd]
  obtain ⟨ip, hip, rfl⟩ := List.mem_map.1 hp'
  exact h ip hip

/-- The listing of a text that parses. -/
theorem mainBody_listing {args : Args} (emulator : String → EmulatorRun)
    (hl : (args.list || args.vhdlOnly) = true) :
    mainBody content args emulator =
      ((parseVhdlTestbenchText content).forM (listTest args.verbose) >>= fun _ => .ok 0) := by
  simp only [mainBody, parseVhdlTestbenchE_ok hc, ok_bind, printCounts_tests hlen, hl, if_true]
  rfl

end listing

/-- **The listing.**  With `--list` or `--vhdl-only`, on a text of fewer than
`10 ^ (intMaxStrDigits - 2)` characters, `main` returns normally (status `0`) or raises
`ValueError`.  It returns exactly when the parse raises nothing and, with `--verbose`, no line
below a test header, itself no header, holds a check and every test's total of cycles can be
written. -/
theorem extractMain_listing (content : List Char) (args : Args) (emulator : String → EmulatorRun)
    (h : args.list = true ∨ args.vhdlOnly = true)
    (hlen : content.length < 10 ^ (intMaxStrDigits - 2)) :
    (extractMain true content args emulator = .exit 0 ↔
        parseVhdlTestbenchE content = .ok (parseVhdlTestbenchText content) ∧
        (args.verbose = true →
          ¬ (∃ pre hd post, content.splitOn '\n' = pre ++ hd :: post ∧ (Line.ofText hd).test.isSome ∧
            ∃ l ∈ post, (Line.ofText l).test = none ∧ (Line.ofText l).checks ≠ []) ∧
          ∀ t ∈ parseVhdlTestbenchText content, strFits t.cycles = true)) ∧
      (∀ e, extractMain true content args emulator = .raised e → ∃ msg, e = .valueError msg) ∧
      ∀ code, extractMain true content args emulator = .exit code → code = 0 := by
  have hl : (args.list || args.vhdlOnly) = true := by rcases h with h | h <;> simp [h]
  cases hc : checkInts false (content.splitOn '\n') with
  | error e0 =>
    -- the parse raises the `ValueError` of `int()`
    obtain ⟨n, -, rfl⟩ := checkInts_error hc
    have hp := parseVhdlTestbenchE_error hc
    have hm : extractMain true content args emulator = .raised (intLimitError n) := by
      simp only [extractMain, mainBody, hp, error_bind, Bool.not_true, Bool.false_eq_true, if_false]
    simp only [hm, hp, reduceCtorEq, false_and, MainEnd.raised.injEq, false_iff, false_implies,
      implies_true, and_true, true_and]
    rintro e rfl
    exact ⟨_, rfl⟩
  | ok u =>
    cases u
    have hT : (parseVhdlTestbenchText content).forM (listTest args.verbose) = .ok () ↔
        (args.verbose = true →
          ¬ (∃ pre hd post, content.splitOn '\n' = pre ++ hd :: post ∧ (Line.ofText hd).test.isSome ∧
            ∃ l ∈ post, (Line.ofText l).test = none ∧ (Line.ofText l).checks ≠ []) ∧
          ∀ t ∈ parseVhdlTestbenchText content, strFits t.cycles = true) := by
      rw [forM_eq_ok, forall₂_congr fun t ht => listTest_eq_ok hlen hc ht args.verbose,
        ← exists_checks_text]
      constructor
      · exact fun h hv => ⟨fun ⟨t, ht, hne⟩ => hne (h t ht hv).1, fun t ht => (h t ht hv).2⟩
      · exact fun h t ht hv => ⟨not_not.1 fun hne => (h hv).1 ⟨t, ht, hne⟩, (h hv).2 t ht⟩
    simp only [extractMain, Bool.not_true, Bool.false_eq_true, if_false,
      mainBody_listing hlen hc emulator hl, parseVhdlTestbenchE_ok hc, true_and]
    cases hf : (parseVhdlTestbenchText content).forM (listTest args.verbose) with
    | error e =>
      -- a test's listing raises: a count of too many digits, or a check unpacked
      obtain ⟨t, ht, hte⟩ := forM_error hf
      simp only [error_bind, reduceCtorEq, false_iff, MainEnd.raised.injEq, false_implies,
        implies_true, and_true]
      refine ⟨fun h => ?_, fun e' he => ?_⟩
      · have := hT.2 h
        rw [hf] at this
        cases this
      · subst he
        rcases listTest_error hte with rfl | rfl
        exacts [⟨_, rfl⟩, ⟨_, rfl⟩]
    | ok u =>
      simp only [ok_bind, MainEnd.exit.injEq, true_iff, reduceCtorEq, false_implies, implies_true,
        true_and]
      exact ⟨hT.1 (by rw [hf]), fun code h => h.symm⟩

/-- The verbose listing of `checkText` raises `ValueError`: its test has a check. -/
theorem extractMain_listing_check :
    ∃ msg, extractMain true checkText { list := true, verbose := true } (fun _ => .timeout) =
      .raised (.valueError msg) := by
  obtain ⟨h0, hraise, hcode⟩ := extractMain_listing checkText { list := true, verbose := true }
    (fun _ => .timeout) (.inl rfl) checkText_length
  cases hm : extractMain true checkText { list := true, verbose := true } (fun _ => .timeout) with
  | exit code =>
    obtain rfl := hcode code hm
    exact (((h0.1 hm).2 rfl).1 ⟨[], "-- TEST 1: a".toList,
      ["check_mem(16#0200#, x\"01\", \"m\");".toList], by decide, by decide, _,
      List.mem_singleton_self _, by decide, by decide⟩).elim
  | raised e =>
    obtain ⟨msg, rfl⟩ := hraise e hm
    exact ⟨msg, rfl⟩

end M65832Tb
