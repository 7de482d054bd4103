import M65832Tb.Extract.Parse
import Mathlib.Data.List.Sort

/-!
# The emulator script

`run_emulator_test_v2` drives the emulator through its interactive protocol, one command a line.
For a test it emits

* the default vectors, each only when no phase of the test writes its address
  (`defaultVectorCmds`);
* for each phase, `run_phase`'s commands (`phaseCmds`): the phase's writes with the reset vector
  forced to `$8000` and the IRQ vector and its `STP` opcode added where the phase does not set
  them (`vectorPokes`), less the duplicate vector writes of an interrupt phase (`keepPoke`), each
  mirrored at `addr + 0x10000` below 64 KiB (`writeCmds`); then `reset`; then the interrupt
  commands (`interruptCmds`); then the steps and reads of the phase's checks (`checkCmds`), or one
  run for the whole budget when the phase has no check;
* `q`.

A command is a constructor of `Cmd`, and `Cmd.render` is the text line the script holds.
`run_phase` writes its step counts with `str`, which raises `ValueError` on a number of more than
`intMaxStrDigits` digits: the loop over the phases raises exactly when a count of some phase's
commands has too many digits (`runPhasesE_eq`).  `run_phase` also reassigns `phase.pokes` to
`vectorPokes` of them; only the verbose summary of `run_emulator_test_v2` reads that afterwards
(`summaryCounts`).
-/

namespace M65832Tb

/-- A command of the emulator's interactive protocol, as the script builder emits it. -/
inductive Cmd where
  /-- `w {addr:x} {data:x}`: write one byte. -/
  | w (addr data : ℕ)
  /-- `reset`: pulse reset. -/
  | reset
  /-- `nmi`: pulse the NMI line. -/
  | nmi
  /-- `abort`: pulse the ABORT line. -/
  | abort
  /-- `s {n}`: execute `n` instructions. -/
  | s (n : ℕ)
  /-- `irq {level}`: set the IRQ line. -/
  | irq (level : ℕ)
  /-- `r {n}`: run for `n` cycles. -/
  | r (n : ℕ)
  /-- `m {addr:x} {count}`: dump `count` bytes from `addr`. -/
  | m (addr count : ℕ)
  /-- `q`: quit. -/
  | q
  deriving DecidableEq, Repr

/-- Python's `{n:x}`: lower-case hexadecimal, no padding. -/
def hexLower (n : ℕ) : String := String.mk (Nat.toDigits 16 n)

/-- The text line of a command. -/
def Cmd.render : Cmd → String
  | .w a d => "w " ++ hexLower a ++ " " ++ hexLower d
  | .reset => "reset"
  | .nmi => "nmi"
  | .abort => "abort"
  | .s n => "s " ++ toString n
  | .irq l => "irq " ++ toString l
  | .r n => "r " ++ toString n
  | .m a c => "m " ++ hexLower a ++ " " ++ toString c
  | .q => "q"

example : (Cmd.w 0xFFFD 0x80).render = "w fffd 80" := by decide

/-! ### Decimal text and the errors of Python -/

/-- The Python exceptions the modelled code lets through, with their messages. -/
inductive PyError where
  /-- `ValueError`. -/
  | valueError (msg : String)
  /-- `OverflowError`. -/
  | overflowError (msg : String)
  /-- `MemoryError`. -/
  | memoryError
  deriving DecidableEq, Repr

/-- `sys.get_int_max_str_digits()` at its default: `int()` reads at most this many decimal
digits, and `str()` writes at most this many. -/
def intMaxStrDigits : ℕ := 4300

/-- Whether `str(n)`, and so an f-string field `{n}` or `{n:3d}`, can write `n` in decimal. -/
def strFits (n : ℕ) : Bool := n < 10 ^ intMaxStrDigits

/-- The `ValueError` of `str()` on a number of more than `intMaxStrDigits` digits. -/
def strLimitError : PyError :=
  .valueError ("Exceeds the limit (4300 digits) for integer string conversion; " ++
    "use sys.set_int_max_str_digits() to increase the limit")

/-- Whether `run_phase` can write a command's line: `s {delta}`, `s {remaining}` and
`r {phase.cycles}` write a count in decimal; every other line is literal text or hexadecimal. -/
def Cmd.fits : Cmd → Bool
  | .s n => strFits n
  | .r n => strFits n
  | _ => true

@[simp] theorem ok_bind {ε α β : Type} (a : α) (f : α → Except ε β) : (Except.ok a >>= f) = f a :=
  rfl

@[simp] theorem error_bind {ε α β : Type} (e : ε) (f : α → Except ε β) :
    (Except.error e >>= f) = .error e :=
  rfl

/-- A failed `bind` failed in its first step or in its second. -/
theorem bind_eq_error {ε α β : Type} {x : Except ε α} {f : α → Except ε β} {e : ε}
    (h : (x >>= f) = .error e) : x = .error e ∨ ∃ a, x = .ok a ∧ f a = .error e := by
  cases x with
  | error e' => cases (error_bind e' f).symm.trans h; exact .inl rfl
  | ok a => exact .inr ⟨a, rfl, h⟩

/-- A loop each turn of which either raises `e` or takes the pure turn `f`, as a test of the
element alone decides, raises `e` exactly when some turn does, and otherwise runs the pure loop. -/
theorem foldlM_guard {α β : Type} {g : β → α → Except PyError β} (ok : α → Bool) (f : β → α → β)
    (e : PyError) {as : List α} (h : ∀ a ∈ as, ∀ b, g b a = if ok a then .ok (f b a) else .error e)
    (b : β) : as.foldlM g b = if as.all ok then .ok (as.foldl f b) else .error e := by
  induction as generalizing b with
  | nil => rfl
  | cons a as ih =>
    rw [List.foldlM_cons, List.foldl_cons, List.all_cons, h a (List.mem_cons_self _ _)]
    by_cases ha : ok a
    · rw [if_pos ha, ha, Bool.true_and]
      exact ih (fun a' h' => h a' (List.mem_cons_of_mem _ h')) _
    · rw [if_neg ha, Bool.eq_false_iff.2 ha, Bool.false_and, if_neg Bool.false_ne_true]
      rfl

/-- `'\n'.join(script_lines) + '\n'`. -/
def renderScript (cmds : List Cmd) : String :=
  String.intercalate "\n" (cmds.map Cmd.render) ++ "\n"

/-! ### One phase -/

/-- The IRQ vector (`$FF00`) when the phase writes no `$FFFE`, and the `STP` opcode at `$FF00`
when it writes no `$FF00`. -/
def irqDefaults (pokes : List Poke) : List Poke :=
  (if 0xFFFE ∉ pokes.map Prod.fst then [(0xFFFE, 0x00), (0xFFFF, 0xFF)] else []) ++
    (if 0xFF00 ∉ pokes.map Prod.fst then [(0xFF00, 0xDB)] else [])

/-- The reset vector forced to `$8000` in place of any write of the phase there, then the
`irqDefaults`. -/
def vectorPokes (pokes : List Poke) : List Poke :=
  pokes.filter (fun p => p.1 ∉ [0xFFFC, 0xFFFD]) ++ (0xFFFC, 0x00) :: (0xFFFD, 0x80) :: irqDefaults pokes

/-- A write survives unless the phase asserts an interrupt line, writes both `$FFF8` and `$FFF9`,
and the write is to `$FFFA` or `$FFFB`. -/
def keepPoke (usesInterrupts : Bool) (addrs : List ℕ) (p : Poke) : Bool :=
  if usesInterrupts then
    if p.1 = 0xFFFA ∧ 0xFFF8 ∈ addrs ∧ 0xFFF9 ∈ addrs then false
    else if p.1 = 0xFFFB ∧ 0xFFF8 ∈ addrs ∧ 0xFFF9 ∈ addrs then false
    else true
  else true

/-- The writes of a phase, each followed by its mirror at `addr + 0x10000` when `addr < 0x10000`. -/
def writeCmds (pokes : List Poke) : List Cmd :=
  pokes.flatMap fun p => .w p.1 p.2 :: if p.1 < 0x10000 then [.w (p.1 + 0x10000) p.2] else []

/-- The writes `run_phase` emits for a phase: its vector-normalised writes that survive the
de-duplication. -/
def phasePokes (p : Phase Poke CheckMem) : List Poke :=
  (vectorPokes p.pokes).filter
    (keepPoke (p.irqActive || p.nmiActive || p.abortActive) ((vectorPokes p.pokes).map Prod.fst))

/-- NMI and ABORT pulse at once; IRQ is raised after three instructions. -/
def interruptCmds (p : Phase Poke CheckMem) : List Cmd :=
  (if p.nmiActive then [.nmi] else []) ++ (if p.abortActive then [.abort] else []) ++
    (if p.irqActive then [.s 3, .irq 1] else [])

/-- `checks_by_cycle`, one more check: its offset's group in the order offsets first appear (a
Python dict keeps insertion order). -/
def insertCheck (groups : List (ℕ × List CheckMem)) (c : CheckMem × ℕ) : List (ℕ × List CheckMem) :=
  if groups.any (·.1 == c.2) then groups.map fun g => if g.1 = c.2 then (g.1, g.2 ++ [c.1]) else g
  else groups ++ [(c.2, [c.1])]

/-- `checks_by_cycle`. -/
def groupByCycle (checks : List (CheckMem × ℕ)) : List (ℕ × List CheckMem) :=
  checks.foldl insertCheck []

/-- `max(1, cycles // 3)`: the instructions the emulator runs for a number of cycles, an
instruction taking about three emulator cycles. -/
def instCount (cycles : ℕ) : ℕ := max 1 (cycles / 3)

/-- One check point of `run_phase`: step up to `instCount cycles_at` instructions, then read the
address of each check of that offset.  The accumulator holds the commands and `prev_inst`.
(Python's `delta` may be negative; truncated, it is `0`, and neither emits a step.) -/
def checkPoint (groups : List (ℕ × List CheckMem)) (acc : List Cmd × ℕ) (k : ℕ) : List Cmd × ℕ :=
  let inst := instCount k
  let delta := inst - acc.2
  (acc.1 ++ (if 0 < delta then [.s delta] else []) ++
    ((groups.lookup k).getD []).map fun c => .m c.addr 1, inst)

/-- The steps and reads of a phase's checks, then the steps left to `instCount cycles`; or one
run for the whole budget when the phase has no check. -/
def checkCmds (p : Phase Poke CheckMem) : List Cmd :=
  if !p.checks.isEmpty then
    let groups := groupByCycle p.checks
    let acc := ((groups.map Prod.fst).insertionSort (· ≤ ·)).foldl (checkPoint groups) ([], 0)
    let total := instCount p.cycles
    acc.1 ++ if acc.2 < total then [.s (total - acc.2)] else []
  else [.r p.cycles]

/-- The commands `run_phase` appends for a phase. -/
def phaseCmds (p : Phase Poke CheckMem) : List Cmd :=
  writeCmds (phasePokes p) ++ .reset :: interruptCmds p ++ checkCmds p

/-- `run_phase`: the commands for a phase, and `all_pokes_so_far` with the written addresses. -/
def runPhase (p : Phase Poke CheckMem) (allPokesSoFar : List ℕ) : List Cmd × List ℕ :=
  (phaseCmds p, (phasePokes p).foldl (fun s x => s.insert x.1) allPokesSoFar)

/-! ### The whole test -/

/-- `run_phase` with the `ValueError` its f-strings raise: the commands of `runPhase`, or the
error when one of their counts has too many digits. -/
def runPhaseE (p : Phase Poke CheckMem) (allPokesSoFar : List ℕ) :
    Except PyError (List Cmd × List ℕ) :=
  if (phaseCmds p).all Cmd.fits then .ok (runPhase p allPokesSoFar) else .error strLimitError

/-- The default vectors of `run_emulator_test_v2`, in its order: reset to `$8000`, IRQ to `$FF00`
with `STP` there, and the ABORT and NMI vectors to `$FF00`. -/
def defaultVectors : List Poke :=
  [(0xFFFC, 0x00), (0xFFFD, 0x80), (0xFFFE, 0x00), (0xFFFF, 0xFF), (0xFF00, 0xDB),
   (0xFFFA, 0x00), (0xFFFB, 0xFF), (0xFFF8, 0x00), (0xFFF9, 0xFF)]

/-- The default vectors whose addresses no phase of the test writes. -/
def defaultVectorCmds (addrs : List ℕ) : List Cmd :=
  defaultVectors.filterMap fun v => if v.1 ∈ addrs then none else some (.w v.1 v.2)

/-- Every address a phase of the test writes (`all_test_addresses`). -/
def Test.pokeAddrs (t : Test Poke CheckMem) : List ℕ :=
  t.phases.flatMap fun p => p.pokes.map Prod.fst

/-- The loop of `run_emulator_test_v2` over the phases: the commands so far and
`all_pokes_so_far`. -/
def runPhases (phases : List (Phase Poke CheckMem)) : List Cmd × List ℕ :=
  phases.foldl (fun acc p => ((acc.1 ++ (runPhase p acc.2).1), (runPhase p acc.2).2)) ([], [])

/-- The loop over the phases with the `ValueError`s of `run_phase`. -/
def runPhasesE (phases : List (Phase Poke CheckMem)) : Except PyError (List Cmd × List ℕ) :=
  phases.foldlM (fun acc p => (runPhaseE p acc.2).map fun r => (acc.1 ++ r.1, r.2)) ([], [])

/-- `test.cycles`: the cycles of every phase. -/
def Test.cycles (t : Test Poke CheckMem) : ℕ := (t.phases.map Phase.cycles).sum

/-- The script `run_emulator_test_v2` feeds the emulator. -/
def buildScript (t : Test Poke CheckMem) : List Cmd :=
  defaultVectorCmds t.pokeAddrs ++ (runPhases t.phases).1 ++ [.q]

/-- `all_checks`: the checks of every phase, in order, without their offsets. -/
def Test.allChecks (t : Test Poke CheckMem) : List CheckMem :=
  t.phases.flatMap fun p => p.checks.map Prod.fst

theorem runPhases_cmds (phases : List (Phase Poke CheckMem)) :
    (runPhases phases).1 = phases.flatMap phaseCmds := by
  suffices ∀ acc : List Cmd × List ℕ,
      (phases.foldl (fun acc p => ((acc.1 ++ (runPhase p acc.2).1), (runPhase p acc.2).2)) acc).1 =
        acc.1 ++ phases.flatMap phaseCmds from by simpa using this ([], [])
  induction phases with
  | nil => simp
  | cons p ps ih => intro acc; rw [List.foldl_cons, ih]; simp [runPhase]

/-- The loop over the phases raises exactly when some count of some phase's commands has too
many digits, and otherwise gives what `runPhases` gives. -/
theorem runPhasesE_eq (phases : List (Phase Poke CheckMem)) :
    runPhasesE phases =
      if (phases.flatMap phaseCmds).all Cmd.fits then .ok (runPhases phases) else .error strLimitError := by
  rw [runPhasesE, foldlM_guard (fun p => (phaseCmds p).all Cmd.fits) _ strLimitError
    (fun p _ acc => by unfold runPhaseE; split <;> rfl), List.all_flatMap]
  rfl

/-- The script: the default vectors, every phase's commands in order, `q`. -/
theorem buildScript_eq (t : Test Poke CheckMem) :
    buildScript t = defaultVectorCmds t.pokeAddrs ++ t.phases.flatMap phaseCmds ++ [.q] := by
  rw [buildScript, runPhases_cmds]

end M65832Tb
