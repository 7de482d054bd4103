import M65832Tb.Extract.Directive
import Mathlib.Algebra.Order.Ring.Nat

/-!
# The testbench parser

`parse_vhdl_testbench` makes one pass over the lines.  A header line closes the test being read
and opens a new one; every other line inside a test goes through the loop body, which in the
source's order

* on a reset line, closes the current phase when writes are pending after one of its checks, and
  opens the next phase with those writes (`Cursor.onReset`);
* adds the line's writes to the phase, or holds them back when the phase already has a check
  (`Cursor.addPokes`);
* adds each wait above 10 cycles: half of it to the running counter, all of it to the budget
  (`Phase.addWait`);
* records each check with the running counter (`Phase.addChecks`);
* marks the interrupt lines assigned `'0'` (`Phase.addLevels`).

The parser is generic in the type of a write and of a check (`parseViews`), and so is every
definition here; `parseVhdlTestbench` is its instance on the views of plain lines.  Running it on
tagged views gives the same tests with every directive tagged (`parseTagged_erase`), and it
produces one test per header, each from the lines up to the next header alone
(`parseViews_eq_blocks`): the tests carry the numbers and names of the headers, in order, and no
phase of them is empty (`parse_one_test_per_header`).

`Test.reset_vector` and the parser's `phase_has_reset` flag are written and never read, and are
left out.  `current_test` and `current_phase` are set together at every header, so the model
keeps them, with `pending_pokes`, in one optional `Cursor`.
-/

namespace M65832Tb

variable {P C P' C' : Type}

/-- A phase of a test: the writes before its run, its checks, each with the scaled cycle count at
which it appeared, the unscaled cycle budget, and the interrupt lines it asserts. -/
structure Phase (P C : Type) where
  pokes : List P := []
  checks : List (C × ℕ) := []
  cycles : ℕ := 100
  irqActive : Bool := false
  nmiActive : Bool := false
  abortActive : Bool := false
  /-- `_cycles_so_far`: the scaled waits seen so far in the phase. -/
  cyclesSoFar : ℕ := 0
  deriving DecidableEq

/-- A test: its number, its name and its phases. -/
structure Test (P C : Type) where
  number : ℕ
  name : String
  phases : List (Phase P C) := []
  deriving DecidableEq

/-- The parser's state inside a test: `current_test`, `current_phase` and `pending_pokes`. -/
structure Cursor (P C : Type) where
  test : Test P C
  phase : Phase P C
  pending : List P

/-! ### One line -/

/-- The reset branch: writes held back after a check start a new phase. -/
def Cursor.onReset (c : Cursor P C) : Cursor P C :=
  if !c.pending.isEmpty && !c.phase.checks.isEmpty then
    ⟨{ c.test with phases := c.test.phases ++ [c.phase] }, { pokes := c.pending }, []⟩
  else c

/-- The writes of a line go to the phase, or are held back once the phase has a check. -/
def Cursor.addPokes (ps : List P) (c : Cursor P C) : Cursor P C :=
  if !ps.isEmpty then
    if !c.phase.checks.isEmpty then { c with pending := c.pending ++ ps }
    else { c with phase := { c.phase with pokes := c.phase.pokes ++ ps } }
  else c

/-- One `wait_cycles(n)`: above 10 cycles it adds `n // 2` to the running counter and `n` to the
budget. -/
def Phase.addWait (p : Phase P C) (n : ℕ) : Phase P C :=
  if n > 10 then { p with cyclesSoFar := p.cyclesSoFar + n / 2, cycles := p.cycles + n } else p

/-- The checks of a line, each recorded with the running counter. -/
def Phase.addChecks (cs : List C) (p : Phase P C) : Phase P C :=
  { p with checks := p.checks ++ cs.map (·, p.cyclesSoFar) }

/-- The interrupt lines a line assigns `'0'` (they are active low). -/
def Phase.addLevels (v : LineView P C) (p : Phase P C) : Phase P C :=
  { p with
    irqActive := p.irqActive || decide (v.irq = some '0')
    nmiActive := p.nmiActive || decide (v.nmi = some '0')
    abortActive := p.abortActive || decide (v.abort = some '0') }

/-- The loop body for a line inside a test that is not a header. -/
def Cursor.step (c : Cursor P C) (v : LineView P C) : Cursor P C :=
  let c := (if v.reset then c.onReset else c).addPokes v.pokes
  { c with phase := ((v.waits.foldl Phase.addWait c.phase).addChecks v.checks).addLevels v }

/-- Saving a test: its current phase is kept when it has a write or a check. -/
def Cursor.close (c : Cursor P C) : Test P C :=
  if !c.phase.pokes.isEmpty || !c.phase.checks.isEmpty then
    { c.test with phases := c.test.phases ++ [c.phase] }
  else c.test

/-- The state at a header `-- TEST n: name`. -/
def Cursor.start (h : ℕ × String) : Cursor P C := ⟨⟨h.1, h.2, []⟩, {}, []⟩

section fields

variable (v : LineView P C) (cs : List C) (p : Phase P C)

@[simp] theorem Phase.addChecks_pokes : (p.addChecks cs).pokes = p.pokes := rfl
@[simp] theorem Phase.addChecks_checks :
    (p.addChecks cs).checks = p.checks ++ cs.map (·, p.cyclesSoFar) := rfl
@[simp] theorem Phase.addChecks_cycles : (p.addChecks cs).cycles = p.cycles := rfl
@[simp] theorem Phase.addChecks_cyclesSoFar : (p.addChecks cs).cyclesSoFar = p.cyclesSoFar := rfl
@[simp] theorem Phase.addLevels_pokes : (p.addLevels v).pokes = p.pokes := rfl
@[simp] theorem Phase.addLevels_checks : (p.addLevels v).checks = p.checks := rfl
@[simp] theorem Phase.addLevels_cycles : (p.addLevels v).cycles = p.cycles := rfl
@[simp] theorem Phase.addLevels_cyclesSoFar : (p.addLevels v).cyclesSoFar = p.cyclesSoFar := rfl

/-- The waits of a line in closed form: the kept waits are those above 10 cycles. -/
theorem Phase.foldl_addWait (ns : List ℕ) :
    ns.foldl Phase.addWait p =
      { p with cyclesSoFar := p.cyclesSoFar + ((ns.filter (10 < ·)).map (· / 2)).sum
               cycles := p.cycles + (ns.filter (10 < ·)).sum } := by
  induction ns generalizing p with
  | nil => simp
  | cons n ns ih =>
    rw [List.foldl_cons, ih]
    unfold Phase.addWait
    split_ifs with h <;> simp [h, List.filter_cons, Nat.add_assoc]

@[simp] theorem Phase.foldl_addWait_pokes (ns : List ℕ) : (ns.foldl Phase.addWait p).pokes = p.pokes := by
  rw [Phase.foldl_addWait]

@[simp] theorem Phase.foldl_addWait_checks (ns : List ℕ) :
    (ns.foldl Phase.addWait p).checks = p.checks := by
  rw [Phase.foldl_addWait]

@[simp] theorem Cursor.addPokes_test (ps : List P) (c : Cursor P C) : (c.addPokes ps).test = c.test := by
  unfold Cursor.addPokes; split_ifs <;> rfl

@[simp] theorem Cursor.addPokes_checks (ps : List P) (c : Cursor P C) :
    (c.addPokes ps).phase.checks = c.phase.checks := by
  unfold Cursor.addPokes; split_ifs <;> rfl

/-- The writes of a line join the phase while it has no check. -/
theorem Cursor.addPokes_pokes (ps : List P) (c : Cursor P C) :
    (c.addPokes ps).phase.pokes = c.phase.pokes ++ if c.phase.checks.isEmpty then ps else [] := by
  unfold Cursor.addPokes; split_ifs <;> simp_all

/-- The writes of a line are held back once the phase has a check. -/
theorem Cursor.addPokes_pending (ps : List P) (c : Cursor P C) :
    (c.addPokes ps).pending = c.pending ++ if c.phase.checks.isEmpty then [] else ps := by
  unfold Cursor.addPokes; split_ifs <;> simp_all

end fields

/-! ### The whole text -/

/-- The state of the parser's loop: the finished tests, and the test being read. -/
structure ParseState (P C : Type) where
  tests : List (Test P C)
  cursor : Option (Cursor P C)

/-- One line: a header saves the current test and opens the next; lines before the first header
are skipped. -/
def ParseState.step (s : ParseState P C) (v : LineView P C) : ParseState P C :=
  match v.test with
  | some h => ⟨s.tests ++ (s.cursor.map Cursor.close).toList, some (Cursor.start h)⟩
  | none => ⟨s.tests, s.cursor.map (·.step v)⟩

/-- The tests at the end of the text, the open one saved. -/
def ParseState.finish (s : ParseState P C) : List (Test P C) :=
  s.tests ++ (s.cursor.map Cursor.close).toList

/-- `parse_vhdl_testbench` on the views of the lines. -/
def parseViews (vs : List (LineView P C)) : List (Test P C) :=
  (vs.foldl ParseState.step ⟨[], none⟩).finish

/-- `parse_vhdl_testbench`. -/
def parseVhdlTestbench (lines : List Line) : List (Test Poke CheckMem) :=
  parseViews (lines.map Line.view)

/-- The parser run on the tagged views: each write and check carries the index of its line. -/
def parseTagged (lines : List Line) : List (Test (ℕ × Poke) (ℕ × CheckMem)) :=
  parseViews (taggedViews lines)

/-! ### Relabelling writes and checks -/

@[simp] theorem isEmpty_map {α β : Type} (f : α → β) (l : List α) : (l.map f).isEmpty = l.isEmpty := by
  cases l <;> rfl

/-- Relabel the writes and the checks of a phase. -/
def Phase.map (f : P → P') (g : C → C') (p : Phase P C) : Phase P' C' :=
  ⟨p.pokes.map f, p.checks.map (Prod.map g id), p.cycles, p.irqActive, p.nmiActive, p.abortActive,
    p.cyclesSoFar⟩

/-- Relabel the writes and the checks of a test. -/
def Test.map (f : P → P') (g : C → C') (t : Test P C) : Test P' C' :=
  ⟨t.number, t.name, t.phases.map (Phase.map f g)⟩

/-- Relabel the writes and the checks of a cursor. -/
def Cursor.map (f : P → P') (g : C → C') (c : Cursor P C) : Cursor P' C' :=
  ⟨c.test.map f g, c.phase.map f g, c.pending.map f⟩

section map

variable (f : P → P') (g : C → C')

theorem Phase.addWait_map (p : Phase P C) (n : ℕ) : (p.map f g).addWait n = (p.addWait n).map f g := by
  unfold Phase.addWait; split <;> rfl

theorem Phase.foldl_addWait_map (p : Phase P C) (ns : List ℕ) :
    ns.foldl Phase.addWait (p.map f g) = (ns.foldl Phase.addWait p).map f g := by
  induction ns generalizing p with
  | nil => rfl
  | cons n ns ih => simp only [List.foldl_cons, Phase.addWait_map, ih]

theorem Cursor.onReset_map (c : Cursor P C) : (c.map f g).onReset = c.onReset.map f g := by
  unfold Cursor.onReset; simp only [Cursor.map, Phase.map, isEmpty_map]; split <;> simp [Test.map, Phase.map]

theorem Cursor.addPokes_map (ps : List P) (c : Cursor P C) :
    (c.map f g).addPokes (ps.map f) = (c.addPokes ps).map f g := by
  unfold Cursor.addPokes; simp only [Cursor.map, Phase.map, isEmpty_map]; split_ifs <;> simp

theorem Cursor.step_map (c : Cursor P C) (v : LineView P C) :
    (c.map f g).step (v.map f g) = (c.step v).map f g := by
  have hr : (if v.reset then (c.map f g).onReset else c.map f g) =
      (if v.reset then c.onReset else c).map f g := by
    split <;> simp [Cursor.onReset_map]
  simp only [Cursor.step, LineView.map, hr, Cursor.addPokes_map]
  simp only [Cursor.map, Phase.foldl_addWait_map]
  simp [Phase.map, Phase.addChecks, Phase.addLevels, Function.comp_def]

theorem Cursor.close_map (c : Cursor P C) : (c.map f g).close = c.close.map f g := by
  unfold Cursor.close; simp only [Cursor.map, Phase.map, isEmpty_map]; split <;> simp [Test.map, Phase.map]

theorem Cursor.foldl_step_map (c : Cursor P C) (vs : List (LineView P C)) :
    (vs.map (LineView.map f g)).foldl Cursor.step (c.map f g) = (vs.foldl Cursor.step c).map f g := by
  induction vs generalizing c with
  | nil => rfl
  | cons v vs ih => simp only [List.map_cons, List.foldl_cons, Cursor.step_map, ih]

end map

/-! ### One test per header -/

/-- A text cut at its headers: the lines before the first header, then each header with the lines
after it up to the next header. -/
def splitBlocks {α H : Type} (hdr : α → Option H) : List α → List α × List (H × List α)
  | [] => ([], [])
  | a :: as =>
    match hdr a with
    | some h => ([], (h, (splitBlocks hdr as).1) :: (splitBlocks hdr as).2)
    | none => (a :: (splitBlocks hdr as).1, (splitBlocks hdr as).2)

/-- The test read from a header and the lines after it. -/
def parseBlock (h : ℕ × String) (R : List (LineView P C)) : Test P C :=
  (R.foldl Cursor.step (Cursor.start h)).close

theorem foldl_parseStep (vs : List (LineView P C)) (s : ParseState P C) :
    (vs.foldl ParseState.step s).finish =
      s.tests ++ (s.cursor.map fun c => ((splitBlocks LineView.test vs).1.foldl Cursor.step c).close).toList ++
        (splitBlocks LineView.test vs).2.map fun b => parseBlock b.1 b.2 := by
  induction vs generalizing s with
  | nil => simp [ParseState.finish, splitBlocks]
  | cons v vs ih =>
    rw [List.foldl_cons, ih]
    cases hv : v.test with
    | some h => simp [ParseState.step, splitBlocks, hv, parseBlock]
    | none => obtain ⟨ts, cur⟩ := s; cases cur <;> simp [ParseState.step, splitBlocks, hv]

/-- **The parser reads one test per header, each from the lines up to the next header alone.** -/
theorem parseViews_eq_blocks (vs : List (LineView P C)) :
    parseViews vs = (splitBlocks LineView.test vs).2.map fun b => parseBlock b.1 b.2 := by
  simp [parseViews, foldl_parseStep]

theorem splitBlocks_map {α β H : Type} (f : α → β) {hdr : β → Option H} {hdr' : α → Option H}
    (h : ∀ a, hdr (f a) = hdr' a) (as : List α) :
    splitBlocks hdr (as.map f) =
      ((splitBlocks hdr' as).1.map f, (splitBlocks hdr' as).2.map fun b => (b.1, b.2.map f)) := by
  induction as with
  | nil => rfl
  | cons a as ih => cases ha : hdr' a <;> simp [splitBlocks, h, ha, ih]

theorem parseBlock_map (f : P → P') (g : C → C') (h : ℕ × String) (R : List (LineView P C)) :
    parseBlock h (R.map (LineView.map f g)) = (parseBlock h R).map f g := by
  rw [parseBlock, show (Cursor.start h : Cursor P' C') = (Cursor.start h).map f g from rfl,
    Cursor.foldl_step_map, Cursor.close_map, parseBlock]

theorem parseViews_map (f : P → P') (g : C → C') (vs : List (LineView P C)) :
    parseViews (vs.map (LineView.map f g)) = (parseViews vs).map (Test.map f g) := by
  simp only [parseViews_eq_blocks, splitBlocks_map _ (LineView.map_test f g), List.map_map]
  exact List.map_congr_left fun b _ => parseBlock_map f g b.1 b.2

/-- Erasing the line indices of the tagged parse gives the parse. -/
theorem parseTagged_erase (lines : List Line) :
    (parseTagged lines).map (Test.map Prod.snd Prod.snd) = parseVhdlTestbench lines := by
  rw [parseTagged, ← parseViews_map, taggedViews_erase, parseVhdlTestbench]

/-! ### One test per header, no empty phase -/

/-- Every phase of a test has a write or a check. -/
def Test.PhasesNonempty (t : Test P C) : Prop := ∀ p ∈ t.phases, p.pokes ≠ [] ∨ p.checks ≠ []

/-- What a line does to the test being read: nothing, or, at a reset after held-back writes, it
saves the current phase, which has a check. -/
theorem Cursor.step_test (c : Cursor P C) (v : LineView P C) :
    (c.step v).test = c.test ∨
      (c.step v).test = { c.test with phases := c.test.phases ++ [c.phase] } ∧ c.phase.checks ≠ [] := by
  simp only [Cursor.step, Cursor.addPokes_test]
  split_ifs with hr
  · unfold Cursor.onReset
    split_ifs with h
    · simp only [Bool.and_eq_true, Bool.not_eq_true', List.isEmpty_eq_false] at h
      exact .inr ⟨rfl, h.2⟩
    · exact .inl rfl
  · exact .inl rfl

theorem Cursor.foldl_step_test (vs : List (LineView P C)) (c : Cursor P C)
    (hc : c.test.PhasesNonempty) :
    (vs.foldl Cursor.step c).test.number = c.test.number ∧
      (vs.foldl Cursor.step c).test.name = c.test.name ∧ (vs.foldl Cursor.step c).test.PhasesNonempty := by
  induction vs generalizing c with
  | nil => exact ⟨rfl, rfl, hc⟩
  | cons v vs ih =>
    have hstep : (c.step v).test.number = c.test.number ∧ (c.step v).test.name = c.test.name ∧
        (c.step v).test.PhasesNonempty := by
      rcases Cursor.step_test c v with h | ⟨h, hne⟩ <;> rw [h]
      · exact ⟨rfl, rfl, hc⟩
      · refine ⟨rfl, rfl, fun p hp => ?_⟩
        rcases List.mem_append.1 hp with hp | hp
        · exact hc p hp
        · rw [List.mem_singleton.1 hp]; exact .inr hne
    obtain ⟨h1, h2, h3⟩ := ih (c.step v) hstep.2.2
    exact ⟨h1.trans hstep.1, h2.trans hstep.2.1, h3⟩

theorem parseBlock_spec (h : ℕ × String) (R : List (LineView P C)) :
    ((parseBlock h R).number, (parseBlock h R).name) = h ∧ (parseBlock h R).PhasesNonempty := by
  obtain ⟨hn, hm, hne⟩ :=
    Cursor.foldl_step_test R (Cursor.start h) (by simp [Test.PhasesNonempty, Cursor.start])
  rw [parseBlock, Cursor.close]
  split_ifs with hc
  · refine ⟨Prod.ext hn hm, fun p hp => ?_⟩
    rcases List.mem_append.1 hp with hp | hp
    · exact hne p hp
    · rw [List.mem_singleton.1 hp]
      simpa [List.isEmpty_iff, or_iff_not_imp_left] using hc
  · exact ⟨Prod.ext hn hm, hne⟩

theorem splitBlocks_heads {α H : Type} (hdr : α → Option H) (as : List α) :
    (splitBlocks hdr as).2.map Prod.fst = as.filterMap hdr := by
  induction as with
  | nil => rfl
  | cons a as ih => cases ha : hdr a <;> simp [splitBlocks, ha, ih]

/-- **One test per header, in order, and no empty phase.**  The tests the parser returns carry
the numbers and names of the header lines, one test for each header; and every phase of every
test has a write or a check. -/
theorem parse_one_test_per_header (lines : List Line) :
    (parseVhdlTestbench lines).map (fun T => (T.number, T.name)) = lines.filterMap Line.test ∧
      ∀ T ∈ parseVhdlTestbench lines, ∀ p ∈ T.phases, p.pokes ≠ [] ∨ p.checks ≠ [] := by
  rw [parseVhdlTestbench, parseViews_eq_blocks]
  refine ⟨?_, ?_⟩
  · rw [List.map_map, List.map_congr_left fun b _ => (parseBlock_spec b.1 b.2).1,
      splitBlocks_heads, List.filterMap_map]
    rfl
  · simp only [List.mem_map]
    rintro _ ⟨b, -, rfl⟩
    exact (parseBlock_spec b.1 b.2).2

end M65832Tb
