import Mathlib.Data.List.Basic

/-!
# Testbench lines and the directives on them

`extract_vhdl_tests.py` reads the VHDL testbench one line at a time and asks a fixed set of
regular expressions what the line holds: a test header (`-- TEST n: name`), the reset assignment
(`rst_n <= '0'`), byte and word writes (`poke`, `poke16`), memory checks (`check_mem`), waits
(`wait_cycles`) and assignments to the three interrupt lines.  Python's `re` module is not
re-implemented here: a `Line` is what those searches return on one line, so every text the script
can read is a list of `Line`s.

From a `Line` the loop body of `parse_vhdl_testbench` computes `pokes_on_line`
(`Line.pokesOnLine`): every `poke16(A, V)` gives `(A, V & 0xFF)` then `(A + 1, (V >> 8) & 0xFF)`,
and the `poke(A, V)` writes follow, unless the text of the line mentions `poke16` at all.

The parser reads a line only through its `LineView`.  A view is generic in the type of a write and
of a check, so that the parser can also run on views whose directives carry the index of their
line (`Line.tagged`): that is how the development speaks about the line a write or a check came
from.  Erasing the index gives back the plain view (`Line.tagged_erase`).
-/

namespace M65832Tb

/-- A byte write `(addr, data)`, as `parse_vhdl_testbench` stores it in a phase. -/
abbrev Poke := ℕ × ℕ

/-- A `check_mem(16#ADDR#, x"EXPECTED", "msg")` directive. -/
structure CheckMem where
  addr : ℕ
  expected : ℕ
  msg : String
  deriving DecidableEq, Repr

/-- What the patterns of `parse_vhdl_testbench` find on one line of the testbench.  A field left
out of a line written in this development means that its pattern finds nothing there. -/
structure Line where
  /-- `test_pattern.search`: the test number and its name, stripped. -/
  test : Option (ℕ × String) := none
  /-- `reset_pattern.search`: the line assigns `'0'` to `rst_n`. -/
  reset : Bool := false
  /-- `poke16_pattern.finditer`: address and data of each word write. -/
  poke16s : List (ℕ × ℕ) := []
  /-- `'poke16' in line.lower()`. -/
  mentionsPoke16 : Bool := false
  /-- `poke_pattern.finditer`: address and data of each byte write. -/
  pokes : List (ℕ × ℕ) := []
  /-- `cycles_pattern.finditer`: the count of each `wait_cycles`. -/
  waits : List ℕ := []
  /-- `check_pattern.finditer`. -/
  checks : List CheckMem := []
  /-- The level, `'0'` or `'1'`, captured by the first match of `irq_pattern`. -/
  irq : Option Char := none
  /-- The level captured by the first match of `nmi_pattern`. -/
  nmi : Option Char := none
  /-- The level captured by the first match of `abort_pattern`. -/
  abort : Option Char := none
  /-- A word write is spelled `poke16`, so a line holding one mentions `poke16`. -/
  mentions_of_poke16 : poke16s ≠ [] → mentionsPoke16 = true := by decide

/-- The two byte writes of `poke16(A, V)`: low byte at `A`, high byte at `A + 1`. -/
def expandPoke16 (w : ℕ × ℕ) : List Poke :=
  [(w.1, w.2 &&& 0xFF), (w.1 + 1, (w.2 >>> 8) &&& 0xFF)]

/-- `pokes_on_line`: the word writes, then the byte writes unless the line mentions `poke16`. -/
def Line.pokesOnLine (l : Line) : List Poke :=
  l.poke16s.flatMap expandPoke16 ++ if l.mentionsPoke16 then [] else l.pokes

/-- Every write a line spells, as a reader of the testbench counts them: each `poke16` as its two
byte writes, then each `poke`, whatever else the line holds. -/
def Line.allWrites (l : Line) : List Poke := l.poke16s.flatMap expandPoke16 ++ l.pokes

/-- The part of a line the parser's loop reads, with writes of type `P` and checks of type `C`. -/
structure LineView (P C : Type) where
  test : Option (ℕ × String)
  reset : Bool
  pokes : List P
  waits : List ℕ
  checks : List C
  irq : Option Char
  nmi : Option Char
  abort : Option Char

variable {P C P' C' P'' C'' : Type}

/-- Relabel the writes and the checks of a view. -/
def LineView.map (f : P → P') (g : C → C') (v : LineView P C) : LineView P' C' :=
  ⟨v.test, v.reset, v.pokes.map f, v.waits, v.checks.map g, v.irq, v.nmi, v.abort⟩

@[simp] theorem LineView.map_test (f : P → P') (g : C → C') (v : LineView P C) :
    (v.map f g).test = v.test := rfl

@[simp] theorem LineView.map_map (f : P → P') (g : C → C') (f' : P' → P'') (g' : C' → C'')
    (v : LineView P C) : (v.map f g).map f' g' = v.map (f' ∘ f) (g' ∘ g) := by
  simp [LineView.map]

@[simp] theorem LineView.map_id (v : LineView P C) : v.map id id = v := by
  simp [LineView.map]

/-- The view the parser takes of a line. -/
def Line.view (l : Line) : LineView Poke CheckMem :=
  ⟨l.test, l.reset, l.pokesOnLine, l.waits, l.checks, l.irq, l.nmi, l.abort⟩

/-- The view of line number `i`, each of its writes and checks tagged with `i`. -/
def Line.tagged (i : ℕ) (l : Line) : LineView (ℕ × Poke) (ℕ × CheckMem) :=
  l.view.map (i, ·) (i, ·)

@[simp] theorem Line.tagged_test (i : ℕ) (l : Line) : (l.tagged i).test = l.test := rfl

theorem Line.tagged_erase (i : ℕ) (l : Line) : (l.tagged i).map Prod.snd Prod.snd = l.view := by
  simp only [Line.tagged, LineView.map_map]
  exact LineView.map_id _

/-- The views of a text's lines, each tagged with its index. -/
def taggedViews (lines : List Line) : List (LineView (ℕ × Poke) (ℕ × CheckMem)) :=
  lines.enum.map fun il => il.2.tagged il.1

theorem taggedViews_erase (lines : List Line) :
    (taggedViews lines).map (LineView.map Prod.snd Prod.snd) = lines.map Line.view := by
  simp only [taggedViews, List.map_map]
  conv_rhs => rw [← List.enum_map_snd lines, List.map_map]
  exact List.map_congr_left fun il _ => Line.tagged_erase il.1 il.2

end M65832Tb
