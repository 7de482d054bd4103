import M65832Tb.Extract.Parse
import Mathlib.Data.List.Sort

/-!
# The phases of a test

The testbench gives no explicit phase boundaries: `parse_vhdl_testbench` recovers them from the
order of writes, checks and resets.  This file proves that every phase it builds is well formed
(`parseTagged_wellFormed`):

* no write of a phase comes from a line after a line holding one of its checks;
* the cycle offsets of its checks are in order;
* every offset is at most `(cycles - 100) / 2`, half of the waits the phase added to its budget;
* the budget is at least its default of 100 cycles.

The first property is about where directives come from, so it is stated on the tagged parse,
whose directives carry the index of their line, and `parseTagged_erase` ties that parse back to
`parseVhdlTestbench`.  The proof reads one block of lines (a header and the lines after it) at a
time: `foldl_tagged_inv` turns an invariant kept by one line into one kept by a whole block, and
the invariant here, `Cursor.Shaped`, is kept by each part of the loop body in turn.
-/

namespace M65832Tb

/-- The parser's cursor on tagged views. -/
abbrev TCursor := Cursor (ℕ × Poke) (ℕ × CheckMem)

/-- The tagged view of a numbered line. -/
def tagView (il : ℕ × Line) : LineView (ℕ × Poke) (ℕ × CheckMem) := il.2.tagged il.1

section tagView

variable (il : ℕ × Line)

@[simp] theorem tagView_test : (tagView il).test = il.2.test := rfl
@[simp] theorem tagView_reset : (tagView il).reset = il.2.reset := rfl
@[simp] theorem tagView_pokes : (tagView il).pokes = il.2.pokesOnLine.map (il.1, ·) := rfl
@[simp] theorem tagView_waits : (tagView il).waits = il.2.waits := rfl
@[simp] theorem tagView_checks : (tagView il).checks = il.2.checks.map (il.1, ·) := rfl

end tagView

/-! ### Reading a text block by block -/

/-- The blocks of a text, its lines numbered: each header with the lines up to the next one. -/
def numberedBlocks (lines : List Line) : List ((ℕ × String) × List (ℕ × Line)) :=
  (splitBlocks (fun il => il.2.test) lines.enum).2

theorem parseTagged_eq_blocks (lines : List Line) :
    parseTagged lines = (numberedBlocks lines).map fun b => parseBlock b.1 (b.2.map tagView) := by
  have h : taggedViews lines = lines.enum.map tagView := rfl
  rw [parseTagged, parseViews_eq_blocks, h, splitBlocks_map tagView (fun _ => rfl), List.map_map]
  rfl

theorem splitBlocks_sublist {α H : Type} (hdr : α → Option H) (as : List α) :
    List.Sublist (splitBlocks hdr as).1 as ∧ ∀ b ∈ (splitBlocks hdr as).2, List.Sublist b.2 as := by
  induction as with
  | nil => simp [splitBlocks]
  | cons a as ih =>
    cases h : hdr a <;> simp only [splitBlocks, h, List.mem_cons]
    · exact ⟨ih.1.cons_cons a, fun b hb => (ih.2 b hb).cons a⟩
    · exact ⟨List.nil_sublist _, by rintro b (rfl | hb); exacts [ih.1.cons a, (ih.2 b hb).cons a]⟩

theorem enumFrom_pairwise_lt {α : Type} (k : ℕ) (l : List α) :
    (l.enumFrom k).Pairwise (·.1 < ·.1) := by
  induction l generalizing k with
  | nil => simp
  | cons a l ih =>
    simp only [List.enumFrom_cons, List.pairwise_cons]
    exact ⟨fun x hx => Nat.lt_of_lt_of_le (Nat.lt_succ_self k) (List.le_fst_of_mem_enumFrom hx),
      ih (k + 1)⟩

theorem numberedBlocks_sorted (lines : List Line) :
    ∀ b ∈ numberedBlocks lines, b.2.Pairwise (·.1 < ·.1) := fun b hb =>
  (enumFrom_pairwise_lt 0 lines).sublist ((splitBlocks_sublist _ _).2 b hb)

/-- **One induction for every block.**  An invariant of the lines read so far and of the cursor
that one more line keeps, read after all the earlier ones, holds after a whole block. -/
theorem foldl_tagged_inv (Inv : List (ℕ × Line) → TCursor → Prop)
    (step : ∀ pre il c, (∀ jl ∈ pre, jl.1 < il.1) → Inv pre c → Inv (pre ++ [il]) (c.step (tagView il)))
    (R pre : List (ℕ × Line)) (c : TCursor) (hR : (pre ++ R).Pairwise (·.1 < ·.1)) (h : Inv pre c) :
    Inv (pre ++ R) ((R.map tagView).foldl Cursor.step c) := by
  induction R generalizing pre c with
  | nil => simpa using h
  | cons il R ih =>
    have hlt : ∀ jl ∈ pre, jl.1 < il.1 := fun jl hj =>
      (List.pairwise_append.1 hR).2.2 jl hj il (List.mem_cons_self _ _)
    have := ih (pre ++ [il]) (c.step (tagView il)) (by simpa using hR) (step pre il c hlt h)
    simpa using this

/-! ### Well-formed phases -/

/-- The shape of every phase the parser builds. -/
structure Phase.WellFormed (p : Phase (ℕ × Poke) (ℕ × CheckMem)) : Prop where
  /-- No write comes from a line after a line holding one of the phase's checks. -/
  pokes_before_checks : ∀ x ∈ p.pokes, ∀ y ∈ p.checks, x.1 ≤ y.1.1
  /-- The cycle offsets of the checks are in order. -/
  offsets_sorted : (p.checks.map Prod.snd).Sorted (· ≤ ·)
  /-- No offset passes half of the waits the phase added to its budget. -/
  offset_le : ∀ y ∈ p.checks, y.2 ≤ (p.cycles - 100) / 2
  /-- The budget is at least the default of 100 cycles. -/
  budget_ge : 100 ≤ p.cycles

/-- The phase being read: well formed, with the running counter above every offset and at most
half of the waits added to the budget. -/
structure Phase.Running (p : Phase (ℕ × Poke) (ℕ × CheckMem)) : Prop where
  pokes_before_checks : ∀ x ∈ p.pokes, ∀ y ∈ p.checks, x.1 ≤ y.1.1
  offsets_sorted : (p.checks.map Prod.snd).Sorted (· ≤ ·)
  offset_le : ∀ y ∈ p.checks, y.2 ≤ p.cyclesSoFar
  budget : 2 * p.cyclesSoFar + 100 ≤ p.cycles

section running

variable {p : Phase (ℕ × Poke) (ℕ × CheckMem)}

theorem Phase.Running.wellFormed (h : p.Running) : p.WellFormed :=
  ⟨h.pokes_before_checks, h.offsets_sorted, fun y hy => by
    have := h.offset_le y hy; have := h.budget; omega, by have := h.budget; omega⟩

theorem Phase.running_empty (ps : List (ℕ × Poke)) :
    ({ pokes := ps } : Phase (ℕ × Poke) (ℕ × CheckMem)).Running :=
  ⟨by simp, by simp, by simp, le_refl _⟩

theorem two_mul_sum_div_two_le (l : List ℕ) : 2 * (l.map (· / 2)).sum ≤ l.sum := by
  induction l with
  | nil => simp
  | cons n l ih => simp only [List.map_cons, List.sum_cons]; omega

theorem Phase.Running.addWaits (h : p.Running) (ns : List ℕ) : (ns.foldl Phase.addWait p).Running := by
  rw [Phase.foldl_addWait]
  have := two_mul_sum_div_two_le (ns.filter (10 < ·))
  exact ⟨h.pokes_before_checks, h.offsets_sorted,
    fun y hy => Nat.le_add_right_of_le (h.offset_le y hy), by have := h.budget; simp only; omega⟩

theorem Phase.Running.addChecks (h : p.Running) {n : ℕ} (hn : ∀ x ∈ p.pokes, x.1 ≤ n)
    (cs : List CheckMem) : (p.addChecks (cs.map (n, ·))).Running := by
  refine ⟨?_, ?_, ?_, h.budget⟩
  · simp only [Phase.addChecks_pokes, Phase.addChecks_checks, List.mem_append, List.mem_map]
    rintro x hx y (hy | ⟨_, ⟨c, -, rfl⟩, rfl⟩)
    · exact h.pokes_before_checks x hx y hy
    · exact hn x hx
  · simp only [Phase.addChecks_checks, List.map_append, List.map_map]
    refine List.pairwise_append.2 ⟨h.offsets_sorted, ?_, ?_⟩
    · simp [List.Sorted, List.pairwise_map, Function.comp_def, List.Pairwise.imp, List.pairwise_of_forall]
    · simp only [List.mem_map, Function.comp_apply]
      rintro _ ⟨y, hy, rfl⟩ _ ⟨_, -, rfl⟩
      exact h.offset_le y hy
  · simp only [Phase.addChecks_checks, List.mem_append, List.mem_map]
    rintro y (hy | ⟨_, ⟨c, -, rfl⟩, rfl⟩)
    · exact h.offset_le y hy
    · exact le_refl _

theorem Phase.Running.addLevels (h : p.Running) (v : LineView (ℕ × Poke) (ℕ × CheckMem)) :
    (p.addLevels v).Running :=
  ⟨h.pokes_before_checks, h.offsets_sorted, h.offset_le, h.budget⟩

end running

/-- What the parser keeps true of its cursor, `pre` being the lines read so far. -/
structure Cursor.Shaped (pre : List (ℕ × Line)) (c : TCursor) : Prop where
  closed : ∀ p ∈ c.test.phases, p.WellFormed
  running : c.phase.Running
  read : ∀ x ∈ c.phase.pokes ++ c.pending, x.1 ∈ pre.map Prod.fst

section shaped

variable {pre : List (ℕ × Line)} {c : TCursor}

theorem Cursor.shaped_start (h : ℕ × String) : (Cursor.start h : TCursor).Shaped [] :=
  ⟨by simp [Cursor.start], Phase.running_empty [], by simp [Cursor.start]⟩

theorem Cursor.Shaped.onReset (h : c.Shaped pre) : c.onReset.Shaped pre := by
  unfold Cursor.onReset
  split
  · refine ⟨?_, Phase.running_empty _, fun x hx => h.read x (by simp_all)⟩
    simp only [List.mem_append, List.mem_singleton]
    rintro p (hp | rfl)
    exacts [h.closed p hp, h.running.wellFormed]
  · exact h

theorem Cursor.Shaped.addPokes (h : c.Shaped pre) (il : ℕ × Line) :
    (c.addPokes (tagView il).pokes).Shaped (pre ++ [il]) := by
  have hread : ∀ x ∈ (tagView il).pokes, x.1 ∈ (pre ++ [il]).map Prod.fst := by
    simp only [tagView_pokes, List.mem_map]
    rintro _ ⟨_, -, rfl⟩
    exact ⟨il, by simp⟩
  have hold : ∀ x ∈ c.phase.pokes ++ c.pending, x.1 ∈ (pre ++ [il]).map Prod.fst := fun x hx => by
    simpa using Or.inl (h.read x hx)
  unfold Cursor.addPokes
  split_ifs with hp hc
  · refine ⟨h.closed, h.running, fun x hx => ?_⟩
    simp only [List.mem_append] at hx hread hold ⊢
    rcases hx with hx | hx | hx
    exacts [hold x (.inl hx), hold x (.inr hx), hread x hx]
  · have hc' : c.phase.checks = [] := by simpa using hc
    refine ⟨h.closed, ⟨by simp [hc'], by simp [hc'], by simp [hc'], h.running.budget⟩, fun x hx => ?_⟩
    simp only [List.mem_append] at hx hread hold
    rcases hx with (hx | hx) | hx
    exacts [hold x (.inl hx), hread x hx, hold x (.inr hx)]
  · exact ⟨h.closed, h.running, hold⟩

theorem Cursor.Shaped.step {il : ℕ × Line} (hlt : ∀ jl ∈ pre, jl.1 < il.1) (h : c.Shaped pre) :
    (c.step (tagView il)).Shaped (pre ++ [il]) := by
  have h1 : (if il.2.reset then c.onReset else c).Shaped pre := by
    split
    exacts [h.onReset, h]
  have h2 := h1.addPokes il
  set c2 := (if il.2.reset then c.onReset else c).addPokes (tagView il).pokes
  have hn : ∀ x ∈ c2.phase.pokes, x.1 ≤ il.1 := fun x hx => by
    have := h2.read x (List.mem_append_left _ hx)
    simp only [List.map_append, List.mem_append, List.mem_map, List.mem_singleton] at this
    rcases this with ⟨jl, hj, hjx⟩ | ⟨_, rfl, hjx⟩
    · exact hjx ▸ (hlt jl hj).le
    · exact hjx.ge
  refine ⟨h2.closed, ?_, ?_⟩
  · simp only [Cursor.step, tagView_reset, tagView_checks]
    exact ((h2.running.addWaits _).addChecks (by rw [Phase.foldl_addWait]; exact hn) _).addLevels _
  · simp only [Cursor.step, tagView_reset, Phase.addLevels_pokes, Phase.addChecks_pokes,
      Phase.foldl_addWait]
    exact h2.read

end shaped

theorem parseBlock_wellFormed (h : ℕ × String) (R : List (ℕ × Line))
    (hR : R.Pairwise (·.1 < ·.1)) : ∀ p ∈ (parseBlock h (R.map tagView)).phases, p.WellFormed := by
  have hs := foldl_tagged_inv Cursor.Shaped (fun _ _ _ hlt hc => hc.step hlt) R [] (Cursor.start h)
    (by simpa using hR) (Cursor.shaped_start h)
  intro p hp
  unfold parseBlock Cursor.close at hp
  split at hp
  · simp only [List.mem_append, List.mem_singleton] at hp
    rcases hp with hp | rfl
    exacts [hs.closed p hp, hs.running.wellFormed]
  · exact hs.closed p hp

/-- **Every phase the parser builds is well formed.**  The tagged parse is the parse with each
directive tagged with its line, and in each of its phases no write comes from a line after a line
holding one of the phase's checks, the checks' cycle offsets are in order, and every offset is at
most `(cycles - 100) / 2`, where the budget `cycles` is at least 100. -/
theorem parseTagged_wellFormed (lines : List Line) :
    (parseTagged lines).map (Test.map Prod.snd Prod.snd) = parseVhdlTestbench lines ∧
      ∀ T ∈ parseTagged lines, ∀ p ∈ T.phases, p.WellFormed := by
  refine ⟨parseTagged_erase lines, ?_⟩
  rw [parseTagged_eq_blocks]
  simp only [List.mem_map]
  rintro _ ⟨b, hb, rfl⟩
  exact parseBlock_wellFormed b.1 b.2 (numberedBlocks_sorted lines b hb)

end M65832Tb
