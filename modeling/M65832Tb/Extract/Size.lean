import M65832Tb.Extract.Text
import M65832Tb.Extract.Conservation
import Mathlib.Algebra.Order.BigOperators.Group.List

/-!
# How much the extractor reads from a text

`main` prints counts of what the parser returns: the tests, and for a test its phases, its writes,
its checks and the checks it passed and failed.  Python's `str` writes a count of more than
`intMaxStrDigits` digits only by raising, so whether these prints can raise depends on how large
the counts can be.  They are all bounded by the length of the text:

* a line holds at most as many matches of a pattern as it has characters
  (`Pattern.finditer_length_le`), so a line spells at most four writes and checks per character
  (`Line.size_ofText`);
* the parser returns no more writes and checks than the lines spell (`parse_size_le`): a test
  holds the writes and checks of the lines after its header, less the held-back writes
  (`parseBlock_accounts`), and the tests' lines are disjoint;
* every phase holds a write or a check, so a test has no more phases than writes and checks
  (`phases_length_le`), and there is one test per header line (`parse_length_le`).

On a text of `n` characters the parser therefore returns at most `n + 1` tests, holding at most
`4 * n` writes and checks in all (`parseText_size`).
-/

namespace M65832Tb

/-! ### Matches on a line -/

theorem Pattern.scan_length_le (P : Pattern) (pos n : ℕ) (u : List Char) :
    (P.scan pos n u).length ≤ n := by
  induction n generalizing pos u with
  | zero => simp [Pattern.scan]
  | succ n ih =>
    cases u with
    | nil => simp [Pattern.scan]
    | cons c s =>
      simp only [Pattern.scan]
      split
      · exact Nat.succ_le_succ (ih _ _)
      · exact (ih _ _).trans (Nat.le_succ n)

theorem Pattern.finditer_length_le (P : Pattern) (s : List Char) : (P.finditer s).length ≤ s.length :=
  P.scan_length_le 0 _ s

/-- The writes and checks a line holds for the parser. -/
def Line.size (l : Line) : ℕ := l.pokesOnLine.length + l.checks.length

theorem length_flatMap_expandPoke16 (ws : List (ℕ × ℕ)) :
    (ws.flatMap expandPoke16).length = 2 * ws.length := by
  induction ws with
  | nil => rfl
  | cons w ws ih => simp [List.flatMap_cons, expandPoke16, ih]; omega

theorem Line.size_ofText (s : List Char) : (Line.ofText s).size ≤ 4 * s.length := by
  have h16 := poke16Pat.finditer_length_le s
  have hp := pokePat.finditer_length_le s
  have hc := checkPat.finditer_length_le s
  have hl : (if (Line.ofText s).mentionsPoke16 then [] else (Line.ofText s).pokes).length ≤
      (Line.ofText s).pokes.length := by
    split <;> simp
  simp only [Line.size, Line.pokesOnLine, List.length_append, length_flatMap_expandPoke16] at hl ⊢
  simp only [Line.ofText, List.length_map] at hl ⊢
  omega

/-! ### The parser returns no more than the lines hold -/

/-- The writes and checks of a test. -/
def Test.size {P C : Type} (t : Test P C) : ℕ :=
  (t.phases.flatMap Phase.pokes).length + (t.phases.flatMap Phase.checks).length

theorem Test.size_map {P C P' C' : Type} (f : P → P') (g : C → C') (t : Test P C) :
    (t.map f g).size = t.size := by
  simp [Test.size, Test.map, Phase.map, List.length_flatMap, Function.comp_def]

theorem Test.allChecks_length_le (t : Test Poke CheckMem) : t.allChecks.length ≤ t.size := by
  simp [Test.size, Test.allChecks, List.length_flatMap, Function.comp_def]

theorem blockWrites_length (R : List (ℕ × Line)) :
    (blockWrites R).length = (R.map fun il => il.2.pokesOnLine.length).sum := by
  simp [blockWrites, List.length_flatMap, Function.comp_def]

theorem blockChecks_length (R : List (ℕ × Line)) :
    (blockChecks R).length = (R.map fun il => il.2.checks.length).sum := by
  simp [blockChecks, List.length_flatMap, Function.comp_def]

theorem parseBlock_size (h : ℕ × String) (R : List (ℕ × Line)) (hR : R.Pairwise (·.1 < ·.1)) :
    (parseBlock h (R.map tagView)).size ≤ (R.map fun il => il.2.size).sum := by
  obtain ⟨hc, hp⟩ := parseBlock_accounts h R hR
  have h1 : ((parseBlock h (R.map tagView)).phases.flatMap Phase.pokes).length ≤
      (R.map fun il => il.2.pokesOnLine.length).sum := by
    rw [← blockWrites_length, ← hp, List.length_append]
    omega
  have h2 : ((parseBlock h (R.map tagView)).phases.flatMap Phase.checks).length =
      (R.map fun il => il.2.checks.length).sum := by
    rw [← blockChecks_length, ← hc]
    simp [List.length_flatMap, Function.comp_def]
  simp only [Test.size, Line.size, List.sum_map_add]
  omega

theorem sum_map_flatMap {α β : Type} (L : List α) (f : α → List β) (g : β → ℕ) :
    ((L.flatMap f).map g).sum = (L.map fun a => ((f a).map g).sum).sum := by
  induction L with
  | nil => rfl
  | cons a L ih => simp [List.flatMap_cons, ih]

theorem splitBlocks_flatMap_sublist {α H : Type} (hdr : α → Option H) (as : List α) :
    List.Sublist ((splitBlocks hdr as).1 ++ (splitBlocks hdr as).2.flatMap Prod.snd) as := by
  induction as with
  | nil => simp [splitBlocks]
  | cons a as ih =>
    cases h : hdr a
    · simpa [splitBlocks, h] using ih.cons_cons a
    · simpa [splitBlocks, h] using ih.cons a

/-- **The parser returns no more writes and checks than the lines hold.** -/
theorem parse_size_le (lines : List Line) :
    ((parseVhdlTestbench lines).map Test.size).sum ≤ (lines.map Line.size).sum := by
  have hsub : List.Sublist ((numberedBlocks lines).flatMap Prod.snd) lines.enum :=
    (List.sublist_append_right _ _).trans (splitBlocks_flatMap_sublist _ lines.enum)
  calc ((parseVhdlTestbench lines).map Test.size).sum
      = ((numberedBlocks lines).map fun b => (parseBlock b.1 (b.2.map tagView)).size).sum := by
        rw [← parseTagged_erase, parseTagged_eq_blocks, List.map_map, List.map_map]
        simp only [Function.comp_def, Test.size_map]
    _ ≤ ((numberedBlocks lines).map fun b => (b.2.map fun il => il.2.size).sum).sum :=
        List.sum_le_sum fun b hb => parseBlock_size b.1 b.2 (numberedBlocks_sorted lines b hb)
    _ = (((numberedBlocks lines).flatMap Prod.snd).map fun il => il.2.size).sum := by
        rw [sum_map_flatMap]
    _ ≤ (lines.enum.map fun il => il.2.size).sum :=
        (hsub.map _).sum_le_sum fun _ _ => Nat.zero_le _
    _ = (lines.map Line.size).sum := by
        rw [← List.enum_map_snd lines, List.map_map, List.enum_map_snd]
        rfl

/-- Every phase of a test the parser returns holds a write or a check. -/
theorem phases_length_le {lines : List Line} {T : Test Poke CheckMem}
    (hT : T ∈ parseVhdlTestbench lines) : T.phases.length ≤ T.size := by
  rw [parseVhdlTestbench, parseViews_eq_blocks, List.mem_map] at hT
  obtain ⟨b, -, rfl⟩ := hT
  have hne := (parseBlock_spec b.1 b.2).2
  simp only [Test.size, List.length_flatMap, ← List.sum_map_add]
  calc (parseBlock b.1 b.2).phases.length = ((parseBlock b.1 b.2).phases.map fun _ => 1).sum := by
        simp
    _ ≤ _ := List.sum_le_sum fun p hp => by
        rcases hne p hp with h | h
        · exact (List.length_pos.2 h).trans_le (Nat.le_add_right _ _)
        · exact (List.length_pos.2 h).trans_le (Nat.le_add_left _ _)

theorem splitBlocks_length_le {α H : Type} (hdr : α → Option H) (as : List α) :
    (splitBlocks hdr as).2.length ≤ as.length := by
  induction as with
  | nil => simp [splitBlocks]
  | cons a as ih => cases h : hdr a <;> simp [splitBlocks, h] <;> omega

/-- One test per header: no more tests than lines. -/
theorem parse_length_le (lines : List Line) : (parseVhdlTestbench lines).length ≤ lines.length := by
  rw [parseVhdlTestbench, parseViews_eq_blocks, List.length_map]
  simpa using splitBlocks_length_le LineView.test (lines.map Line.view)

/-! ### The lines of a text -/

theorem splitOn_size (content : List Char) :
    ((content.splitOn '\n').map List.length).sum ≤ content.length ∧
      (content.splitOn '\n').length ≤ content.length + 1 := by
  induction content with
  | nil => simp
  | cons c s ih =>
    simp only [List.splitOn, List.splitOnP_cons] at ih ⊢
    split
    · simp only [List.map_cons, List.sum_cons, List.length_nil, List.length_cons]
      omega
    · obtain ⟨x, xs, hx⟩ := List.exists_cons_of_ne_nil (List.splitOnP_ne_nil (· == '\n') s)
      rw [hx] at ih ⊢
      simp only [List.modifyHead, List.map_cons, List.sum_cons, List.length_cons] at ih ⊢
      omega

/-- **On a text of `n` characters the parser returns at most `n + 1` tests, which hold at most
`4 * n` writes and checks.** -/
theorem parseText_size (content : List Char) :
    ((parseVhdlTestbenchText content).map Test.size).sum ≤ 4 * content.length ∧
      (parseVhdlTestbenchText content).length ≤ content.length + 1 := by
  obtain ⟨hs, hl⟩ := splitOn_size content
  refine ⟨(parse_size_le _).trans ?_, (parse_length_le _).trans (by simpa using hl)⟩
  rw [List.map_map]
  calc (((content.splitOn '\n').map (Line.size ∘ Line.ofText))).sum
      ≤ ((content.splitOn '\n').map fun l => 4 * l.length).sum :=
        List.sum_le_sum fun l _ => Line.size_ofText l
    _ ≤ 4 * content.length := by
        rw [List.sum_map_mul_left]
        omega

theorem size_le_of_mem {content : List Char} {t : Test Poke CheckMem}
    (ht : t ∈ parseVhdlTestbenchText content) : t.size ≤ 4 * content.length :=
  (List.le_sum_of_mem (List.mem_map_of_mem Test.size ht)).trans (parseText_size content).1

theorem Test.phase_size_le {t : Test Poke CheckMem} {p : Phase Poke CheckMem} (hp : p ∈ t.phases) :
    p.pokes.length + p.checks.length ≤ t.size := by
  have h1 := List.le_sum_of_mem (List.mem_map_of_mem (fun p : Phase Poke CheckMem => p.pokes.length) hp)
  have h2 := List.le_sum_of_mem (List.mem_map_of_mem (fun p : Phase Poke CheckMem => p.checks.length) hp)
  simp only [Test.size, List.length_flatMap, Function.comp_def] at h1 h2 ⊢
  omega

/-! ### The counts `main` prints -/

/-- A count at most `24` times the length of the text, and one more, has at most
`intMaxStrDigits` digits when the text has fewer than `10 ^ (intMaxStrDigits - 2)` characters. -/
theorem strFits_of_le {n len : ℕ} (hlen : len < 10 ^ (intMaxStrDigits - 2)) (h : n ≤ 24 * len + 1) :
    strFits n = true := by
  have h100 : 10 ^ intMaxStrDigits = 10 ^ 2 * 10 ^ (intMaxStrDigits - 2) := by
    rw [← pow_add]
    congr 1
  simp only [strFits, h100, Nat.reducePow, decide_eq_true_eq]
  omega

theorem vectorPokes_length_le (ps : List Poke) : (vectorPokes ps).length ≤ ps.length + 5 := by
  have := List.length_filter_le (fun p : Poke => decide (p.1 ∉ [0xFFFC, 0xFFFD])) ps
  simp only [vectorPokes, irqDefaults, List.length_append, List.length_cons]
  split_ifs <;> simp only [List.length_cons, List.length_nil] <;> omega

/-- After `run_phase` a phase holds at most five writes beyond its own. -/
theorem vectorPokes_sum_le (ps : List (Phase Poke CheckMem)) :
    (ps.map fun p => (vectorPokes p.pokes).length).sum ≤
      (ps.flatMap Phase.pokes).length + 5 * ps.length := by
  induction ps with
  | nil => simp
  | cons p ps ih =>
    have := vectorPokes_length_le p.pokes
    simp only [List.map_cons, List.sum_cons, List.flatMap_cons, List.length_append, List.length_cons]
    omega

section counts

variable {content : List Char} {t : Test Poke CheckMem}

/-- On a text of fewer than `10 ^ (intMaxStrDigits - 2)` characters, a count of the writes or
checks of a test the parser returns can be printed. -/
theorem size_fits (hlen : content.length < 10 ^ (intMaxStrDigits - 2))
    (ht : t ∈ parseVhdlTestbenchText content) {n : ℕ} (hn : n ≤ t.size) : strFits n = true :=
  strFits_of_le hlen (hn.trans ((size_le_of_mem ht).trans (by omega)))

/-- The summary line of `run_emulator_test_v2` can be printed exactly when the test's total cycles
can: the writes and phases it counts are bounded by the text. -/
theorem summaryCounts_fit (hlen : content.length < 10 ^ (intMaxStrDigits - 2))
    (ht : t ∈ parseVhdlTestbenchText content) :
    (summaryCounts t).all strFits = strFits t.cycles := by
  have hp := phases_length_le ht
  have hv := vectorPokes_sum_le t.phases
  have h24 := size_le_of_mem ht
  simp only [Test.size] at hp h24
  simp only [summaryCounts, List.all_cons, List.all_nil, Bool.and_true,
    strFits_of_le hlen (show (t.phases.map fun p => (vectorPokes p.pokes).length).sum ≤
      24 * content.length + 1 by omega),
    strFits_of_le hlen (show t.phases.length ≤ 24 * content.length + 1 by omega), Bool.true_and]

end counts

end M65832Tb
