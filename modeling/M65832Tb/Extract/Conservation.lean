import M65832Tb.Extract.Segment

/-!
# No directive of a test is lost or reordered, except the held-back writes

Within a test, `parse_vhdl_testbench` never drops, duplicates or reorders a check: the phases'
checks, concatenated, are the `check_mem` directives of the test's lines in text order
(`parseTagged_directives`, first part).

Writes are another matter.  A write that comes after a check of the open phase is held back in
`pending_pokes`, for the phase that the next reset line opens.  When the test ends before such a
reset line, the header of the next test or the end of the text discards them.  The writes the
phases keep are therefore the test's writes with that tail left out: those on lines after the line
of the last phase's first check and not followed by any reset line (`heldBack`).  And a line whose
text mentions `poke16` contributes only its word writes (`Line.pokesOnLine`).

Both are stated on the tagged parse, one block of lines per test, with `Cursor.Accounts` as the
invariant of the loop.
-/

namespace M65832Tb

/-- The writes of numbered lines, each tagged with its line, in text order. -/
def blockWrites (R : List (ℕ × Line)) : List (ℕ × Poke) :=
  R.flatMap fun il => (tagView il).pokes

/-- The checks of numbered lines, each tagged with its line, in text order. -/
def blockChecks (R : List (ℕ × Line)) : List (ℕ × CheckMem) :=
  R.flatMap fun il => (tagView il).checks

/-- The line of the first check of a phase. -/
def Phase.firstCheckLine {P C : Type} (p : Phase P (ℕ × C)) : Option ℕ :=
  p.checks.head?.map (·.1.1)

/-- A write on line `i` is held back at the end of the lines `R` when it comes after the line `f`
of the first check of the open phase and no line of `R` after it resets. -/
def heldBack (f : Option ℕ) (R : List (ℕ × Line)) (i : ℕ) : Bool :=
  f.any (· < i) && R.all fun jl => !jl.2.reset || decide (jl.1 ≤ i)

/-- The line from which a test's writes are held back: the first check of its last phase. -/
def Test.heldBackFrom {P C : Type} (T : Test P (ℕ × C)) : Option ℕ :=
  T.phases.getLast?.bind Phase.firstCheckLine

section lemmas

variable {pre : List (ℕ × Line)} {il : ℕ × Line}

@[simp] theorem blockWrites_append_singleton :
    blockWrites (pre ++ [il]) = blockWrites pre ++ (tagView il).pokes := by
  simp [blockWrites]

@[simp] theorem blockChecks_append_singleton :
    blockChecks (pre ++ [il]) = blockChecks pre ++ (tagView il).checks := by
  simp [blockChecks]

theorem fst_lt_of_mem_blockWrites (hlt : ∀ jl ∈ pre, jl.1 < il.1) {x : ℕ × Poke}
    (hx : x ∈ blockWrites pre) : x.1 < il.1 := by
  simp only [blockWrites, tagView_pokes, List.mem_flatMap, List.mem_map] at hx
  obtain ⟨jl, hj, _, -, rfl⟩ := hx
  exact hlt jl hj

theorem fst_lt_of_mem_blockChecks (hlt : ∀ jl ∈ pre, jl.1 < il.1) {y : ℕ × CheckMem}
    (hy : y ∈ blockChecks pre) : y.1 < il.1 := by
  simp only [blockChecks, tagView_checks, List.mem_flatMap, List.mem_map] at hy
  obtain ⟨jl, hj, _, -, rfl⟩ := hy
  exact hlt jl hj

/-- Held back after one more line: a write of the earlier lines stays held back unless the line
resets, and a write of the line itself is held back when it follows the phase's first check. -/
theorem filter_heldBack_append (f : Option ℕ) (hlt : ∀ jl ∈ pre, jl.1 < il.1) :
    (blockWrites (pre ++ [il])).filter (fun x => heldBack f (pre ++ [il]) x.1) =
      (if il.2.reset then [] else (blockWrites pre).filter fun x => heldBack f pre x.1) ++
        if f.any (· < il.1) then (tagView il).pokes else [] := by
  rw [blockWrites_append_singleton, List.filter_append]
  congr 1
  · have : ∀ x ∈ blockWrites pre,
        heldBack f (pre ++ [il]) x.1 = (heldBack f pre x.1 && !il.2.reset) := fun x hx => by
      have := fst_lt_of_mem_blockWrites hlt hx
      simp [heldBack, List.all_append, Bool.and_assoc, Nat.not_le.2 this]
    rw [List.filter_congr this]
    cases il.2.reset <;> simp
  · have : ∀ x ∈ (tagView il).pokes, heldBack f (pre ++ [il]) x.1 = f.any (· < il.1) :=
      fun x hx => by
        simp only [tagView_pokes, List.mem_map] at hx
        obtain ⟨_, -, rfl⟩ := hx
        have hall : (pre.all fun jl => !jl.2.reset || decide (jl.1 ≤ il.1)) = true :=
          List.all_eq_true.2 fun jl hj => by simp [(hlt jl hj).le]
        simp [heldBack, List.all_append, hall]
    rw [List.filter_congr this]
    cases f.any (· < il.1) <;> simp

/-- When the phase has its first check on the line itself, or none, nothing is held back. -/
theorem filter_heldBack_eq_nil {f : Option ℕ} (hf : ∀ i ≤ il.1, f.any (· < i) = false)
    (hlt : ∀ jl ∈ pre, jl.1 < il.1) :
    (blockWrites (pre ++ [il])).filter (fun x => heldBack f (pre ++ [il]) x.1) = [] := by
  rw [filter_heldBack_append f hlt, hf il.1 le_rfl]
  split
  · rfl
  · simp only [Bool.false_eq_true, ↓reduceIte, List.append_nil, List.filter_eq_nil_iff]
    intro x hx
    simp [heldBack, hf x.1 (fst_lt_of_mem_blockWrites hlt hx).le]

@[simp] theorem Phase.foldl_addWait_firstCheckLine {P C : Type} (ns : List ℕ) (p : Phase P (ℕ × C)) :
    (ns.foldl Phase.addWait p).firstCheckLine = p.firstCheckLine := by
  simp [Phase.firstCheckLine]

@[simp] theorem Cursor.addPokes_firstCheckLine {P C : Type} (ps : List P) (c : Cursor P (ℕ × C)) :
    (c.addPokes ps).phase.firstCheckLine = c.phase.firstCheckLine := by
  simp [Phase.firstCheckLine]

@[simp] theorem Phase.addLevels_firstCheckLine {P C : Type} (v : LineView P (ℕ × C))
    (p : Phase P (ℕ × C)) : (p.addLevels v).firstCheckLine = p.firstCheckLine := rfl

theorem Phase.firstCheckLine_addChecks {P C : Type} (p : Phase P (ℕ × C)) (cs : List (ℕ × C)) :
    (p.addChecks cs).firstCheckLine =
      if p.checks.isEmpty then (cs.head?.map (·.1)) else p.firstCheckLine := by
  cases h : p.checks <;> simp [Phase.firstCheckLine, h, Phase.addChecks_checks]
  cases cs <;> rfl

end lemmas

/-! ### The invariant of the loop -/

/-- What the loop keeps of the directives read so far, `pre`: every write and every check is in a
finished phase, the open phase or the held-back writes, in text order; the held-back writes are
exactly those `heldBack` names; and after a phase is finished the open one has a write. -/
structure Cursor.Accounts (pre : List (ℕ × Line)) (c : TCursor) : Prop where
  pokes : c.test.phases.flatMap Phase.pokes ++ c.phase.pokes ++ c.pending = blockWrites pre
  checks : c.test.phases.flatMap (fun p => p.checks.map Prod.fst) ++ c.phase.checks.map Prod.fst =
    blockChecks pre
  pending : c.pending = (blockWrites pre).filter fun x => heldBack c.phase.firstCheckLine pre x.1
  open_pokes : c.test.phases ≠ [] → c.phase.pokes ≠ []

section accounts

variable {pre : List (ℕ × Line)} {il : ℕ × Line} {c : TCursor}

theorem Cursor.accounts_start (h : ℕ × String) : (Cursor.start h : TCursor).Accounts [] :=
  ⟨rfl, rfl, rfl, fun h => absurd rfl h⟩

theorem Cursor.Accounts.pending_nil (h : c.Accounts pre) (hc : c.phase.checks = []) :
    c.pending = [] := by
  rw [h.pending, Phase.firstCheckLine, hc]; simp [heldBack]

theorem Cursor.Accounts.firstCheckLine_lt (h : c.Accounts pre) (hlt : ∀ jl ∈ pre, jl.1 < il.1)
    {f : ℕ} (hf : c.phase.firstCheckLine = some f) : f < il.1 := by
  obtain ⟨y, hy, rfl⟩ : ∃ y ∈ c.phase.checks, y.1.1 = f := by
    simp only [Phase.firstCheckLine, Option.map_eq_some'] at hf
    obtain ⟨y, hy, rfl⟩ := hf
    exact ⟨y, List.mem_of_mem_head? hy, rfl⟩
  apply fst_lt_of_mem_blockChecks hlt
  rw [← h.checks]
  exact List.mem_append_right _ (List.mem_map_of_mem _ hy)

/-- The reset part of the loop body: a reset line discards nothing, and afterwards either the
cursor is unchanged or its phase has no check and nothing is held back. -/
theorem Cursor.Accounts.onReset (h : c.Accounts pre) (r : Bool) :
    let c1 := if r then c.onReset else c
    c1.test.phases.flatMap Phase.pokes ++ c1.phase.pokes ++ c1.pending = blockWrites pre ∧
      c1.test.phases.flatMap (fun p => p.checks.map Prod.fst) ++ c1.phase.checks.map Prod.fst =
        blockChecks pre ∧
      c1.pending = (if r then [] else c.pending) ∧
      (c1 = c ∨ c1.phase.checks = [] ∧ c1.pending = []) ∧
      (c1.test.phases ≠ [] → c1.phase.pokes ≠ []) := by
  cases r
  · exact ⟨h.pokes, h.checks, rfl, .inl rfl, h.open_pokes⟩
  · simp only [if_true]
    unfold Cursor.onReset
    split
    · rename_i hf
      simp only [Bool.and_eq_true, Bool.not_eq_true', List.isEmpty_eq_false] at hf
      refine ⟨?_, ?_, rfl, .inr ⟨rfl, rfl⟩, fun _ => hf.1⟩
      · simpa [List.append_assoc] using h.pokes
      · simpa [List.append_assoc] using h.checks
    · rename_i hf
      have hp : c.pending = [] := by
        by_cases hc : c.phase.checks = []
        · exact h.pending_nil hc
        · simpa [hc] using hf
      exact ⟨h.pokes, h.checks, hp, .inl rfl, h.open_pokes⟩

theorem Cursor.Accounts.step (hlt : ∀ jl ∈ pre, jl.1 < il.1) (h : c.Accounts pre) :
    (c.step (tagView il)).Accounts (pre ++ [il]) := by
  have hr := h.onReset il.2.reset
  simp only [Cursor.step, tagView_reset]
  set c1 := if il.2.reset then c.onReset else c
  obtain ⟨hpk, hck, hpd, hc1, hne⟩ := hr
  have hpd1 : c1.phase.checks = [] → c1.pending = [] := fun he =>
    hc1.elim (fun e => e ▸ h.pending_nil (e ▸ he)) (·.2)
  refine ⟨?_, ?_, ?_, ?_⟩
  · simp only [Phase.addLevels_pokes, Phase.addChecks_pokes, Phase.foldl_addWait_pokes,
      Cursor.addPokes_test, Cursor.addPokes_pokes, Cursor.addPokes_pending,
      blockWrites_append_singleton, ← hpk]
    cases he : c1.phase.checks.isEmpty
    · simp [List.append_assoc]
    · simp [hpd1 (List.isEmpty_iff.1 he)]
  · simp [Phase.foldl_addWait, ← hck, Function.comp_def]
  · simp only [Phase.addLevels_firstCheckLine, Phase.firstCheckLine_addChecks,
      Phase.foldl_addWait_checks, Cursor.addPokes_pending, Cursor.addPokes_checks]
    cases he : c1.phase.checks.isEmpty
    · have e : c1 = c := hc1.resolve_right fun h' => by simp [h'.1] at he
      have hne' : c.phase.checks ≠ [] := e ▸ List.isEmpty_eq_false.1 he
      obtain ⟨y, ys, hch⟩ := List.exists_cons_of_ne_nil hne'
      have hf : c.phase.firstCheckLine = some y.1.1 := by simp [Phase.firstCheckLine, hch]
      have hf' : c1.phase.firstCheckLine = some y.1.1 := e ▸ hf
      simp only [hf', Bool.false_eq_true, ite_false]
      rw [filter_heldBack_append _ hlt, hpd, h.pending, hf]
      simp [hf', h.firstCheckLine_lt hlt hf]
    · simp only [ite_true, List.append_nil, hpd1 (List.isEmpty_iff.1 he)]
      refine (filter_heldBack_eq_nil (fun i hi => ?_) hlt).symm
      rw [tagView_checks]
      cases il.2.checks <;> simp [Nat.not_lt.2 hi]
  · simp only [Cursor.addPokes_test, Phase.addLevels_pokes, Phase.addChecks_pokes,
      Phase.foldl_addWait_pokes, Cursor.addPokes_pokes]
    exact fun hph hnil => hne hph (List.append_eq_nil.1 hnil).1

end accounts

/-- A test read from the lines `R` after its header accounts for every one of their directives. -/
theorem parseBlock_accounts (h : ℕ × String) (R : List (ℕ × Line))
    (hR : R.Pairwise (·.1 < ·.1)) :
    (parseBlock h (R.map tagView)).phases.flatMap (fun p => p.checks.map Prod.fst) = blockChecks R ∧
      (parseBlock h (R.map tagView)).phases.flatMap Phase.pokes ++
          (blockWrites R).filter (fun x => heldBack (parseBlock h (R.map tagView)).heldBackFrom R x.1) =
        blockWrites R := by
  have hc := foldl_tagged_inv Cursor.Accounts (fun _ _ _ hlt hc => hc.step hlt) R [] (Cursor.start h)
    (by simpa using hR) (Cursor.accounts_start h)
  simp only [List.nil_append] at hc
  unfold parseBlock Cursor.close
  set c := (R.map tagView).foldl Cursor.step (Cursor.start h)
  split
  · simp only [List.flatMap_append, List.flatMap_singleton, Test.heldBackFrom, List.getLast?_concat,
      Option.some_bind, ← hc.pending]
    exact ⟨hc.checks, hc.pokes⟩
  · rename_i he
    simp only [Bool.or_eq_true, Bool.not_eq_true', List.isEmpty_eq_false, not_or, not_not] at he
    have hph : c.test.phases = [] := by_contra fun hne => hc.open_pokes hne he.1
    have hpd := hc.pending_nil he.2
    refine ⟨by simpa [he.2] using hc.checks, ?_⟩
    simpa [hph, he.1, hpd, Test.heldBackFrom, heldBack] using hc.pokes

/-- **Within a test, no check is lost or reordered, and the only writes lost are those held back
at its end.**  For each header of the text and the lines after it up to the next header, the
parser returns one test (in the same order), whose phases' checks, concatenated, are the checks of
those lines in text order, each tagged with its line; and whose phases' writes, followed by the
held-back writes, are the lines' writes in text order, `Line.pokesOnLine` giving a line's writes. -/
theorem parseTagged_directives (lines : List Line) :
    (parseTagged lines).map (Test.map Prod.snd Prod.snd) = parseVhdlTestbench lines ∧
      List.Forall₂ (fun (b : (ℕ × String) × List (ℕ × Line)) T =>
          T.phases.flatMap (fun p => p.checks.map Prod.fst) = blockChecks b.2 ∧
            T.phases.flatMap Phase.pokes ++
                (blockWrites b.2).filter (fun x => heldBack T.heldBackFrom b.2 x.1) =
              blockWrites b.2)
        (numberedBlocks lines) (parseTagged lines) := by
  refine ⟨parseTagged_erase lines, ?_⟩
  rw [parseTagged_eq_blocks, List.forall₂_map_right_iff, List.forall₂_same]
  exact fun b hb => parseBlock_accounts b.1 b.2 (numberedBlocks_sorted lines b hb)

end M65832Tb
