import M65832Tb.Convert.Program

/-!
# Processing the ranges last first keeps every index valid

`convert_sub_program` reads and writes the file only inside its range, and what it puts there
depends only on the range's own lines: on a file `A ++ B ++ C` with the range `B`, it returns
`A ++ B' ++ C`, where `B'` is what it does to `B` alone (`convertSubProgram_append`).  That is the
locality the converter relies on.

The sub-program ranges of the file are in file order, none overlapping the next
(`allRanges_ordered`).  Converting them last first therefore gives the file with every range
replaced by the rewrite of its original lines (`convertMain_splices`): no rewrite changes, drops
or moves a line that another rewrite reads.
-/

namespace M65832Tb

/-! ### A range inside a file -/

section middle

variable {α : Type} (A B C : List α)

theorem getD_middle {i : ℕ} (d : α) (h : i < B.length) :
    (A ++ B ++ C).getD (A.length + i) d = B.getD i d := by
  rw [List.getD_eq_getElem?_getD, List.getD_eq_getElem?_getD, List.append_assoc,
    List.getElem?_append_right (Nat.le_add_right _ _), Nat.add_sub_cancel_left,
    List.getElem?_append_left h]

theorem set_middle {i : ℕ} (x : α) (h : i < B.length) :
    (A ++ B ++ C).set (A.length + i) x = A ++ B.set i x ++ C := by
  simp [List.append_assoc, List.set_append, h]

theorem take_middle {k : ℕ} (h : k ≤ B.length) :
    (A ++ B ++ C).take (A.length + k) = A ++ B.take k := by
  rw [List.append_assoc, List.take_append, List.take_append_of_le_length h]

theorem drop_middle {k : ℕ} (h : k ≤ B.length) :
    (A ++ B ++ C).drop (A.length + k) = B.drop k ++ C := by
  rw [List.append_assoc, List.drop_append, List.drop_append_of_le_length h]

end middle

/-- Indices of `B` moved to its place in `A ++ B ++ C`. -/
def offsetLines (s : ℕ) (r : List (ℕ × CLine)) : List (ℕ × CLine) := r.map fun il => (s + il.1, il.2)

theorem rangeLines_append (A B C : List CLine) :
    rangeLines (A ++ B ++ C) A.length (A.length + B.length) =
      offsetLines A.length (rangeLines B 0 B.length) := by
  simp only [rangeLines, offsetLines, Nat.add_sub_cancel_left, Nat.sub_zero,
    List.range'_eq_map_range, List.map_map]
  refine List.map_congr_left fun j hj => ?_
  simp only [Function.comp, Nat.zero_add, Prod.mk.injEq, true_and]
  exact getD_middle A B C _ (List.mem_range.1 hj)

section offset

variable (L s : ℕ) (r : List (ℕ × CLine))

theorem replaceLines_offset : replaceLines L (offsetLines s r) = (replaceLines L r).map (s + ·) := by
  simp [replaceLines, offsetLines, List.filter_map, Function.comp_def]

theorem shiftLines_offset : shiftLines L (offsetLines s r) = (shiftLines L r).map (s + ·) := by
  simp [shiftLines, offsetLines, List.filter_map, Function.comp_def]

theorem flatMap_pokes_offset :
    (offsetLines s r).flatMap (fun il => il.2.pokes) = r.flatMap fun il => il.2.pokes := by
  simp [offsetLines, List.flatMap, Function.comp_def]

end offset

theorem lt_of_mem_replaceLines {L : ℕ} {B : List CLine} {i : ℕ}
    (h : i ∈ replaceLines L (rangeLines B 0 B.length)) : i < B.length := by
  simp only [replaceLines, rangeLines, List.mem_map, List.mem_filter, List.mem_range'] at h
  obtain ⟨_, ⟨⟨⟨j, hj, rfl⟩, -⟩, -⟩, rfl⟩ := h
  simpa using hj

theorem lt_of_mem_shiftLines {L : ℕ} {B : List CLine} {i : ℕ}
    (h : i ∈ shiftLines L (rangeLines B 0 B.length)) : i < B.length := by
  simp only [shiftLines, rangeLines, List.mem_map, List.mem_filter, List.mem_range'] at h
  obtain ⟨_, ⟨⟨⟨j, hj, rfl⟩, -⟩, -⟩, rfl⟩ := h
  simpa using hj

theorem min?_map_add (s : ℕ) (l : List ℕ) : (l.map (s + ·)).min? = l.min?.map (s + ·) := by
  induction l with
  | nil => rfl
  | cons x xs ih =>
    rw [List.map_cons, List.min?_cons, List.min?_cons, ih]
    cases xs.min? <;> simp [Nat.add_min_add_left]

theorem max?_map_add (s : ℕ) (l : List ℕ) : (l.map (s + ·)).max? = l.max?.map (s + ·) := by
  induction l with
  | nil => rfl
  | cons x xs ih =>
    rw [List.map_cons, List.max?_cons, List.max?_cons, ih]
    cases xs.max? <;> simp [Nat.add_max_add_left]

theorem length_shiftAt (p : ModePattern) (idx : List ℕ) (lines : List CLine) :
    (shiftAt p idx lines).length = lines.length := by
  unfold shiftAt
  split_ifs
  · induction idx generalizing lines with
    | nil => rfl
    | cons i idx ih => rw [List.foldl_cons, ih, List.length_set]
  · rfl

section append

variable (A B C : List CLine)

theorem shiftAt_append (p : ModePattern) (idx : List ℕ) (h : ∀ i ∈ idx, i < B.length) :
    shiftAt p (idx.map (A.length + ·)) (A ++ B ++ C) = A ++ shiftAt p idx B ++ C := by
  unfold shiftAt
  split_ifs
  · induction idx generalizing B with
    | nil => rfl
    | cons i idx ih =>
      have hi := h i (List.mem_cons_self _ _)
      simp only [List.map_cons, List.foldl_cons]
      rw [getD_middle A B C _ hi, set_middle A B C _ hi]
      exact ih _ fun j hj => (List.length_set B i _).symm ▸ h j (List.mem_cons_of_mem _ hj)
  · rfl

theorem spliceNew_append (new : List CLine) (rep : List ℕ) (h : ∀ i ∈ rep, i < B.length) :
    spliceNew A.length new (rep.map (A.length + ·)) (A ++ B ++ C) = A ++ spliceNew 0 new rep B ++ C := by
  unfold spliceNew
  rw [min?_map_add, max?_map_add]
  cases hmin : rep.min? with
  | none => simp
  | some f =>
    cases hmax : rep.max? with
    | none => simp
    | some l =>
      have hf : f < B.length := h f (List.min?_mem (fun a b => by omega) hmin)
      have hl : l < B.length := h l (List.max?_mem (fun a b => by omega) hmax)
      have hfirst : (if A.length < A.length + f ∧ ((A ++ B ++ C).getD (A.length + f - 1) {}).oldComment
            then A.length + f - 1 else A.length + f) =
          A.length + if 0 < f ∧ (B.getD (f - 1) {}).oldComment then f - 1 else f := by
        by_cases hf0 : 0 < f
        · rw [show A.length + f - 1 = A.length + (f - 1) by omega, getD_middle A B C _ (by omega)]
          split_ifs <;> first | omega | simp_all
        · simp [hf0]
      simp only [Option.map_some', hfirst]
      rw [take_middle A B C (by split_ifs <;> omega), show A.length + l + 1 = A.length + (l + 1) by omega,
        drop_middle A B C hl]
      simp

/-- **`convert_sub_program` is local to its range**: on `A ++ B ++ C` with the range `B` it does to
`B` what it does to `B` alone, and keeps `A` and `C`. -/
theorem convertSubProgram_append :
    convertSubProgram (A ++ B ++ C) A.length (A.length + B.length) =
      (A ++ (convertSubProgram B 0 B.length).1 ++ C, (convertSubProgram B 0 B.length).2) := by
  have hr := rangeLines_append A B C
  unfold convertSubProgram
  simp only [hr, flatMap_pokes_offset, replaceLines_offset, shiftLines_offset, Bool.and_eq_true,
    List.isEmpty_iff, List.map_eq_nil_iff]
  set r := rangeLines B 0 B.length
  split_ifs with hp
  · simp
  · cases identifyModePattern (codeMap (r.flatMap fun il => il.2.pokes)) with
    | none => simp
    | some pat =>
      dsimp only
      split_ifs
      · simp
      · have hrep : ∀ i ∈ replaceLines pat.oldLen r, i < B.length := fun _ => lt_of_mem_replaceLines
        have hindent : newIndent (A ++ B ++ C) ((replaceLines pat.oldLen r).map (A.length + ·)) =
            newIndent B (replaceLines pat.oldLen r) := by
          unfold newIndent
          rw [List.head?_map]
          cases hh : (replaceLines pat.oldLen r).head? with
          | none => rfl
          | some i =>
            simp only [Option.map_some']
            exact congrArg CLine.indent (getD_middle A B C _ (hrep i (List.mem_of_mem_head? hh)))
        rw [hindent, shiftAt_append A B C _ _ fun _ => lt_of_mem_shiftLines,
          spliceNew_append A (shiftAt pat (shiftLines pat.oldLen r) B) C _ _
            fun i hi => (length_shiftAt pat _ B).symm ▸ hrep i hi]

end append

/-! ### The rewrite of a range -/

/-- The lines `[s, e)` of the file. -/
def slice (lines : List CLine) (s e : ℕ) : List CLine := (lines.drop s).take (e - s)

/-- What `convert_sub_program` puts in place of the lines `[s, e)`: its rewrite of those lines
alone. -/
def rewriteRange (lines : List CLine) (s e : ℕ) : List CLine :=
  (convertSubProgram (slice lines s e) 0 (e - s)).1

theorem slice_append {lines : List CLine} {s e : ℕ} (Y : List CLine) (he : e ≤ lines.length) :
    slice (lines ++ Y) s e = slice lines s e := by
  unfold slice
  rw [List.drop_append_eq_append_drop, List.take_append_of_le_length (by simp; omega)]

theorem slice_take {lines : List CLine} {s e : ℕ} : slice (lines.take e) s e = slice lines s e := by
  unfold slice
  rw [List.drop_take, List.take_take, min_self]

theorem convertSubProgram_eq {lines : List CLine} {s e : ℕ} (h : s ≤ e) (he : e ≤ lines.length) :
    convertSubProgram lines s e = (lines.take s ++ rewriteRange lines s e ++ lines.drop e,
      (convertSubProgram (slice lines s e) 0 (e - s)).2) := by
  have hlines : lines.take s ++ slice lines s e ++ lines.drop e = lines := by
    have hd : lines.drop e = (lines.drop s).drop (e - s) := by
      rw [List.drop_drop]; congr 1; omega
    rw [slice, List.append_assoc, hd, List.take_append_drop, List.take_append_drop]
  have hA : (lines.take s).length = s := List.length_take_of_le (by omega)
  have hB : (slice lines s e).length = e - s := by simp [slice]; omega
  have := convertSubProgram_append (lines.take s) (slice lines s e) (lines.drop e)
  rw [hlines, hA, hB, Nat.add_sub_cancel' h] at this
  rw [this]
  rfl

/-! ### Ranges in file order -/

/-- Ranges in file order from `pos` on, each ending where or before the next starts, none past the
`n` lines of the file. -/
def Ordered (n : ℕ) : ℕ → List (ℕ × ℕ) → Prop
  | _, [] => True
  | pos, r :: rs => pos ≤ r.1 ∧ r.1 ≤ r.2 ∧ r.2 ≤ n ∧ Ordered n r.2 rs

section ordered

variable {n m pos : ℕ} {rs : List (ℕ × ℕ)}

theorem Ordered.anti {pos' : ℕ} (hp : pos' ≤ pos) (h : Ordered n pos rs) : Ordered n pos' rs := by
  cases rs with
  | nil => trivial
  | cons r rs => exact ⟨hp.trans h.1, h.2⟩

theorem Ordered.mem (h : Ordered n pos rs) {r : ℕ × ℕ} (hr : r ∈ rs) :
    pos ≤ r.1 ∧ r.1 ≤ r.2 ∧ r.2 ≤ n := by
  induction rs generalizing pos with
  | nil => cases hr
  | cons r' rs ih =>
    obtain rfl | hr := List.mem_cons.1 hr
    · exact ⟨h.1, h.2.1, h.2.2.1⟩
    · have hr' := ih h.2.2.2 hr
      exact ⟨by have := h.1; have := h.2.1; omega, hr'.2⟩

theorem Ordered.append {ys : List (ℕ × ℕ)} (hpm : pos ≤ m) (hmn : m ≤ n) (h1 : Ordered m pos rs)
    (h2 : Ordered n m ys) : Ordered n pos (rs ++ ys) := by
  induction rs generalizing pos with
  | nil => exact h2.anti hpm
  | cons r rs ih => exact ⟨h1.1, h1.2.1, h1.2.2.1.trans hmn, ih h1.2.2.1 h1.2.2.2⟩

theorem Ordered.flatMap {ts : List (ℕ × ℕ)} {f : ℕ × ℕ → List (ℕ × ℕ)} (h : Ordered n pos ts)
    (hf : ∀ t ∈ ts, Ordered t.2 t.1 (f t)) : Ordered n pos (ts.flatMap f) := by
  induction ts generalizing pos with
  | nil => trivial
  | cons t ts ih =>
    rw [List.flatMap_cons]
    exact Ordered.append (h.1.trans h.2.1) h.2.2.1 ((hf t (List.mem_cons_self _ _)).anti h.1)
      (ih h.2.2.2 fun t' ht' => hf t' (List.mem_cons_of_mem _ ht'))

end ordered

/-! ### Tests and sub-programs are in file order -/

/-- The tests found before line `k` lie in order before the header of the open test. -/
def BlocksInv (k : ℕ) : List (ℕ × ℕ) × Option ℕ → Prop
  | (tests, some c) => c < k ∧ Ordered c 0 tests
  | (tests, none) => tests = []

theorem BlocksInv.step {k : ℕ} {acc : List (ℕ × ℕ) × Option ℕ} (h : BlocksInv k acc) (l : CLine) :
    BlocksInv (k + 1) (testBlockStep acc (k, l)) := by
  obtain ⟨tests, cur⟩ := acc
  unfold testBlockStep
  split_ifs
  · cases cur with
    | none => exact ⟨Nat.lt_succ_self k, by simp only at h ⊢; rw [h]; trivial⟩
    | some c => exact ⟨Nat.lt_succ_self k, Ordered.append (Nat.zero_le c) h.1.le h.2
        ⟨le_rfl, h.1.le, le_rfl, trivial⟩⟩
  · cases cur with
    | none => exact h
    | some c => exact ⟨Nat.lt_succ_of_lt h.1, h.2⟩

theorem BlocksInv.foldl {k : ℕ} {acc : List (ℕ × ℕ) × Option ℕ} (h : BlocksInv k acc)
    (l : List CLine) : BlocksInv (k + l.length) ((l.enumFrom k).foldl testBlockStep acc) := by
  induction l generalizing k acc with
  | nil => exact h
  | cons x l ih =>
    rw [List.enumFrom_cons, List.foldl_cons, List.length_cons, ← Nat.add_assoc, Nat.add_right_comm]
    exact ih (h.step x)

theorem parseTestBlocks_ordered (lines : List CLine) : Ordered lines.length 0 (parseTestBlocks lines) := by
  have h : BlocksInv lines.length (lines.enum.foldl testBlockStep ([], none)) := by
    simpa using (show BlocksInv 0 ([], none) from rfl).foldl lines
  unfold parseTestBlocks
  revert h
  rcases lines.enum.foldl testBlockStep ([], none) with ⟨tests, _ | c⟩
  · rintro rfl; trivial
  · rintro ⟨hc, ho⟩
    exact Ordered.append (Nat.zero_le c) hc.le ho ⟨le_rfl, hc.le, le_rfl, trivial⟩

theorem zip_ordered {stop : ℕ} (rst : List ℕ) (p : ℕ) (hs : (p :: rst).Pairwise (· ≤ ·))
    (hb : ∀ i ∈ rst, i < stop) : Ordered stop p ((p :: rst).zip rst) := by
  induction rst generalizing p with
  | nil => trivial
  | cons i rst ih =>
    exact ⟨le_rfl, List.rel_of_pairwise_cons hs (List.mem_cons_self _ _),
      (hb i (List.mem_cons_self _ _)).le,
      ih i (List.pairwise_cons.1 hs).2 fun j hj => hb j (List.mem_cons_of_mem _ hj)⟩

theorem findSubPrograms_ordered (lines : List CLine) {start stop : ℕ} (h : start ≤ stop) :
    Ordered stop start (findSubPrograms lines start stop) := by
  unfold findSubPrograms
  dsimp only
  split_ifs
  · exact ⟨le_rfl, h, le_rfl, trivial⟩
  · have hmem : ∀ i ∈ (List.range' start (stop - start)).filter fun i => (lines.getD i {}).reset,
        start ≤ i ∧ i < stop := fun i hi => by
      have := List.mem_range'_1.1 (List.mem_filter.1 hi).1
      omega
    refine zip_ordered _ _ (List.pairwise_cons.2 ⟨fun i hi => (hmem i hi).1, ?_⟩)
      fun i hi => (hmem i hi).2
    exact ((List.pairwise_lt_range' start _).filter _).imp le_of_lt

/-- The ranges of a file: the sub-programs of every test, in file order. -/
def allRanges (lines : List CLine) : List (ℕ × ℕ) :=
  (parseTestBlocks lines).flatMap fun t => findSubPrograms lines t.1 t.2

theorem allRanges_ordered (lines : List CLine) : Ordered lines.length 0 (allRanges lines) :=
  (parseTestBlocks_ordered lines).flatMap fun _ ht =>
    findSubPrograms_ordered lines ((parseTestBlocks_ordered lines).mem ht).2.1

/-- `find_sub_programs` reads only the lines before the end of the test. -/
theorem findSubPrograms_append {lines : List CLine} {start stop : ℕ} (Y : List CLine)
    (h : stop ≤ lines.length) : findSubPrograms (lines ++ Y) start stop = findSubPrograms lines start stop := by
  have hf : ((List.range' start (stop - start)).filter fun i => ((lines ++ Y).getD i {}).reset) =
      (List.range' start (stop - start)).filter fun i => (lines.getD i {}).reset :=
    List.filter_congr fun i hi => by
      have := List.mem_range'_1.1 hi
      rw [List.getD_eq_getElem?_getD, List.getD_eq_getElem?_getD, List.getElem?_append_left (by omega)]
  unfold findSubPrograms
  simp only [hf]

/-! ### The whole file -/

/-- The file with the ranges `rs`, from line `pos` on, each replaced by `f s e`: what the
converter is meant to compute. -/
def spliceRanges (lines : List CLine) (f : ℕ → ℕ → List CLine) : ℕ → List (ℕ × ℕ) → List CLine
  | pos, [] => lines.drop pos
  | pos, r :: rs => (lines.drop pos).take (r.1 - pos) ++ f r.1 r.2 ++ spliceRanges lines f r.2 rs

/-- The ranges converted last first. -/
def convertRanges (rs : List (ℕ × ℕ)) (lines : List CLine) : List CLine :=
  rs.reverse.foldl (fun ls r => (convertSubProgram ls r.1 r.2).1) lines

theorem convertRanges_append (xs ys : List (ℕ × ℕ)) (lines : List CLine) :
    convertRanges (xs ++ ys) lines = convertRanges xs (convertRanges ys lines) := by
  simp [convertRanges, List.foldl_append]

/-- **Converting the ranges last first replaces each by the rewrite of its original lines.** -/
theorem convertRanges_eq {lines : List CLine} {pos : ℕ} {rs : List (ℕ × ℕ)}
    (h : Ordered lines.length pos rs) :
    convertRanges rs lines = lines.take pos ++ spliceRanges lines (rewriteRange lines) pos rs := by
  induction rs generalizing pos with
  | nil => simp [convertRanges, spliceRanges]
  | cons r rs ih =>
    obtain ⟨hp, hr, hn, h⟩ := h
    have hX := ih h
    rw [show r :: rs = [r] ++ rs from rfl, convertRanges_append, hX]
    simp only [List.singleton_append, spliceRanges]
    set Y := spliceRanges lines (rewriteRange lines) r.2 rs
    have hlen : (lines.take r.2).length = r.2 := List.length_take_of_le hn
    have hslice : slice (lines.take r.2 ++ Y) r.1 r.2 = slice lines r.1 r.2 := by
      rw [slice_append Y hlen.ge, slice_take]
    simp only [convertRanges, List.reverse_singleton, List.foldl_cons, List.foldl_nil]
    rw [convertSubProgram_eq hr (by simp [hlen]), rewriteRange, hslice, ← rewriteRange,
      List.take_append_of_le_length (by omega), List.take_take, min_eq_left hr,
      List.drop_left' hlen, ← List.append_assoc, ← List.append_assoc,
      ← List.take_add, Nat.add_sub_cancel' hp]
    rfl

theorem convertTest_fst (lines : List CLine) (start stop : ℕ) :
    (convertTest lines start stop).1 = convertRanges (findSubPrograms lines start stop) lines := by
  unfold convertTest convertRanges
  generalize (findSubPrograms lines start stop).reverse = rs
  suffices ∀ acc : List CLine × Bool, (rs.foldl (fun acc r => ((convertSubProgram acc.1 r.1 r.2).1,
      acc.2 || (convertSubProgram acc.1 r.1 r.2).2)) acc).1 =
      rs.foldl (fun ls r => (convertSubProgram ls r.1 r.2).1) acc.1 from this _
  induction rs with
  | nil => intro; rfl
  | cons r rs ih => intro acc; exact ih _

/-- The tests converted last first are their ranges converted last first. -/
theorem foldl_convertTest {lines : List CLine} {pos : ℕ} {ts : List (ℕ × ℕ)}
    (h : Ordered lines.length pos ts) :
    ts.reverse.foldl (fun ls t => (convertTest ls t.1 t.2).1) lines =
      convertRanges (ts.flatMap fun t => findSubPrograms lines t.1 t.2) lines := by
  induction ts generalizing pos with
  | nil => rfl
  | cons t ts ih =>
    obtain ⟨-, ht, hn, h⟩ := h
    have hZ := convertRanges_eq (h.flatMap fun t' ht' => findSubPrograms_ordered lines (h.mem ht').2.1)
    rw [List.reverse_cons, List.foldl_append, ih h, List.foldl_cons, List.foldl_nil, convertTest_fst,
      List.flatMap_cons, convertRanges_append, hZ]
    congr 1
    have hlen : (lines.take t.2).length = t.2 := List.length_take_of_le hn
    rw [findSubPrograms_append _ hlen.ge]
    conv_rhs => rw [← List.take_append_drop t.2 lines]
    rw [findSubPrograms_append _ hlen.ge]

/-- **`main` replaces every sub-program range by the rewrite of its original lines.**  The ranges
are in file order, none overlapping the next; on the original file `convert_sub_program` rewrites
each in place and keeps every other line; and `main` returns the original file with every range
replaced by that rewrite, every other line kept in order. -/
theorem convertMain_splices (lines : List CLine) :
    Ordered lines.length 0 (allRanges lines) ∧
      (∀ r ∈ allRanges lines, (convertSubProgram lines r.1 r.2).1 =
        lines.take r.1 ++ rewriteRange lines r.1 r.2 ++ lines.drop r.2) ∧
      convertMain lines = spliceRanges lines (rewriteRange lines) 0 (allRanges lines) := by
  have ho := allRanges_ordered lines
  refine ⟨ho, fun r hr => congrArg Prod.fst (convertSubProgram_eq (ho.mem hr).2.1 (ho.mem hr).2.2), ?_⟩
  rw [convertMain, foldl_convertTest (parseTestBlocks_ordered lines), ← allRanges, convertRanges_eq ho]
  rfl

end M65832Tb
