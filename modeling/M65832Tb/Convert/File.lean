import M65832Tb.Convert.Text
import M65832Tb.Convert.Splice

/-!
# The converter on the lines of the file

The functions of `convert_width_encoding.py` on the lines `f.readlines()` gives, each with its
newline.  They read a line only through the patterns of `Convert.Text`, so they are written with
`readCLine` wherever the source reads a line and with text wherever it writes one: the indent of
the new lines, the shift of a line (`shiftText`), the new lines themselves (`newPokeText`) and
the splice that puts them in (`spliceText`).  Python's `lines[i]` raises `IndexError` past the end
of the list, and the functions that index the lines return `none` then.

Each function is tied to the model of the converter by one lemma: `convertSubProgramText_read`,
`findSubProgramsText_read` and `convertTestText_read` say that the function fails exactly when its
range runs past the end of the lines, and that otherwise the lines it returns are read as the
model's result on the lines read.  The loops are carried by one lemma about folds that may fail
(`foldlM_read`).  The main result is `convertMainText_read`: on every file `main` never raises,
and the lines it writes back are read as the model's `convertMain` of the lines read from the
file.
-/

namespace M65832Tb

/-! ### Reading indexed lines -/

/-- `lines[i] for i in range(s, e)`, each with its index; `IndexError` past the end. -/
def rangeText (lines : List (List Char)) (s e : ℕ) : Option (List (ℕ × List Char)) :=
  (List.range' s (e - s)).mapM fun i => lines[i]?.map (i, ·)

section mapM

variable {α β : Type} {f : α → Option β}

theorem mapM_eq_some_map {g : α → β} {l : List α} (h : ∀ a ∈ l, f a = some (g a)) :
    l.mapM f = some (l.map g) := by
  induction l with
  | nil => rfl
  | cons a l ih =>
    rw [List.mapM_cons, h a (List.mem_cons_self _ _), ih fun a' ha' => h a' (List.mem_cons_of_mem _ ha')]
    rfl

theorem mapM_eq_none {l : List α} {a : α} (ha : a ∈ l) (h : f a = none) : l.mapM f = none := by
  induction l with
  | nil => cases ha
  | cons b l ih =>
    rw [List.mapM_cons]
    rcases List.mem_cons.1 ha with rfl | ha
    · rw [h]; rfl
    · cases f b <;> simp only [ih ha] <;> rfl

end mapM

theorem getD_map_readCLine (lines : List (List Char)) (i : ℕ) :
    (lines.map readCLine).getD i {} = readCLine (lines.getD i []) := by
  rw [List.getD_eq_getElem?_getD, List.getD_eq_getElem?_getD, List.getElem?_map]
  cases lines[i]? <;> simp

/-- The range fails exactly when it runs past the end of the lines. -/
theorem rangeText_eq (lines : List (List Char)) (s e : ℕ) :
    rangeText lines s e = if s < e ∧ lines.length < e then none
      else some ((List.range' s (e - s)).map fun i => (i, lines.getD i [])) := by
  unfold rangeText
  split_ifs with h
  · exact mapM_eq_none (a := e - 1) (List.mem_range'_1.2 (by omega))
      (by rw [List.getElem?_eq_none (by omega)]; rfl)
  · refine mapM_eq_some_map fun i hi => ?_
    have := List.mem_range'_1.1 hi
    rw [List.getD_eq_getElem?_getD, List.getElem?_eq_getElem (by omega)]
    rfl

theorem range_read (lines : List (List Char)) (s e : ℕ) :
    ((List.range' s (e - s)).map fun i => (i, lines.getD i [])).map (fun il => (il.1, readCLine il.2)) =
      rangeLines (lines.map readCLine) s e := by
  simp only [List.map_map, rangeLines, getD_map_readCLine]
  rfl

/-! ### The folds -/

/-- **A loop whose body may fail**: when the body on text never fails and agrees with the model's
body wherever the model's run meets `P`, and the model's run meets `P` at every step, the loop on
text does not fail and agrees with the model's loop. -/
theorem foldlM_read {α β γ : Type} (F : α → β) (stepT : α → γ → Option α) (stepC : β → γ → β)
    (P : β → γ → Prop) (h : ∀ a g, P (F a) g → (stepT a g).map F = some (stepC (F a) g))
    (gs : List γ) (a : α) (hP : ∀ gs₁ g gs₂, gs = gs₁ ++ g :: gs₂ → P (gs₁.foldl stepC (F a)) g) :
    (gs.foldlM stepT a).map F = some (gs.foldl stepC (F a)) := by
  induction gs generalizing a with
  | nil => rfl
  | cons g gs ih =>
    obtain ⟨a', ha', hF⟩ := Option.map_eq_some'.1 (h a g (hP [] g gs rfl))
    rw [List.foldlM_cons, ha']
    show Option.map F (List.foldlM stepT a' gs) = _
    rw [List.foldl_cons, ← hF]
    exact ih a' fun gs₁ g' gs₂ he => by
      have := hP (g :: gs₁) g' gs₂ (by rw [he]; rfl)
      rwa [List.foldl_cons, ← hF] at this

/-- The loop of `convert_test` keeps its lines apart from the flag. -/
theorem foldl_convertTest_fst (rs : List (ℕ × ℕ)) (acc : List CLine × Bool) :
    (rs.foldl (fun acc r => ((convertSubProgram acc.1 r.1 r.2).1,
      acc.2 || (convertSubProgram acc.1 r.1 r.2).2)) acc).1 =
      rs.foldl (fun ls r => (convertSubProgram ls r.1 r.2).1) acc.1 := by
  induction rs generalizing acc with
  | nil => rfl
  | cons r rs ih => exact ih _

section ordered

variable {n pos : ℕ} {rs : List (ℕ × ℕ)}

theorem Ordered.mono {n' : ℕ} (h : Ordered n pos rs) (hn : n ≤ n') : Ordered n' pos rs := by
  induction rs generalizing pos with
  | nil => trivial
  | cons r rs ih => exact ⟨h.1, h.2.1, h.2.2.1.trans hn, ih h.2.2.2⟩

theorem Ordered.split {xs ys : List (ℕ × ℕ)} {r : ℕ × ℕ} (h : Ordered n pos (xs ++ r :: ys)) :
    r.2 ≤ n ∧ Ordered n r.2 ys := by
  induction xs generalizing pos with
  | nil => exact ⟨h.2.2.1, h.2.2.2⟩
  | cons x xs ih => exact ih h.2.2.2

/-- Converting the ranges from `pos` on keeps at least `pos` lines. -/
theorem le_length_convertRanges {lines : List CLine} (h : Ordered lines.length pos rs)
    (hp : pos ≤ lines.length) : pos ≤ (convertRanges rs lines).length := by
  rw [convertRanges_eq h, List.length_append, List.length_take, min_eq_left hp]
  exact Nat.le_add_right _ _

end ordered

/-! ### `find_sub_programs` and `parse_test_blocks` -/

/-- `find_sub_programs` on the lines of the file: the reset lines of the test, read through
`rst_pat`. -/
def findSubProgramsText (lines : List (List Char)) (start stop : ℕ) : Option (List (ℕ × ℕ)) := do
  let r ← rangeText lines start stop
  let rstLines := (r.filter fun il => (rstPat.search il.2).isSome).map Prod.fst
  return if rstLines.isEmpty then [(start, stop)] else (start :: rstLines).zip rstLines

theorem findSubProgramsText_read (lines : List (List Char)) (start stop : ℕ) :
    findSubProgramsText lines start stop = if start < stop ∧ lines.length < stop then none
      else some (findSubPrograms (lines.map readCLine) start stop) := by
  rw [findSubProgramsText, rangeText_eq]
  split_ifs
  · rfl
  · have : (((List.range' start (stop - start)).map fun i => (i, lines.getD i [])).filter
        fun il => (rstPat.search il.2).isSome).map Prod.fst =
        (List.range' start (stop - start)).filter fun i => ((lines.map readCLine).getD i {}).reset := by
      rw [List.filter_map, List.map_map]
      simp only [getD_map_readCLine]
      exact List.map_id _
    simp only [Option.pure_def, Option.bind_eq_bind, Option.some_bind, this, findSubPrograms]

/-- `parse_test_blocks` on the lines of the file: it reads a line only through `test_pat`. -/
def parseTestBlocksText (lines : List (List Char)) : List (ℕ × ℕ) :=
  parseTestBlocks (lines.map readCLine)

/-! ### `convert_sub_program` -/

/-- `indent`: `re.match(r'^(\s*)', first_line).group(1)` of the first replace line (a line of the
range), or eight spaces. -/
def indentText (lines : List (List Char)) (replace : List ℕ) : List Char :=
  match replace.head? with
  | some i => (lines.getD i []).takeWhile isPySpace
  | none => "        ".toList

/-- The shift step, `if delta != 0`: each shift line rewritten in place. -/
def shiftAtText (p : ModePattern) (idx : List ℕ) (lines : List (List Char)) : List (List Char) :=
  if p.newBytes.length ≠ p.oldLen then
    idx.foldl (fun ls i => ls.set i (shiftText p.oldLen p.newBytes.length (ls.getD i []))) lines
  else lines

/-- The replace step, `modified_lines[first_replace:last_replace + 1] = new_poke_lines`, where
`first_replace` moves one line up when that line lies in the sub-program and is a comment about
the old program. -/
def spliceText (s : ℕ) (newLines : List (List Char)) (replace : List ℕ) (lines : List (List Char)) :
    List (List Char) :=
  match replace.min?, replace.max? with
  | some first, some last =>
    let first := if s < first ∧ isOldComment (lines.getD (first - 1) []) then first - 1 else first
    lines.take first ++ newLines ++ lines.drop (last + 1)
  | _, _ => lines

/-- `convert_sub_program` on the lines of the file. -/
def convertSubProgramText (lines : List (List Char)) (s e : ℕ) : Option (List (List Char) × Bool) := do
  let r ← rangeText lines s e
  let rr := r.map fun il => (il.1, readCLine il.2)
  let pokes := rr.flatMap fun il => il.2.pokes
  if pokes.isEmpty then return (lines, false)
  match identifyModePattern (codeMap pokes) with
  | none => return (lines, false)
  | some pat =>
    let rep := replaceLines pat.oldLen rr
    let sh := shiftLines pat.oldLen rr
    if rep.isEmpty && sh.isEmpty then return (lines, false)
    return (spliceText s (newPokeText (indentText lines rep) pat) rep (shiftAtText pat sh lines), true)

theorem indentText_space (lines : List (List Char)) (replace : List ℕ) :
    ∀ c ∈ indentText lines replace, isPySpace c = true := by
  unfold indentText
  split
  · exact fun c hc => List.mem_takeWhile_imp hc
  · decide

theorem newIndent_read (lines : List (List Char)) (replace : List ℕ) :
    newIndent (lines.map readCLine) replace = String.mk (indentText lines replace) := by
  cases h : replace.head? with
  | none => simp only [newIndent, indentText, h]; rfl
  | some i => simp only [newIndent, indentText, h, getD_map_readCLine]; rfl

theorem map_foldl_set {α β : Type} (F : α → β) (g : α → α) (G : β → β) (d : α)
    (hg : ∀ a, F (g a) = G (F a)) (idx : List ℕ) (ls : List α) :
    (idx.foldl (fun ls i => ls.set i (g (ls.getD i d))) ls).map F =
      idx.foldl (fun ls i => ls.set i (G (ls.getD i (F d)))) (ls.map F) := by
  induction idx generalizing ls with
  | nil => rfl
  | cons i idx ih =>
    have hd : (ls.map F).getD i (F d) = F (ls.getD i d) := by
      rw [List.getD_eq_getElem?_getD, List.getD_eq_getElem?_getD, List.getElem?_map]
      cases ls[i]? <;> rfl
    rw [List.foldl_cons, List.foldl_cons, ih, List.map_set, hg, hd]

theorem shiftAtText_read (p : ModePattern) (idx : List ℕ) (lines : List (List Char)) :
    (shiftAtText p idx lines).map readCLine = shiftAt p idx (lines.map readCLine) := by
  unfold shiftAtText shiftAt
  split_ifs
  · rw [map_foldl_set readCLine _ _ [] (readCLine_shiftText _ _), readCLine_nil]
  · rfl

theorem spliceText_read (s : ℕ) (newLines : List (List Char)) (replace : List ℕ)
    (lines : List (List Char)) :
    (spliceText s newLines replace lines).map readCLine =
      spliceNew s (newLines.map readCLine) replace (lines.map readCLine) := by
  unfold spliceText spliceNew
  rcases replace.min? with _ | first <;> rcases replace.max? with _ | last
  iterate 3 rfl
  simp only [getD_map_readCLine, List.map_append, List.map_take, List.map_drop]
  rfl

/-- **`convert_sub_program` on text**: it raises `IndexError` exactly when the range runs past the
end of the lines, and otherwise returns lines read as the model's result on the lines read. -/
theorem convertSubProgramText_read (lines : List (List Char)) (s e : ℕ) :
    (convertSubProgramText lines s e).map (fun r => (r.1.map readCLine, r.2)) =
      if s < e ∧ lines.length < e then none else some (convertSubProgram (lines.map readCLine) s e) := by
  rw [convertSubProgramText, rangeText_eq]
  split_ifs with h
  · rfl
  · simp only [Option.pure_def, Option.bind_eq_bind, Option.some_bind, range_read, convertSubProgram]
    split_ifs
    · rfl
    · cases hpat : identifyModePattern
        (codeMap ((rangeLines (lines.map readCLine) s e).flatMap fun il => il.2.pokes)) with
      | none => rfl
      | some pat =>
        dsimp only
        split_ifs
        · rfl
        · rw [Option.map_some', spliceText_read, shiftAtText_read, newIndent_read,
            readCLine_newPokeText (indentText_space _ _) (identifyModePattern_mem hpat)]

/-! ### `convert_test` and `main` -/

/-- `convert_test` on the lines of the file. -/
def convertTestText (lines : List (List Char)) (start stop : ℕ) : Option (List (List Char) × Bool) := do
  let subs ← findSubProgramsText lines start stop
  subs.reverse.foldlM (fun acc r => do
      let res ← convertSubProgramText acc.1 r.1 r.2
      return (res.1, acc.2 || res.2)) (lines, false)

/-- `main` on the lines of the file: the lines written back.  (The counts are only printed.) -/
def convertMainText (lines : List (List Char)) : Option (List (List Char)) :=
  (parseTestBlocksText lines).reverse.foldlM (fun ls t => (convertTestText ls t.1 t.2).map Prod.fst)
    lines

/-- The model's run over the sub-programs of a test stays long enough for each next range. -/
theorem convertTest_run_fits {lines : List CLine} {start stop : ℕ}
    (hs : ¬(start < stop ∧ lines.length < stop)) {gs₁ gs₂ : List (ℕ × ℕ)} {r : ℕ × ℕ}
    (he : (findSubPrograms lines start stop).reverse = gs₁ ++ r :: gs₂) :
    ¬(r.1 < r.2 ∧ (gs₁.foldl (fun ls r => (convertSubProgram ls r.1 r.2).1) lines).length < r.2) := by
  rintro ⟨hr, hlen⟩
  by_cases hst : start < stop
  · have ho := (findSubPrograms_ordered lines hst.le).mono (not_lt.1 fun h => hs ⟨hst, h⟩)
    rw [List.reverse_eq_append_iff.1 he, List.reverse_cons, List.append_assoc,
      List.singleton_append] at ho
    obtain ⟨hr2, ho⟩ := ho.split
    have := le_length_convertRanges ho hr2
    rw [convertRanges, List.reverse_reverse] at this
    omega
  · have hmem : r ∈ findSubPrograms lines start stop := by
      rw [← List.mem_reverse, he]; simp
    simp only [findSubPrograms, show stop - start = 0 by omega, List.range'_zero, List.filter_nil,
      List.isEmpty_nil, ite_true, List.mem_singleton] at hmem
    subst hmem
    exact hst hr

/-- **`convert_test` on text**: it raises exactly when the test runs past the end of the lines. -/
theorem convertTestText_read (lines : List (List Char)) (start stop : ℕ) :
    (convertTestText lines start stop).map (fun r => (r.1.map readCLine, r.2)) =
      if start < stop ∧ lines.length < stop then none
      else some (convertTest (lines.map readCLine) start stop) := by
  rw [convertTestText, findSubProgramsText_read]
  split_ifs with h
  · rfl
  · simp only [Option.bind_eq_bind, Option.some_bind, convertTest]
    refine foldlM_read (fun r : List (List Char) × Bool => (r.1.map readCLine, r.2)) _ _
      (fun (acc : List CLine × Bool) (r : ℕ × ℕ) => ¬(r.1 < r.2 ∧ acc.1.length < r.2))
      (fun acc r hP => ?_) _ _ (fun gs₁ r gs₂ he => ?_)
    · have := convertSubProgramText_read acc.1 r.1 r.2
      simp only [List.length_map] at hP
      rw [if_neg hP] at this
      obtain ⟨res, hres, he⟩ := Option.map_eq_some'.1 this
      rw [hres, ← he]
      rfl
    · dsimp only
      rw [foldl_convertTest_fst]
      exact convertTest_run_fits (by rwa [List.length_map]) he

/-- The model's run over the tests stays long enough for each next test. -/
theorem convertMain_run_fits {lines : List CLine} {gs₁ gs₂ : List (ℕ × ℕ)} {t : ℕ × ℕ}
    (he : (parseTestBlocks lines).reverse = gs₁ ++ t :: gs₂) :
    ¬(t.1 < t.2 ∧ (gs₁.foldl (fun ls t => (convertTest ls t.1 t.2).1) lines).length < t.2) := by
  rintro ⟨-, hlen⟩
  have ho := parseTestBlocks_ordered lines
  rw [List.reverse_eq_append_iff.1 he, List.reverse_cons, List.append_assoc,
    List.singleton_append] at ho
  obtain ⟨ht2, ho⟩ := ho.split
  have hrun := foldl_convertTest ho
  rw [List.reverse_reverse] at hrun
  rw [hrun] at hlen
  have := le_length_convertRanges
    (ho.flatMap fun t' ht' => findSubPrograms_ordered lines (ho.mem ht').2.1) ht2
  omega

/-- **`main` on text**: on every file it never raises, and the lines it writes back are read as
the model's `convertMain` of the lines read from the file. -/
theorem convertMainText_read (lines : List (List Char)) :
    (convertMainText lines).map (List.map readCLine) = some (convertMain (lines.map readCLine)) := by
  refine foldlM_read (List.map readCLine) _ _ (fun C t => ¬(t.1 < t.2 ∧ C.length < t.2))
    (fun ls t hP => ?_) _ _ fun _ _ _ he => convertMain_run_fits he
  have := convertTestText_read ls t.1 t.2
  simp only [List.length_map] at hP
  rw [if_neg hP] at this
  calc _ = ((convertTestText ls t.1 t.2).map fun r => (r.1.map readCLine, r.2)).map Prod.fst := by
        rw [Option.map_map, Option.map_map]; rfl
    _ = _ := by rw [this]; rfl

end M65832Tb
