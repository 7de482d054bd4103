import M65832Tb.Convert.Splice

/-!
# What the rewrite of a sub-program does to its program

The rewrite of a sub-program is meant to relocate the program at `$8000`: the new mode-entry bytes
in place of the old ones, the code after the old sequence moved by `new_len - old_len`, everything
else in place, and every line without a `poke` kept.

* `poke16_stays`: a `poke16` into the code is not moved.  `POKE_PAT` does not match `poke16`, so
  the converter neither reads nor rewrites such a directive.
* `vector_moved`: a `poke` at `$8100` or above, the reset vector say, is moved as if it were code,
  since a line counts as code for any `poke` past the old sequence.
* `convertSubProgram_relocates`: on a sub-program whose layout the rewrite handles
  (`CleanLayout`) the relocation holds for the `poke` directives, the `poke16` directives are kept
  as they are, and the lines without a `poke` are kept in order, but for the comment line above
  the mode-entry lines.  The layout excludes the cases the rewrite gets wrong: a `poke` at `$8100`
  or above; a line that mixes mode-entry `poke`s with others, which keeps its old bytes; a line
  between two mode-entry lines, which is deleted with them; and a line just above them that reads
  as a comment about the old program, which is deleted even when it writes.
* `rewriteRange_stable`: on a clean layout the rewrite leaves `SEPE` at `$8000`, so a second
  conversion of the rewritten range changes nothing.
* `convert_twice_shifts_again`: the first case also makes the conversion not idempotent: the old
  sequence survives on the mixed line, so a second run finds it again and shifts the code again.

The proof reads the rewrite on the clean layout `pre ++ run ++ post` step by step: the shift step
is a map of `shiftLine` over the lines (`shiftAt_eq_map`), the replace lines are exactly those of
`run` (`CleanLayout.replaceLines_eq`), and the replace step cuts out `run` and the comment above it
(`spliceNew_layout`), which gives `CleanLayout.convertSubProgram_eq`.  The images then follow
address by address (`CleanLayout.pokeImage_eq`).
-/

namespace M65832Tb

/-! ### Memory images -/

/-- The bytes a directive writes: a `poke16` its low byte at `A` and its high byte at `A + 1`. -/
def Directive.bytes : Directive → List (ℕ × ℕ)
  | .poke a d => [(a, d)]
  | .poke16 a v => [(a, v &&& 0xFF), (a + 1, (v >>> 8) &&& 0xFF)]

/-- The last byte a list of writes puts at `a`. -/
def lastWrite : List (ℕ × ℕ) → ℕ → Option ℕ
  | [], _ => none
  | w :: ws, a => (lastWrite ws a).or (if w.1 = a then some w.2 else none)

/-- The memory image of lines: the last byte their directives write at each address. -/
def image (ls : List CLine) : ℕ → Option ℕ :=
  lastWrite (ls.flatMap fun l => l.writes.flatMap Directive.bytes)

/-- The memory image of the `poke` directives of lines. -/
def pokeImage (ls : List CLine) : ℕ → Option ℕ := lastWrite (ls.flatMap CLine.pokes)

/-- An image relocated as the rewrite intends: the new entry bytes from `$8000`, every byte from
the end of the old sequence up to `$8100` moved by `new_len - old_len`, and every byte outside
`$8000..$80FF` in place. -/
def relocated (p : ModePattern) (img : ℕ → Option ℕ) (a : ℕ) : Option ℕ :=
  if a < 0x8000 then img a
  else if a < 0x8000 + p.newBytes.length then p.newBytes[a - 0x8000]?
  else if a + p.oldLen - p.newBytes.length < 0x8100 then img (a + p.oldLen - p.newBytes.length)
  else if 0x8100 ≤ a then img a
  else none

@[simp] theorem lastWrite_append (xs ys : List (ℕ × ℕ)) (a : ℕ) :
    lastWrite (xs ++ ys) a = (lastWrite ys a).or (lastWrite xs a) := by
  induction xs with
  | nil => simp [lastWrite]
  | cons w ws ih => simp [lastWrite, ih, Option.or_assoc]

theorem lastWrite_eq_none {ws : List (ℕ × ℕ)} {a : ℕ} (h : ∀ w ∈ ws, w.1 ≠ a) :
    lastWrite ws a = none := by
  induction ws with
  | nil => rfl
  | cons w ws ih => simp [lastWrite, ih fun v hv => h v (.tail _ hv), h w (.head _)]

theorem lastWrite_enumFrom (xs : List ℕ) (k a : ℕ) :
    lastWrite ((xs.enumFrom k).map fun ib => (0x8000 + ib.1, ib.2)) a =
      if 0x8000 + k ≤ a then xs[a - 0x8000 - k]? else none := by
  induction xs generalizing k with
  | nil => split_ifs <;> rfl
  | cons x xs ih =>
    rw [List.enumFrom_cons, List.map_cons, lastWrite, ih]
    by_cases ha : a = 0x8000 + k
    · simp [ha]
    · by_cases hk : 0x8000 + k ≤ a
      · have : a - 0x8000 - k = a - 0x8000 - (k + 1) + 1 := by omega
        simp [Ne.symm ha, hk, this, show 0x8000 + (k + 1) ≤ a by omega]
      · simp [Ne.symm ha, hk, show ¬ 0x8000 + (k + 1) ≤ a by omega]

/-! ### A `poke16` in the code -/

/-- A test whose program ends with a `poke16` of two `NOP`s after a `SEP #$40`. -/
def poke16File : List CLine :=
  [{ header := true }, { writes := [.poke 0x8000 0xE2] }, { writes := [.poke 0x8001 0x40] },
   { writes := [.poke16 0x8002 0xEAEA] }]

/-- The sequence `SEP #$40` is replaced by five bytes, so the code after it should move by three;
but the `NOP`s of the `poke16` stay at `$8002`, where they overwrite new bytes, and nothing is at
`$8005`. -/
theorem poke16_stays :
    (0, 4) ∈ allRanges poke16File ∧ (convertSubProgram poke16File 0 4).2 = true ∧
      identifyModePattern (codeMap ((slice poke16File 0 4).flatMap CLine.pokes)) =
        some ⟨.bit16m, 2, [0x02, 0x61, 0x01, 0xC2, 0x20], "SEPE #$01 (W=01); REP #$20 (16-bit M)"⟩ ∧
      image (rewriteRange poke16File 0 4) 0x8005 = none ∧
      relocated ⟨.bit16m, 2, [0x02, 0x61, 0x01, 0xC2, 0x20], "SEPE #$01 (W=01); REP #$20 (16-bit M)"⟩
        (image (slice poke16File 0 4)) 0x8005 = some 0xEA := by
  decide

/-! ### A vector after the code -/

/-- A test that writes the reset vector after a `SEP #$40` on a line of its own. -/
def vectorFile : List CLine :=
  [{ header := true }, { writes := [.poke 0x8000 0xE2, .poke 0x8001 0x40] },
   { writes := [.poke 0xFFFC 0x00, .poke 0xFFFD 0x80] }]

/-- A `poke` above the old sequence is a shift line's, however far above: the reset vector is
moved by three, as if it were code, so `$FFFC` is no longer written and `$FFFF` holds the vector's
low byte, where the relocation keeps `$FFFC` in place. -/
theorem vector_moved :
    (0, 3) ∈ allRanges vectorFile ∧ (convertSubProgram vectorFile 0 3).2 = true ∧
      identifyModePattern (codeMap ((slice vectorFile 0 3).flatMap CLine.pokes)) =
        some ⟨.bit16m, 2, [0x02, 0x61, 0x01, 0xC2, 0x20], "SEPE #$01 (W=01); REP #$20 (16-bit M)"⟩ ∧
      relocated ⟨.bit16m, 2, [0x02, 0x61, 0x01, 0xC2, 0x20], "SEPE #$01 (W=01); REP #$20 (16-bit M)"⟩
        (pokeImage (slice vectorFile 0 3)) 0xFFFC = some 0x00 ∧
      pokeImage (rewriteRange vectorFile 0 3) 0xFFFC = none ∧
      pokeImage (rewriteRange vectorFile 0 3) 0xFFFF = some 0x00 := by
  decide

/-! ### The shift step -/

section shift

variable {L n : ℕ}

theorem rangeLines_self (B : List CLine) : rangeLines B 0 B.length = B.enum := by
  refine List.ext_getElem? fun j => ?_
  simp only [rangeLines, Nat.sub_zero, List.getElem?_map, List.getElem?_enum]
  by_cases hj : j < B.length
  · simp [List.getElem?_range' _ _ hj, List.getElem?_eq_getElem hj, List.getD_eq_getElem?_getD]
  · rw [List.getElem?_eq_none (by simpa using hj), List.getElem?_eq_none (by omega)]; rfl

theorem shiftLine_of_hasCode {l : CLine} (h : hasCode L l.pokes = false) : shiftLine L n l = l := by
  suffices ∀ w ∈ l.writes, shiftDirective L n w = w by simp [shiftLine, List.map_congr_left this]
  rintro (⟨a, d⟩ | ⟨a, d⟩) hw
  · have := List.any_eq_false.1 h (a, d) (List.mem_filterMap.2 ⟨_, hw, rfl⟩)
    simp_all [shiftDirective]
  · rfl

theorem shiftLine_self (l : CLine) : shiftLine L L l = l := by
  suffices ∀ w ∈ l.writes, shiftDirective L L w = w by simp [shiftLine, List.map_congr_left this]
  rintro (_ | _) - <;> simp [shiftDirective]

theorem hasCode_of_not_shift {ps : List (ℕ × ℕ)} (h : (!ps.isEmpty && isShiftLine L ps) = false) :
    hasCode L ps = false := by
  cases he : ps.isEmpty
  · cases hc : hasCode L ps <;> simp_all [isShiftLine, isReplaceLine]
  · simp [List.isEmpty_iff.1 he, hasCode]

theorem foldl_set_getElem? {α : Type} (f : α → α) (d : α) (idx : List ℕ) (ls : List α)
    (hnd : idx.Nodup) (hlt : ∀ i ∈ idx, i < ls.length) (j : ℕ) :
    (idx.foldl (fun ls i => ls.set i (f (ls.getD i d))) ls)[j]? =
      if j ∈ idx then ls[j]?.map f else ls[j]? := by
  induction idx generalizing ls with
  | nil => simp
  | cons i idx ih =>
    have hi := hlt i (List.mem_cons_self _ _)
    rw [List.foldl_cons, ih _ (List.nodup_cons.1 hnd).2
      (fun k hk => by rw [List.length_set]; exact hlt k (List.mem_cons_of_mem _ hk)), List.getElem?_set]
    by_cases hji : i = j
    · subst hji
      simp [(List.nodup_cons.1 hnd).1, hi, List.getD_eq_getElem?_getD, List.getElem?_eq_getElem hi]
    · simp [hji, Ne.symm hji]

theorem shiftAt_eq_map (p : ModePattern) (B : List CLine) :
    shiftAt p (shiftLines p.oldLen (rangeLines B 0 B.length)) B =
      B.map (shiftLine p.oldLen p.newBytes.length) := by
  unfold shiftAt
  split_ifs with hne
  · have hnd : (shiftLines p.oldLen (rangeLines B 0 B.length)).Nodup := by
      rw [rangeLines_self]
      refine ((List.filter_sublist _).trans (List.filter_sublist _)).map Prod.fst |>.nodup ?_
      rw [List.enum_map_fst]; exact List.nodup_range _
    refine List.ext_getElem? fun j => ?_
    rw [foldl_set_getElem? _ _ _ _ hnd (fun i hi => lt_of_mem_shiftLines hi), List.getElem?_map]
    split_ifs with hj
    · rfl
    · cases hb : B[j]? with
      | none => rfl
      | some l =>
        refine congrArg some (shiftLine_of_hasCode (hasCode_of_not_shift ?_)).symm
        simp only [shiftLines, rangeLines_self, List.mem_map, List.mem_filter,
          List.mem_enum_iff_getElem?] at hj
        by_contra hc
        have hc' : (!l.pokes.isEmpty) = true ∧ isShiftLine p.oldLen l.pokes = true := by simpa using hc
        exact hj ⟨(j, l), ⟨⟨hb, hc'.1⟩, hc'.2⟩, rfl⟩
  · rw [show p.newBytes.length = p.oldLen by omega]
    exact ((List.map_congr_left fun l _ => shiftLine_self l).trans (List.map_id B)).symm

end shift

/-! ### The rewrite on a clean layout -/

/-- The lines before the mode-entry lines, less the last when it is a comment about the old
program: what the replace step keeps of them. -/
def dropComment (pre : List CLine) : List CLine :=
  if pre.getLast?.map CLine.oldComment = some true then pre.dropLast else pre

theorem dropComment_map_shiftLine {L n : ℕ} (pre : List CLine) :
    dropComment (pre.map (shiftLine L n)) = (dropComment pre).map (shiftLine L n) := by
  simp only [dropComment, List.getLast?_map, Option.map_map, Function.comp_def, shiftLine_oldComment]
  split_ifs <;> simp [List.map_dropLast]

/-- The lines the replace step drops before the mode-entry lines write nothing. -/
theorem flatMap_dropComment {α : Type} {f : CLine → List α}
    (hf : ∀ l : CLine, l.writes = [] → f l = []) {pre : List CLine} (hc : ∀ l ∈ pre.getLast?, l.oldComment = true → l.writes = []) :
    (dropComment pre).flatMap f = pre.flatMap f := by
  unfold dropComment
  split_ifs with h
  · obtain ⟨x, hx, hxc⟩ := Option.map_eq_some'.1 h
    conv_rhs => rw [← List.dropLast_append_getLast? x hx]
    simp [hf x (hc x hx hxc)]
  · rfl

theorem min?_range' {k m : ℕ} (hm : 0 < m) : (List.range' k m).min? = some k :=
  List.min?_eq_some_iff'.2
    ⟨List.mem_range'_1.2 ⟨le_rfl, by omega⟩, fun _ hb => (List.mem_range'_1.1 hb).1⟩

theorem max?_range' {k m : ℕ} (hm : 0 < m) : (List.range' k m).max? = some (k + m - 1) :=
  List.max?_eq_some_iff'.2 ⟨List.mem_range'_1.2 ⟨by omega, by omega⟩,
    fun _ hb => by have := List.mem_range'_1.1 hb; omega⟩

/-- The replace step on lines `A ++ R ++ C` whose replace lines are those of `R`. -/
theorem spliceNew_layout (new A R C : List CLine) (hR : R ≠ []) :
    spliceNew 0 new (List.range' A.length R.length) (A ++ R ++ C) = dropComment A ++ new ++ C := by
  have hm : 0 < R.length := List.length_pos.2 hR
  have hC : (A ++ R ++ C).drop (A.length + R.length - 1 + 1) = C := by
    rw [show A.length + R.length - 1 + 1 = A.length + R.length by omega, drop_middle A R C le_rfl,
      List.drop_length, List.nil_append]
  rw [spliceNew, min?_range' hm, max?_range' hm]
  dsimp only
  rw [hC]
  rcases List.eq_nil_or_concat A with rfl | ⟨A, x, rfl⟩
  · simp [dropComment]
  · by_cases hc : x.oldComment = true <;>
      simp [dropComment, hc, List.append_assoc, List.getElem_append_right,
        List.take_append_eq_append_take]

/-- A sub-program laid out as the rewrite expects: the lines before the mode-entry lines (`pre`),
the mode-entry lines (`run`), which write only into the old sequence and only with `poke`, and the
lines after them (`post`).  No other line writes into the old sequence or at `$8100` or above,
and a comment line just above the mode-entry lines writes nothing. -/
structure CleanLayout (p : ModePattern) (pre run post : List CLine) : Prop where
  run_ne : run ≠ []
  run_pokes : ∀ l ∈ run, l.pokes ≠ [] ∧ l.poke16s = []
  run_entry : ∀ l ∈ run, ∀ q ∈ l.pokes, 0x8000 ≤ q.1 ∧ q.1 < 0x8000 + p.oldLen
  outside : ∀ l ∈ pre ++ post, ∀ q ∈ l.pokes, q.1 < 0x8000 ∨ 0x8000 + p.oldLen ≤ q.1
  below : ∀ l ∈ pre ++ post, ∀ q ∈ l.pokes, q.1 < 0x8100
  comment : ∀ l ∈ pre.getLast?, l.oldComment = true → l.writes = []

section layout

variable {p : ModePattern} {pre run post : List CLine}

theorem CleanLayout.replace_run (hl : CleanLayout p pre run post) {l : CLine} (h : l ∈ run) :
    (isReplaceLine p.oldLen l.pokes && !l.pokes.isEmpty) = true := by
  obtain ⟨q, hq⟩ := List.exists_mem_of_ne_nil _ (hl.run_pokes l h).1
  have hr := hl.run_entry l h
  simp only [isReplaceLine, hasModeEntry, hasCode, hasData, Bool.and_eq_true, Bool.not_eq_true',
    List.any_eq_true, List.any_eq_false, List.isEmpty_eq_false, decide_eq_true_eq]
  exact ⟨⟨⟨⟨q, hq, hr q hq⟩, fun q hq => by have := hr q hq; omega⟩,
    fun q hq => by have := hr q hq; omega⟩, (hl.run_pokes l h).1⟩

theorem CleanLayout.replace_outside (hl : CleanLayout p pre run post) {l : CLine}
    (h : l ∈ pre ++ post) :
    isReplaceLine p.oldLen l.pokes = false := by
  have ho := hl.outside l h
  have : hasModeEntry p.oldLen l.pokes = false :=
    List.any_eq_false.2 fun q hq => by have := ho q hq; simp; omega
  simp [isReplaceLine, this]

theorem CleanLayout.replaceLines_eq (hl : CleanLayout p pre run post) :
    replaceLines p.oldLen (rangeLines (pre ++ run ++ post) 0 (pre ++ run ++ post).length) =
      List.range' pre.length run.length := by
  have hnone : ∀ k (xs : List CLine), (∀ l ∈ xs, l ∈ pre ++ post) →
      (xs.enumFrom k).filter (fun il => isReplaceLine p.oldLen il.2.pokes && !il.2.pokes.isEmpty) = [] :=
    fun k xs hxs => List.filter_eq_nil_iff.2 fun il hil => by
      simp [hl.replace_outside (hxs _ (List.snd_mem_of_mem_enumFrom hil))]
  rw [rangeLines_self, replaceLines, List.filter_filter, List.enum_append, List.enum_append,
    List.filter_append, List.filter_append, List.enum, hnone 0 pre (fun l h => List.mem_append_left _ h),
    hnone _ post (fun l h => List.mem_append_right _ h),
    List.filter_eq_self.2 fun il hil => hl.replace_run (List.snd_mem_of_mem_enumFrom hil)]
  simp [List.enumFrom_map_fst]

theorem flatMap_rangeLines_pokes (B : List CLine) :
    (rangeLines B 0 B.length).flatMap (fun il => il.2.pokes) = B.flatMap CLine.pokes := by
  conv_rhs => rw [← List.enumFrom_map_snd 0 B, List.flatMap_map]
  rw [rangeLines_self]; rfl

theorem CleanLayout.newIndent_eq (hl : CleanLayout p pre run post) :
    newIndent (pre ++ run ++ post) (List.range' pre.length run.length) = (run.headD {}).indent := by
  obtain ⟨r, rs, rfl⟩ := List.exists_cons_of_ne_nil hl.run_ne
  simpa [newIndent, List.range'_succ] using
    congrArg CLine.indent (getD_middle pre (r :: rs) post {} (i := 0) (by simp))

theorem CleanLayout.convertSubProgram_eq (hl : CleanLayout p pre run post)
    (hp : identifyModePattern (codeMap ((pre ++ run ++ post).flatMap CLine.pokes)) = some p) :
    convertSubProgram (pre ++ run ++ post) 0 (pre ++ run ++ post).length =
      ((dropComment pre).map (shiftLine p.oldLen p.newBytes.length) ++
        newPokeLines (run.headD {}).indent p ++ post.map (shiftLine p.oldLen p.newBytes.length),
        true) := by
  have hpk : ((pre ++ run ++ post).flatMap CLine.pokes).isEmpty = false := by
    rcases h : (pre ++ run ++ post).flatMap CLine.pokes with _ | ⟨q, qs⟩
    · rw [h] at hp; simp [codeMap, identifyModePattern] at hp
    · rfl
  have hne : (List.range' pre.length run.length).isEmpty = false := by
    simpa [List.isEmpty_iff] using hl.run_ne
  have hsplice := spliceNew_layout (newPokeLines (run.headD {}).indent p)
    (pre.map (shiftLine p.oldLen p.newBytes.length)) (run.map (shiftLine p.oldLen p.newBytes.length))
    (post.map (shiftLine p.oldLen p.newBytes.length)) (by simpa using hl.run_ne)
  simp only [List.length_map, ← List.map_append, dropComment_map_shiftLine] at hsplice
  simp only [convertSubProgram, flatMap_rangeLines_pokes, hpk, hp, hl.replaceLines_eq, hne,
    shiftAt_eq_map, hl.newIndent_eq, hsplice]
  rfl

end layout

/-- Every old sequence is at most eight bytes long, and every new one starts with `SEPE`'s
opcode `$02`. -/
theorem identifyModePattern_shape {code : ℕ → Option ℕ} {p : ModePattern}
    (h : identifyModePattern code = some p) : p.oldLen ≤ 8 ∧ p.newBytes[0]? = some 0x02 := by
  unfold identifyModePattern at h
  dsimp only at h
  rcases ite_eq_iff.1 h with ⟨-, h⟩ | ⟨-, h⟩
  · cases h
  -- the eight patterns, longest first
  iterate 8
    rcases ite_eq_iff.1 h with ⟨-, h⟩ | ⟨-, h⟩
    · cases h; decide
  cases h

/-! ### The images of the rewritten lines -/

section image

variable {L n : ℕ}

theorem newPokeLines_pokes (i : String) (p : ModePattern) :
    (newPokeLines i p).flatMap CLine.pokes =
      (p.newBytes.enumFrom 0).map fun ib => (0x8000 + ib.1, ib.2) := by
  simp [newPokeLines, CLine.pokes, Directive.poke?, List.flatMap_map, ← List.map_eq_flatMap]
  rfl

theorem flatMap_pokes_map_shiftLine (xs : List CLine) :
    (xs.map (shiftLine L n)).flatMap CLine.pokes = (xs.flatMap CLine.pokes).map (shiftPoke L n) := by
  simp [List.flatMap_map, List.map_flatMap]

theorem lastWrite_map_shiftPoke {ws : List (ℕ × ℕ)} {a b : ℕ}
    (h : ∀ q ∈ ws, (shiftPoke L n q).1 = a ↔ q.1 = b) :
    lastWrite (ws.map (shiftPoke L n)) a = lastWrite ws b := by
  induction ws with
  | nil => rfl
  | cons w ws ih =>
    simp only [List.map_cons, lastWrite, ih fun q hq => h q (.tail _ hq), h w (.head _)]
    rfl

/-- The image of `poke`s moved by a shift line, on `poke`s none of which is into the old
sequence. -/
theorem lastWrite_shifted {ws : List (ℕ × ℕ)} (hw : ∀ q ∈ ws, q.1 < 0x8000 ∨ 0x8000 + L ≤ q.1)
    (a : ℕ) :
    lastWrite (ws.map (shiftPoke L n)) a =
      if a < 0x8000 then lastWrite ws a else if a < 0x8000 + n then none
      else lastWrite ws (a + L - n) := by
  split_ifs with h1 h2
  · exact lastWrite_map_shiftPoke fun q hq => by have := hw q hq; simp only [shiftPoke]; split_ifs <;> omega
  · refine lastWrite_eq_none fun w hw' => ?_
    obtain ⟨q, hq, rfl⟩ := List.mem_map.1 hw'
    have := hw q hq; simp only [shiftPoke]; split_ifs <;> omega
  · exact lastWrite_map_shiftPoke fun q hq => by have := hw q hq; simp only [shiftPoke]; split_ifs <;> omega

theorem filter_map_shiftLine (xs : List CLine) :
    (xs.map (shiftLine L n)).filter (·.pokes.isEmpty) = xs.filter (·.pokes.isEmpty) := by
  have hP : (fun l : CLine => l.pokes.isEmpty) ∘ shiftLine L n = fun l => l.pokes.isEmpty := by
    funext l; simp only [Function.comp, shiftLine_pokes]; cases l.pokes <;> rfl
  rw [List.filter_map, hP]
  conv_rhs => rw [← List.map_id (xs.filter _)]
  refine List.map_congr_left fun l hl => shiftLine_of_hasCode ?_
  simp [hasCode, List.isEmpty_iff.1 (List.mem_filter.1 hl).2]

theorem flatMap_poke16s_map_shiftLine (xs : List CLine) :
    (xs.map (shiftLine L n)).flatMap CLine.poke16s = xs.flatMap CLine.poke16s := by
  simp [List.flatMap_map]

theorem newPokeLines_poke16s (i : String) (p : ModePattern) :
    (newPokeLines i p).flatMap CLine.poke16s = [] := by
  simp [newPokeLines, CLine.poke16s, Directive.poke16?, List.flatMap_map]

theorem newPokeLines_filter (i : String) (p : ModePattern) :
    (newPokeLines i p).filter (·.pokes.isEmpty) = [{ indent := i, oldComment := true }] := by
  simp [newPokeLines, CLine.pokes, Directive.poke?, List.filter_map, Function.comp_def]

end image

/-- The `poke`s of lines before or after the mode-entry lines: none into the old sequence, none
at `$8100` or above. -/
theorem CleanLayout.flatMap_outside {p : ModePattern} {pre run post : List CLine}
    (hl : CleanLayout p pre run post) {xs : List CLine} (hxs : ∀ l ∈ xs, l ∈ pre ++ post) :
    ∀ q ∈ xs.flatMap CLine.pokes, (q.1 < 0x8000 ∨ 0x8000 + p.oldLen ≤ q.1) ∧ q.1 < 0x8100 := by
  intro q hq
  obtain ⟨l, hl', hq⟩ := List.mem_flatMap.1 hq
  exact ⟨hl.outside l (hxs l hl') q hq, hl.below l (hxs l hl') q hq⟩

theorem CleanLayout.pokeImage_eq {p : ModePattern} {pre run post : List CLine}
    (hl : CleanLayout p pre run post) (hL : p.oldLen ≤ 8) (i : String) :
    pokeImage ((dropComment pre).map (shiftLine p.oldLen p.newBytes.length) ++ newPokeLines i p ++
        post.map (shiftLine p.oldLen p.newBytes.length)) =
      relocated p (pokeImage (pre ++ run ++ post)) := by
  have hP := hl.flatMap_outside fun l h => List.mem_append_left post h
  have hQ := hl.flatMap_outside fun l h => List.mem_append_right pre h
  have hR : ∀ q ∈ run.flatMap CLine.pokes, 0x8000 ≤ q.1 ∧ q.1 < 0x8000 + p.oldLen := fun q hq => by
    obtain ⟨l, hl', hq⟩ := List.mem_flatMap.1 hq
    exact hl.run_entry l hl' q hq
  -- what is left of the old image where nothing is written
  have nR : ∀ b, b < 0x8000 ∨ 0x8000 + p.oldLen ≤ b → lastWrite (run.flatMap CLine.pokes) b = none :=
    fun b hb => lastWrite_eq_none fun q hq => by have := hR q hq; omega
  have nP : ∀ b, 0x8100 ≤ b → lastWrite (pre.flatMap CLine.pokes) b = none :=
    fun b hb => lastWrite_eq_none fun q hq => by have := hP q hq; omega
  have nQ : ∀ b, 0x8100 ≤ b → lastWrite (post.flatMap CLine.pokes) b = none :=
    fun b hb => lastWrite_eq_none fun q hq => by have := hQ q hq; omega
  funext a
  simp only [pokeImage, List.flatMap_append, flatMap_pokes_map_shiftLine,
    flatMap_dropComment (f := CLine.pokes) (fun l h => by simp [CLine.pokes, h]) hl.comment,
    newPokeLines_pokes, lastWrite_append]
  rw [lastWrite_shifted (fun q hq => (hP q hq).1), lastWrite_shifted (fun q hq => (hQ q hq).1),
    lastWrite_enumFrom, Nat.add_zero, Nat.sub_zero]
  unfold relocated
  by_cases h1 : a < 0x8000
  · -- below the program: in place
    simp [h1, nR a (.inl h1), show ¬ 0x8000 ≤ a by omega]
  by_cases h2 : a < 0x8000 + p.newBytes.length
  · -- the new mode-entry bytes
    simp [h1, h2, show 0x8000 ≤ a by omega]
  have hnew : p.newBytes[a - 0x8000]? = none := List.getElem?_eq_none (by omega)
  by_cases h3 : a + p.oldLen - p.newBytes.length < 0x8100
  · -- the code after the old sequence, moved
    simp [h1, h2, h3, hnew, nR (a + p.oldLen - p.newBytes.length) (.inr (by omega)),
      show 0x8000 ≤ a by omega]
  · -- nothing from `$8100` on
    have h3' := le_of_not_lt h3
    simp only [h1, h2, h3, hnew, nP _ h3', nQ _ h3', if_false, if_true, show 0x8000 ≤ a by omega,
      Option.none_or]
    split_ifs with h4
    · simp [nP a h4, nQ a h4, nR a (.inr (by omega))]
    · rfl

/-! ### The relocation on a clean layout -/

/-- The rewrite of a range of the file that is laid out cleanly. -/
theorem CleanLayout.convert_slice {lines pre run post : List CLine} {s e : ℕ} {p : ModePattern}
    (hl : CleanLayout p pre run post) (hr : (s, e) ∈ allRanges lines)
    (hs : slice lines s e = pre ++ run ++ post)
    (hp : identifyModePattern (codeMap ((pre ++ run ++ post).flatMap CLine.pokes)) = some p) :
    convertSubProgram (slice lines s e) 0 (e - s) =
      ((dropComment pre).map (shiftLine p.oldLen p.newBytes.length) ++
        newPokeLines (run.headD {}).indent p ++ post.map (shiftLine p.oldLen p.newBytes.length),
        true) := by
  have ho := (allRanges_ordered lines).mem hr
  have hlen : (slice lines s e).length = e - s := by simp [slice]; omega
  rw [← hlen, hs]
  exact hl.convertSubProgram_eq hp

theorem convertSubProgram_relocates (lines pre run post : List CLine) (s e : ℕ) (p : ModePattern)
    (hr : (s, e) ∈ allRanges lines) (hs : slice lines s e = pre ++ run ++ post)
    (hp : identifyModePattern (codeMap ((slice lines s e).flatMap CLine.pokes)) = some p)
    (hl : CleanLayout p pre run post) :
    (convertSubProgram lines s e).2 = true ∧
      pokeImage (rewriteRange lines s e) = relocated p (pokeImage (slice lines s e)) ∧
      (rewriteRange lines s e).flatMap CLine.poke16s = (slice lines s e).flatMap CLine.poke16s ∧
      (slice lines s e).filter (·.pokes.isEmpty) =
        pre.filter (·.pokes.isEmpty) ++ post.filter (·.pokes.isEmpty) ∧
      (rewriteRange lines s e).filter (·.pokes.isEmpty) =
        (dropComment pre).filter (·.pokes.isEmpty) ++
          { indent := (run.headD {}).indent, oldComment := true } :: post.filter (·.pokes.isEmpty) := by
  have ho := (allRanges_ordered lines).mem hr
  rw [hs] at hp
  have hconv := hl.convert_slice hr hs hp
  have hrw : rewriteRange lines s e = _ := congrArg Prod.fst hconv
  refine ⟨by rw [convertSubProgram_eq ho.2.1 ho.2.2, hconv], ?_, ?_, ?_, ?_⟩
  · rw [hrw, hs]; exact hl.pokeImage_eq (identifyModePattern_shape hp).1 _
  · have hrun : run.flatMap CLine.poke16s = [] := List.eq_nil_iff_forall_not_mem.2 fun q hq => by
      obtain ⟨l, hl', hq⟩ := List.mem_flatMap.1 hq
      simp [(hl.run_pokes l hl').2] at hq
    rw [hrw, hs]
    simp only [List.flatMap_append, flatMap_poke16s_map_shiftLine, newPokeLines_poke16s, hrun,
      flatMap_dropComment (f := CLine.poke16s) (fun l h => by simp [CLine.poke16s, h]) hl.comment,
      List.append_nil]
  · have hrun : run.filter (·.pokes.isEmpty) = [] :=
      List.filter_eq_nil_iff.2 fun l hl' => by simp [List.isEmpty_iff, (hl.run_pokes l hl').1]
    rw [hs, List.filter_append, List.filter_append, hrun, List.append_nil]
  · rw [hrw]; simp [filter_map_shiftLine, newPokeLines_filter]

/-- A test whose program starts with a `SEP #$40` on two lines of its own, under a comment about
it, followed by code, a line of data and a reset. -/
def cleanFile : List CLine :=
  [{ header := true }, { oldComment := true }, { writes := [.poke 0x8000 0xE2], indent := "  " },
   { writes := [.poke 0x8001 0x40], indent := "  " },
   { writes := [.poke 0x8002 0xEA, .poke 0x8003 0xEA] },
   { writes := [.poke 0x0200 0x11, .poke16 0x0300 0x1234] }, { reset := true }]

theorem cleanFile_relocates :
    (convertSubProgram cleanFile 0 6).2 = true ∧
      pokeImage (rewriteRange cleanFile 0 6) =
        relocated ⟨.bit16m, 2, [0x02, 0x61, 0x01, 0xC2, 0x20], "SEPE #$01 (W=01); REP #$20 (16-bit M)"⟩
          (pokeImage (slice cleanFile 0 6)) ∧
      (rewriteRange cleanFile 0 6).flatMap CLine.poke16s =
        (slice cleanFile 0 6).flatMap CLine.poke16s ∧
      (slice cleanFile 0 6).filter (·.pokes.isEmpty) =
        (cleanFile.take 2).filter (·.pokes.isEmpty) ++
          ((cleanFile.drop 4).take 2).filter (·.pokes.isEmpty) ∧
      (rewriteRange cleanFile 0 6).filter (·.pokes.isEmpty) =
        (dropComment (cleanFile.take 2)).filter (·.pokes.isEmpty) ++
          { indent := (((cleanFile.drop 2).take 2).headD {}).indent, oldComment := true } ::
            ((cleanFile.drop 4).take 2).filter (·.pokes.isEmpty) :=
  convertSubProgram_relocates cleanFile (cleanFile.take 2) ((cleanFile.drop 2).take 2)
    ((cleanFile.drop 4).take 2) 0 6 _ (by decide) (by decide) (by decide)
    ⟨by decide, by decide, by decide, by decide, by decide, by decide⟩

/-! ### Converting a clean range twice -/

theorem codeMap_eq {a : ℕ} (ha : 0x8000 ≤ a ∧ a < 0x8100) (ps : List (ℕ × ℕ)) :
    codeMap ps a = lastWrite ps a := by
  induction ps using List.reverseRecOn with
  | nil => rfl
  | append_singleton ps q ih =>
    unfold codeMap at ih ⊢
    rw [List.foldl_append, List.foldl_cons, List.foldl_nil, lastWrite_append]
    by_cases hq : q.1 = a
    · subst hq; simp [ha, lastWrite]
    · have : lastWrite [q] a = none := by simp [lastWrite, hq]
      split_ifs <;> simp [Function.update_noteq (Ne.symm hq), ih, this]

/-- A program that starts with `SEPE` holds no old sequence. -/
theorem identifyModePattern_of_sepe {code : ℕ → Option ℕ} (h : code 0x8000 = some 0x02) :
    identifyModePattern code = none := by
  simp [identifyModePattern, h]

/-- **A clean range is converted once.**  On a clean layout the rewrite leaves `SEPE` at `$8000`,
so converting the rewritten range again finds no old sequence: it changes nothing and reports no
conversion. -/
theorem rewriteRange_stable (lines pre run post : List CLine) (s e : ℕ) (p : ModePattern)
    (hr : (s, e) ∈ allRanges lines) (hs : slice lines s e = pre ++ run ++ post)
    (hp : identifyModePattern (codeMap ((slice lines s e).flatMap CLine.pokes)) = some p)
    (hl : CleanLayout p pre run post) :
    convertSubProgram (rewriteRange lines s e) 0 (rewriteRange lines s e).length =
      (rewriteRange lines s e, false) := by
  rw [hs] at hp
  have hrw : rewriteRange lines s e = _ := congrArg Prod.fst (hl.convert_slice hr hs hp)
  have hnew := (identifyModePattern_shape hp).2
  have hn : 0 < p.newBytes.length := by
    rcases h : p.newBytes with _ | ⟨b, bs⟩
    · simp [h] at hnew
    · simp
  -- the first new byte is the last write to `$8000`
  have h8000 : codeMap ((rewriteRange lines s e).flatMap CLine.pokes) 0x8000 = some 0x02 := by
    rw [codeMap_eq (by omega), hrw]
    simp only [List.flatMap_append, flatMap_pokes_map_shiftLine, newPokeLines_pokes, lastWrite_append]
    have hQ := hl.flatMap_outside fun l h => List.mem_append_right pre h
    rw [lastWrite_shifted fun q hq => (hQ q hq).1, lastWrite_enumFrom]
    simp [hn, hnew]
  unfold convertSubProgram
  simp only [flatMap_rangeLines_pokes, identifyModePattern_of_sepe h8000]
  split <;> rfl

theorem cleanFile_stable :
    convertSubProgram (rewriteRange cleanFile 0 6) 0 (rewriteRange cleanFile 0 6).length =
      (rewriteRange cleanFile 0 6, false) :=
  rewriteRange_stable cleanFile (cleanFile.take 2) ((cleanFile.drop 2).take 2)
    ((cleanFile.drop 4).take 2) 0 6 ⟨.bit16m, 2, [0x02, 0x61, 0x01, 0xC2, 0x20],
      "SEPE #$01 (W=01); REP #$20 (16-bit M)"⟩ (by decide) (by decide) (by decide)
    ⟨by decide, by decide, by decide, by decide, by decide, by decide⟩

/-! ### Converting twice -/

/-- A test whose `SEP #$40` shares its line with the first instruction of the program. -/
def mixedLineFile : List CLine :=
  [{ header := true }, { writes := [.poke 0x8000 0xE2, .poke 0x8001 0x40, .poke 0x8002 0xEA] }]

/-- The mixed line is a shift line: its `NOP` moves to `$8005` and its `SEP #$40` stays, so the
second run moves the `NOP` again, to `$8008`. -/
theorem convert_twice_shifts_again :
    convertMain mixedLineFile =
        [{ header := true }, { writes := [.poke 0x8000 0xE2, .poke 0x8001 0x40, .poke 0x8005 0xEA] }] ∧
      convertMain (convertMain mixedLineFile) =
        [{ header := true }, { writes := [.poke 0x8000 0xE2, .poke 0x8001 0x40, .poke 0x8008 0xEA] }] := by
  decide

end M65832Tb
