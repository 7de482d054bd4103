import M65832Tb.Extract.Text
import M65832Tb.Convert.File

/-!
# One testbench, two scripts

The converter and the extractor read the same file.  The converter takes its lines with
`f.readlines()`, each with its newline (`readLines`); the extractor splits the text at `'\n'`.
Line `i` of the one is line `i` of the other, but for the newline (`readLines_getD`).

* `convert_blocks_within_tests`: no line strictly inside a test block of the converter is a test
  header for the extractor.  Every header of the extractor is one of the converter
  (`header_of_test`), and a block of the converter holds no header of its own inside
  (`parseTestBlocks_inside`).  So each block, and each sub-program the converter rewrites, lies
  inside one test of the extractor, or before the first.  The converter also takes a letter after
  the number (`-- TEST 12a:`), so one extractor test can span several blocks.
* `newPokeText_extracted`: the lines the converter writes for a new mode-entry sequence are read
  by the extractor as exactly the bytes of that sequence from `$8000` on, and as nothing else.
  Line by line: a written `poke` is read as its one write, for every address and byte
  (`Line.ofText_pokeText`), and a text holding none of `:`, `_` and `k` as no directive at all
  (`Line.ofText_of_noDirectiveChar`).
-/

namespace M65832Tb

/-! ### The two splits of a file -/

/-- `f.readlines()` on the text of a file: its pieces between newlines, each but the last with its
newline, the last one only when it is not empty. -/
def readLines (content : List Char) : List (List Char) :=
  let ps := content.splitOn '\n'
  ps.dropLast.map (· ++ ['\n']) ++ (ps.getLast?.filter (· ≠ [])).toList

/-- Line `i` of `readlines` is line `i` of `split('\n')` with, or without, its newline. -/
theorem readLines_getD (content : List Char) {i : ℕ} (hi : i < (readLines content).length) :
    ∃ z, (readLines content).getD i [] = (content.splitOn '\n').getD i [] ++ z := by
  unfold readLines at hi ⊢
  dsimp only at hi ⊢
  rcases List.eq_nil_or_concat (content.splitOn '\n') with hps | ⟨init, last, hps⟩
  · simp [hps] at hi
  · rw [List.concat_eq_append] at hps
    rw [hps, List.dropLast_concat, List.getLast?_concat] at hi ⊢
    rw [List.getD_eq_getElem?_getD, List.getD_eq_getElem?_getD]
    by_cases h : i < init.length
    · refine ⟨['\n'], ?_⟩
      rw [List.getElem?_append_left (by simpa using h), List.getElem?_map,
        List.getElem?_append_left h, List.getElem?_eq_getElem h]
      rfl
    · refine ⟨[], ?_⟩
      by_cases hl : last = []
      · simp [hl, Option.filter] at hi; omega
      · simp only [Option.filter, ne_eq, hl, not_false_eq_true, decide_True, ite_true,
          Option.toList_some, List.length_append, List.length_map, List.length_singleton] at hi ⊢
        have hi' : i = init.length := by omega
        subst hi'
        simp

/-! ### Test blocks and tests -/

/-- The blocks found before line `k`, and the open one, hold no header strictly inside. -/
def NoInnerHeader (H : ℕ → Bool) (k : ℕ) (acc : List (ℕ × ℕ) × Option ℕ) : Prop :=
  (∀ t ∈ acc.1, ∀ i, t.1 < i → i < t.2 → H i = false) ∧ ∀ c ∈ acc.2, ∀ i, c < i → i < k → H i = false

theorem NoInnerHeader.step {H : ℕ → Bool} {k : ℕ} {acc : List (ℕ × ℕ) × Option ℕ}
    (h : NoInnerHeader H k acc) {l : CLine} (hl : l.header = H k) :
    NoInnerHeader H (k + 1) (testBlockStep acc (k, l)) := by
  obtain ⟨tests, cur⟩ := acc
  unfold testBlockStep
  split_ifs with hk
  · refine ⟨fun t ht => ?_, fun c hc i hi hi' => by cases hc; omega⟩
    cases cur with
    | none => exact h.1 t ht
    | some c =>
      rcases List.mem_append.1 ht with ht | ht
      · exact h.1 t ht
      · rw [List.mem_singleton] at ht
        subst ht
        exact h.2 c rfl
  · refine ⟨h.1, fun c hc i hi hi' => ?_⟩
    rcases Nat.lt_succ_iff_lt_or_eq.1 hi' with hi' | rfl
    · exact h.2 c hc i hi hi'
    · rw [← hl]; simpa using hk

theorem NoInnerHeader.foldl {H : ℕ → Bool} (L : List CLine) {k : ℕ}
    {acc : List (ℕ × ℕ) × Option ℕ} (hL : ∀ j < L.length, (L.getD j {}).header = H (k + j))
    (h : NoInnerHeader H k acc) :
    NoInnerHeader H (k + L.length) ((L.enumFrom k).foldl testBlockStep acc) := by
  induction L generalizing k acc with
  | nil => exact h
  | cons l L ih =>
    rw [List.enumFrom_cons, List.foldl_cons, List.length_cons, ← Nat.add_assoc, Nat.add_right_comm]
    refine ih (fun j hj => ?_) (h.step (by simpa using hL 0 (by simp)))
    rw [Nat.add_right_comm, Nat.add_assoc]
    exact hL (j + 1) (by simpa using hj)

/-- **A block of the converter holds no header strictly inside.** -/
theorem parseTestBlocks_inside (ls : List CLine) :
    ∀ t ∈ parseTestBlocks ls, ∀ i, t.1 < i → i < t.2 → (ls.getD i {}).header = false := by
  have h0 : NoInnerHeader (fun i => (ls.getD i {}).header) 0 ([], none) :=
    ⟨fun _ h => (by simp at h), fun _ h => (by simp at h)⟩
  have h : NoInnerHeader (fun i => (ls.getD i {}).header) ls.length
      (ls.enum.foldl testBlockStep ([], none)) := by
    simpa using NoInnerHeader.foldl ls (fun j _ => by rw [Nat.zero_add]) h0
  unfold parseTestBlocks
  revert h
  rcases ls.enum.foldl testBlockStep ([], none) with ⟨tests, _ | c⟩
  · exact fun h => h.1
  · intro h t ht
    rcases List.mem_append.1 ht with ht | ht
    · exact h.1 t ht
    · rw [List.mem_singleton] at ht
      subst ht
      exact h.2 c rfl

/-- A header stays a header with more text after it. -/
theorem header_append {s : List Char} (h : (readCLine s).header = true) (z : List Char) :
    (readCLine (s ++ z)).header = true := by
  obtain ⟨x, y, rfl, hy⟩ := (firstMatch_isSome_iff _ _).1 h
  obtain ⟨t, r, rfl, ht, hr⟩ := (testPatMatch_isSome_iff _).1 hy
  refine (firstMatch_isSome_iff _ _).2 ⟨x, t ++ (r ++ z), by simp, ?_⟩
  refine (testPatMatch_isSome_iff _).2 ⟨t, r ++ z, rfl, ht, ?_⟩
  rw [List.any_append, hr, Bool.true_or]

/-- **Every block of the converter lies inside one test of the extractor**: no line strictly
inside a block is a test header for the extractor. -/
theorem convert_blocks_within_tests (content : List Char) :
    ∀ t ∈ parseTestBlocksText (readLines content), ∀ i, t.1 < i → i < t.2 →
      (Line.ofText ((content.splitOn '\n').getD i [])).test = none := by
  intro t ht i hi hi'
  have hlen : i < (readLines content).length := by
    have := (parseTestBlocks_ordered ((readLines content).map readCLine)).mem ht
    rw [List.length_map] at this
    omega
  obtain ⟨z, hz⟩ := readLines_getD content hlen
  have hin := parseTestBlocks_inside _ t ht i hi hi'
  rw [getD_map_readCLine, hz] at hin
  cases htest : (Line.ofText ((content.splitOn '\n').getD i [])).test with
  | none => rfl
  | some v =>
    have := header_append (header_of_test (by rw [htest]; rfl)) z
    rw [hin] at this
    cases this

/-- Two tests, the first with one line in its body: that line is no header for the extractor. -/
theorem convert_blocks_within_tests_two :
    (0, 2) ∈ parseTestBlocksText (readLines "-- TEST 1: a\nx\n-- TEST 2: b\n".toList) ∧
      (Line.ofText (("-- TEST 1: a\nx\n-- TEST 2: b\n".toList.splitOn '\n').getD 1 [])).test = none :=
  ⟨by decide, convert_blocks_within_tests _ (0, 2) (by decide) 1 (by decide) (by decide)⟩

/-! ### The new lines -/

/-- The line holds none of the directives the parser reads but byte and word writes. -/
def Line.onlyWrites (l : Line) : Bool :=
  l.test.isNone && !l.reset && l.waits.isEmpty && l.checks.isEmpty && l.irq.isNone &&
    l.nmi.isNone && l.abort.isNone

section written

variable {s : List Char}

/-- No test header for the extractor in a text without `:`. -/
theorem firstMatch_testMatchX_none (h : ∀ c ∈ s, ciEq ':' c = false) :
    firstMatch testMatchX s = none :=
  firstMatch_eq_none fun x y he => by
    rw [testMatchX, testHeadX.run_eq_none_of_lit (p := ':') (by decide)
      fun c hy => h c (he ▸ List.mem_append_right x hy)]
    rfl

/-- The directives of a line but its writes, none where neither `:` nor `_` stands. -/
theorem Line.onlyWrites_ofText (h1 : ∀ c ∈ s, ciEq ':' c = false)
    (h2 : ∀ c ∈ s, ciEq '_' c = false) : (Line.ofText s).onlyWrites = true := by
  simp [Line.onlyWrites, Line.ofText, levelOf, firstMatch_testMatchX_none h1, rstPat_search_none h2,
    cyclesPat.finditer_eq_nil_of_lit (p := '_') (by decide) h2,
    checkPat.finditer_eq_nil_of_lit (p := '_') (by decide) h2,
    irqPat.search_eq_none_of_lit (p := '_') (by decide) h2,
    nmiPat.search_eq_none_of_lit (p := '_') (by decide) h2,
    abortPat.search_eq_none_of_lit (p := '_') (by decide) h2]

/-- **A text without the characters a directive needs is read as no directive at all.** -/
theorem Line.ofText_of_noDirectiveChar (h : noDirectiveChar s = true) :
    (Line.ofText s).pokesOnLine = [] ∧ (Line.ofText s).onlyWrites = true := by
  have hc := noDirectiveChar_iff.1 h
  have hk : ∀ c ∈ s, ciEq 'k' c = false := fun c h' => (hc c h').2.2
  refine ⟨?_, Line.onlyWrites_ofText (fun c h' => (hc c h').1) fun c h' => (hc c h').2.1⟩
  simp [Line.pokesOnLine, Line.ofText, poke16Pat.finditer_eq_nil_of_lit (p := 'k') (by decide) hk,
    pokePat.finditer_eq_nil_of_lit (p := 'k') (by decide) hk]

end written

/-- No suffix of `poke(` followed by a text without `k` starts with `poke16`: the only `k` is that
of `poke`, and `(` follows it. -/
theorem poke16Word_run_call {t : List Char} (ht : ∀ c ∈ t, ciEq 'k' c = false) (x y : List Char)
    (he : "poke(".toList ++ t = x ++ y) : poke16Word.run y = none := by
  rcases h : poke16Word.run y with _ | ⟨gs, r⟩
  · rfl
  exfalso
  obtain ⟨rfl, hg⟩ := poke16Word.run_eq_some_iff.1 h
  obtain ⟨xs, hxs, -, hf⟩ := exists_of_partTakes hg
  have hxs' : List.Forall₂ Atom.Takes [.lit 'p', .lit 'o', .lit 'k', .lit 'e', .lit '1', .lit '6'] xs :=
    hxs
  obtain ⟨_, _, ⟨c1, rfl, h1⟩, hA, rfl⟩ := List.forall₂_cons_left_iff.1 hxs'
  obtain ⟨_, _, ⟨c2, rfl, -⟩, hB, rfl⟩ := List.forall₂_cons_left_iff.1 hA
  obtain ⟨_, _, ⟨c3, rfl, h3⟩, hC, rfl⟩ := List.forall₂_cons_left_iff.1 hB
  obtain ⟨_, _, ⟨c4, rfl, -⟩, hD, rfl⟩ := List.forall₂_cons_left_iff.1 hC
  obtain ⟨_, rest, ⟨c5, rfl, h5⟩, -, rfl⟩ := List.forall₂_cons_left_iff.1 hD
  rw [← hf] at he
  change 'p' :: 'o' :: 'k' :: 'e' :: '(' :: t =
    x ++ (c1 :: c2 :: c3 :: c4 :: c5 :: (rest.flatten ++ r)) at he
  rcases x with _ | ⟨_, _ | ⟨_, _ | ⟨_, _ | ⟨_, _ | ⟨_, x⟩⟩⟩⟩⟩ <;>
    simp only [List.nil_append, List.cons_append, List.cons.injEq] at he
  · obtain ⟨-, -, -, -, rfl, -⟩ := he
    exact absurd h5 (by decide)
  · obtain ⟨-, rfl, -⟩ := he
    exact absurd h1 (by decide)
  · obtain ⟨-, -, rfl, -⟩ := he
    exact absurd h1 (by decide)
  · obtain ⟨-, -, -, rfl, -⟩ := he
    exact absurd h1 (by decide)
  · obtain ⟨-, -, -, -, rfl, -⟩ := he
    exact absurd h1 (by decide)
  · obtain ⟨-, -, -, -, -, rfl⟩ := he
    rw [ht c3 (by simp)] at h3
    cases h3

/-- **The extractor reads a `poke` line the converter writes as its one write.** -/
theorem Line.ofText_pokeText (a d : ℕ) {C : List Char} (hC : noDirectiveChar C = true) :
    (Line.ofText ("poke(16#".toList ++ hexUpper 4 a ++ "#, x\"".toList ++ hexUpper 2 d ++
        "\");".toList ++ C)).pokesOnLine = [(a, d)] ∧
      (Line.ofText ("poke(16#".toList ++ hexUpper 4 a ++ "#, x\"".toList ++ hexUpper 2 d ++
        "\");".toList ++ C)).onlyWrites = true := by
  have hc := pokeText_chars a d hC
  have hk : ∀ c ∈ "16#".toList ++ hexUpper 4 a ++ "#, x\"".toList ++ hexUpper 2 d ++ "\");".toList ++ C,
      ciEq 'k' c = false := fun c h' => (noDirectiveChar_iff.1 (noDirectiveChar_call a d hC) c h').2.2
  have hw : ∀ x y, "poke(16#".toList ++ hexUpper 4 a ++ "#, x\"".toList ++ hexUpper 2 d ++
      "\");".toList ++ C = x ++ y → poke16Word.run y = none := fun x y he =>
    poke16Word_run_call hk x y (by rw [← pokeText_split, he])
  have h16 : poke16Pat.finditer ("poke(16#".toList ++ hexUpper 4 a ++ "#, x\"".toList ++
      hexUpper 2 d ++ "\");".toList ++ C) = [] :=
    poke16Pat.scan_eq_nil le_rfl fun x y he => Option.not_isSome_iff_eq_none.1 fun hs => by
      have := Pattern.run_isSome_of_prefix (P := poke16Pat) (Q := poke16Word) rfl hs
      rw [hw x y he] at this
      cases this
  refine ⟨?_, Line.onlyWrites_ofText (fun c h' => (hc c h').1) fun c h' => (hc c h').2⟩
  simp only [Line.pokesOnLine, Line.ofText, h16, Pattern.search, firstMatch_eq_none hw,
    pokePat_finditer_call a d hC, List.map_nil, List.flatMap_nil, Option.isSome_none,
    Bool.false_eq_true, if_false, List.nil_append, List.map_cons, hexPair, List.getD_cons_succ,
    List.getD_cons_zero, hexNum_hexUpper]

theorem newPokeText_extracted_nil : ∀ p ∈ newSequences,
    ((newPokeText [] p).map fun l => Line.ofText l.dropLast).flatMap Line.pokesOnLine =
        p.newBytes.enum.map (fun ib => (0x8000 + ib.1, ib.2)) ∧
      (((newPokeText [] p).map fun l => Line.ofText l.dropLast).all Line.onlyWrites) ∧
      ∀ l ∈ newPokeText [] p, l ≠ [] := by
  intro p hp
  have hd : noDirectiveChar ("-- ".toList ++ p.desc.toList) = true := by
    rw [noDirectiveChar_append, (newSequences_desc p hp).1]
    rfl
  have hl : ∀ ib : ℕ × ℕ,
      (Line.ofText ("poke(16#".toList ++ hexUpper 4 (0x8000 + ib.1) ++ "#, x\"".toList ++
        hexUpper 2 ib.2 ++ "\");".toList ++ (byteComment p.name ib.1).toList)).pokesOnLine =
          [(0x8000 + ib.1, ib.2)] ∧
      (Line.ofText ("poke(16#".toList ++ hexUpper 4 (0x8000 + ib.1) ++ "#, x\"".toList ++
        hexUpper 2 ib.2 ++ "\");".toList ++ (byteComment p.name ib.1).toList)).onlyWrites = true :=
    fun ib => Line.ofText_pokeText _ _ (byteComment_noDirectiveChar _ _)
  have hlist : ∀ L : List (ℕ × ℕ),
      (L.map fun ib => Line.ofText ("poke(16#".toList ++ hexUpper 4 (0x8000 + ib.1) ++
        "#, x\"".toList ++ hexUpper 2 ib.2 ++ "\");".toList ++ (byteComment p.name ib.1).toList)).flatMap
          Line.pokesOnLine = L.map (fun ib => (0x8000 + ib.1, ib.2)) ∧
      (L.map fun ib => Line.ofText ("poke(16#".toList ++ hexUpper 4 (0x8000 + ib.1) ++
        "#, x\"".toList ++ hexUpper 2 ib.2 ++ "\");".toList ++ (byteComment p.name ib.1).toList)).all
          Line.onlyWrites := by
    intro L
    induction L with
    | nil => exact ⟨rfl, rfl⟩
    | cons ib L ih =>
      simp only [List.map_cons, List.flatMap_cons, List.all_cons, (hl ib).1, (hl ib).2, ih.1, ih.2,
        List.singleton_append, Bool.true_and, and_self]
  obtain ⟨h1, h2⟩ := Line.ofText_of_noDirectiveChar hd
  simp only [newPokeText, List.nil_append, List.map_cons, List.map_map, Function.comp_def,
    List.dropLast_concat, List.flatMap_cons, List.all_cons, h1, h2, List.nil_append, Bool.true_and,
    (hlist _).1, (hlist _).2, List.mem_cons, List.mem_map]
  exact ⟨trivial, trivial, by rintro l (rfl | ⟨ib, -, rfl⟩) <;> simp⟩

/-- **The extractor reads the new lines as the new sequence.**  Under any indent of white space,
the lines the converter writes for a mode-entry sequence, read by the extractor without their
newline, write the bytes of the sequence at `$8000`, `$8001`, ... and hold no other directive. -/
theorem newPokeText_extracted {x : List Char} (hx : ∀ c ∈ x, isPySpace c = true) {p : ModePattern}
    (hp : p ∈ modePatterns) :
    ((newPokeText x p).map fun l => Line.ofText l.dropLast).flatMap Line.pokesOnLine =
        p.newBytes.enum.map (fun ib => (0x8000 + ib.1, ib.2)) ∧
      ((newPokeText x p).map fun l => Line.ofText l.dropLast).all Line.onlyWrites := by
  obtain ⟨h1, h2, h3⟩ := newPokeText_extracted_nil _ (mem_newSequences hp)
  rw [newPokeText_oldLen] at h1 h2 h3
  have hx' : newPokeText x p = (newPokeText [] p).map (x ++ ·) := by simp [newPokeText]
  have hread : ((newPokeText x p).map fun l => Line.ofText l.dropLast) =
      (newPokeText [] p).map fun l => Line.ofText l.dropLast := by
    rw [hx', List.map_map]
    exact List.map_congr_left fun l hl => by
      simp only [Function.comp, List.dropLast_append_of_ne_nil x (h3 l hl), Line.ofText_indent hx]
  rw [hread]
  exact ⟨h1, h2⟩

/-- The 32-bit sequence that replaces an 8-byte entry, under a four-space indent. -/
theorem newPokeText_extracted_sepe32 :
    (∀ c ∈ "    ".toList, isPySpace c = true) ∧
      (⟨.bit32, 8, [0x02, 0x61, 0x03], "SEPE #$03 -> W=11 (32-bit)"⟩ : ModePattern) ∈ modePatterns ∧
      ((newPokeText "    ".toList ⟨.bit32, 8, [0x02, 0x61, 0x03], "SEPE #$03 -> W=11 (32-bit)"⟩).map
          fun l => Line.ofText l.dropLast).flatMap Line.pokesOnLine =
        [(0x8000, 0x02), (0x8001, 0x61), (0x8002, 0x03)] :=
  ⟨by decide, by decide, (newPokeText_extracted (by decide) (by decide)).1⟩

end M65832Tb
