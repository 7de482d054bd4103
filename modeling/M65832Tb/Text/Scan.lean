import M65832Tb.Text.Pattern

/-!
# Scanning a line: `search`, `finditer`, and rewriting the matches

`re.search` tries the pattern at every position of the line from the left and returns the first
match (`firstMatch`); `finditer` goes on after each match from where it ended (`Pattern.scan`),
and its match objects carry their start and end in the line (`Match`).

`convert_width_encoding.py` rewrites some of the matches of a line in place: it walks over the
matches last first and splices each new match text in by the positions of the old match, so that
the positions of the matches before it stay valid (`rewriteLoop`).  `rewriteLoop_scan` shows that
this computes the line with each match's text replaced where the scan found it
(`Pattern.rewrite`).  When the new text of every match is again a match of the pattern beginning
with the same character, and the pattern's first character can stand nowhere else in a match
(`startB`), the scan of the new line finds the new matches and no others (`scan_rewrite`).
-/

namespace M65832Tb

/-! ### `search` -/

/-- `re.search` with the match attempt `f`: the result at the leftmost position where `f`
succeeds; the positions run from the start of the text to its end. -/
def firstMatch {β : Type} (f : List Char → Option β) : List Char → Option β
  | [] => f []
  | c :: s => (f (c :: s)).or (firstMatch f s)

theorem firstMatch_isSome_iff {β : Type} (f : List Char → Option β) (s : List Char) :
    (firstMatch f s).isSome ↔ ∃ x y, s = x ++ y ∧ (f y).isSome := by
  induction s with
  | nil =>
    simp only [firstMatch, List.nil_eq_append_iff]
    exact ⟨fun h => ⟨[], [], ⟨rfl, rfl⟩, h⟩, fun ⟨_, _, ⟨_, rfl⟩, h⟩ => h⟩
  | cons c s ih =>
    simp only [firstMatch, Option.isSome_or, Bool.or_eq_true, ih]
    constructor
    · rintro (h | ⟨x, y, rfl, h⟩)
      · exact ⟨[], _, rfl, h⟩
      · exact ⟨c :: x, y, rfl, h⟩
    · rintro ⟨_ | ⟨c', x⟩, y, he, h⟩
      · exact .inl (by rw [List.nil_append] at he; rwa [he])
      · obtain ⟨rfl, rfl⟩ := List.cons_eq_cons.1 he
        exact .inr ⟨x, y, rfl, h⟩

/-- A search over a text whose first characters all fail the match attempt is the search over
the rest. -/
theorem firstMatch_append_of_none {β : Type} {f : List Char → Option β} {x : List Char}
    (hx : ∀ c ∈ x, ∀ y, f (c :: y) = none) (u : List Char) : firstMatch f (x ++ u) = firstMatch f u := by
  induction x with
  | nil => rfl
  | cons c x ih =>
    rw [List.cons_append, firstMatch, hx c (List.mem_cons_self _ _), Option.none_or,
      ih fun c' hc' => hx c' (List.mem_cons_of_mem _ hc')]

/-- A search finds nothing when the attempt fails at every position. -/
theorem firstMatch_eq_none {β : Type} {f : List Char → Option β} {s : List Char}
    (h : ∀ x y, s = x ++ y → f y = none) : firstMatch f s = none :=
  Option.not_isSome_iff_eq_none.1 fun hs => by
    obtain ⟨x, y, he, hy⟩ := (firstMatch_isSome_iff f s).1 hs
    rw [h x y he] at hy
    cases hy

theorem firstMatch_map {β γ : Type} (f : List Char → Option β) (g : β → γ) (s : List Char) :
    firstMatch (fun y => (f y).map g) s = (firstMatch f s).map g := by
  induction s with
  | nil => rfl
  | cons c s ih =>
    simp only [firstMatch, ih]
    cases f (c :: s) <;> rfl

/-- `pattern.search(line)`. -/
def Pattern.search (P : Pattern) (s : List Char) : Option (List (List Char) × List Char) :=
  firstMatch P.run s

/-! ### `finditer` -/

/-- A match object: where the match starts and ends in the line, and the text of each part. -/
structure Match where
  start : ℕ
  stop : ℕ
  parts : List (List Char)
  deriving DecidableEq, Repr

/-- `pattern.finditer(line)` from position `pos` of the line on, in at most `fuel` steps: at each
position the match attempt; after a match the scan resumes where it ended. -/
def Pattern.scan (P : Pattern) : ℕ → ℕ → List Char → List Match
  | _, 0, _ => []
  | _, _ + 1, [] => []
  | pos, n + 1, c :: s =>
    match P.run (c :: s) with
    | some (gs, r) =>
      ⟨pos, pos + ((c :: s).length - r.length), gs⟩ ::
        P.scan (pos + ((c :: s).length - r.length)) n r
    | none => P.scan (pos + 1) n s

/-- `pattern.finditer(line)`: one step per character is enough, since a match takes at least
one. -/
def Pattern.finditer (P : Pattern) (s : List Char) : List Match := P.scan 0 s.length s

section scan

variable {P : Pattern}

theorem Pattern.scan_fuel {n m pos : ℕ} {u : List Char} (hn : u.length ≤ n) (hm : u.length ≤ m) :
    P.scan pos n u = P.scan pos m u := by
  induction n generalizing m pos u with
  | zero =>
    rw [List.eq_nil_of_length_eq_zero (Nat.le_zero.1 hn)]
    cases m <;> rfl
  | succ n ih =>
    cases u with
    | nil => cases m <;> rfl
    | cons c s =>
      obtain ⟨m, rfl⟩ := Nat.exists_eq_succ_of_ne_zero (by simp at hm; omega : m ≠ 0)
      simp only [Pattern.scan]
      split
      · rename_i gs r hr
        have := P.run_shrinks hr
        simp only [List.length_cons] at this hn hm
        rw [ih (m := m) (by omega) (by omega)]
      · simp only [List.length_cons] at hn hm
        exact ih (by omega) (by omega)

/-- The scan finds a match exactly when the pattern matches at some position. -/
theorem Pattern.scan_ne_nil_iff {n pos : ℕ} {u : List Char} (hn : u.length ≤ n) :
    P.scan pos n u ≠ [] ↔ ∃ x y, u = x ++ y ∧ (P.run y).isSome := by
  induction n generalizing pos u with
  | zero =>
    rw [List.eq_nil_of_length_eq_zero (Nat.le_zero.1 hn)]
    simp only [Pattern.scan, ne_eq, not_true_eq_false, List.nil_eq_append_iff, false_iff, not_exists,
      not_and]
    rintro _ _ ⟨-, rfl⟩
    cases h : P.run [] with
    | none => simp
    | some p => exact absurd (P.run_shrinks h) (Nat.not_lt_zero _)
  | succ n ih =>
    cases u with
    | nil =>
      simp only [Pattern.scan, ne_eq, not_true_eq_false, List.nil_eq_append_iff, false_iff, not_exists,
        not_and]
      rintro _ _ ⟨-, rfl⟩
      cases h : P.run [] with
      | none => simp
      | some p => exact absurd (P.run_shrinks h) (Nat.not_lt_zero _)
    | cons c s =>
      simp only [Pattern.scan]
      split
      · rename_i gs r hr
        simp only [ne_eq, reduceCtorEq, not_false_eq_true, true_iff]
        exact ⟨[], _, rfl, by simp [hr]⟩
      · rename_i hr
        rw [ih (by simpa using hn)]
        constructor
        · rintro ⟨x, y, rfl, h⟩
          exact ⟨c :: x, y, rfl, h⟩
        · rintro ⟨_ | ⟨c', x⟩, y, he, h⟩
          · rw [List.nil_append] at he
            rw [← he, hr] at h
            cases h
          · obtain ⟨rfl, rfl⟩ := List.cons_eq_cons.1 he
            exact ⟨x, y, rfl, h⟩

/-- The texts of the matches do not depend on where the scan starts counting. -/
theorem Pattern.scan_parts (pos pos' n : ℕ) (u : List Char) :
    (P.scan pos n u).map Match.parts = (P.scan pos' n u).map Match.parts := by
  induction n generalizing pos pos' u with
  | zero => rfl
  | succ n ih =>
    cases u with
    | nil => rfl
    | cons c s =>
      simp only [Pattern.scan]
      split
      · rw [List.map_cons, List.map_cons, ih _ (pos' + _)]
      · exact ih _ _ _

/-- The scan skips first characters of the text at which the pattern cannot start. -/
theorem Pattern.scan_append_of_none {x : List Char} (hx : ∀ c ∈ x, ∀ y, P.run (c :: y) = none)
    (pos n : ℕ) (u : List Char) : P.scan pos n (x ++ u) = P.scan (pos + x.length) (n - x.length) u := by
  induction x generalizing pos n with
  | nil => rfl
  | cons c x ih =>
    cases n with
    | zero => cases h : u <;> simp [Pattern.scan]
    | succ n =>
      rw [List.cons_append, Pattern.scan, hx c (List.mem_cons_self _ _)]
      dsimp only
      rw [ih (fun c' hc' => hx c' (List.mem_cons_of_mem _ hc')), List.length_cons,
        Nat.add_sub_add_right, Nat.add_assoc, Nat.add_comm 1]

end scan

/-! ### Rewriting the matches of a line -/

theorem exists_mem_of_forall₂ {α β : Type} {R : α → β → Prop} {l₁ : List α} {l₂ : List β}
    (h : List.Forall₂ R l₁ l₂) {b : β} (hb : b ∈ l₂) : ∃ a ∈ l₁, R a b := by
  induction h with
  | nil => cases hb
  | cons hab _ ih =>
    rcases List.mem_cons.1 hb with rfl | hb
    · exact ⟨_, List.mem_cons_self _ _, hab⟩
    · obtain ⟨a, ha, h⟩ := ih hb
      exact ⟨a, List.mem_cons_of_mem _ ha, h⟩

/-! ### Characters a pattern needs -/

section needs

variable {P : Pattern} {p : Char}

/-- A pattern that holds the character `p` matches no text in which no character folds to `p`. -/
theorem Pattern.run_eq_none_of_lit (hp : Atom.lit p ∈ P.parts.flatten) {s : List Char}
    (hs : ∀ c ∈ s, ciEq p c = false) : P.run s = none := by
  rcases h : P.run s with _ | ⟨gs, r⟩
  · rfl
  · obtain ⟨rfl, hg⟩ := P.run_eq_some_iff.1 h
    obtain ⟨xs, hxs, -, hf⟩ := exists_of_partTakes hg
    obtain ⟨x, hx, c, rfl, hc⟩ := exists_mem_of_forall₂ hxs.flip hp
    have hmem : c ∈ gs.flatten ++ r :=
      List.mem_append_left _ (hf ▸ List.mem_flatten.2 ⟨_, hx, List.mem_singleton_self c⟩)
    rw [hs c hmem] at hc
    cases hc

theorem Pattern.scan_eq_nil {pos n : ℕ} {u : List Char} (hn : u.length ≤ n)
    (h : ∀ x y, u = x ++ y → P.run y = none) : P.scan pos n u = [] := by
  by_contra hne
  obtain ⟨x, y, he, hy⟩ := (P.scan_ne_nil_iff hn).1 hne
  rw [h x y he] at hy
  cases hy

theorem Pattern.search_eq_none_of_lit (hp : Atom.lit p ∈ P.parts.flatten) {s : List Char}
    (hs : ∀ c ∈ s, ciEq p c = false) : P.search s = none :=
  firstMatch_eq_none fun x _ he => P.run_eq_none_of_lit hp fun c hc =>
    hs c (he ▸ List.mem_append_right x hc)

theorem Pattern.finditer_eq_nil_of_lit (hp : Atom.lit p ∈ P.parts.flatten) {s : List Char}
    (hs : ∀ c ∈ s, ciEq p c = false) : P.finditer s = [] :=
  P.scan_eq_nil le_rfl fun x _ he => P.run_eq_none_of_lit hp fun c hc =>
    hs c (he ▸ List.mem_append_right x hc)

/-- A match at the start of a text, and none in what follows it, is all that `finditer` finds. -/
theorem Pattern.finditer_parts_of_run {s r : List Char} {gs : List (List Char)}
    (h : P.run s = some (gs, r)) (hr : ∀ x y, r = x ++ y → P.run y = none) :
    (P.finditer s).map Match.parts = [gs] := by
  have hlt := P.run_shrinks h
  cases s with
  | nil => exact absurd hlt (Nat.not_lt_zero _)
  | cons c s =>
    rw [Pattern.finditer, List.length_cons, Pattern.scan, h]
    dsimp only
    rw [P.scan_eq_nil (Nat.lt_succ_iff.1 hlt) hr]
    rfl

end needs

/-- The pattern's first atom is the literal `p`, and no later atom takes a character that matches
`p`: a match has such a character at its start and nowhere else. -/
def startB (P : Pattern) (p : Char) : Bool :=
  match P.parts.flatten with
  | .lit q :: rest => q == p && rest.all fun a => CSet.disjoint (.lit p) a.first
  | _ => false

theorem Pattern.start_only {P : Pattern} {p : Char} (hp : startB P p = true)
    {gs : List (List Char)} (h : List.Forall₂ PartTakes P.parts gs) :
    ∃ c t, gs.flatten = c :: t ∧ ciEq p c = true ∧ ∀ c' ∈ t, ciEq p c' = false := by
  obtain ⟨xs, hxs, -, hf⟩ := exists_of_partTakes h
  unfold startB at hp
  split at hp
  · rename_i q rest he
    simp only [Bool.and_eq_true, beq_iff_eq, List.all_eq_true] at hp
    obtain ⟨rfl, hrest⟩ := hp
    rw [he] at hxs
    cases hxs with
    | cons hx hxs' =>
      rename_i x xs'
      obtain ⟨c, rfl, hc⟩ := hx
      refine ⟨c, xs'.flatten, by rw [← hf]; rfl, hc, fun c' hc' => ?_⟩
      obtain ⟨y, hy, hc'y⟩ := List.mem_flatten.1 hc'
      obtain ⟨a, ha, hay⟩ := exists_mem_of_forall₂ hxs' hy
      cases hq : ciEq q c'
      · rfl
      · have := CSet.disjoint_sound (hrest a ha) (c := c') (by simpa [CSet.test] using hq)
        rw [Atom.takes_first hay c' hc'y] at this
        cases this
  · cases hp

/-- The line with the parts of each match the scan finds replaced by `f`: what the source's
loop over the matches computes (`rewriteLoop_scan`). -/
def Pattern.rewrite (P : Pattern) (f : List (List Char) → List (List Char)) :
    ℕ → List Char → List Char
  | 0, u => u
  | _ + 1, [] => []
  | n + 1, c :: s =>
    match P.run (c :: s) with
    | some (gs, r) => (f gs).flatten ++ P.rewrite f n r
    | none => c :: P.rewrite f n s

/-- The loop `for addr, data, match in reversed(poke_info)` of `convert_sub_program`: each match
that `sel` picks, last first, is cut out of the line by its positions and the text of its new
parts `g` put in its place. -/
def rewriteLoop (sel : List (List Char) → Bool) (g : List (List Char) → List (List Char))
    (line : List Char) (ms : List Match) : List Char :=
  ms.reverse.foldl (fun nl m =>
    if sel m.parts then nl.take m.start ++ (g m.parts).flatten ++ nl.drop m.stop else nl) line

section rewrite

variable {P : Pattern} {f : List (List Char) → List (List Char)}

/-- **Last first keeps the positions valid.**  Splicing the new texts in by the old positions,
last match first, rewrites each match where the scan found it. -/
theorem Pattern.rewriteLoop_scan (sel : List (List Char) → Bool)
    (g : List (List Char) → List (List Char)) {n : ℕ} {x u : List Char} (hn : u.length ≤ n) :
    rewriteLoop sel g (x ++ u) (P.scan x.length n u) =
      x ++ P.rewrite (fun gs => if sel gs then g gs else gs) n u := by
  induction n generalizing x u with
  | zero => rw [List.eq_nil_of_length_eq_zero (Nat.le_zero.1 hn)]; rfl
  | succ n ih =>
    cases u with
    | nil => rfl
    | cons c s =>
      simp only [Pattern.scan, Pattern.rewrite]
      split
      · rename_i gs r hr
        obtain ⟨he, -⟩ := P.run_eq_some_iff.1 hr
        have hlen : (c :: s).length - r.length = gs.flatten.length := by rw [he]; simp
        have hr' : r.length ≤ n := by have := P.run_shrinks hr; simp at hn this; omega
        have ih' := ih (x := x ++ gs.flatten) hr'
        rw [List.length_append, ← hlen, List.append_assoc, ← he] at ih'
        rw [hlen] at ih' ⊢
        simp only [rewriteLoop, List.reverse_cons, List.foldl_append, List.foldl_cons,
          List.foldl_nil] at ih' ⊢
        rw [ih']
        split_ifs with hs
        · have hx : (x ++ gs.flatten ++ P.rewrite (fun gs => if sel gs then g gs else gs) n r).take
              x.length = x := by simp
          have hd : (x ++ gs.flatten ++ P.rewrite (fun gs => if sel gs then g gs else gs) n r).drop
              (x.length + gs.flatten.length) = P.rewrite (fun gs => if sel gs then g gs else gs) n r :=
            List.drop_left' (List.length_append _ _)
          rw [hx, hd, List.append_assoc]
        · simp
      · have := ih (x := x ++ [c]) (u := s) (by simpa using hn)
        simpa using this

variable {p : Char}

/-- Up to the first match, the rewritten line is the line; there both have a character matching
the pattern's first. -/
theorem Pattern.rewrite_agrees (hp : startB P p = true)
    (hf : ∀ gs, List.Forall₂ PartTakes P.parts gs → (f gs).flatten.head? = gs.flatten.head?)
    {n : ℕ} {u : List Char} (hn : u.length ≤ n) :
    ∃ y w z, u = y ++ w ∧ P.rewrite f n u = y ++ z ∧
      (w = [] ∧ z = [] ∨ ∃ c w' z', w = c :: w' ∧ z = c :: z' ∧ ciEq p c = true) := by
  induction n generalizing u with
  | zero =>
    rw [List.eq_nil_of_length_eq_zero (Nat.le_zero.1 hn)]
    exact ⟨[], [], [], rfl, rfl, .inl ⟨rfl, rfl⟩⟩
  | succ n ih =>
    cases u with
    | nil => exact ⟨[], [], [], rfl, rfl, .inl ⟨rfl, rfl⟩⟩
    | cons c s =>
      cases hrun : P.run (c :: s) with
      | some q =>
        obtain ⟨gs, r⟩ := q
        obtain ⟨he, hg⟩ := P.run_eq_some_iff.1 hrun
        obtain ⟨c1, t1, h1, hc1, -⟩ := P.start_only hp hg
        have hc : c = c1 := by rw [h1] at he; exact (List.cons_eq_cons.1 he).1
        obtain ⟨t2, h2⟩ : ∃ t2, (f gs).flatten = c :: t2 := by
          have := hf gs hg
          rw [h1] at this
          cases h : (f gs).flatten with
          | nil => rw [h] at this; cases this
          | cons c2 t2 => rw [h] at this; exact ⟨t2, by rw [hc]; simpa using this⟩
        refine ⟨[], c :: s, c :: (t2 ++ P.rewrite f n r), rfl, ?_, .inr ⟨c, s, _, rfl, rfl, hc ▸ hc1⟩⟩
        simp only [Pattern.rewrite, hrun, h2, List.cons_append, List.nil_append]
      | none =>
        obtain ⟨y, w, z, rfl, hz, hw⟩ := ih (u := s) (by simpa using hn)
        refine ⟨c :: y, w, z, rfl, ?_, hw⟩
        simp only [Pattern.rewrite, hrun, hz, List.cons_append]

/-- **The scan finds the rewritten matches.**  When every new match is again a match beginning
with the same character, the scan of the rewritten line finds the new matches, in order, and no
others. -/
theorem Pattern.scan_rewrite (hp : startB P p = true)
    (hf : ∀ gs, List.Forall₂ PartTakes P.parts gs →
      List.Forall₂ PartTakes P.parts (f gs) ∧ (f gs).flatten.head? = gs.flatten.head?)
    {n m pos pos' : ℕ} {u : List Char} (hn : u.length ≤ n) (hm : (P.rewrite f n u).length ≤ m) :
    (P.scan pos' m (P.rewrite f n u)).map Match.parts = (P.scan pos n u).map (f ∘ Match.parts) := by
  induction n generalizing m pos pos' u with
  | zero =>
    rw [List.eq_nil_of_length_eq_zero (Nat.le_zero.1 hn)]
    cases m <;> rfl
  | succ n ih =>
    cases u with
    | nil => cases m <;> rfl
    | cons c s =>
      have hs : s.length ≤ n := by simpa using hn
      cases hrun : P.run (c :: s) with
      | some q =>
        obtain ⟨gs, r⟩ := q
        obtain ⟨-, hg⟩ := P.run_eq_some_iff.1 hrun
        have hr : r.length ≤ n := by have := P.run_shrinks hrun; simp at this; omega
        have hnew : P.run ((f gs).flatten ++ P.rewrite f n r) = some (f gs, P.rewrite f n r) :=
          P.run_eq_some_iff.2 ⟨rfl, (hf gs hg).1⟩
        have hlen := P.run_shrinks hnew
        simp only [Pattern.rewrite, hrun] at hm ⊢
        obtain ⟨m, rfl⟩ := Nat.exists_eq_succ_of_ne_zero (by omega : m ≠ 0)
        obtain ⟨c2, t2, h2⟩ := List.exists_cons_of_length_pos (by omega :
          0 < ((f gs).flatten ++ P.rewrite f n r).length)
        rw [h2]
        simp only [Pattern.scan]
        rw [← h2, hnew]
        simp only [hrun, List.map_cons, Function.comp]
        rw [ih hr (by omega)]
      | none =>
        obtain ⟨y, w, z, rfl, hz, hw⟩ := P.rewrite_agrees hp (fun gs h => (hf gs h).2) hs
        have hnone : P.run (c :: (y ++ z)) = none := by
          cases hrun' : P.run (c :: (y ++ z)) with
          | none => rfl
          | some q =>
            obtain ⟨gs', r'⟩ := q
            exfalso
            obtain ⟨he, hg⟩ := P.run_eq_some_iff.1 hrun'
            obtain ⟨c1, t1, h1, -, ht1⟩ := P.start_only hp hg
            rw [h1, List.cons_append, List.cons.injEq] at he
            -- a match at `c` of the rewritten line ends before the first rewritten match, so it is
            -- a match of the line
            have old : ∀ y2, y = t1 ++ y2 → False := fun y2 hy => by
              have : P.run (c :: (y ++ w)) = some (gs', y2 ++ w) :=
                P.run_eq_some_iff.2 ⟨by rw [h1, hy, he.1]; simp, hg⟩
              rw [hrun] at this
              cases this
            rcases hw with ⟨rfl, rfl⟩ | ⟨c0, w', z', rfl, rfl, hc0⟩
            · exact old r' (by simpa using he.2)
            · rcases List.append_eq_append_iff.1 he.2 with ⟨a', rfl, ha'⟩ | ⟨c', rfl, -⟩
              · cases a' with
                | nil => exact old [] (by simp)
                | cons a a' =>
                  obtain ⟨rfl, -⟩ := List.cons_eq_cons.1 ha'
                  have := ht1 c0 (by simp)
                  rw [hc0] at this
                  cases this
              · exact old c' rfl
        simp only [Pattern.rewrite, hrun, hz, List.length_cons] at hm ⊢
        obtain ⟨m, rfl⟩ := Nat.exists_eq_succ_of_ne_zero (by omega : m ≠ 0)
        simp only [Pattern.scan, hrun, hnone]
        rw [← hz]
        exact ih hs (by rw [hz]; omega)

end rewrite

end M65832Tb
