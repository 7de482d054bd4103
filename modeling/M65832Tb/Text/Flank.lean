import M65832Tb.Text.Scan

/-!
# Changing the hexadecimal runs between two `#`

The converter moves a `poke` by rewriting the digits of its address, `16#8010#` to `16#8011#`,
and nothing else of the line.  `Flank s s'` says that `s'` is `s` with some runs of hexadecimal
digits that stand between two `#` replaced by other such runs.  Whatever a pattern finds only in
texts that hold no `#` and some character that is not a hexadecimal digit it finds in `s` exactly
when it finds it in `s'` (`Flank.firstMatch_isSome`): such a text can neither lie inside a run nor
reach across the `#` around it.  So a rewritten line asserts reset, is a test header, has the same
leading white space, and talks about the old program exactly when the line does.
-/

namespace M65832Tb

/-- `s'` is `s` with some runs of hexadecimal digits between two `#` replaced by others. -/
inductive Flank : List Char → List Char → Prop
  | nil : Flank [] []
  | cons (c : Char) {s s' : List Char} : Flank s s' → Flank (c :: s) (c :: s')
  | run {d d' s s' : List Char} : d ≠ [] → d' ≠ [] → (∀ c ∈ d, isHexChar c = true) →
      (∀ c ∈ d', isHexChar c = true) → Flank s s' → Flank ('#' :: (d ++ '#' :: s)) ('#' :: (d' ++ '#' :: s'))

namespace Flank

variable {s s' t r x : List Char}

theorem refl : ∀ s : List Char, Flank s s
  | [] => .nil
  | c :: s => .cons c (refl s)

theorem symm (h : Flank s s') : Flank s' s := by
  induction h with
  | nil => exact .nil
  | cons c _ ih => exact .cons c ih
  | run hd hd' hx hx' _ ih => exact .run hd' hd hx' hx ih

theorem append {a a' : List Char} (ha : Flank a a') (hb : Flank s s') : Flank (a ++ s) (a' ++ s') := by
  induction ha with
  | nil => exact hb
  | cons c _ ih => exact .cons c ih
  | run hd hd' hx hx' _ ih =>
    simp only [List.cons_append, List.append_assoc]
    exact .run hd hd' hx hx' ih

/-- A piece at the start with no `#` is kept, and the rest is again related. -/
theorem lead (h : Flank s s') (hs : s = t ++ r) (ht : '#' ∉ t) :
    ∃ r', s' = t ++ r' ∧ Flank r r' := by
  induction t generalizing s s' with
  | nil => exact ⟨s', rfl, by rw [hs] at h; simpa using h⟩
  | cons c t ih =>
    cases h with
    | nil => cases hs
    | cons c' h' =>
      obtain ⟨rfl, rfl⟩ := List.cons_eq_cons.1 hs
      obtain ⟨r', rfl, hr⟩ := ih h' rfl (fun h => ht (List.mem_cons_of_mem _ h))
      exact ⟨r', rfl, hr⟩
    | run =>
      obtain ⟨rfl, -⟩ := List.cons_eq_cons.1 hs
      exact absurd (List.mem_cons_self _ _) ht

/-- **A piece with no `#` and a non-digit is found at the same place.** -/
theorem piece (h : Flank s s') (hs : s = x ++ t ++ r) (ht : '#' ∉ t)
    (hx : ∃ c ∈ t, isHexChar c = false) : ∃ x' r', s' = x' ++ t ++ r' ∧ Flank r r' := by
  have ht0 : t ≠ [] := by rintro rfl; simp at hx
  induction h generalizing x with
  | nil =>
    rcases x with _ | ⟨_, _⟩ <;> simp at hs
    exact absurd hs.1 ht0
  | @cons c s0 s0' h' ih =>
    cases x with
    | nil =>
      obtain ⟨r', h1, h2⟩ := lead (Flank.cons c h') (by simpa using hs) ht
      exact ⟨[], r', by simpa using h1, h2⟩
    | cons c' x0 =>
      rw [List.cons_append, List.cons_append] at hs
      obtain ⟨-, hs0⟩ := List.cons_eq_cons.1 hs
      obtain ⟨x', r', rfl, hr⟩ := ih hs0
      exact ⟨c :: x', r', by simp, hr⟩
  | @run d d' s0 s0' hd hd' hdx hdx' h' ih =>
    obtain ⟨c0, t0, rfl⟩ := List.exists_cons_of_ne_nil ht0
    cases x with
    | nil =>
      obtain ⟨rfl, -⟩ := List.cons_eq_cons.1 hs
      exact absurd (List.mem_cons_self _ _) ht
    | cons c' x0 =>
      rw [List.cons_append, List.cons_append] at hs
      obtain ⟨-, hs0⟩ := List.cons_eq_cons.1 hs
      rw [List.append_assoc] at hs0
      rcases List.append_eq_append_iff.1 hs0.symm with ⟨a', rfl, ha'⟩ | ⟨c'', rfl, hc''⟩
      · -- the piece starts inside the run: it is all digits, or it reaches the `#` after it
        exfalso
        rcases List.append_eq_append_iff.1 ha' with ⟨b, rfl, -⟩ | ⟨b, hb, hb'⟩
        · obtain ⟨c, hc, hcx⟩ := hx
          have := hdx c (List.mem_append_right _ (List.mem_append_left _ hc))
          rw [hcx] at this
          cases this
        · cases b with
          | nil =>
            obtain ⟨c, hc, hcx⟩ := hx
            rw [List.append_nil] at hb
            have := hdx c (by rw [← hb]; simp [hc])
            rw [hcx] at this
            cases this
          | cons b0 b =>
            obtain ⟨rfl, -⟩ := List.cons_eq_cons.1 hb'
            exact ht (by rw [hb]; simp)
      · cases c'' with
        | nil =>
          obtain ⟨rfl, -⟩ := List.cons_eq_cons.1 (by simpa using hc'')
          exact absurd (List.mem_cons_self _ _) ht
        | cons c1 c'' =>
          obtain ⟨-, hs1⟩ := List.cons_eq_cons.1 hc''
          obtain ⟨x', r', rfl, hr⟩ := ih (x := c'') (by rw [hs1]; simp)
          exact ⟨'#' :: (d' ++ '#' :: x'), r', by simp, hr⟩

theorem takeWhile_space (h : Flank s s') : s.takeWhile isPySpace = s'.takeWhile isPySpace := by
  induction h with
  | nil => rfl
  | cons c _ ih => simp only [List.takeWhile_cons, ih]
  | run => rfl

theorem dropWhile_space (h : Flank s s') : Flank (s.dropWhile isPySpace) (s'.dropWhile isPySpace) := by
  induction h with
  | nil => exact .nil
  | cons c h' ih =>
    simp only [List.dropWhile_cons]
    split_ifs
    · exact ih
    · exact .cons c h'
  | run hd hd' hx hx' h' => exact .run hd hd' hx hx' h'

theorem any_ne_newline (h : Flank s s') : s.any (· ≠ '\n') = s'.any (· ≠ '\n') := by
  induction h with
  | nil => rfl
  | cons c _ ih => simp only [List.any_cons, ih]
  | run => rfl

theorem reverse (h : Flank s s') : Flank s.reverse s'.reverse := by
  induction h with
  | nil => exact .nil
  | cons c _ ih => simpa using ih.append (.cons c .nil)
  | run hd hd' hx hx' _ ih =>
    simpa using ih.append (.run (List.reverse_ne_nil_iff.2 hd) (List.reverse_ne_nil_iff.2 hd')
      (fun c hc => hx c (List.mem_reverse.1 hc)) (fun c hc => hx' c (List.mem_reverse.1 hc)) .nil)

/-- A start with no `#` is kept. -/
theorem isPrefix_iff (h : Flank s s') (ht : '#' ∉ t) : t <+: s ↔ t <+: s' := by
  have one : ∀ {s s'}, Flank s s' → t <+: s → t <+: s' := fun h ⟨r, hr⟩ => by
    obtain ⟨r', rfl, -⟩ := h.lead hr.symm ht
    exact ⟨r', rfl⟩
  exact ⟨one h, one h.symm⟩

/-- A piece with no `#` and a non-digit is kept. -/
theorem isInfix_iff (h : Flank s s') (ht : '#' ∉ t) (hx : ∃ c ∈ t, isHexChar c = false) :
    t <:+: s ↔ t <:+: s' := by
  have one : ∀ {s s'}, Flank s s' → t <:+: s → t <:+: s' := fun h ⟨x, r, hr⟩ => by
    obtain ⟨x', r', rfl, -⟩ := h.piece hr.symm ht hx
    exact ⟨x', r', rfl⟩
  exact ⟨one h, one h.symm⟩

end Flank

/-! ### What a pattern finds -/

/-- Every text the pattern matches holds no `#`, and its first character is not a hexadecimal
digit. -/
def Pattern.avoidsRuns (P : Pattern) : Bool :=
  (P.parts.flatten.all fun a => !a.first.test '#') &&
    match P.parts.flatten with
    | .lit p :: _ => CSet.disjoint (.lit p) (.cls .hex)
    | _ => false

theorem Pattern.avoidsRuns_text {P : Pattern} (hP : P.avoidsRuns = true) {gs : List (List Char)}
    (hg : List.Forall₂ PartTakes P.parts gs) :
    '#' ∉ gs.flatten ∧ ∃ c ∈ gs.flatten, isHexChar c = false := by
  obtain ⟨xs, hxs, -, hf⟩ := exists_of_partTakes hg
  simp only [Pattern.avoidsRuns, Bool.and_eq_true, List.all_eq_true, Bool.not_eq_true'] at hP
  obtain ⟨hh, hl⟩ := hP
  rw [← hf]
  refine ⟨fun hm => ?_, ?_⟩
  · obtain ⟨y, hy, hmy⟩ := List.mem_flatten.1 hm
    obtain ⟨a, ha, hay⟩ := exists_mem_of_forall₂ hxs hy
    have := Atom.takes_first hay _ hmy
    rw [hh a ha] at this
    cases this
  · split at hl
    · rename_i p rest he
      rw [he] at hxs
      cases hxs with
      | cons hx _ =>
        obtain ⟨c, rfl, hc⟩ := hx
        refine ⟨c, by simp, ?_⟩
        have := CSet.disjoint_sound hl (c := c) (by simpa [CSet.test] using hc)
        simpa [CSet.test, CharClass.test_hex] using this
    · cases hl

/-- **A search is unchanged by rewriting runs**, when what it matches is a piece with no `#` and
a non-digit, followed by a rest whose condition the rewriting keeps. -/
theorem Flank.firstMatch_isSome {β : Type} {f : List Char → Option β} {T R : List Char → Prop}
    (hf : ∀ y, (f y).isSome ↔ ∃ t r, y = t ++ r ∧ T t ∧ R r)
    (hT : ∀ t, T t → '#' ∉ t ∧ ∃ c ∈ t, isHexChar c = false)
    (hR : ∀ r r', Flank r r' → R r → R r') {s s' : List Char} (h : Flank s s') :
    (firstMatch f s).isSome = (firstMatch f s').isSome := by
  have one : ∀ {s s'}, Flank s s' → (firstMatch f s).isSome → (firstMatch f s').isSome := by
    intro s s' h hs
    obtain ⟨x, y, rfl, hy⟩ := (firstMatch_isSome_iff f s).1 hs
    obtain ⟨t, r, rfl, htT, hrR⟩ := (hf y).1 hy
    obtain ⟨ht1, ht2⟩ := hT t htT
    obtain ⟨x', r', rfl, hr⟩ := h.piece (x := x) (t := t) (r := r) (by simp) ht1 ht2
    exact (firstMatch_isSome_iff f _).2 ⟨x', t ++ r', by simp, (hf _).2 ⟨t, r', rfl, htT, hR r r' hr hrR⟩⟩
  cases h1 : (firstMatch f s).isSome <;> cases h2 : (firstMatch f s').isSome
  · rfl
  · have := one h.symm h2; rw [h1] at this; cases this
  · have := one h h1; rw [h2] at this; cases this
  · rfl

theorem Flank.search_isSome {P : Pattern} (hP : P.avoidsRuns = true) {s s' : List Char}
    (h : Flank s s') : (P.search s).isSome = (P.search s').isSome := by
  refine Flank.firstMatch_isSome (T := fun t => ∃ gs, t = gs.flatten ∧ List.Forall₂ PartTakes P.parts gs)
    (R := fun _ => True) (fun y => ?_) ?_ (fun _ _ _ _ => trivial) h
  · constructor
    · intro hy
      obtain ⟨⟨gs, r⟩, hr⟩ := Option.isSome_iff_exists.1 hy
      obtain ⟨rfl, hg⟩ := P.run_eq_some_iff.1 hr
      exact ⟨_, r, rfl, ⟨gs, rfl, hg⟩, trivial⟩
    · rintro ⟨t, r, rfl, ⟨gs, rfl, hg⟩, -⟩
      simp [P.run_eq_some_iff.2 ⟨rfl, hg⟩]
  · rintro t ⟨gs, rfl, hg⟩
    exact P.avoidsRuns_text hP hg

/-- **Rewriting matches inside runs**: when each match's new text differs from it only in runs,
so does the rewritten line. -/
theorem Pattern.rewrite_flank {P : Pattern} {f : List (List Char) → List (List Char)}
    (hf : ∀ gs, List.Forall₂ PartTakes P.parts gs → Flank gs.flatten (f gs).flatten) (n : ℕ)
    (u : List Char) : Flank u (P.rewrite f n u) := by
  induction n generalizing u with
  | zero => exact Flank.refl u
  | succ n ih =>
    cases u with
    | nil => exact .nil
    | cons c s =>
      simp only [Pattern.rewrite]
      split
      · rename_i gs r hr
        obtain ⟨he, hg⟩ := P.run_eq_some_iff.1 hr
        rw [he]
        exact (hf gs hg).append (ih r)
      · exact .cons c (ih s)

end M65832Tb
