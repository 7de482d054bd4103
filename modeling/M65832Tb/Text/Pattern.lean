import M65832Tb.Extract.Verify
import Mathlib.Data.List.Forall2

/-!
# The regular expressions of the two scripts

Both scripts read a testbench line through Python regular expressions compiled with
`re.IGNORECASE`.  Every pattern they use is a concatenation, without alternation, of characters,
character classes, and the quantifiers `?`, `*` and `+` on a class (`Atom`).  `runAtoms` matches
such a pattern at the start of a text greedily, without ever giving a character back.

Python's matcher backtracks.  It returns the same match whenever no greedy atom could give a
character back to what follows it: the rest of the pattern can neither match the empty text nor
begin with a character of the atom's class (`detB`, computed from the first characters of the
rest, `firstSets`).  Then a text has at most one way to match the pattern, and
`runAtoms_eq_some_iff` shows that `runAtoms` finds exactly that one: it succeeds on `s` with the
atoms' texts `xs` and the rest `r` if and only if `s = xs.flatten ++ r` and each atom takes its text
(`Atom.Takes`).  Every later statement about a pattern goes through that lemma.

A `Pattern` is a list of parts, the parenthesised groups of the source among them, whose atoms
pass `detB`; its match returns the text of each part.

Case folding: with `re.IGNORECASE` a character of the pattern matches every character with the
same simple lower-case form, and Python adds `ı` to `i` and `ſ` to `s` (`foldCode`).  `\d` is
Python's `\d` on a `str`: every Unicode decimal digit (`decimalZeros`), not only `0`-`9`.
-/

namespace M65832Tb

/-! ### Characters -/

/-- The lower-case code point `re.IGNORECASE` compares: ASCII upper-case letters fold to lower
case, `İ` (U+0130) and `ı` (U+0131) to `i`, `ſ` (U+017F) to `s`, the Kelvin sign (U+212A) to `k`;
no other character folds to an ASCII letter. -/
def foldCode (n : ℕ) : ℕ :=
  if 65 ≤ n ∧ n ≤ 90 then n + 32
  else if n = 0x130 ∨ n = 0x131 then 0x69
  else if n = 0x17F then 0x73
  else if n = 0x212A then 0x6B
  else n

/-- A character `c` of the text matches the character `p` of a pattern under `re.IGNORECASE`. -/
def ciEq (p c : Char) : Bool := foldCode c.toNat == foldCode p.toNat

/-- The code points that fold to `m`. -/
def foldPre (m : ℕ) : List ℕ :=
  (m :: (m - 32) :: [0x130, 0x131, 0x17F, 0x212A]).filter (foldCode · == m)

theorem mem_foldPre {n m : ℕ} (h : foldCode n = m) : n ∈ foldPre m := by
  refine List.mem_filter.2 ⟨?_, by simp [h]⟩
  subst h
  unfold foldCode
  split_ifs <;> simp only [List.mem_cons, List.not_mem_nil, or_false, true_or] <;> omega

/-- The first code point of each run of ten Unicode decimal digits, zero to nine: the characters
of category `Nd` in Unicode 14.0.0, the tables of CPython 3.11, which `\d` matches and `int()`
reads (`unicodedata.decimal`). -/
def decimalZeros : List ℕ :=
  [0x30, 0x660, 0x6F0, 0x7C0, 0x966, 0x9E6, 0xA66, 0xAE6, 0xB66, 0xBE6, 0xC66, 0xCE6, 0xD66,
   0xDE6, 0xE50, 0xED0, 0xF20, 0x1040, 0x1090, 0x17E0, 0x1810, 0x1946, 0x19D0, 0x1A80, 0x1A90,
   0x1B50, 0x1BB0, 0x1C40, 0x1C50, 0xA620, 0xA8D0, 0xA900, 0xA9D0, 0xA9F0, 0xAA50, 0xABF0, 0xFF10,
   0x104A0, 0x10D30, 0x11066, 0x110F0, 0x11136, 0x111D0, 0x112F0, 0x11450, 0x114D0, 0x11650,
   0x116C0, 0x11730, 0x118E0, 0x11950, 0x11C50, 0x11D50, 0x11DA0, 0x16A60, 0x16AC0, 0x16B50,
   0x1D7CE, 0x1D7D8, 0x1D7E2, 0x1D7EC, 0x1D7F6, 0x1E140, 0x1E2F0, 0x1E950, 0x1FBF0]

/-- The zero of the run of decimal digits that holds the code point `n`, if one does. -/
def decimalZero? (n : ℕ) : Option ℕ := decimalZeros.find? fun z => z ≤ n && n < z + 10

theorem decimalZero?_spec {n z : ℕ} (h : decimalZero? n = some z) :
    z ∈ decimalZeros ∧ z ≤ n ∧ n < z + 10 := by
  have := List.find?_some h
  simp only [Bool.and_eq_true, decide_eq_true_eq] at this
  exact ⟨List.mem_of_find?_eq_some h, this⟩

/-- The character classes of the patterns. -/
inductive CharClass where
  /-- `\s`. -/
  | space
  /-- `[0-9A-Fa-f]`. -/
  | hex
  /-- `\d`: a Unicode decimal digit. -/
  | digit
  /-- `[A-Za-z]` under `re.IGNORECASE`. -/
  | letter
  /-- `[01]`. -/
  | bit
  /-- `-`, repeated by `-+`. -/
  | dash
  /-- `[^"]`. -/
  | notQuote
  deriving DecidableEq, Repr

/-- Whether a class takes the character of code point `n`. -/
def CharClass.testN : CharClass → ℕ → Bool
  | .space, n => (0x09 ≤ n && n ≤ 0x0D) || (0x1C ≤ n && n ≤ 0x20) || n == 0x85 || n == 0xA0 ||
      n == 0x1680 || (0x2000 ≤ n && n ≤ 0x200A) || n == 0x2028 || n == 0x2029 || n == 0x202F ||
      n == 0x205F || n == 0x3000
  | .hex, n => (48 ≤ n && n ≤ 57) || (97 ≤ n && n ≤ 102) || (65 ≤ n && n ≤ 70)
  | .digit, n => (decimalZero? n).isSome
  | .letter, n => 97 ≤ foldCode n && foldCode n ≤ 122
  | .bit, n => n == 48 || n == 49
  | .dash, n => n == 45
  | .notQuote, n => n != 34

/-- Whether a class takes a character. -/
def CharClass.test (k : CharClass) (c : Char) : Bool := k.testN c.toNat

theorem CharClass.test_space (c : Char) : CharClass.space.test c = isPySpace c := rfl

theorem CharClass.test_hex (c : Char) : CharClass.hex.test c = isHexChar c := by
  simp only [CharClass.test, CharClass.testN, isHexChar, Char.le_def, UInt32.le_def,
    Char.toNat, Fin.le_def]
  rfl

/-- Pairs of classes that share no character. -/
def CharClass.disjoint (a b : CharClass) : Bool :=
  [(CharClass.space, CharClass.hex), (.space, .digit), (.space, .letter), (.space, .bit),
    (.space, .dash), (.hex, .dash), (.digit, .letter), (.digit, .dash), (.letter, .bit),
    (.letter, .dash), (.bit, .dash)].any fun p => p == (a, b) || p == (b, a)

/-- The letters under case folding: the ASCII letters, and the four characters that fold to
one. -/
theorem CharClass.testN_letter (n : ℕ) : CharClass.letter.testN n = true ↔
    (65 ≤ n ∧ n ≤ 90) ∨ (97 ≤ n ∧ n ≤ 122) ∨ n = 0x130 ∨ n = 0x131 ∨ n = 0x17F ∨ n = 0x212A := by
  simp only [CharClass.testN, Bool.and_eq_true, decide_eq_true_eq]
  unfold foldCode
  split_ifs <;> omega

/-- The runs of decimal digits: `0`-`9`, and runs above U+0660 that miss the white space at
U+1680 and from U+2000 to U+3000. -/
theorem decimalZeros_ranges : ∀ z ∈ decimalZeros, z = 0x30 ∨ (0x660 ≤ z ∧ z + 10 ≤ 0x1680) ∨
    (0x1680 < z ∧ z + 10 ≤ 0x2000) ∨ 0x3000 < z := by
  decide

/-- No decimal digit is white space, a letter under case folding, or `-`. -/
theorem CharClass.digit_apart {n : ℕ} {c : CharClass} (h : CharClass.digit.testN n = true)
    (hc : c.testN n = true) (hm : c ∈ [CharClass.space, .letter, .dash]) : False := by
  obtain ⟨z, hz⟩ := Option.isSome_iff_exists.1 h
  obtain ⟨hz, h1, h2⟩ := decimalZero?_spec hz
  have hr := decimalZeros_ranges z hz
  simp only [List.mem_cons, List.mem_singleton, List.not_mem_nil, or_false] at hm
  rcases hm with rfl | rfl | rfl
  · simp only [CharClass.testN, Bool.or_eq_true, Bool.and_eq_true, decide_eq_true_eq,
      beq_iff_eq] at hc
    omega
  · rw [CharClass.testN_letter] at hc
    omega
  · simp only [CharClass.testN, beq_iff_eq] at hc
    omega

theorem CharClass.disjoint_sound {a b : CharClass} (h : a.disjoint b = true) {n : ℕ}
    (ha : a.testN n = true) : b.testN n = false := by
  simp only [CharClass.disjoint, List.any_cons, List.any_nil, Bool.or_false, Bool.or_eq_true,
    beq_iff_eq, Prod.mk.injEq] at h
  refine Bool.eq_false_iff.2 fun hb => ?_
  rcases h with (⟨rfl, rfl⟩ | ⟨rfl, rfl⟩) | (⟨rfl, rfl⟩ | ⟨rfl, rfl⟩) | (⟨rfl, rfl⟩ | ⟨rfl, rfl⟩) |
    (⟨rfl, rfl⟩ | ⟨rfl, rfl⟩) | (⟨rfl, rfl⟩ | ⟨rfl, rfl⟩) | (⟨rfl, rfl⟩ | ⟨rfl, rfl⟩) |
    (⟨rfl, rfl⟩ | ⟨rfl, rfl⟩) | (⟨rfl, rfl⟩ | ⟨rfl, rfl⟩) | (⟨rfl, rfl⟩ | ⟨rfl, rfl⟩) |
    (⟨rfl, rfl⟩ | ⟨rfl, rfl⟩) | (⟨rfl, rfl⟩ | ⟨rfl, rfl⟩) <;>
  first
  | exact CharClass.digit_apart hb ha (by decide)
  | exact CharClass.digit_apart ha hb (by decide)
  | ((try simp only [CharClass.testN_letter] at ha hb)
     simp only [CharClass.testN, Bool.or_eq_true, Bool.and_eq_true, decide_eq_true_eq,
       beq_iff_eq] at ha hb
     omega)

/-! ### Atoms -/

/-- One element of a pattern. -/
inductive Atom where
  /-- A character of the pattern, matched under `re.IGNORECASE`. -/
  | lit (p : Char)
  /-- One character of a class. -/
  | one (k : CharClass)
  /-- `[...]?`. -/
  | opt (k : CharClass)
  /-- `[...]*`. -/
  | star (k : CharClass)
  /-- `[...]+`. -/
  | plus (k : CharClass)
  deriving DecidableEq, Repr

/-- An atom at the start of a text: the characters it takes, greedily, and the rest. -/
def Atom.run : Atom → List Char → Option (List Char × List Char)
  | .lit p, c :: s => if ciEq p c then some ([c], s) else none
  | .lit _, [] => none
  | .one k, c :: s => if k.test c then some ([c], s) else none
  | .one _, [] => none
  | .opt k, c :: s => if k.test c then some ([c], s) else some ([], c :: s)
  | .opt _, [] => some ([], [])
  | .star k, s => some (s.takeWhile k.test, s.dropWhile k.test)
  | .plus k, s =>
    if (s.takeWhile k.test).isEmpty then none else some (s.takeWhile k.test, s.dropWhile k.test)

/-- The texts an atom matches. -/
def Atom.Takes : Atom → List Char → Prop
  | .lit p, x => ∃ c, x = [c] ∧ ciEq p c = true
  | .one k, x => ∃ c, x = [c] ∧ k.test c = true
  | .opt k, x => x = [] ∨ ∃ c, x = [c] ∧ k.test c = true
  | .star k, x => ∀ c ∈ x, k.test c = true
  | .plus k, x => x ≠ [] ∧ ∀ c ∈ x, k.test c = true

/-- A pattern at the start of a text: the text of each atom, and the rest. -/
def runAtoms : List Atom → List Char → Option (List (List Char) × List Char)
  | [], s => some ([], s)
  | a :: as, s =>
    match a.run s with
    | some (x, r) => (runAtoms as r).map fun p => (x :: p.1, p.2)
    | none => none

/-- A set of characters: those a literal matches, or those of a class. -/
inductive CSet where
  | lit (p : Char)
  | cls (k : CharClass)
  deriving DecidableEq, Repr

def CSet.test : CSet → Char → Bool
  | .lit p, c => ciEq p c
  | .cls k, c => k.test c

/-- Two sets with no character in common: decided on the finitely many characters a literal
matches, or by the table of disjoint classes. -/
def CSet.disjoint : CSet → CSet → Bool
  | .lit p, .lit q => foldCode p.toNat != foldCode q.toNat
  | .lit p, .cls k => (foldPre (foldCode p.toNat)).all fun n => !k.testN n
  | .cls k, .lit p => (foldPre (foldCode p.toNat)).all fun n => !k.testN n
  | .cls k, .cls k' => k.disjoint k'

theorem CSet.disjoint_sound {a b : CSet} (h : a.disjoint b = true) {c : Char}
    (ha : a.test c = true) : b.test c = false := by
  cases a with
  | lit p =>
    cases b with
    | lit q =>
      simp only [CSet.disjoint, bne_iff_ne, ne_eq] at h
      simp only [CSet.test, ciEq, beq_iff_eq, Bool.eq_false_iff, ne_eq] at ha ⊢
      exact fun h' => h (ha.symm.trans h')
    | cls k =>
      simp only [CSet.test, ciEq, beq_iff_eq] at ha
      simpa using List.all_eq_true.1 h _ (mem_foldPre ha)
  | cls k =>
    cases b with
    | lit p =>
      simp only [CSet.test, CharClass.test] at ha
      simp only [CSet.test, ciEq, beq_iff_eq, Bool.eq_false_iff, ne_eq]
      intro hp
      simpa [ha] using List.all_eq_true.1 h _ (mem_foldPre hp)
    | cls k' => exact CharClass.disjoint_sound h ha

/-- The characters an atom's non-empty texts begin with. -/
def Atom.first : Atom → CSet
  | .lit p => .lit p
  | .one k | .opt k | .star k | .plus k => .cls k

/-- `?` and `*` match the empty text. -/
def Atom.nullable : Atom → Bool
  | .opt _ | .star _ => true
  | _ => false

/-- The class of a greedy atom. -/
def Atom.greedy : Atom → Option CharClass
  | .opt k | .star k | .plus k => some k
  | _ => none

/-- The sets the texts of a pattern can begin with. -/
def firstSets : List Atom → List CSet
  | [] => []
  | a :: as => a.first :: if a.nullable then firstSets as else []

/-- No greedy atom could give a character back: what follows it cannot match the empty text nor
begin with a character of its class. -/
def detB : List Atom → Bool
  | [] => true
  | a :: as =>
    (match a.greedy with
      | some k => !(as.all Atom.nullable) && (firstSets as).all (CSet.disjoint (.cls k))
      | none => true) && detB as

/-! ### The greedy match is the only match -/

section atoms

variable {a : Atom} {as : List Atom} {s r x : List Char} {xs : List (List Char)}

theorem Atom.takes_first (h : a.Takes x) : ∀ c ∈ x, a.first.test c = true := by
  cases a with
  | lit p => obtain ⟨c, rfl, hc⟩ := h; simpa [Atom.first, CSet.test] using hc
  | one k => obtain ⟨c, rfl, hc⟩ := h; simpa [Atom.first, CSet.test] using hc
  | opt k =>
    rcases h with rfl | ⟨c, rfl, hc⟩
    · simp
    · simpa [Atom.first, CSet.test] using hc
  | star k => exact fun c hc => by simpa [Atom.first, CSet.test] using h c hc
  | plus k => exact fun c hc => by simpa [Atom.first, CSet.test] using h.2 c hc

theorem Atom.takes_ne_nil (h : a.Takes x) (hn : a.nullable = false) : x ≠ [] := by
  cases a with
  | lit p => obtain ⟨c, rfl, -⟩ := h; simp
  | one k => obtain ⟨c, rfl, -⟩ := h; simp
  | plus k => exact h.1
  | opt k | star k => cases hn

theorem Atom.run_sound (h : a.run s = some (x, r)) : s = x ++ r ∧ a.Takes x := by
  have split : ∀ k : CharClass, s = s.takeWhile k.test ++ s.dropWhile k.test ∧
      ∀ c ∈ s.takeWhile k.test, k.test c = true :=
    fun k => ⟨(List.takeWhile_append_dropWhile _ _).symm, fun c hc => List.mem_takeWhile_imp hc⟩
  cases a with
  | lit p =>
    cases s with
    | nil => cases h
    | cons c s => simp only [Atom.run] at h; split_ifs at h with hc; cases h; exact ⟨rfl, c, rfl, hc⟩
  | one k =>
    cases s with
    | nil => cases h
    | cons c s => simp only [Atom.run] at h; split_ifs at h with hc; cases h; exact ⟨rfl, c, rfl, hc⟩
  | opt k =>
    cases s with
    | nil => cases h; exact ⟨rfl, .inl rfl⟩
    | cons c s =>
      simp only [Atom.run] at h
      split_ifs at h with hc <;> cases h
      · exact ⟨rfl, .inr ⟨c, rfl, hc⟩⟩
      · exact ⟨rfl, .inl rfl⟩
  | star k => simp only [Atom.run, Option.some.injEq, Prod.mk.injEq] at h; obtain ⟨rfl, rfl⟩ := h; exact split k
  | plus k =>
    simp only [Atom.run] at h
    split_ifs at h with hc
    cases h
    exact ⟨(split k).1, by simpa using hc, (split k).2⟩

/-- An atom takes its text greedily when what follows it does not begin with a character of its
class. -/
theorem Atom.run_of_takes (h : a.Takes x)
    (hg : ∀ k, a.greedy = some k → ∀ c t, r = c :: t → k.test c = false) :
    a.run (x ++ r) = some (x, r) := by
  have stop : ∀ k, a.greedy = some k → r.takeWhile k.test = [] ∧ r.dropWhile k.test = r := by
    intro k hk
    cases r with
    | nil => simp
    | cons c t => simp [hg k hk c t rfl]
  cases a with
  | lit p => obtain ⟨c, rfl, hc⟩ := h; simp [Atom.run, hc]
  | one k => obtain ⟨c, rfl, hc⟩ := h; simp [Atom.run, hc]
  | opt k =>
    rcases h with rfl | ⟨c, rfl, hc⟩
    · obtain ⟨h1, -⟩ := stop k rfl
      cases r with
      | nil => rfl
      | cons c t => simp [Atom.run, hg k rfl c t rfl]
    · simp [Atom.run, hc]
  | star k =>
    obtain ⟨h1, h2⟩ := stop k rfl
    simp [Atom.run, List.takeWhile_append_of_pos h, List.dropWhile_append_of_pos h, h1, h2]
  | plus k =>
    obtain ⟨h1, h2⟩ := stop k rfl
    simp [Atom.run, List.takeWhile_append_of_pos h.2, List.dropWhile_append_of_pos h.2, h1, h2, h.1]

theorem join_ne_nil_of_takes (h : List.Forall₂ Atom.Takes as xs) (hn : as.all Atom.nullable = false) :
    xs.flatten ≠ [] := by
  induction h with
  | nil => simp at hn
  | @cons a x as xs ha _ ih =>
    simp only [List.all_cons, Bool.and_eq_false_iff] at hn
    rcases hn with hn | hn
    · simp [Atom.takes_ne_nil ha hn]
    · simp [ih hn]

theorem first_mem_firstSets (h : List.Forall₂ Atom.Takes as xs) {c : Char} {t : List Char}
    (hc : xs.flatten = c :: t) : ∃ cs ∈ firstSets as, cs.test c = true := by
  induction h generalizing t with
  | nil => simp at hc
  | @cons a x as xs ha _ ih =>
    rw [List.flatten_cons] at hc
    cases x with
    | cons c' x =>
      obtain ⟨rfl, -⟩ := List.cons_eq_cons.1 hc
      exact ⟨a.first, by simp [firstSets], Atom.takes_first ha _ (List.mem_cons_self _ _)⟩
    | nil =>
      have hn : a.nullable = true := by
        cases h' : a.nullable
        · exact absurd rfl (Atom.takes_ne_nil ha h')
        · rfl
      obtain ⟨cs, hcs, hct⟩ := ih hc
      exact ⟨cs, by simp [firstSets, hn, hcs], hct⟩

/-- **The greedy match is the only match.**  For a pattern whose greedy atoms give nothing back,
`runAtoms` succeeds with the texts `xs` exactly when the text is their concatenation followed by
the rest and each atom takes its text. -/
theorem runAtoms_eq_some_iff (hd : detB as = true) :
    runAtoms as s = some (xs, r) ↔ s = xs.flatten ++ r ∧ List.Forall₂ Atom.Takes as xs := by
  induction as generalizing s xs r with
  | nil =>
    simp only [runAtoms, Option.some.injEq, Prod.mk.injEq, List.forall₂_nil_left_iff]
    constructor
    · rintro ⟨rfl, rfl⟩; simp
    · rintro ⟨rfl, rfl⟩; simp
  | cons a as ih =>
    simp only [detB, Bool.and_eq_true] at hd
    constructor
    · intro h
      simp only [runAtoms] at h
      split at h
      · rename_i x r0 hr
        obtain ⟨⟨xs', r'⟩, hrest, he⟩ := Option.map_eq_some'.1 h
        cases he
        obtain ⟨rfl, hx⟩ := Atom.run_sound hr
        obtain ⟨rfl, hxs⟩ := (ih hd.2).1 hrest
        exact ⟨by simp, .cons hx hxs⟩
      · cases h
    · rintro ⟨rfl, hxs⟩
      obtain ⟨x, xs', hx, hxs', rfl⟩ : ∃ x xs', a.Takes x ∧ List.Forall₂ Atom.Takes as xs' ∧
          xs = x :: xs' := by
        cases hxs with
        | cons hx hxs' => exact ⟨_, _, hx, hxs', rfl⟩
      have hrun : a.run (x ++ (xs'.flatten ++ r)) = some (x, xs'.flatten ++ r) := by
        refine Atom.run_of_takes hx fun k hk c t ht => ?_
        have hk' := hd.1
        rw [hk] at hk'
        simp only [Bool.and_eq_true, Bool.not_eq_true', List.all_eq_true] at hk'
        have hne := join_ne_nil_of_takes hxs' hk'.1
        obtain ⟨c', t', hct⟩ := List.exists_cons_of_ne_nil hne
        rw [hct, List.cons_append] at ht
        obtain ⟨rfl, -⟩ := List.cons_eq_cons.1 ht
        obtain ⟨cs, hcs, hcc⟩ := first_mem_firstSets hxs' hct
        cases hkc : k.test c'
        · rfl
        · have := CSet.disjoint_sound (hk'.2 cs hcs) (c := c') (by simpa [CSet.test] using hkc)
          rw [hcc] at this
          cases this
      rw [List.flatten_cons, List.append_assoc]
      simp only [runAtoms, hrun, (ih hd.2).2 ⟨rfl, hxs'⟩, Option.map_some']

end atoms

/-! ### Patterns and their parts -/

/-- The texts of the parts of a pattern, cut from the texts of its atoms. -/
def regroup : List ℕ → List (List Char) → List (List Char)
  | [], _ => []
  | n :: ns, xs => (xs.take n).flatten :: regroup ns (xs.drop n)

/-- A part of a pattern takes a text: its atoms take the pieces of it. -/
def PartTakes (p : List Atom) (g : List Char) : Prop :=
  ∃ xs, g = xs.flatten ∧ List.Forall₂ Atom.Takes p xs

/-- A pattern of the source: its parts in order, the parenthesised groups among them; its greedy
atoms give nothing back, and it cannot match the empty text. -/
structure Pattern where
  parts : List (List Atom)
  det : detB parts.flatten = true
  solid : parts.flatten.all Atom.nullable = false

/-- The pattern at the start of a text: the text of each part, and the rest. -/
def Pattern.run (P : Pattern) (s : List Char) : Option (List (List Char) × List Char) :=
  (runAtoms P.parts.flatten s).map fun p => (regroup (P.parts.map List.length) p.1, p.2)

section parts

variable {ps : List (List Atom)} {xs gs : List (List Char)}

theorem regroup_of_forall₂ (h : List.Forall₂ Atom.Takes ps.flatten xs) :
    List.Forall₂ PartTakes ps (regroup (ps.map List.length) xs) ∧
      (regroup (ps.map List.length) xs).flatten = xs.flatten := by
  induction ps generalizing xs with
  | nil =>
    cases h
    exact ⟨.nil, rfl⟩
  | cons p ps ih =>
    rw [List.flatten_cons] at h
    have h1 := List.forall₂_take p.length h
    have h2 := List.forall₂_drop p.length h
    rw [List.take_left] at h1
    rw [List.drop_left] at h2
    obtain ⟨ih1, ih2⟩ := ih h2
    exact ⟨.cons ⟨_, rfl, h1⟩ ih1, by
      rw [List.map_cons, regroup, List.flatten_cons, ih2, ← List.flatten_append,
        List.take_append_drop]⟩

theorem exists_of_partTakes (h : List.Forall₂ PartTakes ps gs) :
    ∃ xs, List.Forall₂ Atom.Takes ps.flatten xs ∧ regroup (ps.map List.length) xs = gs ∧
      xs.flatten = gs.flatten := by
  induction h with
  | nil => exact ⟨[], .nil, rfl, rfl⟩
  | @cons p g ps gs hp _ ih =>
    obtain ⟨ys, rfl, hys⟩ := hp
    obtain ⟨xs, hxs, hr, hf⟩ := ih
    have hl := hys.length_eq
    refine ⟨ys ++ xs, List.rel_append hys hxs, ?_, by simp [hf]⟩
    rw [List.map_cons, regroup, hl, List.take_left, List.drop_left, hr]

/-- A part whose atoms give nothing back takes every text it runs through to the end. -/
theorem partTakes_of_runAtoms {p : List Atom} (hd : detB p = true) {g : List Char}
    (h : (runAtoms p g).map Prod.snd = some []) : PartTakes p g := by
  obtain ⟨⟨xs, r⟩, hr, rfl⟩ := Option.map_eq_some'.1 h
  obtain ⟨hg, hxs⟩ := (runAtoms_eq_some_iff hd).1 hr
  exact ⟨xs, by simpa using hg, hxs⟩

/-- **A pattern matches its parts' texts, and only them.** -/
theorem Pattern.run_eq_some_iff (P : Pattern) {s r : List Char} :
    P.run s = some (gs, r) ↔ s = gs.flatten ++ r ∧ List.Forall₂ PartTakes P.parts gs := by
  constructor
  · intro h
    obtain ⟨⟨xs, r'⟩, hrun, he⟩ := Option.map_eq_some'.1 h
    cases he
    obtain ⟨rfl, hxs⟩ := (runAtoms_eq_some_iff P.det).1 hrun
    obtain ⟨h1, h2⟩ := regroup_of_forall₂ hxs
    exact ⟨by rw [h2], h1⟩
  · rintro ⟨rfl, h⟩
    obtain ⟨xs, hxs, hr, hf⟩ := exists_of_partTakes h
    simp only [Pattern.run, ← hf, (runAtoms_eq_some_iff P.det).2 ⟨rfl, hxs⟩, Option.map_some', hr]

/-- A match consumes at least one character. -/
theorem Pattern.run_shrinks (P : Pattern) {s r : List Char} (h : P.run s = some (gs, r)) :
    r.length < s.length := by
  obtain ⟨rfl, hg⟩ := P.run_eq_some_iff.1 h
  obtain ⟨xs, hxs, -, hf⟩ := exists_of_partTakes hg
  have := join_ne_nil_of_takes hxs P.solid
  rw [hf] at this
  have : 0 < gs.flatten.length := List.length_pos.2 this
  simp only [List.length_append]
  omega

end parts

end M65832Tb
