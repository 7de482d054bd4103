import M65832Tb.Extract.Verify
import Mathlib.Data.Nat.Digits

/-!
# Reading the emulator's dump

The emulator answers a read `m ADDR 1` with a dump line `AAAAAAAA: VV` (`dumpLine`), and
`run_emulator_test_v2` finds the byte of a check with `re.search` over the whole output.

* `reSearch_dumpText`: on an output of dump lines the search for an address returns the byte of
  the first line of that address.  Past the first character of a line the pattern fails within
  the line (`dumpMatch_inside`), and at the start of a line it matches exactly the line of its
  own address (`dumpMatch_line`), since `{addr:08X}` is injective (`hexUpper_injective`).
* `verify_distinct_checks`: the script reads the checks' addresses once each, in the order of
  `all_checks`, so when the checked addresses are distinct each check is judged against the
  value of its own read.
* `verify_first_dump`: in general each check is judged against the first dump of its address, so
  when an address is read twice the first dump answers both (`recheck_reads_first_dump`).

The format lemmas read `Nat.toDigits 16` digit by digit (`toDigits_sixteen`) and decode its
output back (`hexNum_hexUpper`).
-/

namespace M65832Tb

/-! ### The digits `hexUpper` prints -/

/-- The characters `{n:X}` prints. -/
def upperHexChars : List Char :=
  ['0', '1', '2', '3', '4', '5', '6', '7', '8', '9', 'A', 'B', 'C', 'D', 'E', 'F']

theorem upperHexChars_spec : ∀ c ∈ upperHexChars, isHexChar c = true ∧ c.toUpper = c ∧
    isPySpace c = false ∧ c ∉ [':', ' ', '\n'] := by
  decide

theorem digitChar_upper : ∀ d < 16, (Nat.digitChar d).toUpper ∈ upperHexChars ∧
    hexValue (Nat.digitChar d).toUpper = d := by
  decide

theorem toDigitsCore_append (f n : ℕ) (ds : List Char) (h : n < f) :
    Nat.toDigitsCore 16 f n ds = Nat.toDigitsCore 16 f n [] ++ ds := by
  induction f generalizing n ds with
  | zero => omega
  | succ f ih =>
    simp only [Nat.toDigitsCore]
    split_ifs
    · rfl
    · rw [ih _ _ (by omega), ih _ [_] (by omega), List.append_assoc]; rfl

theorem toDigitsCore_fuel (f g n : ℕ) (ds : List Char) (hf : n < f) (hg : n < g) :
    Nat.toDigitsCore 16 f n ds = Nat.toDigitsCore 16 g n ds := by
  induction f generalizing g n ds with
  | zero => omega
  | succ f ih =>
    cases g with
    | zero => omega
    | succ g =>
      simp only [Nat.toDigitsCore]
      split_ifs
      · rfl
      · exact ih _ _ _ (by omega) (by omega)

/-- `Nat.toDigits 16`: the digits of `n / 16`, then the last digit. -/
theorem toDigits_sixteen (n : ℕ) :
    Nat.toDigits 16 n = if n < 16 then [Nat.digitChar n]
      else Nat.toDigits 16 (n / 16) ++ [Nat.digitChar (n % 16)] := by
  rw [Nat.toDigits, Nat.toDigitsCore]
  split_ifs with h1 h2 h2
  · rw [Nat.mod_eq_of_lt h2]
  · omega
  · omega
  · rw [toDigitsCore_append _ _ _ (by omega), Nat.toDigits,
      toDigitsCore_fuel n (n / 16 + 1) _ _ (by omega) (by omega)]

/-- The number hexadecimal digits spell, as `int(_, 16)` reads them. -/
def hexNum (ds : List Char) : ℕ := ds.foldl (fun acc c => 16 * acc + hexValue c) 0

theorem hexNum_append_singleton (ds : List Char) (c : Char) :
    hexNum (ds ++ [c]) = 16 * hexNum ds + hexValue c := by
  simp [hexNum]

theorem hexNum_zeros (k : ℕ) (ds : List Char) : hexNum (List.replicate k '0' ++ ds) = hexNum ds := by
  have : ∀ k, (List.replicate k '0').foldl (fun acc c => 16 * acc + hexValue c) 0 = 0 := by
    intro k; induction k with
    | zero => rfl
    | succ k ih => rw [List.replicate_succ', List.foldl_append, ih]; rfl
  rw [hexNum, List.foldl_append, this, hexNum]

/-- The digits `{n:X}` prints, without padding. -/
theorem digits_upper (n : ℕ) :
    hexNum ((Nat.toDigits 16 n).map Char.toUpper) = n ∧
      ∀ c ∈ (Nat.toDigits 16 n).map Char.toUpper, c ∈ upperHexChars := by
  induction n using Nat.strong_induction_on with
  | _ n ih =>
    rw [toDigits_sixteen]
    split_ifs with h
    · simp [hexNum, (digitChar_upper n h).1, (digitChar_upper n h).2]
    · have hd := digitChar_upper (n % 16) (Nat.mod_lt _ (by omega))
      obtain ⟨ih1, ih2⟩ := ih (n / 16) (by omega)
      refine ⟨?_, ?_⟩
      · rw [List.map_append, List.map_singleton, hexNum_append_singleton, ih1, hd.2]; omega
      · intro c hc
        rcases List.mem_append.1 (List.map_append _ _ _ ▸ hc) with hc | hc
        · exact ih2 c hc
        · rw [List.map_singleton, List.mem_singleton] at hc; exact hc ▸ hd.1

theorem hexNum_hexUpper (w n : ℕ) : hexNum (hexUpper w n) = n := by
  rw [hexUpper, hexNum_zeros, (digits_upper n).1]

theorem hexUpper_injective (w : ℕ) {a b : ℕ} (h : hexUpper w a = hexUpper w b) : a = b := by
  rw [← hexNum_hexUpper w a, h, hexNum_hexUpper]

theorem mem_hexUpper {w n : ℕ} {c : Char} (h : c ∈ hexUpper w n) : c ∈ upperHexChars := by
  simp only [hexUpper, List.mem_append, List.mem_replicate] at h
  rcases h with ⟨-, rfl⟩ | h
  · decide
  · exact (digits_upper n).2 c h

theorem length_hexUpper {w n : ℕ} (hw : 0 < w) (h : n < 16 ^ w) : (hexUpper w n).length = w := by
  have := Nat.toDigitsCore_length 16 (by norm_num) (n + 1) n w h hw
  simp only [hexUpper, List.length_append, List.length_replicate, List.length_map]
  rw [Nat.toDigits]; omega

/-! ### The search over a dump -/

theorem matchCI_append (P X Y : List Char) (h : X.length = P.length) :
    matchCI P (X ++ Y) = if X.map Char.toUpper = P then some Y else none := by
  induction P generalizing X with
  | nil => rw [List.eq_nil_of_length_eq_zero h]; rfl
  | cons p P ih =>
    cases X with
    | nil => simp at h
    | cons x X =>
      rw [List.cons_append, matchCI, ih X (by simpa using h)]
      by_cases hx : x.toUpper = p <;> simp [hx]

/-- The match fails at the first character that differs. -/
theorem matchCI_eq_none {P s : List Char} {j : ℕ} (hj : j < P.length)
    (h : ∀ c, s[j]? = some c → some c.toUpper ≠ P[j]?) : matchCI P s = none := by
  induction P generalizing s j with
  | nil => simp at hj
  | cons p P ih =>
    cases s with
    | nil => rfl
    | cons c s =>
      rw [matchCI]
      split_ifs with hc
      · cases j with
        | zero => exact absurd (congrArg some hc) (by simpa using h c (by simp))
        | succ j => exact ih (by simpa using hj) fun c' hc' => by simpa using h c' (by simpa using hc')
      · rfl

theorem dumpLine_spec {r : ℕ × ℕ} (hr : r.1 < 16 ^ 8) (hv : r.2 < 256) :
    dumpLine r = hexUpper 8 r.1 ++ ':' :: ' ' :: (hexUpper 2 r.2 ++ ['\n']) ∧
      (hexUpper 8 r.1).length = 8 ∧ (hexUpper 2 r.2).length = 2 := by
  exact ⟨by simp [dumpLine], length_hexUpper (by norm_num) hr,
    length_hexUpper (by norm_num) (by omega)⟩

section dump

variable {a : ℕ} {r : ℕ × ℕ}

/-- Past the first character of a dump line the pattern of any address fails within the line: the
colon, the blank or the line end stands where the pattern has a digit. -/
theorem dumpMatch_inside (hr : r.1 < 16 ^ 8) (hv : r.2 < 256) (ha : a < 16 ^ 8) (R : List Char)
    {i : ℕ} (hi0 : 0 < i) (hi : i < (dumpLine r).length) :
    dumpMatch (dumpPattern a) ((dumpLine r ++ R).drop i) = none := by
  obtain ⟨hL, h8, h2⟩ := dumpLine_spec hr hv
  have hlen : (dumpLine r).length = 13 := by simp [hL, h8, h2]
  -- the position in the line of a character the pattern cannot match
  obtain ⟨k, hik, hki, hk, c, hc, hLk⟩ :
      ∃ k, i ≤ k ∧ k < i + 8 ∧ k < 13 ∧ ∃ c ∈ [':', ' ', '\n'], (dumpLine r)[k]? = some c := by
    rw [hL]
    rcases (show i ≤ 8 ∨ i = 9 ∨ 10 ≤ i by omega) with h | h | h
    · exact ⟨8, h, by omega, by omega, ':', by simp,
        by rw [List.getElem?_append_right (by omega), h8]; simp⟩
    · exact ⟨9, by omega, by omega, by omega, ' ', by simp,
        by rw [List.getElem?_append_right (by omega), h8]; simp⟩
    · refine ⟨12, by omega, by omega, by omega, '\n', by simp, ?_⟩
      rw [List.getElem?_append_right (by omega), h8, show 12 - 8 = 2 + 1 + 1 from rfl,
        List.getElem?_cons_succ, List.getElem?_cons_succ, List.getElem?_append_right (by omega), h2]
      rfl
  have hP : (dumpPattern a).length = 9 := by simp [dumpPattern, length_hexUpper (by norm_num) ha]
  rw [dumpMatch, matchCI_eq_none (j := k - i) (by omega), Option.none_bind]
  intro c' hc'
  rw [List.getElem?_drop, Nat.add_sub_cancel' hik, List.getElem?_append_left (by omega), hLk] at hc'
  obtain rfl := Option.some.inj hc'
  have hk8 : k - i < (hexUpper 8 a).length := by rw [length_hexUpper (by norm_num) ha]; omega
  rw [dumpPattern, List.getElem?_append_left hk8, List.getElem?_eq_getElem hk8]
  have hcu : c.toUpper = c := by simp at hc; rcases hc with rfl | rfl | rfl <;> rfl
  rw [hcu]
  intro heq
  exact (upperHexChars_spec _ (mem_hexUpper (Option.some.inj heq ▸ List.getElem_mem _))).2.2.2 hc

/-- At the start of a dump line the pattern matches exactly the line of its own address, and
captures the line's byte. -/
theorem dumpMatch_line (hr : r.1 < 16 ^ 8) (hv : r.2 < 256) (ha : a < 16 ^ 8) (R : List Char) :
    dumpMatch (dumpPattern a) (dumpLine r ++ R) = if r.1 = a then some r.2 else none := by
  obtain ⟨hL, h8, h2⟩ := dumpLine_spec hr hv
  obtain ⟨v0, v1, hV⟩ := List.length_eq_two.1 h2
  have hX : ∀ c ∈ hexUpper 8 r.1 ++ [':'], c.toUpper = c := by
    intro c hc
    rcases List.mem_append.1 hc with hc | hc
    · exact (upperHexChars_spec c (mem_hexUpper hc)).2.1
    · rw [List.mem_singleton.1 hc]; rfl
  have hsplit : dumpLine r ++ R = (hexUpper 8 r.1 ++ [':']) ++ (' ' :: v0 :: v1 :: '\n' :: R) := by
    simp [hL, hV]
  have hP : (dumpPattern a).length = 9 := by simp [dumpPattern, length_hexUpper (by norm_num) ha]
  rw [hsplit, dumpMatch, matchCI_append _ _ _ (by simp [hP, h8]), List.map_congr_left hX, List.map_id']
  by_cases he : r.1 = a
  · have h0 := upperHexChars_spec v0 (mem_hexUpper (show v0 ∈ hexUpper 2 r.2 by simp [hV]))
    have h1 := upperHexChars_spec v1 (mem_hexUpper (show v1 ∈ hexUpper 2 r.2 by simp [hV]))
    have hval : hexValue v0 * 16 + hexValue v1 = r.2 := by
      have := hexNum_hexUpper 2 r.2
      rw [hV] at this
      simp only [hexNum, List.foldl_cons, List.foldl_nil] at this
      omega
    simp [he, dumpPattern, spacesThenByte, show isPySpace ' ' = true from rfl, h0.2.2.1, hexByte,
      h0.1, h1.1, hval]
  · have : hexUpper 8 r.1 ++ [':'] ≠ dumpPattern a :=
      fun h => he (hexUpper_injective 8 (List.append_cancel_right h))
    simp [this, he]

theorem reSearch_skip (P L R : List Char) (h : ∀ i < L.length, dumpMatch P ((L ++ R).drop i) = none) :
    reSearch P (L ++ R) = reSearch P R := by
  induction L with
  | nil => rfl
  | cons c L ih =>
    have h0 : dumpMatch P (c :: (L ++ R)) = none := by simpa using h 0 (by simp)
    rw [List.cons_append, reSearch, h0, Option.none_or]
    exact ih fun i hi => h (i + 1) (by simp; omega)

/-- **`re.search` finds the first dump of the address.**  On an output of dump lines, the search
for an address returns the byte of the first line of that address. -/
theorem reSearch_dumpText (ha : a < 16 ^ 8) (reads : List (ℕ × ℕ))
    (hr : ∀ r ∈ reads, r.1 < 16 ^ 8 ∧ r.2 < 256) :
    reSearch (dumpPattern a) (dumpText reads).toList = reads.lookup a := by
  induction reads with
  | nil =>
    show (matchCI (dumpPattern a) []).bind spacesThenByte = none
    rw [matchCI_eq_none (j := 0) (by simp [dumpPattern]) (by simp)]; rfl
  | cons r rs ih =>
    obtain ⟨hr1, hr2⟩ := hr r (.head _)
    have hL : dumpLine r ≠ [] := by simp [dumpLine]
    obtain ⟨c, L, hcL⟩ := List.exists_cons_of_ne_nil hL
    have ih' : reSearch (dumpPattern a) (rs.flatMap dumpLine) = rs.lookup a :=
      ih fun r' h' => hr r' (.tail _ h')
    show reSearch _ (dumpLine r ++ rs.flatMap dumpLine) = _
    rw [hcL, List.cons_append, reSearch, ← List.cons_append, ← hcL, dumpMatch_line hr1 hr2 ha,
      reSearch_skip, ih']
    · obtain ⟨k, v⟩ := r
      by_cases he : k = a
      · simp [List.lookup_cons, he]
      · simp [List.lookup_cons, he, beq_false_of_ne (Ne.symm he)]
    · intro i hi
      have := dumpMatch_inside hr1 hr2 ha (rs.flatMap dumpLine) (i := i + 1) (by omega)
        (by simp [hcL]; omega)
      rwa [hcL, List.cons_append, List.drop_succ_cons] at this

end dump

/-! ### The verdicts on a dump of distinct addresses -/

/-- The verdict on a check judged against the value its own read returned: passed when the value
is the expected one, failed with `expected $EE, got $VV` otherwise. -/
def judgeOwn (r : Results) (cv : CheckMem × ℕ) : Results :=
  if cv.2 = cv.1.expected then { r with passed := r.passed + 1 }
  else { r with failed := r.failed + 1,
                errors := r.errors ++ [cv.1.msg ++ ": expected $" ++ String.mk (hexUpper 2 cv.1.expected) ++
                  ", got $" ++ String.mk (hexUpper 2 cv.2)] }

theorem verifyCheck_of_reSearch {out : List Char} {c : CheckMem} {v : ℕ}
    (h : reSearch (dumpPattern c.addr) out = some v) (r : Results) :
    verifyCheck out r c = judgeOwn r (c, v) := by
  simp only [verifyCheck, h, judgeOwn]

theorem checkCmds_reads {p : Phase Poke CheckMem} (hs : (p.checks.map Prod.snd).Sorted (· ≤ ·)) :
    (checkCmds p).filter Cmd.isRead = p.checks.map fun c => .m c.1.addr 1 := by
  by_cases hne : p.checks = []
  · simp [checkCmds, hne, Cmd.isRead]
  · rw [checkCmds_eq_emitChecks hs hne, List.filter_append, emitChecks_reads]
    split <;> simp [Cmd.isRead]

theorem phaseCmds_reads {p : Phase Poke CheckMem} (hs : (p.checks.map Prod.snd).Sorted (· ≤ ·)) :
    (phaseCmds p).filter Cmd.isRead = p.checks.map fun c => .m c.1.addr 1 := by
  have hw : (writeCmds (phasePokes p)).filter Cmd.isRead = [] :=
    List.filter_eq_nil_iff.2 fun c hc => by
      obtain ⟨q, -, hc⟩ := List.mem_flatMap.1 hc
      split_ifs at hc <;> simp at hc <;> rcases hc with rfl | rfl <;> simp [Cmd.isRead]
  rw [phaseCmds, List.filter_append, List.filter_append, hw, checkCmds_reads hs]
  unfold interruptCmds
  split_ifs <;> simp [Cmd.isRead]

/-- The reads of the script are one `m` per check, in the order of `all_checks`. -/
theorem buildScript_reads {lines : List Line} {T : Test Poke CheckMem}
    (hT : T ∈ parseVhdlTestbench lines) :
    (buildScript T).filter Cmd.isRead = T.allChecks.map fun c => .m c.addr 1 := by
  have hv : (defaultVectorCmds T.pokeAddrs).filter Cmd.isRead = [] :=
    List.filter_eq_nil_iff.2 fun c hc => by
      obtain ⟨v, -, hv⟩ := List.mem_filterMap.1 hc
      split_ifs at hv; cases hv; simp [Cmd.isRead]
  rw [buildScript_eq, List.filter_append, List.filter_append, hv, List.filter_flatMap, Test.allChecks,
    List.map_flatMap, List.flatMap_congr fun p hp => phaseCmds_reads (parse_phase_ordered hT hp).1]
  simp [Cmd.isRead, Function.comp_def]

theorem runEmulatorTestV2_completed (T : Test Poke CheckMem) (out : String) :
    runEmulatorTestV2 T (fun _ => .completed out) =
      T.allChecks.foldl (verifyCheck out.toList) ⟨0, 0, []⟩ := by
  unfold runEmulatorTestV2
  split_ifs with h
  · simp [Test.allChecks, List.isEmpty_iff.1 h]
  · rfl

/-- Checks judged in turn against an output in which each finds its own value. -/
theorem foldl_verifyCheck {reads : List (ℕ × ℕ)} (hr : ∀ r ∈ reads, r.1 < 16 ^ 8 ∧ r.2 < 256)
    (cs : List CheckMem) (vs : List ℕ) (hlen : vs.length = cs.length)
    (ha : ∀ c ∈ cs, c.addr < 16 ^ 8)
    (hown : ∀ cv ∈ cs.zip vs, reads.lookup cv.1.addr = some cv.2) (r : Results) :
    cs.foldl (verifyCheck (dumpText reads).toList) r = (cs.zip vs).foldl judgeOwn r := by
  induction cs generalizing vs r with
  | nil => rfl
  | cons c cs ih =>
    cases vs with
    | nil => simp at hlen
    | cons v vs =>
      have hc := hown (c, v) (.head _)
      rw [List.foldl_cons, List.zip_cons_cons, List.foldl_cons,
        verifyCheck_of_reSearch ((reSearch_dumpText (ha c (.head _)) reads hr).trans hc),
        ih vs (by simpa using hlen) (fun c' h' => ha c' (.tail _ h'))
          (fun cv h' => hown cv (.tail _ h'))]

theorem lookup_zip_of_nodup {ks vs : List ℕ} (hd : ks.Nodup) {k v : ℕ} (h : (k, v) ∈ ks.zip vs) :
    (ks.zip vs).lookup k = some v := by
  induction ks generalizing vs with
  | nil => simp at h
  | cons k' ks ih =>
    cases vs with
    | nil => simp at h
    | cons v' vs =>
      rw [List.zip_cons_cons] at h ⊢
      rcases List.mem_cons.1 h with h | h
      · cases h; simp [List.lookup_cons]
      · have hk : k ≠ k' := fun e => (List.nodup_cons.1 hd).1 (e ▸ List.of_mem_zip h).1
        simp [List.lookup_cons, beq_false_of_ne hk, ih (List.nodup_cons.1 hd).2 h]

theorem zip_reads_bounded {cs : List CheckMem} {vs : List ℕ} (hv : ∀ v ∈ vs, v < 256)
    (ha : ∀ c ∈ cs, c.addr < 16 ^ 8) :
    ∀ r ∈ (cs.map CheckMem.addr).zip vs, r.1 < 16 ^ 8 ∧ r.2 < 256 := by
  intro r h
  obtain ⟨h1, h2⟩ := List.of_mem_zip h
  obtain ⟨c, hc, e⟩ := List.mem_map.1 h1
  exact ⟨e ▸ ha c hc, hv _ h2⟩

/-- **Checks of distinct addresses are judged against their own reads.**  For every test the
parser returns, the script reads each check's address once, in the order of `all_checks`; when
the checked addresses are distinct, an output that answers the reads in order with dump lines has
each check judged against the value of its own read. -/
theorem verify_distinct_checks (lines : List Line) (T : Test Poke CheckMem)
    (hT : T ∈ parseVhdlTestbench lines) (vs : List ℕ) (hlen : vs.length = T.allChecks.length)
    (hv : ∀ v ∈ vs, v < 256)
    (ha : ∀ c ∈ T.allChecks, c.addr < 16 ^ 8) (hd : (T.allChecks.map CheckMem.addr).Nodup) :
    (buildScript T).filter Cmd.isRead = T.allChecks.map (fun c => .m c.addr 1) ∧
      runEmulatorTestV2 T (fun _ => .completed (dumpText ((T.allChecks.map CheckMem.addr).zip vs))) =
        (T.allChecks.zip vs).foldl judgeOwn ⟨0, 0, []⟩ := by
  refine ⟨buildScript_reads hT, ?_⟩
  rw [runEmulatorTestV2_completed, foldl_verifyCheck (zip_reads_bounded hv ha) _ vs hlen ha]
  intro cv h
  refine lookup_zip_of_nodup hd ?_
  rw [List.zip_map_left]
  exact List.mem_map.2 ⟨cv, h, rfl⟩

/-- **Each check is judged against the first dump of its address.**  On an output that answers
the reads of `all_checks` in order with dump lines, every check is judged against the value of the
first read of its address (`List.lookup` finds the first pair of a key), whether that read was the
check's own or an earlier check's. -/
theorem verify_first_dump (T : Test Poke CheckMem) (vs : List ℕ) (hlen : vs.length = T.allChecks.length)
    (hv : ∀ v ∈ vs, v < 256) (ha : ∀ c ∈ T.allChecks, c.addr < 16 ^ 8) :
    runEmulatorTestV2 T (fun _ => .completed (dumpText ((T.allChecks.map CheckMem.addr).zip vs))) =
      (T.allChecks.map fun c =>
        (c, (((T.allChecks.map CheckMem.addr).zip vs).lookup c.addr).getD 0)).foldl judgeOwn ⟨0, 0, []⟩ := by
  have hkeys : ((T.allChecks.map CheckMem.addr).zip vs).map Prod.fst = T.allChecks.map CheckMem.addr :=
    List.map_fst_zip _ _ (by rw [List.length_map, hlen])
  rw [runEmulatorTestV2_completed, List.map_prod_left_eq_zip,
    foldl_verifyCheck (zip_reads_bounded hv ha) _ _ (List.length_map _ _) ha]
  intro cv h
  rw [← List.map_prod_left_eq_zip] at h
  obtain ⟨c, hc, rfl⟩ := List.mem_map.1 h
  obtain ⟨q, hq, e⟩ := List.mem_map.1 (hkeys ▸ List.mem_map_of_mem CheckMem.addr hc)
  have hs : (((T.allChecks.map CheckMem.addr).zip vs).lookup c.addr).isSome :=
    List.lookup_isSome_iff.2 ⟨q, hq, by simp [e]⟩
  obtain ⟨v, hlk⟩ := Option.isSome_iff_exists.1 hs
  simp [hlk]

/-- A test that reads `$0200` twice, at two step points, expecting `01` and then `02`. -/
def recheckTest : Test Poke CheckMem :=
  { number := 1, name := "recheck",
    phases := [{ pokes := [(0x8000, 0xEA)],
                 checks := [(⟨0x200, 0x01, "before"⟩, 15), (⟨0x200, 0x02, "after"⟩, 30)],
                 cycles := 160, cyclesSoFar := 30 }] }

theorem recheck_judged_first :
    runEmulatorTestV2 recheckTest
        (fun _ => .completed (dumpText ((recheckTest.allChecks.map CheckMem.addr).zip [0x01, 0x02]))) =
      (recheckTest.allChecks.map fun c =>
        (c, (((recheckTest.allChecks.map CheckMem.addr).zip [0x01, 0x02]).lookup c.addr).getD 0)).foldl
          judgeOwn ⟨0, 0, []⟩ :=
  verify_first_dump recheckTest [0x01, 0x02] rfl (by decide) (by decide)

example : (recheckTest.allChecks.map fun c =>
      (c, (((recheckTest.allChecks.map CheckMem.addr).zip [0x01, 0x02]).lookup c.addr).getD 0)).foldl
        judgeOwn ⟨0, 0, []⟩ = ⟨1, 1, ["after: expected $02, got $01"]⟩ := by
  decide

/-- A test that reads two addresses at one step point. -/
def twoChecksText : List Line :=
  [{ test := some (1, "two") }, { pokes := [(0x8000, 0xEA)] }, { waits := [30] },
   { checks := [⟨0x200, 0x42, "a"⟩, ⟨0x201, 0x00, "b"⟩] }]

/-- The test the parser returns for `twoChecksText`. -/
def twoChecksTest : Test Poke CheckMem :=
  { number := 1, name := "two",
    phases := [{ pokes := [(0x8000, 0xEA)],
                 checks := [(⟨0x200, 0x42, "a"⟩, 15), (⟨0x201, 0x00, "b"⟩, 15)],
                 cycles := 130, cyclesSoFar := 15 }] }

theorem twoChecks_verdicts :
    (buildScript twoChecksTest).filter Cmd.isRead = twoChecksTest.allChecks.map (fun c => .m c.addr 1) ∧
      runEmulatorTestV2 twoChecksTest
          (fun _ => .completed (dumpText ((twoChecksTest.allChecks.map CheckMem.addr).zip [0x42, 0x01]))) =
        (twoChecksTest.allChecks.zip [0x42, 0x01]).foldl judgeOwn ⟨0, 0, []⟩ :=
  verify_distinct_checks twoChecksText twoChecksTest (by decide) [0x42, 0x01] (by decide) (by decide)
    (by decide) (by decide)

example : (twoChecksTest.allChecks.zip [0x42, 0x01]).foldl judgeOwn ⟨0, 0, []⟩ =
    ⟨1, 1, ["b: expected $00, got $01"]⟩ := by
  decide

end M65832Tb
