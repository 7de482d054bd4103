import M65832Tb.Extract.Segment
import M65832Tb.Extract.Script

/-!
# From cycle offsets to steps and reads

The emulator advances by instructions, the testbench by cycles.  `run_phase` groups a phase's
checks by their (scaled) cycle offset, visits the offsets in increasing order, steps from the
last instruction count to `max(1, offset // 3)` before reading the addresses checked there, and
finally steps up to `max(1, cycles // 3)`.

The main result (`checkCmds_spec`) is that for every phase of every test the parser returns,
the commands `run_phase` emits after the reset and the interrupt commands, which the script holds
between the phases before and after, are steps of at least one instruction and exactly one read
per check, the `j`-th read being the `j`-th check's address; the steps before the `j`-th read add up to
`max(1, offset_j // 3)`, and all of them to `cycles // 3`.  Without checks the phase is one run of
its whole budget.

The proof goes through a simpler loop that visits the checks one at a time (`emitChecks`): on
checks whose offsets are in order, `checks_by_cycle` holds the runs of equal offsets
(`groupByCycle_runs`), sorting its keys changes nothing, and the grouped loop emits what the
one-at-a-time loop emits (`checkCmds_eq_emitChecks`).  The parser's phases have their offsets in
order and within the budget by `parseTagged_wellFormed`.
-/

namespace M65832Tb

/-! ### Reading a list of commands -/

/-- Whether a command is a read `m`. -/
def Cmd.isRead : Cmd → Bool
  | .m _ _ => true
  | _ => false

/-- The total of the step counts of the `s` commands. -/
def stepSum : List Cmd → ℕ
  | [] => 0
  | .s n :: cs => n + stepSum cs
  | _ :: cs => stepSum cs

/-- The total of the step counts before the `j`-th read, counting from `0`. -/
def stepsBeforeRead : ℕ → List Cmd → ℕ
  | _, [] => 0
  | j, .s n :: cs => n + stepsBeforeRead j cs
  | 0, .m _ _ :: _ => 0
  | j + 1, .m _ _ :: cs => stepsBeforeRead j cs
  | j, _ :: cs => stepsBeforeRead j cs

@[simp] theorem stepSum_append (xs ys : List Cmd) : stepSum (xs ++ ys) = stepSum xs + stepSum ys := by
  induction xs with
  | nil => simp [stepSum]
  | cons c xs ih => cases c <;> simp [stepSum, ih, Nat.add_assoc]

theorem stepsBeforeRead_append {j : ℕ} {xs : List Cmd} (h : j < (xs.filter Cmd.isRead).length)
    (ys : List Cmd) : stepsBeforeRead j (xs ++ ys) = stepsBeforeRead j xs := by
  induction xs generalizing j with
  | nil => simp at h
  | cons c xs ih =>
    cases c with
    | m a k =>
      cases j with
      | zero => rfl
      | succ j => exact ih (by simpa [Cmd.isRead, List.filter_cons] using h)
    | _ =>
      simp only [List.cons_append, stepsBeforeRead,
        ih (by simpa [Cmd.isRead, List.filter_cons] using h)]

/-! ### The loop one check at a time -/

/-- The step loop read one check at a time: step from `prev` up to the check's instruction count,
then read its address. -/
def emitChecks : ℕ → List (CheckMem × ℕ) → List Cmd
  | _, [] => []
  | prev, c :: cs =>
    (if prev < instCount c.2 then [.s (instCount c.2 - prev)] else []) ++
      .m c.1.addr 1 :: emitChecks (instCount c.2) cs

/-- The instruction count after the loop: that of the last check. -/
def lastInst : ℕ → List (CheckMem × ℕ) → ℕ
  | prev, [] => prev
  | _, c :: cs => lastInst (instCount c.2) cs

theorem instCount_mono {a b : ℕ} (h : a ≤ b) : instCount a ≤ instCount b := by
  simp only [instCount]; omega

theorem one_le_instCount (k : ℕ) : 1 ≤ instCount k := le_max_left _ _

theorem emitChecks_append (prev : ℕ) (xs ys : List (CheckMem × ℕ)) :
    emitChecks prev (xs ++ ys) = emitChecks prev xs ++ emitChecks (lastInst prev xs) ys := by
  induction xs generalizing prev with
  | nil => rfl
  | cons c xs ih => simp [emitChecks, lastInst, ih]

theorem lastInst_append (prev : ℕ) (xs ys : List (CheckMem × ℕ)) :
    lastInst prev (xs ++ ys) = lastInst (lastInst prev xs) ys := by
  induction xs generalizing prev with
  | nil => rfl
  | cons c xs ih => simp [lastInst, ih]

/-- Checks of one offset: one step up to the offset's count, then the reads. -/
theorem emitChecks_group (prev k : ℕ) {cs : List CheckMem} (hcs : cs ≠ []) :
    emitChecks prev (cs.map (·, k)) =
      (if prev < instCount k then [.s (instCount k - prev)] else []) ++
        cs.map fun c => .m c.addr 1 := by
  obtain ⟨c, cs, rfl⟩ := List.exists_cons_of_ne_nil hcs
  suffices ∀ cs : List CheckMem, emitChecks (instCount k) (cs.map (·, k)) = cs.map fun c => .m c.addr 1
    by simp [emitChecks, this]
  intro cs
  induction cs with
  | nil => rfl
  | cons c cs ih => simp [emitChecks, ih]

theorem lastInst_group (prev k : ℕ) {cs : List CheckMem} (hcs : cs ≠ []) :
    lastInst prev (cs.map (·, k)) = instCount k := by
  obtain ⟨c, cs, rfl⟩ := List.exists_cons_of_ne_nil hcs
  induction cs generalizing c with
  | nil => rfl
  | cons c' cs ih => exact ih c' (List.cons_ne_nil _ _)

section sorted

variable {prev : ℕ} {xs : List (CheckMem × ℕ)}

theorem emitChecks_cmds : ∀ c ∈ emitChecks prev xs, c.isRead ∨ ∃ n, 1 ≤ n ∧ c = .s n := by
  induction xs generalizing prev with
  | nil => simp [emitChecks]
  | cons x xs ih =>
    intro c hc
    simp only [emitChecks, List.mem_append, List.mem_cons] at hc
    rcases hc with hc | rfl | hc
    · split at hc
      · rename_i h
        exact .inr ⟨_, Nat.sub_pos_of_lt h, List.mem_singleton.1 hc⟩
      · simp at hc
    · exact .inl rfl
    · exact ih c hc

theorem emitChecks_reads :
    (emitChecks prev xs).filter Cmd.isRead = xs.map fun c => .m c.1.addr 1 := by
  induction xs generalizing prev with
  | nil => rfl
  | cons x xs ih =>
    simp only [emitChecks]
    split_ifs <;> simp [List.filter_cons, Cmd.isRead, ih]

/-- Offsets in order give instruction counts in order. -/
def InstOrdered (prev : ℕ) (xs : List (CheckMem × ℕ)) : Prop :=
  (∀ x ∈ xs, prev ≤ instCount x.2) ∧ (xs.map Prod.snd).Sorted (· ≤ ·)

theorem InstOrdered.tail {x : CheckMem × ℕ} (h : InstOrdered prev (x :: xs)) :
    InstOrdered (instCount x.2) xs := by
  obtain ⟨hp, hs⟩ := h
  simp only [List.map_cons, List.Sorted, List.pairwise_cons, List.mem_map] at hs
  exact ⟨fun y hy => instCount_mono (hs.1 _ ⟨y, hy, rfl⟩), hs.2⟩

theorem stepsBeforeRead_emitChecks (h : InstOrdered prev xs) {j : ℕ} (hj : j < xs.length) :
    stepsBeforeRead j (emitChecks prev xs) = instCount xs[j].2 - prev := by
  induction xs generalizing prev j with
  | nil => simp at hj
  | cons x xs ih =>
    have hx := h.1 x (List.mem_cons_self _ _)
    have hsplit : stepsBeforeRead j (emitChecks prev (x :: xs)) =
        instCount x.2 - prev + stepsBeforeRead j (.m x.1.addr 1 :: emitChecks (instCount x.2) xs) := by
      simp only [emitChecks]
      split_ifs with hlt
      · simp [stepsBeforeRead]
      · simp [Nat.sub_eq_zero_of_le (Nat.le_of_not_lt hlt)]
    rw [hsplit]
    cases j with
    | zero => simp [stepsBeforeRead]
    | succ j =>
      have hj' : j < xs.length := by simpa using hj
      have hle := h.tail.1 _ (List.getElem_mem hj')
      simp only [stepsBeforeRead, List.getElem_cons_succ, ih h.tail hj']
      omega

theorem le_lastInst (h : InstOrdered prev xs) : prev ≤ lastInst prev xs := by
  induction xs generalizing prev with
  | nil => exact le_rfl
  | cons x xs ih => exact (h.1 x (List.mem_cons_self _ _)).trans (ih h.tail)

theorem stepSum_emitChecks (h : InstOrdered prev xs) :
    stepSum (emitChecks prev xs) = lastInst prev xs - prev := by
  induction xs generalizing prev with
  | nil => simp [emitChecks, stepSum, lastInst]
  | cons x xs ih =>
    have hx := h.1 x (List.mem_cons_self _ _)
    have hl := le_lastInst h.tail
    have hr := ih h.tail
    simp only [emitChecks, lastInst]
    split_ifs <;> simp [stepSum, hr] <;> omega

theorem lastInst_le {b : ℕ} (hb : ∀ x ∈ xs, instCount x.2 ≤ b) (hp : prev ≤ b) :
    lastInst prev xs ≤ b := by
  induction xs generalizing prev with
  | nil => exact hp
  | cons x xs ih =>
    exact ih (fun y hy => hb y (List.mem_cons_of_mem _ hy)) (hb x (List.mem_cons_self _ _))

end sorted

/-! ### `checks_by_cycle` on checks in order -/

/-- `groups` are the runs of equal offsets of `checks`: the keys strictly increase, no group is
empty, and listing each group's checks with its key gives back `checks`. -/
structure IsRuns (groups : List (ℕ × List CheckMem)) (checks : List (CheckMem × ℕ)) : Prop where
  keys_lt : (groups.map Prod.fst).Pairwise (· < ·)
  nonempty : ∀ g ∈ groups, g.2 ≠ []
  flatten : groups.flatMap (fun g => g.2.map (·, g.1)) = checks

section runs

variable {gs : List (ℕ × List CheckMem)} {cs : List (CheckMem × ℕ)}

theorem IsRuns.key_mem (h : IsRuns gs cs) {g : ℕ × List CheckMem} (hg : g ∈ gs) :
    ∃ y ∈ cs, y.2 = g.1 := by
  obtain ⟨c, hc⟩ := List.exists_mem_of_ne_nil _ (h.nonempty g hg)
  exact ⟨(c, g.1), h.flatten ▸ List.mem_flatMap.2 ⟨g, hg, List.mem_map_of_mem _ hc⟩, rfl⟩

/-- A check at the offset of the last run joins that run. -/
theorem IsRuns.joinLast {init : List (ℕ × List CheckMem)} {last : ℕ × List CheckMem}
    (h : IsRuns (init ++ [last]) cs) (c : CheckMem) :
    IsRuns (init ++ [(last.1, last.2 ++ [c])]) (cs ++ [(c, last.1)]) := by
  refine ⟨by simpa using h.keys_lt, fun g hg => ?_, by rw [← h.flatten]; simp⟩
  rcases List.mem_append.1 hg with hg | hg
  · exact h.nonempty g (by simp [hg])
  · rw [List.mem_singleton.1 hg]; simp

/-- A check at an offset above every run's starts a run of its own. -/
theorem IsRuns.push (h : IsRuns gs cs) {k : ℕ} (hlt : ∀ g ∈ gs, g.1 < k) (c : CheckMem) :
    IsRuns (gs ++ [(k, [c])]) (cs ++ [(c, k)]) := by
  refine ⟨by simpa [List.pairwise_append, h.keys_lt] using hlt, fun g hg => ?_, by simp [h.flatten]⟩
  rcases List.mem_append.1 hg with hg | hg
  · exact h.nonempty g hg
  · rw [List.mem_singleton.1 hg]; simp

/-- One more check, at an offset no smaller than the others: it joins the last run when its
offset is that run's, and starts a new run otherwise. -/
theorem IsRuns.insertCheck (h : IsRuns gs cs) {k : ℕ} (hk : ∀ y ∈ cs, y.2 ≤ k) (c : CheckMem) :
    IsRuns (insertCheck gs (c, k)) (cs ++ [(c, k)]) := by
  have hle : ∀ g ∈ gs, g.1 ≤ k := fun g hg =>
    let ⟨y, hy, e⟩ := h.key_mem hg
    e ▸ hk y hy
  unfold M65832Tb.insertCheck
  split
  · rename_i hany
    obtain ⟨g0, hg0, hg0k⟩ : ∃ g ∈ gs, g.1 = k := by simpa using hany
    obtain ⟨init, last, rfl⟩ := (List.eq_nil_or_concat gs).resolve_left (List.ne_nil_of_mem hg0)
    simp only [List.concat_eq_append] at h hle hg0 ⊢
    -- the keys increase, so the key `k` is the last run's
    have hkeys := h.keys_lt
    simp only [List.map_append, List.map_singleton, List.pairwise_append, List.pairwise_singleton,
      List.mem_singleton, List.mem_map, true_and] at hkeys
    have hinit : ∀ g ∈ init, g.1 < last.1 := fun g hg => hkeys.2 _ ⟨g, hg, rfl⟩ _ rfl
    have hlast : last.1 = k := by
      rcases List.mem_append.1 hg0 with hin | hin
      · have := hinit g0 hin; have := hle last (by simp); omega
      · rw [List.mem_singleton.1 hin] at hg0k; exact hg0k
    have hmap : init.map (fun g => if g.1 = k then (g.1, g.2 ++ [c]) else g) = init :=
      (List.map_congr_left fun g hg => if_neg (by have := hinit g hg; omega)).trans (List.map_id _)
    rw [List.map_append, hmap, List.map_singleton, if_pos hlast, ← hlast]
    exact h.joinLast c
  · rename_i hany
    refine h.push (fun g hg => lt_of_le_of_ne (hle g hg) fun e => hany ?_) c
    simp only [List.any_eq_true, beq_iff_eq]; exact ⟨g, hg, e⟩

/-- On checks whose offsets are in order, `checks_by_cycle` holds their runs of equal offsets. -/
theorem groupByCycle_runs {checks : List (CheckMem × ℕ)}
    (h : (checks.map Prod.snd).Sorted (· ≤ ·)) : IsRuns (groupByCycle checks) checks := by
  induction checks using List.reverseRecOn with
  | nil => exact ⟨List.Pairwise.nil, by simp [groupByCycle], rfl⟩
  | append_singleton cs x ih =>
    simp only [List.map_append, List.map_singleton, List.Sorted, List.pairwise_append,
      List.mem_map, List.mem_singleton] at h
    rw [groupByCycle, List.foldl_append, List.foldl_cons, List.foldl_nil]
    exact (ih h.1).insertCheck (fun y hy => h.2.2 _ ⟨y, hy, rfl⟩ _ rfl) x.1

theorem lookup_of_keys_lt {G : List (ℕ × List CheckMem)} (h : (G.map Prod.fst).Pairwise (· < ·))
    {g : ℕ × List CheckMem} (hg : g ∈ G) : G.lookup g.1 = some g.2 := by
  induction G with
  | nil => simp at hg
  | cons g' G ih =>
    obtain ⟨k', v'⟩ := g'
    simp only [List.map_cons, List.pairwise_cons, List.mem_map] at h
    rcases List.mem_cons.1 hg with rfl | hg
    · exact List.lookup_cons_self
    · have hne : (g.1 == k') = false := by
        have := h.1 _ ⟨g, hg, rfl⟩
        simp only [beq_eq_false_iff_ne, ne_eq]; omega
      rw [List.lookup_cons, hne]
      exact ih h.2 hg

/-- The grouped loop over the keys emits what the one-at-a-time loop emits over the runs. -/
theorem foldl_checkPoint (G : List (ℕ × List CheckMem)) (hl : ∀ g ∈ gs, G.lookup g.1 = some g.2)
    (hne : ∀ g ∈ gs, g.2 ≠ []) (acc : List Cmd) (prev : ℕ) :
    (gs.map Prod.fst).foldl (checkPoint G) (acc, prev) =
      (acc ++ emitChecks prev (gs.flatMap fun g => g.2.map (·, g.1)),
        lastInst prev (gs.flatMap fun g => g.2.map (·, g.1))) := by
  induction gs generalizing acc prev with
  | nil => simp [emitChecks, lastInst]
  | cons g gs ih =>
    have hg := hne g (List.mem_cons_self _ _)
    rw [List.map_cons, List.foldl_cons, List.flatMap_cons, emitChecks_append, lastInst_append,
      emitChecks_group _ _ hg, lastInst_group _ _ hg]
    simp only [checkPoint, hl g (List.mem_cons_self _ _), Option.getD_some, Nat.sub_pos_iff_lt]
    rw [ih (fun g' h' => hl g' (List.mem_cons_of_mem _ h')) (fun g' h' => hne g' (List.mem_cons_of_mem _ h'))]
    simp [List.append_assoc]

end runs

/-- On a phase whose check offsets are in order, the commands after the interrupts are those of
the one-at-a-time loop, then the steps left to the budget. -/
theorem checkCmds_eq_emitChecks {p : Phase Poke CheckMem}
    (hs : (p.checks.map Prod.snd).Sorted (· ≤ ·)) (hne : p.checks ≠ []) :
    checkCmds p = emitChecks 0 p.checks ++
      if lastInst 0 p.checks < instCount p.cycles then
        [.s (instCount p.cycles - lastInst 0 p.checks)] else [] := by
  have hr := groupByCycle_runs hs
  have hsort : ((groupByCycle p.checks).map Prod.fst).insertionSort (· ≤ ·) =
      (groupByCycle p.checks).map Prod.fst :=
    List.Sorted.insertionSort_eq (hr.keys_lt.imp le_of_lt)
  have hf := foldl_checkPoint (groupByCycle p.checks)
    (fun g hg => lookup_of_keys_lt hr.keys_lt hg) hr.nonempty [] 0
  rw [hr.flatten] at hf
  simp [checkCmds, hne, hsort, hf]

/-- What the step loop needs of a phase the parser builds: offsets in order and within the
budget, and a budget of at least 100 cycles. -/
theorem parse_phase_ordered {lines : List Line} {T : Test Poke CheckMem}
    (hT : T ∈ parseVhdlTestbench lines) {p : Phase Poke CheckMem} (hp : p ∈ T.phases) :
    (p.checks.map Prod.snd).Sorted (· ≤ ·) ∧ (∀ y ∈ p.checks, y.2 ≤ (p.cycles - 100) / 2) ∧
      100 ≤ p.cycles := by
  obtain ⟨herase, hwf⟩ := parseTagged_wellFormed lines
  rw [← herase, List.mem_map] at hT
  obtain ⟨T', hT', rfl⟩ := hT
  obtain ⟨p', hp', rfl⟩ := List.mem_map.1 hp
  have w := hwf T' hT' p' hp'
  refine ⟨?_, ?_, w.budget_ge⟩
  · simpa [Phase.map, Function.comp_def] using w.offsets_sorted
  · simp only [Phase.map, List.mem_map]
    rintro _ ⟨y, hy, rfl⟩
    exact w.offset_le y hy

/-- **Every phase steps to each check point and reads each checked address once, in order.**
For every phase of every test the parser returns, `run_phase` emits the phase's writes, `reset`,
the interrupt commands and then `checkCmds`, and these stand in the script between the commands
of the phases before and after it.  When the phase has checks, `checkCmds` are steps of at least
one instruction and one read per check, the `j`-th read being of the `j`-th check's address; the
steps before the `j`-th read add up to `max(1, offset_j // 3)`, and all of them to
`cycles // 3`.  A phase without checks runs its whole budget with one `r`. -/
theorem checkCmds_spec (lines : List Line) :
    ∀ T ∈ parseVhdlTestbench lines, ∀ ps p qs, T.phases = ps ++ p :: qs →
      (∀ allPokesSoFar, (runPhase p allPokesSoFar).1 =
        writeCmds (phasePokes p) ++ .reset :: interruptCmds p ++ checkCmds p) ∧
      buildScript T = defaultVectorCmds T.pokeAddrs ++ ps.flatMap phaseCmds ++
        (writeCmds (phasePokes p) ++ .reset :: interruptCmds p ++ checkCmds p) ++
          qs.flatMap phaseCmds ++ [.q] ∧
      (p.checks = [] → checkCmds p = [.r p.cycles]) ∧
      (p.checks ≠ [] →
        (∀ c ∈ checkCmds p, c.isRead ∨ ∃ n, 1 ≤ n ∧ c = .s n) ∧
        (checkCmds p).filter Cmd.isRead = p.checks.map (fun c => .m c.1.addr 1) ∧
        (∀ j (hj : j < p.checks.length),
          stepsBeforeRead j (checkCmds p) = max 1 (p.checks[j].2 / 3)) ∧
        stepSum (checkCmds p) = p.cycles / 3) := by
  intro T hT ps p qs hsplit
  obtain ⟨hs, hoff, hcyc⟩ := parse_phase_ordered hT (hsplit ▸ List.mem_append_right _ (List.mem_cons_self _ _))
  refine ⟨fun _ => rfl, by rw [buildScript_eq, hsplit]; simp [phaseCmds], fun he => by simp [checkCmds, he],
    fun hne => ?_⟩
  rw [checkCmds_eq_emitChecks hs hne]
  have ho : InstOrdered 0 p.checks := ⟨fun _ _ => Nat.zero_le _, hs⟩
  have hlast : lastInst 0 p.checks ≤ instCount p.cycles :=
    lastInst_le (fun x hx => instCount_mono (by have := hoff x hx; omega)) (Nat.zero_le _)
  have htotal : instCount p.cycles = p.cycles / 3 := by simp only [instCount]; omega
  refine ⟨fun c hc => ?_, ?_, fun j hj => ?_, ?_⟩
  · rcases List.mem_append.1 hc with hc | hc
    · exact emitChecks_cmds c hc
    · split at hc
      · exact .inr ⟨_, Nat.sub_pos_of_lt ‹_›, List.mem_singleton.1 hc⟩
      · simp at hc
  · rw [List.filter_append, emitChecks_reads]
    split <;> simp [Cmd.isRead]
  · rw [stepsBeforeRead_append (by rw [emitChecks_reads]; simpa using hj),
      stepsBeforeRead_emitChecks ho hj, Nat.sub_zero]
    rfl
  · rw [stepSum_append, stepSum_emitChecks ho, ← htotal]
    split <;> simp [stepSum] <;> omega

/-- The end-to-end example of the design notes: one write, a wait of 30 cycles, one check. -/
def loadText : List Line :=
  [{ test := some (1, "load") }, { pokes := [(0x8000, 0xA9)] }, { waits := [30] },
   { checks := [⟨0x8000, 0xA9, "load"⟩] }]

theorem checkCmds_loadText :
    ∃ T ∈ parseVhdlTestbench loadText, ∃ p ∈ T.phases,
      checkCmds p = [.s 5, .m 0x8000 1, .s 38] ∧ stepSum (checkCmds p) = p.cycles / 3 :=
  let p : Phase Poke CheckMem :=
    { pokes := [(0x8000, 0xA9)], checks := [(⟨0x8000, 0xA9, "load"⟩, 15)], cycles := 130,
      cyclesSoFar := 15 }
  ⟨⟨1, "load", [p]⟩, by decide, p, by decide, by decide,
    ((checkCmds_spec loadText ⟨1, "load", [p]⟩ (by decide) [] p [] rfl).2.2.2 (by decide)).2.2.2⟩

end M65832Tb
