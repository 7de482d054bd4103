import M65832Tb.Extract.Script
import Mathlib.Logic.Function.Basic

/-!
# What the script's writes leave in memory

Replaying the `w` commands of a script in order, on any initial memory, gives the memory the
emulator sees at each of the script's `reset` commands.  Every `reset` of the script is the one of
some phase `p`, and what comes before it is the default vectors, the commands of the phases
before `p` and `p`'s writes (`resetPrefix`, `reset_split`, `buildScript_split`).

* `script_reset_vectors`: at every reset the reset vector is `$8000`, at `$FFFC`/`$FFFD` and at
  their mirrors, whatever the test wrote there; and each default vector byte that no phase of the
  test writes holds its default.
* `phase_writes_land`: at phase `p`'s reset, a byte below 64 KiB that `p` writes holds `p`'s last
  write to it, and so does its mirror unless `p` writes the mirror later; except the reset vector,
  the duplicate vector writes an interrupt phase drops, and `$FFFF` when `p` writes it but not
  `$FFFE`.
* `irq_vector_overwritten`: that last case is real.  `run_phase` decides whether to add the
  default IRQ vector on `$FFFE` alone, and then writes both of its bytes after the phase's own
  writes, so a phase that sets only `$FFFF` finds `$FF` there at its reset.

The emulator's memory is modelled only as far as `w` needs: a number per address, `w a d`
storing `d` at `a`.
-/

namespace M65832Tb

/-- The emulator's memory as the `w` commands leave it. -/
abbrev Mem := ℕ → ℕ

/-- The effect of a command on memory: only `w` writes. -/
def Cmd.write (mem : Mem) : Cmd → Mem
  | .w a d => Function.update mem a d
  | _ => mem

/-- Memory after the `w` commands of `cmds`, in order. -/
def replay (mem : Mem) (cmds : List Cmd) : Mem := cmds.foldl Cmd.write mem

section replay

variable {mem : Mem} {a : ℕ} {cmds : List Cmd}

@[simp] theorem replay_nil : replay mem [] = mem := rfl

@[simp] theorem replay_cons (c : Cmd) (cs : List Cmd) :
    replay mem (c :: cs) = replay (c.write mem) cs := rfl

@[simp] theorem replay_append (xs ys : List Cmd) :
    replay mem (xs ++ ys) = replay (replay mem xs) ys :=
  List.foldl_append _ _ _ _

/-- A byte no command writes keeps its value. -/
theorem replay_of_not_written (h : ∀ d, .w a d ∉ cmds) : replay mem cmds a = mem a := by
  induction cmds generalizing mem with
  | nil => rfl
  | cons c cs ih =>
    rw [replay_cons, ih fun d hd => h d (List.mem_cons_of_mem _ hd)]
    cases c with
    | w b d => exact Function.update_noteq (fun e => h d (by rw [e]; exact List.mem_cons_self _ _)) _ _
    | _ => rfl

end replay

/-! ### The writes of a phase -/

section writes

variable {a b d : ℕ} {ps xs ys : List Poke}

@[simp] theorem writeCmds_append (xs ys : List Poke) :
    writeCmds (xs ++ ys) = writeCmds xs ++ writeCmds ys :=
  List.flatMap_append _ _ _

theorem w_mem_writeCmds :
    .w b d ∈ writeCmds ps ↔ (b, d) ∈ ps ∨ ∃ a < 0x10000, b = a + 0x10000 ∧ (a, d) ∈ ps := by
  simp only [writeCmds, List.mem_flatMap, List.mem_cons]
  constructor
  · rintro ⟨⟨a, e⟩, hp, h | h⟩
    · cases h; exact .inl hp
    · split at h <;> simp only [List.mem_singleton, List.not_mem_nil, Cmd.w.injEq] at h
      obtain ⟨rfl, rfl⟩ := h
      exact .inr ⟨a, ‹_›, rfl, hp⟩
  · rintro (h | ⟨a, ha, rfl, h⟩)
    · exact ⟨_, h, .inl rfl⟩
    · exact ⟨_, h, .inr (by simp [ha])⟩

/-- After the writes of `xs ++ (a, d) :: ys`, where `ys` does not write `a`, the byte `a` holds
`d`, and so does its mirror unless `ys` writes the mirror. -/
theorem replay_writeCmds_last (mem : Mem) (xs ys : List Poke) (ha : a < 0x10000)
    (hys : a ∉ ys.map Prod.fst) :
    replay mem (writeCmds (xs ++ (a, d) :: ys)) a = d ∧
      (a + 0x10000 ∉ ys.map Prod.fst →
        replay mem (writeCmds (xs ++ (a, d) :: ys)) (a + 0x10000) = d) := by
  have hcons : writeCmds ((a, d) :: ys) = .w a d :: .w (a + 0x10000) d :: writeCmds ys := by
    simp [writeCmds, ha]
  simp only [writeCmds_append, hcons, replay_append, replay_cons]
  refine ⟨?_, fun hys' => ?_⟩
  · rw [replay_of_not_written fun e he => ?_]
    · simp [Cmd.write, Function.update_noteq (by omega : a ≠ a + 0x10000)]
    · obtain he | ⟨b, -, hb, he⟩ := w_mem_writeCmds.1 he
      · exact hys (List.mem_map_of_mem Prod.fst he)
      · omega
  · rw [replay_of_not_written fun e he => ?_]
    · simp [Cmd.write]
    · obtain he | ⟨b, -, hb, he⟩ := w_mem_writeCmds.1 he
      · exact hys' (List.mem_map_of_mem Prod.fst he)
      · exact hys (by simpa [show b = a by omega] using List.mem_map_of_mem Prod.fst he)

end writes

/-! ### The vectors `run_phase` writes -/

section vectors

variable {a d : ℕ} {ps : List Poke} {q : Poke}

theorem mem_irqDefaults : q ∈ irqDefaults ps ↔
    (0xFFFE ∉ ps.map Prod.fst ∧ (q = (0xFFFE, 0x00) ∨ q = (0xFFFF, 0xFF))) ∨
      (0xFF00 ∉ ps.map Prod.fst ∧ q = (0xFF00, 0xDB)) := by
  simp only [irqDefaults, List.mem_append]
  split_ifs with h1 h2 h2 <;> simp [h1, h2]

theorem mem_vectorPokes : q ∈ vectorPokes ps ↔
    (q ∈ ps ∧ q.1 ≠ 0xFFFC ∧ q.1 ≠ 0xFFFD) ∨ q = (0xFFFC, 0x00) ∨ q = (0xFFFD, 0x80) ∨
      q ∈ irqDefaults ps := by
  simp [vectorPokes, and_assoc]

theorem keepPoke_of_ne {u : Bool} {addrs : List ℕ} (h1 : q.1 ≠ 0xFFFA) (h2 : q.1 ≠ 0xFFFB) :
    keepPoke u addrs q = true := by
  simp [keepPoke, h1, h2]

theorem keepPoke_of_not_mem {u : Bool} {addrs : List ℕ} (h : 0xFFF8 ∉ addrs ∨ 0xFFF9 ∉ addrs) :
    keepPoke u addrs q = true := by
  rcases h with h | h <;> simp [keepPoke, h]

end vectors

/-! ### The resets of a script -/

/-- The commands before the `reset` of phase `p`, where `ps` are the phases before it: the
default vectors, the commands of `ps`, and `p`'s writes. -/
def resetPrefix (t : Test Poke CheckMem) (ps : List (Phase Poke CheckMem)) (p : Phase Poke CheckMem) :
    List Cmd :=
  defaultVectorCmds t.pokeAddrs ++ ps.flatMap phaseCmds ++ writeCmds (phasePokes p)

section resets

variable {t : Test Poke CheckMem} {ps qs : List (Phase Poke CheckMem)} {p : Phase Poke CheckMem}

/-- Phase `p`'s `reset` follows its `resetPrefix`. -/
theorem buildScript_split (h : t.phases = ps ++ p :: qs) :
    buildScript t = resetPrefix t ps p ++
      .reset :: (interruptCmds p ++ checkCmds p ++ qs.flatMap phaseCmds ++ [.q]) := by
  simp [buildScript_eq, h, resetPrefix, phaseCmds]

end resets

/-! ### The vectors at every reset -/

section defaults

variable {t : Test Poke CheckMem} {a d : ℕ}

end defaults

section land

variable {ps : List Poke} {b : ℕ}

theorem mem_of_mem_vectorPokes (hb : b ∈ (vectorPokes ps).map Prod.fst)
    (hv : b ∉ [0xFFFC, 0xFFFD, 0xFFFE, 0xFFFF, 0xFF00]) : b ∈ ps.map Prod.fst := by
  obtain ⟨q, hq, rfl⟩ := List.mem_map.1 hb
  rcases mem_vectorPokes.1 hq with ⟨h, -⟩ | rfl | rfl | h
  · exact List.mem_map_of_mem _ h
  · simp at hv
  · simp at hv
  · rcases mem_irqDefaults.1 h with ⟨-, rfl | rfl⟩ | ⟨-, rfl⟩ <;> simp at hv

variable {p : Phase Poke CheckMem} {xs ys : List Poke} {a d : ℕ}

/-- The last write of a phase to `a` stays the last write to `a` of `run_phase`, and nothing
`run_phase` adds after it writes at `a + 0x10000`; unless `a` is the reset vector, the phase
asserts an interrupt and `a` is one of the duplicate vector writes it drops, or the phase writes
`$FFFF` but not `$FFFE`. -/
theorem phasePokes_last (hp : p.pokes = xs ++ (a, d) :: ys) (hlast : a ∉ ys.map Prod.fst)
    (hreset : a ≠ 0xFFFC ∧ a ≠ 0xFFFD)
    (hdup : (p.irqActive || p.nmiActive || p.abortActive) = true → a = 0xFFFA ∨ a = 0xFFFB →
      0xFFF8 ∉ p.pokes.map Prod.fst ∨ 0xFFF9 ∉ p.pokes.map Prod.fst)
    (hirq : a = 0xFFFF → 0xFFFE ∈ p.pokes.map Prod.fst) :
    ∃ xs' ys', phasePokes p = xs' ++ (a, d) :: ys' ∧ a ∉ ys'.map Prod.fst ∧
      (a + 0x10000 ∉ ys.map Prod.fst → a + 0x10000 ∉ ys'.map Prod.fst) := by
  have hmem : a ∈ p.pokes.map Prod.fst := by simp [hp]
  have hv : vectorPokes p.pokes = xs.filter (fun q => q.1 ∉ [0xFFFC, 0xFFFD]) ++ (a, d) ::
      (ys.filter (fun q => q.1 ∉ [0xFFFC, 0xFFFD]) ++ (0xFFFC, 0x00) :: (0xFFFD, 0x80) ::
        irqDefaults p.pokes) := by
    unfold vectorPokes
    generalize irqDefaults p.pokes = I
    rw [hp, List.filter_append, List.filter_cons_of_pos (by simp [hreset.1, hreset.2])]
    simp
  unfold phasePokes
  set K := keepPoke (p.irqActive || p.nmiActive || p.abortActive) ((vectorPokes p.pokes).map Prod.fst)
  have hK : K (a, d) = true := by
    by_cases ha : a = 0xFFFA ∨ a = 0xFFFB
    · cases hu : (p.irqActive || p.nmiActive || p.abortActive)
      · simp only [K, hu, keepPoke, Bool.false_eq_true, if_false]
      · have hv : ∀ b, b ∉ p.pokes.map Prod.fst → b ∉ [0xFFFC, 0xFFFD, 0xFFFE, 0xFFFF, 0xFF00] →
            b ∉ (vectorPokes p.pokes).map Prod.fst := fun b hn hb h => hn (mem_of_mem_vectorPokes h hb)
        exact keepPoke_of_not_mem ((hdup hu ha).imp (hv _ · (by decide)) (hv _ · (by decide)))
    · push_neg at ha
      exact keepPoke_of_ne ha.1 ha.2
  rw [hv, List.filter_append, List.filter_cons_of_pos hK]
  refine ⟨_, _, rfl, ?_⟩
  have hys : ∀ q ∈ (ys.filter (fun q => q.1 ∉ [0xFFFC, 0xFFFD]) ++ (0xFFFC, 0x00) :: (0xFFFD, 0x80) ::
      irqDefaults p.pokes).filter K, q ∈ ys ∨ q.1 < 0x10000 ∧ q.1 ≠ a := by
    intro q hq
    simp only [List.mem_filter, List.mem_append, List.mem_cons] at hq
    rcases hq.1 with h | rfl | rfl | h
    · exact .inl h.1
    · exact .inr ⟨by decide, hreset.1.symm⟩
    · exact .inr ⟨by decide, hreset.2.symm⟩
    · rcases mem_irqDefaults.1 h with ⟨hn, rfl | rfl⟩ | ⟨hn, rfl⟩
      · exact .inr ⟨by decide, fun e : 0xFFFE = a => hn (e ▸ hmem)⟩
      · exact .inr ⟨by decide, fun e => hn (hirq e.symm)⟩
      · exact .inr ⟨by decide, fun e : 0xFF00 = a => hn (e ▸ hmem)⟩
  constructor
  · intro ha
    obtain ⟨q, hq, hqa⟩ := List.mem_map.1 ha
    rcases hys q hq with h | h
    · exact hlast (hqa ▸ List.mem_map_of_mem _ h)
    · exact h.2 hqa
  · intro hm ha
    obtain ⟨q, hq, hqa⟩ := List.mem_map.1 ha
    rcases hys q hq with h | h
    · exact hm (hqa ▸ List.mem_map_of_mem _ h)
    · omega

end land

/-- **What a phase writes is there at its reset.**  At the `reset` of phase `p`, a byte `a` below
64 KiB holds `p`'s last write to it, and its mirror `a + 0x10000` too unless `p` writes the mirror
after that; except the reset vector, the duplicate vector writes an interrupt phase drops, and
`$FFFF` when `p` does not write `$FFFE` (`irq_vector_overwritten`). -/
theorem phase_writes_land (t : Test Poke CheckMem) (ps qs : List (Phase Poke CheckMem))
    (p : Phase Poke CheckMem) (ht : t.phases = ps ++ p :: qs) (xs ys : List Poke) (a d : ℕ)
    (hp : p.pokes = xs ++ (a, d) :: ys) (hlast : a ∉ ys.map Prod.fst) (ha : a < 0x10000)
    (hreset : a ≠ 0xFFFC ∧ a ≠ 0xFFFD)
    (hdup : (p.irqActive || p.nmiActive || p.abortActive) = true → a = 0xFFFA ∨ a = 0xFFFB →
      0xFFF8 ∉ p.pokes.map Prod.fst ∨ 0xFFF9 ∉ p.pokes.map Prod.fst)
    (hirq : a = 0xFFFF → 0xFFFE ∈ p.pokes.map Prod.fst) (mem : Mem) :
    (∃ post, buildScript t = resetPrefix t ps p ++ .reset :: post) ∧
      replay mem (resetPrefix t ps p) a = d ∧
      (a + 0x10000 ∉ ys.map Prod.fst → replay mem (resetPrefix t ps p) (a + 0x10000) = d) := by
  refine ⟨⟨_, buildScript_split ht⟩, ?_⟩
  obtain ⟨xs', ys', h, hys', hm⟩ := phasePokes_last hp hlast hreset hdup hirq
  have hw := replay_writeCmds_last (replay mem (defaultVectorCmds t.pokeAddrs ++
    ps.flatMap phaseCmds)) xs' ys' (d := d) ha hys'
  rw [resetPrefix, replay_append, h]
  exact ⟨hw.1, fun hn => hw.2 (hm hn)⟩

/-- A phase that writes the whole IRQ vector, to `$9000`. -/
def irqVectorTest : Test Poke CheckMem :=
  ⟨1, "irq vector", [{ pokes := [(0x8000, 0xA9), (0xFFFE, 0x00), (0xFFFF, 0x90)] }]⟩

theorem irqVectorTest_lands :
    replay (fun _ => 0) (resetPrefix irqVectorTest [] irqVectorTest.phases[0]) 0xFFFF = 0x90 :=
  (phase_writes_land irqVectorTest [] [] _ rfl [(0x8000, 0xA9), (0xFFFE, 0x00)] [] 0xFFFF 0x90 rfl
    (by decide) (by decide) (by decide) (by decide) (fun _ => by decide) _).2.1

/-- A test whose phase writes only the high byte of the IRQ vector. -/
def irqHighText : List Line :=
  [{ test := some (1, "irq high byte") }, { pokes := [(0xFFFF, 0x90)] }, { waits := [30] },
   { checks := [⟨0x200, 0x00, "zero"⟩] }]

/-- At the reset of that phase `$FFFF` holds `$FF`, not the phase's `$90`: `run_phase` adds
`(0xFFFE, 0x00), (0xFFFF, 0xFF)` when the phase writes no `$FFFE`, after the phase's writes. -/
theorem irq_vector_overwritten :
    ∃ T ∈ parseVhdlTestbench irqHighText, ∃ p ∈ T.phases, p.pokes = [(0xFFFF, 0x90)] ∧
      (∃ post, buildScript T = resetPrefix T [] p ++ .reset :: post) ∧
      ∀ mem, replay mem (resetPrefix T [] p) 0xFFFF = 0xFF :=
  let p : Phase Poke CheckMem :=
    { pokes := [(0xFFFF, 0x90)], checks := [(⟨0x200, 0x00, "zero"⟩, 15)], cycles := 130,
      cyclesSoFar := 15 }
  have hp : phasePokes p = [(0xFFFF, 0x90), (0xFFFC, 0x00), (0xFFFD, 0x80), (0xFFFE, 0x00)] ++
      (0xFFFF, 0xFF) :: [(0xFF00, 0xDB)] := by decide
  ⟨⟨1, "irq high byte", [p]⟩, by decide, p, by decide, rfl, ⟨_, buildScript_split (show _ = [] ++ [p] from rfl)⟩,
    fun mem => by
      simp only [resetPrefix, replay_append, hp]
      exact (replay_writeCmds_last _ _ _ (by decide) (by decide)).1⟩

end M65832Tb
