import Chip8.Proofs.Interpreter.Stepping

/-!
# Bounds — no run leaves the machine's limits

`Interpreter.Bounded` is the invariant of interpreters that only run what is in memory: how far the
program counter, the index register and the stack can go.  A cycle moves the program counter without
a check of its own (skips, returns, key waits), and each such move is safe because an earlier fetch
or call saw an address at most `0xFFE`; the invariant remembers that address.

Main statement: `applyAll_bounded`, for every history without direct execution.
-/

namespace Chip8

def Operation.direct : Operation → Bool
  | .execute _ | .executeMany _ => true
  | _ => false

namespace Interpreter

variable {s : Interpreter} {i : Instruction}

/-! ## The invariant -/

/-- What holds of every interpreter that only runs what is in memory. -/
structure Bounded (s : Interpreter) : Prop where
  -- a skip on the last word of memory goes furthest
  pc_le : s.machine.pc.toNat ≤ 0x1002
  index_le : s.machine.index.toNat ≤ 0xFFF
  depth_le : s.machine.stack.depth ≤ stackCapacity
  -- a call site was fetched from, and both its bytes lie in memory
  sites_le : ∀ site ∈ s.machine.stack.entries, site.toNat ≤ 0xFFE
  -- so was the place where the machine is parked
  parked : ∀ x, s.runState = .awaitingKey x → s.machine.pc.toNat ≤ 0xFFE ∧ x.toNat ≤ 0xF

/-- Every number that a step may compute in sixteen bits fits them. -/
structure SumsFit (m : Machine) : Prop where
  advance : m.pc.toNat + 4 ≤ 0xFFFF
  resume : ∀ site ∈ m.stack.entries, site.toNat + 2 ≤ 0xFFFF
  addIndex : ∀ v ∈ m.registers.toList, m.index.toNat + v.toNat ≤ 0xFFFF
  glyph : ∀ v ∈ m.registers.toList, v.toNat * glyphSize ≤ 0xFFFF

/-- Within the bounds no sum of a step overflows. -/
theorem Bounded.sumsFit (h : Bounded s) : SumsFit s.machine := by
  have hpc := h.pc_le
  have hindex := h.index_le
  refine ⟨by omega, ?_, ?_, ?_⟩
  · intro site hsite
    have hle := h.sites_le site hsite
    omega
  · intro v _
    have hv := v.toNat_lt
    omega
  · intro v _
    have hv := v.toNat_lt
    simp only [glyphSize]
    omega

/-- A new interpreter is within the bounds. -/
theorem start_bounded (g : Generator) : (start g).Bounded where
  pc_le := by
    show (UInt16.ofNat programStart).toNat ≤ _
    decide
  index_le := Nat.zero_le _
  depth_le := Nat.zero_le _
  sites_le := by simp [start, Machine.powerOn]
  parked := by
    intro x hx
    cases hx

/-- A fault in the run state changes no bound. -/
theorem Bounded.halt (h : Bounded s) (f : Fault) :
    Bounded { s with runState := .faulted f } where
  pc_le := h.pc_le
  index_le := h.index_le
  depth_le := h.depth_le
  sites_le := h.sites_le
  parked := by
    intro x hx
    cases hx

/-! ## Instructions read from memory -/

/-- A word is no greater than the number it was made of. -/
theorem toNat_ofNat_le (n : Nat) : (UInt16.ofNat n).toNat ≤ n := by
  rw [UInt16.toNat_ofNat']
  exact Nat.mod_le _ _

/-- No instruction leads further than a skip on the last word. -/
theorem Bounded.pcAfter_le (h : Bounded s) (hpc : s.machine.pc.toNat < 0xFFF)
    (hrow : s.machine.word.Row i) (hf : s.machine.fault? i = none) :
    (s.machine.pcAfter i).toNat ≤ 0x1002 := by
  have haddr := Instruction.addresses_lt_of_row hrow
  cases i with
  | jump a | call a =>
      have ha : a.toNat < memorySize := haddr a (.head _)
      exact Nat.le_trans (Nat.le_of_lt ha) (by decide)
  | jumpOffset base =>
      -- the jump was not refused, so its target is in memory
      simp only [Machine.fault?] at hf
      split at hf
      · rename_i hlt
        exact Nat.le_trans (toNat_ofNat_le _) (Nat.le_trans (Nat.le_of_lt hlt) (by decide))
      · cases hf
  | ret =>
      -- the call itself was fetched, so what follows it begins at 0x1000 or before
      have htop := Machine.top_le h.sites_le
      exact Nat.le_trans (toNat_ofNat_le _) (by omega)
  | skip c =>
      -- at worst over the word after the last one
      refine Nat.le_trans (toNat_ofNat_le _) ?_
      split <;> omega
  | awaitKey x => exact h.pc_le
  | _ => exact Nat.le_trans (toNat_ofNat_le _) (by omega)

/-- The index register stays within memory. -/
theorem Bounded.indexAfter_le (h : Bounded s) (hrow : s.machine.word.Row i) :
    (s.machine.indexAfter i).toNat ≤ 0xFFF := by
  have haddr := Instruction.addresses_lt_of_row hrow
  cases i with
  | setIndex a =>
      have ha : a.toNat < memorySize := haddr a (.head _)
      exact Nat.le_of_lt_succ ha
  | addIndex x =>
      -- the sum is taken modulo the size of memory
      simp only [Machine.indexAfter, UInt16.toNat_mod]
      exact Nat.le_of_lt_succ (Nat.mod_lt _ (by decide))
  | glyph x =>
      have hv := (s.machine.value x).toNat_lt
      refine Nat.le_trans (toNat_ofNat_le _) ?_
      simp only [glyphSize]
      omega
  | _ => exact h.index_le

/-- The stack holds no more sites than it has slots, and all were fetched from. -/
theorem Bounded.stackAfter (h : Bounded s) (hpc : s.machine.pc.toNat < 0xFFF)
    (hf : s.machine.fault? i = none) :
    (s.machine.stackAfter i).depth ≤ stackCapacity ∧
      ∀ site ∈ (s.machine.stackAfter i).entries, site.toNat ≤ 0xFFE := by
  cases i with
  | ret =>
      -- what is left on the stack was there before
      refine ⟨Nat.le_trans (Nat.sub_le _ _) h.depth_le, ?_⟩
      intro site hsite
      have hmem : site ∈ s.machine.stack.entries := by
        simp only [Machine.stackAfter, CallStack.entries, List.mem_reverse] at hsite ⊢
        exact List.take_subset_take_left _ (Nat.sub_le _ _) hsite
      exact h.sites_le site hmem
  | call target =>
      simp only [Machine.fault?] at hf
      split at hf
      · rename_i hlt
        -- the new entry is the address of the call itself
        have hpush := CallStack.entries_of_push
          (CallStack.push_of_lt hlt s.machine.pc s.machine.pc)
        refine ⟨hlt, ?_⟩
        intro site hsite
        rw [Machine.stackAfter, hpush.2.2] at hsite
        rcases List.mem_cons.1 hsite with rfl | hold
        · omega
        · exact h.sites_le site hold
      · cases hf
  | _ => exact ⟨h.depth_le, h.sites_le⟩

/-- An instruction read from memory keeps the bounds. -/
theorem Bounded.effect (h : Bounded s) (hrun : s.runState = .running)
    (hpc : s.machine.pc.toNat < 0xFFF) (hrow : s.machine.word.Row i)
    (hf : s.machine.fault? i = none) : (s.effect i).Bounded where
  pc_le := h.pcAfter_le hpc hrow hf
  index_le := h.indexAfter_le hrow
  depth_le := (h.stackAfter hpc hf).1
  sites_le := (h.stackAfter hpc hf).2
  parked := by
    intro x hx
    cases i with
    | awaitKey y =>
        cases hx
        have hlt : x.toNat < registerCount := Instruction.registers_lt_of_row hrow x (.head _)
        exact ⟨Nat.le_of_lt_succ hpc, Nat.le_of_lt_succ hlt⟩
    | _ =>
        simp [runStateAfter, hrun] at hx

/-! ## Steps -/

/-- A step of a bounded interpreter never breaks down, and leaves a bounded one. -/
theorem Bounded.step (h : Bounded s) : ∃ o, s.step = .ok o ∧ o.next.Bounded := by
  cases hrun : s.runState with
  | running =>
      rw [step_of_running hrun]
      rcases s.cycle_cases with ⟨f, _, hcycle⟩ | ⟨i, hpc, hrow, hcycle⟩
      · rw [hcycle]
        exact ⟨_, rfl, h.halt f⟩
      · have hadm := Machine.admits_of_row h.index_le h.depth_le h.sites_le hpc hrow
        rw [hcycle]
        cases hf : s.machine.fault? i with
        | some f =>
            rw [(performed s i).eq_error hadm hf]
            exact ⟨_, rfl, h.halt f⟩
        | none =>
            rw [(performed s i).eq_ok hadm hf]
            exact ⟨_, rfl, h.effect hrun hpc hrow hf⟩
  | awaitingKey x =>
      -- the wait was entered by an instruction that had been fetched, so resuming after it fits
      have hpark := h.parked x hrun
      have hsound : x.toNat < registerCount ∧ s.machine.pc.toNat + 2 < 0x10000 :=
        ⟨Nat.lt_succ_of_le hpark.2, by omega⟩
      rw [step_of_awaitingKey hrun, (pollKey_ends s x).eq_ok hsound rfl]
      refine ⟨_, rfl, ?_⟩
      show (s.polled x).Bounded
      unfold polled
      split
      · exact h
      · refine ⟨?_, h.index_le, h.depth_le, h.sites_le, ?_⟩
        · exact Nat.le_trans (toNat_ofNat_le _) (by omega)
        · intro y hy
          cases hy
  | faulted f =>
      rw [step_of_faulted hrun]
      exact ⟨_, rfl, h⟩

/-- So does every operation but direct execution. -/
theorem Bounded.apply (h : Bounded s) {op : Operation} (hop : op.direct = false) :
    ∃ r t, s.apply op = .ok (r, t) ∧ t.Bounded := by
  -- most operations leave alone all that the bounds speak of
  have hsame {t : Interpreter} (hpc : t.machine.pc = s.machine.pc)
      (hindex : t.machine.index = s.machine.index) (hstack : t.machine.stack = s.machine.stack)
      (hrun : t.runState = s.runState) : t.Bounded := by
    refine ⟨?_, ?_, ?_, ?_, ?_⟩
    · rw [hpc]
      exact h.pc_le
    · rw [hindex]
      exact h.index_le
    · rw [hstack]
      exact h.depth_le
    · rw [hstack]
      exact h.sites_le
    · rw [hpc, hrun]
      exact h.parked
  cases op with
  | step =>
      rcases h.step with ⟨o, hstep, hnext⟩
      exact ⟨o.response, o.next, by simp only [Interpreter.apply, hstep]; rfl, hnext⟩
  | execute | executeMany => cases hop
  | tick | takeFrame | takeBeep | writeKeypad => exact ⟨_, _, rfl, hsame rfl rfl rfl rfl⟩
  | reset => exact ⟨_, _, rfl, start_bounded _⟩
  | load program =>
      refine ⟨_, _, rfl, ?_⟩
      simp only [Interpreter.load, Machine.load]
      split
      · rename_i hload
        split at hload
        · cases hload
        · cases hload
          exact hsame rfl rfl rfl rfl
      · exact h

/-! ## Histories -/

/-- Every history without direct execution succeeds and stays within bounds; a further step computes
no number that does not fit its word, and ends with or without a fault but never breaks down. -/
theorem applyAll_bounded (g : Generator) (ops : List Operation)
    (hops : ∀ op ∈ ops, op.direct = false) :
    ∃ responses s, (start g).applyAll ops = .ok (responses, s) ∧ s.Bounded ∧ SumsFit s.machine ∧
      ∃ o, s.step = .ok o ∧ o.next.Bounded := by
  rcases applyAll_total (I := Bounded) (fun _ _ h hop => h.apply hop) hops (start_bounded g) with
    ⟨responses, s, hall, hs⟩
  exact ⟨responses, s, hall, hs, hs.sumsFit, hs.step⟩

/-- A jump to the last word of memory, and the skip that stands there. -/
theorem applyAll_bounded_skip_at_end :
    let ops : List Operation :=
      [.load ([0x1F, 0xFE] ++ List.replicate 3580 0 ++ [0x30, 0x00]), .step, .step, .tick, .step]
    (∀ op ∈ ops, op.direct = false) ∧
      ∃ responses s, (start (.ofSeed 7)).applyAll ops = .ok (responses, s) ∧ s.Bounded ∧
        SumsFit s.machine ∧ ∃ o, s.step = .ok o ∧ o.next.Bounded := by
  intro ops
  have hops : ∀ op ∈ ops, op.direct = false := by decide
  exact ⟨hops, applyAll_bounded (.ofSeed 7) ops hops⟩

end Interpreter
end Chip8
