import Chip8.Proofs.Interpreter.Faults

/-!
# Outcomes — what a request can do to an interpreter

A step performs the instruction at hand, looks at the keypad, or is refused; a direct execution
performs its instruction or is refused.  `StepOutcome` and `ExecuteOutcome` say this once, with the
state that is left in each case, so that no later proof goes through the pieces of a step again.
-/

namespace Chip8
namespace Interpreter

variable {s t : Interpreter} {i : Instruction} {o : Outcome}

/-! ## The instruction at hand -/

/-- An instruction is at hand while the interpreter runs and can read it. -/
theorem current?_eq_some_iff :
    s.current? = some i ↔
      s.runState = .running ∧ ∃ opcode, s.machine.nextInstruction = .ok (opcode, i) := by
  unfold current?
  split
  · rename_i j hrun hnext
    constructor
    · intro h
      cases h
      exact ⟨hrun, _, hnext⟩
    · rintro ⟨-, opcode, hnext'⟩
      rw [hnext] at hnext'
      cases hnext'
      rfl
  · rename_i hother
    constructor
    · intro h
      cases h
    · rintro ⟨hrun, opcode, hnext⟩
      exact absurd hnext (hother opcode i hrun)

/-- The instruction at hand stands on a row of the opcode table. -/
theorem row_of_current? (h : s.current? = some i) :
    s.machine.pc.toNat < 0xFFF ∧ s.machine.word.Row i := by
  rcases current?_eq_some_iff.1 h with ⟨-, opcode, hnext⟩
  rcases s.machine.fetchFault_or_row with ⟨f, hfetch⟩ | ⟨j, hpc, hrow⟩
  · rw [Machine.nextInstruction_of_fetchFault hfetch] at hnext
    cases hnext
  · rw [Machine.nextInstruction_of_row hpc hrow] at hnext
    cases hnext
    exact ⟨hpc, hrow⟩

/-- A running interpreter is refused while it reads, or performs the instruction at hand. -/
theorem cycle_current (hrun : s.runState = .running) :
    (∃ f, s.current? = none ∧ s.machine.FetchFault f ∧ cycle s = .error (.fault f) s) ∨
      ∃ i, s.current? = some i ∧ cycle s = perform i s := by
  rcases s.cycle_cases with ⟨f, hfetch, hcycle⟩ | ⟨i, hpc, hrow, hcycle⟩
  · left
    have hnone : s.current? = none := by
      simp only [current?, hrun, Machine.nextInstruction_of_fetchFault hfetch]
    exact ⟨f, hnone, hfetch, hcycle⟩
  · right
    have hnext : s.machine.nextInstruction = .ok (s.machine.word, i) :=
      Machine.nextInstruction_of_row hpc hrow
    exact ⟨i, current?_eq_some_iff.2 ⟨hrun, _, hnext⟩, hcycle⟩

/-! ## Single requests -/

/-- Why a step is refused. -/
inductive StepRefusal (s : Interpreter) : Fault → Prop where
  | unread {f : Fault} : s.runState = .running → s.current? = none → s.machine.FetchFault f →
      StepRefusal s f
  | refused {f : Fault} {i : Instruction} : s.current? = some i → s.machine.fault? i = some f →
      StepRefusal s f
  | halted {f : Fault} : s.runState = .faulted f → StepRefusal s f

/-- What a step can do. -/
inductive StepOutcome (s : Interpreter) : Outcome → Prop where
  | performed {i : Instruction} : s.current? = some i → s.machine.fault? i = none →
      StepOutcome s ⟨none, s.effect i⟩
  | polled {x : UInt8} : s.runState = .awaitingKey x → StepOutcome s ⟨none, s.polled x⟩
  | refused {f : Fault} : StepRefusal s f →
      StepOutcome s ⟨some f, { s with runState := .faulted f }⟩

inductive ExecuteOutcome (s : Interpreter) (i : Instruction) : Outcome → Prop where
  | performed : (∀ f, s.runState ≠ .faulted f) → s.machine.fault? i = none →
      ExecuteOutcome s i ⟨none, s.effect i⟩
  | refused {f : Fault} : s.runState = .faulted f ∨ s.machine.fault? i = some f →
      ExecuteOutcome s i ⟨some f, { s with runState := .faulted f }⟩

/-- A single instruction leaves its effect, or is refused. -/
theorem settle_perform (h : settle (perform i s) = .ok o) :
    (s.machine.fault? i = none ∧ o = ⟨none, s.effect i⟩) ∨
      ∃ f, s.machine.fault? i = some f ∧ o = ⟨some f, { s with runState := .faulted f }⟩ := by
  -- what a run leaves is said once, in `performed`; settling only reads it as an outcome
  have hends := performed s i
  generalize perform i s = r at h hends
  cases hends with
  | done hnone =>
      cases h
      exact .inl ⟨hnone, rfl⟩
  | refused hsome =>
      cases h
      exact .inr ⟨_, hsome, rfl⟩
  | broken _ => cases h

/-- Direct execution ends in one of the two ways. -/
theorem execute_outcome (h : s.execute i = .ok o) : ExecuteOutcome s i o := by
  by_cases hfault : ∃ f, s.runState = .faulted f
  · rcases hfault with ⟨f, hf⟩
    rw [execute_of_faulted hf] at h
    cases h
    -- the fault is there already, so halting on it again changes nothing
    have hrefused : ExecuteOutcome s i ⟨some f, { s with runState := .faulted f }⟩ :=
      .refused (.inl hf)
    rw [← eq_halted hf] at hrefused
    exact hrefused
  · have hne : ∀ f, s.runState ≠ .faulted f := fun f hf => hfault ⟨f, hf⟩
    rw [execute_of_ne hne] at h
    rcases settle_perform h with ⟨hnone, rfl⟩ | ⟨f, hsome, rfl⟩
    · exact .performed hne hnone
    · exact .refused (.inr hsome)

/-- A step ends in one of the three ways. -/
theorem step_outcome (h : s.step = .ok o) : StepOutcome s o := by
  cases hrun : s.runState with
  | running =>
      rw [step_of_running hrun] at h
      rcases cycle_current hrun with ⟨f, hnone, hfetch, hcycle⟩ | ⟨i, hi, hcycle⟩
      · rw [hcycle] at h
        cases h
        exact .refused (.unread hrun hnone hfetch)
      · rw [hcycle] at h
        rcases settle_perform h with ⟨hnone, rfl⟩ | ⟨f, hsome, rfl⟩
        · exact .performed hi hnone
        · exact .refused (.refused hi hsome)
  | awaitingKey x =>
      rw [step_of_awaitingKey hrun] at h
      have hends := pollKey_ends s x
      generalize pollKey x s = r at h hends
      cases hends with
      | done _ =>
          cases h
          exact .polled hrun
      | refused hsome => cases hsome
      | broken _ => cases h
  | faulted f =>
      -- the fault that is reported is the one it has halted on
      rw [step_of_faulted hrun] at h
      cases h
      have hrefused : StepOutcome s ⟨some f, { s with runState := .faulted f }⟩ :=
        .refused (.halted hrun)
      rw [← eq_halted hrun] at hrefused
      exact hrefused

/-- An instruction at hand that has a meaning and meets nothing that refuses it is performed. -/
theorem step_of_admits (hi : s.current? = some i) (hadmits : s.machine.Admits i)
    (hnone : s.machine.fault? i = none) : s.step = .ok ⟨none, s.effect i⟩ := by
  have hrun : s.runState = .running := (current?_eq_some_iff.1 hi).1
  rw [step_of_running hrun]
  rcases cycle_current hrun with ⟨f, hunread, -, -⟩ | ⟨j, hj, hcycle⟩
  · rw [hunread] at hi
    cases hi
  · rw [hj] at hi
    cases hi
    rw [hcycle, (performed s i).eq_ok hadmits hnone]
    rfl

/-- So is an instruction that is given, unless the interpreter has halted. -/
theorem execute_of_awake (hawake : ∀ f, s.runState ≠ .faulted f) (hadmits : s.machine.Admits i)
    (hnone : s.machine.fault? i = none) : s.execute i = .ok ⟨none, s.effect i⟩ := by
  rw [execute_of_ne hawake, (performed s i).eq_ok hadmits hnone]
  rfl

theorem execute_of_admits (hrun : s.runState = .running) (hadmits : s.machine.Admits i)
    (hnone : s.machine.fault? i = none) : s.execute i = .ok ⟨none, s.effect i⟩ :=
  execute_of_awake (ne_faulted_of_running hrun) hadmits hnone

/-- An instruction that is given and not refused leaves its effect. -/
theorem eq_effect_of_execute (h : s.execute i = .ok ⟨none, t⟩) : t = s.effect i := by
  cases execute_outcome h with
  | performed _ _ => rfl

/-- Not halted, and with room for the program counter to move on by a word. -/
structure Ready (s : Interpreter) : Prop where
  awake : ∀ f, s.runState ≠ .faulted f
  pc_le : s.machine.pc.toNat ≤ 0xFFFD

theorem Ready.pc_fits (h : s.Ready) : s.machine.pc.toNat + 2 < 0x10000 :=
  Nat.lt_succ_of_le (Nat.add_le_add_right h.pc_le 2)

/-- A running interpreter whose word is inside memory is ready. -/
theorem ready_of_running (hrun : s.runState = .running) (hpc : s.machine.pc.toNat ≤ 0xFFE) :
    s.Ready where
  awake := ne_faulted_of_running hrun
  pc_le := Nat.le_trans hpc (by decide)

/-- After an instruction that just moves on, an interpreter is ready for the next one. -/
theorem ready_effect (hrun : s.runState = .running) (hpc : s.machine.pc.toNat ≤ 0xFFE)
    (hplain : s.machine.pcAfter i = UInt16.ofNat (s.machine.pc.toNat + 2))
    (hstate : s.runStateAfter i = s.runState) : (s.effect i).Ready where
  awake := by
    have hkept : (s.effect i).runState = .running := hstate.trans hrun
    exact ne_faulted_of_running hkept
  pc_le := by
    show (s.machine.pcAfter i).toNat ≤ 0xFFFD
    rw [hplain, UInt16.toNat_ofNat']
    omega

/-- A step that is not refused has performed the instruction at hand, if there was one. -/
theorem performed_of_current? (hi : s.current? = some i) (h : s.step = .ok ⟨none, t⟩) :
    s.machine.fault? i = none ∧ t = s.effect i := by
  cases step_outcome h with
  | performed hj hnone =>
      rw [hi] at hj
      cases hj
      exact ⟨hnone, rfl⟩
  | polled hpark =>
      have hrun : s.runState = .running := (current?_eq_some_iff.1 hi).1
      rw [hpark] at hrun
      cases hrun

/-- A look at the keypad moves on by way of these parts only. -/
theorem polled_keeps (s : Interpreter) (x : UInt8) :
    ∃ registers pc runState, s.polled x =
      { s with machine := { s.machine with registers, pc }, runState } := by
  unfold polled
  split
  · exact ⟨s.machine.registers, s.machine.pc, s.runState, rfl⟩
  · exact ⟨_, _, _, rfl⟩

/-! ## Lists of instructions -/

/-- A list that is run goes on after the effect of its first instruction, or ends as that is
refused. -/
theorem executeMany_cases {rest : List Instruction} (h : s.executeMany (i :: rest) = .ok o) :
    (s.execute i = .ok ⟨none, s.effect i⟩ ∧ (s.effect i).executeMany rest = .ok o) ∨
      ∃ f, s.execute i = .ok ⟨some f, { s with runState := .faulted f }⟩ ∧
        o = ⟨some f, { s with runState := .faulted f }⟩ := by
  rcases executeMany_cons h with ⟨first, hfirst, hlater⟩
  cases execute_outcome hfirst with
  | performed _ _ =>
      rcases hlater with ⟨-, hsome⟩ | ⟨-, hrest⟩
      · cases hsome
      · exact .inl ⟨hfirst, hrest⟩
  | @refused f _ =>
      rcases hlater with ⟨heq, -⟩ | ⟨hnone, -⟩
      · exact .inr ⟨f, hfirst, heq⟩
      · cases hnone

/-- A list goes on after an instruction that succeeded. -/
theorem executeMany_of_performed (h : s.execute i = .ok ⟨none, t⟩) (rest : List Instruction) :
    s.executeMany (i :: rest) = t.executeMany rest := by
  rw [executeMany, h]
  rfl

/-- A list of one instruction is that instruction. -/
@[simp]
theorem executeMany_singleton (s : Interpreter) (i : Instruction) :
    s.executeMany [i] = s.execute i := by
  rw [executeMany]
  cases s.execute i with
  | error b => rfl
  | ok o =>
      rcases o with ⟨fault?, next⟩
      cases fault? with
      | none => rfl
      | some f => rfl

end Interpreter
end Chip8
