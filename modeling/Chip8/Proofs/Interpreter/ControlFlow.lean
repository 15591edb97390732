import Chip8.Proofs.Interpreter.Calls
import Chip8.Proofs.Interpreter.Replay
import Chip8.Proofs.Keypad.Latch

/-!
# ControlFlow — where a program goes on after a step

There is no common increment of the program counter: each instruction moves it by itself.  `GoesOn`
lists where a program goes on, with what is known when it goes there: the target of a jump with an
offset lies in memory, and a return goes past the call site that was in use at the top of the stack.

The conditions of skips come in pairs.  On the same operands, one skip of a pair passes over the
next instruction exactly when the other one does not.

Main statement: `step_goes_on`.
-/

namespace Chip8

/-! ## Conditions -/

def Condition.opposite : Condition → Condition
  | equalsConst x n => differsConst x n
  | differsConst x n => equalsConst x n
  | equalsRegister x y => differsRegister x y
  | differsRegister x y => equalsRegister x y
  | keyDown x => keyUp x
  | keyUp x => keyDown x

/-- Both conditions of a pair look at the same registers. -/
theorem Condition.registers_opposite (c : Condition) : c.opposite.registers = c.registers := by
  cases c with
  | _ => rfl

namespace Machine

variable {m : Machine} {i : Instruction} {c : Condition}

/-- A condition, in terms of register values and held keys. -/
def Met (m : Machine) : Condition → Prop
  | .equalsConst x n => m.value x = n
  | .differsConst x n => m.value x ≠ n
  | .equalsRegister x y => m.value x = m.value y
  | .differsRegister x y => m.value x ≠ m.value y
  | .keyDown x => m.value x % 16 ∈ m.keypad.held
  | .keyUp x => m.value x % 16 ∉ m.keypad.held

/-- A skip looks at the values and keys of its condition. -/
theorem meets_iff : m.meets c = true ↔ m.Met c := by
  cases c with
  | equalsConst | equalsRegister => exact beq_iff_eq
  | differsConst | differsRegister => exact bne_iff_ne
  | keyDown x => exact Keypad.isPressed_iff_mem_held
  | keyUp x =>
      simp only [meets, Met, ← Keypad.isPressed_iff_mem_held, Bool.not_eq_true', Bool.not_eq_true]

/-- Of a pair of conditions one is met. -/
theorem met_opposite : m.Met c.opposite ↔ ¬ m.Met c := by
  cases c with
  | equalsConst | equalsRegister | keyDown => exact Iff.rfl
  | differsConst | differsRegister | keyUp => exact not_not.symm

end Machine

/-! ## The next instruction -/

def Instruction.branches : Instruction → Bool
  | ret | jump _ | call _ | skip _ | jumpOffset _ | awaitKey _ => true
  | _ => false

namespace Machine

variable {m : Machine} {i : Instruction} {c : Condition}

/-- The address at which a program goes on after an instruction. -/
inductive GoesOn (m : Machine) : Instruction → Nat → Prop where
  | jump (target : UInt16) : GoesOn m (.jump target) target.toNat
  | call (target : UInt16) : GoesOn m (.call target) target.toNat
  | jumpOffset {base : UInt16} : base.toNat + (m.value 0).toNat < 0x1000 →
      GoesOn m (.jumpOffset base) (base.toNat + (m.value 0).toNat)
  | ret {site : UInt16} : 0 < m.stack.depth → m.stack.slots[m.stack.depth - 1]? = some site →
      GoesOn m .ret (site.toNat + 2)
  | parked (x : UInt8) : GoesOn m (.awaitKey x) m.pc.toNat
  | skipped {c : Condition} : m.Met c → GoesOn m (.skip c) (m.pc.toNat + 4)
  | entered {c : Condition} : ¬ m.Met c → GoesOn m (.skip c) (m.pc.toNat + 2)
  | next {i : Instruction} : i.branches = false → GoesOn m i (m.pc.toNat + 2)

/-- A return that is not refused goes past the call site at the top. -/
theorem goesOn_ret (hdepth : m.stack.depth ≤ 16)
    (hsites : ∀ site ∈ m.stack.entries, site.toNat ≤ 0xFFE) (hnone : m.fault? .ret = none) :
    m.GoesOn .ret (m.pcAfter .ret).toNat := by
  have hpos : 0 < m.stack.depth := by
    refine Nat.pos_of_ne_zero fun hzero => ?_
    rw [fault?, if_pos hzero] at hnone
    cases hnone
  have hlast : m.stack.depth - 1 < 16 := by omega
  have hslot : m.stack.slots[m.stack.depth - 1]? = some m.stack.top :=
    CallStack.top_eq_getElem? (Nat.sub_add_cancel hpos).symm hlast
  have hfits : m.stack.top.toNat + 2 < 0x10000 := by
    have htop := top_le hsites
    omega
  have hpc : (m.pcAfter .ret).toNat = m.stack.top.toNat + 2 := UInt16.toNat_ofNat_of_lt' hfits
  rw [hpc]
  exact .ret hpos hslot

/-- Nothing wraps around on the way to the next instructions. -/
theorem toNat_add_bytes (hpc : m.pc.toNat < 0xFFF) {n : Nat} (hn : n ≤ 4) :
    (UInt16.ofNat (m.pc.toNat + n)).toNat = m.pc.toNat + n :=
  UInt16.toNat_ofNat_of_lt' (show m.pc.toNat + n < 0x10000 by omega)

/-- A skip enters the next instruction or passes over it. -/
theorem goesOn_skip (hpc : m.pc.toNat < 0xFFF) (c : Condition) :
    m.GoesOn (.skip c) (m.pcAfter (.skip c)).toNat := by
  by_cases hmet : m.Met c
  · rw [pcAfter, if_pos (meets_iff.2 hmet), toNat_add_bytes hpc (Nat.le_refl 4)]
    exact .skipped hmet
  · rw [pcAfter, if_neg (mt meets_iff.1 hmet), toNat_add_bytes hpc (by decide)]
    exact .entered hmet

/-- The way of a skip is settled by its condition. -/
theorem GoesOn.of_skip {n : Nat} (hgoes : m.GoesOn (.skip c) n) :
    m.Met c ∧ n = m.pc.toNat + 4 ∨ ¬ m.Met c ∧ n = m.pc.toNat + 2 := by
  cases hgoes with
  | skipped hmet => exact .inl ⟨hmet, rfl⟩
  | entered hmet => exact .inr ⟨hmet, rfl⟩
  | next hplain => cases hplain

/-- Within memory a skip always has somewhere to go. -/
theorem admits_skip (hpc : m.pc.toNat < 0xFFF)
    (hregisters : ∀ x ∈ c.registers, x.toNat < registerCount) : m.Admits (.skip c) := by
  refine ⟨hregisters, ?_⟩
  show m.pc.toNat + (if m.meets c then 4 else 2) < 0x10000
  split <;> omega

/-- Most instructions go on with the next one. -/
theorem goesOn_next (hpc : m.pc.toNat < 0xFFF) (hplain : i.branches = false)
    (hafter : m.pcAfter i = UInt16.ofNat (m.pc.toNat + 2)) :
    m.GoesOn i (m.pcAfter i).toNat := by
  rw [hafter, toNat_add_bytes hpc (by decide)]
  exact .next hplain

/-- Every instruction that is not refused goes on where it says. -/
theorem goesOn_pcAfter (hdepth : m.stack.depth ≤ 16)
    (hsites : ∀ site ∈ m.stack.entries, site.toNat ≤ 0xFFE) (hpc : m.pc.toNat < 0xFFF)
    (hnone : m.fault? i = none) : m.GoesOn i (m.pcAfter i).toNat := by
  cases i with
  | jump target => exact .jump target
  | call target => exact .call target
  | ret => exact goesOn_ret hdepth hsites hnone
  | skip c => exact goesOn_skip hpc c
  | awaitKey x => exact .parked x
  | jumpOffset base =>
      have hin : base.toNat + (m.value 0).toNat < 0x1000 := by
        refine Nat.lt_of_not_le fun hout => ?_
        rw [fault?, if_neg (Nat.not_lt.2 hout)] at hnone
        cases hnone
      have hto : (m.pcAfter (.jumpOffset base)).toNat = base.toNat + (m.value 0).toNat :=
        UInt16.toNat_ofNat_of_lt' (Nat.lt_trans hin (by decide))
      rw [hto]
      exact .jumpOffset hin
  -- all other instructions move on by themselves
  | _ => exact goesOn_next hpc rfl rfl

end Machine

namespace Interpreter

variable {s t : Interpreter}

/-- The two skips of a pair can both be carried out, and go different ways. -/
theorem execute_opposite (hrun : s.runState = .running) (hpc : s.machine.pc.toNat < 0xFFF)
    {c : Condition} (hregisters : ∀ x ∈ c.registers, x.toNat < registerCount) :
    ∃ u, s.execute (.skip c.opposite) = .ok ⟨none, u⟩ ∧
      s.machine.GoesOn (.skip c.opposite) u.machine.pc.toNat := by
  have hadmits : s.machine.Admits (.skip c.opposite) := by
    rw [← c.registers_opposite] at hregisters
    exact Machine.admits_skip hpc hregisters
  exact ⟨_, execute_of_admits hrun hadmits rfl, Machine.goesOn_skip hpc c.opposite⟩

/-- A step that succeeds has carried out the instruction that the word at the program counter stands
for, and goes on where that instruction says.  If it is a skip, the other skip of the pair, carried
out in the same state on the same operands, goes the other way. -/
theorem step_goes_on (hrun : s.runState = .running) (hdepth : s.machine.stack.depth ≤ 16)
    (hsites : ∀ site ∈ s.machine.stack.entries, site.toNat ≤ 0xFFE)
    (hstep : s.step = .ok ⟨none, t⟩) :
    ∃ i, s.machine.word.Row i ∧ s.machine.GoesOn i t.machine.pc.toNat ∧
      ∀ c, i = .skip c → ∃ u, s.execute (.skip c.opposite) = .ok ⟨none, u⟩ ∧
        (t.machine.pc.toNat = s.machine.pc.toNat + 4 ∧
            u.machine.pc.toNat = s.machine.pc.toNat + 2 ∨
          t.machine.pc.toNat = s.machine.pc.toNat + 2 ∧
            u.machine.pc.toNat = s.machine.pc.toNat + 4) := by
  rcases exists_current?_of_step hrun hstep with ⟨i, hi⟩
  rcases row_of_current? hi with ⟨hpc, hrow⟩
  rcases performed_of_current? hi hstep with ⟨hnone, rfl⟩
  have hgoes : s.machine.GoesOn i (s.effect i).machine.pc.toNat :=
    Machine.goesOn_pcAfter hdepth hsites hpc hnone
  refine ⟨i, hrow, hgoes, ?_⟩
  rintro c rfl
  rcases execute_opposite hrun hpc (Instruction.registers_lt_of_row hrow) with ⟨u, hexec, hother⟩
  refine ⟨u, hexec, ?_⟩
  -- the conditions exclude each other, and one of them is met
  rcases hgoes.of_skip with ⟨hmet, hto⟩ | ⟨hmet, hto⟩ <;>
    rcases hother.of_skip with ⟨hopposite, htoo⟩ | ⟨hopposite, htoo⟩
  · exact absurd hmet (Machine.met_opposite.1 hopposite)
  · exact .inl ⟨hto, htoo⟩
  · exact .inr ⟨hto, htoo⟩
  · exact absurd (Machine.met_opposite.2 hmet) hopposite

/-- Only the low digit of a register names a key: 27 in hexadecimal stands for the key 7, which is
held. -/
theorem step_goes_on_key_down :
    let loaded := (((start (.ofSeed 3)).load [0xE3, 0x9E]).next).writeKeypad (.set 7 true)
    let s : Interpreter := { loaded with machine := { loaded.machine with
      registers := Vector.replicate 16 0x27 } }
    s.runState = .running ∧ s.machine.stack.depth ≤ 16 ∧
      (∀ site ∈ s.machine.stack.entries, site.toNat ≤ 0xFFE) ∧
      s.current? = some (.skip (.keyDown 3)) ∧
      ∃ t u, s.step = .ok ⟨none, t⟩ ∧ t.machine.pc.toNat = 0x204 ∧
        s.execute (.skip (.keyUp 3)) = .ok ⟨none, u⟩ ∧ u.machine.pc.toNat = 0x202 := by
  intro loaded s
  have hdepth : s.machine.stack.depth ≤ 16 := by decide +kernel
  have hempty : s.machine.stack.entries = [] := by decide +kernel
  have hsites : ∀ site ∈ s.machine.stack.entries, site.toNat ≤ 0xFFE := by
    rw [hempty]
    exact List.forall_mem_nil _
  have hcurrent : s.current? = some (.skip (.keyDown 3)) := by decide +kernel
  have hskips : s.machine.pcAfter (.skip (.keyDown 3)) = 0x204 := by decide +kernel
  have hadmits : s.machine.Admits (.skip (.keyDown 3)) :=
    Machine.admits_skip (row_of_current? hcurrent).1 (List.forall_mem_singleton.2 (by decide))
  have hstep := step_of_admits hcurrent hadmits rfl
  rcases step_goes_on rfl hdepth hsites hstep with ⟨i, hrow, -, hother⟩
  have hi : i = .skip (.keyDown 3) :=
    Option.some.inj ((Instruction.decode?_of_row hrow).symm.trans
      (Instruction.decode?_of_row (row_of_current? hcurrent).2))
  rcases hother (.keyDown 3) hi with ⟨u, hexec, ⟨hto, htoo⟩ | ⟨hto, -⟩⟩
  · exact ⟨rfl, hdepth, hsites, hcurrent, _, u, hstep, hto, hexec, htoo⟩
  · have hne : (0x204 : UInt16).toNat ≠ 0x202 := by decide
    exact absurd ((congrArg UInt16.toNat hskips).symm.trans hto) hne

end Interpreter
end Chip8
