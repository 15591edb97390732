import Chip8.Proofs.Interpreter.Footprint
import Chip8.Proofs.Interpreter.Replay

/-!
# FlagArithmetic — what the flag and the result add up to

Five operations on two registers leave a flag in VF: a carry, the absence of a borrow, or the bit
that was shifted out.  What does not fit the byte of the result is in the flag, so the two together
account for the operands (`AluOp.Balanced`).  VF is a register like any other, though.  It may be an
operand, which is read before the flag is written.  It may also be the target, and then the result
is written over the flag, so that all that is left is the result, cut to a byte (`AluOp.Wrapped`).

Main statement: `execute_alu_flag`.
-/

namespace Chip8

/-! ## Bytes as numbers -/

namespace AluOp

/-- The result and the flag of an operation, as numbers, account for its operands. -/
inductive Balanced (vx vy result flag : Nat) : AluOp → Prop where
  | add : 256 * flag + result = vx + vy → Balanced vx vy result flag .add
  | subtract : result + vy = vx + 256 * (1 - flag) → Balanced vx vy result flag .subtract
  | subtractFrom : result + vx = vy + 256 * (1 - flag) → Balanced vx vy result flag .subtractFrom
  | shiftRight : vx = 2 * result + flag → Balanced vx vy result flag .shiftRight
  | shiftLeft : 256 * flag + result = 2 * vx → Balanced vx vy result flag .shiftLeft

/-- The result of an operation, as a number, when its flag is lost. -/
inductive Wrapped (vx vy : Int) : AluOp → Int → Prop where
  | add : Wrapped vx vy .add ((vx + vy) % 256)
  | subtract : Wrapped vx vy .subtract ((vx - vy) % 256)
  | subtractFrom : Wrapped vx vy .subtractFrom ((vy - vx) % 256)
  | shiftRight : Wrapped vx vy .shiftRight (vx / 2)
  | shiftLeft : Wrapped vx vy .shiftLeft (2 * vx % 256)

variable {op : AluOp}

/-- A shift to the right halves a byte. -/
@[simp]
theorem toNat_shiftRight_one (v : UInt8) : (v >>> 1).toNat = v.toNat / 2 := by
  rw [UInt8.toNat_shiftRight]
  exact Nat.shiftRight_eq_div_pow _ 1

/-- A shift to the left doubles it, as far as it fits. -/
@[simp]
theorem toNat_shiftLeft_one (v : UInt8) : (v <<< 1).toNat = 2 * v.toNat % 256 := by
  rw [UInt8.toNat_shiftLeft, Nat.mul_comm]
  exact congrArg (· % 256) (Nat.shiftLeft_eq _ 1)

/-- A flag counts as one or zero. -/
theorem toNat_decide (p : Prop) [Decidable p] : (decide p).toNat = if p then 1 else 0 := by
  by_cases hp : p
  · simp [hp]
  · simp [hp]

/-- Every operation that sets the flag has one for all operands, and the flag makes up for what the
result has lost. -/
theorem exists_flag (hop : op.setsFlag = true) (vx vy : UInt8) :
    ∃ flag : Bool, op.flag? vx vy = some flag ∧
      op.Balanced vx.toNat vy.toNat (op.result vx vy).toNat flag.toNat := by
  have hx := vx.toNat_lt
  have hy := vy.toNat_lt
  -- the flag is always the answer to a comparison; both answers are settled by counting
  cases op with
  | move | or | and | xor => cases hop
  | add =>
      refine ⟨_, rfl, .add ?_⟩
      rw [result, UInt8.toNat_add, toNat_decide]
      split <;> omega
  | subtract =>
      refine ⟨_, rfl, .subtract ?_⟩
      simp only [result, UInt8.toNat_sub, toNat_decide, UInt8.le_iff_toNat_le]
      split <;> omega
  | subtractFrom =>
      refine ⟨_, rfl, .subtractFrom ?_⟩
      simp only [result, UInt8.toNat_sub, toNat_decide, UInt8.le_iff_toNat_le]
      split <;> omega
  | shiftRight =>
      refine ⟨_, rfl, .shiftRight ?_⟩
      simp only [result, toNat_shiftRight_one, toNat_decide]
      split <;> omega
  | shiftLeft =>
      refine ⟨_, rfl, .shiftLeft ?_⟩
      simp only [result, toNat_shiftLeft_one, toNat_decide]
      split <;> omega

/-- Without its flag, an operation leaves the number it computes modulo 256. -/
theorem wrapped_result (hop : op.setsFlag = true) (vx vy : UInt8) :
    op.Wrapped vx.toNat vy.toNat (op.result vx vy).toNat := by
  have hx := vx.toNat_lt
  have hy := vy.toNat_lt
  cases op with
  | move | or | and | xor => cases hop
  | add =>
      have hsum : ((vx + vy).toNat : Int) = (vx.toNat + vy.toNat) % 256 := by
        rw [UInt8.toNat_add]
        omega
      rw [result, hsum]
      exact .add
  | subtract =>
      have hdifference : ((vx - vy).toNat : Int) = (vx.toNat - vy.toNat) % 256 := by
        rw [UInt8.toNat_sub]
        omega
      rw [result, hdifference]
      exact .subtract
  | subtractFrom =>
      have hdifference : ((vy - vx).toNat : Int) = (vy.toNat - vx.toNat) % 256 := by
        rw [UInt8.toNat_sub]
        omega
      rw [result, hdifference]
      exact .subtractFrom
  | shiftRight =>
      have hhalf : ((vx >>> 1).toNat : Int) = vx.toNat / 2 := by
        rw [toNat_shiftRight_one]
        omega
      rw [result, hhalf]
      exact .shiftRight
  | shiftLeft =>
      have hdouble : ((vx <<< 1).toNat : Int) = 2 * vx.toNat % 256 := by
        rw [toNat_shiftLeft_one]
        omega
      rw [result, hdouble]
      exact .shiftLeft

end AluOp

/-! ## Registers after an operation -/

namespace Machine

variable {m : Machine} {op : AluOp} {x y z : UInt8}

/-- The machine with the registers that an operation leaves. -/
def operated (m : Machine) (op : AluOp) (x y : UInt8) : Machine :=
  { m with registers := m.aluRegisters op x y }

theorem value_operated_target (hx : x.toNat < registerCount) :
    (m.operated op x y).value x = op.result (m.value x) (m.value y) := by
  simp only [value, operated, aluRegisters, Vector.getElem?_setIfInBounds_self, hx, ↓reduceIte,
    Option.getD_some]

/-- The flag is left in VF unless the result is written over it. -/
theorem value_operated_flag (hx : x ≠ 0xF) {flag : Bool}
    (hflag : op.flag? (m.value x) (m.value y) = some flag) :
    ((m.operated op x y).value 0xF).toNat = flag.toNat := by
  have hne : x.toNat ≠ 0xF := fun h => hx (UInt8.toNat.inj h)
  have hbyte : (m.operated op x y).value 0xF = if flag then 1 else 0 := by
    have hread : (m.aluRegisters op x y)[0xF]? = (m.setFlag flag).registers[0xF]? := by
      rw [aluRegisters, hflag, Vector.getElem?_setIfInBounds_ne hne]
    show (m.aluRegisters op x y)[0xF]?.getD 0 = _
    rw [hread]
    simp [setFlag]
  rw [hbyte]
  cases flag with
  | true => rfl
  | false => rfl

theorem value_operated_of_ne (hx : z ≠ x) (hflag : z ≠ 0xF) :
    (m.operated op x y).value z = m.value z := by
  have hxne : z.toNat ≠ x.toNat := fun h => hx (UInt8.toNat.inj h)
  have hfne : z.toNat ≠ 0xF := fun h => hflag (UInt8.toNat.inj h)
  have hkept : (m.aluRegisters op x y)[z.toNat]? = m.registers[z.toNat]? :=
    getElem?_aluRegisters hxne fun _ => hfne
  rw [value, operated, hkept, value]

end Machine

namespace Interpreter

variable {s : Interpreter} {op : AluOp} {x y : UInt8}

/-- An operation is carried out up to its last change, which moves the program counter on. -/
theorem perform_alu (hx : x.toNat < registerCount) (hy : y.toNat < registerCount) :
    perform (.alu op x y) s =
      Action.advance 2 { s with machine := s.machine.operated op x y } := by
  rw [perform, Action.bind_apply, Action.change, Machine.operate_eq hx fun _ => hy]
  rfl

/-- An operation that sets the flag succeeds and moves on, unless the program counter stands at the
very end of its range; then it breaks down with the registers already written.  Either way the
registers account for the operands: with VF as the target only the wrapped result is left, otherwise
the flag and the result together are what the operands were.  No third register changes, and it
makes no difference whether the operation was read from memory or is given. -/
theorem execute_alu_flag (hrun : s.runState = .running) (hop : op.setsFlag = true)
    (hx : x.toNat ≤ 15) (hy : y.toNat ≤ 15) :
    ∃ m : Machine, (∃ registers, m = { s.machine with registers }) ∧
      (s.machine.pc.toNat ≤ 0xFFFD →
        s.execute (.alu op x y) =
          .ok ⟨none, { s with machine := { m with pc := s.machine.pc + 2 } }⟩) ∧
      (0xFFFD < s.machine.pc.toNat →
        perform (.alu op x y) s = .error (.breach .wordOverflow) { s with machine := m }) ∧
      (s.current? = some (.alu op x y) → s.step = s.execute (.alu op x y)) ∧
      (x ≠ 0xF → (m.value 0xF = 0 ∨ m.value 0xF = 1) ∧ (m.value x).toNat < 256 ∧
        op.Balanced (s.machine.value x).toNat (s.machine.value y).toNat (m.value x).toNat
          (m.value 0xF).toNat) ∧
      (x = 0xF → op.Wrapped (s.machine.value x).toNat (s.machine.value y).toNat
        (m.value 0xF).toNat) ∧
      ∀ z, z ≠ x → z ≠ 0xF → m.value z = s.machine.value z := by
  have hxlt : x.toNat < registerCount := Nat.lt_succ_of_le hx
  have hylt : y.toNat < registerCount := Nat.lt_succ_of_le hy
  refine ⟨s.machine.operated op x y, ⟨_, rfl⟩, ?_, ?_, step_eq_execute, ?_, ?_, ?_⟩
  · intro hpc
    have hfits : s.machine.pc.toNat + 2 < 0x10000 := by omega
    have hword : UInt16.ofNat (s.machine.pc.toNat + 2) = s.machine.pc + 2 := by
      rw [UInt16.ofNat_add, UInt16.ofNat_toNat]
      rfl
    have hends := (advance_ends 2 { s with machine := s.machine.operated op x y }).eq_ok hfits rfl
    rw [execute_of_ne (ne_faulted_of_running hrun), perform_alu hxlt hylt, ← hword, hends]
    rfl
  · intro hpc
    have hout : ¬ s.machine.pc.toNat + 2 < 0x10000 := by omega
    rw [perform_alu hxlt hylt]
    simp only [Action.advance, Action.change, Machine.advance]
    -- the registers are written by now, and the program counter is still that of the beginning
    have hbreak : Machine.checkedWord ((s.machine.operated op x y).pc.toNat + 2) =
        .error (.breach .wordOverflow) := Machine.checkedWord_of_ge hout
    rw [hbreak]
    rfl
  · intro hne
    rcases AluOp.exists_flag hop (s.machine.value x) (s.machine.value y) with
      ⟨flag, hflag, hbalanced⟩
    have hvf := Machine.value_operated_flag hne hflag
    refine ⟨?_, UInt8.toNat_lt _, ?_⟩
    · cases flag with
      | true => exact .inr (UInt8.toNat.inj hvf)
      | false => exact .inl (UInt8.toNat.inj hvf)
    · rw [hvf, Machine.value_operated_target hxlt]
      exact hbalanced
  · rintro rfl
    rw [Machine.value_operated_target hxlt]
    exact AluOp.wrapped_result hop _ _
  · intro z hzx hzf
    exact Machine.value_operated_of_ne hzx hzf

/-- V3 minus VF, where VF is itself the subtrahend: it is read in time, and holds the flag
afterwards. -/
theorem execute_alu_flag_subtrahend :
    let registers := ((Vector.replicate 16 0).set 3 5).set 0xF 200
    let s : Interpreter := { start (.ofSeed 3) with
      machine := { Machine.powerOn with registers } }
    s.runState = .running ∧ AluOp.subtract.setsFlag = true ∧ (3 : UInt8).toNat ≤ 15 ∧
      (0xF : UInt8).toNat ≤ 15 ∧
      ∃ t, s.execute (.alu .subtract 3 0xF) = .ok ⟨none, t⟩ ∧
        (t.machine.value 3).toNat + 200 = 5 + 256 * (1 - (t.machine.value 0xF).toNat) ∧
        t.machine.value 0xE = 0 := by
  intro registers s
  have hpc : s.machine.pc.toNat ≤ 0xFFFD := by decide
  have hflag : AluOp.subtract.setsFlag = true := rfl
  rcases execute_alu_flag (s := s) (x := 3) (y := 0xF) rfl hflag (by decide) (by decide) with
    ⟨m, -, hexec, -, -, hbalanced, -, hkept⟩
  refine ⟨rfl, hflag, by decide, by decide, _, hexec hpc, ?_, ?_⟩
  · cases (hbalanced (by decide)).2.2 with
    | subtract h => exact h
  · exact hkept 0xE (by decide) (by decide)

end Interpreter
end Chip8
