import Chip8.Interpreter.State
import Chip8.Machine.Basic

/-!
# Effect — what an instruction does, part by part

`Interpreter.perform` goes through an instruction change by change and may be stopped on the way.
This module says the same without an order of events:

* `Machine.fault?` is the fault with which a machine refuses an instruction, if it does;
* `Machine.Admits` tells when an instruction has a meaning at all;
* `Machine.effect` and `Interpreter.effect` are the state afterwards, one part at a time, so that
  what leaves a part alone can be read off its definition.
-/

namespace Chip8

/-! ## Operands -/

def Condition.registers : Condition → List UInt8
  | equalsConst x _ | differsConst x _ | keyDown x | keyUp x => [x]
  | equalsRegister x y | differsRegister x y => [x, y]

namespace Instruction

/-- The operands that name registers. -/
def registers : Instruction → List UInt8
  | clearScreen | ret | jump _ | call _ | setIndex _ | jumpOffset _ => []
  | skip condition => condition.registers
  | alu _ x y | draw x y _ => [x, y]
  | setConst x _ | addConst x _ | random x _ | readDelay x | awaitKey x | setDelay x | setSound x
  | addIndex x | glyph x | decimal x | save x | restore x => [x]

def addresses : Instruction → List UInt16
  | jump a | call a | setIndex a | jumpOffset a => [a]
  | _ => []

/-- Whether the instruction marks the screen as changed. -/
def paints : Instruction → Bool
  | clearScreen | draw .. => true
  | _ => false

def drawsRandom : Instruction → Bool
  | random .. => true
  | _ => false

end Instruction

def CallStack.top (s : CallStack) : UInt16 :=
  s.entries.head?.getD 0

namespace Machine

variable (m : Machine)

/-! ## Values -/

/-- The value of a register, zero if there is no such register. -/
def value (x : UInt8) : UInt8 :=
  m.registers[x.toNat]?.getD 0

def bytesAt (address count : Nat) : List UInt8 :=
  (m.memory.toList.drop address).take count

def meets : Condition → Bool
  | .equalsConst x n => m.value x == n
  | .differsConst x n => m.value x != n
  | .equalsRegister x y => m.value x == m.value y
  | .differsRegister x y => m.value x != m.value y
  | .keyDown x => m.keypad.isPressed (m.value x)
  | .keyUp x => !m.keypad.isPressed (m.value x)

def drawn (x y height : UInt8) : Frame × Bool :=
  m.screen.blit (Sprite.cells (m.value x).toNat (m.value y).toNat
    (m.bytesAt m.index.toNat height.toNat))

/-! ## Refusals -/

def rangeFault? (address count : Nat) : Option Fault :=
  if 0 < count ∧ memorySize ≤ address + count - 1 then some (m.outOfRange (address + count - 1))
  else if memorySize ≤ address then some (m.outOfRange address)
  else none

/-- The fault with which an instruction is refused. -/
def fault? : Instruction → Option Fault
  | .ret => if m.stack.depth = 0 then some (.stackUnderflow m.pc) else none
  | .call _ => if m.stack.depth < stackCapacity then none else some (.stackOverflow m.pc)
  | .jumpOffset base =>
      if base.toNat + (m.value 0).toNat < memorySize then none
      else some (m.outOfRange (base.toNat + (m.value 0).toNat))
  | .draw _ _ height => m.rangeFault? m.index.toNat height.toNat
  | .decimal _ => m.rangeFault? m.index.toNat 3
  | .save last | .restore last => m.rangeFault? m.index.toNat (last.toNat + 1)
  | _ => none

/-- The numbers that an instruction computes fit sixteen bits. -/
def NumbersFit : Instruction → Prop
  | .jump _ | .call _ | .jumpOffset _ | .awaitKey _ => True
  -- a return finds no more entries than there are slots
  | .ret => m.stack.depth ≤ stackCapacity ∧ m.stack.top.toNat + 2 < 0x10000
  | .skip condition => m.pc.toNat + (if m.meets condition then 4 else 2) < 0x10000
  | .addIndex x => m.index.toNat + (m.value x).toNat < 0x10000 ∧ m.pc.toNat + 2 < 0x10000
  | _ => m.pc.toNat + 2 < 0x10000

structure Admits (i : Instruction) : Prop where
  registers_lt : ∀ x ∈ i.registers, x.toNat < registerCount
  numbersFit : m.NumbersFit i

/-! ## Parts after an instruction -/

def memoryAfter : Instruction → Memory
  | .decimal x => overlay m.memory m.index.toNat
      [m.value x / 100, m.value x / 10 % 10, m.value x % 10]
  | .save last => overlay m.memory m.index.toNat (m.registers.toList.take (last.toNat + 1))
  | _ => m.memory

/-- The registers after a two-register operation: the flag first, then the result over it. -/
def aluRegisters (op : AluOp) (x y : UInt8) : Registers :=
  let flagged := match op.flag? (m.value x) (m.value y) with
    | some flag => (m.setFlag flag).registers
    | none => m.registers
  flagged.setIfInBounds x.toNat (op.result (m.value x) (m.value y))

-- `byte` is the random byte at hand
def registersAfter (byte : UInt8) : Instruction → Registers
  | .setConst x n => m.registers.setIfInBounds x.toNat n
  | .addConst x n => m.registers.setIfInBounds x.toNat (m.value x + n)
  | .alu op x y => m.aluRegisters op x y
  | .random x mask => m.registers.setIfInBounds x.toNat (byte &&& mask)
  | .draw x y height => (m.setFlag (m.drawn x y height).2).registers
  | .readDelay x => m.registers.setIfInBounds x.toNat m.timers.delay
  | .restore last => overlay m.registers 0 (m.bytesAt m.index.toNat (last.toNat + 1))
  | _ => m.registers

def indexAfter : Instruction → UInt16
  | .setIndex address => address
  | .addIndex x => UInt16.ofNat (m.index.toNat + (m.value x).toNat) % UInt16.ofNat memorySize
  | .glyph x => UInt16.ofNat ((m.value x).toNat * glyphSize)
  | _ => m.index

def pcAfter : Instruction → UInt16
  | .ret => UInt16.ofNat (m.stack.top.toNat + 2)
  | .jump target | .call target => target
  | .skip condition => UInt16.ofNat (m.pc.toNat + if m.meets condition then 4 else 2)
  | .jumpOffset base => UInt16.ofNat (base.toNat + (m.value 0).toNat)
  | .awaitKey _ => m.pc
  | _ => UInt16.ofNat (m.pc.toNat + 2)

def stackAfter : Instruction → CallStack
  | .ret => { m.stack with depth := m.stack.depth - 1 }
  | .call _ =>
      { slots := m.stack.slots.setIfInBounds m.stack.depth m.pc, depth := m.stack.depth + 1 }
  | _ => m.stack

def timersAfter : Instruction → Timers
  | .setDelay x => { m.timers with delay := m.value x }
  | .setSound x => { m.timers with sound := m.value x }
  | _ => m.timers

def screenAfter : Instruction → Frame
  | .clearScreen => .blank
  | .draw x y height => (m.drawn x y height).1
  | _ => m.screen

/-- The machine afterwards.  No instruction touches the keypad. -/
def effect (byte : UInt8) (i : Instruction) : Machine where
  memory := m.memoryAfter i
  registers := m.registersAfter byte i
  index := m.indexAfter i
  pc := m.pcAfter i
  stack := m.stackAfter i
  timers := m.timersAfter i
  screen := m.screenAfter i
  keypad := m.keypad

end Machine

namespace Interpreter

def runStateAfter (s : Interpreter) : Instruction → RunState
  | .awaitKey x => .awaitingKey x
  | _ => s.runState

/-- The interpreter afterwards. -/
def effect (s : Interpreter) (i : Instruction) : Interpreter where
  machine := s.machine.effect s.generator.peek i
  runState := s.runStateAfter i
  generator := if i.drawsRandom then s.generator.advance else s.generator
  frameDirty := i.paints || s.frameDirty
  beepPending := s.beepPending

@[simp]
theorem runState_effect (s : Interpreter) (i : Instruction) :
    (s.effect i).runState = s.runStateAfter i := rfl

@[simp]
theorem frameDirty_effect (s : Interpreter) (i : Instruction) :
    (s.effect i).frameDirty = (i.paints || s.frameDirty) := rfl

@[simp]
theorem machine_effect (s : Interpreter) (i : Instruction) :
    (s.effect i).machine = s.machine.effect s.generator.peek i := rfl

end Interpreter

/-! ## Questions and changes in these terms -/

namespace CallStack

/-- A push with room stores the call site in the first free slot. -/
theorem push_of_lt {s : CallStack} (h : s.depth < stackCapacity) (pc site : UInt16) :
    s.push pc site =
      .ok { slots := s.slots.setIfInBounds s.depth site, depth := s.depth + 1 } := by
  rw [← Overlay.set_eq_setIfInBounds s.slots h site]
  simp [push, h]

/-- A push without room is refused. -/
theorem push_of_ge {s : CallStack} (h : ¬ s.depth < stackCapacity) (pc site : UInt16) :
    s.push pc site = .error (.fault (.stackOverflow pc)) := by
  simp [push, h]

/-- A pop of an empty stack is refused. -/
theorem pop_of_zero {s : CallStack} (h : s.depth = 0) (pc : UInt16) :
    s.pop pc = .error (.fault (.stackUnderflow pc)) := by
  simp [pop, h]

/-- The latest call site stands in the last slot that is in use. -/
theorem top_eq_getElem? {s : CallStack} {d : Nat} (h : s.depth = d + 1) (hd : d < stackCapacity) :
    s.slots[d]? = some s.top := by
  simp [top, entries, h, List.take_add_one, hd]

/-- A pop of a stack with entries takes the latest. -/
theorem pop_of_pos {s : CallStack} (hpos : s.depth ≠ 0) (hle : s.depth ≤ stackCapacity)
    (pc : UInt16) : s.pop pc = .ok (s.top, { s with depth := s.depth - 1 }) := by
  cases hd : s.depth with
  | zero => exact absurd hd hpos
  | succ d =>
      have hlt : d < stackCapacity := by omega
      have hpop : s.pop pc = .ok (s.slots.get ⟨d, hlt⟩, { s with depth := d }) := by
        unfold pop
        split
        · omega
        · rename_i e he
          have hed : e = d := by omega
          subst hed
          rw [dif_pos hlt]
      have htop : s.top = s.slots.get ⟨d, hlt⟩ := by
        rw [top, (entries_of_pop hpop).2]
        rfl
      rw [hpop, htop]
      rfl

theorem pop_of_gt {s : CallStack} (h : ¬ s.depth ≤ stackCapacity) (pc : UInt16) :
    s.pop pc = .error (.breach .corruptStack) := by
  unfold pop
  split
  · omega
  · rename_i d hd
    rw [dif_neg (by omega)]

end CallStack

namespace Machine

variable {m : Machine}

theorem register_of_lt {x : UInt8} (h : x.toNat < registerCount) :
    m.register x.toNat = .ok (m.value x) := by
  simp [register, value, h]

/-- A register that does not exist cannot be asked for. -/
theorem register_of_ge {x : UInt8} (h : ¬ x.toNat < registerCount) :
    m.register x.toNat = .error (.breach (.noSuchRegister x.toNat)) := by
  simp [register, h]

theorem setRegister_of_lt {x : UInt8} (h : x.toNat < registerCount) (v : UInt8) :
    m.setRegister x.toNat v =
      .ok { m with registers := m.registers.setIfInBounds x.toNat v } := by
  rw [← Overlay.set_eq_setIfInBounds m.registers h v]
  simp [setRegister, h]

theorem setRegister_of_ge {x : UInt8} (h : ¬ x.toNat < registerCount) (v : UInt8) :
    m.setRegister x.toNat v = .error (.breach (.noSuchRegister x.toNat)) := by
  simp [setRegister, h]

@[simp]
theorem value_zero : m.value 0 = m.registers[0] := by
  simp [value]

/-- A range passes both checks exactly if it lies in memory. -/
theorem rangeFault?_eq_none_iff {address count : Nat} :
    m.rangeFault? address count = none ↔
      address + count ≤ memorySize ∧ address < memorySize := by
  unfold rangeFault?
  split
  · rename_i hlast
    exact ⟨(nomatch ·), fun hin => absurd hlast (by omega)⟩
  · rename_i hlast
    split
    · rename_i hfirst
      exact ⟨(nomatch ·), fun hin => absurd hfirst (by omega)⟩
    · rename_i hfirst
      exact ⟨fun _ => by omega, fun _ => rfl⟩

/-- A slice is refused by the fault of its range and never runs over the end of memory. -/
theorem slice_eq (address count : Nat) :
    m.slice address count = match m.rangeFault? address count with
      | some f => .error (.fault f)
      | none => .ok (m.bytesAt address count) := by
  cases h : m.rangeFault? address count with
  | some f =>
      unfold rangeFault? at h
      unfold slice
      split at h
      · rename_i hlast
        cases h
        simp only [hlast, and_self, ↓reduceIte]
      · rename_i hlast
        split at h
        · rename_i hfirst
          cases h
          simp only [hlast, hfirst, ↓reduceIte]
        · cases h
  | none =>
      have hin := rangeFault?_eq_none_iff.1 h
      have hlast : ¬ (0 < count ∧ memorySize ≤ address + count - 1) := by omega
      have hfirst : ¬ memorySize ≤ address := by omega
      have hend : ¬ memorySize < address + count := by omega
      simp only [slice, hlast, hfirst, hend, ↓reduceIte, bytesAt]

/-- A slice of memory is as long as its range. -/
theorem length_bytesAt {address count : Nat} (h : address + count ≤ memorySize) :
    (m.bytesAt address count).length = count := by
  simp only [bytesAt, List.length_take, List.length_drop, Vector.length_toList]
  omega

/-- A condition on registers that exist holds if it is met. -/
theorem holds_eq {c : Condition} (h : ∀ x ∈ c.registers, x.toNat < registerCount) :
    m.holds c = .ok (m.meets c) := by
  cases c with
  | equalsConst x n | differsConst x n | keyDown x | keyUp x =>
      have hx : x.toNat < registerCount := h x (by simp [Condition.registers])
      simp only [holds, register_of_lt hx, meets]
      rfl
  | equalsRegister x y | differsRegister x y =>
      have hx : x.toNat < registerCount := h x (by simp [Condition.registers])
      have hy : y.toNat < registerCount := h y (by simp [Condition.registers])
      simp only [holds, register_of_lt hx, register_of_lt hy, meets]
      rfl

/-- A condition on a register that does not exist has no answer. -/
theorem holds_eq_error {c : Condition} (h : ¬ ∀ x ∈ c.registers, x.toNat < registerCount) :
    ∃ b, m.holds c = .error (.breach b) := by
  cases c with
  | equalsConst x n | differsConst x n | keyDown x | keyUp x =>
      have hx : ¬ x.toNat < registerCount := by simpa [Condition.registers] using h
      exact ⟨_, by simp only [holds, register_of_ge hx]; rfl⟩
  | equalsRegister x y | differsRegister x y =>
      by_cases hx : x.toNat < registerCount
      · have hy : ¬ y.toNat < registerCount := by
          intro hy
          exact h (by simp [Condition.registers, hx, hy])
        exact ⟨_, by simp only [holds, register_of_lt hx, register_of_ge hy]; rfl⟩
      · exact ⟨_, by simp only [holds, register_of_ge hx]; rfl⟩

/-- The second operand does not matter to an operation that does not read it. -/
theorem aluRegisters_eq (op : AluOp) (x y : UInt8) (h : op.readsSecond = false) (vy : UInt8) :
    m.aluRegisters op x y =
      (match op.flag? (m.value x) vy with
        | some flag => (m.setFlag flag).registers
        | none => m.registers).setIfInBounds x.toNat (op.result (m.value x) vy) := by
  cases op with
  | shiftRight | shiftLeft => rfl
  | move | or | and | xor | add | subtract | subtractFrom => cases h

/-- An operation on registers that exist sets the flag and then the result. -/
theorem operate_eq {op : AluOp} {x y : UInt8} (hx : x.toNat < registerCount)
    (hy : op.readsSecond = true → y.toNat < registerCount) :
    m.operate op x y = .ok { m with registers := m.aluRegisters op x y } := by
  have hflag (vy : UInt8) (m' : Machine)
      (hm' : m' = match op.flag? (m.value x) vy with
        | some flag => m.setFlag flag
        | none => m) :
      m'.setRegister x.toNat (op.result (m.value x) vy) =
        .ok { m with registers :=
          (match op.flag? (m.value x) vy with
            | some flag => (m.setFlag flag).registers
            | none => m.registers).setIfInBounds x.toNat (op.result (m.value x) vy) } := by
    rw [setRegister_of_lt hx, hm']
    cases op.flag? (m.value x) vy with
    | some flag => rfl
    | none => rfl
  cases hr : op.readsSecond with
  | true =>
      simp only [operate, register_of_lt hx, hr, ↓reduceIte, register_of_lt (hy hr)]
      exact hflag (m.value y) _ rfl
  | false =>
      rw [aluRegisters_eq op x y hr 0]
      simp only [operate, register_of_lt hx, hr]
      exact hflag 0 _ rfl

/-- An operation on a register that does not exist has no result. -/
theorem operate_eq_error {op : AluOp} {x y : UInt8}
    (h : ¬ (x.toNat < registerCount ∧ (op.readsSecond = true → y.toNat < registerCount))) :
    ∃ b, m.operate op x y = .error (.breach b) := by
  by_cases hx : x.toNat < registerCount
  · have hr : op.readsSecond = true := by
      cases hr : op.readsSecond with
      | true => rfl
      | false => exact absurd ⟨hx, by simp [hr]⟩ h
    have hy : ¬ y.toNat < registerCount := fun hy => h ⟨hx, fun _ => hy⟩
    exact ⟨_, by simp only [operate, register_of_lt hx, hr, ↓reduceIte, register_of_ge hy]; rfl⟩
  · exact ⟨_, by simp only [operate, register_of_ge hx]; rfl⟩

/-- A number below the limit passes the check. -/
theorem checkedWord_of_lt {n : Nat} (h : n < 0x10000) : checkedWord n = .ok (UInt16.ofNat n) := by
  simp [checkedWord, h]

theorem checkedWord_of_ge {n : Nat} (h : ¬ n < 0x10000) :
    checkedWord n = .error (.breach .wordOverflow) := by
  simp [checkedWord, h]

end Machine
end Chip8
