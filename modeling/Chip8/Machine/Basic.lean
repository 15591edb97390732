import Chip8.Devices
import Chip8.Frame
import Chip8.Instruction.Codec
import Chip8.Machine.CallStack
import Chip8.Machine.Overlay

/-!
# Machine — everything an instruction can change

A machine has 4096 bytes of memory, sixteen registers V0 to VF, the index register, the program
counter, a call stack, two timers, a screen and a keypad.  This module holds the power-on state,
checked access to each part and what instructions ask of a machine: the instruction at the program
counter, the conditions of skips, the two-register operations and the jump that adds V0.

Each of these is one question or one change, which succeeds as a whole or is refused; an address
outside memory is a fault that leaves the machine as it was.  Instructions are put together from
them in `Interpreter.perform`.
-/

namespace Chip8

/-! ## Layout -/

abbrev memorySize : Nat := 4096

abbrev registerCount : Nat := 16

abbrev programStart : Nat := 0x200

/-- Addresses that a caller outside the machine can name: 64 bits. -/
abbrev addressLimit : Nat := 0x10000000000000000

abbrev glyphSize : Nat := 5

/-- The pictures of the hexadecimal digits, which lie at the beginning of memory. -/
def font : List UInt8 :=
  [0xF0, 0x90, 0x90, 0x90, 0xF0,
   0x20, 0x60, 0x20, 0x20, 0x70,
   0xF0, 0x10, 0xF0, 0x80, 0xF0,
   0xF0, 0x10, 0xF0, 0x10, 0xF0,
   0x90, 0x90, 0xF0, 0x10, 0x10,
   0xF0, 0x80, 0xF0, 0x10, 0xF0,
   0xF0, 0x80, 0xF0, 0x90, 0xF0,
   0xF0, 0x10, 0x20, 0x40, 0x40,
   0xF0, 0x90, 0xF0, 0x90, 0xF0,
   0xF0, 0x90, 0xF0, 0x10, 0xF0,
   0xF0, 0x90, 0xF0, 0x90, 0x90,
   0xE0, 0x90, 0xE0, 0x90, 0xE0,
   0xF0, 0x80, 0x80, 0x80, 0xF0,
   0xE0, 0x90, 0x90, 0x90, 0xE0,
   0xF0, 0x80, 0xF0, 0x80, 0xF0,
   0xF0, 0x80, 0xF0, 0x80, 0x80]

abbrev Memory := Vector UInt8 memorySize

abbrev Registers := Vector UInt8 registerCount

structure Machine where
  memory : Memory
  registers : Registers
  index : UInt16
  pc : UInt16
  stack : CallStack
  timers : Timers
  screen : Frame
  keypad : Keypad
  deriving DecidableEq

namespace Machine

/-- The state at power-on. -/
def powerOn : Machine where
  memory := overlay (Vector.replicate _ 0) 0 font
  registers := Vector.replicate _ 0
  index := 0
  pc := UInt16.ofNat programStart
  stack := .empty
  timers := .zero
  screen := .blank
  keypad := .released

/-! ## Memory -/

def outOfRange (m : Machine) (address : Nat) : Fault :=
  .outOfRange address m.pc

def read (m : Machine) (address : Nat) : Except Stop UInt8 :=
  if h : address < memorySize then .ok m.memory[address] else .error (.fault (m.outOfRange address))

def write (m : Machine) (address : Nat) (value : UInt8) : Except Stop Machine :=
  if h : address < memorySize then
    .ok { m with memory := m.memory.set address value h }
  else
    .error (.fault (m.outOfRange address))

/-- The `count` bytes from an address on. -/
def slice (m : Machine) (address count : Nat) : Except Stop (List UInt8) :=
  let last := address + count - 1
  -- the last address is checked first; of an empty range, the first has to be in memory
  if 0 < count ∧ memorySize ≤ last then .error (.fault (m.outOfRange last))
  else if memorySize ≤ address then .error (.fault (m.outOfRange address))
  else if memorySize < address + count then .error (.breach .rangeOutside)
  else .ok ((m.memory.toList.drop address).take count)

/-- `slice` for a caller whose addresses are 64 bits wide: the end of the range has to be one. -/
def readRange (m : Machine) (address count : Nat) : Except Stop (List UInt8) :=
  if 0 < count ∧ addressLimit ≤ address + count then .error (.breach .rangeOverflow)
  else m.slice address count

/-- Store a list of bytes from an address on.  The caller has checked the range. -/
def store (m : Machine) (address : Nat) (bytes : List UInt8) : Except Stop Machine :=
  if address + bytes.length ≤ memorySize then
    .ok { m with memory := overlay m.memory address bytes }
  else
    .error (.breach .rangeOutside)

/-- Copy a program to the program area, if it fits. -/
def load (m : Machine) (program : List UInt8) : Except Fault Machine :=
  let stop := programStart + program.length
  if memorySize < stop then .error (m.outOfRange (stop - 1))
  else .ok { m with memory := overlay m.memory programStart program }

def fetch (m : Machine) : Except Stop Opcode := do
  let high ← m.read m.pc.toNat
  let low ← m.read (m.pc.toNat + 1)
  return .ofBytes high low

/-! ## Registers -/

def register (m : Machine) (number : Nat) : Except Stop UInt8 :=
  if h : number < registerCount then .ok m.registers[number]
  else .error (.breach (.noSuchRegister number))

def setRegister (m : Machine) (number : Nat) (value : UInt8) : Except Stop Machine :=
  if h : number < registerCount then
    .ok { m with registers := m.registers.set number value h }
  else
    .error (.breach (.noSuchRegister number))

def firstRegisters (m : Machine) (count : Nat) : Except Stop (List UInt8) :=
  if count ≤ registerCount then .ok (m.registers.toList.take count)
  else .error (.breach (.noSuchRegister (count - 1)))

def setFirstRegisters (m : Machine) (values : List UInt8) : Except Stop Machine :=
  if values.length ≤ registerCount then .ok { m with registers := overlay m.registers 0 values }
  else .error (.breach (.noSuchRegister (values.length - 1)))

def setFlag (m : Machine) (flag : Bool) : Machine :=
  { m with registers := m.registers.set 0xF (if flag then 1 else 0) }

/-! ## Program counter and stack -/

def checkedWord (n : Nat) : Except Stop UInt16 :=
  if n < 0x10000 then .ok (UInt16.ofNat n) else .error (.breach .wordOverflow)

def advance (m : Machine) (bytes : Nat) : Except Stop Machine := do
  let pc ← checkedWord (m.pc.toNat + bytes)
  return { m with pc }

def push (m : Machine) (site : UInt16) : Except Stop Machine := do
  let stack ← m.stack.push m.pc site
  return { m with stack }

def pop (m : Machine) : Except Stop (UInt16 × Machine) := do
  let (site, stack) ← m.stack.pop m.pc
  return (site, { m with stack })

/-! ## Devices -/

def tick (m : Machine) : Machine :=
  { m with timers := m.timers.tick }

def writeKeypad (m : Machine) (w : Keypad.Write) : Machine :=
  { m with keypad := m.keypad.write w }

/-! ## Reset -/

/-- Bring each part back to what it is at power-on. -/
def reset (m : Machine) : Machine :=
  -- the keys are released the way they are from outside, by a write to the same keypad
  { m with
    memory := overlay (Vector.replicate _ 0) 0 font
    registers := Vector.replicate _ 0
    timers := .zero
    index := 0
    pc := UInt16.ofNat programStart
    stack := .empty
    screen := .blank
    keypad := m.keypad.write .releaseAll }

/-- No part of the machine is forgotten. -/
theorem reset_eq_powerOn (m : Machine) : m.reset = .powerOn := rfl

/-! ## Reading the program -/

/-- The instruction at the program counter, with its word. -/
def nextInstruction (m : Machine) : Except Stop (Opcode × Instruction) := do
  let opcode ← m.fetch
  match Instruction.decode? opcode with
  | some i => return (opcode, i)
  | none => throw (.fault (.unknownOpcode opcode m.pc))

/-! ## Pieces of instructions -/

def holds (m : Machine) : Condition → Except Stop Bool
  | .equalsConst x n => return (← m.register x.toNat) == n
  | .differsConst x n => return (← m.register x.toNat) != n
  | .equalsRegister x y => return (← m.register x.toNat) == (← m.register y.toNat)
  | .differsRegister x y => return (← m.register x.toNat) != (← m.register y.toNat)
  | .keyDown x => return m.keypad.isPressed (← m.register x.toNat)
  | .keyUp x => return !m.keypad.isPressed (← m.register x.toNat)

/-- A two-register operation.  A result in VF wins over the flag. -/
def operate (m : Machine) (op : AluOp) (x y : UInt8) : Except Stop Machine := do
  let vx ← m.register x.toNat
  let vy ← if op.readsSecond then m.register y.toNat else pure 0
  -- both values are known by now, so writing VF cannot disturb them
  let flagged := match op.flag? vx vy with
    | some flag => m.setFlag flag
    | none => m
  flagged.setRegister x.toNat (op.result vx vy)

/-- Jump to an address plus V0, which has to be in memory. -/
def jumpOffset (m : Machine) (base : UInt16) : Except Stop Machine :=
  let target := base.toNat + m.registers[0].toNat
  if target < memorySize then .ok { m with pc := UInt16.ofNat target }
  else .error (.fault (m.outOfRange target))

end Machine

/-! ## Requests to the stack -/

inductive StackRequest where
  | push (site : UInt16)
  | pop
  deriving DecidableEq, Repr

namespace Machine

/-- The reply to a request, and the machine afterwards. -/
def askStack (m : Machine) : StackRequest → Except Stop (Option UInt16) × Machine
  | .push site =>
      match m.push site with
      | .ok next => (.ok none, next)
      | .error stop => (.error stop, m)
  | .pop =>
      match m.pop with
      | .ok (site, next) => (.ok (some site), next)
      | .error stop => (.error stop, m)

end Machine
end Chip8
