import Chip8.Interpreter.State
import Chip8.Machine.Basic

/-!
# Perform — the effect of one instruction

An `Action` is a piece of work on an interpreter.  It ends with a value or is stopped, and either
way with a state: what was changed before the stop stays changed.  `perform` is the opcode table,
with the changes of each instruction in their order.
-/

namespace Chip8
namespace Interpreter

/-- A piece of work.  When it is stopped, the changes made so far are kept. -/
abbrev Action (α : Type) := EStateM Stop Interpreter α

/-! ## Pieces of work -/

namespace Action

def look {α : Type} (view : Machine → α) : Action α := fun s =>
  .ok (view s.machine) s

/-- Ask the machine something that it may refuse to answer. -/
def ask {α : Type} (question : Machine → Except Stop α) : Action α := fun s =>
  match question s.machine with
  | .ok answer => .ok answer s
  | .error stop => .error stop s

def update (f : Machine → Machine) : Action Unit := fun s =>
  .ok () { s with machine := f s.machine }

def change (f : Machine → Except Stop Machine) : Action Unit := fun s =>
  match f s.machine with
  | .ok machine => .ok () { s with machine }
  | .error stop => .error stop s

def popSite : Action UInt16 := fun s =>
  match s.machine.pop with
  | .ok (site, machine) => .ok site { s with machine }
  | .error stop => .error stop s

/-- Flip cells of the screen in order, and tell whether a lit one was hit. -/
def blit (cells : List Cell) : Action Bool := fun s =>
  let (screen, hit) := s.machine.screen.blit cells
  .ok hit { s with machine := { s.machine with screen } }

def markFrame : Action Unit := fun s =>
  .ok () { s with frameDirty := true }

def drawByte : Action UInt8 := fun s =>
  .ok s.generator.peek { s with generator := s.generator.advance }

def enter (runState : RunState) : Action Unit := fun s =>
  .ok () { s with runState }

def advance (bytes : Nat) : Action Unit :=
  change fun m => m.advance bytes

def jump (target : UInt16) : Action Unit :=
  update fun m => { m with pc := target }

def register (x : UInt8) : Action UInt8 :=
  ask fun m => m.register x.toNat

def setRegister (x value : UInt8) : Action Unit :=
  change fun m => m.setRegister x.toNat value

def sliceAtIndex (count : Nat) : Action (List UInt8) :=
  ask fun m => m.slice m.index.toNat count

/-- Store a byte some places after the index register. -/
def writeAtIndex (offset : Nat) (value : UInt8) : Action Unit :=
  change fun m => m.write (m.index.toNat + offset) value

end Action

/-! ## The opcode table -/

open Chip8.Interpreter.Action

/-- Carry out one instruction. -/
def perform : Instruction → Action Unit
  | .clearScreen => do
      update fun m => { m with screen := .blank }
      markFrame
      advance 2
  | .ret => do
      let site ← popSite
      let pc ← ask fun _ => Machine.checkedWord (site.toNat + 2)
      jump pc
  | .jump target => jump target
  | .call target => do
      change fun m => m.push m.pc
      jump target
  | .skip condition => do
      let skips ← ask fun m => m.holds condition
      advance (if skips then 4 else 2)
  | .setConst x n => do
      setRegister x n
      advance 2
  | .addConst x n => do
      let vx ← register x
      setRegister x (vx + n)
      advance 2
  | .alu op x y => do
      change fun m => m.operate op x y
      advance 2
  | .setIndex address => do
      update fun m => { m with index := address }
      advance 2
  | .jumpOffset base => change fun m => m.jumpOffset base
  | .random x mask => do
      let byte ← drawByte
      setRegister x (byte &&& mask)
      advance 2
  | .draw x y height => do
      let vx ← register x
      let vy ← register y
      let sprite ← sliceAtIndex height.toNat
      let hit ← blit (Sprite.cells vx.toNat vy.toNat sprite)
      update fun m => m.setFlag hit
      markFrame
      advance 2
  | .readDelay x => do
      let delay ← look fun m => m.timers.delay
      setRegister x delay
      advance 2
  -- the program counter stays until a key is taken
  | .awaitKey x => enter (.awaitingKey x)
  | .setDelay x => do
      let vx ← register x
      update fun m => { m with timers := { m.timers with delay := vx } }
      advance 2
  | .setSound x => do
      let vx ← register x
      update fun m => { m with timers := { m.timers with sound := vx } }
      advance 2
  | .addIndex x => do
      let vx ← register x
      let sum ← ask fun m => Machine.checkedWord (m.index.toNat + vx.toNat)
      update fun m => { m with index := sum % UInt16.ofNat memorySize }
      advance 2
  | .glyph x => do
      let vx ← register x
      let address ← ask fun _ => Machine.checkedWord (vx.toNat * glyphSize)
      update fun m => { m with index := address }
      advance 2
  | .decimal x => do
      let value ← register x
      -- the whole range is checked before the first digit is stored
      let _ ← sliceAtIndex 3
      writeAtIndex 0 (value / 100)
      writeAtIndex 1 (value / 10 % 10)
      writeAtIndex 2 (value % 10)
      advance 2
  | .save last => do
      let _ ← sliceAtIndex (last.toNat + 1)
      let values ← ask fun m => m.firstRegisters (last.toNat + 1)
      change fun m => m.store m.index.toNat values
      advance 2
  | .restore last => do
      let values ← sliceAtIndex (last.toNat + 1)
      change fun m => m.setFirstRegisters values
      advance 2

/-! ## Steps -/

/-- Read the instruction at the program counter and carry it out. -/
def cycle : Action Unit := do
  let (_, i) ← ask fun m => m.nextInstruction
  perform i

/-- Look at the keypad once.  The least held key ends the wait. -/
def pollKey (register : UInt8) : Action Unit := do
  match ← look fun m => m.keypad.lowestPressed with
  | none => pure ()
  | some key =>
      setRegister register key
      advance 2
      enter .running

end Interpreter
end Chip8
