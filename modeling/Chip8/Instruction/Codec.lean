import Chip8.Instruction.Basic
import Chip8.Opcode

/-!
# Codec — instructions as opcodes

* `Instruction.encode` writes an instruction as a word, cutting operands to their fields;
* `Instruction.decode?` reads a word, `none` where no row of the opcode table matches;
* `Instruction.assemble` writes a program as bytes.

The two tables are separate: one is indexed by instructions, the other by nibbles.
-/

namespace Chip8

/-! ## Writing -/

namespace AluOp

def code : AluOp → Nat
  | move => 0x0
  | or => 0x1
  | and => 0x2
  | xor => 0x3
  | add => 0x4
  | subtract => 0x5
  | shiftRight => 0x6
  | subtractFrom => 0x7
  | shiftLeft => 0xE

/-- The operation of family 8 with this last nibble. -/
def ofCode? : Nat → Option AluOp
  | 0x0 => some move
  | 0x1 => some or
  | 0x2 => some and
  | 0x3 => some xor
  | 0x4 => some add
  | 0x5 => some subtract
  | 0x6 => some shiftRight
  | 0x7 => some subtractFrom
  | 0xE => some shiftLeft
  | _ => none

end AluOp

namespace Condition

def encode : Condition → Opcode
  | equalsConst x n => .ofConstant 0x3 x n.toNat
  | differsConst x n => .ofConstant 0x4 x n.toNat
  | equalsRegister x y => .ofNibbles 0x5 x y 0
  | differsRegister x y => .ofNibbles 0x9 x y 0
  | keyDown x => .ofConstant 0xE x 0x9E
  | keyUp x => .ofConstant 0xE x 0xA1

end Condition

namespace Instruction

/-- The word of an instruction.  Registers and heights keep four bits, addresses twelve. -/
def encode : Instruction → Opcode
  | clearScreen => 0x00E0
  | ret => 0x00EE
  | jump target => .ofAddress 0x1 target
  | call target => .ofAddress 0x2 target
  | skip condition => condition.encode
  | setConst x n => .ofConstant 0x6 x n.toNat
  | addConst x n => .ofConstant 0x7 x n.toNat
  | alu op x y => .ofNibbles 0x8 x y op.code
  | setIndex address => .ofAddress 0xA address
  | jumpOffset base => .ofAddress 0xB base
  | random x mask => .ofConstant 0xC x mask.toNat
  | draw x y height => .ofNibbles 0xD x y height.toNat
  | readDelay x => .ofConstant 0xF x 0x07
  | awaitKey x => .ofConstant 0xF x 0x0A
  | setDelay x => .ofConstant 0xF x 0x15
  | setSound x => .ofConstant 0xF x 0x18
  | addIndex x => .ofConstant 0xF x 0x1E
  | glyph x => .ofConstant 0xF x 0x29
  | decimal x => .ofConstant 0xF x 0x33
  | save last => .ofConstant 0xF last 0x55
  | restore last => .ofConstant 0xF last 0x65

/-- The bytes of a program, two for each instruction. -/
def assemble (program : List Instruction) : List UInt8 :=
  program.flatMap fun i => i.encode.toBytes

/-! ## Reading -/

def ofSystemCode? : Nat → Option Instruction
  | 0x0E0 => some clearScreen
  | 0x0EE => some ret
  | _ => none

def ofKeyCode? (x : UInt8) : Nat → Option Instruction
  | 0x9E => some (skip (.keyDown x))
  | 0xA1 => some (skip (.keyUp x))
  | _ => none

/-- The instruction of family F with this last byte. -/
def ofRegisterCode? (x : UInt8) : Nat → Option Instruction
  | 0x07 => some (readDelay x)
  | 0x0A => some (awaitKey x)
  | 0x15 => some (setDelay x)
  | 0x18 => some (setSound x)
  | 0x1E => some (addIndex x)
  | 0x29 => some (glyph x)
  | 0x33 => some (decimal x)
  | 0x55 => some (save x)
  | 0x65 => some (restore x)
  | _ => none

/-- The instruction of a word, if it has one. -/
def decode? (op : Opcode) : Option Instruction :=
  match op.family with
  | 0x0 => ofSystemCode? op.address.toNat
  | 0x1 => some (jump op.address)
  | 0x2 => some (call op.address)
  | 0x3 => some (skip (.equalsConst op.x op.constant))
  | 0x4 => some (skip (.differsConst op.x op.constant))
  | 0x5 => if op.n = 0 then some (skip (.equalsRegister op.x op.y)) else none
  | 0x6 => some (setConst op.x op.constant)
  | 0x7 => some (addConst op.x op.constant)
  | 0x8 => (AluOp.ofCode? op.n.toNat).map fun f => alu f op.x op.y
  | 0x9 => if op.n = 0 then some (skip (.differsRegister op.x op.y)) else none
  | 0xA => some (setIndex op.address)
  | 0xB => some (jumpOffset op.address)
  | 0xC => some (random op.x op.constant)
  | 0xD => some (draw op.x op.y op.n)
  | 0xE => ofKeyCode? op.x op.constant.toNat
  | 0xF => ofRegisterCode? op.x op.constant.toNat
  | _ => none

end Instruction
end Chip8
