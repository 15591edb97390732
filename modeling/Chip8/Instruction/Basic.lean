/-!
# Instruction — what the machine can be told to do

The 34 instructions, grouped by what they do: six skips differ in their condition, nine
two-register operations in their result and flag.  Operands are kept as they are given; an
instruction that was never an opcode may name a register that does not exist.
-/

namespace Chip8

/-! ## Two-register operations -/

inductive AluOp where
  | move
  | or
  | and
  | xor
  | add
  -- first minus second
  | subtract
  | shiftRight
  -- second minus first
  | subtractFrom
  | shiftLeft
  deriving DecidableEq, Repr

namespace AluOp

/-- The new value of the first register, from the values of both. -/
def result (op : AluOp) (vx vy : UInt8) : UInt8 :=
  match op with
  | move => vy
  | or => vx ||| vy
  | and => vx &&& vy
  | xor => vx ^^^ vy
  | add => vx + vy
  | subtract => vx - vy
  | shiftRight => vx >>> 1
  | subtractFrom => vy - vx
  | shiftLeft => vx <<< 1

/-- The flag left in VF, if there is one: carry, no borrow, or the bit shifted out. -/
def flag? (op : AluOp) (vx vy : UInt8) : Option Bool :=
  match op with
  | move | or | and | xor => none
  | add => some (256 ≤ vx.toNat + vy.toNat)
  | subtract => some (vy ≤ vx)
  | shiftRight => some (vx.toNat % 2 = 1)
  | subtractFrom => some (vx ≤ vy)
  | shiftLeft => some (128 ≤ vx.toNat)

/-- Whether the second register takes part. -/
def readsSecond : AluOp → Bool
  | shiftRight | shiftLeft => false
  | _ => true

end AluOp

/-! ## Conditions of skips -/

/-- When a skip passes over the next instruction. -/
inductive Condition where
  | equalsConst (x n : UInt8)
  | differsConst (x n : UInt8)
  | equalsRegister (x y : UInt8)
  | differsRegister (x y : UInt8)
  | keyDown (x : UInt8)
  | keyUp (x : UInt8)
  deriving DecidableEq, Repr

/-! ## Instructions -/

inductive Instruction where
  | clearScreen
  -- go on after the call that was made last
  | ret
  | jump (target : UInt16)
  | call (target : UInt16)
  | skip (condition : Condition)
  | setConst (x n : UInt8)
  -- add a constant; no flag
  | addConst (x n : UInt8)
  | alu (op : AluOp) (x y : UInt8)
  | setIndex (address : UInt16)
  -- jump to the address plus V0
  | jumpOffset (base : UInt16)
  -- a random byte, masked
  | random (x mask : UInt8)
  -- draw `height` rows from memory at the index register
  | draw (x y height : UInt8)
  | readDelay (x : UInt8)
  -- park until a key is held, and store its number
  | awaitKey (x : UInt8)
  | setDelay (x : UInt8)
  | setSound (x : UInt8)
  | addIndex (x : UInt8)
  -- point the index register at the glyph of a digit
  | glyph (x : UInt8)
  -- store the three decimal digits of a register
  | decimal (x : UInt8)
  -- store V0 up to the register in memory
  | save (last : UInt8)
  -- load V0 up to the register from memory
  | restore (last : UInt8)
  deriving DecidableEq, Repr

end Chip8
