import Chip8.Instruction.Basic

/-!
# Mnemonic — instructions in words

Every instruction has a name and a list of operands.  `Instruction.text` writes both, as in
`Draw(Reg(1), Reg(2), Const(5))`; `Instruction.ofMnemonic?` reads a name with bare numbers.
-/

namespace Chip8

/-! ## Operands -/

/-- A number in an instruction and what it stands for. -/
inductive Operand where
  | register (number : UInt8)
  | constant (value : UInt8)
  | address (value : UInt16)
  deriving DecidableEq, Repr

namespace Operand

def value : Operand → Nat
  | register number => number.toNat
  | constant value => value.toNat
  | address value => value.toNat

def text : Operand → String
  | register number => "Reg(" ++ number.toNat.repr ++ ")"
  | constant value => "Const(" ++ value.toNat.repr ++ ")"
  | address value => "Addr(" ++ value.toNat.repr ++ ")"

end Operand

/-! ## Names -/

def AluOp.name : AluOp → String
  | move => "SetRegToReg"
  | or => "BitwiseOr"
  | and => "BitwiseAnd"
  | xor => "BitwiseXor"
  | add => "IncRegByReg"
  | subtract => "DecRegByReg"
  | shiftRight => "BitshiftRight"
  | subtractFrom => "SetVxVyMinusVx"
  | shiftLeft => "BitshiftLeft"

def Condition.name : Condition → String
  | equalsConst .. => "IfRegEqConst"
  | differsConst .. => "IfRegNeqConst"
  | equalsRegister .. => "IfRegEqReg"
  | differsRegister .. => "IfRegNeqReg"
  | keyDown _ => "IfKeyEqVx"
  | keyUp _ => "IfKeyNeqVx"

def Condition.operands : Condition → List Operand
  | equalsConst x n | differsConst x n => [.register x, .constant n]
  | equalsRegister x y | differsRegister x y => [.register x, .register y]
  | keyDown x | keyUp x => [.register x]

namespace Instruction

def name : Instruction → String
  | clearScreen => "ClearScreen"
  | ret => "Return"
  | jump _ => "Goto"
  | call _ => "Call"
  | skip condition => condition.name
  | setConst .. => "SetRegToConst"
  | addConst .. => "IncRegByConst"
  | alu op .. => op.name
  | setIndex _ => "SetI"
  | jumpOffset _ => "SetPcToV0PlusAddr"
  | random .. => "SetVxRand"
  | draw .. => "Draw"
  | readDelay _ => "SetRegToDelayTimer"
  | awaitKey _ => "SetRegToGetKey"
  | setDelay _ => "SetDelayTimerToReg"
  | setSound _ => "SetSoundTimerToReg"
  | addIndex _ => "AddRegToI"
  | glyph _ => "SetIToSpriteAddrVx"
  | decimal _ => "SetIToBcdOfReg"
  | save _ => "RegDump"
  | restore _ => "RegLoad"

/-- The operands of an instruction, in the order in which they are written. -/
def operands : Instruction → List Operand
  | clearScreen | ret => []
  | jump a | call a | setIndex a | jumpOffset a => [.address a]
  | skip condition => condition.operands
  | setConst x n | addConst x n | random x n => [.register x, .constant n]
  | alu _ x y => [.register x, .register y]
  | draw x y height => [.register x, .register y, .constant height]
  | readDelay x | awaitKey x | setDelay x | setSound x | addIndex x | glyph x | decimal x
  | save x | restore x => [.register x]

/-- The name, followed by the operands in parentheses if there are any. -/
def text (i : Instruction) : String :=
  match i.operands with
  | [] => i.name
  | operands => i.name ++ "(" ++ ", ".intercalate (operands.map Operand.text) ++ ")"

/-! ## Reading -/

/-- The instruction with one address operand and this name. -/
def ofAddressName? (name : String) (a : UInt16) : Option Instruction :=
  [jump a, call a, setIndex a, jumpOffset a].find? fun i => i.name == name

def ofRegisterName? (name : String) (x : UInt8) : Option Instruction :=
  [skip (.keyDown x), skip (.keyUp x), readDelay x, awaitKey x, setDelay x, setSound x, addIndex x,
    glyph x, decimal x, save x, restore x].find? fun i => i.name == name

def ofPairName? (name : String) (x y : UInt8) : Option Instruction :=
  [skip (.equalsConst x y), skip (.differsConst x y), skip (.equalsRegister x y),
    skip (.differsRegister x y), setConst x y, addConst x y, random x y, alu .move x y, alu .or x y,
    alu .and x y, alu .xor x y, alu .add x y, alu .subtract x y, alu .shiftRight x y,
    alu .subtractFrom x y, alu .shiftLeft x y].find? fun i => i.name == name

/-- The instruction with this name and these operands, each taken modulo its width. -/
def ofMnemonic? (name : String) : List Nat → Option Instruction
  | [] => [clearScreen, ret].find? fun i => i.name == name
  | [a] => (ofAddressName? name (.ofNat a)).or (ofRegisterName? name (.ofNat a))
  | [x, y] => ofPairName? name (.ofNat x) (.ofNat y)
  | [x, y, height] =>
      [draw (.ofNat x) (.ofNat y) (.ofNat height)].find? fun i => i.name == name
  | _ => none

end Instruction
end Chip8
