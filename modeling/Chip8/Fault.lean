/-!
# Fault — how execution stops, and in which words

A `Fault` is the program's doing: an unknown opcode, a stack that is full or empty, an address
outside memory.  It halts the machine and is reported.  A `Breach` is the caller's doing: a request
to which the machine gives no meaning, such as a seventeenth register.  A computation that may end
in either has type `Except Stop`.

Messages write addresses, opcodes and keys as `0x` with lower-case digits, which `Hex` does.
-/

namespace Chip8

/-! ## Numbers in messages -/

namespace Hex

def digits (n : Nat) : List Char :=
  Nat.toDigits 16 n

/-- `0x` and the digits of `n`, with leading zeros up to `width` digits. -/
def padded (width n : Nat) : String :=
  "0x" ++ String.ofList ((digits n).leftpad width '0')

def word (n : Nat) : String :=
  padded 4 n

def bare (n : Nat) : String :=
  padded 1 n

def upper (n : Nat) : String :=
  String.ofList ((digits n).map Char.toUpper)

end Hex

/-! ## Faults of the running program -/

/-- Why a program was halted, with the program counter at that moment. -/
inductive Fault where
  | unknownOpcode (opcode pc : UInt16)
  | stackOverflow (pc : UInt16)
  | stackUnderflow (pc : UInt16)
  | outOfRange (address : Nat) (pc : UInt16)
  deriving DecidableEq, Repr

namespace Fault

def pc : Fault → UInt16
  | unknownOpcode _ pc => pc
  | stackOverflow pc => pc
  | stackUnderflow pc => pc
  | outOfRange _ pc => pc

def kind : Fault → String
  | unknownOpcode .. => "UnknownOpcode"
  | stackOverflow .. => "StackOverflow"
  | stackUnderflow .. => "StackUnderflow"
  | outOfRange .. => "OutOfRangeAddress"

def message : Fault → String
  | unknownOpcode opcode pc =>
      "unknown opcode " ++ Hex.word opcode.toNat ++ " at pc " ++ Hex.word pc.toNat
  | stackOverflow pc => "stack overflow at pc " ++ Hex.word pc.toNat
  | stackUnderflow pc => "stack underflow at pc " ++ Hex.word pc.toNat
  | outOfRange address pc =>
      "address " ++ Hex.word address ++ " out of range at pc " ++ Hex.word pc.toNat

/-- The numbers that a fault carries, named, in the order in which they are written. -/
def fields : Fault → List (String × Nat)
  | unknownOpcode opcode pc => [("opcode", opcode.toNat), ("pc", pc.toNat)]
  | stackOverflow pc => [("pc", pc.toNat)]
  | stackUnderflow pc => [("pc", pc.toNat)]
  | outOfRange address pc => [("addr", address), ("pc", pc.toNat)]

def record (f : Fault) : String :=
  f.kind ++ " \x7b " ++
    ", ".intercalate (f.fields.map fun field => field.1 ++ ": " ++ field.2.repr) ++ " \x7d"

end Fault

/-! ## Requests without a meaning -/

/-- A request that breaks a precondition of the machine or of a clock. -/
inductive Breach where
  -- there are sixteen registers
  | noSuchRegister (number : Nat)
  -- the result of a sixteen-bit operation would not fit its word
  | wordOverflow
  -- the end of a range would not fit a machine address of the host
  | rangeOverflow
  -- a range of bytes that is to be copied does not lie in memory
  | rangeOutside
  -- the call stack claims more entries than it has slots
  | corruptStack
  -- a clock that ticks every zero nanoseconds has no next tick
  | zeroPeriod
  deriving DecidableEq, Repr

/-- Why a computation on the machine has no result. -/
inductive Stop where
  | fault (f : Fault)
  | breach (b : Breach)
  deriving DecidableEq, Repr

end Chip8
