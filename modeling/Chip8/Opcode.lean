/-!
# Opcode — the fields of an instruction word

An instruction is a sixteen-bit word, stored with its high byte first.  Its four nibbles are called
family, `x`, `y` and `n`; an eight-bit constant takes the place of the last two, an address the
place of the last three.  `ofNibbles`, `ofConstant` and `ofAddress` put the fields together again.
-/

namespace Chip8

abbrev Opcode := UInt16

namespace Opcode

/-! ## Taking a word apart -/

/-- The first nibble, which selects the kind of instruction. -/
def family (op : Opcode) : Nat :=
  op.toNat / 0x1000

def x (op : Opcode) : UInt8 :=
  UInt8.ofNat (op.toNat / 0x100 % 0x10)

def y (op : Opcode) : UInt8 :=
  UInt8.ofNat (op.toNat / 0x10 % 0x10)

def n (op : Opcode) : UInt8 :=
  UInt8.ofNat (op.toNat % 0x10)

/-- The last eight bits: a constant in most families, and the byte that is stored second. -/
def constant (op : Opcode) : UInt8 :=
  UInt8.ofNat (op.toNat % 0x100)

def address (op : Opcode) : UInt16 :=
  UInt16.ofNat (op.toNat % 0x1000)

/-! ## Putting a word together -/

/-- The word with these nibbles; a register or height keeps its low four bits. -/
def ofNibbles (family : Nat) (x y : UInt8) (n : Nat) : Opcode :=
  UInt16.ofNat (family * 0x1000 + x.toNat % 0x10 * 0x100 + y.toNat % 0x10 * 0x10 + n % 0x10)

/-- The word of a family with a register and an eight-bit constant. -/
def ofConstant (family : Nat) (x : UInt8) (constant : Nat) : Opcode :=
  UInt16.ofNat (family * 0x1000 + x.toNat % 0x10 * 0x100 + constant % 0x100)

/-- The word of a family with an address, of which the low twelve bits are kept. -/
def ofAddress (family : Nat) (address : UInt16) : Opcode :=
  UInt16.ofNat (family * 0x1000 + address.toNat % 0x1000)

/-- The fields of a word do not overlap. -/
theorem toNat_ofNibbles {family : Nat} (h : family < 0x10) (x y : UInt8) (n : Nat) :
    (ofNibbles family x y n).toNat =
      family * 0x1000 + x.toNat % 0x10 * 0x100 + y.toNat % 0x10 * 0x10 + n % 0x10 := by
  simp only [ofNibbles, UInt16.toNat_ofNat']
  omega

theorem toNat_ofConstant {family : Nat} (h : family < 0x10) (x : UInt8) (constant : Nat) :
    (ofConstant family x constant).toNat =
      family * 0x1000 + x.toNat % 0x10 * 0x100 + constant % 0x100 := by
  simp only [ofConstant, UInt16.toNat_ofNat']
  omega

theorem toNat_ofAddress {family : Nat} (h : family < 0x10) (address : UInt16) :
    (ofAddress family address).toNat = family * 0x1000 + address.toNat % 0x1000 := by
  simp only [ofAddress, UInt16.toNat_ofNat']
  omega

/-! ## Bytes -/

/-- The word stored as `high`, `low`. -/
def ofBytes (high low : UInt8) : Opcode :=
  UInt16.ofNat (high.toNat * 0x100 + low.toNat)

def high (op : Opcode) : UInt8 :=
  UInt8.ofNat (op.toNat / 0x100)

def toBytes (op : Opcode) : List UInt8 :=
  [high op, constant op]

/-- A word is put together from its own bytes. -/
@[simp]
theorem ofBytes_high_constant (op : Opcode) : ofBytes (high op) (constant op) = op := by
  apply UInt16.toNat.inj
  have hop := op.toNat_lt
  simp only [ofBytes, high, constant, UInt16.toNat_ofNat', UInt8.toNat_ofNat']
  omega

end Opcode
end Chip8
