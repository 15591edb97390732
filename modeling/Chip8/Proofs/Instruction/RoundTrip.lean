import Chip8.Proofs.Instruction.OpcodeTable

/-!
# RoundTrip — instructions to words and bytes, and back

Writing cuts each operand to its field, and reading gives the operands that are left:
`decode?_encode` with `Instruction.masked`.  Words and instructions are written in two tables of
their own, so `encode_of_row`, the way back, is a statement about both.

`Opcode.words` reads bytes two by two.  It undoes `Instruction.assemble`, and `assemble_words` says
that assembling gives back whatever bytes were read.
-/

namespace Chip8

/-! ## Operands that fit their fields -/

def Condition.masked : Condition → Condition
  | equalsConst x n => equalsConst (x % 16) n
  | differsConst x n => differsConst (x % 16) n
  | equalsRegister x y => equalsRegister (x % 16) (y % 16)
  | differsRegister x y => differsRegister (x % 16) (y % 16)
  | keyDown x => keyDown (x % 16)
  | keyUp x => keyUp (x % 16)

/-- The instruction with each operand cut to its field. -/
def Instruction.masked : Instruction → Instruction
  | clearScreen => clearScreen
  | ret => ret
  | jump target => jump (target % 4096)
  | call target => call (target % 4096)
  | skip condition => skip condition.masked
  | setConst x n => setConst (x % 16) n
  | addConst x n => addConst (x % 16) n
  | alu op x y => alu op (x % 16) (y % 16)
  | setIndex address => setIndex (address % 4096)
  | jumpOffset base => jumpOffset (base % 4096)
  | random x mask => random (x % 16) mask
  | draw x y height => draw (x % 16) (y % 16) (height % 16)
  | readDelay x => readDelay (x % 16)
  | awaitKey x => awaitKey (x % 16)
  | setDelay x => setDelay (x % 16)
  | setSound x => setSound (x % 16)
  | addIndex x => addIndex (x % 16)
  | glyph x => glyph (x % 16)
  | decimal x => decimal (x % 16)
  | save last => save (last % 16)
  | restore last => restore (last % 16)

namespace Opcode

variable {family : Nat} {op : Opcode}

/-! ## Fields of a word that was put together -/

/-- The family is read back from each of the three forms. -/
@[simp]
theorem family_ofNibbles (h : family < 0x10) (x y : UInt8) (n : Nat) :
    (ofNibbles family x y n).family = family := by
  simp only [Opcode.family, toNat_ofNibbles h]
  omega

@[simp]
theorem family_ofConstant (h : family < 0x10) (x : UInt8) (constant : Nat) :
    (ofConstant family x constant).family = family := by
  simp only [Opcode.family, toNat_ofConstant h]
  omega

@[simp]
theorem family_ofAddress (h : family < 0x10) (address : UInt16) :
    (ofAddress family address).family = family := by
  simp only [Opcode.family, toNat_ofAddress h]
  omega

/-- A register is read back modulo sixteen. -/
@[simp]
theorem x_ofNibbles (h : family < 0x10) (x y : UInt8) (n : Nat) :
    (ofNibbles family x y n).x = x % 16 := by
  apply UInt8.toNat.inj
  simp only [Opcode.x, toNat_ofNibbles h, UInt8.toNat_ofNat', UInt8.toNat_mod, UInt8.reduceToNat]
  omega

@[simp]
theorem x_ofConstant (h : family < 0x10) (x : UInt8) (constant : Nat) :
    (ofConstant family x constant).x = x % 16 := by
  apply UInt8.toNat.inj
  simp only [Opcode.x, toNat_ofConstant h, UInt8.toNat_ofNat', UInt8.toNat_mod, UInt8.reduceToNat]
  omega

@[simp]
theorem y_ofNibbles (h : family < 0x10) (x y : UInt8) (n : Nat) :
    (ofNibbles family x y n).y = y % 16 := by
  apply UInt8.toNat.inj
  simp only [Opcode.y, toNat_ofNibbles h, UInt8.toNat_ofNat', UInt8.toNat_mod, UInt8.reduceToNat]
  omega

/-- The last nibble keeps four bits. -/
@[simp]
theorem toNat_n_ofNibbles (h : family < 0x10) (x y : UInt8) (n : Nat) :
    (ofNibbles family x y n).n.toNat = n % 16 := by
  simp only [Opcode.n, toNat_ofNibbles h, UInt8.toNat_ofNat']
  omega

@[simp]
theorem n_ofNibbles (h : family < 0x10) (x y height : UInt8) :
    (ofNibbles family x y height.toNat).n = height % 16 := by
  apply UInt8.toNat.inj
  rw [toNat_n_ofNibbles h, UInt8.toNat_mod]
  rfl

@[simp]
theorem toNat_constant_ofConstant (h : family < 0x10) (x : UInt8) (constant : Nat) :
    (ofConstant family x constant).constant.toNat = constant % 256 := by
  simp only [Opcode.constant, toNat_ofConstant h, UInt8.toNat_ofNat']
  omega

/-- A constant of one byte is read back. -/
@[simp]
theorem constant_ofConstant (h : family < 0x10) (x n : UInt8) :
    (ofConstant family x n.toNat).constant = n := by
  apply UInt8.toNat.inj
  rw [toNat_constant_ofConstant h]
  exact Nat.mod_eq_of_lt n.toNat_lt

/-- An address is read back modulo the size of memory. -/
@[simp]
theorem address_ofAddress (h : family < 0x10) (address : UInt16) :
    (ofAddress family address).address = address % 4096 := by
  apply UInt16.toNat.inj
  simp only [Opcode.address, toNat_ofAddress h, UInt16.toNat_ofNat', UInt16.toNat_mod,
    UInt16.reduceToNat]
  omega

/-! ## Words put together from their own fields -/

theorem family_lt (op : Opcode) : op.family < 0x10 := by
  have hop := op.toNat_lt
  rw [Opcode.family]
  omega

/-- A word is put together from its own nibbles. -/
theorem ofNibbles_fields {n : Nat} (hf : op.family = family) (hn : op.n.toNat = n) :
    ofNibbles family op.x op.y n = op := by
  have hlt : family < 0x10 := by
    rw [← hf]
    exact op.family_lt
  apply UInt16.toNat.inj
  rw [toNat_ofNibbles hlt, ← hf, ← hn]
  simp only [Opcode.family, Opcode.x, Opcode.y, Opcode.n, UInt8.toNat_ofNat']
  omega

/-- Or from its register and its constant. -/
theorem ofConstant_fields {constant : Nat} (hf : op.family = family)
    (hc : op.constant.toNat = constant) : ofConstant family op.x constant = op := by
  have hlt : family < 0x10 := by
    rw [← hf]
    exact op.family_lt
  apply UInt16.toNat.inj
  rw [toNat_ofConstant hlt, ← hf, ← hc]
  simp only [Opcode.family, Opcode.x, Opcode.constant, UInt8.toNat_ofNat']
  omega

/-- Or from its address. -/
theorem ofAddress_fields (hf : op.family = family) : ofAddress family op.address = op := by
  have hlt : family < 0x10 := by
    rw [← hf]
    exact op.family_lt
  apply UInt16.toNat.inj
  rw [toNat_ofAddress hlt, ← hf]
  simp only [Opcode.family, Opcode.address, UInt16.toNat_ofNat']
  omega

end Opcode

namespace Instruction

variable {op : Opcode} {i : Instruction}

/-! ## Instructions and words -/

/-- Reading what was written gives the operands as far as they fit their fields. -/
@[simp]
theorem decode?_encode (i : Instruction) : decode? i.encode = some i.masked := by
  cases i with
  | clearScreen | ret => rfl
  | jump | call | setIndex | jumpOffset => simp [encode, decode?, masked]
  | setConst | addConst | random => simp [encode, decode?, masked]
  | skip condition =>
      cases condition with
      | equalsConst | differsConst =>
          simp [encode, Condition.encode, decode?, masked, Condition.masked]
      | equalsRegister x y | differsRegister x y =>
          have hn (family : Nat) (h : family < 0x10) : (Opcode.ofNibbles family x y 0).n = 0 :=
            UInt8.toNat.inj (Opcode.toNat_n_ofNibbles h x y 0)
          simp [encode, Condition.encode, decode?, masked, Condition.masked, hn]
      | keyDown | keyUp =>
          simp [encode, Condition.encode, decode?, masked, Condition.masked, ofKeyCode?]
  | alu f x y =>
      -- no operation has a code beyond its nibble
      have hcode : f.code % 16 = f.code := by cases f <;> rfl
      have hop : AluOp.ofCode? f.code = some f := AluOp.ofCode?_eq_some_iff.2 rfl
      simp [encode, decode?, masked, hcode, hop]
  | draw => simp [encode, decode?, masked]
  | readDelay | awaitKey | setDelay | setSound | addIndex | glyph | decimal | save | restore =>
      simp [encode, decode?, masked, ofRegisterCode?]

/-- An instruction is written as the word that stands for it. -/
theorem encode_of_row (h : op.Row i) : i.encode = op := by
  -- a row names the family and the fields that single it out, and the operands are the other fields
  cases h with
  | clearScreen hop | ret hop => exact hop.symm
  | jump hf | call hf | setIndex hf | jumpOffset hf => exact Opcode.ofAddress_fields hf
  | equalsConst hf | differsConst hf | setConst hf | addConst hf | random hf =>
      exact Opcode.ofConstant_fields hf rfl
  | equalsRegister hf hn | differsRegister hf hn =>
      exact Opcode.ofNibbles_fields hf (congrArg UInt8.toNat hn)
  | alu hf hn => exact Opcode.ofNibbles_fields hf hn
  | draw hf => exact Opcode.ofNibbles_fields hf rfl
  | keyDown hf hc | keyUp hf hc => exact Opcode.ofConstant_fields hf (congrArg UInt8.toNat hc)
  | readDelay hf hc | awaitKey hf hc | setDelay hf hc | setSound hf hc | addIndex hf hc
  | glyph hf hc | decimal hf hc | save hf hc | restore hf hc =>
      exact Opcode.ofConstant_fields hf (congrArg UInt8.toNat hc)

/-- What is read from a word is written as this word. -/
theorem encode_of_decode? (h : decode? op = some i) : i.encode = op :=
  encode_of_row (row_of_decode? h)

end Instruction

/-! ## Programs and bytes -/

/-- The words of a list of bytes, each with its high byte first.  A last odd byte is left out. -/
def Opcode.words : List UInt8 → List Opcode
  | high :: low :: rest => ofBytes high low :: words rest
  | _ => []

/-- Two bytes are read back from their word. -/
@[simp]
theorem Opcode.toBytes_ofBytes (high low : UInt8) : (ofBytes high low).toBytes = [high, low] := by
  -- the low byte stays below the place of the high one
  have hh := high.toNat_lt
  have hl := low.toNat_lt
  have hval : (ofBytes high low).toNat = high.toNat * 0x100 + low.toNat := by
    simp only [ofBytes, UInt16.toNat_ofNat']
    omega
  have hhigh : Opcode.high (ofBytes high low) = high := by
    apply UInt8.toNat.inj
    simp only [Opcode.high, hval, UInt8.toNat_ofNat']
    omega
  have hlow : Opcode.constant (ofBytes high low) = low := by
    apply UInt8.toNat.inj
    simp only [Opcode.constant, hval, UInt8.toNat_ofNat']
    omega
  rw [toBytes, hhigh, hlow]

namespace Instruction

@[simp]
theorem assemble_cons (i : Instruction) (rest : List Instruction) :
    assemble (i :: rest) = i.encode.high :: i.encode.constant :: assemble rest := rfl

/-- Each instruction takes two bytes. -/
@[simp]
theorem length_assemble (program : List Instruction) :
    (assemble program).length = 2 * program.length := by
  induction program with
  | nil => rfl
  | cons i rest ih =>
      simp [ih]
      omega

/-- The bytes of one instruction in those of a program. -/
theorem getElem?_assemble {program : List Instruction} {k : Nat} (hk : k < program.length) :
    (assemble program)[2 * k]? = some program[k].encode.high ∧
      (assemble program)[2 * k + 1]? = some program[k].encode.constant := by
  induction program generalizing k with
  | nil => exact absurd hk (Nat.not_lt_zero k)
  | cons i rest ih =>
      cases k with
      | zero => exact ⟨rfl, rfl⟩
      | succ k =>
          -- the first instruction takes the first two bytes
          have hk' : k < rest.length := Nat.lt_of_succ_lt_succ hk
          exact ih hk'

/-- Bytes whose words all have an instruction are given back by assembling these. -/
theorem assemble_words {bytes : List UInt8} (hlength : bytes.length % 2 = 0)
    (hwords : ∀ w ∈ Opcode.words bytes, ∃ i, decode? w = some i) :
    assemble ((Opcode.words bytes).filterMap decode?) = bytes := by
  -- along the recursion of `words`, two bytes at a time
  induction bytes using Opcode.words.induct with
  | case1 high low rest ih =>
      have hrest : rest.length % 2 = 0 := by
        simp only [List.length_cons] at hlength
        omega
      have hlater : ∀ w ∈ Opcode.words rest, ∃ i, decode? w = some i :=
        fun w hw => hwords w (.tail _ hw)
      rcases hwords _ (.head _) with ⟨i, hi⟩
      have hbytes : i.encode.toBytes = [high, low] := by
        simp [encode_of_decode? hi]
      calc
        assemble ((Opcode.words (high :: low :: rest)).filterMap decode?)
            = i.encode.toBytes ++ assemble ((Opcode.words rest).filterMap decode?) := by
              rw [Opcode.words, List.filterMap_cons_some hi]
              rfl
        _ = [high, low] ++ rest := by rw [hbytes, ih hrest hlater]
        _ = high :: low :: rest := rfl
  | case2 bytes hshort =>
      -- fewer than two bytes, and not one
      cases bytes with
      | nil => rfl
      | cons b rest =>
          cases rest with
          | nil => cases hlength
          | cons c rest => exact absurd rfl (hshort b c rest)

end Instruction
end Chip8
