import Chip8.Instruction.Codec
import Chip8.Proofs.Machine.Effect

/-!
# OpcodeTable — which word stands for which instruction

`Opcode.Row` is the opcode table as a relation: one row for each kind of instruction, with the
operands taken from the word.  `decode?_eq_some_iff` says that decoding is a search in this table,
and the facts about operands of decoded instructions are read off its rows.
-/

namespace Chip8

/-! ## The table -/

/-- The word stands for the instruction. -/
inductive Opcode.Row (op : Opcode) : Instruction → Prop where
  | clearScreen : op = 0x00E0 → Row op .clearScreen
  | ret : op = 0x00EE → Row op .ret
  | jump : op.family = 0x1 → Row op (.jump op.address)
  | call : op.family = 0x2 → Row op (.call op.address)
  | equalsConst : op.family = 0x3 → Row op (.skip (.equalsConst op.x op.constant))
  | differsConst : op.family = 0x4 → Row op (.skip (.differsConst op.x op.constant))
  | equalsRegister : op.family = 0x5 → op.n = 0 → Row op (.skip (.equalsRegister op.x op.y))
  | setConst : op.family = 0x6 → Row op (.setConst op.x op.constant)
  | addConst : op.family = 0x7 → Row op (.addConst op.x op.constant)
  | alu {f : AluOp} : op.family = 0x8 → op.n.toNat = f.code → Row op (.alu f op.x op.y)
  | differsRegister : op.family = 0x9 → op.n = 0 → Row op (.skip (.differsRegister op.x op.y))
  | setIndex : op.family = 0xA → Row op (.setIndex op.address)
  | jumpOffset : op.family = 0xB → Row op (.jumpOffset op.address)
  | random : op.family = 0xC → Row op (.random op.x op.constant)
  | draw : op.family = 0xD → Row op (.draw op.x op.y op.n)
  | keyDown : op.family = 0xE → op.constant = 0x9E → Row op (.skip (.keyDown op.x))
  | keyUp : op.family = 0xE → op.constant = 0xA1 → Row op (.skip (.keyUp op.x))
  | readDelay : op.family = 0xF → op.constant = 0x07 → Row op (.readDelay op.x)
  | awaitKey : op.family = 0xF → op.constant = 0x0A → Row op (.awaitKey op.x)
  | setDelay : op.family = 0xF → op.constant = 0x15 → Row op (.setDelay op.x)
  | setSound : op.family = 0xF → op.constant = 0x18 → Row op (.setSound op.x)
  | addIndex : op.family = 0xF → op.constant = 0x1E → Row op (.addIndex op.x)
  | glyph : op.family = 0xF → op.constant = 0x29 → Row op (.glyph op.x)
  | decimal : op.family = 0xF → op.constant = 0x33 → Row op (.decimal op.x)
  | save : op.family = 0xF → op.constant = 0x55 → Row op (.save op.x)
  | restore : op.family = 0xF → op.constant = 0x65 → Row op (.restore op.x)

/-! ## Fields of a word -/

namespace Opcode

variable (op : Opcode)

/-- The second nibble names a register. -/
theorem x_lt : op.x.toNat < registerCount := by
  simp only [x, UInt8.toNat_ofNat', registerCount]
  omega

theorem y_lt : op.y.toNat < registerCount := by
  simp only [y, UInt8.toNat_ofNat', registerCount]
  omega

/-- An address field names a byte of memory. -/
theorem address_lt : op.address.toNat < memorySize := by
  simp only [address, UInt16.toNat_ofNat', memorySize]
  omega

variable {op}

/-- A word of family 0 is its own address. -/
theorem eq_of_family_zero {k : UInt16} (h : op.family = 0) (ha : op.address.toNat = k.toNat) :
    op = k := by
  have hop := op.toNat_lt
  simp only [family, address, UInt16.toNat_ofNat'] at h ha
  exact UInt16.toNat.inj (by omega)

theorem constant_eq {k : UInt8} (h : op.constant.toNat = k.toNat) : op.constant = k :=
  UInt8.toNat.inj h

end Opcode

/-- The codes of the operations are read back. -/
theorem AluOp.ofCode?_eq_some_iff {n : Nat} {f : AluOp} :
    AluOp.ofCode? n = some f ↔ n = f.code := by
  constructor
  · intro h
    unfold ofCode? at h
    -- one case for each code, and one for all other numbers
    split at h <;> cases h <;> rfl
  · intro h
    subst h
    cases f <;> rfl

/-! ## Decoding is a search in the table -/

namespace Instruction

variable {op : Opcode} {i : Instruction}

/-- What family 0 reads is in the table. -/
theorem row_of_ofSystemCode? (hf : op.family = 0x0)
    (h : ofSystemCode? op.address.toNat = some i) : op.Row i := by
  unfold ofSystemCode? at h
  split at h
  · rename_i ha
    cases h
    exact .clearScreen (Opcode.eq_of_family_zero hf ha)
  · rename_i ha
    cases h
    exact .ret (Opcode.eq_of_family_zero hf ha)
  · cases h

/-- What family E reads is in the table. -/
theorem row_of_ofKeyCode? (hf : op.family = 0xE)
    (h : ofKeyCode? op.x op.constant.toNat = some i) : op.Row i := by
  unfold ofKeyCode? at h
  split at h
  · rename_i hc
    cases h
    exact .keyDown hf (Opcode.constant_eq hc)
  · rename_i hc
    cases h
    exact .keyUp hf (Opcode.constant_eq hc)
  · cases h

/-- What family F reads is in the table. -/
theorem row_of_ofRegisterCode? (hf : op.family = 0xF)
    (h : ofRegisterCode? op.x op.constant.toNat = some i) : op.Row i := by
  unfold ofRegisterCode? at h
  split at h
  case h_1 hc => cases h; exact .readDelay hf (Opcode.constant_eq hc)
  case h_2 hc => cases h; exact .awaitKey hf (Opcode.constant_eq hc)
  case h_3 hc => cases h; exact .setDelay hf (Opcode.constant_eq hc)
  case h_4 hc => cases h; exact .setSound hf (Opcode.constant_eq hc)
  case h_5 hc => cases h; exact .addIndex hf (Opcode.constant_eq hc)
  case h_6 hc => cases h; exact .glyph hf (Opcode.constant_eq hc)
  case h_7 hc => cases h; exact .decimal hf (Opcode.constant_eq hc)
  case h_8 hc => cases h; exact .save hf (Opcode.constant_eq hc)
  case h_9 hc => cases h; exact .restore hf (Opcode.constant_eq hc)
  case h_10 => cases h

theorem row_of_decode? (h : decode? op = some i) : op.Row i := by
  unfold decode? at h
  -- by the family of the word
  split at h
  case h_1 hf => exact row_of_ofSystemCode? hf h
  case h_2 hf => cases h; exact .jump hf
  case h_3 hf => cases h; exact .call hf
  case h_4 hf => cases h; exact .equalsConst hf
  case h_5 hf => cases h; exact .differsConst hf
  case h_6 hf =>
    split at h
    · rename_i hn
      cases h
      exact .equalsRegister hf hn
    · cases h
  case h_7 hf => cases h; exact .setConst hf
  case h_8 hf => cases h; exact .addConst hf
  case h_9 hf =>
    rcases Option.map_eq_some_iff.1 h with ⟨f, hcode, rfl⟩
    exact .alu hf (AluOp.ofCode?_eq_some_iff.1 hcode)
  case h_10 hf =>
    split at h
    · rename_i hn
      cases h
      exact .differsRegister hf hn
    · cases h
  case h_11 hf => cases h; exact .setIndex hf
  case h_12 hf => cases h; exact .jumpOffset hf
  case h_13 hf => cases h; exact .random hf
  case h_14 hf => cases h; exact .draw hf
  case h_15 hf => exact row_of_ofKeyCode? hf h
  case h_16 hf => exact row_of_ofRegisterCode? hf h
  case h_17 => cases h

theorem decode?_of_row (h : op.Row i) : decode? op = some i := by
  cases h with
  | clearScreen hop | ret hop =>
      subst hop
      rfl
  | jump hf | call hf | equalsConst hf | differsConst hf | setConst hf | addConst hf | setIndex hf
  | jumpOffset hf | random hf | draw hf =>
      simp only [decode?, hf]
  | equalsRegister hf hn | differsRegister hf hn =>
      simp only [decode?, hf, hn, ↓reduceIte]
  | alu hf hn =>
      simp only [decode?, hf, AluOp.ofCode?_eq_some_iff.2 hn, Option.map_some]
  | keyDown hf hc | keyUp hf hc =>
      simp only [decode?, hf, hc]
      rfl
  | readDelay hf hc | awaitKey hf hc | setDelay hf hc | setSound hf hc | addIndex hf hc
  | glyph hf hc | decimal hf hc | save hf hc | restore hf hc =>
      simp only [decode?, hf, hc]
      rfl

/-- Decoding finds the row of a word. -/
theorem decode?_eq_some_iff : decode? op = some i ↔ op.Row i :=
  ⟨row_of_decode?, decode?_of_row⟩

/-- Decoding fails where no row matches. -/
theorem decode?_eq_none_iff : decode? op = none ↔ ∀ i, ¬ op.Row i := by
  constructor
  · intro h i hrow
    rw [decode?_of_row hrow] at h
    cases h
  · intro h
    cases hd : decode? op with
    | none => rfl
    | some i => exact absurd (row_of_decode? hd) (h i)

/-! ## Operands of decoded instructions -/

/-- A word names registers that exist. -/
theorem registers_lt_of_row (h : op.Row i) : ∀ x ∈ i.registers, x.toNat < registerCount := by
  have hx := op.x_lt
  have hy := op.y_lt
  intro z hz
  cases h with
  | clearScreen | ret | jump | call | setIndex | jumpOffset => cases hz
  | equalsRegister | differsRegister | alu | draw =>
      rcases List.mem_cons.1 hz with rfl | hz
      · exact hx
      · rcases List.mem_singleton.1 hz with rfl
        exact hy
  | _ =>
      rcases List.mem_singleton.1 hz with rfl
      exact hx

/-- A word names addresses in memory. -/
theorem addresses_lt_of_row (h : op.Row i) : ∀ a ∈ i.addresses, a.toNat < memorySize := by
  have ha := op.address_lt
  intro a hmem
  cases h with
  | jump | call | setIndex | jumpOffset =>
      rcases List.mem_singleton.1 hmem with rfl
      exact ha
  | _ => cases hmem

end Instruction
end Chip8
