import Chip8.Proofs.Instruction.RoundTrip
import Chip8.Proofs.Interpreter.Stepping

/-!
# Loading — from a list of instructions to the word that is fetched

A program is assembled to bytes, the bytes are copied to the program area, and a fetch puts two of
them together again.  Each of the three has a lemma of its own; along a whole program they cancel,
so that reading at the place of an instruction gives that instruction, cut to the fields of its
word.

Main statement: `load_assemble`.
-/

namespace Chip8

namespace Machine

variable {m : Machine}

/-! ## Copying -/

/-- A program that fits is copied to where programs begin. -/
theorem load_of_fits {program : List UInt8} (h : programStart + program.length ≤ memorySize) :
    m.load program = .ok { m with memory := overlay m.memory programStart program } := by
  have hfits : ¬ memorySize < programStart + program.length := Nat.not_lt.2 h
  simp only [load, hfits, ↓reduceIte]

theorem load_of_too_long {program : List UInt8} (h : memorySize < programStart + program.length) :
    m.load program = .error (m.outOfRange (programStart + program.length - 1)) := by
  simp only [load, h, ↓reduceIte]

/-- A byte of a program that was copied. -/
theorem byteAt_overlay {memory : Memory} {start offset : Nat} {bytes : List UInt8} {b : UInt8}
    (hmem : m.memory = overlay memory start bytes) (hfits : start + bytes.length ≤ memorySize)
    (hb : bytes[offset]? = some b) : m.byteAt (start + offset) = b := by
  rcases List.getElem?_eq_some_iff.1 hb with ⟨hlt, hget⟩
  have hin : start + offset < memorySize := by omega
  have hplace : start + offset - start = offset := by omega
  have hcell : (overlay memory start bytes)[start + offset] = b := by
    rw [Overlay.getElem_of_mem bytes memory hin (Nat.le_add_right _ _) (by omega)]
    simp only [hplace, hget]
  rw [byteAt, hmem, Vector.getElem?_eq_getElem hin, hcell, Option.getD_some]

/-! ## Fetching -/

/-- The word at the place of an instruction of a program that was copied. -/
theorem fetch_assembled {memory : Memory} {program : List Instruction} {k : Nat}
    (hmem : m.memory = overlay memory programStart (Instruction.assemble program))
    (hfits : program.length ≤ 1792) (hk : k < program.length)
    (hpc : m.pc = UInt16.ofNat (programStart + 2 * k)) : m.fetch = .ok program[k].encode := by
  have hlength : programStart + (Instruction.assemble program).length ≤ memorySize := by
    simp only [Instruction.length_assemble, programStart, memorySize]
    omega
  -- the place is below 0x1000, so it is not cut to sixteen bits
  have hplace : m.pc.toNat = programStart + 2 * k := by
    rw [hpc, UInt16.toNat_ofNat']
    simp only [programStart]
    omega
  have hbytes := Instruction.getElem?_assemble hk
  have hhigh : m.byteAt m.pc.toNat = program[k].encode.high := by
    rw [hplace]
    exact byteAt_overlay hmem hlength hbytes.1
  have hlow : m.byteAt (m.pc.toNat + 1) = program[k].encode.constant := by
    rw [hplace, Nat.add_assoc]
    exact byteAt_overlay hmem hlength hbytes.2
  have hlast : m.pc.toNat < 0xFFF := by
    rw [hplace]
    simp only [programStart]
    omega
  rw [fetch_of_lt hlast, word, hhigh, hlow, Opcode.ofBytes_high_constant]

end Machine

namespace Interpreter

open Instruction (assemble decode?)

/-! ## Whole programs -/

/-- Assembling takes two bytes for each instruction. At most 1792 of them are copied, each to be
read back cut to the fields of its word; a longer program is refused for its last byte and changes
nothing. Bytes that can be read as instructions are given back by assembling these. -/
theorem load_assemble (s : Interpreter) (program : List Instruction) :
    (assemble program).length = 2 * program.length ∧
      (1792 < program.length → s.load (assemble program) =
        ⟨some (.outOfRange (0x200 + 2 * program.length - 1) s.machine.pc), s⟩) ∧
      (program.length ≤ 1792 → ∃ memory : Memory,
        s.load (assemble program) = ⟨none, { s with machine := { s.machine with memory } }⟩ ∧
        (∀ (a : Nat) (ha : a < 4096), a < 0x200 ∨ 0x200 + 2 * program.length ≤ a →
          memory[a] = s.machine.memory[a]) ∧
        ∀ (k : Nat) (hk : k < program.length),
          { s.machine with memory, pc := UInt16.ofNat (0x200 + 2 * k) }.fetch =
            .ok program[k].encode ∧
          decode? program[k].encode = some program[k].masked) ∧
      ∀ bytes : List UInt8, bytes.length % 2 = 0 →
        (∀ w ∈ Opcode.words bytes, ∃ i, decode? w = some i) →
        assemble ((Opcode.words bytes).filterMap decode?) = bytes := by
  have hlength : (assemble program).length = 2 * program.length :=
    Instruction.length_assemble program
  refine ⟨hlength, ?_, ?_, ?_⟩
  · intro hlong
    have hout : memorySize < programStart + (assemble program).length := by
      simp only [Instruction.length_assemble, programStart, memorySize]
      omega
    have hfault : s.machine.outOfRange (programStart + (assemble program).length - 1) =
        .outOfRange (0x200 + 2 * program.length - 1) s.machine.pc := by
      rw [hlength]
      rfl
    simp only [load, Machine.load_of_too_long hout, hfault]
  · intro hfits
    have hin : programStart + (assemble program).length ≤ memorySize := by
      simp only [Instruction.length_assemble, programStart, memorySize]
      omega
    refine ⟨overlay s.machine.memory programStart (assemble program), ?_, ?_, ?_⟩
    · simp only [load, Machine.load_of_fits hin]
    · intro a ha hside
      rcases hside with hbefore | hafter
      · exact Overlay.getElem_of_lt _ _ ha hbefore
      · refine Overlay.getElem_of_ge _ _ ha ?_
        rw [hlength]
        exact hafter
    · intro k hk
      exact ⟨Machine.fetch_assembled rfl hfits hk rfl, Instruction.decode?_encode _⟩
  · intro bytes heven hwords
    exact Instruction.assemble_words heven hwords

/-- Operands wider than their fields, one instruction more than there is room for, and the bytes of
a program that clears the screen and stops. -/
theorem load_assemble_wide_operands :
    let s := start (.ofSeed 0)
    let program : List Instruction := [.jump 0xF202, .setConst 0x13 0x7F, .draw 1 2 0x25]
    let long : List Instruction := List.replicate 1793 .ret
    let bytes : List UInt8 := [0x00, 0xE0, 0x12, 0x02]
    (program.length ≤ 1792 ∧ ∃ memory : Memory,
      s.load (assemble program) = ⟨none, { s with machine := { s.machine with memory } }⟩ ∧
      { s.machine with memory, pc := 0x204 }.fetch = .ok 0xD125 ∧
      decode? 0xD125 = some (.draw 1 2 5)) ∧
      (1792 < long.length ∧ s.load (assemble long) = ⟨some (.outOfRange 0x1001 0x200), s⟩) ∧
      (bytes.length % 2 = 0 ∧ (∀ w ∈ Opcode.words bytes, ∃ i, decode? w = some i) ∧
        assemble ((Opcode.words bytes).filterMap decode?) = bytes) := by
  intro s program long bytes
  have hshort : program.length ≤ 1792 := by decide
  have hlong : 1792 < long.length := by
    rw [List.length_replicate]
    decide
  have heven : bytes.length % 2 = 0 := by decide
  have hwords : ∀ w ∈ Opcode.words bytes, ∃ i, decode? w = some i := by
    intro w hw
    rcases List.mem_cons.1 hw with rfl | hw
    · exact ⟨.clearScreen, rfl⟩
    · rcases List.mem_singleton.1 hw with rfl
      exact ⟨.jump 0x202, rfl⟩
  rcases load_assemble s program with ⟨-, -, hload, hback⟩
  rcases hload hshort with ⟨memory, hcopied, -, hread⟩
  have hrefused := (load_assemble s long).2.1 hlong
  refine ⟨⟨hshort, memory, hcopied, hread 2 (by decide)⟩, ⟨hlong, ?_⟩, heven, hwords,
    hback bytes heven hwords⟩
  rw [hrefused, List.length_replicate]
  rfl

end Interpreter
end Chip8
