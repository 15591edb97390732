import Chip8.Proofs.Interpreter.Outcomes

/-!
# Footprint — what an instruction may write

An interpreter is made of `Place`s that can be written one by one: bytes of memory, registers, slots
of the stack and so on.  `Instruction.footprint` lists the places that an instruction may write.
All other places are after the instruction what they were before it, whatever its operands are.  No
place is forgotten: two interpreters that agree everywhere are equal.

Main statement: `writes_within_footprint`.
-/

namespace Chip8

/-! ## Places -/

/-- A part of an interpreter that can be written on its own. -/
inductive Place where
  | memory (address : Nat)
  | register (number : Nat)
  | index
  | pc
  -- how many slots of the stack are in use
  | depth
  | slot (number : Nat)
  | delay
  | sound
  | screen
  | keypad
  | runState
  | generator
  | frameDirty
  | beepPending
  deriving DecidableEq, Repr

namespace Place

variable {s t : Interpreter}

/-- The second interpreter has in this place what the first one has there. -/
def Kept (s t : Interpreter) : Place → Prop
  | memory address => t.machine.memory[address]? = s.machine.memory[address]?
  | register number => t.machine.registers[number]? = s.machine.registers[number]?
  | index => t.machine.index = s.machine.index
  | pc => t.machine.pc = s.machine.pc
  | depth => t.machine.stack.depth = s.machine.stack.depth
  | slot number => t.machine.stack.slots[number]? = s.machine.stack.slots[number]?
  | delay => t.machine.timers.delay = s.machine.timers.delay
  | sound => t.machine.timers.sound = s.machine.timers.sound
  | screen => t.machine.screen = s.machine.screen
  | keypad => t.machine.keypad = s.machine.keypad
  | runState => t.runState = s.runState
  | generator => t.generator = s.generator
  | frameDirty => t.frameDirty = s.frameDirty
  | beepPending => t.beepPending = s.beepPending

/-- Two vectors with the same cells are the same. -/
theorem vector_eq_of_getElem?_eq {α : Type} {n : Nat} {v w : Vector α n}
    (h : ∀ i : Nat, w[i]? = v[i]?) : w = v := by
  ext i hi
  have hcell := h i
  rw [Vector.getElem?_eq_getElem hi, Vector.getElem?_eq_getElem hi] at hcell
  exact Option.some.inj hcell

/-- An interpreter has no other parts than its places. -/
theorem eq_of_kept (h : ∀ p, Kept s t p) : t = s := by
  rcases s with ⟨⟨memory, registers, index, pc, ⟨slots, depth⟩, ⟨delay, sound⟩, screen, keypad⟩,
    runState, generator, frameDirty, beepPending⟩
  rcases t with ⟨⟨memory', registers', index', pc', ⟨slots', depth'⟩, ⟨delay', sound'⟩, screen',
    keypad'⟩, runState', generator', frameDirty', beepPending'⟩
  obtain rfl : memory' = memory := vector_eq_of_getElem?_eq fun address => h (.memory address)
  obtain rfl : registers' = registers := vector_eq_of_getElem?_eq fun number => h (.register number)
  obtain rfl : slots' = slots := vector_eq_of_getElem?_eq fun number => h (.slot number)
  obtain rfl : index' = index := h .index
  obtain rfl : pc' = pc := h .pc
  obtain rfl : depth' = depth := h .depth
  obtain rfl : delay' = delay := h .delay
  obtain rfl : sound' = sound := h .sound
  obtain rfl : screen' = screen := h .screen
  obtain rfl : keypad' = keypad := h .keypad
  obtain rfl : runState' = runState := h .runState
  obtain rfl : generator' = generator := h .generator
  obtain rfl : frameDirty' = frameDirty := h .frameDirty
  obtain rfl : beepPending' = beepPending := h .beepPending
  rfl

def bytes (address count : Nat) : List Place :=
  (List.range count).map fun k => memory (address + k)

def registers (count : Nat) : List Place :=
  (List.range count).map register

/-- The bytes from an address on, one by one. -/
@[simp]
theorem memory_mem_bytes {a address count : Nat} :
    memory a ∈ bytes address count ↔ address ≤ a ∧ a < address + count := by
  simp only [bytes, List.mem_map, List.mem_range, memory.injEq]
  constructor
  · rintro ⟨k, hk, rfl⟩
    omega
  · intro ha
    exact ⟨a - address, by omega, by omega⟩

@[simp]
theorem register_mem_registers {r count : Nat} : register r ∈ registers count ↔ r < count := by
  simp [registers]

end Place

/-! ## Footprints -/

def AluOp.setsFlag : AluOp → Bool
  | move | or | and | xor => false
  | add | subtract | shiftRight | subtractFrom | shiftLeft => true

/-- The places that an instruction may write. -/
def Instruction.footprint (m : Machine) : Instruction → List Place
  | clearScreen => [.pc, .screen, .frameDirty]
  | ret => [.pc, .depth]
  | jump _ | jumpOffset _ | skip _ => [.pc]
  | call _ => [.pc, .depth, .slot m.stack.depth]
  | setConst x _ | addConst x _ | readDelay x => [.pc, .register x.toNat]
  | alu op x _ => .pc :: .register x.toNat :: if op.setsFlag then [.register 0xF] else []
  | setIndex _ | addIndex _ | glyph _ => [.pc, .index]
  | random x _ => [.pc, .register x.toNat, .generator]
  | draw .. => [.pc, .register 0xF, .screen, .frameDirty]
  -- an interpreter that waits for a key stays where it is
  | awaitKey _ => [.runState]
  | setDelay _ => [.pc, .delay]
  | setSound _ => [.pc, .sound]
  | decimal _ => .pc :: Place.bytes m.index.toNat 3
  | save last => .pc :: Place.bytes m.index.toNat (last.toNat + 1)
  | restore last => .pc :: Place.registers (last.toNat + 1)

namespace Machine

variable {m : Machine} {i : Instruction} {p : Place}

/-! ## One part at a time -/

/-- Bytes are stored from the index register on, and nowhere else. -/
theorem getElem?_memoryAfter {a : Nat} (h : .memory a ∉ i.footprint m) :
    (m.memoryAfter i)[a]? = m.memory[a]? := by
  have hoverlay {bytes : List UInt8} {count : Nat} (hlength : bytes.length ≤ count)
      (hnone : Place.memory a ∉ .pc :: Place.bytes m.index.toNat count) :
      (overlay m.memory m.index.toNat bytes)[a]? = m.memory[a]? := by
    have hout : ¬ (m.index.toNat ≤ a ∧ a < m.index.toNat + count) := by
      intro hin
      exact hnone (by simp [hin])
    exact Overlay.getElem?_of_outside _ _ (by omega)
  cases i with
  | decimal x => exact hoverlay (Nat.le_refl 3) h
  | save last => exact hoverlay (List.length_take_le _ _) h
  | _ => rfl

/-- The flag is in VF, and nowhere else. -/
theorem getElem?_setFlag {r : Nat} (h : r ≠ 0xF) (flag : Bool) :
    (m.setFlag flag).registers[r]? = m.registers[r]? :=
  Vector.getElem?_set_ne (by decide) (Ne.symm h)

/-- Only an operation that sets the flag writes VF besides its target. -/
theorem getElem?_aluRegisters {op : AluOp} {x y : UInt8} {r : Nat} (hx : r ≠ x.toNat)
    (hflag : op.setsFlag = true → r ≠ 0xF) :
    (m.aluRegisters op x y)[r]? = m.registers[r]? := by
  rw [aluRegisters, Vector.getElem?_setIfInBounds_ne (Ne.symm hx)]
  cases op with
  | move | or | and | xor => rfl
  | add | subtract | shiftRight | subtractFrom | shiftLeft => exact getElem?_setFlag (hflag rfl) _

/-- Registers outside the footprint keep their values. -/
theorem getElem?_registersAfter {byte : UInt8} {r : Nat} (h : .register r ∉ i.footprint m) :
    (m.registersAfter byte i)[r]? = m.registers[r]? := by
  cases i with
  | setConst x n | addConst x n | readDelay x | random x mask =>
      have hx : r ≠ x.toNat := by
        rintro rfl
        exact h (.tail _ (.head _))
      exact Vector.getElem?_setIfInBounds_ne (Ne.symm hx)
  | alu op x y =>
      refine getElem?_aluRegisters ?_ ?_
      · rintro rfl
        exact h (.tail _ (.head _))
      · rintro hflag rfl
        simp [Instruction.footprint, hflag] at h
  | draw x y height =>
      have hF : r ≠ 0xF := by
        rintro rfl
        exact h (.tail _ (.head _))
      exact getElem?_setFlag hF _
  | restore last =>
      have hlast : last.toNat + 1 ≤ r := by
        refine Nat.le_of_not_lt fun hlt => ?_
        exact h (by simp [Instruction.footprint, hlt])
      have hlength : (m.bytesAt m.index.toNat (last.toNat + 1)).length ≤ last.toNat + 1 :=
        List.length_take_le _ _
      exact Overlay.getElem?_of_outside _ _ (.inr (by omega))
  | _ => rfl

/-- A call stores its site in the first free slot; a return leaves all slots as they are. -/
theorem getElem?_slotsAfter {k : Nat} (h : .slot k ∉ i.footprint m) :
    (m.stackAfter i).slots[k]? = m.stack.slots[k]? := by
  cases i with
  | call target =>
      have hk : k ≠ m.stack.depth := by
        rintro rfl
        exact h (.tail _ (.tail _ (.head _)))
      exact Vector.getElem?_setIfInBounds_ne (Ne.symm hk)
  | _ => rfl

end Machine

namespace Interpreter

variable {s t : Interpreter} {i : Instruction}

/-! ## All parts -/

/-- The effect of an instruction does not reach beyond its footprint. -/
theorem kept_effect {p : Place} (h : p ∉ i.footprint s.machine) : p.Kept s (s.effect i) := by
  cases p with
  | memory a => exact Machine.getElem?_memoryAfter h
  | register r => exact Machine.getElem?_registersAfter h
  | slot k => exact Machine.getElem?_slotsAfter h
  | pc =>
      cases i with
      | awaitKey x => rfl
      | _ => exact absurd (.head _) h
  | index =>
      cases i with
      | setIndex | addIndex | glyph => exact absurd (.tail _ (.head _)) h
      | _ => rfl
  | depth =>
      cases i with
      | ret | call => exact absurd (.tail _ (.head _)) h
      | _ => rfl
  | delay =>
      cases i with
      | setDelay x => exact absurd (.tail _ (.head _)) h
      | _ => rfl
  | sound =>
      cases i with
      | setSound x => exact absurd (.tail _ (.head _)) h
      | _ => rfl
  | screen =>
      cases i with
      | clearScreen => exact absurd (.tail _ (.head _)) h
      | draw x y height => exact absurd (.tail _ (.tail _ (.head _))) h
      | _ => rfl
  | frameDirty =>
      cases i with
      | clearScreen => exact absurd (.tail _ (.tail _ (.head _))) h
      | draw x y height => exact absurd (.tail _ (.tail _ (.tail _ (.head _)))) h
      | _ => rfl
  | runState =>
      cases i with
      | awaitKey x => exact absurd (.head _) h
      | _ => rfl
  | generator =>
      cases i with
      | random x mask => exact absurd (.tail _ (.tail _ (.head _))) h
      | _ => rfl
  -- these two are written from outside only
  | keypad | beepPending => rfl

/-- An instruction that is carried out, from memory or directly, leaves everything outside its
footprint as it was.  If it leaves its footprint as it was too, it has changed nothing at all. -/
theorem writes_within_footprint
    (h : s.current? = some i ∧ s.step = .ok ⟨none, t⟩ ∨ s.execute i = .ok ⟨none, t⟩) :
    (∀ p, p ∉ i.footprint s.machine → p.Kept s t) ∧
      ((∀ p ∈ i.footprint s.machine, p.Kept s t) → t = s) := by
  have ht : t = s.effect i := by
    rcases h with ⟨hi, hstep⟩ | hexec
    · exact (performed_of_current? hi hstep).2
    · cases execute_outcome hexec with
      | performed _ _ => rfl
  have houtside : ∀ p, p ∉ i.footprint s.machine → p.Kept s t := by
    intro p hp
    rw [ht]
    exact kept_effect hp
  refine ⟨houtside, fun hinside => Place.eq_of_kept fun p => ?_⟩
  by_cases hp : p ∈ i.footprint s.machine
  · exact hinside p hp
  · exact houtside p hp

/-- Three registers, dumped to the last three bytes of memory, leave the byte before them alone. -/
theorem writes_within_footprint_dump_at_end :
    let m : Machine := { Machine.powerOn with
      registers := Vector.replicate 16 7, index := 0xFFD }
    let s : Interpreter := { start (.ofSeed 3) with machine := m }
    ∃ t, s.execute (.save 2) = .ok ⟨none, t⟩ ∧ t.machine.memory[0xFFD]? = some 7 ∧
      .memory 0xFFC ∉ (Instruction.save 2).footprint m ∧
      t.machine.memory[0xFFC]? = m.memory[0xFFC]? ∧ t.machine.registers[2]? = m.registers[2]? := by
  intro m s
  have hpc : m.pc.toNat + 2 < 0x10000 := by decide
  have hlast : ∀ x ∈ (Instruction.save 2).registers, x.toNat < registerCount :=
    List.forall_mem_singleton.2 (by decide)
  have hadmits : s.machine.Admits (.save 2) := ⟨hlast, hpc⟩
  have hexec : s.execute (.save 2) = .ok ⟨none, s.effect (.save 2)⟩ :=
    execute_of_admits rfl hadmits (by decide)
  have hfront : .memory 0xFFC ∉ (Instruction.save 2).footprint m := by decide
  have hregister : .register 2 ∉ (Instruction.save 2).footprint m := by decide
  have hkept := (writes_within_footprint (.inr hexec)).1
  refine ⟨_, hexec, ?_, hfront, hkept _ hfront, hkept _ hregister⟩
  decide +kernel

end Interpreter
end Chip8
