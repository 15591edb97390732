import Chip8.Proofs.Interpreter.Footprint

/-!
# Transfers — registers and digits on their way through memory

Three instructions move bytes at the index register: one dumps the first registers to memory, one
loads them back, and one writes the decimal digits of a register.  What they write is read back as
it was written, byte for byte, and they leave the index register and all other bytes of memory alone
(`Spares`).  So a dump that is still in memory can be loaded at any time, whatever has become of the
registers, and dumping what was just loaded changes nothing.

Main statement: `transfer_round_trips`.
-/

namespace Chip8

/-! ## Digits -/

/-- The three decimal digits of a byte. -/
theorem digits_of_byte (v : UInt8) :
    (v / 100).toNat ≤ 9 ∧ (v / 10 % 10).toNat ≤ 9 ∧ (v % 10).toNat ≤ 9 ∧
      100 * (v / 100).toNat + 10 * (v / 10 % 10).toNat + (v % 10).toNat = v.toNat := by
  have hv := v.toNat_lt
  have hhundred : (100 : UInt8).toNat = 100 := rfl
  have hten : (10 : UInt8).toNat = 10 := rfl
  simp only [UInt8.toNat_mod, UInt8.toNat_div, hhundred, hten]
  omega

/-! ## Bytes after a transfer -/

namespace Machine

variable {m : Machine} {x : UInt8} {k : Nat}

/-- A dump puts each register in its place after the index register. -/
theorem getElem?_saved (hx : x.toNat ≤ 15) (hrange : m.index.toNat + x.toNat ≤ 0xFFF)
    (hk : k ≤ x.toNat) : (m.memoryAfter (.save x))[m.index.toNat + k]? = m.registers[k]? := by
  have hlast : k < x.toNat + 1 := Nat.lt_succ_of_le hk
  have hlength : k < (m.registers.toList.take (x.toNat + 1)).length := by
    simp only [List.length_take, Vector.length_toList, registerCount]
    omega
  have hin : m.index.toNat + k < memorySize := by
    simp only [memorySize]
    omega
  rw [memoryAfter, Overlay.getElem?_of_inside _ _ hlength hin, List.getElem?_take_of_lt hlast,
    Vector.getElem?_toList]

/-- A load takes each register from its place after the index register. -/
theorem getElem?_restored (byte : UInt8) (hx : x.toNat ≤ 15)
    (hrange : m.index.toNat + x.toNat ≤ 0xFFF) (hk : k ≤ x.toNat) :
    (m.registersAfter byte (.restore x))[k]? = m.memory[m.index.toNat + k]? := by
  have hlast : k < x.toNat + 1 := Nat.lt_succ_of_le hk
  have hlength : k < (m.bytesAt m.index.toNat (x.toNat + 1)).length := by
    rw [length_bytesAt (Nat.succ_le_succ hrange)]
    exact hlast
  have hin : 0 + k < registerCount := by
    simp only [registerCount]
    omega
  have hread := Overlay.getElem?_of_inside _ m.registers hlength hin
  rw [Nat.zero_add] at hread
  rw [registersAfter, hread, bytesAt, List.getElem?_take_of_lt hlast, List.getElem?_drop,
    Vector.getElem?_toList]

/-- It leaves the registers above its last one alone. -/
theorem getElem?_restored_of_lt (byte : UInt8) (hk : x.toNat < k) :
    (m.registersAfter byte (.restore x))[k]? = m.registers[k]? := by
  -- above VX a load has no place to write to
  have hplace : .register k ∉ (Instruction.restore x).footprint m := by
    intro hmem
    cases hmem with
    | tail _ hmem => exact absurd (Place.register_mem_registers.1 hmem) (by omega)
  exact getElem?_registersAfter hplace

/-- The digits of a register lie one after the other at the index register. -/
theorem getElem?_digits (hrange : m.index.toNat + 2 ≤ 0xFFF) :
    (m.memoryAfter (.decimal x))[m.index.toNat]? = some (m.value x / 100) ∧
      (m.memoryAfter (.decimal x))[m.index.toNat + 1]? = some (m.value x / 10 % 10) ∧
      (m.memoryAfter (.decimal x))[m.index.toNat + 2]? = some (m.value x % 10) := by
  have hread (k : Nat) (hk : k < 3) : (m.memoryAfter (.decimal x))[m.index.toNat + k]? =
      [m.value x / 100, m.value x / 10 % 10, m.value x % 10][k]? := by
    have hin : m.index.toNat + k < memorySize := by
      simp only [memorySize]
      omega
    exact Overlay.getElem?_of_inside _ _ hk hin
  exact ⟨hread 0 (by decide), hread 1 (by decide), hread 2 (by decide)⟩

end Machine

/-! ## What a transfer leaves alone -/

namespace Interpreter

variable {s t : Interpreter} {i : Instruction} {x : UInt8} {count : Nat}

/-- Besides `count` bytes from the index register on, nothing in memory has changed, and the index
register is where it was. -/
structure Spares (s t : Interpreter) (count : Nat) : Prop where
  index_eq : t.machine.index = s.machine.index
  memory_eq : ∀ a, a < s.machine.index.toNat ∨ s.machine.index.toNat + count ≤ a →
    t.machine.memory[a]? = s.machine.memory[a]?

/-- An instruction spares what is not in its footprint. -/
theorem spares_effect (hindex : .index ∉ i.footprint s.machine)
    (hmemory : ∀ a, .memory a ∈ i.footprint s.machine →
      s.machine.index.toNat ≤ a ∧ a < s.machine.index.toNat + count) :
    s.Spares (s.effect i) count where
  index_eq := kept_effect hindex
  memory_eq := by
    intro a ha
    have hout : .memory a ∉ i.footprint s.machine := by
      intro hmem
      have hin := hmemory a hmem
      omega
    exact kept_effect hout

/-- A dump writes to its range of memory only. -/
theorem spares_save (s : Interpreter) (x : UInt8) :
    s.Spares (s.effect (.save x)) (x.toNat + 1) := by
  refine spares_effect ?_ fun a ha => ?_
  · simp [Instruction.footprint, Place.bytes]
  · cases ha with
    | tail _ ha => exact Place.memory_mem_bytes.1 ha

theorem spares_restore (s : Interpreter) (x : UInt8) : s.Spares (s.effect (.restore x)) 0 :=
  ⟨rfl, fun _ _ => rfl⟩

theorem spares_decimal (s : Interpreter) (x : UInt8) : s.Spares (s.effect (.decimal x)) 3 := by
  refine spares_effect ?_ fun a ha => ?_
  · simp [Instruction.footprint, Place.bytes]
  · cases ha with
    | tail _ ha => exact Place.memory_mem_bytes.1 ha

/-! ## Carrying out a transfer -/

/-- An instruction with one register that moves bytes at the index register is carried out if they
lie in memory. -/
theorem execute_transfer (h : s.Ready) (hx : x.toNat ≤ 15) (hregisters : i.registers = [x])
    (hnumbers : s.machine.pc.toNat + 2 < 0x10000 → s.machine.NumbersFit i)
    (hfault : s.machine.fault? i = s.machine.rangeFault? s.machine.index.toNat (count + 1))
    (hrange : s.machine.index.toNat + count ≤ 0xFFF) :
    s.execute i = .ok ⟨none, s.effect i⟩ := by
  have hregister : ∀ z ∈ i.registers, z.toNat < registerCount := by
    rw [hregisters]
    exact List.forall_mem_singleton.2 (Nat.lt_succ_of_le hx)
  have hin : s.machine.index.toNat + (count + 1) ≤ memorySize ∧
      s.machine.index.toNat < memorySize := by
    simp only [memorySize]
    omega
  have hnone : s.machine.fault? i = none := by
    rw [hfault]
    exact Machine.rangeFault?_eq_none_iff.2 hin
  exact execute_of_awake h.awake ⟨hregister, hnumbers h.pc_fits⟩ hnone

/-- A dump within memory is carried out. -/
theorem execute_save (h : s.Ready) (hx : x.toNat ≤ 15)
    (hrange : s.machine.index.toNat + x.toNat ≤ 0xFFF) :
    s.execute (.save x) = .ok ⟨none, s.effect (.save x)⟩ :=
  execute_transfer h hx rfl id rfl hrange

/-- So is a load. -/
theorem execute_restore (h : s.Ready) (hx : x.toNat ≤ 15)
    (hrange : s.machine.index.toNat + x.toNat ≤ 0xFFF) :
    s.execute (.restore x) = .ok ⟨none, s.effect (.restore x)⟩ :=
  execute_transfer h hx rfl id rfl hrange

theorem execute_decimal (h : s.Ready) (hx : x.toNat ≤ 15)
    (hrange : s.machine.index.toNat + 2 ≤ 0xFFF) :
    s.execute (.decimal x) = .ok ⟨none, s.effect (.decimal x)⟩ :=
  execute_transfer h hx rfl id rfl hrange

/-- Dumping the registers that were just loaded puts every byte back where it came from. -/
theorem memory_save_restore (hx : x.toNat ≤ 15)
    (hrange : s.machine.index.toNat + x.toNat ≤ 0xFFF) :
    ((s.effect (.restore x)).effect (.save x)).machine.memory = s.machine.memory := by
  refine Place.vector_eq_of_getElem?_eq fun a => ?_
  by_cases hin : s.machine.index.toNat ≤ a ∧ a < s.machine.index.toNat + (x.toNat + 1)
  · -- a byte of the range has been to its register and back
    obtain ⟨k, rfl⟩ := Nat.exists_eq_add_of_le hin.1
    have hk : k ≤ x.toNat := by omega
    calc ((s.effect (.restore x)).machine.memoryAfter (.save x))[s.machine.index.toNat + k]?
        = (s.effect (.restore x)).machine.registers[k]? :=
          Machine.getElem?_saved (m := (s.effect (.restore x)).machine) hx hrange hk
      _ = s.machine.memory[s.machine.index.toNat + k]? :=
          Machine.getElem?_restored s.generator.peek hx hrange hk
  · exact (spares_save (s.effect (.restore x)) x).memory_eq a (by
      show a < s.machine.index.toNat ∨ s.machine.index.toNat + (x.toNat + 1) ≤ a
      omega)

/-- A dump that is still in memory is loaded back by any interpreter that has not halted, and a load
and a dump in a row leave memory as it was. The digits of a register are those of its value, and a
load puts them in V0, V1 and V2. Nothing outside the ranges is touched. -/
theorem transfer_round_trips (hrun : s.runState = .running) (hpc : s.machine.pc.toNat ≤ 0xFFE)
    (hx : x.toNat ≤ 15) :
    (s.machine.index.toNat + x.toNat ≤ 0xFFF →
      (∃ t, s.execute (.save x) = .ok ⟨none, t⟩ ∧ s.Spares t (x.toNat + 1) ∧
        ∀ u : Interpreter, u.Ready → u.machine.index = s.machine.index →
          (∀ k ≤ x.toNat, u.machine.memory[s.machine.index.toNat + k]? =
            t.machine.memory[s.machine.index.toNat + k]?) →
          ∃ v, u.execute (.restore x) = .ok ⟨none, v⟩ ∧ u.Spares v 0 ∧
            (∀ r ≤ x.toNat, v.machine.registers[r]? = s.machine.registers[r]?) ∧
            ∀ r, x.toNat < r → v.machine.registers[r]? = u.machine.registers[r]?) ∧
      ∃ t v, s.execute (.restore x) = .ok ⟨none, t⟩ ∧ s.Spares t 0 ∧
        t.execute (.save x) = .ok ⟨none, v⟩ ∧ v.machine.memory = s.machine.memory ∧
        v.machine.index = s.machine.index) ∧
    (s.machine.index.toNat + 2 ≤ 0xFFF →
      ∃ t v a b c, s.execute (.decimal x) = .ok ⟨none, t⟩ ∧ s.Spares t 3 ∧
        t.machine.memory[s.machine.index.toNat]? = some a ∧
        t.machine.memory[s.machine.index.toNat + 1]? = some b ∧
        t.machine.memory[s.machine.index.toNat + 2]? = some c ∧
        (a.toNat ≤ 9 ∧ b.toNat ≤ 9 ∧ c.toNat ≤ 9 ∧
          100 * a.toNat + 10 * b.toNat + c.toNat = (s.machine.value x).toNat) ∧
        t.execute (.restore 2) = .ok ⟨none, v⟩ ∧ t.Spares v 0 ∧
        v.machine.registers[0]? = some a ∧ v.machine.registers[1]? = some b ∧
        v.machine.registers[2]? = some c) := by
  have hready := ready_of_running hrun hpc
  refine ⟨fun hrange => ⟨?dumped, ?loaded⟩, fun hrange => ?digits⟩
  case dumped =>
    refine ⟨_, execute_save hready hx hrange, spares_save s x, fun u hu hindex hbytes => ?_⟩
    have hrangeLater : u.machine.index.toNat + x.toNat ≤ 0xFFF := by
      rw [hindex]
      exact hrange
    refine ⟨_, execute_restore hu hx hrangeLater, spares_restore u x, fun r hr => ?_,
      fun r hr => Machine.getElem?_restored_of_lt u.generator.peek hr⟩
    calc (u.effect (.restore x)).machine.registers[r]?
        = u.machine.memory[s.machine.index.toNat + r]? := by
          rw [← hindex]
          exact Machine.getElem?_restored u.generator.peek hx hrangeLater hr
      _ = (s.effect (.save x)).machine.memory[s.machine.index.toNat + r]? := hbytes r hr
      _ = s.machine.registers[r]? := Machine.getElem?_saved hx hrange hr
  case loaded =>
    have hnext : (s.effect (.restore x)).Ready := ready_effect hrun hpc rfl rfl
    exact ⟨_, _, execute_restore hready hx hrange, spares_restore s x,
      execute_save hnext hx hrange, memory_save_restore hx hrange, rfl⟩
  case digits =>
    have hnext : (s.effect (.decimal x)).Ready := ready_effect hrun hpc rfl rfl
    have htwo : (2 : UInt8).toNat ≤ 15 := by decide
    rcases Machine.getElem?_digits (m := s.machine) (x := x) hrange with ⟨ha, hb, hc⟩
    -- the load finds the index register where it was, and at it the digits
    have hload (k : Nat) (hk : k ≤ 2) :
        ((s.effect (.decimal x)).effect (.restore 2)).machine.registers[k]? =
          (s.machine.memoryAfter (.decimal x))[s.machine.index.toNat + k]? :=
      Machine.getElem?_restored (m := (s.effect (.decimal x)).machine) s.generator.peek htwo
        hrange hk
    exact ⟨_, _, _, _, _, execute_decimal hready hx hrange, spares_decimal s x, ha, hb, hc,
      digits_of_byte _, execute_restore hnext htwo hrange, spares_restore _ 2,
      (hload 0 (by decide)).trans ha, (hload 1 (by decide)).trans hb,
      (hload 2 (by decide)).trans hc⟩

/-- Three registers dumped to the last three bytes of memory come back after all registers were
lost, and the digits of one of them have just as much room there. -/
theorem transfer_round_trips_at_end :
    let m : Machine := { Machine.powerOn with
      registers := Vector.replicate 16 7, index := 0xFFD }
    let s : Interpreter := { start (.ofSeed 3) with machine := m }
    s.runState = .running ∧ s.machine.pc.toNat ≤ 0xFFE ∧ (2 : UInt8).toNat ≤ 15 ∧
      s.machine.index.toNat + (2 : UInt8).toNat ≤ 0xFFF ∧
      (∃ t v, s.execute (.save 2) = .ok ⟨none, t⟩ ∧
        { t with machine := { t.machine with registers := Vector.replicate 16 0 } }.execute
          (.restore 2) = .ok ⟨none, v⟩ ∧
        v.machine.registers[2]? = some 7 ∧ v.machine.registers[3]? = some 0) ∧
      ∃ t v a b c, s.execute (.decimal 2) = .ok ⟨none, t⟩ ∧ t.machine.memory[0xFFF]? = some c ∧
        100 * a.toNat + 10 * b.toNat + c.toNat = (s.machine.value 2).toNat ∧
        t.execute (.restore 2) = .ok ⟨none, v⟩ ∧ v.machine.registers[0]? = some a ∧
        v.machine.registers[1]? = some b ∧ v.machine.registers[2]? = some c := by
  intro m s
  have hpc : s.machine.pc.toNat ≤ 0xFFE := by decide
  have hlast : (2 : UInt8).toNat ≤ 15 := by decide
  have hrange : s.machine.index.toNat + (2 : UInt8).toNat ≤ 0xFFF := by decide
  rcases ((transfer_round_trips rfl hpc hlast).1 hrange).1 with ⟨t, hsave, hspares, hload⟩
  rcases (transfer_round_trips rfl hpc hlast).2 hrange with
    ⟨r, w, a, b, c, hdecimal, -, -, -, hc, ⟨-, -, -, hsum⟩, hdigits, -, h0, h1, h2⟩
  have hready : t.Ready := by
    rw [eq_effect_of_execute hsave]
    exact ready_effect rfl hpc rfl rfl
  rcases hload { t with machine := { t.machine with registers := Vector.replicate 16 0 } }
    ⟨hready.awake, hready.pc_le⟩ hspares.index_eq (fun _ _ => rfl) with
    ⟨v, hrestore, -, hregisters, habove⟩
  exact ⟨rfl, hpc, hlast, hrange,
    ⟨t, v, hsave, hrestore, hregisters 2 (by decide), habove 3 (by decide)⟩,
    r, w, a, b, c, hdecimal, hc, hsum, hdigits, h0, h1, h2⟩

end Interpreter
end Chip8
