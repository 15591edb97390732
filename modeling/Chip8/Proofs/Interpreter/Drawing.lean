import Chip8.Proofs.Frame.Sprite
import Chip8.Proofs.Interpreter.Stepping

/-!
# Drawing — a sprite from memory on the screen

`Machine.hits` collects the pixels of a sprite in memory that land in one place of the screen, with
both coordinates wrapped around.  The screen and VF after a draw depend on nothing else.

Main statement: `execute_draw`.
-/

namespace Chip8

namespace Machine

variable {m : Machine} {x y height : UInt8}

/-- The pixels, as pairs of a row and a column of the sprite, that land in column `px` and row `py`
of the screen. -/
def hits (m : Machine) (x y height : UInt8) (px py : Nat) : Finset (Nat × Nat) :=
  (Finset.range height.toNat ×ˢ Finset.range 8).filter fun p =>
    (m.byteAt (m.index.toNat + p.1)).toNat.testBit (7 - p.2) = true ∧
      ((m.value x).toNat + p.2) % 64 = px ∧ ((m.value y).toNat + p.1) % 32 = py

def Collides (m : Machine) (x y height : UInt8) : Prop :=
  ∃ px < 64, ∃ py < 32,
    m.screen.get px py = true ∧ 1 ≤ (m.hits x y height px py).card ∨
      2 ≤ (m.hits x y height px py).card

/-- The pixels of a sprite in memory are the bits of its bytes. -/
theorem pixel_bytesAt {address count r b : Nat} (hr : r < count) :
    Sprite.pixel (m.bytesAt address count) r b =
      (m.byteAt (address + r)).toNat.testBit (7 - b) := by
  have hbyte : (m.bytesAt address count)[r]? = m.memory[address + r]? := by
    simp [bytesAt, hr]
  rw [Sprite.pixel, hbyte, byteAt]

/-- Pixels of a sprite that lies in memory. -/
theorem hits_eq (hrange : m.index.toNat + height.toNat ≤ memorySize) {px py : Nat} (hpx : px < 64)
    (hpy : py < 32) :
    Sprite.hits (m.value x).toNat (m.value y).toNat (m.bytesAt m.index.toNat height.toNat)
      (.at px py) = m.hits x y height px py := by
  unfold Sprite.hits hits
  rw [length_bytesAt hrange]
  refine Finset.filter_congr ?_
  rintro ⟨r, b⟩ hp
  have hr : r < height.toNat := Finset.mem_range.1 (Finset.mem_product.1 hp).1
  have hcol : px % screenWidth = px := Nat.mod_eq_of_lt hpx
  have hrow : py % screenHeight = py := Nat.mod_eq_of_lt hpy
  rw [pixel_bytesAt hr, Cell.at_eq_at_iff, hcol, hrow]

/-- The screen after a draw. -/
theorem get_drawn (hrange : m.index.toNat + height.toNat ≤ memorySize) {px py : Nat}
    (hpx : px < 64) (hpy : py < 32) :
    (m.drawn x y height).1.get px py =
      (m.screen.get px py ^^ decide ((m.hits x y height px py).card % 2 = 1)) := by
  rw [← hits_eq hrange hpx hpy]
  exact Sprite.lit_blit_cells m.screen _ _ _ _

/-- The flag after a draw. -/
theorem drawn_snd_iff (hrange : m.index.toNat + height.toNat ≤ memorySize) :
    (m.drawn x y height).2 = true ↔ m.Collides x y height := by
  refine (Sprite.collides_iff _ _ _ _).trans ?_
  -- every cell is named by one place of the screen
  constructor
  · rintro ⟨c, hc⟩
    rcases c.exists_at with ⟨px, hpx, py, hpy, rfl⟩
    rw [hits_eq hrange hpx hpy] at hc
    exact ⟨px, hpx, py, hpy, hc⟩
  · rintro ⟨px, hpx, py, hpy, h⟩
    rw [← hits_eq hrange hpx hpy] at h
    exact ⟨.at px py, h⟩

/-- Only a sprite taller than the screen covers a place twice. -/
theorem lt_height_of_two_hits (hrange : m.index.toNat + height.toNat ≤ memorySize) {px py : Nat}
    (hpx : px < 64) (hpy : py < 32) (h : 2 ≤ (m.hits x y height px py).card) :
    32 < height.toNat := by
  rw [← hits_eq hrange hpx hpy] at h
  have hlt := Sprite.lt_length_of_two_hits h
  rwa [length_bytesAt hrange] at hlt

/-- A draw of a sprite that lies in memory is not refused. -/
theorem fault?_draw (hindex : m.index.toNat < memorySize)
    (hrange : m.index.toNat + height.toNat ≤ memorySize) : m.fault? (.draw x y height) = none :=
  rangeFault?_eq_none_iff.2 ⟨hrange, hindex⟩

end Machine

namespace Interpreter

variable {s : Interpreter} {x y height : UInt8}

/-- Drawing is a blit on a torus: a place changes iff an odd number of pixels land on it, and VF
tells whether the sprite collided. The coordinates are those before the draw, also when VF is one of
them. -/
theorem execute_draw (hrun : s.runState = .running) (hpc : s.machine.pc.toNat ≤ 0xFFFD)
    (hx : x.toNat ≤ 15) (hy : y.toNat ≤ 15) (hindex : s.machine.index.toNat < 4096)
    (hrange : s.machine.index.toNat + height.toNat ≤ 4096) :
    ∃ screen vf,
      s.execute (.draw x y height) = .ok ⟨none, { s with
        machine := { s.machine with
          screen := screen
          registers := s.machine.registers.set 0xF vf
          pc := s.machine.pc + 2 }
        frameDirty := true }⟩ ∧
      (∀ px < 64, ∀ py < 32, screen.get px py =
        (s.machine.screen.get px py ^^
          decide ((s.machine.hits x y height px py).card % 2 = 1))) ∧
      (s.machine.Collides x y height ∧ vf = 1 ∨ ¬ s.machine.Collides x y height ∧ vf = 0) ∧
      ∀ px < 64, ∀ py < 32, 2 ≤ (s.machine.hits x y height px py).card → 32 < height.toNat := by
  have hadm : s.machine.Admits (.draw x y height) := by
    refine ⟨?_, ?_⟩
    · intro z hz
      rcases List.mem_pair.1 hz with rfl | rfl
      · exact Nat.lt_succ_of_le hx
      · exact Nat.lt_succ_of_le hy
    · show s.machine.pc.toNat + 2 < 0x10000
      omega
  have hfault : s.machine.fault? (.draw x y height) = none := Machine.fault?_draw hindex hrange
  have hexec : s.execute (.draw x y height) = .ok ⟨none, s.effect (.draw x y height)⟩ := by
    rw [execute_of_ne (ne_faulted_of_running hrun), (performed s _).eq_ok hadm hfault]
    rfl
  -- the new program counter does not wrap around, so it is a sum of words
  have hword : UInt16.ofNat (s.machine.pc.toNat + 2) = s.machine.pc + 2 := by
    rw [UInt16.ofNat_add, UInt16.ofNat_toNat]
    rfl
  refine ⟨(s.machine.drawn x y height).1, if (s.machine.drawn x y height).2 then 1 else 0, ?_,
    ?_, ?_, ?_⟩
  · rw [hexec, ← hword]
    rfl
  · intro px hpx py hpy
    exact Machine.get_drawn hrange hpx hpy
  · rw [← Machine.drawn_snd_iff hrange]
    cases (s.machine.drawn x y height).2 with
    | true => exact .inl ⟨rfl, rfl⟩
    | false => exact .inr ⟨Bool.false_ne_true, rfl⟩
  · intro px hpx py hpy
    exact Machine.lt_height_of_two_hits hrange hpx hpy

/-- The digits, drawn as one sprite of 33 rows from the lower right corner on: the last row lands on
the first, and the blank screen is hit all the same. -/
theorem execute_draw_over_itself :
    let m : Machine := { Machine.powerOn with registers := Vector.replicate 16 63 }
    let s : Interpreter := { start (.ofSeed 3) with machine := m }
    s.runState = .running ∧ m.pc.toNat ≤ 0xFFFD ∧ m.index.toNat < 4096 ∧
      m.index.toNat + (33 : UInt8).toNat ≤ 4096 ∧
      ∃ screen, s.execute (.draw 0xF 0xF 33) = .ok ⟨none, { s with
        machine := { m with screen := screen, registers := m.registers.set 0xF 1, pc := m.pc + 2 }
        frameDirty := true }⟩ := by
  intro m s
  have hcollides : m.Collides 0xF 0xF 33 := by
    refine ⟨63, by decide, 31, by decide, .inr ?_⟩
    decide +kernel
  have hpc : m.pc.toNat ≤ 0xFFFD := by decide
  have hindex : m.index.toNat < 4096 := by decide
  have hrange : m.index.toNat + (33 : UInt8).toNat ≤ 4096 := by decide
  rcases execute_draw (s := s) (x := 0xF) (y := 0xF) rfl hpc (by decide) (by decide) hindex
    hrange with ⟨screen, vf, hexec, -, ⟨-, rfl⟩ | ⟨hnot, -⟩, -⟩
  · exact ⟨rfl, hpc, hindex, hrange, screen, hexec⟩
  · exact absurd hcollides hnot

end Interpreter
end Chip8
