import Chip8.Frame
import Mathlib.Algebra.BigOperators.Intervals
import Mathlib.Data.Nat.Count

/-!
# Sprite — drawing as counting

A sprite is drawn by flipping its cells one after the other, on a screen that changes meanwhile.
Nothing of this order is left in the result: it depends only on how many pixels of the sprite land
on each cell.

* `blit_snd_iff`: some flip hit a lit cell iff a cell that was lit is flipped, or a cell is flipped
  twice.
* `count_cells`: a cell occurs in the flips of a sprite once for each pixel in `Sprite.hits`.
* `lt_length_of_two_hits`: only a sprite taller than the screen hits a cell twice.
-/

namespace Chip8

/-! ## Cells of a torus -/

/-- Two pairs of coordinates name one cell if they agree around both edges. -/
theorem Cell.at_eq_at_iff {x y u v : Nat} :
    Cell.at x y = Cell.at u v ↔
      x % screenWidth = u % screenWidth ∧ y % screenHeight = v % screenHeight := by
  simp only [Cell.at, Fin.mk.injEq, screenWidth, screenHeight]
  constructor
  · intro h
    have hx : x % 64 = u % 64 := by omega
    exact ⟨hx, by omega⟩
  · rintro ⟨hx, hy⟩
    rw [hx, hy]

/-- Every cell is named by coordinates within the screen. -/
theorem Cell.exists_at (c : Cell) : ∃ x < screenWidth, ∃ y < screenHeight, Cell.at x y = c := by
  have hc : c.val < 32 * 64 := c.isLt
  refine ⟨c.val % 64, Nat.mod_lt _ (by decide), c.val / 64, Nat.div_lt_of_lt_mul (by omega), ?_⟩
  refine Fin.ext ?_
  show c.val / 64 % 32 * 64 + c.val % 64 % 64 = c.val
  omega

/-! ## Collisions -/

namespace Frame

@[simp]
theorem blit_snd_cons (f : Frame) (d : Cell) (ds : List Cell) :
    (f.blit (d :: ds)).2 = (f.lit d || ((f.toggle d).blit ds).2) := rfl

/-- A flip leaves the other cells alone. -/
theorem lit_toggle_of_ne (f : Frame) {c d : Cell} (h : d ≠ c) : (f.toggle d).lit c = f.lit c := by
  simp [h]

/-- Some flip hits a lit cell iff one that is lit beforehand is flipped, or one is flipped twice. -/
theorem blit_snd_iff (f : Frame) (cs : List Cell) :
    (f.blit cs).2 = true ↔ (∃ c ∈ cs, f.lit c = true) ∨ ∃ c, 2 ≤ cs.count c := by
  induction cs generalizing f with
  | nil => simp [blit]
  | cons d ds ih =>
      rw [blit_snd_cons, Bool.or_eq_true, ih]
      constructor
      · rintro (hd | ⟨c, hc, hlit⟩ | ⟨c, hcount⟩)
        · exact .inl ⟨d, List.mem_cons_self, hd⟩
        · -- a cell that the first flip lit is flipped again; any other was lit before
          by_cases h : d = c
          · have hpos : 0 < ds.count c := List.count_pos_iff.2 hc
            exact .inr ⟨c, by rw [h, List.count_cons_self]; exact Nat.succ_le_succ hpos⟩
          · rw [lit_toggle_of_ne f h] at hlit
            exact .inl ⟨c, List.mem_cons_of_mem d hc, hlit⟩
        · exact .inr ⟨c, Nat.le_trans hcount List.count_le_count_cons⟩
      · intro h
        by_cases hd : f.lit d = true
        · exact .inl hd
        right
        rcases h with ⟨c, hc, hlit⟩ | ⟨c, hcount⟩
        · have hne : d ≠ c := by
            rintro rfl
            exact hd hlit
          have hmem : c ∈ ds := (List.mem_cons.1 hc).resolve_left hne.symm
          exact .inl ⟨c, hmem, by rw [lit_toggle_of_ne f hne]; exact hlit⟩
        · by_cases h : d = c
          · -- the first flip lights the dark cell for the second
            subst h
            rw [List.count_cons_self] at hcount
            have hpos : 0 < ds.count d := Nat.le_of_succ_le_succ hcount
            exact .inl ⟨d, List.count_pos_iff.1 hpos, by simp [hd]⟩
          · rw [List.count_cons_of_ne h] at hcount
            exact .inr ⟨c, hcount⟩

end Frame

/-! ## Pixels -/

namespace Sprite

/-- Whether a sprite has a pixel in row `r` and column `b`. -/
def pixel (sprite : Sprite) (r b : Nat) : Bool :=
  (sprite[r]?.getD 0).toNat.testBit (7 - b)

/-- The pixels, as pairs of a row and a column, that land on a cell. -/
def hits (x y : Nat) (sprite : Sprite) (c : Cell) : Finset (Nat × Nat) :=
  (Finset.range sprite.length ×ˢ Finset.range 8).filter fun p =>
    sprite.pixel p.1 p.2 = true ∧ Cell.at (x + p.2) (y + p.1) = c

variable {x y : Nat} {sprite : Sprite} {c : Cell}

/-- A pixel hits the cell that it lands on. -/
@[simp]
theorem mem_hits {r b : Nat} :
    (r, b) ∈ hits x y sprite c ↔
      (r < sprite.length ∧ b < 8) ∧ sprite.pixel r b = true ∧ Cell.at (x + b) (y + r) = c := by
  simp [hits]

/-- The hits by the first row, and by the rows below it. -/
theorem card_hits_cons (row : UInt8) (rest : Sprite) :
    (hits x y (row :: rest) c).card =
      ((Finset.range 8).filter fun b =>
        row.toNat.testBit (7 - b) = true ∧ Cell.at (x + b) y = c).card +
        (hits x (y + 1) rest c).card := by
  simp only [hits, Finset.card_filter, Finset.sum_product, List.length_cons]
  rw [Finset.sum_range_succ', Nat.add_comm]
  refine congrArg₂ (· + ·) rfl ?_
  refine Finset.sum_congr rfl fun r _ => Finset.sum_congr rfl fun b _ => ?_
  have hrow : pixel (row :: rest) (r + 1) b = pixel rest r b := rfl
  have hat : y + (r + 1) = y + 1 + r := by omega
  rw [hrow, hat]

/-- A row flips a cell once for each of its pixels that lands there. -/
theorem count_columns (row : UInt8) :
    ((columns row).map fun b => Cell.at (x + b) y).count c =
      ((Finset.range 8).filter fun b =>
        row.toNat.testBit (7 - b) = true ∧ Cell.at (x + b) y = c).card := by
  rw [← Nat.count_eq_card_filter_range, Nat.count, List.count_eq_countP, List.countP_map, columns,
    List.countP_filter]
  refine List.countP_congr fun b _ => ?_
  simp [and_comm]

/-- A cell is flipped once for each pixel that lands on it. -/
@[simp]
theorem count_cells (x y : Nat) (sprite : Sprite) (c : Cell) :
    (cells x y sprite).count c = (hits x y sprite c).card := by
  induction sprite generalizing y with
  | nil => rfl
  | cons row rest ih => rw [cells, List.count_append, count_columns, ih, card_hits_cons]

/-- Two pixels that land on one cell are in the same column, and so many rows apart that the sprite
is taller than the screen. -/
theorem lt_length_of_two_hits (h : 2 ≤ (hits x y sprite c).card) :
    screenHeight < sprite.length := by
  rcases Finset.one_lt_card.1 h with ⟨⟨r, b⟩, hp, ⟨r', b'⟩, hq, hne⟩
  rcases mem_hits.1 hp with ⟨⟨hr, hb⟩, -, hat⟩
  rcases mem_hits.1 hq with ⟨⟨hr', hb'⟩, -, hat'⟩
  -- the columns agree and lie within eight, so only the rows can differ, by a whole screen
  rcases Cell.at_eq_at_iff.1 (hat.trans hat'.symm) with ⟨hcol, hrow⟩
  simp only [screenWidth, screenHeight] at hcol hrow
  have hbb : b = b' := by omega
  have hrr : r ≠ r' := by
    rintro rfl
    exact hne (by rw [hbb])
  show 32 < sprite.length
  omega

/-- A cell has changed after a sprite iff an odd number of pixels landed on it. -/
@[simp]
theorem lit_blit_cells (f : Frame) (x y : Nat) (sprite : Sprite) (c : Cell) :
    (f.blit (cells x y sprite)).1.lit c =
      (f.lit c ^^ decide ((hits x y sprite c).card % 2 = 1)) := by
  simp

/-- A sprite collides iff a pixel lands on a lit cell, or two on the same. -/
theorem collides_iff (f : Frame) (x y : Nat) (sprite : Sprite) :
    (f.blit (cells x y sprite)).2 = true ↔
      ∃ c, f.lit c = true ∧ 1 ≤ (hits x y sprite c).card ∨ 2 ≤ (hits x y sprite c).card := by
  simp only [Frame.blit_snd_iff, count_cells, exists_or]
  refine or_congr ?_ Iff.rfl
  constructor
  · rintro ⟨c, hc, hlit⟩
    have hpos : 0 < (cells x y sprite).count c := List.count_pos_iff.2 hc
    rw [count_cells] at hpos
    exact ⟨c, hlit, hpos⟩
  · rintro ⟨c, hlit, hpos⟩
    rw [← count_cells] at hpos
    exact ⟨c, List.count_pos_iff.1 hpos, hlit⟩

end Sprite
end Chip8
