import Chip8.Proofs.Frame.Sprite
import Mathlib.Algebra.BigOperators.Group.Finset.Basic
import Mathlib.Data.Fintype.Fin
import Mathlib.Data.List.Nodup

/-!
# Counting — lit cells before and after a sprite

Of two screens, the cells that differ are either lit or erased on the way from one to the other
(`Frame.erased`), and the numbers of lit cells differ by as much.  A list of flips that names no
cell twice lights some of its cells and erases the others, so its length is shared out between the
two (`litCount_blit`).  Flips cancel out when they are made again, and their order makes no
difference to the screen.

A sprite that is no taller than the screen names no cell twice, and it has a flip for each of its
pixels (`length_cells`).
-/

namespace Chip8

/-! ## Two screens -/

namespace Frame

variable {f g : Frame} {c : Cell} {cs ds : List Cell}

/-- Two screens with the same cells lit are the same. -/
theorem eq_of_lit_eq (h : ∀ c, f.lit c = g.lit c) : f = g := by
  rcases f with ⟨cells⟩
  rcases g with ⟨cells'⟩
  have hcells : cells = cells' := by
    ext i hi
    exact h ⟨i, hi⟩
  rw [hcells]

/-- The number of lit cells, as the size of the set of them. -/
theorem card_lit (f : Frame) :
    (Finset.univ.filter fun c : Cell => f.lit c = true).card = f.litCount := by
  let cells : List.Vector Bool (screenHeight * screenWidth) :=
    ⟨f.cells.toList, f.cells.length_toList⟩
  have hget (c : Cell) : cells.get c = f.lit c := by
    simp [cells, List.Vector.get, lit]
  have hcount := Fin.card_filter_univ_eq_vector_get_eq_count true cells
  simp only [hget] at hcount
  exact hcount

/-- The cells that are lit on the first screen and dark on the second. -/
def erased (f g : Frame) : Finset Cell :=
  Finset.univ.filter fun c => f.lit c = true ∧ g.lit c = false

/-- The cells that go dark on the way. -/
@[simp]
theorem mem_erased : c ∈ f.erased g ↔ f.lit c = true ∧ g.lit c = false := by
  simp [erased]

/-- From a blank screen there is nothing to erase. -/
@[simp]
theorem card_erased_blank (g : Frame) : (blank.erased g).card = 0 := by
  simp [erased]

/-- What is erased on the way is missing there, and what is erased on the way back has been added.
-/
theorem litCount_add_erased (f g : Frame) :
    g.litCount + (f.erased g).card = f.litCount + (g.erased f).card := by
  have hsdiff (f g : Frame) : f.erased g =
      (Finset.univ.filter fun c => f.lit c = true) \
        Finset.univ.filter fun c => g.lit c = true := by
    ext c
    simp
  -- on both sides the cells are counted that are lit on one of the screens at least
  rw [← card_lit, ← card_lit, hsdiff f g, hsdiff g f, Nat.add_comm, Finset.card_sdiff_add_card,
    Nat.add_comm, Finset.card_sdiff_add_card, Finset.union_comm]

/-! ## Flips that name no cell twice -/

/-- Such flips turn each of their cells around and leave all other cells as they are. -/
theorem lit_blit_of_nodup (h : cs.Nodup) (f : Frame) (c : Cell) :
    (f.blit cs).1.lit c = (f.lit c ^^ decide (c ∈ cs)) := by
  rw [lit_blit]
  congr 1
  by_cases hc : c ∈ cs
  · simp [hc, List.count_eq_one_of_mem h hc]
  · simp [hc, List.count_eq_zero_of_not_mem hc]

/-- The flips are shared out between the cells that go dark and the cells that are lit. -/
theorem card_erased_add_card_erased (h : cs.Nodup) (f : Frame) :
    (f.erased (f.blit cs).1).card + ((f.blit cs).1.erased f).card = cs.length := by
  have hdisjoint : Disjoint (f.erased (f.blit cs).1) ((f.blit cs).1.erased f) := by
    refine Finset.disjoint_left.2 fun c hc hc' => ?_
    exact Bool.false_ne_true ((mem_erased.1 hc').2.symm.trans (mem_erased.1 hc).1)
  have hunion : f.erased (f.blit cs).1 ∪ (f.blit cs).1.erased f = cs.toFinset := by
    ext c
    rw [Finset.mem_union, mem_erased, mem_erased, lit_blit_of_nodup h, List.mem_toFinset]
    cases f.lit c with
    | false => simp
    | true => simp
  rw [← Finset.card_union_of_disjoint hdisjoint, hunion, List.toFinset_card_of_nodup h]

/-- Each flip adds a lit cell, except that a flip of a lit cell takes one away instead. -/
theorem litCount_blit (h : cs.Nodup) (f : Frame) :
    (f.blit cs).1.litCount + 2 * (f.erased (f.blit cs).1).card = f.litCount + cs.length := by
  have hcounts := litCount_add_erased f (f.blit cs).1
  have hshares := card_erased_add_card_erased h f
  omega

/-- Such flips hit a lit cell exactly if they erase one. -/
theorem blit_snd_iff_erased (h : cs.Nodup) (f : Frame) :
    (f.blit cs).2 = true ↔ 0 < (f.erased (f.blit cs).1).card := by
  have htwice : ¬ ∃ c, 2 ≤ cs.count c := by
    rintro ⟨c, hc⟩
    have hle := List.nodup_iff_count_le_one.1 h c
    omega
  rw [blit_snd_iff, or_iff_left htwice, Finset.card_pos]
  constructor
  · rintro ⟨c, hc, hlit⟩
    exact ⟨c, mem_erased.2 ⟨hlit, by simp [lit_blit_of_nodup h, hc, hlit]⟩⟩
  · rintro ⟨c, hc⟩
    rcases mem_erased.1 hc with ⟨hlit, hdark⟩
    -- a cell that has gone dark has been flipped
    rw [lit_blit_of_nodup h, hlit] at hdark
    exact ⟨c, by simpa using hdark, hlit⟩

/-! ## Flips made again, or in another order -/

/-- The same flips once more bring every cell back. -/
@[simp]
theorem blit_blit_self (f : Frame) (cs : List Cell) : ((f.blit cs).1.blit cs).1 = f := by
  refine eq_of_lit_eq fun c => ?_
  simp

/-- Two lists of flips may change places. -/
theorem blit_comm (f : Frame) (cs ds : List Cell) :
    ((f.blit cs).1.blit ds).1 = ((f.blit ds).1.blit cs).1 := by
  refine eq_of_lit_eq fun c => ?_
  simp only [lit_blit]
  exact Bool.xor_right_comm ..

/-- Made once more, the flips hit a lit cell exactly if they lit one the first time. -/
theorem blit_blit_snd_iff (h : cs.Nodup) (f : Frame) :
    ((f.blit cs).1.blit cs).2 = true ↔ (f.erased (f.blit cs).1).card < cs.length := by
  have hshares := card_erased_add_card_erased h f
  rw [blit_snd_iff_erased h, blit_blit_self]
  omega

end Frame

/-! ## Sprites -/

namespace Sprite

variable {x y : Nat} {sprite : Sprite}

def pixels (sprite : Sprite) : Finset (Nat × Nat) :=
  (Finset.range sprite.length ×ˢ Finset.range 8).filter fun p => sprite.pixel p.1 p.2 = true

/-- The hits of a cell are the pixels that land on it. -/
theorem hits_eq_filter (x y : Nat) (sprite : Sprite) (c : Cell) :
    hits x y sprite c = sprite.pixels.filter fun p => Cell.at (x + p.2) (y + p.1) = c :=
  (Finset.filter_filter ..).symm

/-- Every member of a list is counted once. -/
theorem sum_count_eq_length {α : Type} [Fintype α] [DecidableEq α] (l : List α) :
    ∑ a, l.count a = l.length := by
  have h := Multiset.sum_count_eq_card (m := (l : Multiset α)) fun a _ => Finset.mem_univ a
  simpa only [Multiset.coe_count, Multiset.coe_card] using h

/-- A sprite flips a cell for each of its pixels. -/
@[simp]
theorem length_cells (x y : Nat) (sprite : Sprite) :
    (cells x y sprite).length = sprite.pixels.card := by
  have hmaps : Set.MapsTo (fun p : Nat × Nat => Cell.at (x + p.2) (y + p.1)) sprite.pixels
      (Finset.univ : Finset Cell) := fun _ _ => Finset.mem_univ _
  -- the flips are sorted by the cell, and so are the pixels
  calc (cells x y sprite).length = ∑ c : Cell, (cells x y sprite).count c :=
        (sum_count_eq_length _).symm
    _ = ∑ c : Cell, (sprite.pixels.filter fun p => Cell.at (x + p.2) (y + p.1) = c).card :=
        Finset.sum_congr rfl fun c _ => by rw [count_cells, hits_eq_filter]
    _ = sprite.pixels.card := (Finset.card_eq_sum_card_fiberwise hmaps).symm

/-- A sprite that is no taller than the screen does not come around to its own cells. -/
theorem nodup_cells (h : sprite.length ≤ screenHeight) (x y : Nat) :
    (cells x y sprite).Nodup := by
  refine List.nodup_iff_count_le_one.2 fun c => ?_
  rw [count_cells]
  exact Nat.le_of_lt_succ (Nat.lt_of_not_le fun htwo => Nat.not_lt.2 h (lt_length_of_two_hits htwo))

end Sprite
end Chip8
