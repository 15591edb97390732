import Chip8.Proofs.Frame.Counting
import Chip8.Proofs.Interpreter.Drawing
import Chip8.Proofs.Interpreter.Footprint

/-!
# Redrawing — draws that add up, cancel and change places

A draw shows a `Picture`: a sprite at a place of the screen.  If the sprite is no taller than the
screen, each of its pixels either lights a cell or erases one, and VF tells whether one was erased.
Drawn once more, the picture is gone again.  The flag of the second draw then tells whether the
first one lit a cell: a picture that only erased cells is redrawn on dark ones, without a collision.

The order in which pictures are drawn makes no difference to the screen (`Depicts.perm`).

Main statement: `draws_add_up_and_cancel`.
-/

namespace Chip8

/-! ## Pictures -/

/-- A sprite and the place of its upper left corner on the screen. -/
structure Picture where
  column : Nat
  row : Nat
  sprite : Sprite
  deriving DecidableEq, Repr

def Picture.cells (p : Picture) : List Cell :=
  Sprite.cells p.column p.row p.sprite

/-- The screen with the picture drawn on it. -/
def Frame.draw (f : Frame) (p : Picture) : Frame :=
  (f.blit p.cells).1

/-- Pictures can change places. -/
theorem Frame.draw_right_comm (f : Frame) (p q : Picture) : (f.draw p).draw q = (f.draw q).draw p :=
  f.blit_comm p.cells q.cells

namespace Machine

variable {m : Machine} {x y height : UInt8}

/-- The picture that a draw shows. -/
def picture (m : Machine) (x y height : UInt8) : Picture where
  column := (m.value x).toNat
  row := (m.value y).toNat
  sprite := m.bytesAt m.index.toNat height.toNat

/-- The bits that are set in the `height` bytes at the index register, as pairs of a row and a
column. -/
def pixels (m : Machine) (height : UInt8) : Finset (Nat × Nat) :=
  (Finset.range height.toNat ×ˢ Finset.range 8).filter fun p =>
    (m.byteAt (m.index.toNat + p.1)).toNat.testBit (7 - p.2) = true

theorem pixels_picture (hrange : m.index.toNat + height.toNat ≤ memorySize) :
    (m.picture x y height).sprite.pixels = m.pixels height := by
  unfold Sprite.pixels pixels picture
  rw [length_bytesAt hrange]
  refine Finset.filter_congr ?_
  rintro ⟨r, b⟩ hp
  have hr : r < height.toNat := Finset.mem_range.1 (Finset.mem_product.1 hp).1
  rw [pixel_bytesAt hr]

/-- A picture covers one cell for each pixel of its sprite. -/
theorem length_cells_picture (hrange : m.index.toNat + height.toNat ≤ memorySize) :
    (m.picture x y height).cells.length = (m.pixels height).card := by
  rw [Picture.cells, Sprite.length_cells, pixels_picture hrange]

/-- Up to 32 rows, no cell is covered twice. -/
theorem nodup_cells_picture (hrange : m.index.toNat + height.toNat ≤ memorySize)
    (hheight : height.toNat ≤ 32) : (m.picture x y height).cells.Nodup := by
  refine Sprite.nodup_cells ?_ _ _
  rw [picture, length_bytesAt hrange]
  exact hheight

/-- VF holds the flag that was set. -/
@[simp]
theorem value_setFlag_self (m : Machine) (flag : Bool) :
    (m.setFlag flag).value 0xF = if flag then 1 else 0 := by
  simp [value, setFlag]

end Machine

namespace Interpreter

variable {s t u : Interpreter} {x y height : UInt8} {p q : Picture} {ps qs : List Picture}
  {f g g' : Frame}

/-! ## One draw -/

/-- A draw of bytes in memory is not refused. -/
theorem execute_draw_effect (h : s.Ready) (hx : x.toNat ≤ 15) (hy : y.toNat ≤ 15)
    (hindex : s.machine.index.toNat < 4096) (hrange : s.machine.index.toNat + height.toNat ≤ 4096) :
    s.execute (.draw x y height) = .ok ⟨none, s.effect (.draw x y height)⟩ := by
  have hregisters : ∀ z ∈ (Instruction.draw x y height).registers, z.toNat < registerCount := by
    intro z hz
    rcases List.mem_pair.1 hz with rfl | rfl
    · exact Nat.lt_succ_of_le hx
    · exact Nat.lt_succ_of_le hy
  exact execute_of_awake h.awake ⟨hregisters, h.pc_fits⟩ (Machine.fault?_draw hindex hrange)

theorem screen_effect_draw (s : Interpreter) (x y height : UInt8) :
    (s.effect (.draw x y height)).machine.screen =
      s.machine.screen.draw (s.machine.picture x y height) := rfl

/-- What a draw leaves in VF. -/
theorem flag_effect_draw (s : Interpreter) (x y height : UInt8) :
    (s.effect (.draw x y height)).machine.value 0xF =
      if (s.machine.screen.blit (s.machine.picture x y height).cells).2 then 1 else 0 :=
  s.machine.value_setFlag_self _

/-- VF tells whether a lit cell was hit. -/
theorem flag_eq_one_iff :
    (s.effect (.draw x y height)).machine.value 0xF = 1 ↔
      (s.machine.screen.blit (s.machine.picture x y height).cells).2 = true := by
  rw [flag_effect_draw]
  cases (s.machine.screen.blit (s.machine.picture x y height).cells).2 with
  | true => exact ⟨fun _ => rfl, fun _ => rfl⟩
  | false => exact ⟨fun h => absurd h (by decide), fun h => absurd h (by decide)⟩

theorem flag_eq_zero_iff :
    (s.effect (.draw x y height)).machine.value 0xF = 0 ↔
      ¬ (s.machine.screen.blit (s.machine.picture x y height).cells).2 = true := by
  rw [flag_effect_draw]
  cases (s.machine.screen.blit (s.machine.picture x y height).cells).2 with
  | true => exact ⟨fun h => absurd h (by decide), fun h => absurd rfl h⟩
  | false => exact ⟨fun _ => Bool.false_ne_true, fun _ => rfl⟩

/-- Each pixel of the sprite lights a cell or erases one. -/
theorem litCount_effect_draw (hheight : height.toNat ≤ 32)
    (hrange : s.machine.index.toNat + height.toNat ≤ 4096) :
    (s.effect (.draw x y height)).machine.screen.litCount +
        2 * (s.machine.screen.erased (s.effect (.draw x y height)).machine.screen).card =
      s.machine.screen.litCount + (s.machine.pixels height).card := by
  rw [← Machine.length_cells_picture (x := x) (y := y) hrange]
  exact Frame.litCount_blit (Machine.nodup_cells_picture hrange hheight) s.machine.screen

/-- A draw leaves the pictures of all draws as they are that do not look at VF. -/
theorem picture_effect_draw {x' y' height' : UInt8} (hx : x' ≠ 0xF) (hy : y' ≠ 0xF) :
    (s.effect (.draw x y height)).machine.picture x' y' height' =
      s.machine.picture x' y' height' := by
  -- VF is the only register that a draw writes
  have hkept {z : UInt8} (hz : z ≠ 0xF) :
      (s.effect (.draw x y height)).machine.value z = s.machine.value z := by
    have hne : z.toNat ≠ 0xF := fun h => hz (UInt8.toNat.inj h)
    exact congrArg (·.getD 0) (Machine.getElem?_setFlag hne _)
  rw [Machine.picture, hkept hx, hkept hy]
  rfl

/-! ## Two draws -/

/-- Nor is a second draw, after a first one that succeeded. -/
theorem execute_draw_next {x' y' height' : UInt8} (hrun : s.runState = .running)
    (hpc : s.machine.pc.toNat ≤ 0xFFE) (hx : x'.toNat ≤ 15) (hy : y'.toNat ≤ 15)
    (hindex : s.machine.index.toNat < 4096)
    (hrange : s.machine.index.toNat + height'.toNat ≤ 4096) :
    (s.effect (.draw x y height)).execute (.draw x' y' height') =
      .ok ⟨none, (s.effect (.draw x y height)).effect (.draw x' y' height')⟩ := by
  have hnext : (s.effect (.draw x y height)).Ready := ready_effect hrun hpc rfl rfl
  exact execute_draw_effect hnext hx hy hindex hrange

/-- The same draw twice leaves the screen as it was. -/
theorem screen_draw_again (hx : x ≠ 0xF) (hy : y ≠ 0xF) :
    ((s.effect (.draw x y height)).effect (.draw x y height)).machine.screen =
      s.machine.screen := by
  rw [screen_effect_draw, picture_effect_draw hx hy]
  exact Frame.blit_blit_self _ _

theorem ne_flag_of_lt (h : x.toNat < 15) : x ≠ 0xF := by
  rintro rfl
  exact absurd h (by decide)

/-- Two draws that do not look at VF may change places. -/
theorem screen_draws_swapped {x' y' height' : UInt8} (hx : x ≠ 0xF) (hy : y ≠ 0xF) (hx' : x' ≠ 0xF)
    (hy' : y' ≠ 0xF) :
    ((s.effect (.draw x' y' height')).effect (.draw x y height)).machine.screen =
      ((s.effect (.draw x y height)).effect (.draw x' y' height')).machine.screen := by
  rw [screen_effect_draw, screen_effect_draw, screen_effect_draw, screen_effect_draw,
    picture_effect_draw hx hy, picture_effect_draw hx' hy', Frame.draw_right_comm]

/-! ## Draws in a row -/

/-- A draw of the picture leads from one interpreter to another. -/
def Shows (p : Picture) (s t : Interpreter) : Prop :=
  ∃ x y height, s.machine.picture x y height = p ∧ s.execute (.draw x y height) = .ok ⟨none, t⟩

/-- A draw of a picture adds it to the screen. -/
theorem Shows.screen_eq (h : Shows p s t) : t.machine.screen = s.machine.screen.draw p := by
  rcases h with ⟨x, y, height, rfl, hexec⟩
  rw [eq_effect_of_execute hexec]
  rfl

/-- Draws of these pictures, one after the other, lead from one screen to another.  In between,
everything but the screen may change. -/
inductive Depicts : List Picture → Frame → Frame → Prop where
  | nil (f : Frame) : Depicts [] f f
  | cons {p : Picture} {ps : List Picture} {s t : Interpreter} {g : Frame} :
      Shows p s t → Depicts ps t.machine.screen g → Depicts (p :: ps) s.machine.screen g

/-- Draws in a row add up. -/
theorem Depicts.eq_foldl (h : Depicts ps f g) : g = ps.foldl Frame.draw f := by
  induction h with
  | nil f => rfl
  | cons hshows _ ih => rw [ih, hshows.screen_eq, List.foldl_cons]

/-- Draws in any order lead to the same screen. -/
theorem Depicts.perm (h : Depicts ps f g) (hperm : ps.Perm qs) (h' : Depicts qs f g') : g' = g := by
  have hcomm : RightCommutative Frame.draw := ⟨Frame.draw_right_comm⟩
  rw [h.eq_foldl, h'.eq_foldl, hperm.foldl_eq]

/-- The lit cells grow by one for each pixel and shrink by two for each cell that is erased, and VF
is zero if they only grow. The same draw once more brings the screen back, and sets VF unless the
first one only erased. Pictures may be drawn in any order. -/
theorem draws_add_up_and_cancel :
    (∀ (s : Interpreter) (x y height : UInt8), s.runState = .running →
      s.machine.pc.toNat ≤ 0xFFE → x.toNat ≤ 15 → y.toNat ≤ 15 → height.toNat ≤ 32 →
      s.machine.index.toNat < 4096 → s.machine.index.toNat + height.toNat ≤ 4096 →
      ∃ t, s.execute (.draw x y height) = .ok ⟨none, t⟩ ∧
        let pixels := (s.machine.pixels height).card
        let erased := (s.machine.screen.erased t.machine.screen).card
        t.machine.screen.litCount + 2 * erased = s.machine.screen.litCount + pixels ∧
        (t.machine.value 0xF = 0 ↔
          t.machine.screen.litCount = s.machine.screen.litCount + pixels) ∧
        (x ≠ 0xF → y ≠ 0xF → ∃ u, t.execute (.draw x y height) = .ok ⟨none, u⟩ ∧
          u.machine.screen = s.machine.screen ∧
          (u.machine.value 0xF = 1 ↔ erased < pixels))) ∧
    (∀ (s : Interpreter) (x y height x' y' height' : UInt8), s.runState = .running →
      s.machine.pc.toNat ≤ 0xFFE → x.toNat < 15 → y.toNat < 15 → x'.toNat < 15 → y'.toNat < 15 →
      s.machine.index.toNat < 4096 → s.machine.index.toNat + height.toNat ≤ 4096 →
      s.machine.index.toNat + height'.toNat ≤ 4096 →
      ∃ t u t' u', s.execute (.draw x y height) = .ok ⟨none, t⟩ ∧
        t.execute (.draw x' y' height') = .ok ⟨none, u⟩ ∧
        s.execute (.draw x' y' height') = .ok ⟨none, t'⟩ ∧
        t'.execute (.draw x y height) = .ok ⟨none, u'⟩ ∧ u'.machine.screen = u.machine.screen) ∧
    ∀ ps qs f g g', ps.Perm qs → Depicts ps f g → Depicts qs f g' → g' = g := by
  refine ⟨?counted, ?swapped, fun ps qs f g g' hperm h h' => h.perm hperm h'⟩
  case counted =>
    intro s x y height hrun hpc hx hy hheight hindex hrange
    have hready := ready_of_running hrun hpc
    have hnodup : (s.machine.picture x y height).cells.Nodup :=
      Machine.nodup_cells_picture hrange hheight
    have hcount := litCount_effect_draw (s := s) (x := x) (y := y) hheight hrange
    refine ⟨_, execute_draw_effect hready hx hy hindex hrange, hcount, ?_, fun hxF hyF => ?_⟩
    · -- the count falls short of that of the pixels exactly if something was erased
      rw [flag_eq_zero_iff, Frame.blit_snd_iff_erased hnodup]
      show ¬ 0 < (s.machine.screen.erased (s.effect (.draw x y height)).machine.screen).card ↔ _
      exact ⟨fun hnone => by omega, fun hgrown => by omega⟩
    · refine ⟨_, execute_draw_next hrun hpc hx hy hindex hrange, screen_draw_again hxF hyF, ?_⟩
      rw [flag_eq_one_iff, picture_effect_draw hxF hyF,
        ← Machine.length_cells_picture (x := x) (y := y) hrange]
      exact Frame.blit_blit_snd_iff hnodup _
  case swapped =>
    intro s x y height x' y' height' hrun hpc hx hy hx' hy' hindex hrange hrange'
    have hready := ready_of_running hrun hpc
    exact ⟨_, _, _, _,
      execute_draw_effect hready hx.le hy.le hindex hrange,
      execute_draw_next hrun hpc hx'.le hy'.le hindex hrange',
      execute_draw_effect hready hx'.le hy'.le hindex hrange',
      execute_draw_next hrun hpc hx.le hy.le hindex hrange,
      screen_draws_swapped (ne_flag_of_lt hx) (ne_flag_of_lt hy) (ne_flag_of_lt hx')
        (ne_flag_of_lt hy')⟩

/-- The digit zero across the lower right corner of a blank screen: the second draw takes it away
again. With the digit at the mirrored place it makes the same screen in both orders. -/
theorem draws_add_up_and_cancel_corner :
    let registers := ((Vector.replicate 16 0).set 0 62).set 1 30
    let m : Machine := { Machine.powerOn with registers }
    let s : Interpreter := { start (.ofSeed 3) with machine := m }
    (s.runState = .running ∧ m.pc.toNat ≤ 0xFFE ∧ (0 : UInt8).toNat ≤ 15 ∧ (1 : UInt8).toNat ≤ 15 ∧
      (5 : UInt8).toNat ≤ 32 ∧ m.index.toNat < 4096 ∧ m.index.toNat + (5 : UInt8).toNat ≤ 4096) ∧
      (∃ t u, s.execute (.draw 0 1 5) = .ok ⟨none, t⟩ ∧ t.machine.value 0xF = 0 ∧
        t.machine.screen.litCount = m.screen.litCount + 14 ∧
        t.execute (.draw 0 1 5) = .ok ⟨none, u⟩ ∧ u.machine.screen = .blank ∧
        u.machine.value 0xF = 1) ∧
      ∃ g, Depicts [m.picture 0 1 5, m.picture 1 0 5] .blank g ∧
        Depicts [m.picture 1 0 5, m.picture 0 1 5] .blank g := by
  intro registers m s
  have hpc : m.pc.toNat ≤ 0xFFE := by decide
  have hzero : (0 : UInt8).toNat ≤ 15 := by decide
  have hone : (1 : UInt8).toNat ≤ 15 := by decide
  have hheight : (5 : UInt8).toNat ≤ 32 := by decide
  have hindex : m.index.toNat < 4096 := by decide
  have hrange : m.index.toNat + (5 : UInt8).toNat ≤ 4096 := by decide
  have hpixels : (m.pixels 5).card = 14 := by decide +kernel
  refine ⟨⟨rfl, hpc, hzero, hone, hheight, hindex, hrange⟩, ?_, ?_⟩
  · rcases draws_add_up_and_cancel.1 s 0 1 5 rfl hpc hzero hone hheight hindex hrange with
      ⟨t, hdraw, hcount, hflag, hagain⟩
    rcases hagain (by decide) (by decide) with ⟨u, hredraw, hscreen, hcollision⟩
    -- nothing can be erased from a blank screen, so the second draw hits all that the first one lit
    have hnone : (Frame.blank.erased t.machine.screen).card = 0 := Frame.card_erased_blank _
    have hgrown : t.machine.screen.litCount = m.screen.litCount + (m.pixels 5).card := by
      have h : t.machine.screen.litCount + 2 * (Frame.blank.erased t.machine.screen).card =
        m.screen.litCount + (m.pixels 5).card := hcount
      rwa [hnone] at h
    have hlit : (Frame.blank.erased t.machine.screen).card < (m.pixels 5).card := by
      rw [hnone, hpixels]
      decide
    refine ⟨t, u, hdraw, hflag.2 hgrown, ?_, hredraw, hscreen, hcollision.2 hlit⟩
    rw [hgrown, hpixels]
  · rcases draws_add_up_and_cancel.2.1 s 0 1 5 1 0 5 rfl hpc (by decide) (by decide) (by decide)
      (by decide) hindex hrange hrange with ⟨t, u, t', u', hfirst, hsecond, hfirst', hsecond', -⟩
    have hpicture : t.machine.picture 1 0 5 = m.picture 1 0 5 := by
      rw [eq_effect_of_execute hfirst]
      exact picture_effect_draw (by decide) (by decide)
    have hpicture' : t'.machine.picture 0 1 5 = m.picture 0 1 5 := by
      rw [eq_effect_of_execute hfirst']
      exact picture_effect_draw (by decide) (by decide)
    have hpaints : Depicts [m.picture 0 1 5, m.picture 1 0 5] s.machine.screen u.machine.screen :=
      .cons ⟨0, 1, 5, rfl, hfirst⟩ (.cons ⟨1, 0, 5, hpicture, hsecond⟩ (.nil _))
    have hpaints' : Depicts [m.picture 1 0 5, m.picture 0 1 5] s.machine.screen u'.machine.screen :=
      .cons ⟨1, 0, 5, rfl, hfirst'⟩ (.cons ⟨0, 1, 5, hpicture', hsecond'⟩ (.nil _))
    have hsame := draws_add_up_and_cancel.2.2 _ _ _ _ _ (.swap _ _ []) hpaints hpaints'
    rw [hsame] at hpaints'
    exact ⟨_, hpaints, hpaints'⟩

/-- The upper row of the digit zero, drawn on a screen on which it stands already: the first draw
erases its four pixels, and the second one lights them without a collision. -/
theorem redraw_without_collision :
    let s := (start (.ofSeed 3)).effect (.draw 0 0 1)
    (s.runState = .running ∧ s.machine.pc.toNat ≤ 0xFFE ∧ s.machine.index.toNat < 4096 ∧
      s.machine.index.toNat + (1 : UInt8).toNat ≤ 4096) ∧
      ∃ t u, s.execute (.draw 0 0 1) = .ok ⟨none, t⟩ ∧ t.execute (.draw 0 0 1) = .ok ⟨none, u⟩ ∧
        u.machine.screen = s.machine.screen ∧
        ¬ (u.machine.value 0xF = 1 ↔ 0 < (s.machine.pixels 1).card) := by
  intro s
  have hpc : s.machine.pc.toNat ≤ 0xFFE := by decide
  have hindex : s.machine.index.toNat < 4096 := by decide
  have hrange : s.machine.index.toNat + (1 : UInt8).toNat ≤ 4096 := by decide
  have hready : s.Ready := ready_of_running rfl hpc
  have hpixels : 0 < (s.machine.pixels 1).card := by decide +kernel
  have hflag : ((s.effect (.draw 0 0 1)).effect (.draw 0 0 1)).machine.value 0xF = 0 := by
    decide +kernel
  refine ⟨⟨rfl, hpc, hindex, hrange⟩, _, _,
    execute_draw_effect hready (by decide) (by decide) hindex hrange,
    execute_draw_next rfl hpc (by decide) (by decide) hindex hrange,
    screen_draw_again (by decide) (by decide), fun hiff => ?_⟩
  rw [hflag] at hiff
  exact absurd (hiff.2 hpixels) (by decide)

end Interpreter
end Chip8
