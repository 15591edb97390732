import Chip8.Requests

/-!
# Frame — the screen

A frame is a grid of 64 by 32 cells, each lit or dark.  Coordinates of any size wrap around both
edges, so a frame is a torus.  The main definitions are:

* `Cell.at`, the cell that a pair of coordinates names;
* `Frame.toggle`, which flips one cell;
* `Frame.blit`, which flips a list of cells in order and tells whether a lit one was hit;
* `Sprite.cells`, the cells that a sprite covers, row by row and left to right;
* `Frame.lit_blit`: after a list of flips, a cell has changed iff it occurs an odd number of times;
* `Frame.text`, 32 lines of 64 characters, `#` for a lit cell and a space for a dark one;
* `Frame.ask`, by which a live screen is cleared, flipped cell by cell and looked at.
-/

namespace Chip8

/-! ## Cells -/

abbrev screenWidth : Nat := 64

abbrev screenHeight : Nat := 32

/-- A position on the screen, counted row by row from the upper left corner. -/
abbrev Cell := Fin (screenHeight * screenWidth)

/-- The cell in column `x` and row `y`, wrapped around both edges. -/
def Cell.at (x y : Nat) : Cell :=
  ⟨y % screenHeight * screenWidth + x % screenWidth, by
    show y % 32 * 64 + x % 64 < 32 * 64
    omega⟩

/-! ## Frames -/

structure Frame where
  cells : Vector Bool (screenHeight * screenWidth)
  deriving DecidableEq

namespace Frame

def blank : Frame :=
  ⟨Vector.replicate _ false⟩

def lit (f : Frame) (c : Cell) : Bool :=
  f.cells[c]

def get (f : Frame) (x y : Nat) : Bool :=
  f.lit (.at x y)

def toggle (f : Frame) (c : Cell) : Frame :=
  ⟨f.cells.set c.val (!f.lit c) c.isLt⟩

/-- Flip the cells of a list in order, and tell whether one of them was lit when its turn came. -/
def blit (f : Frame) : List Cell → Frame × Bool
  | [] => (f, false)
  | c :: cs =>
      let hit := f.lit c
      let (rest, hits) := (f.toggle c).blit cs
      (rest, hit || hits)

def litCount (f : Frame) : Nat :=
  f.cells.toList.count true

/-- The cells of row `y` as they are stored, from left to right. -/
def row (f : Frame) (y : Nat) : List Bool :=
  (f.cells.toList.drop (y * screenWidth)).take screenWidth

def rows (f : Frame) : List (List Bool) :=
  (List.range screenHeight).map f.row

/-! ### Cells after each operation -/

/-- A blank frame is dark. -/
@[simp]
theorem lit_blank (c : Cell) : blank.lit c = false := by
  simp [blank, lit]

/-- A toggle turns one cell around and leaves the others. -/
@[simp]
theorem lit_toggle (f : Frame) (c d : Cell) : (f.toggle c).lit d = (f.lit d ^^ decide (c = d)) := by
  simp only [toggle, lit, Fin.getElem_fin, Vector.getElem_set, Fin.ext_iff]
  by_cases h : c.val = d.val
  · simp [h]
  · simp [h]

/-- One more turns a parity around. -/
theorem odd_add_toNat (n : Nat) (b : Bool) :
    decide ((n + b.toNat) % 2 = 1) = (decide (n % 2 = 1) ^^ b) := by
  have hturn : (n + 1) % 2 = 1 ↔ ¬ n % 2 = 1 := by omega
  cases b with
  | false => simp
  | true => simp only [Bool.toNat_true, hturn, decide_not, Bool.xor_true]

/-- Only the parity of the flips of a cell matters. -/
@[simp]
theorem lit_blit (f : Frame) (cs : List Cell) (c : Cell) :
    (f.blit cs).1.lit c = (f.lit c ^^ decide (cs.count c % 2 = 1)) := by
  induction cs generalizing f with
  | nil => simp [blit]
  | cons d ds ih =>
      have hcons : (f.blit (d :: ds)).1 = ((f.toggle d).blit ds).1 := rfl
      have hcount : (d :: ds).count c = ds.count c + (decide (d = c)).toNat := by
        by_cases h : d = c
        · simp [h]
        · simp [h]
      rw [hcons, ih, lit_toggle, hcount, odd_add_toNat, Bool.xor_assoc,
        Bool.xor_comm (decide (d = c))]

end Frame

/-! ## Sprites -/

/-- Rows of eight pixels, a byte each, with the leftmost pixel in the highest bit. -/
abbrev Sprite := List UInt8

namespace Sprite

/-- The columns of the pixels that are set in a row. -/
def columns (row : UInt8) : List Nat :=
  (List.range 8).filter fun b => row.toNat.testBit (7 - b)

/-- The cells that a sprite covers when its upper left corner is in column `x` and row `y`. -/
def cells (x y : Nat) : Sprite → List Cell
  | [] => []
  | row :: rest => (columns row).map (fun b => Cell.at (x + b) y) ++ cells x (y + 1) rest

end Sprite

/-! ## Lines of characters -/

namespace Frame

def mark (lit : Bool) : Char :=
  if lit then '#' else ' '

def line (row : List Bool) : List Char :=
  row.map mark ++ ['\n']

def text (f : Frame) : String :=
  String.ofList (f.rows.flatMap line)

/-- The text of the frame under a line that counts the lit cells. -/
def report (f : Frame) : String :=
  "Frame(" ++ f.litCount.repr ++ " lit)\n" ++ f.text

end Frame

/-! ## Live screens -/

namespace Frame

def flip (f : Frame) (x y : Nat) : Bool × Frame :=
  -- the answer is the cell as it was
  (f.get x y, f.toggle (.at x y))

inductive Request where
  | clear
  | flip (x y : Nat)
  | get (x y : Nat)
  | snapshot
  deriving DecidableEq, Repr

inductive Reply where
  | done
  | lit (value : Bool)
  | copy (f : Frame)
  deriving DecidableEq

/-- The reply to a request, and the screen afterwards. -/
def ask (f : Frame) : Request → Reply × Frame
  | .clear => (.done, .blank)
  | .flip x y =>
      let (hit, next) := f.flip x y
      (.lit hit, next)
  | .get x y => (.lit (f.get x y), f)
  | .snapshot => (.copy f, f)

end Frame
end Chip8
