import Chip8.Frame
import Mathlib.Data.List.Flatten

/-!
# Reading — the text of a frame, read back

A frame is written row by row, and each of its cells has one place in the text.  `ofText?` reads
such a text: 32 lines of 64 marks, each ended by a newline, and nothing after them.  It accepts the
texts of frames and no others (`ofText?_eq_some_iff`).

The rows of a frame, put one after the other, are its cells in the order in which they are stored
(`flatten_rows`).  So as many cells are marked in the text as are lit.

Main statement: `text_depicts_frame`.
-/

namespace Chip8
namespace Frame

variable {f g : Frame} {lit : Bool} {c : Char} {cells row : List Bool} {rows : List (List Bool)}
  {chars rest : List Char} {s : String} {width height : Nat}

/-! ## A reader -/

def unmark? (c : Char) : Option Bool :=
  if c = '#' then some true else if c = ' ' then some false else none

/-- A row of cells from the front of a text, and the text after its newline. -/
def readLine? : Nat → List Char → Option (List Bool × List Char)
  | 0, c :: chars => if c = '\n' then some ([], chars) else none
  | width + 1, c :: chars => do
      let lit ← unmark? c
      let (row, rest) ← readLine? width chars
      return (lit :: row, rest)
  | _, [] => none

def readLines? : Nat → List Char → Option (List (List Bool))
  | 0, chars => if chars = [] then some [] else none
  | height + 1, chars => do
      let (row, rest) ← readLine? screenWidth chars
      let rows ← readLines? height rest
      return row :: rows

def ofCells? (cells : List Bool) : Option Frame :=
  if h : cells.length = screenHeight * screenWidth then some ⟨⟨cells.toArray, h⟩⟩ else none

def ofText? (s : String) : Option Frame := do
  let rows ← readLines? screenHeight s.toList
  ofCells? rows.flatten

/-- A mark is read as the cell that it stands for. -/
@[simp]
theorem unmark?_mark (lit : Bool) : unmark? (mark lit) = some lit := by
  cases lit with
  | false => rfl
  | true => rfl

/-- What is read as a cell is its mark. -/
theorem eq_mark_of_unmark? (h : unmark? c = some lit) : c = mark lit := by
  unfold unmark? at h
  split at h
  · cases h
    assumption
  · split at h
    · cases h
      assumption
    · cases h

/-! ### Lines -/

/-- The line of a row is read off the front of a text. -/
@[simp]
theorem readLine?_line (row : List Bool) (rest : List Char) :
    readLine? row.length (line row ++ rest) = some (row, rest) := by
  induction row with
  | nil => rfl
  | cons lit row ih =>
      show (unmark? (mark lit)).bind (fun lit => (readLine? row.length (line row ++ rest)).bind
        fun (row, rest) => some (lit :: row, rest)) = _
      simp [ih]

/-- What is read off the front of a text is the line of a row. -/
theorem eq_line_of_readLine? (h : readLine? width chars = some (row, rest)) :
    row.length = width ∧ chars = line row ++ rest := by
  induction width generalizing chars row with
  | zero =>
      cases chars with
      | nil => cases h
      | cons c chars =>
          simp only [readLine?] at h
          split at h
          · -- the newline after a row with nothing left to read
            rename_i hc
            cases h
            exact ⟨rfl, by rw [hc]; rfl⟩
          · cases h
  | succ width ih =>
      cases chars with
      | nil => cases h
      | cons c chars =>
          rcases Option.bind_eq_some_iff.1 h with ⟨lit, hlit, hmore⟩
          rcases Option.bind_eq_some_iff.1 hmore with ⟨⟨cells, left⟩, hread, hcons⟩
          cases hcons
          rcases ih hread with ⟨hlength, htext⟩
          rw [eq_mark_of_unmark? hlit, htext]
          exact ⟨congrArg (· + 1) hlength, rfl⟩

/-- The lines of rows of the right width are read. -/
theorem readLines?_lines (h : rows.map List.length = List.replicate height screenWidth) :
    readLines? height (rows.flatMap line) = some rows := by
  induction height generalizing rows with
  | zero =>
      have hnone : rows = [] := List.map_eq_nil_iff.1 h
      rw [hnone]
      rfl
  | succ height ih =>
      cases rows with
      | nil => cases h
      | cons row rows =>
          rcases List.cons.inj h with ⟨hrow, hrows⟩
          -- the other lines are what stands after the first one
          have hline := readLine?_line row (rows.flatMap line)
          rw [hrow] at hline
          rw [List.flatMap_cons, readLines?, hline]
          show (readLines? height (rows.flatMap line)).bind (fun rows => some (row :: rows)) = _
          rw [ih hrows]
          rfl

/-- What is read is made of lines, and of as many as a text should have. -/
theorem eq_lines_of_readLines? (h : readLines? height chars = some rows) :
    rows.map List.length = List.replicate height screenWidth ∧ chars = rows.flatMap line := by
  induction height generalizing chars rows with
  | zero =>
      simp only [readLines?] at h
      split at h
      · cases h
        exact ⟨rfl, by assumption⟩
      · cases h
  | succ height ih =>
      rcases Option.bind_eq_some_iff.1 h with ⟨⟨row, rest⟩, hline, hmore⟩
      rcases Option.bind_eq_some_iff.1 hmore with ⟨rows, hread, hcons⟩
      cases hcons
      rcases eq_line_of_readLine? hline with ⟨hrow, htext⟩
      rcases ih hread with ⟨hrows, hrest⟩
      rw [List.map_cons, hrow, hrows, htext, hrest]
      exact ⟨rfl, rfl⟩

/-- As many cells as a screen has are those of one frame. -/
theorem ofCells?_eq_some_iff : ofCells? cells = some f ↔ cells = f.cells.toList := by
  unfold ofCells?
  constructor
  · intro h
    split at h
    · cases h
      rfl
    · cases h
  · rintro rfl
    rw [dif_pos f.cells.length_toList]
    rfl

/-! ## Rows -/

/-- The cells are stored row by row. -/
@[simp]
theorem get_eq_getElem? (f : Frame) (x y : Nat) :
    f.cells.toList[y % screenHeight * screenWidth + x % screenWidth]? = some (f.get x y) := by
  have hcell : y % screenHeight * screenWidth + x % screenWidth = (Cell.at x y).val := rfl
  rw [hcell, Vector.getElem?_toList, Vector.getElem?_eq_getElem (Cell.at x y).isLt]
  rfl

/-- Where the cell at these coordinates is found in the rows. -/
theorem getElem?_rows (f : Frame) (x y : Nat) :
    f.rows[y % screenHeight]?.bind (fun row => row[x % screenWidth]?) = some (f.get x y) := by
  have hx : x % screenWidth < screenWidth := Nat.mod_lt x (by decide)
  have hy : y % screenHeight < screenHeight := Nat.mod_lt y (by decide)
  rw [rows, List.getElem?_map, List.getElem?_range hy, Option.map_some, Option.bind_some, Frame.row,
    List.getElem?_take_of_lt hx, List.getElem?_drop, get_eq_getElem?]

/-- Each row is as wide as the screen. -/
theorem length_row {y : Nat} (h : y < screenHeight) : (f.row y).length = screenWidth := by
  have hfits : screenWidth ≤ screenHeight * screenWidth - y * screenWidth := by
    simp only [screenHeight, screenWidth] at h ⊢
    omega
  rw [Frame.row, List.length_take, List.length_drop, Vector.length_toList, Nat.min_eq_left hfits]

/-- There are as many rows as the screen is high. -/
@[simp]
theorem map_length_rows (f : Frame) :
    f.rows.map List.length = List.replicate screenHeight screenWidth := by
  refine List.eq_replicate_iff.2 ⟨by simp [rows], fun n hn => ?_⟩
  rcases List.mem_map.1 hn with ⟨row, hrow, rfl⟩
  rcases List.mem_map.1 hrow with ⟨y, hy, rfl⟩
  exact length_row (List.mem_range.1 hy)

/-- Pieces of equal length, one after the other, are what they were cut from. -/
theorem flatten_pieces {α : Type} (l : List α) (count length : Nat) :
    ((List.range count).map fun k => (l.drop (k * length)).take length).flatten =
      l.take (count * length) := by
  induction count with
  | zero => simp
  | succ count ih =>
      rw [List.range_succ, List.map_append, List.flatten_append, ih, Nat.succ_mul, List.take_add]
      simp

/-- The rows, one after the other, are the cells as they are stored. -/
@[simp]
theorem flatten_rows (f : Frame) : f.rows.flatten = f.cells.toList := by
  have hpieces := flatten_pieces f.cells.toList screenHeight screenWidth
  rwa [List.take_of_length_le (Nat.le_of_eq f.cells.length_toList)] at hpieces

/-! ## Texts -/

/-- A text is made of the lines of the rows. -/
theorem toList_text (f : Frame) : f.text.toList = f.rows.flatMap line :=
  String.toList_ofList

/-- A line has a mark for each lit cell. -/
@[simp]
theorem count_line (row : List Bool) : (line row).count '#' = row.count true := by
  induction row with
  | nil => rfl
  | cons lit row ih =>
      have hline : line (lit :: row) = mark lit :: line row := rfl
      cases lit with
      | _ => simp [hline, mark, ih]

/-- So has the text. -/
@[simp]
theorem count_text (f : Frame) : f.text.toList.count '#' = f.litCount := by
  have hline : List.count '#' ∘ line = List.count true := funext count_line
  calc f.text.toList.count '#' = (f.rows.map (List.count true)).sum := by
        rw [toList_text, List.count_flatMap, hline]
    _ = f.rows.flatten.count true := List.count_flatten.symm
    _ = f.litCount := by simp [litCount]

/-! ### What is seen of a text -/

/-- The lines of the text, without their newlines. -/
def marks (f : Frame) : List (List Char) :=
  f.rows.map fun row => row.map mark

theorem toList_text_eq_marks (f : Frame) :
    f.text.toList = f.marks.flatMap fun shown => shown ++ ['\n'] := by
  rw [toList_text, marks, List.flatMap_map]
  rfl

/-- What is seen has the width and the height of the screen. -/
@[simp]
theorem map_length_marks (f : Frame) :
    f.marks.map List.length = List.replicate screenHeight screenWidth := by
  have hlength : (List.length ∘ fun row : List Bool => row.map mark) = List.length := by
    funext row
    simp
  simp [marks, hlength]

/-- Where the mark of the cell at these coordinates is found. -/
theorem getElem?_marks (f : Frame) (x y : Nat) :
    f.marks[y % screenHeight]?.bind (fun shown => shown[x % screenWidth]?) =
      some (mark (f.get x y)) := by
  rcases Option.bind_eq_some_iff.1 (f.getElem?_rows x y) with ⟨row, hrow, hcell⟩
  rw [marks, List.getElem?_map, hrow, Option.map_some, Option.bind_some, List.getElem?_map, hcell,
    Option.map_some]

/-! ## Reading back -/

/-- A text is read if it is that of a frame. -/
theorem ofText?_eq_some_iff : ofText? s = some f ↔ s = f.text := by
  constructor
  · intro h
    rcases Option.bind_eq_some_iff.1 h with ⟨rows, hread, hcells⟩
    rcases eq_lines_of_readLines? hread with ⟨hlengths, hchars⟩
    -- the rows that were read are as long as those of the frame, and have the same cells
    have hrows : rows = f.rows := List.eq_iff_flatten_eq.2
      ⟨(ofCells?_eq_some_iff.1 hcells).trans f.flatten_rows.symm,
        hlengths.trans f.map_length_rows.symm⟩
    rw [← String.toList_inj, toList_text, hchars, hrows]
  · rintro rfl
    rw [ofText?, toList_text, readLines?_lines f.map_length_rows, Option.bind_eq_bind,
      Option.bind_some]
    exact ofCells?_eq_some_iff.2 f.flatten_rows

/-- Different frames have different texts. -/
theorem text_inj : g.text = f.text ↔ g = f := by
  constructor
  · intro h
    have hread : ofText? f.text = some g := ofText?_eq_some_iff.2 h.symm
    exact Option.some.inj (hread.symm.trans (ofText?_eq_some_iff.2 rfl))
  · exact congrArg text

/-- The text of a frame is 32 lines of 64 characters, with a mark where a cell is lit and a space
where it is dark. The frame is what is read from this text and from no other. A copy of a live
screen looks as the screen did when it was taken, whatever is done before and later. -/
theorem text_depicts_frame (f : Frame) :
    (∃ lines : List (List Char),
      f.text.toList = lines.flatMap (fun shown => shown ++ ['\n']) ∧
      lines.map List.length = List.replicate 32 64 ∧
      ∀ x y, lines[y % 32]?.bind (fun shown => shown[x % 64]?) =
        some (if f.get x y then '#' else ' ')) ∧
    f.text.toList.count '#' = f.litCount ∧
    (∀ s, ofText? s = some f ↔ s = f.text) ∧
    (∀ g : Frame, g.text = f.text ↔ g = f) ∧
    ∀ before later, ∃ copy,
      (askAll ask f (before ++ .snapshot :: later)).1[before.length]? = some (.copy copy) ∧
      ∀ x y, ((askAll ask f before).2.ask (.get x y)).1 = .lit (copy.get x y) := by
  refine ⟨⟨f.marks, f.toList_text_eq_marks, f.map_length_marks, f.getElem?_marks⟩, f.count_text,
    fun s => ofText?_eq_some_iff, fun g => text_inj, fun before later => ?_⟩
  exact ⟨_, reply_at f before .snapshot later, fun x y => rfl⟩

end Frame
end Chip8
