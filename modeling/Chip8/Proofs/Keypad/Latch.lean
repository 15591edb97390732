import Chip8.Proofs.Interpreter.Keys

/-!
# Latch — the packed keys as a set of keys

The keypad packs its keys into one word and answers two questions by looking at bits: whether a key
is down, and which of those that are down is the least.  Here both are answers about the set of held
keys, which is all that a keypad is: two keypads that hold the same keys are equal.

A key is held after a sequence of writes if the last of those that concern it is a press.
`PressedLast` says so by looking at the writes alone.
-/

namespace Chip8
namespace Keypad

variable {k : Keypad} {key other : UInt8} {pressed : Bool} {w : Write} {ws : List Write}

/-! ## Held keys -/

/-- The numbers of the keys, in ascending order. -/
@[simp]
theorem mem_keys : key ∈ (List.range 16).map UInt8.ofNat ↔ key.toNat < 16 := by
  rw [List.mem_map]
  constructor
  · rintro ⟨n, hn, rfl⟩
    rw [UInt8.toNat_ofNat']
    exact Nat.lt_of_le_of_lt (Nat.mod_le _ _) (List.mem_range.1 hn)
  · intro hkey
    exact ⟨key.toNat, List.mem_range.2 hkey, UInt8.ofNat_toNat⟩

/-- A key is held if it exists and its bit is set. -/
theorem mem_held_iff : key ∈ k.held ↔ key.toNat < 16 ∧ k.isPressed key = true := by
  simp [held, -List.mem_map]

/-- A question about a key is one about a held key, taken modulo sixteen. -/
theorem isPressed_iff_mem_held : k.isPressed key = true ↔ key % 16 ∈ k.held := by
  have hmod : (key % 16).toNat = key.toNat % 16 := UInt8.toNat_mod key 16
  have hlt : key.toNat % 16 < 16 := Nat.mod_lt _ (by decide)
  have hsame : k.isPressed (key % 16) = k.isPressed key := by
    rw [isPressed, isPressed, hmod, Nat.mod_mod]
  rw [mem_held_iff, hmod, hsame]
  exact ⟨fun h => ⟨hlt, h⟩, fun h => h.2⟩

/-- A keypad is known by its held keys. -/
theorem eq_of_mem_held_iff {j : Keypad} (h : ∀ key, key ∈ j.held ↔ key ∈ k.held) : j = k := by
  have hlatch : j.latch = k.latch := by
    -- each bit is what is answered about the key of its place
    refine BitVec.eq_of_getLsbD_eq fun n hn => ?_
    have hplace : (UInt8.ofNat n).toNat % 16 = n := by
      rw [UInt8.toNat_ofNat']
      omega
    have hpressed : j.isPressed (UInt8.ofNat n) = k.isPressed (UInt8.ofNat n) := by
      rw [Bool.eq_iff_iff, isPressed_iff_mem_held, isPressed_iff_mem_held, h]
    rw [isPressed, isPressed, hplace] at hpressed
    exact hpressed
  cases j
  cases k
  exact congrArg Keypad.mk hlatch

/-! ## The least held key -/

/-- The least held key is the first in the list. -/
theorem lowestPressed_eq_head? (k : Keypad) : k.lowestPressed = k.held.head? :=
  List.head?_filter.symm

/-- There is no least held key exactly if none is held. -/
theorem lowestPressed_eq_none_iff : k.lowestPressed = none ↔ k.held = [] := by
  rw [lowestPressed_eq_head?, List.head?_eq_none_iff]

/-- The held keys are listed in ascending order, so the first of them is the least. -/
theorem lowestPressed_eq_some_iff :
    k.lowestPressed = some key ↔ key ∈ k.held ∧ ∀ other ∈ k.held, key ≤ other := by
  have hsorted : k.held.Pairwise (· ≤ ·) := by
    refine List.Pairwise.filter _ ?_
    decide
  rw [lowestPressed_eq_head?]
  cases hheld : k.held with
  | nil => simp
  | cons first rest =>
      rw [hheld, List.pairwise_cons] at hsorted
      have hleast : ∀ other ∈ first :: rest, first ≤ other := by
        intro other hother
        rcases List.mem_cons.1 hother with rfl | hrest
        · exact UInt8.le_refl _
        · exact hsorted.1 other hrest
      rw [List.head?_cons, Option.some_inj]
      constructor
      · rintro rfl
        exact ⟨.head _, hleast⟩
      · rintro ⟨hmem, hle⟩
        exact UInt8.le_antisymm (hleast key hmem) (hle first (.head _))

/-- It is the number of zeros at the end of the word. -/
theorem lowestPressed_eq_ctz (h : k.latch ≠ 0) :
    k.lowestPressed = some (UInt8.ofNat k.latch.ctz.toNat) := by
  have hlt : k.latch.ctz.toNat < 16 := BitVec.ctz_lt_iff_ne_zero.2 h
  have hplace : (UInt8.ofNat k.latch.ctz.toNat).toNat = k.latch.ctz.toNat := by
    rw [UInt8.toNat_ofNat']
    omega
  rw [lowestPressed_eq_some_iff, mem_held_iff, isPressed, hplace, Nat.mod_eq_of_lt hlt]
  refine ⟨⟨hlt, BitVec.getLsbD_true_ctz_of_ne_zero h⟩, fun other hother => ?_⟩
  rcases mem_held_iff.1 hother with ⟨hkey, hpressed⟩
  rw [UInt8.le_iff_toNat_le, hplace]
  -- a held key further down would be a one among the zeros at the end
  refine Nat.le_of_not_lt fun hbelow => ?_
  rw [isPressed, Nat.mod_eq_of_lt hkey, BitVec.getLsbD_false_of_lt_ctz hbelow] at hpressed
  cases hpressed

/-! ## One write -/

/-- The write has a say in whether the key is held. -/
def Write.concerns (key : UInt8) : Write → Bool
  | .set other _ => other == key
  | .releaseAll => true

/-- A write that does not concern a key leaves it as it was. -/
theorem Write.holds_of_not_concerns (h : w.concerns key = false) (held : Bool) :
    w.holds key held = held := by
  cases w with
  | set other pressed =>
      have hne : other ≠ key := by simpa [Write.concerns] using h
      exact if_neg hne
  | releaseAll => cases h

/-- A number above fifteen is the number of no key. -/
theorem write_of_ge (h : 16 ≤ key.toNat) : k.write (.set key pressed) = k := by
  unfold write
  exact if_neg (Nat.not_lt.2 h)

/-- After a write a key is down if the write says so. -/
theorem isPressed_write (hkey : key.toNat < 16) (w : Write) :
    (k.write w).isPressed key = w.holds key (k.isPressed key) := by
  cases w with
  | set other pressed => exact k.isPressed_set hkey other pressed
  | releaseAll => exact isPressed_released key

/-- The keys held after a write. -/
theorem mem_held_write : key ∈ (k.write w).held ↔
    key.toNat < 16 ∧ w.holds key (k.isPressed key) = true := by
  rw [mem_held_iff]
  constructor
  · rintro ⟨hkey, hpressed⟩
    exact ⟨hkey, (isPressed_write hkey w).symm.trans hpressed⟩
  · rintro ⟨hkey, hholds⟩
    exact ⟨hkey, (isPressed_write hkey w).trans hholds⟩

/-- A write leaves the keys alone that it does not concern. -/
theorem mem_held_write_of_not_concerns (h : w.concerns key = false) :
    key ∈ (k.write w).held ↔ key ∈ k.held := by
  rw [mem_held_write, Write.holds_of_not_concerns h, mem_held_iff]

/-- Writes of different keys may change places. -/
theorem write_set_comm {pressed' : Bool} (h : key ≠ other) :
    (k.write (.set key pressed)).write (.set other pressed') =
      (k.write (.set other pressed')).write (.set key pressed) := by
  refine eq_of_mem_held_iff fun q => ?_
  rw [mem_held_write, mem_held_write]
  refine and_congr_right fun hq => ?_
  rw [isPressed_write hq, isPressed_write hq]
  by_cases hkey : key = q
  · -- the other write does not concern this key, on either side
    have hother : other ≠ q := fun heq => h (hkey.trans heq.symm)
    simp only [Write.holds, hkey, hother, ↓reduceIte]
  · simp only [Write.holds, hkey, ↓reduceIte]

/-! ## Sequences of writes -/

def writeAll (k : Keypad) (ws : List Write) : Keypad :=
  ws.foldl write k

@[simp]
theorem writeAll_nil (k : Keypad) : k.writeAll [] = k := rfl

@[simp]
theorem writeAll_cons (k : Keypad) (w : Write) (ws : List Write) :
    k.writeAll (w :: ws) = (k.write w).writeAll ws := rfl

/-- Among the writes that concern the key the last one is a press. -/
def PressedLast (key : UInt8) (ws : List Write) : Prop :=
  ∃ before later, ws = before ++ .set key true :: later ∧ ∀ w ∈ later, w.concerns key = false

/-- Either the first write is the last that concerns the key, or a later one is. -/
theorem pressedLast_cons : PressedLast key (w :: ws) ↔
    (w = .set key true ∧ ∀ w ∈ ws, w.concerns key = false) ∨ PressedLast key ws := by
  constructor
  · rintro ⟨before, later, hsplit, hlater⟩
    rcases List.cons_eq_append_iff.1 hsplit with ⟨-, hcons⟩ | ⟨rest, -, hws⟩
    · rcases List.cons.inj hcons with ⟨hpress, rfl⟩
      exact .inl ⟨hpress.symm, hlater⟩
    · exact .inr ⟨rest, later, hws, hlater⟩
  · rintro (⟨rfl, hlater⟩ | ⟨before, later, rfl, hlater⟩)
    · exact ⟨[], ws, rfl, hlater⟩
    · exact ⟨w :: before, later, rfl, hlater⟩

/-- A key that was held, or not, before the writes. -/
theorem foldl_holds_iff (ws : List Write) (held : Bool) :
    ws.foldl (fun held w => w.holds key held) held = true ↔
      PressedLast key ws ∨ held = true ∧ ∀ w ∈ ws, w.concerns key = false := by
  induction ws generalizing held with
  | nil =>
      have hnever : ¬ PressedLast key [] := by
        rintro ⟨before, later, hsplit, -⟩
        simp at hsplit
      simp [hnever]
  | cons w rest ih =>
      -- what was held before matters only as long as no write has concerned the key
      rw [List.foldl_cons, ih, pressedLast_cons, List.forall_mem_cons]
      cases w with
      | releaseAll => simp [Write.holds, Write.concerns]
      | set other pressed =>
          by_cases heq : other = key
          · cases pressed <;> simp [Write.holds, Write.concerns, heq, or_comm]
          · simp [Write.holds, Write.concerns, heq]

/-- Starting from a released key, it is enough to follow the writes one by one. -/
theorem pressedLast_iff_foldl :
    PressedLast key ws ↔ ws.foldl (fun held w => w.holds key held) false = true := by
  rw [foldl_holds_iff]
  simp

/-- Whether a key is down is followed through the writes. -/
theorem isPressed_writeAll (hkey : key.toNat < 16) (k : Keypad) (ws : List Write) :
    (k.writeAll ws).isPressed key =
      ws.foldl (fun held w => w.holds key held) (k.isPressed key) := by
  induction ws generalizing k with
  | nil => simp
  | cons w rest ih => simp [ih, isPressed_write hkey]

/-- From released keys on, those are held that were pressed last. -/
theorem mem_held_writeAll (key : UInt8) (ws : List Write) :
    key ∈ (released.writeAll ws).held ↔ key.toNat < 16 ∧ PressedLast key ws := by
  rw [mem_held_iff]
  refine and_congr_right fun hkey => ?_
  simp [isPressed_writeAll hkey, pressedLast_iff_foldl]

end Keypad
end Chip8
