/-!
# Devices — keypad, keyboard and timers

The keypad packs its sixteen keys into a word, bit `k` for key `k`.  It is changed by
`Keypad.Write`s only, which come from outside the machine; the machine reads it with `isPressed`
and `lowestPressed`.  The view of a keypad is the list `held` of its keys.  The hexadecimal digits
of a keyboard stand for its keys, in either case.

The delay and the sound timer count down to zero, once per tick.  The tick on which the sound timer
leaves one is the moment to beep.
-/

namespace Chip8

/-! ## Keypad -/

structure Keypad where
  -- one bit for each key
  latch : BitVec 16
  deriving DecidableEq, Repr

namespace Keypad

def released : Keypad :=
  ⟨0⟩

/-! ### Reading -/

/-- Whether the key `key` modulo sixteen is down. -/
def isPressed (k : Keypad) (key : UInt8) : Bool :=
  k.latch.getLsbD (key.toNat % 16)

/-- The keys that are down, in ascending order. -/
def held (k : Keypad) : List UInt8 :=
  ((List.range 16).map UInt8.ofNat).filter k.isPressed

def lowestPressed (k : Keypad) : Option UInt8 :=
  ((List.range 16).map UInt8.ofNat).find? k.isPressed

/-! ### Writing -/

/-- A change of the keypad from outside. -/
inductive Write where
  | set (key : UInt8) (pressed : Bool)
  | releaseAll
  deriving DecidableEq, Repr

def press (k : Keypad) (key : Nat) : Keypad :=
  ⟨k.latch ||| BitVec.twoPow 16 key⟩

def release (k : Keypad) (key : Nat) : Keypad :=
  ⟨k.latch &&& ~~~(BitVec.twoPow 16 key)⟩

def write (k : Keypad) : Write → Keypad
  | .set key pressed =>
      -- a key number above fifteen is ignored
      if key.toNat < 16 then
        if pressed then k.press key.toNat else k.release key.toNat
      else k
  | .releaseAll => released

/-! ### Keys after each operation -/

/-- No key of a released keypad is down. -/
@[simp]
theorem isPressed_released (q : UInt8) : released.isPressed q = false := by
  simp [released, isPressed]

/-- A press puts one key down and leaves the others. -/
@[simp]
theorem isPressed_press (k : Keypad) {key : Nat} (h : key < 16) (q : UInt8) :
    (k.press key).isPressed q = (k.isPressed q || decide (q.toNat % 16 = key)) := by
  simp [press, isPressed, BitVec.getLsbD_twoPow, h, eq_comm]

/-- A release lifts one key and leaves the others. -/
@[simp]
theorem isPressed_release (k : Keypad) (key : Nat) (q : UInt8) :
    (k.release key).isPressed q = (k.isPressed q && !decide (q.toNat % 16 = key)) := by
  have hq : q.toNat % 16 < 16 := Nat.mod_lt _ (by decide)
  simp [release, isPressed, hq, eq_comm]

end Keypad

/-! ## Keyboard -/

inductive KeyCode where
  | char (c : Char)
  | function (number : Nat)
  | enter
  | escape
  | backspace
  | tab
  | delete
  | null
  deriving DecidableEq, Repr

namespace KeyCode

def digitValue? (c : Char) : Option Nat :=
  let code := c.toNat
  if 48 ≤ code ∧ code ≤ 57 then some (code - 48)
  else if 97 ≤ code ∧ code ≤ 102 then some (code - 97 + 10)
  else if 65 ≤ code ∧ code ≤ 70 then some (code - 65 + 10)
  else none

/-- The key of the keypad that a key of the keyboard stands for. -/
def keypadKey? : KeyCode → Option UInt8
  | char c => (digitValue? c).map UInt8.ofNat
  | _ => none

end KeyCode

/-! ## Timers -/

structure Timers where
  delay : UInt8
  sound : UInt8
  deriving DecidableEq, Repr

namespace Timers

def zero : Timers :=
  ⟨0, 0⟩

def countDown (n : UInt8) : UInt8 :=
  if n = 0 then 0 else n - 1

/-- A count goes down by one, but not below zero. -/
@[simp]
theorem toNat_countDown (n : UInt8) : (countDown n).toNat = n.toNat - 1 := by
  unfold countDown
  split
  · rename_i h
    simp [h]
  · rename_i h
    have hpos : n.toNat ≠ 0 := fun h0 => h (UInt8.toNat.inj h0)
    rw [UInt8.toNat_sub_of_le]
    · rfl
    · exact UInt8.le_iff_toNat_le.2 (Nat.one_le_iff_ne_zero.2 hpos)

def tick (t : Timers) : Timers :=
  ⟨countDown t.delay, countDown t.sound⟩

/-- Whether the next tick beeps. -/
def beeps (t : Timers) : Bool :=
  t.sound == 1

end Timers
end Chip8
