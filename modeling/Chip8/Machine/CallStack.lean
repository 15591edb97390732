import Chip8.Fault

/-!
# CallStack — sixteen slots for call sites

The stack is a row of slots and the number of them in use.  Slots at and above `depth` keep what was
stored there last; they are never read.  The view of a stack is `entries`, the call sites in use
with the latest one first.
-/

namespace Chip8

abbrev stackCapacity : Nat := 16

structure CallStack where
  slots : Vector UInt16 stackCapacity
  depth : Nat
  deriving DecidableEq, Repr

namespace CallStack

def empty : CallStack :=
  ⟨Vector.replicate _ 0, 0⟩

def entries (s : CallStack) : List UInt16 :=
  (s.slots.toList.take s.depth).reverse

/-- Put a call site on top; `pc` is for the report of a full stack. -/
def push (s : CallStack) (pc site : UInt16) : Except Stop CallStack :=
  if h : s.depth < stackCapacity then
    .ok { slots := s.slots.set s.depth site h, depth := s.depth + 1 }
  else
    .error (.fault (.stackOverflow pc))

def pop (s : CallStack) (pc : UInt16) : Except Stop (UInt16 × CallStack) :=
  match s.depth with
  | 0 => .error (.fault (.stackUnderflow pc))
  | d + 1 =>
      if h : d < stackCapacity then
        .ok (s.slots.get ⟨d, h⟩, { s with depth := d })
      else
        .error (.breach .corruptStack)

/-! ## Entries after each operation -/

@[simp]
theorem entries_empty : empty.entries = [] := by
  simp [empty, entries]

/-- A successful push puts the call site first among the entries. -/
theorem entries_of_push {s t : CallStack} {pc site : UInt16} (h : s.push pc site = .ok t) :
    s.depth < stackCapacity ∧ t.depth = s.depth + 1 ∧ t.entries = site :: s.entries := by
  unfold push at h
  split at h
  · rename_i hd
    cases h
    have hlen : s.depth < s.slots.toList.length := by simpa using hd
    refine ⟨hd, rfl, ?_⟩
    simp only [entries, Vector.toList_set, List.take_add_one, List.getElem?_set_self hlen,
      List.take_set_of_le (Nat.le_refl s.depth)]
    simp
  · cases h

/-- A successful pop takes the call site from the front of the entries. -/
theorem entries_of_pop {s t : CallStack} {pc site : UInt16} (h : s.pop pc = .ok (site, t)) :
    s.depth = t.depth + 1 ∧ s.entries = site :: t.entries := by
  unfold pop at h
  split at h
  · cases h
  · rename_i d hd
    split at h
    · rename_i hc
      cases h
      have hlen : d < s.slots.toList.length := by simpa using hc
      refine ⟨hd, ?_⟩
      simp only [entries, hd, List.take_add_one, List.getElem?_eq_getElem hlen]
      simp [Vector.get]
    · cases h

end CallStack
end Chip8
