import Chip8.Proofs.Interpreter.History

/-!
# Keys — which keys are held after a history

Two kinds of operations decide whether a key is held: writes of the keypad from outside, and a
reset, which releases all keys.  No instruction, no tick and no load has a say in it.

Main statement: `Leads.isPressed`.
-/

namespace Chip8

variable {key : UInt8}

/-! ## Writes -/

namespace Keypad

/-- A write decides about its own key, and about no other. -/
theorem isPressed_set (k : Keypad) (hkey : key.toNat < 16) (other : UInt8) (pressed : Bool) :
    (k.write (.set other pressed)).isPressed key =
      if other = key then pressed else k.isPressed key := by
  have hplace : key.toNat % 16 = key.toNat := Nat.mod_eq_of_lt hkey
  have hsame : key.toNat = other.toNat ↔ other = key :=
    ⟨fun h => (UInt8.toNat.inj h).symm, fun h => by rw [h]⟩
  unfold write
  by_cases hother : other.toNat < 16
  · cases pressed with
    | true =>
        simp only [hother, ↓reduceIte, isPressed_press _ hother, hplace, hsame]
        by_cases heq : other = key <;> simp [heq]
    | false =>
        simp only [hother, ↓reduceIte, Bool.false_eq_true, isPressed_release, hplace, hsame]
        by_cases heq : other = key <;> simp [heq]
  · -- a number above fifteen is none of the keys
    have hne : other ≠ key := by
      intro heq
      rw [heq] at hother
      exact hother hkey
    simp only [hother, hne, ↓reduceIte]

end Keypad

/-! ## Operations -/

/-- Whether a key is held after a write, by whether it was before it. -/
def Keypad.Write.holds (key : UInt8) (held : Bool) : Keypad.Write → Bool
  | .set other pressed => if other = key then pressed else held
  | .releaseAll => false

def Operation.holds (key : UInt8) (held : Bool) : Operation → Bool
  | .writeKeypad w => w.holds key held
  | .reset => false
  | .step | .execute _ | .executeMany _ | .tick | .load _ | .takeFrame | .takeBeep => held

@[simp]
theorem Keypad.Write.holds_press (held : Bool) :
    (Keypad.Write.set key true).holds key held = true :=
  if_pos rfl

@[simp]
theorem Operation.holds_writeKeypad (held : Bool) (w : Keypad.Write) :
    (Operation.writeKeypad w).holds key held = w.holds key held := rfl

@[simp]
theorem Operation.holds_reset (held : Bool) : Operation.reset.holds key held = false := rfl

/-- Whether a key is held after operations, by whether it was before them. -/
def heldAfter (key : UInt8) (held : Bool) (ops : List Operation) : Bool :=
  ops.foldl (Operation.holds key) held

@[simp]
theorem heldAfter_concat (held : Bool) (ops : List Operation) (op : Operation) :
    heldAfter key held (ops ++ [op]) = op.holds key (heldAfter key held ops) :=
  List.foldl_append

/-- After a press only what comes later matters. -/
@[simp]
theorem heldAfter_press (key : UInt8) (held : Bool) (ops later : List Operation) :
    heldAfter key held (ops ++ .writeKeypad (.set key true) :: later) =
      heldAfter key true later := by
  simp [heldAfter]

namespace Interpreter

variable {s t : Interpreter} {op : Operation} {r : Response} {ops : List Operation}

/-- No instruction changes the keypad. -/
@[simp]
theorem keypad_effects (s : Interpreter) (program : List Instruction) :
    (s.effects program).machine.keypad = s.machine.keypad := by
  induction program generalizing s with
  | nil => rfl
  | cons i rest ih => exact ih (s.effect i)

/-- One operation decides about a key as `Operation.holds` says. -/
theorem isPressed_of_apply (hkey : key.toNat < 16) (h : s.apply op = .ok (r, t)) :
    t.machine.keypad.isPressed key = op.holds key (s.machine.keypad.isPressed key) := by
  cases apply_outcome h with
  | ran o runState hexecutes hnext =>
      have hkeypad : o.next.machine.keypad = s.machine.keypad := by
        rw [hnext]
        exact s.keypad_effects _
      rw [hkeypad]
      cases op with
      | step | execute | executeMany => rfl
      | _ => cases hexecutes
  | @polled x =>
      rcases s.polled_keeps x with ⟨registers, pc, runState, hpolled⟩
      rw [hpolled]
      rfl
  | load program o memory hnext =>
      rw [hnext]
      rfl
  | reset => exact Keypad.isPressed_released key
  | tick | takeFrame | takeBeep => rfl
  | writeKeypad w =>
      cases w with
      | set other pressed => exact s.machine.keypad.isPressed_set hkey other pressed
      | releaseAll => exact Keypad.isPressed_released key

/-- The operations decide which keys are held. -/
theorem Leads.isPressed (h : s.Leads ops t) (hkey : key.toNat < 16) :
    t.machine.keypad.isPressed key = heldAfter key (s.machine.keypad.isPressed key) ops := by
  rcases h with ⟨responses, hall⟩
  refine applyAll_induction (I := fun ops _ t => t.machine.keypad.isPressed key =
    heldAfter key (s.machine.keypad.isPressed key) ops) rfl ?_ hall
  intro ops rs u op r t _ hbefore happly
  rw [isPressed_of_apply hkey happly, hbefore, heldAfter_concat]

end Interpreter

/-! ## Keys that are not released -/

/-- The operation releases a key on purpose. -/
def Operation.Releases (key : UInt8) (op : Operation) : Prop :=
  op = .writeKeypad (.set key false) ∨ op = .writeKeypad .releaseAll

/-- The key was pressed, and no reset came after that. -/
def PressedSince (key : UInt8) (ops : List Operation) : Prop :=
  ∃ before later, ops = before ++ .writeKeypad (.set key true) :: later ∧ .reset ∉ later

/-- An operation that is no press keeps what was pressed, unless it is a reset. -/
theorem pressedSince_concat {ops : List Operation} {op : Operation}
    (hop : op ≠ .writeKeypad (.set key true)) :
    PressedSince key (ops ++ [op]) ↔ PressedSince key ops ∧ op ≠ .reset := by
  constructor
  · rintro ⟨before, later, hsplit, hreset⟩
    rcases Interpreter.place_in_concat hsplit with ⟨-, heq, -⟩ | ⟨rest, rfl, hops⟩
    · exact absurd heq.symm hop
    · rw [List.mem_append, not_or, List.mem_singleton] at hreset
      exact ⟨⟨before, rest, hops, hreset.1⟩, fun h => hreset.2 h.symm⟩
  · rintro ⟨⟨before, later, rfl, hlater⟩, hreset⟩
    refine ⟨before, later ++ [op], by simp, ?_⟩
    rw [List.mem_append, not_or, List.mem_singleton]
    exact ⟨hlater, fun h => hreset h.symm⟩

/-- A key that nobody releases is lost by a reset only, and is back once it is pressed again. -/
theorem heldAfter_iff {ops : List Operation} (hrelease : ∀ op ∈ ops, ¬ op.Releases key)
    (held : Bool) :
    heldAfter key held ops = true ↔
      held = true ∧ .reset ∉ ops ∨ PressedSince key ops := by
  induction ops using List.reverseRecOn with
  | nil =>
      have hnever : ¬ PressedSince key [] := by
        rintro ⟨before, later, hsplit, -⟩
        simp at hsplit
      simp [heldAfter, hnever]
  | append_singleton ops op ih =>
      have hbefore := ih fun op hop => hrelease op (List.mem_append_left _ hop)
      have hop : ¬ op.Releases key := hrelease op (List.mem_append_right _ (.head _))
      have hneutral (hkeeps : op.holds key (heldAfter key held ops) = heldAfter key held ops)
          (hpress : op ≠ .writeKeypad (.set key true)) (hreset : op ≠ .reset) :
          heldAfter key held (ops ++ [op]) = true ↔
            held = true ∧ .reset ∉ ops ++ [op] ∨ PressedSince key (ops ++ [op]) := by
        rw [heldAfter_concat, hkeeps, hbefore, pressedSince_concat hpress, List.mem_append,
          List.mem_singleton]
        simp [hreset, Ne.symm hreset]
      cases op with
      | reset =>
          have hnever : ¬ PressedSince key (ops ++ [.reset]) := by
            rw [pressedSince_concat (by simp)]
            exact fun h => h.2 rfl
          simp [hnever]
      | writeKeypad w =>
          cases w with
          | releaseAll => exact absurd (.inr rfl) hop
          | set other pressed =>
              by_cases heq : other = key
              · subst heq
                cases pressed with
                | false => exact absurd (.inl rfl) hop
                | true =>
                    have hpressed : PressedSince other (ops ++ [.writeKeypad (.set other true)]) :=
                      ⟨ops, [], rfl, List.not_mem_nil⟩
                    simp [hpressed]
              · exact hneutral (if_neg heq) (by simp [heq]) (by simp)
      -- whatever else the operation is, it has no say in this key
      | _ => exact hneutral rfl (by simp) (by simp)

end Chip8
