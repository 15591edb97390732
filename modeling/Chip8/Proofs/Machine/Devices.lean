import Chip8.Machine.Basic

/-!
# Devices — what a machine shares with the outside

The timers run down and the keys move while a program runs.  Most of what instructions ask of a
machine is `Blind`: the answer is the same whatever the timers and the keypad are.  Most of what
they change is `Inert`: the change is the same, it is refused in the same cases, and timers and
keypad are after it what they were before it.

Only the conditions of two skips look at the keypad; all other questions and changes have a lemma
here.
-/

namespace Chip8

def Condition.readsKeypad : Condition → Bool
  | .keyDown _ | .keyUp _ => true
  | _ => false

namespace Machine

def withDevices (m : Machine) (timers : Timers) (keypad : Keypad) : Machine :=
  { m with timers, keypad }

/-- A question whose answer does not depend on timers and keypad. -/
def Blind {α : Type} (question : Machine → α) : Prop :=
  ∀ m timers keypad, question (m.withDevices timers keypad) = question m

/-- A change that does not depend on timers and keypad, and leaves them alone. -/
def Inert (change : Machine → Except Stop Machine) : Prop :=
  ∀ m timers keypad,
    change (m.withDevices timers keypad) = (change m).map fun n => n.withDevices timers keypad

/-- An inert change leaves the devices as they are. -/
theorem Inert.keeps {change : Machine → Except Stop Machine} (h : Inert change) {m n : Machine}
    (hn : change m = .ok n) : n.timers = m.timers ∧ n.keypad = m.keypad := by
  have hsame : change m = .ok (n.withDevices m.timers m.keypad) := by
    calc change m = change (m.withDevices m.timers m.keypad) := rfl
      _ = (change m).map fun n => n.withDevices m.timers m.keypad := h m _ _
      _ = .ok (n.withDevices m.timers m.keypad) := by rw [hn]; rfl
  have hself : n = n.withDevices m.timers m.keypad := Except.ok.inj (hn.symm.trans hsame)
  rw [hself]
  exact ⟨rfl, rfl⟩

/-! ## Questions -/

/-- The bytes at the index register do not depend on the devices. -/
theorem blind_slice (count : Nat) : Blind fun m => m.slice m.index.toNat count := by
  intro m timers keypad
  rfl

theorem blind_register (number : Nat) : Blind fun m => m.register number := by
  intro m timers keypad
  rfl

theorem blind_firstRegisters (count : Nat) : Blind fun m => m.firstRegisters count := by
  intro m timers keypad
  rfl

/-- Nor does the instruction at the program counter. -/
theorem blind_nextInstruction : Blind nextInstruction := by
  intro m timers keypad
  rfl

/-- Only a condition on a key depends on the keypad. -/
theorem blind_holds {c : Condition} (h : c.readsKeypad = false) : Blind fun m => m.holds c := by
  intro m timers keypad
  cases c with
  | keyDown | keyUp => cases h
  | _ => rfl

/-- No condition depends on the timers. -/
@[simp]
theorem holds_withTimers (m : Machine) (timers : Timers) (c : Condition) :
    (m.withDevices timers m.keypad).holds c = m.holds c := by
  cases c with
  | _ => rfl

/-! ## Changes -/

/-- Moving the program counter forward does not depend on the devices. -/
theorem inert_advance (bytes : Nat) : Inert fun m => m.advance bytes := by
  intro m timers keypad
  show (checkedWord (m.pc.toNat + bytes) >>= _) = Except.map _ (checkedWord _ >>= _)
  cases checkedWord (m.pc.toNat + bytes) with
  | error stop => rfl
  | ok pc => rfl

/-- Nor does putting a call site on the stack. -/
theorem inert_push : Inert fun m => m.push m.pc := by
  intro m timers keypad
  show (m.stack.push m.pc m.pc >>= _) = Except.map _ (m.stack.push m.pc m.pc >>= _)
  cases m.stack.push m.pc m.pc with
  | error stop => rfl
  | ok stack => rfl

theorem inert_setRegister (number : Nat) (value : UInt8) :
    Inert fun m => m.setRegister number value := by
  intro m timers keypad
  simp only [setRegister]
  split <;> rfl

theorem inert_write (offset : Nat) (value : UInt8) :
    Inert fun m => m.write (m.index.toNat + offset) value := by
  intro m timers keypad
  show (m.withDevices timers keypad).write (m.index.toNat + offset) value = _
  simp only [write]
  split <;> rfl

theorem inert_store (bytes : List UInt8) : Inert fun m => m.store m.index.toNat bytes := by
  intro m timers keypad
  show (m.withDevices timers keypad).store m.index.toNat bytes = _
  simp only [store]
  split <;> rfl

theorem inert_setFirstRegisters (values : List UInt8) :
    Inert fun m => m.setFirstRegisters values := by
  intro m timers keypad
  simp only [setFirstRegisters]
  split <;> rfl

/-- A jump looks at V0 and at the limit of memory only. -/
theorem inert_jumpOffset (base : UInt16) : Inert fun m => m.jumpOffset base := by
  intro m timers keypad
  show (if base.toNat + m.registers[0].toNat < memorySize then _ else _) = _
  simp only [jumpOffset]
  split <;> rfl

/-- The flag and the result, after both operands were read. -/
theorem inert_writeResult (op : AluOp) (x vx vy : UInt8) :
    Inert fun m => (match op.flag? vx vy with
      | some flag => m.setFlag flag
      | none => m).setRegister x.toNat (op.result vx vy) := by
  intro m timers keypad
  cases op.flag? vx vy with
  | none => exact inert_setRegister x.toNat _ m timers keypad
  | some flag => exact inert_setRegister x.toNat _ (m.setFlag flag) timers keypad

/-- An operation on two registers does not depend on the devices. -/
theorem inert_operate (op : AluOp) (x y : UInt8) : Inert fun m => m.operate op x y := by
  intro m timers keypad
  have hvx : (m.withDevices timers keypad).register x.toNat = m.register x.toNat := rfl
  have hvy : (m.withDevices timers keypad).register y.toNat = m.register y.toNat := rfl
  simp only [operate, hvx, hvy]
  cases m.register x.toNat with
  | error stop => rfl
  | ok vx =>
      -- the second register is read only by some of the operations
      cases op.readsSecond with
      | false => exact inert_writeResult op x vx 0 m timers keypad
      | true =>
          cases m.register y.toNat with
          | error stop => rfl
          | ok vy => exact inert_writeResult op x vx vy m timers keypad

/-- Taking a call site off the stack is the same change with an answer. -/
theorem pop_withDevices (m : Machine) (timers : Timers) (keypad : Keypad) :
    (m.withDevices timers keypad).pop =
      m.pop.map fun answer => (answer.1, answer.2.withDevices timers keypad) := by
  show (m.stack.pop m.pc >>= _) = Except.map _ (m.stack.pop m.pc >>= _)
  cases m.stack.pop m.pc with
  | error stop => rfl
  | ok answer => rfl

/-- A call site taken off the stack leaves the devices as they are. -/
theorem keeps_of_pop {m n : Machine} {site : UInt16} (h : m.pop = .ok (site, n)) :
    n.timers = m.timers ∧ n.keypad = m.keypad := by
  unfold pop at h
  cases hpop : m.stack.pop m.pc with
  | error stop =>
      rw [hpop] at h
      cases h
  | ok answer =>
      rw [hpop] at h
      cases h
      exact ⟨rfl, rfl⟩

/-! ## Programs -/

/-- A program is copied alike whatever the devices are. -/
theorem load_withDevices (m : Machine) (program : List UInt8) (timers : Timers) (keypad : Keypad) :
    (m.withDevices timers keypad).load program =
      (m.load program).map fun n => n.withDevices timers keypad := by
  simp only [load]
  split <;> rfl

/-- A copied program leaves the devices as they are. -/
theorem keeps_of_load {m n : Machine} {program : List UInt8} (h : m.load program = .ok n) :
    n.timers = m.timers ∧ n.keypad = m.keypad := by
  simp only [load] at h
  split at h
  · cases h
  · cases h
    exact ⟨rfl, rfl⟩

end Machine
end Chip8
