import Chip8.Interpreter.Perform
import Chip8.Proofs.Machine.Effect

/-!
# Performing — an instruction either happens or does not

`Ends` describes how a piece of work comes to its end: with an answer in a new state, refused by a
fault *in the state it began with*, or broken down, which takes an unsound beginning.  Two rules put
pieces together: what follows a change must not be refused, and what may be refused must only follow
questions.  Every row of the opcode table is of that form, which is `performed`.
-/

namespace Chip8
namespace Interpreter

open Chip8.Interpreter.Action

variable {α β : Type} {s t u : Interpreter}

/-! ## Ends of a piece of work -/

/-- The second piece of work begins where the first one ended. -/
theorem Action.bind_apply (a : Action α) (k : α → Action β) (s : Interpreter) :
    (a >>= k) s = match a s with
      | .ok x t => k x t
      | .error stop t => .error stop t := by
  change EStateM.bind a k s = _
  unfold EStateM.bind
  cases a s with
  | ok x t => rfl
  | error stop t => rfl

/-- How work that began at `s` ends: it answers `x` and leaves `t`, or it is refused by `fault?` and
leaves `s`, or it breaks down although it is not `Sound`. -/
inductive Ends (s : Interpreter) (Sound : Prop) (fault? : Option Fault) (x : α) (t : Interpreter) :
    EStateM.Result Stop Interpreter α → Prop where
  | done : fault? = none → Ends s Sound fault? x t (.ok x t)
  | refused {f : Fault} : fault? = some f → Ends s Sound fault? x t (.error (.fault f) s)
  | broken {b : Breach} {left : Interpreter} : ¬ Sound →
      Ends s Sound fault? x t (.error (.breach b) left)

namespace Ends

variable {P Q : Prop} {fault? g? : Option Fault} {x : α} {y : β}
  {r : EStateM.Result Stop Interpreter α}

/-- The description of an end may be replaced by an equal one that asks for more. -/
theorem conv {t' : Interpreter} (h : Ends s P fault? x t r) (hP : Q → P) (hf : fault? = g?)
    (ht : t = t') : Ends s Q g? x t' r := by
  subst hf ht
  cases h with
  | done hnone => exact .done hnone
  | refused hsome => exact .refused hsome
  | broken hn => exact .broken fun hq => hn (hP hq)

/-- Work that may be refused, and then work that is not refused any more. -/
theorem andThen {a : Action α} {k : α → Action β} (ha : Ends s P fault? x t (a s))
    (hk : fault? = none → Ends t Q none y u (k x t)) :
    Ends s (P ∧ Q) fault? y u ((a >>= k) s) := by
  rw [bind_apply]
  generalize a s = ra at ha
  cases ha with
  | done hnone =>
      have hrest := hk hnone
      change Ends s (P ∧ Q) fault? y u (k x t)
      generalize k x t = rk at hrest
      cases hrest with
      | done _ => exact .done hnone
      | refused hsome => cases hsome
      | broken hn => exact .broken fun h => hn h.2
  | refused hsome => exact .refused hsome
  | broken hn => exact .broken fun h => hn h.1

/-- A question that is always answered, and then work that may be refused. -/
theorem asking {a : Action α} {k : α → Action β} (ha : Ends s P none x s (a s))
    (hk : Ends s Q fault? y u (k x s)) :
    Ends s (P ∧ Q) fault? y u ((a >>= k) s) := by
  rw [bind_apply]
  generalize a s = ra at ha
  cases ha with
  | done _ =>
      change Ends s (P ∧ Q) fault? y u (k x s)
      generalize k x s = rk at hk
      cases hk with
      | done hnone => exact .done hnone
      | refused hsome => exact .refused hsome
      | broken hn => exact .broken fun h => hn h.2
  | refused hsome => cases hsome
  | broken hn => exact .broken fun h => hn h.1

/-- Sound work that is not refused is done. -/
theorem eq_ok (h : Ends s P fault? x t r) (hP : P) (hf : fault? = none) : r = .ok x t := by
  cases h with
  | done _ => rfl
  | refused hsome =>
      rw [hf] at hsome
      cases hsome
  | broken hn => exact absurd hP hn

/-- Sound work that is refused changes nothing. -/
theorem eq_error (h : Ends s P fault? x t r) (hP : P) {f : Fault} (hf : fault? = some f) :
    r = .error (.fault f) s := by
  cases h with
  | done hnone =>
      rw [hf] at hnone
      cases hnone
  | refused hsome =>
      rw [hf] at hsome
      cases hsome
      rfl
  | broken hn => exact absurd hP hn

end Ends

/-! ## Ends of questions and changes -/

/-- A look at the machine is always answered. -/
theorem look_ends (view : Machine → α) (s : Interpreter) :
    Ends s True none (view s.machine) s (look view s) :=
  .done rfl

/-- An update is never refused. -/
theorem update_ends (f : Machine → Machine) (s : Interpreter) :
    Ends s True none () { s with machine := f s.machine } (update f s) :=
  .done rfl

theorem jump_ends (target : UInt16) (s : Interpreter) :
    Ends s True none () { s with machine := { s.machine with pc := target } } (jump target s) :=
  .done rfl

theorem markFrame_ends (s : Interpreter) :
    Ends s True none () { s with frameDirty := true } (markFrame s) :=
  .done rfl

theorem drawByte_ends (s : Interpreter) :
    Ends s True none s.generator.peek { s with generator := s.generator.advance } (drawByte s) :=
  .done rfl

theorem enter_ends (runState : RunState) (s : Interpreter) :
    Ends s True none () { s with runState } (enter runState s) :=
  .done rfl

theorem blit_ends (cells : List Cell) (s : Interpreter) :
    Ends s True none (s.machine.screen.blit cells).2
      { s with machine := { s.machine with screen := (s.machine.screen.blit cells).1 } }
      (blit cells s) :=
  .done rfl

/-- A register is read if there is one of that number. -/
theorem register_ends (x : UInt8) (s : Interpreter) :
    Ends s (x.toNat < registerCount) none (s.machine.value x) s (register x s) := by
  by_cases h : x.toNat < registerCount
  · simp only [register, ask, Machine.register_of_lt h]
    exact .done rfl
  · simp only [register, ask, Machine.register_of_ge h]
    exact .broken h

/-- A register is set if there is one of that number. -/
theorem setRegister_ends (x v : UInt8) (s : Interpreter) :
    Ends s (x.toNat < registerCount) none ()
      { s with machine := { s.machine with
          registers := s.machine.registers.setIfInBounds x.toNat v } }
      (setRegister x v s) := by
  by_cases h : x.toNat < registerCount
  · simp only [setRegister, change, Machine.setRegister_of_lt h]
    exact .done rfl
  · simp only [setRegister, change, Machine.setRegister_of_ge h]
    exact .broken h

/-- A number that fits sixteen bits is taken as it is. -/
theorem checkedWord_ends (n : Machine → Nat) (s : Interpreter) :
    Ends s (n s.machine < 0x10000) none (UInt16.ofNat (n s.machine)) s
      (ask (fun m => Machine.checkedWord (n m)) s) := by
  by_cases h : n s.machine < 0x10000
  · simp only [ask, Machine.checkedWord_of_lt h]
    exact .done rfl
  · simp only [ask, Machine.checkedWord_of_ge h]
    exact .broken h

/-- The program counter moves on as long as it stays below 0x10000. -/
theorem advance_ends (bytes : Nat) (s : Interpreter) :
    Ends s (s.machine.pc.toNat + bytes < 0x10000) none ()
      { s with machine := { s.machine with pc := UInt16.ofNat (s.machine.pc.toNat + bytes) } }
      (advance bytes s) := by
  by_cases h : s.machine.pc.toNat + bytes < 0x10000
  · simp only [advance, change, Machine.advance, Machine.checkedWord_of_lt h]
    exact .done rfl
  · simp only [advance, change, Machine.advance, Machine.checkedWord_of_ge h]
    exact .broken h

/-- Bytes are read at the index, or refused for the first that is out of range. -/
theorem sliceAtIndex_ends (count : Nat) (s : Interpreter) :
    Ends s True (s.machine.rangeFault? s.machine.index.toNat count)
      (s.machine.bytesAt s.machine.index.toNat count) s (sliceAtIndex count s) := by
  simp only [sliceAtIndex, ask, Machine.slice_eq]
  cases hf : s.machine.rangeFault? s.machine.index.toNat count with
  | none => exact .done rfl
  | some f => exact .refused rfl

/-- A byte is stored without a fault once its place has been checked. -/
theorem writeAtIndex_ends {offset : Nat} (value : UInt8)
    (h : s.machine.index.toNat + offset < memorySize) :
    Ends s True none ()
      { s with machine := { s.machine with
          memory := s.machine.memory.setIfInBounds (s.machine.index.toNat + offset) value } }
      (writeAtIndex offset value s) := by
  simp only [writeAtIndex, change, Machine.write, h, ↓reduceDIte, Overlay.set_eq_setIfInBounds]
  exact .done rfl

theorem firstRegisters_ends (count : Nat) (s : Interpreter) :
    Ends s (count ≤ registerCount) none (s.machine.registers.toList.take count) s
      (ask (fun m => m.firstRegisters count) s) := by
  by_cases h : count ≤ registerCount
  · simp only [ask, Machine.firstRegisters, if_pos h]
    exact .done rfl
  · simp only [ask, Machine.firstRegisters, if_neg h]
    exact .broken h

/-- Bytes that fit are stored without a fault. -/
theorem store_ends {bytes : List UInt8} (h : s.machine.index.toNat + bytes.length ≤ memorySize) :
    Ends s True none ()
      { s with machine := { s.machine with
          memory := overlay s.machine.memory s.machine.index.toNat bytes } }
      (change (fun m => m.store m.index.toNat bytes) s) := by
  simp only [change, Machine.store, h, ↓reduceIte]
  exact .done rfl

theorem setFirstRegisters_ends (values : List UInt8) (s : Interpreter) :
    Ends s (values.length ≤ registerCount) none ()
      { s with machine := { s.machine with registers := overlay s.machine.registers 0 values } }
      (change (fun m => m.setFirstRegisters values) s) := by
  by_cases h : values.length ≤ registerCount
  · simp only [change, Machine.setFirstRegisters, if_pos h]
    exact .done rfl
  · simp only [change, Machine.setFirstRegisters, if_neg h]
    exact .broken h

/-- A condition is decided if the registers that it names exist. -/
theorem holds_ends (c : Condition) (s : Interpreter) :
    Ends s (∀ x ∈ c.registers, x.toNat < registerCount) none (s.machine.meets c) s
      (ask (fun m => m.holds c) s) := by
  by_cases h : ∀ x ∈ c.registers, x.toNat < registerCount
  · simp only [ask, Machine.holds_eq h]
    exact .done rfl
  · rcases Machine.holds_eq_error (m := s.machine) h with ⟨b, hb⟩
    simp only [ask, hb]
    exact .broken h

/-- An arithmetic instruction works if the registers that it reads exist. -/
theorem operate_ends (op : AluOp) (x y : UInt8) (s : Interpreter) :
    Ends s (x.toNat < registerCount ∧ (op.readsSecond = true → y.toNat < registerCount)) none ()
      { s with machine := { s.machine with registers := s.machine.aluRegisters op x y } }
      (change (fun m => m.operate op x y) s) := by
  by_cases h : x.toNat < registerCount ∧ (op.readsSecond = true → y.toNat < registerCount)
  · simp only [change, Machine.operate_eq h.1 h.2]
    exact .done rfl
  · rcases Machine.operate_eq_error (m := s.machine) h with ⟨b, hb⟩
    simp only [change, hb]
    exact .broken h

/-- A jump by an offset is refused outside memory. -/
theorem jumpOffset_ends (base : UInt16) (s : Interpreter) :
    Ends s True (s.machine.fault? (.jumpOffset base)) ()
      { s with machine := { s.machine with
          pc := UInt16.ofNat (base.toNat + (s.machine.value 0).toNat) } }
      (change (fun m => m.jumpOffset base) s) := by
  simp only [change, Machine.jumpOffset, ← Machine.value_zero, Machine.fault?]
  by_cases h : base.toNat + (s.machine.value 0).toNat < memorySize
  · simp only [if_pos h]
    exact .done rfl
  · simp only [if_neg h]
    exact .refused rfl

/-- A call is refused on a full stack. -/
theorem push_ends (target : UInt16) (s : Interpreter) :
    Ends s True (s.machine.fault? (.call target)) ()
      { s with machine := { s.machine with stack := s.machine.stackAfter (.call target) } }
      (change (fun m => m.push m.pc) s) := by
  simp only [change, Machine.push, Machine.fault?]
  by_cases h : s.machine.stack.depth < stackCapacity
  · rw [CallStack.push_of_lt h, if_pos h]
    exact .done rfl
  · rw [CallStack.push_of_ge h, if_neg h]
    exact .refused rfl

/-- A return is refused on an empty stack. -/
theorem popSite_ends (s : Interpreter) :
    Ends s (s.machine.stack.depth ≤ stackCapacity) (s.machine.fault? .ret) s.machine.stack.top
      { s with machine := { s.machine with stack := s.machine.stackAfter .ret } } (popSite s) := by
  simp only [popSite, Machine.pop, Machine.fault?]
  by_cases hzero : s.machine.stack.depth = 0
  · rw [CallStack.pop_of_zero hzero, if_pos hzero]
    exact .refused rfl
  · rw [if_neg hzero]
    by_cases hle : s.machine.stack.depth ≤ stackCapacity
    · rw [CallStack.pop_of_pos hzero hle]
      exact .done rfl
    · rw [CallStack.pop_of_gt hle]
      exact .broken hle

/-! ## The opcode table -/

/-- Every instruction has the effect that `Interpreter.effect` describes, or is refused with nothing
changed, or breaks down where the machine does not admit it. -/
theorem performed (s : Interpreter) (i : Instruction) :
    Ends s (s.machine.Admits i) (s.machine.fault? i) () (s.effect i) (perform i s) := by
  cases i with
  | clearScreen =>
      refine .conv ((update_ends _ s).andThen fun _ => (markFrame_ends _).andThen fun _ =>
        advance_ends 2 _) ?_ rfl rfl
      intro h
      exact ⟨trivial, trivial, h.numbersFit⟩
  | ret =>
      refine .conv ((popSite_ends s).andThen fun _ =>
        (checkedWord_ends (fun _ => s.machine.stack.top.toNat + 2) _).andThen fun _ =>
        jump_ends _ _) ?_ rfl rfl
      intro h
      exact ⟨h.numbersFit.1, h.numbersFit.2, trivial⟩
  | jump target =>
      exact .conv (jump_ends target s) (fun _ => trivial) rfl rfl
  | call target =>
      refine .conv ((push_ends target s).andThen fun _ => jump_ends target _) ?_ rfl rfl
      intro _
      exact ⟨trivial, trivial⟩
  | skip c =>
      refine .conv ((holds_ends c s).andThen fun _ => advance_ends _ _) ?_ rfl rfl
      intro h
      exact ⟨h.registers_lt, h.numbersFit⟩
  | setConst x n =>
      refine .conv ((setRegister_ends x n s).andThen fun _ => advance_ends 2 _) ?_ rfl rfl
      intro h
      exact ⟨h.registers_lt x (.head _), h.numbersFit⟩
  | addConst x n =>
      refine .conv ((register_ends x s).andThen fun _ => (setRegister_ends x _ _).andThen fun _ =>
        advance_ends 2 _) ?_ rfl rfl
      intro h
      have hx := h.registers_lt x (.head _)
      exact ⟨hx, hx, h.numbersFit⟩
  | alu op x y =>
      refine .conv ((operate_ends op x y s).andThen fun _ => advance_ends 2 _) ?_ rfl rfl
      intro h
      have hx := h.registers_lt x (.head _)
      have hy := h.registers_lt y (.tail _ (.head _))
      exact ⟨⟨hx, fun _ => hy⟩, h.numbersFit⟩
  | setIndex address =>
      refine .conv ((update_ends _ s).andThen fun _ => advance_ends 2 _) ?_ rfl rfl
      intro h
      exact ⟨trivial, h.numbersFit⟩
  | jumpOffset base =>
      exact .conv (jumpOffset_ends base s) (fun _ => trivial) rfl rfl
  | random x mask =>
      refine .conv ((drawByte_ends s).andThen fun _ => (setRegister_ends x _ _).andThen fun _ =>
        advance_ends 2 _) ?_ rfl rfl
      intro h
      exact ⟨trivial, h.registers_lt x (.head _), h.numbersFit⟩
  | draw x y height =>
      -- the range is checked after both registers and before the first change
      refine .conv ((register_ends x s).asking ((register_ends y s).asking
        ((sliceAtIndex_ends height.toNat s).andThen fun _ => (blit_ends _ s).andThen fun _ =>
          (update_ends _ _).andThen fun _ => (markFrame_ends _).andThen fun _ =>
          advance_ends 2 _))) ?_ rfl rfl
      intro h
      have hx := h.registers_lt x (.head _)
      have hy := h.registers_lt y (.tail _ (.head _))
      exact ⟨hx, hy, trivial, trivial, trivial, trivial, h.numbersFit⟩
  | readDelay x =>
      refine .conv ((look_ends _ s).andThen fun _ => (setRegister_ends x _ _).andThen fun _ =>
        advance_ends 2 _) ?_ rfl rfl
      intro h
      exact ⟨trivial, h.registers_lt x (.head _), h.numbersFit⟩
  | awaitKey x =>
      exact .conv (enter_ends _ s) (fun _ => trivial) rfl rfl
  | setDelay x | setSound x =>
      refine .conv ((register_ends x s).andThen fun _ => (update_ends _ _).andThen fun _ =>
        advance_ends 2 _) ?_ rfl rfl
      intro h
      exact ⟨h.registers_lt x (.head _), trivial, h.numbersFit⟩
  | addIndex x =>
      refine .conv ((register_ends x s).andThen fun _ =>
        (checkedWord_ends (fun m => m.index.toNat + (s.machine.value x).toNat) _).andThen fun _ =>
        (update_ends _ _).andThen fun _ => advance_ends 2 _) ?_ rfl rfl
      intro h
      exact ⟨h.registers_lt x (.head _), h.numbersFit.1, trivial, h.numbersFit.2⟩
  | glyph x =>
      refine .conv ((register_ends x s).andThen fun _ =>
        (checkedWord_ends (fun _ => (s.machine.value x).toNat * glyphSize) _).andThen fun _ =>
        (update_ends _ _).andThen fun _ => advance_ends 2 _) ?_ rfl rfl
      intro h
      -- the glyph of 255 ends at 1280
      have hfit : (s.machine.value x).toNat * glyphSize < 0x10000 := by
        have hv := (s.machine.value x).toNat_lt
        simp only [glyphSize]
        omega
      exact ⟨h.registers_lt x (.head _), hfit, trivial, h.numbersFit⟩
  | decimal x =>
      -- once the range has been checked, none of the three stores can be refused
      have hplace (hr : s.machine.rangeFault? s.machine.index.toNat 3 = none) (k : Nat)
          (hk : k < 3) : s.machine.index.toNat + k < memorySize := by
        have hin := (Machine.rangeFault?_eq_none_iff.1 hr).1
        omega
      refine .conv ((register_ends x s).asking ((sliceAtIndex_ends 3 s).andThen fun hr =>
        (writeAtIndex_ends _ ?first).andThen fun _ => (writeAtIndex_ends _ ?second).andThen fun _ =>
        (writeAtIndex_ends _ ?third).andThen fun _ => advance_ends 2 _)) ?sound rfl rfl
      case first => exact hplace hr 0 (by decide)
      case second => exact hplace hr 1 (by decide)
      case third => exact hplace hr 2 (by decide)
      case sound =>
        intro h
        exact ⟨h.registers_lt x (.head _), trivial, trivial, trivial, trivial, h.numbersFit⟩
  | save last =>
      refine .conv ((sliceAtIndex_ends _ s).andThen fun hr =>
        (firstRegisters_ends (last.toNat + 1) s).andThen fun _ => (store_ends ?_).andThen fun _ =>
        advance_ends 2 _) ?_ rfl rfl
      · have hin := (Machine.rangeFault?_eq_none_iff.1 hr).1
        simp only [List.length_take]
        omega
      · intro h
        have hlast := h.registers_lt last (.head _)
        exact ⟨trivial, hlast, trivial, h.numbersFit⟩
  | restore last =>
      refine .conv ((sliceAtIndex_ends _ s).andThen fun hr =>
        (setFirstRegisters_ends _ s).andThen fun _ => advance_ends 2 _) ?_ rfl rfl
      intro h
      have hlast := h.registers_lt last (.head _)
      refine ⟨trivial, ?_, h.numbersFit⟩
      simp only [Machine.bytesAt, List.length_take]
      omega

end Interpreter
end Chip8
