import Chip8.Proofs.Interpreter.History

/-!
# Deeds — a history, one deed at a time

An operation can do several things or none: a list of instructions runs up to the first one that is
refused, and a step may only look at the keypad.  `deeds` takes a history apart into what was done
in it, in order, with the states around each instruction that was carried out.

`Keeps` says that a statement about the deeds so far and the present state goes on holding, one deed
after the other; `Keeps.deeds` carries it through a history, and `Keeps.atRuns` collects what was
known before each instruction.
-/

namespace Chip8

/-- A single thing that is done in a history. -/
inductive Deed where
  -- an instruction was carried out, in one state, and left another one
  | ran (found : Interpreter) (i : Instruction) (left : Interpreter)
  -- the timers ticked, and this was the answer
  | ticked (beeped : Bool)
  | reset
  | beepTaken
  deriving DecidableEq

namespace Interpreter

open Chip8.Interpreter.Action

variable {s t : Interpreter} {op : Operation} {r : Response} {o : Outcome} {i : Instruction}
  {past : List Deed}

/-! ## Taking a history apart -/

def deedsMany (s : Interpreter) : List Instruction → List Deed
  | [] => []
  | i :: rest =>
      match s.execute i with
      | .ok ⟨none, next⟩ => .ran s i next :: next.deedsMany rest
      | _ => []

/-- What is done in an operation. -/
def deedsOf (s : Interpreter) : Operation → List Deed
  | .step =>
      match s.current?, s.step with
      | some i, .ok ⟨none, next⟩ => [.ran s i next]
      | _, _ => []
  | .execute i => s.deedsMany [i]
  | .executeMany program => s.deedsMany program
  | .tick => [.ticked s.tickBeeps]
  | .reset => [.reset]
  | .takeBeep => [.beepTaken]
  | .load _ | .takeFrame | .writeKeypad _ => []

def deeds (s : Interpreter) : List Operation → List Deed
  | [] => []
  | op :: rest =>
      s.deedsOf op ++
        match s.apply op with
        | .ok (_, next) => next.deeds rest
        | .error _ => []

/-! ## Instructions carried out -/

/-- Only work that was done ends without a fault. -/
theorem settle_eq_done {result : EStateM.Result Stop Interpreter Unit}
    (h : settle result = .ok ⟨none, t⟩) : result = .ok () t := by
  cases result with
  | ok _ next =>
      cases h
      rfl
  | error stop left =>
      cases stop with
      | fault f => cases h
      | breach b => cases h

/-- What is executed has been performed. -/
theorem perform_of_execute (h : s.execute i = .ok ⟨none, t⟩) : perform i s = .ok () t := by
  have hne : ∀ f, s.runState ≠ .faulted f := by
    intro f hf
    rw [execute_of_faulted hf] at h
    cases h
  rw [execute_of_ne hne] at h
  exact settle_eq_done h

/-- So has the current instruction, once its step has succeeded. -/
theorem perform_of_current? (hi : s.current? = some i) (h : s.step = .ok ⟨none, t⟩) :
    perform i s = .ok () t := by
  have hrun : s.runState = .running := (current?_eq_some_iff.1 hi).1
  rw [step_of_running hrun] at h
  rcases cycle_current hrun with ⟨f, hnone, -, -⟩ | ⟨j, hj, hcycle⟩
  · rw [hi] at hnone
    cases hnone
  · rw [hi] at hj
    cases hj
    rw [hcycle] at h
    exact settle_eq_done h

/-- What is carried out leaves its effect. -/
theorem eq_effect_of_perform (h : perform i s = .ok () t) : t = s.effect i := by
  have hends := performed s i
  rw [h] at hends
  cases hends with
  | done _ => rfl

/-- An instruction that sets a register to some value, and does nothing else that can fail, is
carried out only if there is such a register. -/
theorem lt_of_setRegister {x : UInt8} {value : Action UInt8} {f : UInt8 → UInt8}
    (h : (do
      let v ← value
      setRegister x (f v)
      advance 2 : Action Unit) s = .ok () t) : x.toNat < registerCount := by
  refine Classical.byContradiction fun hge => ?_
  rw [bind_apply] at h
  cases hvalue : value s with
  | error stop left =>
      rw [hvalue] at h
      cases h
  | ok v next =>
      rw [hvalue] at h
      -- the register is checked when it is set, after the value
      simp only [bind_apply, setRegister, change, Machine.setRegister_of_ge hge] at h
      cases h

/-! ## What is not a deed -/

/-- Neither the timers nor the generator nor a pending beep has changed. -/
structure Quiet (s t : Interpreter) : Prop where
  timers_eq : t.machine.timers = s.machine.timers
  generator_eq : t.generator = s.generator
  beepPending_eq : t.beepPending = s.beepPending

theorem quiet_halted (s : Interpreter) (runState : RunState) : Quiet s { s with runState } :=
  ⟨rfl, rfl, rfl⟩

/-- A look at the keypad is quiet. -/
theorem quiet_polled (s : Interpreter) (x : UInt8) : Quiet s (s.polled x) := by
  rcases s.polled_keeps x with ⟨registers, pc, runState, hpolled⟩
  rw [hpolled]
  exact ⟨rfl, rfl, rfl⟩

/-- So is a load. -/
theorem quiet_load (s : Interpreter) (program : List UInt8) : Quiet s (s.load program).next := by
  rcases s.load_keeps program with ⟨memory, hload⟩
  rw [hload]
  exact ⟨rfl, rfl, rfl⟩

/-- A step carries out an instruction, or leaves all that deeds are about alone. -/
theorem step_deeds (h : s.step = .ok o) :
    (∃ i t, perform i s = .ok () t ∧ o = ⟨none, t⟩ ∧ s.deedsOf .step = [.ran s i t]) ∨
      s.deedsOf .step = [] ∧ Quiet s o.next := by
  cases step_outcome h with
  | @performed i hi _ =>
      refine .inl ⟨i, s.effect i, perform_of_current? hi h, rfl, ?_⟩
      simp only [deedsOf, h, hi]
  | @polled x hx =>
      have hcurrent : s.current? = none := by
        simp only [current?, hx]
      refine .inr ⟨?_, s.quiet_polled x⟩
      simp only [deedsOf, h, hcurrent]
  | @refused f _ =>
      refine .inr ⟨?_, s.quiet_halted (.faulted f)⟩
      rw [deedsOf, h]
      cases s.current? with
      | _ => rfl

/-! ## Operations that carry out no instruction -/

theorem deedsOf_step_of_none (h : s.current? = none) : s.deedsOf .step = [] := by
  rw [deedsOf, h]

/-- A halted interpreter runs nothing of a list. -/
theorem deedsMany_of_faulted {f : Fault} (h : s.runState = .faulted f)
    (program : List Instruction) : s.deedsMany program = [] := by
  cases program with
  | nil => rfl
  | cons i rest => simp only [deedsMany, execute_of_faulted h]

/-- Nor does it run anything else. -/
theorem deedsOf_of_faulted {f : Fault} (h : s.runState = .faulted f) (hop : op.executes = true) :
    s.deedsOf op = [] := by
  cases op with
  | step => exact deedsOf_step_of_none (by simp only [current?, h])
  | execute i => exact deedsMany_of_faulted h [i]
  | executeMany program => exact deedsMany_of_faulted h program
  | tick | load | reset | takeFrame | takeBeep | writeKeypad => cases hop

/-- Neither a step nor an instruction that is refused does anything. -/
theorem deedsOf_of_refused {f : Fault} (h : s.apply op = .ok (.refused f, t))
    (hop : op.runsOne = true) : s.deedsOf op = [] := by
  cases op with
  | step =>
      rcases outcome_of_answer h with ⟨o, hstep, hr, -⟩
      rcases step_deeds hstep with ⟨i, left, -, rfl, -⟩ | ⟨hnil, -⟩
      · cases hr
      · exact hnil
  | execute i =>
      rcases outcome_of_answer h with ⟨o, hexec, hr, -⟩
      cases execute_outcome hexec with
      | performed _ _ => cases hr
      | refused _ => simp only [deedsOf, deedsMany, hexec]
  | executeMany | tick | load | reset | takeFrame | takeBeep | writeKeypad => cases hop

/-! ## Statements that deeds keep -/

-- every instruction among the deeds fulfils `P`, together with the deeds before it
def AtRuns (P : List Deed → Interpreter → Instruction → Interpreter → Prop)
    (past : List Deed) : Prop :=
  ∀ before found i left later, past = before ++ .ran found i left :: later → P before found i left

theorem atRuns_nil {P : List Deed → Interpreter → Instruction → Interpreter → Prop} :
    AtRuns P [] := by
  intro before found i left later hnil
  cases (List.append_eq_nil_iff.1 hnil.symm).2

/-- One more deed has to be looked at only if it ran an instruction. -/
theorem AtRuns.concat {P : List Deed → Interpreter → Instruction → Interpreter → Prop} {d : Deed}
    (h : AtRuns P past) (hd : ∀ found i left, d = .ran found i left → P past found i left) :
    AtRuns P (past ++ [d]) := by
  intro before found i left later hsplit
  rcases place_in_concat hsplit with ⟨rfl, hlast, -⟩ | ⟨rest, -, hpast⟩
  · exact hd found i left hlast.symm
  · exact h before found i left rest hpast

/-- Every deed keeps the statement about the deeds so far and the present state, and so does
everything that is not a deed. -/
structure Keeps (I : List Deed → Interpreter → Prop) : Prop where
  ran : ∀ past s i t, I past s → perform i s = .ok () t → I (past ++ [.ran s i t]) t
  ticked : ∀ past s, I past s → I (past ++ [.ticked s.tickBeeps]) s.tick
  reset : ∀ past s, I past s → I (past ++ [.reset]) s.reset
  beepTaken : ∀ past s, I past s → I (past ++ [.beepTaken]) s.beepTaken
  quiet : ∀ past s t, I past s → Quiet s t → I past t

namespace Keeps

variable {I : List Deed → Interpreter → Prop}

/-- A list of instructions adds its deeds one by one. -/
theorem executeMany (hI : Keeps I) {program : List Instruction} (hs : I past s)
    (h : s.executeMany program = .ok o) : I (past ++ s.deedsMany program) o.next := by
  induction program generalizing s past with
  | nil =>
      cases h
      rw [deedsMany, List.append_nil]
      exact hs
  | cons i rest ih =>
      rcases executeMany_cases h with ⟨hfirst, hrest⟩ | ⟨f, hfirst, rfl⟩
      · -- the first deed of the list joins the deeds so far, and the rest begins after it
        have hcons : s.deedsMany (i :: rest) =
            .ran s i (s.effect i) :: (s.effect i).deedsMany rest := by
          simp only [deedsMany, hfirst]
        rw [hcons, List.append_cons]
        exact ih (hI.ran past s i _ hs (perform_of_execute hfirst)) hrest
      · have hnil : s.deedsMany (i :: rest) = [] := by
          simp only [deedsMany, hfirst]
        rw [hnil, List.append_nil]
        exact hI.quiet past s _ hs (s.quiet_halted _)

/-- A step adds a deed or is quiet. -/
theorem step (hI : Keeps I) (hs : I past s) (h : s.step = .ok o) :
    I (past ++ s.deedsOf .step) o.next := by
  rcases step_deeds h with ⟨i, t, hperform, rfl, hdeeds⟩ | ⟨hdeeds, hquiet⟩
  · rw [hdeeds]
    exact hI.ran past s i t hs hperform
  · rw [hdeeds, List.append_nil]
    exact hI.quiet past s o.next hs hquiet

/-- Every operation adds its deeds. -/
theorem apply (hI : Keeps I) (hs : I past s) (h : s.apply op = .ok (r, t)) :
    I (past ++ s.deedsOf op) t := by
  cases op with
  | step =>
      rcases outcome_of_answer h with ⟨o, hstep, -, rfl⟩
      exact hI.step hs hstep
  | execute i =>
      rcases outcome_of_answer h with ⟨o, hexec, -, rfl⟩
      rw [← executeMany_singleton] at hexec
      exact hI.executeMany hs hexec
  | executeMany program =>
      rcases outcome_of_answer h with ⟨o, hexec, -, rfl⟩
      exact hI.executeMany hs hexec
  | tick =>
      cases h
      exact hI.ticked past s hs
  | reset =>
      cases h
      exact hI.reset past s hs
  | takeBeep =>
      cases h
      exact hI.beepTaken past s hs
  | load program =>
      cases h
      rw [deedsOf, List.append_nil]
      exact hI.quiet past s _ hs (s.quiet_load program)
  | takeFrame | writeKeypad w =>
      cases h
      rw [deedsOf, List.append_nil]
      exact hI.quiet past s _ hs ⟨rfl, rfl, rfl⟩

/-- So does a history, to the deeds before it. -/
theorem applyAll (hI : Keeps I) {ops : List Operation} {rs : List Response} (hs : I past s)
    (h : s.applyAll ops = .ok (rs, t)) : I (past ++ s.deeds ops) t := by
  induction ops generalizing s past rs with
  | nil =>
      cases h
      rw [Interpreter.deeds, List.append_nil]
      exact hs
  | cons op rest ih =>
      rcases applyAll_cons h with ⟨r, later, next, happly, hrest, -⟩
      have hcons : s.deeds (op :: rest) = s.deedsOf op ++ next.deeds rest := by
        simp only [Interpreter.deeds, happly]
      rw [hcons, ← List.append_assoc]
      exact ih (hI.apply hs happly) hrest

/-- What holds at the beginning, and is kept, holds after every history. -/
theorem deeds (hI : Keeps I) {ops : List Operation} {rs : List Response} (hs : I [] s)
    (h : s.applyAll ops = .ok (rs, t)) : I (s.deeds ops) t :=
  hI.applyAll hs h

/-- What follows from a kept statement whenever an instruction is carried out is true of every
instruction in the deeds so far, with the deeds before it. -/
theorem atRuns (hI : Keeps I) {P : List Deed → Interpreter → Instruction → Interpreter → Prop}
    (hP : ∀ past s i t, I past s → perform i s = .ok () t → P past s i t) :
    Keeps fun past s => I past s ∧ AtRuns P past where
  ran := by
    intro past s i t hs hperform
    refine ⟨hI.ran past s i t hs.1 hperform, hs.2.concat ?_⟩
    intro found j left heq
    cases heq
    exact hP past s i t hs.1 hperform
  ticked := fun past s hs => ⟨hI.ticked past s hs.1, hs.2.concat fun _ _ _ heq => nomatch heq⟩
  reset := fun past s hs => ⟨hI.reset past s hs.1, hs.2.concat fun _ _ _ heq => nomatch heq⟩
  beepTaken := fun past s hs =>
    ⟨hI.beepTaken past s hs.1, hs.2.concat fun _ _ _ heq => nomatch heq⟩
  quiet := fun past s t hs hquiet => ⟨hI.quiet past s t hs.1 hquiet, hs.2⟩

end Keeps

end Interpreter
end Chip8
