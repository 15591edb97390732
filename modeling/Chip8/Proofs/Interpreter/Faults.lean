import Chip8.Proofs.Interpreter.Stepping

/-!
# Faults — refused as a whole, and for good

An instruction that is refused leaves everything as it was but for the run state, although several
instructions change the machine in more than one place; that is what `performed` is about, and
`Atomic` says it of outcomes.  From then on the fault is the answer to every request that would run
an instruction, until a reset.

Main statement: `fault_atomic_and_sticky`, for every history of operations.
-/

namespace Chip8

namespace Operation

/-- The operation carries out one instruction or looks at the keypad once. -/
def runsOne : Operation → Bool
  | .step | .execute _ => true
  | _ => false

def runs : Operation → Bool
  | .step | .execute _ => true
  | .executeMany program => !program.isEmpty
  | _ => false

end Operation

namespace Interpreter

variable {s t : Interpreter} {f : Fault}

/-! ## Outcomes -/

def HaltedInPlace (s : Interpreter) : Prop :=
  ∀ f, s.runState = .faulted f → f.pc = s.machine.pc

/-- The outcome of a request to `s` is a success, or a refusal on the spot that changes nothing but
the run state. -/
inductive Atomic (s : Interpreter) : Outcome → Prop where
  | done {t : Interpreter} : (∀ f, t.runState ≠ .faulted f) → Atomic s ⟨none, t⟩
  | refused {f : Fault} : f.pc = s.machine.pc →
      Atomic s ⟨some f, { s with runState := .faulted f }⟩

/-- A refusal on the spot halts in place. -/
theorem Atomic.haltedInPlace {o : Outcome} (h : Atomic s o) : o.next.HaltedInPlace := by
  cases h with
  | done hne =>
      intro f hf
      exact absurd hf (hne f)
  | refused hpc =>
      intro f hf
      cases hf
      exact hpc

/-- Work that changes nothing when it is refused has such outcomes. -/
theorem atomic_of_ends {P : Prop} {fault? : Option Fault}
    {r : EStateM.Result Stop Interpreter Unit} {o : Outcome} (h : Ends s P fault? () t r)
    (hpc : ∀ f, fault? = some f → f.pc = s.machine.pc) (hrun : ∀ f, t.runState ≠ .faulted f)
    (ho : settle r = .ok o) : Atomic s o := by
  cases h with
  | done _ =>
      cases ho
      exact .done hrun
  | refused hsome =>
      cases ho
      exact .refused (hpc _ hsome)
  | broken _ => cases ho

/-- A halted interpreter is one that was given its fault. -/
theorem eq_halted (h : s.runState = .faulted f) : s = { s with runState := .faulted f } := by
  cases s
  cases h
  rfl

/-- An instruction does not halt a run that goes on. -/
theorem effect_runState_ne (h : ∀ f, s.runState ≠ .faulted f) (i : Instruction) (f : Fault) :
    (s.effect i).runState ≠ .faulted f := by
  cases i with
  | awaitKey x =>
      intro hf
      cases hf
  | _ => exact h f

/-- Instructions are refused as a whole. -/
theorem performed_atomic (h : ∀ f, s.runState ≠ .faulted f) {i : Instruction} {o : Outcome}
    (ho : settle (perform i s) = .ok o) : Atomic s o :=
  atomic_of_ends (performed s i) (fun _ hf => Machine.pc_eq_of_fault? hf)
    (effect_runState_ne h i) ho

/-- So are steps. -/
theorem step_atomic (hs : s.HaltedInPlace) {o : Outcome} (ho : s.step = .ok o) : Atomic s o := by
  cases hrun : s.runState with
  | running =>
      rw [step_of_running hrun] at ho
      rcases s.cycle_cases with ⟨f, hfetch, hcycle⟩ | ⟨i, _, _, hcycle⟩
      · rw [hcycle] at ho
        cases ho
        exact .refused hfetch.pc_eq
      · rw [hcycle] at ho
        exact performed_atomic (ne_faulted_of_running hrun) ho
  | awaitingKey x =>
      rw [step_of_awaitingKey hrun] at ho
      refine atomic_of_ends (pollKey_ends s x) ?_ ?_ ho
      · intro f hf
        cases hf
      · intro f
        unfold polled
        split
        · rw [hrun]
          intro hf
          cases hf
        · intro hf
          cases hf
  | faulted g =>
      -- the old fault is the answer; the invariant says that it was raised right here
      rw [step_of_faulted hrun] at ho
      cases ho
      have hrefused := Atomic.refused (hs g hrun)
      rw [← eq_halted hrun] at hrefused
      exact hrefused

/-- So is direct execution. -/
theorem execute_atomic (hs : s.HaltedInPlace) {i : Instruction} {o : Outcome}
    (ho : s.execute i = .ok o) : Atomic s o := by
  by_cases h : ∃ f, s.runState = .faulted f
  · rcases h with ⟨f, hf⟩
    rw [execute_of_faulted hf] at ho
    cases ho
    have hrefused := Atomic.refused (hs f hf)
    rw [← eq_halted hf] at hrefused
    exact hrefused
  · have hne : ∀ f, s.runState ≠ .faulted f := fun f hf => h ⟨f, hf⟩
    rw [execute_of_ne hne] at ho
    exact performed_atomic hne ho

/-- The first instruction of a list and the rest of it, if it succeeds. -/
theorem executeMany_cons {i : Instruction} {rest : List Instruction} {o : Outcome}
    (h : s.executeMany (i :: rest) = .ok o) :
    ∃ first, s.execute i = .ok first ∧
      (o = first ∧ first.fault?.isSome ∨
        first.fault? = none ∧ first.next.executeMany rest = .ok o) := by
  rw [executeMany] at h
  rcases bind_eq_ok.1 h with ⟨first, hfirst, hlater⟩
  refine ⟨first, hfirst, ?_⟩
  cases hf : first.fault? with
  | some f =>
      simp only [hf] at hlater
      cases hlater
      exact .inl ⟨rfl, rfl⟩
  | none =>
      simp only [hf] at hlater
      exact .inr ⟨rfl, hlater⟩

/-- Running a list leaves a halted interpreter where its fault was raised. -/
theorem haltedInPlace_executeMany {program : List Instruction} {o : Outcome}
    (hs : s.HaltedInPlace) (h : s.executeMany program = .ok o) : o.next.HaltedInPlace := by
  induction program generalizing s with
  | nil =>
      cases h
      exact hs
  | cons i rest ih =>
      -- the list ends with its first instruction, or goes on after it
      rcases executeMany_cons h with ⟨first, hfirst, ⟨rfl, _⟩ | ⟨_, hrest⟩⟩
      · exact (execute_atomic hs hfirst).haltedInPlace
      · exact ih (execute_atomic hs hfirst).haltedInPlace hrest

/-- Loading touches nothing but memory. -/
theorem load_keeps (s : Interpreter) (program : List UInt8) :
    ∃ memory, (s.load program).next = { s with machine := { s.machine with memory } } := by
  simp only [load, Machine.load]
  split
  · rename_i hload
    split at hload
    · cases hload
    · cases hload
      exact ⟨_, rfl⟩
  · exact ⟨s.machine.memory, rfl⟩

/-- Halted interpreters stand where their fault was raised, whatever is asked of them. -/
theorem haltedInPlace_apply {op : Operation} {r : Response} (hs : s.HaltedInPlace)
    (h : s.apply op = .ok (r, t)) : t.HaltedInPlace := by
  cases op with
  | step =>
      rcases outcome_of_answer h with ⟨o, hstep, -, rfl⟩
      exact (step_atomic hs hstep).haltedInPlace
  | execute i =>
      rcases outcome_of_answer h with ⟨o, hexec, -, rfl⟩
      exact (execute_atomic hs hexec).haltedInPlace
  | executeMany program =>
      rcases outcome_of_answer h with ⟨o, hexec, -, rfl⟩
      exact haltedInPlace_executeMany hs hexec
  | tick | takeFrame | takeBeep | writeKeypad =>
      cases h
      exact hs
  | reset =>
      cases h
      intro f hf
      cases hf
  | load program =>
      cases h
      rcases s.load_keeps program with ⟨memory, hload⟩
      rw [hload]
      exact hs

/-! ## After a fault -/

/-- The fault is the answer to everything that would run an instruction. -/
theorem apply_runs_of_faulted (h : s.runState = .faulted f) {op : Operation}
    (hop : op.runs = true) : s.apply op = .ok (.refused f, s) := by
  cases op with
  | step =>
      rw [apply, step_of_faulted h]
      rfl
  | execute i =>
      rw [apply, execute_of_faulted h]
      rfl
  | executeMany program =>
      cases program with
      | nil => cases hop
      | cons i rest =>
          rw [apply, executeMany, execute_of_faulted h]
          rfl
  | _ => cases hop

/-- Nothing but a reset ends a fault. -/
theorem apply_of_faulted (h : s.runState = .faulted f) {op : Operation} (hop : op ≠ .reset) :
    ∃ r t, s.apply op = .ok (r, t) ∧ t.runState = .faulted f := by
  cases op with
  | step | execute => exact ⟨_, s, apply_runs_of_faulted h rfl, h⟩
  | executeMany program =>
      cases program with
      | nil => exact ⟨_, s, rfl, h⟩
      | cons i rest => exact ⟨_, s, apply_runs_of_faulted h rfl, h⟩
  | tick | takeFrame | takeBeep | writeKeypad => exact ⟨_, _, rfl, h⟩
  | reset => exact absurd rfl hop
  | load program =>
      refine ⟨_, _, rfl, ?_⟩
      rcases s.load_keeps program with ⟨memory, hload⟩
      rw [hload]
      exact h

/-- A refusal of a single instruction changes the run state and nothing else. -/
theorem Atomic.of_refused {o : Outcome} (h : Atomic s o) (hr : o.response = .refused f) :
    o.next = { s with runState := .faulted f } ∧ f.pc = s.machine.pc := by
  cases h with
  | done _ => cases hr
  | refused hpc =>
      cases hr
      exact ⟨rfl, hpc⟩

/-! ## Histories -/

/-- Wherever operations lead: a halted interpreter stands where its fault was raised; a step or a
direct execution that is refused halts it there and changes nothing else; and a fault outlives every
further history without a reset. -/
theorem fault_atomic_and_sticky (g : Generator) (ops : List Operation) (rs : List Response)
    (s : Interpreter) (h : (start g).applyAll ops = .ok (rs, s)) :
    (∀ f, s.runState = .faulted f → f.pc = s.machine.pc) ∧
      (∀ op, op.runsOne = true → ∀ f t, s.apply op = .ok (.refused f, t) →
        t = { s with runState := .faulted f } ∧ f.pc = s.machine.pc) ∧
      ∀ f, s.runState = .faulted f → ∀ later, .reset ∉ later →
        ∃ answers t, s.applyAll later = .ok (answers, t) ∧ t.runState = .faulted f ∧
          ∀ op, op.runs = true → t.apply op = .ok (.refused f, t) := by
  have hstart : (start g).HaltedInPlace := by
    intro f hf
    cases hf
  have hs : s.HaltedInPlace :=
    applyAll_keeps (I := HaltedInPlace) (fun _ _ _ _ hs happly => haltedInPlace_apply hs happly)
      hstart h
  refine ⟨hs, ?_, ?_⟩
  · intro op hop f t happly
    cases op with
    | step =>
        rcases outcome_of_answer happly with ⟨o, hstep, hr, rfl⟩
        exact (step_atomic hs hstep).of_refused hr
    | execute i =>
        rcases outcome_of_answer happly with ⟨o, hexec, hr, rfl⟩
        exact (execute_atomic hs hexec).of_refused hr
    | _ => cases hop
  · intro f hf later hlater
    -- the run state is the invariant that carries the fault through the history
    have hallowed : ∀ op ∈ later, op ≠ .reset := by
      intro op hop heq
      rw [heq] at hop
      exact hlater hop
    rcases applyAll_total (I := fun u => u.runState = .faulted f)
      (fun _ _ hu hop => apply_of_faulted hu hop) hallowed hf with ⟨answers, t, hall, ht⟩
    exact ⟨answers, t, hall, ht, fun op hop => apply_runs_of_faulted ht hop⟩

/-- Two of the three bytes of a decimal expansion would lie outside memory. -/
theorem fault_atomic_and_sticky_decimal :
    ∃ rs s, (start (.ofSeed 0)).applyAll [.execute (.setIndex 0xFFF), .execute (.decimal 0)] =
        .ok (rs, s) ∧
      s.runState = .faulted (.outOfRange 0x1001 0x202) ∧
      ∃ answers t, s.applyAll [.load [0x12, 0x00], .tick, .step] = .ok (answers, t) ∧
        t.apply .step = .ok (.refused (.outOfRange 0x1001 0x202), t) := by
  refine ⟨_, _, rfl, rfl, ?_⟩
  rcases (fault_atomic_and_sticky (.ofSeed 0)
    [.execute (.setIndex 0xFFF), .execute (.decimal 0)] _ _ rfl).2.2 _ rfl
    [.load [0x12, 0x00], .tick, .step] (by decide) with ⟨answers, t, hall, -, hrefused⟩
  exact ⟨answers, t, hall, hrefused .step rfl⟩

end Interpreter
end Chip8
