import Chip8.Proofs.Interpreter.Outcomes

/-!
# Replay — stepping through memory, and running what was read

A step fetches its instruction and a direct execution is given it, but from there on the two do the
same.  So the instructions that a run of steps has read, run as a list from where the steps began,
lead to the same state, even when they have changed the program in memory on the way.

Main statement: `executeMany_replays_steps`.
-/

namespace Chip8
namespace Interpreter

variable {s t : Interpreter} {i : Instruction}

/-! ## One step -/

/-- A step that reads an instruction is the direct execution of that instruction. -/
theorem step_eq_execute (h : s.current? = some i) : s.step = s.execute i := by
  have hrun : s.runState = .running := (current?_eq_some_iff.1 h).1
  have hexec : s.execute i = settle (perform i s) := execute_of_ne (ne_faulted_of_running hrun) i
  rw [step_of_running hrun, hexec]
  rcases cycle_current hrun with ⟨f, hnone, -, -⟩ | ⟨j, hj, hcycle⟩
  · rw [hnone] at h
    cases h
  · have hij : i = j := by
      rw [hj] at h
      cases h
      rfl
    rw [hcycle, hij]

/-- A running step that succeeds has read an instruction. -/
theorem exists_current?_of_step (hrun : s.runState = .running) (h : s.step = .ok ⟨none, t⟩) :
    ∃ i, s.current? = some i := by
  cases step_outcome h with
  | performed hi _ => exact ⟨_, hi⟩
  | polled hx =>
      rw [hrun] at hx
      cases hx

/-! ## Lists of instructions -/

/-- A list that succeeds hands its state over to what is run after it. -/
theorem executeMany_concat {program : List Instruction}
    (h : s.executeMany program = .ok ⟨none, t⟩) (i : Instruction) :
    s.executeMany (program ++ [i]) = t.execute i := by
  induction program generalizing s with
  | nil =>
      cases h
      exact executeMany_singleton _ i
  | cons j rest ih =>
      rcases executeMany_cases h with ⟨hfirst, hrest⟩ | ⟨f, -, heq⟩
      · calc
          s.executeMany (j :: rest ++ [i]) = (s.effect j).executeMany (rest ++ [i]) :=
            executeMany_of_performed hfirst _
          _ = t.execute i := ih hrest
      -- the whole list succeeds, so its first instruction did
      · cases heq

/-! ## Whole runs -/

/-- The instructions that the steps of a run read lead to the same states when they are run as a
list, and so does one more instruction whose step is refused. -/
theorem executeMany_replays_steps (states : Nat → Interpreter) (n : Nat)
    (hsteps : ∀ k < n, (states k).runState = .running ∧
      (states k).step = .ok ⟨none, states (k + 1)⟩) :
    ∃ program : List Instruction,
      program.map some = (List.range n).map (fun k => (states k).current?) ∧
      (states 0).executeMany program = .ok ⟨none, states n⟩ ∧
      ∀ i f t, (states n).current? = some i → (states n).step = .ok ⟨some f, t⟩ →
        (states 0).executeMany (program ++ [i]) = .ok ⟨some f, t⟩ := by
  -- the list grows at its end, one instruction for each step
  have hreplay : ∃ program : List Instruction,
      program.map some = (List.range n).map (fun k => (states k).current?) ∧
      (states 0).executeMany program = .ok ⟨none, states n⟩ := by
    induction n with
    | zero => exact ⟨[], rfl, rfl⟩
    | succ n ih =>
        have hbefore : ∀ k < n, (states k).runState = .running ∧
            (states k).step = .ok ⟨none, states (k + 1)⟩ :=
          fun k hk => hsteps k (Nat.lt_succ_of_lt hk)
        have hlast := hsteps n (Nat.lt_succ_self n)
        rcases ih hbefore with ⟨program, hread, hrun⟩
        rcases exists_current?_of_step hlast.1 hlast.2 with ⟨i, hi⟩
        refine ⟨program ++ [i], ?_, ?_⟩
        · simp [List.range_succ, hread, hi]
        · calc
            (states 0).executeMany (program ++ [i]) = (states n).execute i :=
              executeMany_concat hrun i
            _ = (states n).step := (step_eq_execute hi).symm
            _ = .ok ⟨none, states (n + 1)⟩ := hlast.2
  rcases hreplay with ⟨program, hread, hrun⟩
  refine ⟨program, hread, hrun, ?_⟩
  intro i f t hi hfault
  calc
    (states 0).executeMany (program ++ [i]) = (states n).execute i := executeMany_concat hrun i
    _ = (states n).step := (step_eq_execute hi).symm
    _ = .ok ⟨some f, t⟩ := hfault

/-- The fourth instruction overwrites the fifth, a jump, with a return that nothing was called for.
-/
theorem executeMany_replays_steps_rewritten :
    let s := ((start (.ofSeed 0)).load
      [0x60, 0x00, 0x61, 0xEE, 0xA2, 0x08, 0xF1, 0x55, 0x12, 0x00]).next
    let next : Interpreter → Interpreter := fun u => u.step.toOption.elim u Outcome.next
    let states : Nat → Interpreter := fun k => Nat.repeat next k s
    (∀ k < 4, (states k).runState = .running ∧
      (states k).step = .ok ⟨none, states (k + 1)⟩) ∧
      (states 4).step = .ok ⟨some (.stackUnderflow 0x208), states 5⟩ ∧
      s.executeMany [.setConst 0 0x00, .setConst 1 0xEE, .setIndex 0x208, .save 1, .ret] =
        .ok ⟨some (.stackUnderflow 0x208), states 5⟩ := by
  intro s next states
  have hnext : ∀ (u : Interpreter) (fault? : Option Fault),
      (u.step.toOption.map Outcome.fault?) = some fault? → u.step = .ok ⟨fault?, next u⟩ := by
    intro u fault? hu
    cases hstep : u.step with
    | error b =>
        rw [hstep] at hu
        cases hu
    | ok o =>
        rw [hstep] at hu
        cases hu
        simp only [next, hstep]
        rfl
  -- the run, evaluated: four steps that succeed, what they read, and the step after them
  have hrun : (∀ k < 4, (states k).runState = .running ∧
      ((states k).step.toOption.map Outcome.fault?) = some none) ∧
      (List.range 4).map (fun k => (states k).current?) =
        [Instruction.setConst 0 0x00, .setConst 1 0xEE, .setIndex 0x208, .save 1].map some ∧
      (states 4).current? = some .ret ∧
      ((states 4).step.toOption.map Outcome.fault?) = some (some (.stackUnderflow 0x208)) := by
    decide +kernel
  rcases hrun with ⟨hrun, hlist, hret, hunderflow⟩
  have hsteps : ∀ k < 4, (states k).runState = .running ∧
      (states k).step = .ok ⟨none, states (k + 1)⟩ :=
    fun k hk => ⟨(hrun k hk).1, hnext _ none (hrun k hk).2⟩
  have hfault : (states 4).step = .ok ⟨some (.stackUnderflow 0x208), states 5⟩ :=
    hnext _ _ hunderflow
  rcases executeMany_replays_steps states 4 hsteps with ⟨program, hread, -, hlast⟩
  have hprogram : program = [.setConst 0 0x00, .setConst 1 0xEE, .setIndex 0x208, .save 1] :=
    (List.map_inj_right fun _ _ h => Option.some.inj h).1 (hread.trans hlist)
  have hreplay := hlast .ret _ _ hret hfault
  rw [hprogram] at hreplay
  exact ⟨hsteps, hfault, hreplay⟩

end Interpreter
end Chip8
