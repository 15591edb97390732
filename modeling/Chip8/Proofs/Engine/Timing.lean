import Chip8.Proofs.Engine.Keys
import Chip8.Proofs.Engine.Pictures
import Chip8.Proofs.Interpreter.Timing

/-!
# Timing — what a run of an engine owes to the clock

How many steps and ticks a batch carries out, and when, depends on the clock and on the two rates.
Two engines with the same random bytes load the same program and nobody touches the keys.  Then the
histories of their interpreters are aligned: a reset, the load, and so many steps.  If they have
come to equally many steps and the program never read the delay timer, both show the same screen, or
both have halted on the same fault.

A worker that steps before anything was loaded halts at once, since blank memory holds no
instruction.  So what is essential in a run with one load begins with it.

Main statement: `timers_unobserved`.
-/

namespace Chip8
namespace Engine

variable {e : Engine} {program : List UInt8}

/-! ## Kinds of operations in a run -/

/-- What a load asks for is essential or stands aside. -/
theorem Worker.mem_handleOperations {w : Worker} {c : Command} {op : Operation}
    (h : op ∈ w.handleOperations c) : op.essential = true ∨ op.aside false = true := by
  cases c with
  | start | pause | shutdown => cases h
  | load program =>
      simp only [handleOperations, Stint.loadOperations, List.mem_cons] at h
      rcases h with rfl | rfl | hrest
      · exact .inl rfl
      · exact .inl rfl
      · split at hrest
        · cases hrest
        · simp only [flushing, List.mem_cons, List.not_mem_nil, or_false] at hrest
          rcases hrest with rfl | rfl <;> exact .inr rfl

/-- Besides key writes, an engine asks only for what is essential and what stands aside. -/
theorem mem_allOperations {happenings : List Happening} {op : Operation}
    (h : op ∈ e.allOperations happenings) :
    op.essential = true ∨ op.aside false = true ∨ ∃ w, op = .writeKeypad w := by
  induction happenings generalizing e with
  | nil => cases h
  | cons happening rest ih =>
      rw [allOperations_cons] at h
      rcases List.mem_append.1 h with hfirst | hrest
      · have hout := e.operations_outcome happening
        generalize e.operations happening = ops at hout hfirst
        cases hout with
        | none => cases hfirst
        | keys w => exact .inr (.inr ⟨w, List.mem_singleton.1 hfirst⟩)
        | handled =>
            rcases Worker.mem_handleOperations hfirst with hessential | haside
            · exact .inl hessential
            · exact .inr (.inl haside)
        | batched =>
            rcases Worker.mem_batchOperations hfirst with rfl | hkey | rfl | rfl | rfl
            · exact .inl rfl
            · exact .inr (.inr hkey)
            · exact .inr (.inl rfl)
            · exact .inr (.inl rfl)
            · exact .inr (.inl rfl)
      · exact ih hrest

/-- After its end a worker asks for nothing that loads. -/
theorem programs_of_ended {ending : Ending} (h : e.ending? = some ending)
    (happenings : List Happening) : programs (e.allOperations happenings) = [] := by
  rw [(runAll_programs e happenings).1, runAll_entries_of_some h]
  rfl

/-! ## Before the load -/

structure Blank (s : Interpreter) : Prop where
  runState_eq : s.runState = .running
  memory_eq : s.machine.memory = Machine.powerOn.memory
  pc_eq : s.machine.pc = Machine.powerOn.pc

namespace Blank

variable {s : Interpreter}

/-- Key writes and ticks leave everything blank. -/
theorem writeKeypads (h : Blank s) (ws : List Keypad.Write) : Blank (s.writeKeypads ws) := by
  induction ws generalizing s with
  | nil => exact h
  | cons w rest ih =>
      have hfirst : Blank (s.writeKeypad w) := ⟨h.runState_eq, h.memory_eq, h.pc_eq⟩
      exact ih hfirst

theorem ticks (h : Blank s) (count : Nat) : Blank (Stint.ticks count s).interpreter := by
  induction count generalizing s with
  | zero => exact h
  | succ count ih =>
      have hfirst : Blank s.tick := ⟨h.runState_eq, h.memory_eq, h.pc_eq⟩
      exact ih hfirst

/-- The word at the beginning of blank memory is no instruction. -/
theorem nextInstruction (h : Blank s) :
    s.machine.nextInstruction = .error (.fault (.unknownOpcode 0 0x200)) := by
  have hpc : s.machine.pc = 0x200 := h.pc_eq
  have hword : s.machine.word = 0 := by
    have hsame : s.machine.word = Machine.powerOn.word := by
      simp only [Machine.word, Machine.byteAt, h.memory_eq, h.pc_eq]
    rw [hsame]
    decide +kernel
  have hlt : s.machine.pc.toNat < 0xFFF := by
    rw [hpc]
    decide
  have hdecode : Instruction.decode? 0 = none := by decide
  simp only [Machine.nextInstruction_of_lt hlt, hword, hdecode, hpc]

theorem step_ending? (h : Blank s) : ∃ f, (Stint.step s).ending? = some (.fault f) := by
  have hcycle : Interpreter.cycle s = .error (.fault (.unknownOpcode 0 0x200)) s := by
    rw [Interpreter.cycle, Interpreter.Action.bind_apply, Interpreter.Action.ask,
      h.nextInstruction]
  rw [Stint.step, Interpreter.step_of_running h.runState_eq, hcycle]
  exact ⟨_, rfl⟩

/-- A batch that takes a step before the load ends the worker. -/
theorem steps_ending? (h : Blank s) (arrivals : Nat → List Call) (count : Nat)
    (hnone : (Stint.steps arrivals count s).ending? = none) : count = 0 := by
  cases count with
  | zero => rfl
  | succ count =>
      rcases (h.writeKeypads (writes (arrivals 0))).step_ending? with ⟨f, hf⟩
      simp only [Stint.steps, Stint.andThen, hf] at hnone
      cases hnone

/-- Any other batch leaves everything blank, and has nothing essential. -/
theorem batch {w : Worker} (h : Blank w.interpreter) {now : Nat}
    {arrivals : Nat → List Call} (hnone : (w.batch now arrivals).ending? = none) :
    Blank (w.batch now arrivals).worker.interpreter ∧
      (w.batchOperations now arrivals).filter Operation.essential = [] := by
  have hout := w.batch_outcome now arrivals
  generalize w.batch now arrivals = p at hnone hout ⊢
  cases hout with
  | uncounted | cut | unticked => cases hnone
  | @finished count number _ _ _ _ hdue hsteps hending hticks hticked =>
      subst hsteps hticked
      -- the batch did not end the worker, so no step was due
      have hzero : count = 0 := h.steps_ending? arrivals count hending
      subst hzero
      refine ⟨?_, ?_⟩
      · have hblank := h.ticks number
        exact ⟨hblank.runState_eq, hblank.memory_eq, hblank.pc_eq⟩
      · simp only [Worker.batchOperations_eq, hdue, hending, hticks]
        rw [List.filter_append, List.filter_append, List.filter_replicate]
        rfl

end Blank

/-! ## After the load -/

/-- What is essential in a run without a load are its steps. -/
theorem filter_essential_of_programs {happenings : List Happening}
    (h : programs (e.allOperations happenings) = []) :
    (e.allOperations happenings).filter Operation.essential =
      List.replicate ((e.allOperations happenings).count .step) .step := by
  rw [← List.filter_beq]
  refine List.filter_congr fun op hop => ?_
  cases op with
  | reset => exact absurd hop ((runAll_programs e happenings).2.reset_not_mem h)
  | load program => cases List.filterMap_eq_nil_iff.1 h _ hop
  | _ => rfl

theorem programs_of_filter_essential {ops : List Operation}
    (h : ops.filter Operation.essential = []) : programs ops = [] := by
  rw [List.filter_eq_nil_iff] at h
  refine List.filterMap_eq_nil_iff.2 fun op hop => ?_
  cases op with
  | load program => exact absurd rfl (h _ hop)
  | _ => rfl

/-- The load is all that is essential in handling it. -/
theorem filter_essential_load (w : Worker) (program : List UInt8) :
    (w.handleOperations (.load program)).filter Operation.essential = [.reset, .load program] := by
  rw [Worker.handleOperations, Stint.loadOperations]
  split <;> rfl

/-- A run with one load begins with it, as far as it has anything essential. -/
theorem exists_filter_essential (hblank : Blank e.worker.interpreter)
    {happenings : List Happening} (h : programs (e.allOperations happenings) = [program]) :
    ∃ n, (e.allOperations happenings).filter Operation.essential =
      .reset :: .load program :: List.replicate n .step := by
  induction happenings generalizing e with
  | nil => cases h
  | cons happening rest ih =>
      have hprograms := h
      rw [allOperations_cons, programs_append] at hprograms
      -- a happening with nothing essential leaves the load to the rest, and does not end the worker
      have hquiet (hnil : (e.operations happening).filter Operation.essential = [])
          (hnext : (e.after happening).1.ending? = none →
            Blank (e.after happening).1.worker.interpreter) :
          ∃ n, (e.allOperations (happening :: rest)).filter Operation.essential =
            .reset :: .load program :: List.replicate n .step := by
        rw [programs_of_filter_essential hnil, List.nil_append] at hprograms
        cases hending : (e.after happening).1.ending? with
        | some ending =>
            rw [programs_of_ended hending] at hprograms
            cases hprograms
        | none =>
            rw [allOperations_cons, List.filter_append, hnil, List.nil_append]
            exact ih (hnext hending) hprograms
      have hout := e.operations_outcome happening
      generalize hops : e.operations happening = ops at hout
      cases hout with
      | none hsame _ _ =>
          refine hquiet (by rw [hops]; rfl) fun _ => ?_
          rw [hsame]
          exact hblank
      | keys w => exact hquiet (by rw [hops]; rfl) fun _ => hblank.writeKeypads [w]
      | @handled c queue now arrivals hending hqueue =>
          cases c with
          | start | pause | shutdown =>
              refine hquiet (by rw [hops]; rfl) fun _ => ?_
              rw [after, turn_of_command hending hqueue]
              exact hblank
          | load loaded =>
              rw [hops, (programs_handleOperations e.worker (.load loaded)).1] at hprograms
              rcases List.cons.inj hprograms with ⟨rfl, hnone⟩
              rw [allOperations_cons, List.filter_append, hops, filter_essential_load,
                filter_essential_of_programs hnone]
              exact ⟨_, rfl⟩
      | batched now arrivals hdue =>
          cases hending : (e.worker.batch now arrivals).ending? with
          | none =>
              rcases hblank.batch hending with ⟨hafter, hnil⟩
              refine hquiet (by rw [hops, hnil]) fun _ => ?_
              rw [after, hdue.turn]
              exact hafter
          | some ending =>
              -- the batch loads nothing, and nothing comes after it
              have hended : (e.after (.turn now arrivals)).1.ending? = some ending := by
                rw [after, hdue.turn]
                exact hending
              have hnone : programs (e.worker.batchOperations now arrivals) = [] :=
                programs_eq_nil fun op hop => Worker.loads_of_mem_batchOperations hop
              rw [hops, hnone, programs_of_ended hended] at hprograms
              cases hprograms

/-- They are the load and the steps of the run. -/
theorem filter_essential (hblank : Blank e.worker.interpreter) {happenings : List Happening}
    (h : programs (e.allOperations happenings) = [program]) :
    (e.allOperations happenings).filter Operation.essential = .reset :: .load program ::
      List.replicate ((e.allOperations happenings).count .step) .step := by
  rcases exists_filter_essential hblank h with ⟨n, hn⟩
  have hcount : (e.allOperations happenings).count .step = n := by
    rw [← List.count_filter (p := Operation.essential) rfl, hn]
    simp
  rw [hn, hcount]

/-! ## The screen of a worker that was not stopped -/

/-- The worker goes on, or was told to shut down: neither a fault nor a breach stopped it. -/
def Unstopped (ending? : Option Ending) : Prop :=
  ending? = none ∨ ending? = some .shutdown

/-- The steps of a batch shut nothing down. -/
theorem Stint.steps_ne_shutdown (arrivals : Nat → List Call) (count : Nat)
    (s : Interpreter) : (Stint.steps arrivals count s).ending? ≠ some .shutdown := by
  intro hshut
  induction count generalizing arrivals s with
  | zero => cases hshut
  | succ count ih =>
      rw [steps] at hshut
      have hout := step_outcome (s.writeKeypads (writes (arrivals 0)))
      generalize step (s.writeKeypads (writes (arrivals 0))) = a at hout hshut
      cases hout with
      | performed | polled => exact ih (fun k => arrivals (k + 1)) _ hshut
      | refused | broken => cases hshut

/-- A batch that does not stop the worker leaves it going on. -/
theorem Worker.batch_ending?_of_unstopped {w : Worker} {now : Nat}
    {arrivals : Nat → List Call} (h : Unstopped (w.batch now arrivals).ending?) :
    (w.batch now arrivals).ending? = none := by
  rcases h with hnone | hshut
  · exact hnone
  · have hout := w.batch_outcome now arrivals
    generalize w.batch now arrivals = p at hout hshut ⊢
    cases hout with
    | uncounted | unticked => cases hshut
    | cut _ hsteps hending =>
        cases hshut
        subst hsteps
        exact absurd hending (Stint.steps_ne_shutdown _ _ _)
    | finished => rfl

/-- So does a load. -/
theorem Stint.load_ending?_of_unstopped {s : Interpreter}
    (h : Unstopped (Stint.load program s).ending?) : (Stint.load program s).ending? = none := by
  have hout := load_outcome program s
  generalize load program s = a at hout h ⊢
  cases hout with
  | refused =>
      rcases h with hnone | hshut
      · cases hnone
      · cases hshut
  | loaded => rfl

def Loaded (entries : List Entry) : Prop :=
  (handled entries).filterMap Command.program? ≠ []

theorem Loaded.before {done entries : List Entry} (h : Loaded (done ++ entries))
    (hentries : (handled entries).filterMap Command.program? = []) : Loaded done := by
  simpa [Loaded, hentries] using h

theorem loaded_of_programs {happenings : List Happening}
    (h : programs (e.allOperations happenings) = [program]) : Loaded (e.runAll happenings).2 := by
  rw [Loaded, ← (runAll_programs e happenings).1, h]
  exact List.cons_ne_nil _ _

/-- Between a load and the end of the worker, only work in the middle of a turn leaves a mark. -/
theorem after_clean (e : Engine) (done : List Entry) (h : Happening)
    (hdone : Unstopped e.ending? → Loaded done → e.worker.interpreter.frameDirty = false)
    (hunstopped : Unstopped (e.after h).1.ending?) (hloaded : Loaded (done ++ (e.after h).2)) :
    (e.after h).1.worker.interpreter.frameDirty = false := by
  have hout := after_outcome e h
  generalize e.after h = next at hout hunstopped hloaded ⊢
  cases hout with
  | idle hworker hending _ =>
      rw [hworker]
      exact hdone (hending ▸ hunstopped) (hloaded.before rfl)
  | keys w => exact hdone hunstopped (hloaded.before rfl)
  | @handled c rest now hending _ =>
      cases c with
      | load program => exact (Stint.load_flushed (Stint.load_ending?_of_unstopped hunstopped)).2.1
      | start | pause | shutdown => exact hdone (.inl hending) (hloaded.before rfl)
  | batched =>
      have hnone := Worker.batch_ending?_of_unstopped hunstopped
      exact (Worker.batch_flushed hnone).frameDirty_eq
  | closed hending => exact hdone (.inl hending) (hloaded.before rfl)

/-- Once a program was loaded, a worker that was not stopped shows its screen. -/
theorem runAll_current {c : Config} {g : Generator} {now : Nat} {happenings : List Happening}
    (hunstopped : Unstopped ((ofConfig c g now).runAll happenings).1.ending?)
    (hloaded : Loaded ((ofConfig c g now).runAll happenings).2) :
    lastPicture? ((ofConfig c g now).runAll happenings).2 =
      some ((ofConfig c g now).runAll happenings).1.worker.interpreter.machine.screen := by
  have hclean : Unstopped ((ofConfig c g now).runAll happenings).1.ending? →
      Loaded ((ofConfig c g now).runAll happenings).2 →
      ((ofConfig c g now).runAll happenings).1.worker.interpreter.frameDirty = false := by
    refine runAll_induction (I := fun e entries => Unstopped e.ending? → Loaded entries →
      e.worker.interpreter.frameDirty = false) ?_ after_clean happenings
    exact fun _ hnil => absurd rfl hnil
  exact (runAll_tracked c g now happenings).clean (hclean hunstopped hloaded)

/-! ## Two runs -/

theorem start_blank (g : Generator) : Blank (Interpreter.start g) :=
  ⟨rfl, rfl, rfl⟩

/-- Two runs that load the same program and come to equally many steps are aligned. -/
theorem aligned_allOperations {e' : Engine} {happenings happenings' : List Happening}
    (hblank : Blank e.worker.interpreter) (hblank' : Blank e'.worker.interpreter)
    (hkeys : ∀ w, .writeKeypad w ∉ e.allOperations happenings)
    (hkeys' : ∀ w, .writeKeypad w ∉ e'.allOperations happenings')
    (h : programs (e.allOperations happenings) = [program])
    (h' : programs (e'.allOperations happenings') = [program])
    (hcount : (e.allOperations happenings).count .step =
      (e'.allOperations happenings').count .step) :
    Interpreter.Aligned false (e.allOperations happenings) (e'.allOperations happenings') := by
  have hkinds {e : Engine} {happenings : List Happening}
      (hkeys : ∀ w, .writeKeypad w ∉ e.allOperations happenings) :
      ∀ op ∈ e.allOperations happenings, op.essential = true ∨ op.aside false = true := by
    intro op hop
    rcases mem_allOperations hop with hessential | haside | ⟨w, rfl⟩
    · exact .inl hessential
    · exact .inr haside
    · exact absurd hop (hkeys w)
  refine Interpreter.aligned_of_filter (hkinds hkeys) (hkinds hkeys') ?_
  rw [filter_essential hblank h, filter_essential hblank' h', hcount]

/-- The only fault of a run is the one on which it halted. -/
theorem newFaults_of_none (h : e.ending? = none) (later : Engine) :
    newFaults e later = later.fault?.toList := by
  rw [newFaults, if_pos h, fault?]
  cases later.ending? with
  | none => rfl
  | some ending => cases ending <;> rfl

/-- Aligned runs with the same random bytes halt on the same fault, or both on none, and leave
parallel interpreters. -/
theorem aligned_runs {c c' : Config} {g : Generator} {now now' : Nat}
    {happenings happenings' : List Happening}
    (h : Interpreter.Aligned false ((ofConfig c g now).allOperations happenings)
      ((ofConfig c' g now').allOperations happenings'))
    (hfree : ∀ i ∈ (Interpreter.start g).fetched ((ofConfig c g now).allOperations happenings),
      i.readsDelay = false) :
    ((ofConfig c' g now').runAll happenings').1.fault? =
        ((ofConfig c g now).runAll happenings).1.fault? ∧
      Interpreter.Parallel (Interpreter.Untimed false)
        ((ofConfig c g now).runAll happenings).1.worker.interpreter
        ((ofConfig c' g now').runAll happenings').1.worker.interpreter := by
  have hbounded := Interpreter.start_bounded g
  rcases runAll_meets (e := ofConfig c g now) hbounded happenings with ⟨rs, hall, hfaults⟩
  rcases runAll_meets (e := ofConfig c' g now') hbounded happenings' with ⟨rs', hall', hfaults'⟩
  have hagree := (h.agree (.refl (Interpreter.start g)) hfree).2
  have hmatching : Interpreter.Matching false _ _ _ _ := hagree.of_ok hall hall'
  have hrefusals := hmatching.refusals_eq
  rw [hfaults, hfaults', newFaults_of_none rfl, newFaults_of_none rfl] at hrefusals
  -- each run has been refused once at most, so the lists are what is known of the halt
  have hfault := congrArg List.head? hrefusals
  rw [Option.head?_toList, Option.head?_toList] at hfault
  exact ⟨hfault, hmatching.parallel⟩

/-- Two histories of steps and ticks with equally many steps run the same instructions and are
answered alike, if the first never reads the delay timer, and end in states that differ in the
timers and the beep alone. Two engines that load the same program come to the same fault and the
same screen, whatever their rates. -/
theorem timers_unobserved :
    (∀ (s : Interpreter) (ops ops' : List Operation),
      (∀ op ∈ ops, op = .step ∨ op = .tick) → (∀ op ∈ ops', op = .step ∨ op = .tick) →
      ops.count .step = ops'.count .step → (∀ i ∈ s.fetched ops, i.readsDelay = false) →
        s.fetched ops' = s.fetched ops ∧
        Interpreter.Agree
          (fun a b => Interpreter.answersTo .step ops' b.1 = Interpreter.answersTo .step ops a.1 ∧
            b.2 = { a.2 with
              machine := { a.2.machine with timers := b.2.machine.timers }
              beepPending := b.2.beepPending })
          (s.applyAll ops) (s.applyAll ops')) ∧
    ∀ (c c' : Config) (g : Generator) (now now' : Nat) (program : List UInt8)
      (happenings happenings' : List Happening),
      let ops := (ofConfig c g now).allOperations happenings
      let ops' := (ofConfig c' g now').allOperations happenings'
      let run := (ofConfig c g now).runAll happenings
      let run' := (ofConfig c' g now').runAll happenings'
      (∀ w, .writeKeypad w ∉ ops) → (∀ w, .writeKeypad w ∉ ops') →
      programs ops = [program] → programs ops' = [program] →
      ops.count .step = ops'.count .step →
      (∀ i ∈ (Interpreter.start g).fetched ops, i.readsDelay = false) →
        (Interpreter.start g).fetched ops' = (Interpreter.start g).fetched ops ∧
        run'.1.fault? = run.1.fault? ∧
        run'.1.worker.interpreter = { run.1.worker.interpreter with
          machine := { run.1.worker.interpreter.machine with
            timers := run'.1.worker.interpreter.machine.timers }
          frameDirty := run'.1.worker.interpreter.frameDirty
          beepPending := run'.1.worker.interpreter.beepPending } ∧
        (Unstopped run.1.ending? → Unstopped run'.1.ending? →
          lastPicture? run.2 = some run.1.worker.interpreter.machine.screen ∧
          lastPicture? run'.2 = lastPicture? run.2) := by
  refine ⟨?_, ?_⟩
  · intro s ops ops' hops hops' hcount hfree
    have haligned : Interpreter.Aligned true ops ops' :=
      Interpreter.aligned_of_ticks hops hops' hcount
    rcases haligned.agree (.refl s) hfree with ⟨hfetched, hagree⟩
    refine ⟨hfetched, hagree.mono fun a b hab => ⟨hab.answersTo_eq, ?_⟩⟩
    have hdirty : b.2.frameDirty = a.2.frameDirty := hab.parallel.related.2 rfl
    have heq := hab.parallel.eq_of_untimed
    rw [hdirty] at heq
    exact heq
  · intro c c' g now now' program happenings happenings' ops ops' run run' hkeys hkeys' hload
      hload' hcount hfree
    have haligned : Interpreter.Aligned false ops ops' :=
      aligned_allOperations (start_blank g) (start_blank g) hkeys hkeys' hload hload' hcount
    rcases aligned_runs haligned hfree with ⟨hfault, hparallel⟩
    have heq := hparallel.eq_of_untimed
    have hscreen : run'.1.worker.interpreter.machine.screen =
        run.1.worker.interpreter.machine.screen := by
      rw [heq]
    refine ⟨(haligned.agree (.refl (Interpreter.start g)) hfree).1, hfault, heq, ?_⟩
    intro hunstopped hunstopped'
    have hshown := runAll_current hunstopped (loaded_of_programs hload)
    have hshown' := runAll_current hunstopped' (loaded_of_programs hload')
    exact ⟨hshown, by rw [hshown', hshown, hscreen]⟩

/-- A sprite is drawn after the delay timer was set, in one batch and in two, and with timers of
different rates. -/
theorem timers_unobserved_sprite :
    let program : List UInt8 := [0x60, 0x09, 0xF0, 0x15, 0xD0, 0x05, 0x12, 0x06]
    let quiet : Nat → List Call := fun _ => []
    let opening : List Happening :=
      [.call (.send (.load program)), .turn 0 quiet, .call (.send .start), .turn 0 quiet]
    let once := opening ++ [.turn 9000000 quiet]
    let twice := opening ++ [.turn 3000000 quiet, .turn 9000000 quiet]
    let slow := ofConfig {} (.ofSeed 7) 0
    let fast := ofConfig { timerRate := 300 } (.ofSeed 7) 0
    let ops := slow.allOperations once
    let ops' := fast.allOperations twice
    let s := Interpreter.start (.ofSeed 7)
    let loaded := (s.load program).next
    let late : List Operation := [.step, .step, .tick, .step, .tick]
    let early : List Operation := [.tick, .tick, .tick, .step, .step, .step]
    ((∀ op ∈ late, op = .step ∨ op = .tick) ∧ (∀ op ∈ early, op = .step ∨ op = .tick) ∧
      late.count .step = early.count .step ∧
      (∀ i ∈ loaded.fetched late, i.readsDelay = false) ∧
      (∀ w, .writeKeypad w ∉ ops) ∧ (∀ w, .writeKeypad w ∉ ops') ∧
      programs ops = [program] ∧ programs ops' = [program] ∧
      ops.count .step = ops'.count .step ∧ (∀ i ∈ s.fetched ops, i.readsDelay = false) ∧
      Unstopped (slow.runAll once).1.ending? ∧ Unstopped (fast.runAll twice).1.ending?) ∧
      loaded.fetched early = [.setConst 0 9, .setDelay 0, .draw 0 0 5] ∧
      lastPicture? (fast.runAll twice).2 = lastPicture? (slow.runAll once).2 ∧
      (fast.runAll twice).1.worker.interpreter.machine.timers ≠
        (slow.runAll once).1.worker.interpreter.machine.timers := by
  intro program quiet opening once twice slow fast ops ops' s loaded late early
  have hlate : ∀ op ∈ late, op = .step ∨ op = .tick := by decide
  have hearly : ∀ op ∈ early, op = .step ∨ op = .tick := by decide
  have hsame : late.count .step = early.count .step := by decide
  have hrun : loaded.fetched late = [.setConst 0 9, .setDelay 0, .draw 0 0 5] := by decide +kernel
  have hnone : ∀ i ∈ loaded.fetched late, i.readsDelay = false := by
    rw [hrun]
    decide
  -- both runs, evaluated: no key is written, the program is loaded once, five steps, no end
  have hevaluated : ((∀ op ∈ ops, op.essential = true ∨ op.aside false = true) ∧
      ∀ op ∈ ops', op.essential = true ∨ op.aside false = true) ∧
      (programs ops = [program] ∧ programs ops' = [program]) ∧
      ops.count .step = ops'.count .step ∧ (∀ i ∈ s.fetched ops, i.readsDelay = false) ∧
      ((slow.runAll once).1.ending? = none ∧ (fast.runAll twice).1.ending? = none) ∧
      (fast.runAll twice).1.worker.interpreter.machine.timers ≠
        (slow.runAll once).1.worker.interpreter.machine.timers := by
    decide +kernel
  rcases hevaluated with ⟨hkinds, hloads, hcount, hfree, hends, htimers⟩
  have hkeys (w) : .writeKeypad w ∉ ops := fun hw => by
    rcases hkinds.1 _ hw with hw | hw <;> cases hw
  have hkeys' (w) : .writeKeypad w ∉ ops' := fun hw => by
    rcases hkinds.2 _ hw with hw | hw <;> cases hw
  rcases timers_unobserved with ⟨hhistories, hruns⟩
  have hfetched := (hhistories loaded late early hlate hearly hsame hnone).1
  have hshown := (hruns {} { timerRate := 300 } (.ofSeed 7) 0 0 program once twice hkeys hkeys'
    hloads.1 hloads.2 hcount hfree).2.2.2 (.inl hends.1) (.inl hends.2)
  exact ⟨⟨hlate, hearly, hsame, hnone, hkeys, hkeys', hloads.1, hloads.2, hcount, hfree,
    .inl hends.1, .inl hends.2⟩, hfetched.trans hrun, hshown.2, htimers⟩

end Engine
end Chip8
