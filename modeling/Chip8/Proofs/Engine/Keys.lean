import Chip8.Proofs.Engine.Commands
import Chip8.Proofs.Interpreter.Keys

/-!
# Keys — when a pressed key is lost

A client presses a key past the queue, at once; the program it loaded before waits in the queue, and
when it is handled the reset that comes first releases all keys.  So it matters whether the load was
handled when the key went down, although the client has called for it long before.

A batch finds the queue empty when it begins.  By its steps, then, every load that was called for
before the batch has been handled; and what comes between a call and a step amid one batch are steps
and calls only, which release nothing that nobody wants released.

Main statement: `runAll_key_held`.
-/

namespace Chip8

/-- The program that an operation copies. -/
def Operation.program? : Operation → Option (List UInt8)
  | .load program => some program
  | _ => none

theorem Operation.program?_of_loads {op : Operation} (h : op.loads = false) :
    op.program? = none := by
  cases op with
  | load => cases h
  | _ => rfl

namespace Engine

/-! ## Loads of a run -/

/-- The programs that operations copy, in order. -/
def programs (ops : List Operation) : List (List UInt8) :=
  ops.filterMap Operation.program?

/-- The programs that clients want to have loaded, in order. -/
def calledFor (moments : List Moment) : List (List UInt8) :=
  (sent moments).filterMap Command.program?

@[simp]
theorem programs_append (ops more : List Operation) :
    programs (ops ++ more) = programs ops ++ programs more :=
  List.filterMap_append

@[simp]
theorem calledFor_append (moments more : List Moment) :
    calledFor (moments ++ more) = calledFor moments ++ calledFor more := by
  simp [calledFor]

/-- Where nothing is loaded there are no programs. -/
theorem programs_eq_nil {ops : List Operation} (h : ∀ op ∈ ops, op.loads = false) :
    programs ops = [] :=
  List.filterMap_eq_nil_iff.2 fun op hop => Operation.program?_of_loads (h op hop)

/-- No program is called for exactly if no load is sent. -/
theorem calledFor_eq_nil_iff {moments : List Moment} :
    calledFor moments = [] ↔ ∀ program, .load program ∉ sent moments := by
  rw [calledFor, List.filterMap_eq_nil_iff]
  constructor
  · intro hnone program hmem
    cases hnone _ hmem
  · intro hnever c hc
    cases c with
    | load program => exact absurd hc (hnever program)
    | start | pause | shutdown => rfl

/-- Operations that reset as often as they copy a program. -/
def Paired (ops : List Operation) : Prop :=
  ops.count .reset = (programs ops).length

theorem paired_of_quiet {ops : List Operation} (h : ∀ op ∈ ops, op.loads = false) :
    Paired ops := by
  unfold Paired
  rw [programs_eq_nil h, List.length_nil, List.count_eq_zero]
  intro hreset
  cases h _ hreset

/-- Pairs in one list and in the next are pairs in both. -/
theorem Paired.append {ops more : List Operation} (h : Paired ops) (hmore : Paired more) :
    Paired (ops ++ more) := by
  unfold Paired at *
  simp [h, hmore]

/-- Without a program there is no reset. -/
theorem Paired.reset_not_mem {ops : List Operation} (h : Paired ops) (hnil : programs ops = []) :
    .reset ∉ ops := by
  rw [← List.count_eq_zero, h, hnil, List.length_nil]

/-- A command that is handled copies its program, after a reset. -/
theorem programs_handleOperations (w : Worker) (c : Command) :
    programs (w.handleOperations c) = [c].filterMap Command.program? ∧
      Paired (w.handleOperations c) := by
  cases c with
  | start | pause | shutdown => exact ⟨rfl, rfl⟩
  | load program =>
      simp only [Worker.handleOperations, Stint.loadOperations, Paired]
      split <;> exact ⟨rfl, rfl⟩

/-- A happening copies the programs of the commands that it handles. -/
theorem after_programs (e : Engine) (h : Happening) :
    programs (e.operations h) = (handled (e.after h).2).filterMap Command.program? ∧
      Paired (e.operations h) := by
  have hout := e.operations_outcome h
  generalize e.operations h = ops at hout ⊢
  -- where nothing is loaded, no command was handled
  have hquiet {ops : List Operation} (hops : ∀ op ∈ ops, op.loads = false)
      (hnil : handled (e.after h).2 = []) :
      programs ops = (handled (e.after h).2).filterMap Command.program? ∧ Paired ops := by
    rw [hnil]
    exact ⟨programs_eq_nil hops, paired_of_quiet hops⟩
  cases hout with
  | none _ hnever =>
      refine hquiet (fun _ hop => nomatch hop) ?_
      rw [handled_eq_nil_iff]
      intro entry hentry
      cases entry with
      | handled c => exact absurd hentry (hnever c)
      | _ => rfl
  | keys w =>
      refine hquiet (fun op hop => ?_) rfl
      rw [List.mem_singleton.1 hop]
      rfl
  | handled now arrivals hnone hqueue =>
      rw [after, (handled_turn hnone hqueue now arrivals).1]
      exact programs_handleOperations e.worker _
  | batched now arrivals hdue =>
      refine hquiet (fun op hop => Worker.loads_of_mem_batchOperations hop) ?_
      simp [after, hdue.turn]

/-- The programs copied in a run are those of the loads handled. -/
theorem runAll_programs (e : Engine) (happenings : List Happening) :
    programs (e.allOperations happenings) =
        (handled (e.runAll happenings).2).filterMap Command.program? ∧
      Paired (e.allOperations happenings) := by
  induction happenings generalizing e with
  | nil => exact ⟨rfl, rfl⟩
  | cons h rest ih =>
      have hfirst := after_programs e h
      have hrest := ih (e.after h).1
      rw [allOperations_cons, programs_append, handled_runAll_cons, List.filterMap_append, hfirst.1,
        hrest.1]
      exact ⟨rfl, hfirst.2.append hrest.2⟩

/-! ## Calls and steps of a batch -/

/-- Nothing is done but steps, before which the keypad may be written. -/
def Amid (moments : List Moment) : Prop :=
  ∀ op ∈ operationsOf moments, op = .step ∨ ∃ w, op = .writeKeypad w

@[simp]
theorem amid_append_iff {moments more : List Moment} :
    Amid (moments ++ more) ↔ Amid moments ∧ Amid more := by
  simp [Amid, or_imp, forall_and]

/-- Amid a batch nothing is loaded. -/
theorem Amid.quiet {moments : List Moment} (h : Amid moments) :
    ∀ op ∈ operationsOf moments, op.loads = false := by
  intro op hop
  rcases h op hop with rfl | ⟨w, rfl⟩ <;> rfl

/-- A batch makes its steps, amid which there are calls, and then what is no step. -/
theorem Worker.exists_amid_of_batchMoments (w : Worker) (now : Nat) (arrivals : Nat → List Call) :
    ∃ (moments : List Moment) (ops : List Operation),
      w.batchMoments now arrivals = moments ++ ops.map .did ∧ Amid moments ∧ .step ∉ ops := by
  unfold batchMoments
  split
  · exact ⟨[], [], rfl, fun _ hop => (List.not_mem_nil hop).elim, List.not_mem_nil⟩
  · rename_i count _ _
    have hamid : Amid (Stint.stepsMoments arrivals count w.interpreter) :=
      fun _ hop => Stint.mem_stepsOperations hop
    split
    · rename_i number _ _ _
      exact ⟨_, List.replicate number .tick ++ flushing, rfl, hamid, by simp [flushing]⟩
    · exact ⟨_, [], rfl, hamid, List.not_mem_nil⟩

/-- Before a call or a step, its happening has made other steps and calls at most. -/
theorem amid_of_moments {e : Engine} {h : Happening} {front back : List Moment} {m : Moment}
    (hplace : e.moments h = front ++ m :: back) (hm : m = .did .step ∨ ∃ c, m = .called c) :
    Amid front := by
  -- what only the worker does, and is no step, is no such moment
  have hnever {ops : List Operation} (hops : .step ∉ ops) : m ∉ ops.map Moment.did := by
    intro hmem
    rcases List.mem_map.1 hmem with ⟨op, hop, rfl⟩
    rcases hm with hstep | ⟨c, hc⟩
    · cases hstep
      exact hops hop
    · cases hc
  cases h with
  | call c =>
      have hnil : front = [] := by
        rcases List.append_eq_singleton_iff.1 hplace.symm with ⟨hfront, -⟩ | ⟨-, hnil⟩
        · exact hfront
        · cases hnil
      rw [hnil]
      exact fun _ hop => (List.not_mem_nil hop).elim
  | turn now arrivals =>
      simp only [moments] at hplace
      split at hplace
      · simp at hplace
      · rename_i c _ _ _
        refine absurd ?_ (hnever (e.worker.not_mem_handleOperations c).1)
        rw [hplace]
        simp
      · split at hplace
        · rcases e.worker.exists_amid_of_batchMoments now arrivals with
            ⟨steps, ops, hmoments, hamid, hops⟩
          rw [hmoments] at hplace
          rcases Interpreter.place_in_append hplace with ⟨rest, hsteps, -⟩ | ⟨front', -, hrest⟩
          · rw [hsteps] at hamid
            exact (amid_append_iff.1 hamid).1
          · refine absurd ?_ (hnever hops)
            rw [hrest]
            simp
        · simp at hplace

/-- So a call or a step comes after whole happenings and, at most, the beginning of a batch. -/
theorem exists_amid_of_allMoments {e : Engine} {happenings : List Happening}
    {front back : List Moment} {m : Moment} (hplace : e.allMoments happenings = front ++ m :: back)
    (hm : m = .did .step ∨ ∃ c, m = .called c) :
    ∃ before amid, front = e.allMoments before ++ amid ∧ Amid amid ∧
      (m = .did .step → (e.runAll before).1.queue = []) := by
  rcases exists_happening_of_allMoments hplace with ⟨before, h, amid, back', hmoments, hfront⟩
  refine ⟨before, amid, hfront, amid_of_moments hmoments hm, ?_⟩
  rintro rfl
  have hmem : .step ∈ (e.runAll before).1.operations h := by
    rw [operations, hmoments]
    simp
  exact (BatchDue.of_mem hmem (.inl rfl)).queue_eq

/-- Up to a call or a step there were as many resets as loads. -/
theorem paired_of_allMoments {e : Engine} {happenings : List Happening}
    {front back : List Moment} {m : Moment} (hplace : e.allMoments happenings = front ++ m :: back)
    (hm : m = .did .step ∨ ∃ c, m = .called c) : Paired (operationsOf front) := by
  rcases exists_amid_of_allMoments hplace hm with ⟨before, amid, rfl, hamid, -⟩
  rw [operationsOf_append]
  exact (e.runAll_programs before).2.append (paired_of_quiet hamid.quiet)

/-- By a step everything has been loaded that was called for before its batch. -/
theorem programs_of_allMoments (c : Config) (g : Generator) (start : Nat)
    {happenings : List Happening} {front back : List Moment}
    (hplace : (ofConfig c g start).allMoments happenings = front ++ .did .step :: back) :
    ∃ before amid, front = before ++ amid ∧ Amid amid ∧
      programs (operationsOf front) = calledFor before := by
  rcases exists_amid_of_allMoments hplace (.inl rfl) with ⟨before, amid, rfl, hamid, hqueue⟩
  refine ⟨_, amid, rfl, hamid, ?_⟩
  have hobeyed := (runAll_obeyed (ofConfig c g start) before).queue_eq
  rw [hqueue rfl, List.append_nil] at hobeyed
  rw [operationsOf_append, programs_append, programs_eq_nil hamid.quiet, List.append_nil, calledFor]
  exact (runAll_programs _ before).1.trans (congrArg (List.filterMap Command.program?) hobeyed.symm)

/-! ## From a write of the keypad to a step -/

section

variable {e : Engine} {happenings : List Happening} {w : Keypad.Write}
  {front mid rest : List Moment}

/-- Whatever is loaded in between is loaded after a reset of its own. -/
theorem reset_not_mem_iff (hplace : e.allMoments happenings =
    front ++ .called (.writeKeypad w) :: (mid ++ .did .step :: rest)) :
    .reset ∉ operationsOf mid ↔ programs (operationsOf mid) = [] := by
  have hstep : e.allMoments happenings =
      (front ++ .called (.writeKeypad w) :: mid) ++ .did .step :: rest := by
    rw [hplace, List.append_assoc, List.cons_append]
  have hfront : Paired (operationsOf front) := paired_of_allMoments hplace (.inr ⟨_, rfl⟩)
  have hall : Paired (operationsOf (front ++ .called (.writeKeypad w) :: mid)) :=
    paired_of_allMoments hstep (.inl rfl)
  have hmid : Paired (operationsOf mid) := by
    have hwrite : operationsOf (.called (.writeKeypad w) :: mid) =
        .writeKeypad w :: operationsOf mid := rfl
    have hcount : (Operation.writeKeypad w :: operationsOf mid).count .reset =
        (operationsOf mid).count .reset := List.count_cons_of_ne (by simp)
    unfold Paired at *
    rw [operationsOf_append, hwrite, List.count_append, hcount, programs_append, List.length_append,
      hfront] at hall
    exact Nat.add_left_cancel hall
  refine ⟨fun hreset => ?_, hmid.reset_not_mem⟩
  rw [← List.length_eq_zero_iff, ← hmid, List.count_eq_zero]
  exact hreset

/-- If no more loads are called for, the step runs the program called for last, or it belongs to the
batch amid which that was called for and the keypad was written. -/
theorem programs_or_amid {c : Config} {g : Generator} {start : Nat}
    (hplace : (ofConfig c g start).allMoments happenings =
      front ++ .called (.writeKeypad w) :: (mid ++ .did .step :: rest))
    (hload : ∀ program, .load program ∉ sent mid) :
    programs (operationsOf (front ++ .called (.writeKeypad w) :: mid)) = calledFor front ∨
      ∃ past amid, front = past ++ amid ∧ (∃ program, .load program ∈ sent amid) ∧
        Amid (amid ++ mid) := by
  have hstep : (ofConfig c g start).allMoments happenings =
      (front ++ .called (.writeKeypad w) :: mid) ++ .did .step :: rest := by
    rw [hplace, List.append_assoc, List.cons_append]
  rcases programs_of_allMoments c g start hstep with ⟨past, amid, hsplit, hamid, hcopied⟩
  rw [hcopied]
  rcases Interpreter.place_in_append hsplit.symm with ⟨late, hpast, hmid⟩ | ⟨early, hfront, hlate⟩
  · -- the step belongs to a later batch, before which all that was called for was loaded
    have hnone : calledFor (.called (.writeKeypad w) :: late) = [] := by
      rw [calledFor_eq_nil_iff]
      intro program hmem
      refine hload program ?_
      rw [hmid, sent_append]
      exact List.mem_append_left _ hmem
    exact .inl (by rw [hpast, calledFor_append, hnone, List.append_nil])
  · rw [hlate, amid_append_iff] at hamid
    have hrest : Amid mid := fun op hop => hamid.2 op (.tail _ hop)
    rw [hfront, calledFor_append, List.self_eq_append_right, calledFor_eq_nil_iff]
    by_cases hquiet : ∀ program, .load program ∉ sent early
    · exact .inl hquiet
    · exact .inr ⟨past, early, rfl, by simpa using hquiet, amid_append_iff.2 ⟨hamid.1, hrest⟩⟩

end

/-! ## Runs -/

/-- What becomes of a key that is pressed in a run, if nobody releases it after that or calls for
another load. A step of the program called for last sees it held if that had been loaded before the
press, or if the key was pressed again since. Steps of an earlier program are the rest of the batch
in which the key was pressed, and see it held. -/
theorem runAll_key_held (c : Config) (g : Generator) (start : Nat) {key : UInt8}
    (hkey : key.toNat ≤ 15) (happenings : List Happening) :
    let press : Moment := .called (.writeKeypad (.set key true))
    ∀ front back, (ofConfig c g start).allMoments happenings = front ++ press :: back →
      (∀ program, .load program ∉ sent back) →
      (∀ op ∈ operationsOf back, ¬ op.Releases key) →
      ∀ mid rest, back = mid ++ .did .step :: rest →
        let ops := operationsOf (front ++ press :: mid)
        ∃ s, (Interpreter.start g).Leads ops s ∧
          (programs ops = calledFor front →
            (s.machine.keypad.isPressed key = true ↔
              programs (operationsOf front) = calledFor front ∨
                PressedSince key (operationsOf mid))) ∧
          (programs ops ≠ calledFor front →
            s.machine.keypad.isPressed key = true ∧ ∃ past amid, front = past ++ amid ∧
              (∃ program, .load program ∈ sent amid) ∧ Amid (amid ++ mid)) := by
  intro press front back hpress hload hrelease mid rest hplace ops
  subst hplace
  have hops : ops = operationsOf front ++ .writeKeypad (.set key true) :: operationsOf mid :=
    operationsOf_append front (press :: mid)
  -- the operations of the whole run pass through the state before the step
  have hleads : ∃ s, (Interpreter.start g).Leads ops s := by
    have hbounded : (ofConfig c g start).worker.interpreter.Bounded := Interpreter.start_bounded g
    have hall := runAll_leads hbounded happenings
    have hsplit : (ofConfig c g start).allMoments happenings =
        (front ++ press :: mid) ++ .did .step :: rest := by
      rw [hpress, List.append_assoc, List.cons_append]
    rw [allOperations, hsplit, operationsOf_append, operationsOf_did] at hall
    rcases hall.split with ⟨s, hs, -⟩
    exact ⟨s, hs⟩
  rcases hleads with ⟨s, hs⟩
  have hheld : s.machine.keypad.isPressed key = true ↔
      programs (operationsOf mid) = [] ∨ PressedSince key (operationsOf mid) := by
    have hkeep : ∀ op ∈ operationsOf mid, ¬ op.Releases key := by
      intro op hop
      exact hrelease op (by simp [hop])
    rw [hs.isPressed (Nat.lt_succ_of_le hkey), hops, heldAfter_press, heldAfter_iff hkeep,
      reset_not_mem_iff hpress]
    simp only [true_and]
  refine ⟨s, hs, ?_, ?_⟩
  · intro hloaded
    have hprograms :
        programs ops = programs (operationsOf front) ++ programs (operationsOf mid) := by
      rw [hops, programs_append]
      rfl
    rw [hheld, ← hloaded, hprograms, List.self_eq_append_right]
  · intro hearlier
    have hmid : ∀ program, .load program ∉ sent mid := by
      intro program hmem
      exact hload program (by simp [hmem])
    rcases programs_or_amid hpress hmid with hloaded | ⟨past, amid, hfront, hcalled, hamid⟩
    · exact absurd hloaded hearlier
    · -- amid a batch nothing is loaded
      have hquiet := (amid_append_iff.1 hamid).2.quiet
      exact ⟨hheld.2 (.inl (programs_eq_nil hquiet)), past, amid, hfront, hcalled, hamid⟩

/-! ## A skip on key five -/

/-- Five goes into V0, and the program halts on an opcode of zero if that key is not held, and on
one of one if it is. -/
def skipOnFive : List UInt8 := [0x60, 0x05, 0xE0, 0x9E, 0x00, 0x00, 0x00, 0x01]

/-- The client loads and starts a program, in this order. -/
def skipping : List Happening := [.call (.send (.load skipOnFive)), .call (.send .start)]

def turnsAt (times : List Nat) : List Happening :=
  times.map fun now => .turn now fun _ => []

/-- The load and the start have been handled when the key is pressed, so the second step sees it
held. -/
theorem runAll_key_held_in_time :
    let happenings := skipping ++ turnsAt [0, 0] ++
      .call (.writeKeypad (.set 5 true)) :: turnsAt [0, 2000000]
    let press : Moment := .called (.writeKeypad (.set 5 true))
    let front : List Moment := [.called (.send (.load skipOnFive)), .called (.send .start),
      .did .reset, .did (.load skipOnFive), .did .takeFrame, .did .takeBeep]
    let mid : List Moment := [.did .step, .did .tick, .did .takeFrame, .did .takeBeep]
    let back := mid ++ .did .step :: [.did .takeFrame, .did .takeBeep]
    let ops := operationsOf (front ++ press :: mid)
    ((5 : UInt8).toNat ≤ 15 ∧
      (ofConfig {} (.ofSeed 3) 0).allMoments happenings = front ++ press :: back ∧
      (∀ program, .load program ∉ sent back) ∧ ∀ op ∈ operationsOf back, ¬ op.Releases 5) ∧
      ∃ s, (Interpreter.start (.ofSeed 3)).Leads ops s ∧ programs ops = [skipOnFive] ∧
        s.machine.keypad.isPressed 5 = true := by
  intro happenings press front mid back ops
  have hkey : (5 : UInt8).toNat ≤ 15 := by decide
  have hpress : (ofConfig {} (.ofSeed 3) 0).allMoments happenings = front ++ press :: back := by
    decide +kernel
  have hload : ∀ program, .load program ∉ sent back := calledFor_eq_nil_iff.1 rfl
  have hrelease : ∀ op ∈ operationsOf back, ¬ op.Releases 5 := by
    unfold Operation.Releases
    decide
  rcases runAll_key_held {} (.ofSeed 3) 0 hkey happenings front back hpress hload hrelease mid _ rfl
    with ⟨s, hs, hlast, -⟩
  exact ⟨⟨hkey, hpress, hload, hrelease⟩, s, hs, rfl, (hlast rfl).2 (.inl rfl)⟩

/-- The same client is as fast as to press the key before the worker has taken a turn. The second
step does not see the key held, and the program halts where it halts without the key. -/
theorem key_lost_to_load :
    let e := ofConfig {} (.ofSeed 3) 0
    let happenings := skipping ++
      .call (.writeKeypad (.set 5 true)) :: turnsAt [0, 0, 0, 2000000, 4000000]
    let press : Moment := .called (.writeKeypad (.set 5 true))
    let front : List Moment := [.called (.send (.load skipOnFive)), .called (.send .start)]
    let mid : List Moment := [.did .reset, .did (.load skipOnFive), .did .takeFrame, .did .takeBeep,
      .did .step, .did .tick, .did .takeFrame, .did .takeBeep]
    let back := mid ++ .did .step :: [.did .takeFrame, .did .takeBeep, .did .step]
    e.allMoments happenings = front ++ press :: back ∧
      (∀ program, .load program ∉ sent back) ∧ (∀ op ∈ operationsOf back, ¬ op.Releases 5) ∧
      ((Interpreter.start (.ofSeed 3)).applyAll (operationsOf (front ++ press :: mid))).toOption.map
        (fun answer => answer.2.machine.keypad.isPressed 5) = some false ∧
      (e.runAll happenings).1.fault? = some (.unknownOpcode 0 0x204) := by
  intro e happenings press front mid back
  have hrun : e.allMoments happenings = front ++ press :: back ∧
      ((Interpreter.start (.ofSeed 3)).applyAll (operationsOf (front ++ press :: mid))).toOption.map
        (fun answer => answer.2.machine.keypad.isPressed 5) = some false ∧
      (e.runAll happenings).1.fault? = some (.unknownOpcode 0 0x204) := by
    decide +kernel
  refine ⟨hrun.1, calledFor_eq_nil_iff.1 rfl, ?_, hrun.2⟩
  unfold Operation.Releases
  decide

end Engine
end Chip8
