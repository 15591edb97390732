import Chip8.Proofs.Engine.Rates
import Chip8.Proofs.Engine.Reports
import Chip8.Proofs.Interpreter.History

/-!
# Operations — a run of an engine as a history of its interpreter

What clients and worker do, in one order, are the `Moment`s of a run; `Engine.allMoments` lists
them.

Whatever an engine does to its interpreter is one of the operations that anybody could ask of it:
clients change keys, a load resets and copies, a batch steps, ticks and takes the frame and the
beep.  `Engine.allOperations` lists the operations of a run, which its moments name.  They lead from
the first interpreter of the run to its last one, and none of them is refused but the one that halts
the worker.

So what is known of histories of operations is known of engines, and a statement about a moment
within a run, such as a step in the middle of a batch, is one about a front part of its history.

Main statement: `runAll_meets`.
-/

namespace Chip8

/-- The operation changes the program. -/
def Operation.loads : Operation → Bool
  | .reset | .load _ => true
  | _ => false

namespace Engine

open Interpreter (Leads)

/-! ## Moments -/

/-- A client makes a call, or the worker carries out an operation. -/
inductive Moment where
  | called (c : Call)
  | did (op : Operation)
  deriving DecidableEq, Repr

namespace Moment

/-- The operation on the interpreter, which is the worker's or a write of the keypad. -/
@[simp]
def operation? : Moment → Option Operation
  | called c => c.write?.map .writeKeypad
  | did op => some op

@[simp]
def call? : Moment → Option Call
  | called c => some c
  | did _ => none

end Moment

/-- The operations among moments, in order. -/
def operationsOf (moments : List Moment) : List Operation :=
  moments.filterMap Moment.operation?

@[simp]
theorem operationsOf_append (moments more : List Moment) :
    operationsOf (moments ++ more) = operationsOf moments ++ operationsOf more :=
  List.filterMap_append

@[simp]
theorem operationsOf_did (op : Operation) (rest : List Moment) :
    operationsOf (.did op :: rest) = op :: operationsOf rest := rfl

@[simp]
theorem operationsOf_map_did (ops : List Operation) : operationsOf (ops.map .did) = ops := by
  induction ops with
  | nil => rfl
  | cons op rest ih => simp [ih]

/-- Of the calls only writes of the keypad are operations. -/
@[simp]
theorem operationsOf_map_called (calls : List Call) :
    operationsOf (calls.map .called) = (writes calls).map .writeKeypad := by
  simp only [operationsOf, writes, List.filterMap_map, List.map_filterMap]
  rfl

/-- The calls among moments, in order. -/
def callsOf (moments : List Moment) : List Call :=
  moments.filterMap Moment.call?

@[simp]
theorem callsOf_append (moments more : List Moment) :
    callsOf (moments ++ more) = callsOf moments ++ callsOf more :=
  List.filterMap_append

@[simp]
theorem callsOf_did (op : Operation) (rest : List Moment) :
    callsOf (.did op :: rest) = callsOf rest := rfl

/-- What the worker does calls for nothing. -/
@[simp]
theorem callsOf_map_did (ops : List Operation) : callsOf (ops.map .did) = [] := by
  induction ops with
  | nil => rfl
  | cons op rest ih => simp [ih]

@[simp]
theorem callsOf_map_called (calls : List Call) : callsOf (calls.map .called) = calls := by
  induction calls with
  | nil => rfl
  | cons c rest ih => exact congrArg (c :: ·) ih

/-! ## Pieces of work -/

/-- The fault with which a piece of work ends, if it does. -/
def faults : Option Ending → List Fault
  | some (.fault f) => [f]
  | _ => []

/-- What is asked of an interpreter to show what it has to show. -/
def flushing : List Operation := [.takeFrame, .takeBeep]

namespace Stint

/-- The moments of a number of steps.  None follows a step that ends the batch. -/
def stepsMoments (arrivals : Nat → List Call) : Nat → Interpreter → List Moment
  | 0, _ => []
  | count + 1, s =>
      let first := step (s.writeKeypads (writes (arrivals 0)))
      (arrivals 0).map .called ++ .did .step ::
        match first.ending? with
        | some _ => []
        | none => stepsMoments (fun k => arrivals (k + 1)) count first.interpreter

def stepsOperations (arrivals : Nat → List Call) (count : Nat) (s : Interpreter) :
    List Operation :=
  operationsOf (stepsMoments arrivals count s)

/-- Before each step the keypad changes. -/
theorem stepsOperations_succ (arrivals : Nat → List Call) (count : Nat) (s : Interpreter) :
    stepsOperations arrivals (count + 1) s =
      (writes (arrivals 0)).map .writeKeypad ++ .step ::
        match (step (s.writeKeypads (writes (arrivals 0)))).ending? with
        | some _ => []
        | none => stepsOperations (fun k => arrivals (k + 1)) count
            (step (s.writeKeypads (writes (arrivals 0)))).interpreter := by
  simp only [stepsOperations, stepsMoments, operationsOf_append, operationsOf_map_called,
    operationsOf_did]
  split <;> rfl

/-- The calls are those that arrived by the end of the steps. -/
@[simp]
theorem callsOf_stepsMoments (arrivals : Nat → List Call) (count : Nat) (s : Interpreter) :
    callsOf (stepsMoments arrivals count s) = (steps arrivals count s).calls := by
  induction count generalizing arrivals s with
  | zero => rfl
  | succ count ih =>
      simp only [stepsMoments, steps, andThen, callsOf_append, callsOf_map_called, callsOf_did]
      -- a step that ends the batch is its last one
      cases (step (s.writeKeypads (writes (arrivals 0)))).ending? with
      | some ending => exact List.append_nil _
      | none => simp only [ih]

/-- The steps of a batch are a history, which meets the fault that ends them. -/
theorem steps_meets (arrivals : Nat → List Call) (count : Nat) {s : Interpreter}
    (h : s.Bounded) :
    s.Meets (stepsOperations arrivals count s) (faults (steps arrivals count s).ending?)
      (steps arrivals count s).interpreter := by
  induction count generalizing arrivals s with
  | zero => exact .refl s
  | succ count ih =>
      have hkeys := Interpreter.meets_writeKeypads s (writes (arrivals 0))
      rcases (h.writeKeypads (writes (arrivals 0))).step with ⟨⟨fault?, next⟩, hstep, hnext⟩
      have happly : (s.writeKeypads (writes (arrivals 0))).apply .step =
          .ok (Outcome.response ⟨fault?, next⟩, next) := by
        simp only [Interpreter.apply, hstep]
        rfl
      -- the keypad changes before the step, and the rest follows only if it succeeds
      rw [steps, stepsOperations_succ]
      rw [← List.nil_append (faults _)]
      refine hkeys.append ?_
      unfold step
      rw [hstep]
      cases fault? with
      | some f => exact .cons happly (.refl next)
      | none => exact .cons_of_none happly rfl (ih (fun k => arrivals (k + 1)) hnext)

/-- Amid the steps of a batch only the keypad changes. -/
theorem mem_stepsOperations {arrivals : Nat → List Call} {count : Nat} {s : Interpreter}
    {op : Operation} (h : op ∈ stepsOperations arrivals count s) :
    op = .step ∨ ∃ w, op = .writeKeypad w := by
  induction count generalizing arrivals s with
  | zero => cases h
  | succ count ih =>
      simp only [stepsOperations_succ, List.mem_append, List.mem_map, List.mem_cons] at h
      rcases h with ⟨w, -, rfl⟩ | rfl | hrest
      · exact .inr ⟨w, rfl⟩
      · exact .inl rfl
      · split at hrest
        · cases hrest
        · exact ih hrest

/-- A batch asks for no more steps than are due, and its steps are asked for without ticks. -/
theorem count_stepsOperations (arrivals : Nat → List Call) (count : Nat)
    (s : Interpreter) :
    (stepsOperations arrivals count s).count .step ≤ count ∧
      (stepsOperations arrivals count s).count .tick = 0 := by
  refine ⟨?_, ?_⟩
  · induction count generalizing arrivals s with
    | zero => exact Nat.le_refl 0
    | succ count ih =>
        have hkeys : ((writes (arrivals 0)).map Operation.writeKeypad).count .step = 0 := by
          rw [List.count_eq_zero]
          intro hmem
          rcases List.mem_map.1 hmem with ⟨w, -, heq⟩
          cases heq
        have hrest := ih (fun k => arrivals (k + 1))
          (step (s.writeKeypads (writes (arrivals 0)))).interpreter
        rw [stepsOperations_succ, List.count_append, hkeys, List.count_cons_self]
        split
        · exact Nat.le_add_left _ _
        · omega
  · rw [List.count_eq_zero]
    intro hmem
    rcases mem_stepsOperations hmem with htick | ⟨w, htick⟩ <;> cases htick

theorem ticks_meets (count : Nat) (s : Interpreter) :
    s.Meets (List.replicate count .tick) [] (ticks count s).interpreter := by
  induction count generalizing s with
  | zero => exact .refl s
  | succ count ih =>
      have hfirst : s.apply .tick = .ok (.flag s.tickBeeps, s.tick) := rfl
      exact .cons_of_none hfirst rfl (ih s.tick)

/-- Taking the frame and the beep is never refused. -/
theorem flush_meets (s : Interpreter) : s.Meets flushing [] s.frameTaken.beepTaken := by
  have hframe : s.apply .takeFrame = .ok (.frame s.frame?, s.frameTaken) := rfl
  have hbeep : s.frameTaken.apply .takeBeep =
      .ok (.flag s.frameTaken.beepPending, s.frameTaken.beepTaken) := rfl
  exact .cons_of_none hframe rfl (.cons_of_none hbeep rfl (.refl _))

/-- A program that does not fit ends the worker, and nothing is shown. -/
def loadOperations (program : List UInt8) (s : Interpreter) : List Operation :=
  .reset :: .load program ::
    match (load program s).ending? with
    | some _ => []
    | none => flushing

/-- A load meets the fault of a program that does not fit. -/
theorem load_meets (program : List UInt8) (s : Interpreter) :
    s.Meets (loadOperations program s) (faults (load program s).ending?)
      (load program s).interpreter := by
  have hreset : s.apply .reset = .ok (.done, s.reset) := rfl
  refine .cons_of_none hreset rfl ?_
  unfold load
  have happly : s.reset.apply (.load program) =
      .ok ((s.reset.load program).response, (s.reset.load program).next) := rfl
  generalize s.reset.load program = o at happly
  rcases o with ⟨fault?, next⟩
  cases fault? with
  | some f => exact .cons happly (.refl next)
  | none => exact .cons_of_none happly rfl (flush_meets next)

end Stint

namespace Worker

def handleOperations (w : Worker) : Command → List Operation
  | .load program => Stint.loadOperations program w.interpreter
  | .start | .pause | .shutdown => []

/-- The moments of a batch, as far as it gets. -/
def batchMoments (w : Worker) (now : Nat) (arrivals : Nat → List Call) : List Moment :=
  match w.steps.due now with
  | .error _ => []
  | .ok (count, _) =>
      Stint.stepsMoments arrivals count w.interpreter ++
        match (Stint.steps arrivals count w.interpreter).ending?, w.timers.due now with
        | none, .ok (number, _) => (List.replicate number Operation.tick ++ flushing).map .did
        | _, _ => []

def batchOperations (w : Worker) (now : Nat) (arrivals : Nat → List Call) : List Operation :=
  operationsOf (w.batchMoments now arrivals)

/-- Steps come first, and if they do not end the batch, ticks and a flush. -/
theorem batchOperations_eq (w : Worker) (now : Nat) (arrivals : Nat → List Call) :
    w.batchOperations now arrivals =
      match w.steps.due now with
      | .error _ => []
      | .ok (count, _) =>
          Stint.stepsOperations arrivals count w.interpreter ++
            match (Stint.steps arrivals count w.interpreter).ending?, w.timers.due now with
            | none, .ok (number, _) => List.replicate number .tick ++ flushing
            | _, _ => [] := by
  unfold batchOperations batchMoments
  split
  · rfl
  · rw [operationsOf_append]
    split
    · rw [operationsOf_map_did]
      rfl
    · rfl

/-- A batch leaves to the engine all calls that came amid its steps. -/
@[simp]
theorem callsOf_batchMoments (w : Worker) (now : Nat) (arrivals : Nat → List Call) :
    callsOf (w.batchMoments now arrivals) = (w.batch now arrivals).calls := by
  have hout := w.batch_outcome now arrivals
  generalize w.batch now arrivals = p at hout ⊢
  cases hout with
  | uncounted hdue => simp [batchMoments, hdue, callsOf]
  | cut hdue hsteps hending =>
      subst hsteps
      simp [batchMoments, hdue, hending]
  | unticked hdue hsteps hending hticks =>
      subst hsteps
      simp [batchMoments, hdue, hending, hticks]
  | finished hdue hsteps hending hticks =>
      subst hsteps
      simp only [batchMoments, hdue, hending, hticks, callsOf_append, callsOf_map_did,
        Stint.callsOf_stepsMoments, List.append_nil]

/-- A command that is handled is a history. -/
theorem handle_meets (w : Worker) (now : Nat) (c : Command) :
    w.interpreter.Meets (w.handleOperations c) (faults (w.handle now c).ending?)
      (w.handle now c).worker.interpreter := by
  cases c with
  | load program => exact Stint.load_meets program w.interpreter
  | start | pause | shutdown => exact .refl _

/-- A command neither steps nor ticks. -/
theorem not_mem_handleOperations (w : Worker) (c : Command) :
    .step ∉ w.handleOperations c ∧ .tick ∉ w.handleOperations c := by
  cases c with
  | start | pause | shutdown => exact ⟨List.not_mem_nil, List.not_mem_nil⟩
  | load program =>
      simp only [handleOperations, Stint.loadOperations]
      split <;> simp [flushing]

/-- A batch is a history. -/
theorem batch_meets {w : Worker} (h : w.interpreter.Bounded) (now : Nat)
    (arrivals : Nat → List Call) :
    w.interpreter.Meets (w.batchOperations now arrivals) (faults (w.batch now arrivals).ending?)
      (w.batch now arrivals).worker.interpreter := by
  have hout := w.batch_outcome now arrivals
  generalize w.batch now arrivals = p at hout ⊢
  cases hout with
  | uncounted hdue =>
      simp only [batchOperations_eq, hdue]
      exact .refl _
  | @cut count _ _ _ hdue hsteps hending =>
      subst hsteps
      have hmeets := Stint.steps_meets arrivals count h
      rw [hending] at hmeets
      simp only [batchOperations_eq, hdue, hending, List.append_nil]
      exact hmeets
  | @unticked count _ _ _ hdue hsteps hending hticks =>
      subst hsteps
      have hmeets := Stint.steps_meets arrivals count h
      rw [hending] at hmeets
      simp only [batchOperations_eq, hdue, hending, hticks, List.append_nil]
      exact hmeets
  | @finished count _ _ _ _ _ hdue hsteps hending hticks hticked =>
      subst hsteps hticked
      have hmeets := Stint.steps_meets arrivals count h
      rw [hending] at hmeets
      simp only [batchOperations_eq, hdue, hending, hticks]
      exact hmeets.append ((Stint.ticks_meets _ _).append (Stint.flush_meets _))

theorem mem_batchOperations {w : Worker} {now : Nat} {arrivals : Nat → List Call}
    {op : Operation} (h : op ∈ w.batchOperations now arrivals) :
    op = .step ∨ (∃ v, op = .writeKeypad v) ∨ op = .tick ∨ op = .takeFrame ∨ op = .takeBeep := by
  rw [batchOperations_eq] at h
  split at h
  · cases h
  · rcases List.mem_append.1 h with hsteps | hrest
    · rcases Stint.mem_stepsOperations hsteps with hstep | hkey
      · exact .inl hstep
      · exact .inr (.inl hkey)
    · split at hrest
      · rcases List.mem_append.1 hrest with hticks | hflush
        · exact .inr (.inr (.inl (List.eq_of_mem_replicate hticks)))
        · simp only [flushing, List.mem_cons, List.not_mem_nil, or_false] at hflush
          exact .inr (.inr (.inr hflush))
      · cases hrest

/-- Nothing is loaded in a batch. -/
theorem loads_of_mem_batchOperations {w : Worker} {now : Nat} {arrivals : Nat → List Call}
    {op : Operation} (h : op ∈ w.batchOperations now arrivals) : op.loads = false := by
  rcases mem_batchOperations h with rfl | ⟨v, rfl⟩ | rfl | rfl | rfl <;> rfl

end Worker

/-! ## Happenings -/

/-- What clients and worker do while something happens. -/
def moments (e : Engine) : Happening → List Moment
  | .call c => [.called c]
  | .turn now arrivals =>
      match e.ending?, e.queue with
      | some _, _ => []
      | none, c :: _ => (e.worker.handleOperations c).map .did
      | none, [] =>
          if e.connected && e.worker.running then e.worker.batchMoments now arrivals else []

/-- A turn without a command has the moments of its batch. -/
theorem BatchDue.moments {e : Engine} (h : e.BatchDue) (now : Nat) (arrivals : Nat → List Call) :
    e.moments (.turn now arrivals) = e.worker.batchMoments now arrivals := by
  simp only [Engine.moments, h.ending?_eq, h.queue_eq, h.connected_eq, h.running_eq, Bool.and_self,
    ↓reduceIte]

/-- The operations that a happening carries out. -/
def operations (e : Engine) (h : Happening) : List Operation :=
  operationsOf (e.moments h)

/-- A turn carries out one command, one batch or nothing. -/
theorem operations_turn (e : Engine) (now : Nat) (arrivals : Nat → List Call) :
    e.operations (.turn now arrivals) =
      match e.ending?, e.queue with
      | some _, _ => []
      | none, c :: _ => e.worker.handleOperations c
      | none, [] =>
          if e.connected && e.worker.running then e.worker.batchOperations now arrivals
          else [] := by
  simp only [operations, moments]
  split
  · rfl
  · exact operationsOf_map_did _
  · split <;> rfl

/-- What a happening asks of the interpreter: nothing, a key write, the operations of a command, or
those of a batch. -/
inductive OperationsOutcome (e : Engine) : Happening → List Operation → Prop where
  | none {h : Happening} : (e.after h).1.worker = e.worker →
      (∀ c, .handled c ∉ (e.after h).2) →
      (e.ending? = .none → faults (e.after h).1.ending? = []) → OperationsOutcome e h []
  | keys (w : Keypad.Write) : OperationsOutcome e (.call (.writeKeypad w)) [.writeKeypad w]
  | handled {c : Command} {rest : List Command} (now : Nat)
      (arrivals : Nat → List Call) : e.ending? = .none → e.queue = c :: rest →
      OperationsOutcome e (.turn now arrivals) (e.worker.handleOperations c)
  | batched (now : Nat) (arrivals : Nat → List Call) : e.BatchDue →
      OperationsOutcome e (.turn now arrivals) (e.worker.batchOperations now arrivals)

theorem operations_outcome (e : Engine) (h : Happening) :
    OperationsOutcome e h (e.operations h) := by
  cases h with
  | call c =>
      cases c with
      | writeKeypad w => exact .keys w
      | send | disconnect =>
          refine .none rfl (fun c => List.not_mem_nil) fun hending => ?_
          exact congrArg faults hending
  | turn now arrivals =>
      -- a turn that finds nothing to do
      have hidle (hturn : e.turn now arrivals = (e, [])) :
          OperationsOutcome e (.turn now arrivals) [] := by
        refine .none ?_ (fun c => ?_) fun hending => ?_
        · rw [after, hturn]
        · simp [after, hturn]
        · rw [after, hturn]
          exact congrArg faults hending
      cases hending : e.ending? with
      | some ending =>
          simp only [operations_turn, hending]
          exact hidle (by simp only [turn, hending])
      | none =>
          cases hqueue : e.queue with
          | cons c rest =>
              simp only [operations_turn, hending, hqueue]
              exact .handled now arrivals hending hqueue
          | nil =>
              simp only [operations_turn, hending, hqueue]
              cases hconnected : e.connected with
              | false =>
                  have hturn : e.turn now arrivals =
                      e.record { worker := e.worker, ending? := some .shutdown } := by
                    simp only [turn, hending, hqueue, hconnected]
                    rfl
                  refine .none ?_ (fun c => ?_) fun _ => ?_
                  · simp [after, hturn]
                  · simp [after, hturn, record, farewell]
                  · simp [after, hturn, record, faults]
              | true =>
                  cases hrunning : e.worker.running with
                  | false =>
                      refine hidle ?_
                      simp only [turn, hending, hqueue, hconnected, hrunning]
                      rfl
                  | true => exact .batched now arrivals ⟨hending, hqueue, hconnected, hrunning⟩

/-- The fault that ends the worker between two moments, if one does. -/
def newFaults (e later : Engine) : List Fault :=
  if e.ending? = none then faults later.ending? else []

theorem newFaults_of_eq {e later : Engine} (h : later.ending? = e.ending?) :
    newFaults e later = [] := by
  unfold newFaults
  split
  · rename_i hnone
    rw [h, hnone]
    rfl
  · rfl

/-- An ending stays, so there is one such fault at most. -/
theorem newFaults_append {e mid later : Engine}
    (hmid : ∀ ending, e.ending? = some ending → mid.ending? = some ending)
    (hlater : ∀ ending, mid.ending? = some ending → later.ending? = some ending) :
    newFaults e mid ++ newFaults mid later = newFaults e later := by
  cases he : e.ending? with
  | some ending =>
      have hm := hmid ending he
      have hl := hlater ending hm
      rw [newFaults_of_eq (hm.trans he.symm), newFaults_of_eq (hl.trans hm.symm),
        newFaults_of_eq (hl.trans he.symm), List.append_nil]
  | none =>
      cases hm : mid.ending? with
      | none =>
          rw [newFaults_of_eq (hm.trans he.symm), newFaults, newFaults, he, hm, List.nil_append]
      | some ending =>
          have hl := hlater ending hm
          rw [newFaults_of_eq (hl.trans hm.symm), newFaults, newFaults, he, hm, hl,
            List.append_nil]

/-- A happening meets the fault with which it ends the worker, and no other. -/
theorem after_meets {e : Engine} (h : e.worker.interpreter.Bounded) (happening : Happening) :
    e.worker.interpreter.Meets (e.operations happening) (newFaults e (e.after happening).1)
      (e.after happening).1.worker.interpreter := by
  have hout := e.operations_outcome happening
  generalize e.operations happening = ops at hout ⊢
  cases hout with
  | none hsame _ hcalm =>
      have hnil : newFaults e (e.after happening).1 = [] := by
        unfold newFaults
        split
        · exact hcalm ‹_›
        · rfl
      rw [hsame, hnil]
      exact .refl _
  | keys w =>
      have hnil : newFaults e (e.after (.call (.writeKeypad w))).1 = [] := newFaults_of_eq rfl
      rw [hnil]
      exact Interpreter.meets_writeKeypads _ [w]
  | handled now arrivals hending hqueue =>
      rw [after, turn_of_command hending hqueue, newFaults, if_pos hending]
      exact e.worker.handle_meets now _
  | batched now arrivals hdue =>
      rw [after, hdue.turn, newFaults, if_pos hdue.ending?_eq]
      exact Worker.batch_meets h now arrivals

/-- The operations of a happening lead to the interpreter after it. -/
theorem after_leads {e : Engine} (h : e.worker.interpreter.Bounded) (happening : Happening) :
    e.worker.interpreter.Leads (e.operations happening)
      (e.after happening).1.worker.interpreter :=
  (after_meets h happening).leads

/-- Nothing steps or ticks but a batch. -/
theorem BatchDue.of_mem {e : Engine} {h : Happening} {op : Operation} (hmem : op ∈ e.operations h)
    (hop : op = .step ∨ op = .tick) : e.BatchDue := by
  have hout := e.operations_outcome h
  generalize e.operations h = ops at hout hmem
  cases hout with
  | none => cases hmem
  | keys w =>
      cases List.mem_singleton.1 hmem
      rcases hop with hop | hop <;> cases hop
  | handled now arrivals _ _ =>
      have hnot := e.worker.not_mem_handleOperations
      rcases hop with rfl | rfl
      · exact absurd hmem (hnot _).1
      · exact absurd hmem (hnot _).2
  | batched now arrivals hdue => exact hdue

/-! ## Runs -/

def allMoments (e : Engine) : List Happening → List Moment
  | [] => []
  | h :: rest => e.moments h ++ (e.after h).1.allMoments rest

def allOperations (e : Engine) (happenings : List Happening) : List Operation :=
  operationsOf (e.allMoments happenings)

@[simp]
theorem allMoments_append (e : Engine) (before later : List Happening) :
    e.allMoments (before ++ later) =
      e.allMoments before ++ (e.runAll before).1.allMoments later := by
  induction before generalizing e with
  | nil => rfl
  | cons h rest ih => simp [allMoments, ih]

@[simp]
theorem allOperations_nil (e : Engine) : e.allOperations [] = [] := rfl

@[simp]
theorem allOperations_cons (e : Engine) (h : Happening) (rest : List Happening) :
    e.allOperations (h :: rest) = e.operations h ++ (e.after h).1.allOperations rest :=
  operationsOf_append _ _

@[simp]
theorem allOperations_append (e : Engine) (before later : List Happening) :
    e.allOperations (before ++ later) =
      e.allOperations before ++ (e.runAll before).1.allOperations later := by
  simp [allOperations]

/-- The operations of a run lead to the interpreter after it, and meet no fault but the one that
ends the worker. -/
theorem runAll_meets {e : Engine} (h : e.worker.interpreter.Bounded)
    (happenings : List Happening) :
    e.worker.interpreter.Meets (e.allOperations happenings)
      (newFaults e (e.runAll happenings).1) (e.runAll happenings).1.worker.interpreter := by
  induction happenings generalizing e with
  | nil =>
      have hnil : newFaults e (e.runAll []).1 = [] := newFaults_of_eq rfl
      rw [hnil]
      exact .refl _
  | cons happening rest ih =>
      have hmeets := (after_meets h happening).append (ih (after_bounded e happening h))
      rw [newFaults_append (fun _ hending => after_ending?_of_some hending happening)
        fun _ hending => runAll_ending?_of_some hending rest] at hmeets
      rw [allOperations_cons]
      exact hmeets

/-- So what is known of histories is known of runs. -/
theorem runAll_leads {e : Engine} (h : e.worker.interpreter.Bounded)
    (happenings : List Happening) :
    e.worker.interpreter.Leads (e.allOperations happenings)
      (e.runAll happenings).1.worker.interpreter :=
  (runAll_meets h happenings).leads

/-- A moment of a run lies within one of its happenings. -/
theorem exists_happening_of_allMoments {e : Engine} {happenings : List Happening}
    {front back : List Moment} {m : Moment} (h : e.allMoments happenings = front ++ m :: back) :
    ∃ before happening front' back', (e.runAll before).1.moments happening = front' ++ m :: back' ∧
      front = e.allMoments before ++ front' := by
  induction happenings generalizing e front with
  | nil => exact absurd h.symm (by simp [allMoments])
  | cons happening rest ih =>
      rw [allMoments] at h
      rcases Interpreter.place_in_append h with ⟨back', hplace, -⟩ | ⟨front', hfront, hrest⟩
      · exact ⟨[], happening, front, back', hplace, rfl⟩
      · rcases ih hrest with ⟨before, happening', front'', back', hplace, rfl⟩
        refine ⟨happening :: before, happening', front'', back', hplace, ?_⟩
        rw [hfront, allMoments, List.append_assoc]

end Engine
end Chip8
