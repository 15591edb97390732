import Chip8.Engine.System
import Chip8.Proofs.Interpreter.Outcomes

/-!
# Journal — what one happening adds to a run of an engine

`AfterOutcome` goes through all that can happen to an engine: the worker stands still, a key
changes, a command is handled, a batch is carried out, or nobody is left to send commands.

`runAll_induction` lifts what one happening keeps, of the engine and the journal so far, to whole
runs; `Stint.steps_induction` does the same for the steps of a batch, and `Stint.StepOutcome` goes
through all that one of them can do.

`Worker.BatchOutcome` goes through the ways a batch can end, and `steps_entries`, `ticks_entries`
and `flush_entries` say which entries its parts make.
-/

namespace Chip8
namespace Engine

/-! ## One happening -/

/-- The engine after a happening, and the entries that it adds. -/
inductive AfterOutcome (e : Engine) : Engine × List Entry → Prop where
  | idle {e' : Engine} : e'.worker = e.worker → e'.ending? = e.ending? →
      (e.connected = false → e'.connected = false) → AfterOutcome e (e', [])
  | keys (w : Keypad.Write) : AfterOutcome e (e.writeKeypad w, [])
  | handled {c : Command} {rest : List Command} (now : Nat) : e.ending? = none →
      e.queue = c :: rest →
      AfterOutcome e ({ e with queue := rest }.record (e.worker.handle now c))
  | batched (now : Nat) (arrivals : Nat → List Call) : e.ending? = none → e.queue = [] →
      e.worker.running = true →
      AfterOutcome e ((e.receive (e.worker.batch now arrivals).calls).record
        (e.worker.batch now arrivals))
  | closed : e.ending? = none → e.queue = [] → e.connected = false →
      AfterOutcome e (e.record { worker := e.worker, ending? := some .shutdown })

/-- A turn handles a command, carries out a batch, or finds nothing to do. -/
theorem turn_outcome (e : Engine) (now : Nat) (arrivals : Nat → List Call) :
    AfterOutcome e (e.turn now arrivals) := by
  unfold turn
  split
  · exact .idle rfl rfl id
  · rename_i c rest hending hqueue
    exact .handled now hending hqueue
  · rename_i hending hqueue
    by_cases hconnected : e.connected = true
    · simp only [hconnected, Bool.not_true, Bool.false_eq_true, ↓reduceIte]
      by_cases hrunning : e.worker.running = true
      · simp only [hrunning, ↓reduceIte]
        exact .batched now arrivals hending hqueue hrunning
      · simp only [hrunning, Bool.false_eq_true, ↓reduceIte]
        exact .idle rfl rfl id
    · have hclosed : e.connected = false := Bool.eq_false_iff.2 hconnected
      simp only [hclosed, Bool.not_false, ↓reduceIte]
      exact .closed hending hqueue hclosed

theorem after_outcome (e : Engine) (h : Happening) : AfterOutcome e (e.after h) := by
  cases h with
  | call c =>
      cases c with
      | send c => exact .idle rfl rfl id
      | writeKeypad w => exact .keys w
      | disconnect => exact .idle rfl rfl fun _ => rfl
  | turn now arrivals => exact turn_outcome e now arrivals

/-! ## Turns that are due -/

structure BatchDue (e : Engine) : Prop where
  ending?_eq : e.ending? = none
  queue_eq : e.queue = []
  connected_eq : e.connected = true
  running_eq : e.worker.running = true

structure LoadDue (e : Engine) : Prop where
  ending?_eq : e.ending? = none
  queue_eq : ∃ program rest, e.queue = .load program :: rest

/-- A turn takes the first command off the queue. -/
theorem turn_of_command {e : Engine} {c : Command} {rest : List Command}
    (hending : e.ending? = none) (hqueue : e.queue = c :: rest) (now : Nat)
    (arrivals : Nat → List Call) :
    e.turn now arrivals = { e with queue := rest }.record (e.worker.handle now c) := by
  simp only [turn, hending, hqueue]

/-- Without a command it carries out a batch. -/
theorem BatchDue.turn {e : Engine} (h : e.BatchDue) (now : Nat)
    (arrivals : Nat → List Call) :
    e.turn now arrivals = (e.receive (e.worker.batch now arrivals).calls).record
      (e.worker.batch now arrivals) := by
  simp only [Engine.turn, h.ending?_eq, h.queue_eq, h.connected_eq, h.running_eq, Bool.not_true,
    Bool.false_eq_true, ↓reduceIte]

/-- A client that is gone stays gone. -/
theorem connected_receive (e : Engine) (calls : List Call) (h : e.connected = false) :
    (e.receive calls).connected = false := by
  simp only [receive, h, Bool.false_and]

/-- A worker that goes on says nothing more. -/
theorem record_of_none (e : Engine) {p : Progress} (h : p.ending? = none) :
    e.record p = ({ e with worker := p.worker, ending? := none }, p.entries) := by
  simp only [record, h, Option.map_none, Option.getD_none, List.append_nil]

/-! ## Whole runs -/

/-- What holds at the beginning and is kept by every happening holds after every run. -/
theorem runAll_induction {I : Engine → List Entry → Prop} {e : Engine} (hnil : I e [])
    (hafter : ∀ e done h, I e done → I (e.after h).1 (done ++ (e.after h).2))
    (happenings : List Happening) : I (e.runAll happenings).1 (e.runAll happenings).2 := by
  -- the journal so far is carried along, since the recursion writes it from the front
  have hrun : ∀ (happenings : List Happening) (e : Engine) (done : List Entry), I e done →
      I (e.runAll happenings).1 (done ++ (e.runAll happenings).2) := by
    intro happenings
    induction happenings with
    | nil =>
        intro e done hdone
        simpa [runAll] using hdone
    | cons h rest ih =>
        intro e done hdone
        have hnext : I (e.after h).1 (done ++ (e.after h).2) := hafter e done h hdone
        have hrest := ih (e.after h).1 (done ++ (e.after h).2) hnext
        rw [List.append_assoc] at hrest
        exact hrest
  have hall := hrun happenings e [] hnil
  simpa using hall

theorem runAll_append (e : Engine) (before later : List Happening) :
    e.runAll (before ++ later) = (((e.runAll before).1.runAll later).1,
      (e.runAll before).2 ++ ((e.runAll before).1.runAll later).2) := by
  induction before generalizing e with
  | nil => rfl
  | cons h rest ih => simp [ih]

/-! ## Steps of a batch -/

namespace Stint

/-- What one step of a batch does, and the entry that it makes. -/
inductive StepOutcome (s : Interpreter) : Stint → Prop where
  | performed {i : Instruction} : s.current? = some i → s.machine.fault? i = none →
      StepOutcome s { interpreter := s.effect i, entries := [.stepped (some i)] }
  | polled {x : UInt8} : s.runState = .awaitingKey x →
      StepOutcome s { interpreter := s.polled x, entries := [.stepped none] }
  | refused (f : Fault) : StepOutcome s
      { interpreter := { s with runState := .faulted f }, entries := [.raised f],
        ending? := some (.fault f) }
  | broken (b : Breach) : StepOutcome s { interpreter := s, ending? := some (.breach b) }

/-- A step of a batch ends as a step of the interpreter does. -/
theorem step_outcome (s : Interpreter) : StepOutcome s (step s) := by
  unfold step
  split
  · rename_i b _
    exact .broken b
  · rename_i f next hstep
    cases Interpreter.step_outcome hstep with
    | refused => exact .refused f
  · rename_i next hstep
    cases Interpreter.step_outcome hstep with
    | performed hi hnone =>
        rw [hi]
        exact .performed hi hnone
    | polled hx =>
        have hcurrent : s.current? = none := by
          simp only [Interpreter.current?, hx]
        rw [hcurrent]
        exact .polled hx

/-- What key writes and single steps keep is kept by the steps of a batch, also if one of them ends
it. -/
theorem steps_induction {I : Interpreter → List Entry → Prop}
    (hkeys : ∀ s done w, I s done → I (s.writeKeypad w) done)
    (hstep : ∀ s done, I s done → I (step s).interpreter (done ++ (step s).entries))
    (arrivals : Nat → List Call) (count : Nat) {s : Interpreter} (hnil : I s []) :
    I (steps arrivals count s).interpreter (steps arrivals count s).entries := by
  have hwrites : ∀ (ws : List Keypad.Write) (s : Interpreter) (done : List Entry), I s done →
      I (s.writeKeypads ws) done := by
    intro ws
    induction ws with
    | nil =>
        intro s done hdone
        exact hdone
    | cons w rest ih =>
        intro s done hdone
        exact ih (s.writeKeypad w) done (hkeys s done w hdone)
  have hsteps : ∀ (count : Nat) (arrivals : Nat → List Call) (s : Interpreter)
      (done : List Entry), I s done →
      I (steps arrivals count s).interpreter (done ++ (steps arrivals count s).entries) := by
    intro count
    induction count with
    | zero =>
        intro arrivals s done hdone
        simpa [steps] using hdone
    | succ count ih =>
        intro arrivals s done hdone
        have hfirst := hstep _ done (hwrites (writes (arrivals 0)) s done hdone)
        rw [steps]
        -- a step that ends the batch is its last one
        unfold andThen
        split
        · exact hfirst
        · have hrest := ih (fun k => arrivals (k + 1)) _ _ hfirst
          rw [List.append_assoc] at hrest
          exact hrest
  simpa using hsteps count arrivals s [] hnil

/-! ## Entries of a batch -/

end Stint

/-- The entry that a piece of work makes last if a fault ends it. -/
def alarm : Option Ending → List Entry
  | some (.fault f) => [.raised f]
  | _ => []

namespace Stint

/-- The steps of a batch are entered one by one, and the fault after them if there is one. -/
theorem steps_entries (arrivals : Nat → List Call) (count : Nat) (s : Interpreter) :
    ∃ performed : List (Option Instruction), (steps arrivals count s).entries =
      performed.map .stepped ++ alarm (steps arrivals count s).ending? := by
  induction count generalizing arrivals s with
  | zero => exact ⟨[], rfl⟩
  | succ count ih =>
      rw [steps]
      have hout := step_outcome (s.writeKeypads (writes (arrivals 0)))
      generalize step (s.writeKeypads (writes (arrivals 0))) = a at hout ⊢
      cases hout with
      | @performed i _ _ =>
          rcases ih (fun k => arrivals (k + 1))
            ((s.writeKeypads (writes (arrivals 0))).effect i) with ⟨performed, hentries⟩
          exact ⟨some i :: performed, congrArg (Entry.stepped (some i) :: ·) hentries⟩
      | @polled x _ =>
          rcases ih (fun k => arrivals (k + 1))
            ((s.writeKeypads (writes (arrivals 0))).polled x) with ⟨performed, hentries⟩
          exact ⟨none :: performed, congrArg (Entry.stepped none :: ·) hentries⟩
      | refused | broken => exact ⟨[], rfl⟩

/-- Ticks are entered one by one, and end nothing. -/
theorem ticks_entries (count : Nat) (s : Interpreter) :
    (ticks count s).ending? = none ∧
      ∃ beeps : List Bool, (ticks count s).entries = beeps.map .ticked := by
  induction count generalizing s with
  | zero => exact ⟨rfl, [], rfl⟩
  | succ count ih =>
      rcases ih s.tick with ⟨hending, beeps, hentries⟩
      exact ⟨hending, s.tickBeeps :: beeps, congrArg (Entry.ticked s.tickBeeps :: ·) hentries⟩

/-- A flush shows the frame that is waiting, then sounds the beep that is. -/
theorem flush_entries (s : Interpreter) :
    (flush s).entries = s.frame?.toList.map (.sent ∘ .present) ++
      if s.beepPending then [.sent .beep] else [] := by
  unfold flush
  cases s.frame? with
  | none => rfl
  | some frame => rfl

end Stint

/-! ## Loads -/

namespace Stint

/-- What a load can do to a machine that was reset: nothing but the memory is written. -/
inductive LoadOutcome (s : Interpreter) : Stint → Prop where
  | refused (f : Fault) (memory : Memory) : LoadOutcome s
      { interpreter := { s.reset with machine := { s.reset.machine with memory } },
        entries := [.raised f], ending? := some (.fault f) }
  | loaded (memory : Memory) :
      LoadOutcome s (flush { s.reset with machine := { s.reset.machine with memory } })

/-- A load is refused, or shows a blank screen. -/
theorem load_outcome (program : List UInt8) (s : Interpreter) :
    LoadOutcome s (load program s) := by
  rcases s.reset.load_keeps program with ⟨memory, hnext⟩
  unfold load
  generalize s.reset.load program = o at hnext
  rcases o with ⟨fault?, next⟩
  cases hnext
  cases fault? with
  | some f => exact .refused f memory
  | none => exact .loaded memory

end Stint

/-! ## Batches -/

namespace Worker

/-- How a batch can end, and what it leaves. -/
inductive BatchOutcome (w : Worker) (now : Nat) (arrivals : Nat → List Call) :
    Progress → Prop where
  | uncounted {b : Breach} : w.steps.due now = .error b →
      BatchOutcome w now arrivals { worker := w, ending? := some (.breach b) }
  /-- The steps end the worker, and nothing is done after them. -/
  | cut {count : Nat} {steps : Pacer} {a : Stint} {ending : Ending} :
      w.steps.due now = .ok (count, steps) → Stint.steps arrivals count w.interpreter = a →
      a.ending? = some ending →
      BatchOutcome w now arrivals
        { worker := { w with steps, interpreter := a.interpreter }, entries := a.entries,
          calls := a.calls, ending? := some ending }
  | unticked {count : Nat} {steps : Pacer} {a : Stint} {b : Breach} :
      w.steps.due now = .ok (count, steps) → Stint.steps arrivals count w.interpreter = a →
      a.ending? = none → w.timers.due now = .error b →
      BatchOutcome w now arrivals
        { worker := { w with steps, interpreter := a.interpreter }, entries := a.entries,
          calls := a.calls, ending? := some (.breach b) }
  | finished {count number : Nat} {steps timers : Pacer} {a t : Stint} :
      w.steps.due now = .ok (count, steps) → Stint.steps arrivals count w.interpreter = a →
      a.ending? = none → w.timers.due now = .ok (number, timers) →
      Stint.ticks number a.interpreter = t →
      BatchOutcome w now arrivals
        { worker := { w with steps, timers, interpreter := t.interpreter.frameTaken.beepTaken },
          entries := a.entries ++ (t.entries ++ (Stint.flush t.interpreter).entries),
          calls := a.calls }

/-- Every batch ends in one of the four ways. -/
theorem batch_outcome (w : Worker) (now : Nat) (arrivals : Nat → List Call) :
    BatchOutcome w now arrivals (w.batch now arrivals) := by
  unfold batch
  split
  · rename_i b hdue
    exact .uncounted hdue
  · rename_i count steps hdue
    dsimp only
    cases hending : (Stint.steps arrivals count w.interpreter).ending? with
    | some ending =>
        simp only [progress, hending]
        exact .cut hdue rfl hending
    | none =>
        simp only [progress, hending]
        unfold finish
        cases hticks : w.timers.due now with
        | error b =>
            simp only [List.append_nil]
            exact .unticked hdue rfl hending hticks
        | ok answer =>
            rcases answer with ⟨number, timers⟩
            have hflush := (Stint.ticks_entries number
              (Stint.steps arrivals count w.interpreter).interpreter).1
            simp only [Stint.andThen, hflush, progress]
            exact .finished hdue rfl hending hticks rfl

/-- A batch that ends with a fault has made its steps up to the fault, and nothing else. -/
theorem batch_entries_of_fault {w : Worker} {now : Nat} {arrivals : Nat → List Call}
    {f : Fault} (h : (w.batch now arrivals).ending? = some (.fault f)) :
    ∃ performed : List (Option Instruction),
      (w.batch now arrivals).entries = performed.map .stepped ++ [.raised f] := by
  have hout := w.batch_outcome now arrivals
  generalize w.batch now arrivals = p at h hout ⊢
  cases hout with
  | uncounted | unticked | finished => cases h
  | @cut count _ a ending _ hsteps hending =>
      cases h
      rcases Stint.steps_entries arrivals count w.interpreter with ⟨performed, hentries⟩
      rw [hsteps, hending] at hentries
      exact ⟨performed, hentries⟩

end Worker
end Engine
end Chip8
