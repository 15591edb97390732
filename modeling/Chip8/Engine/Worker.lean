import Chip8.Config
import Chip8.Interpreter.Basic
import Chip8.Pacer

/-!
# Worker — what an engine does between two looks at its queue

A worker holds an interpreter and two pacers, one for instructions and one for the timers.  It
handles one `Command` at a time, or carries out one batch: the due steps, then the due ticks, then
the picture and the beep, if there are any.  A fault ends the work at once.  What it shows to the
outside are `Signal`s: pictures, beeps, and at the end perhaps a fault.

Everything that a worker does is an `Entry`, and each piece of work says which entries it made, in
order.  Clients do not wait for it: before each step of a batch there may be `Call`s, of which the
writes of the keypad take effect at once and the rest when the batch is over.
-/

namespace Chip8
namespace Engine

/-! ## Commands -/

inductive Command where
  -- reset the machine and copy a program
  | load (program : List UInt8)
  | start
  | pause
  | shutdown
  deriving DecidableEq, Repr

def Command.text : Command → String
  | load program => "Load(" ++ program.length.repr ++ " bytes)"
  | start => "Start"
  | pause => "Pause"
  | shutdown => "Shutdown"

/-- Why an engine could not be started. -/
inductive StartError where
  | config (e : ConfigError)
  -- the host refused a thread, for the reason given
  | thread (reason : String)
  deriving DecidableEq, Repr

def StartError.message : StartError → String
  | config e => "invalid configuration: " ++ e.message
  | thread reason => "could not start engine thread: " ++ reason

/-! ## Calls -/

/-- What a client does. -/
inductive Call where
  | send (c : Command)
  | writeKeypad (w : Keypad.Write)
  -- the last of the clients goes away
  | disconnect
  deriving DecidableEq, Repr

namespace Call

@[simp]
def command? : Call → Option Command
  | send c => some c
  | writeKeypad _ | disconnect => none

@[simp]
def write? : Call → Option Keypad.Write
  | writeKeypad w => some w
  | send _ | disconnect => none

end Call

def commands (calls : List Call) : List Command :=
  calls.filterMap Call.command?

def writes (calls : List Call) : List Keypad.Write :=
  calls.filterMap Call.write?

@[simp]
theorem commands_nil : commands [] = [] := rfl

@[simp]
theorem commands_cons (c : Call) (rest : List Call) :
    commands (c :: rest) = c.command?.toList ++ commands rest := by
  cases c with
  | send | writeKeypad | disconnect => rfl

@[simp]
theorem commands_append (calls more : List Call) :
    commands (calls ++ more) = commands calls ++ commands more :=
  List.filterMap_append

@[simp]
theorem writes_nil : writes [] = [] := rfl

@[simp]
theorem writes_cons (c : Call) (rest : List Call) :
    writes (c :: rest) = c.write?.toList ++ writes rest := by
  cases c with
  | send | writeKeypad | disconnect => rfl

@[simp]
theorem writes_append (calls more : List Call) :
    writes (calls ++ more) = writes calls ++ writes more :=
  List.filterMap_append

/-! ## Signals -/

inductive Signal where
  | present (frame : Frame)
  -- the sound timer ran out
  | beep
  | fault (f : Fault)
  deriving DecidableEq

/-- How many pictures and beeps were shown. -/
structure Tally where
  frames : Nat := 0
  beeps : Nat := 0
  deriving DecidableEq, Repr

def Tally.record (t : Tally) : Signal → Tally
  | .present _ => { t with frames := t.frames + 1 }
  | .beep => { t with beeps := t.beeps + 1 }
  -- a fault is not counted
  | .fault _ => t

/-! ## Journal -/

inductive Entry where
  | handled (c : Command)
  -- a step succeeded; it ran this instruction, or none if it looked at the keypad
  | stepped (i? : Option Instruction)
  | ticked (beeped : Bool)
  | raised (f : Fault)
  | sent (s : Signal)
  -- the mark that the engine has stopped was set
  | halted
  deriving DecidableEq

inductive Ending where
  | shutdown
  | fault (f : Fault)
  | breach (b : Breach)
  deriving DecidableEq, Repr

/-! ## Stints -/

/-- A piece of work on an interpreter, and the state after it. -/
structure Stint where
  interpreter : Interpreter
  entries : List Entry := []
  -- what clients did meanwhile
  calls : List Call := []
  ending? : Option Ending := none
  deriving DecidableEq

namespace Stint

/-- Go on with another piece of work unless this one was the last. -/
def andThen (a : Stint) (work : Interpreter → Stint) : Stint :=
  match a.ending? with
  | some _ => a
  | none =>
      let b := work a.interpreter
      { b with entries := a.entries ++ b.entries, calls := a.calls ++ b.calls }

def step (s : Interpreter) : Stint :=
  match s.step with
  | .error b => { interpreter := s, ending? := some (.breach b) }
  | .ok ⟨some f, next⟩ =>
      { interpreter := next, entries := [.raised f], ending? := some (.fault f) }
  | .ok ⟨none, next⟩ => { interpreter := next, entries := [.stepped s.current?] }

/-- A number of steps.  Before step `k` clients make the calls `arrivals k`. -/
def steps (arrivals : Nat → List Call) : Nat → Interpreter → Stint
  | 0, s => { interpreter := s }
  | count + 1, s =>
      -- only the keypad is shared with the step; commands wait
      let first := step (s.writeKeypads (writes (arrivals 0)))
      { first with calls := arrivals 0 }.andThen (steps (fun k => arrivals (k + 1)) count)

def ticks : Nat → Interpreter → Stint
  | 0, s => { interpreter := s }
  | count + 1, s =>
      { interpreter := s.tick, entries := [.ticked s.tickBeeps] : Stint }.andThen (ticks count)

/-- Show the picture if it may have changed, then the beep if one is pending. -/
def flush (s : Interpreter) : Stint where
  interpreter := s.frameTaken.beepTaken
  entries :=
    (match s.frame? with
      | some frame => [.sent (.present frame)]
      | none => []) ++ (if s.beepPending then [.sent .beep] else [])

/-- Reset and copy a program, then show the blank screen. -/
def load (program : List UInt8) (s : Interpreter) : Stint :=
  match s.reset.load program with
  | ⟨some f, next⟩ => { interpreter := next, entries := [.raised f], ending? := some (.fault f) }
  | ⟨none, next⟩ => flush next

end Stint

/-! ## Workers -/

structure Worker where
  interpreter : Interpreter
  -- started and not paused since
  running : Bool
  steps : Pacer
  timers : Pacer
  deriving DecidableEq

structure Progress where
  worker : Worker
  entries : List Entry := []
  calls : List Call := []
  ending? : Option Ending := none
  deriving DecidableEq

namespace Worker

def ofConfig (c : Config) (g : Generator) (now : Nat) : Worker where
  interpreter := .start g
  running := false
  steps := .ofRate c.instructionRate.toNat now
  timers := .ofRate c.timerRate.toNat now

def progress (w : Worker) (s : Stint) : Progress where
  worker := { w with interpreter := s.interpreter }
  entries := s.entries
  calls := s.calls
  ending? := s.ending?

/-- What a command makes a worker do. -/
def obey (w : Worker) (now : Nat) : Command → Progress
  | .load program => w.progress (.load program w.interpreter)
  | .start =>
      { worker := { w with
          running := true
          steps := w.steps.restart now
          timers := w.timers.restart now } }
  | .pause => { worker := { w with running := false } }
  | .shutdown => { worker := w, ending? := some .shutdown }

def handle (w : Worker) (now : Nat) (c : Command) : Progress :=
  let p := w.obey now c
  { p with entries := .handled c :: p.entries }

/-- The ticks due at `now`, then the picture and the beep. -/
def finish (w : Worker) (now : Nat) : Progress :=
  match w.timers.due now with
  | .error b => { worker := w, ending? := some (.breach b) }
  | .ok (count, timers) =>
      { w with timers }.progress ((Stint.ticks count w.interpreter).andThen .flush)

def batch (w : Worker) (now : Nat) (arrivals : Nat → List Call) : Progress :=
  match w.steps.due now with
  | .error b => { worker := w, ending? := some (.breach b) }
  | .ok (count, steps) =>
      let p := { w with steps }.progress (.steps arrivals count w.interpreter)
      match p.ending? with
      -- a fault leaves no time for ticks or for the picture
      | some _ => p
      | none =>
          let rest := p.worker.finish now
          { rest with entries := p.entries ++ rest.entries, calls := p.calls }

/-- How long a running worker may sleep at `now` without missing a tick. -/
def idle (w : Worker) (now : Nat) : Nat :=
  min (w.steps.untilNext now) (w.timers.untilNext now)

end Worker

end Engine
end Chip8
