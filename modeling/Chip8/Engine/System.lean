import Chip8.Engine.Worker

/-!
# System — a worker, its queue and its clients

An engine is a worker with a queue of commands.  Clients send commands, change keys and may go away;
the worker takes turns.  A turn handles the first queued command, or, when the queue is empty and
the engine runs, carries out a batch.

What happens to an engine, in what order and at what times, is a list of `Happening`s: calls, and
turns with the calls that are made before each step of a batch.  A turn looks at its queue when it
begins, and after that only the steps of a batch look at the keypad and only a load changes it, all
at one moment.  So a call that is made during any other work counts as one before or after the turn,
and the runs of `Engine.runAll` are all the interleavings of clients and worker.
-/

namespace Chip8

/-- A worker with its queue. -/
structure Engine where
  worker : Engine.Worker
  queue : List Engine.Command := []
  -- whether a client is left that could send commands
  connected : Bool := true
  -- why the worker is gone, once it is
  ending? : Option Engine.Ending := none
  deriving DecidableEq

namespace Engine

/-! ## Clients -/

def ofConfig (c : Config) (g : Generator) (now : Nat) : Engine :=
  { worker := .ofConfig c g now }

def spawn (c : Config) (g : Generator) (now : Nat) : Except StartError Engine :=
  match c.check with
  | .ok () => .ok (ofConfig c g now)
  | .error e => .error (.config e)

def send (e : Engine) (c : Command) : Engine :=
  { e with queue := e.queue ++ [c] }

def writeKeypad (e : Engine) (w : Keypad.Write) : Engine :=
  { e with worker := { e.worker with interpreter := e.worker.interpreter.writeKeypad w } }

def disconnect (e : Engine) : Engine :=
  { e with connected := false }

def call (e : Engine) : Call → Engine
  | .send c => e.send c
  | .writeKeypad w => e.writeKeypad w
  | .disconnect => e.disconnect

/-- What a worker finds of the calls during its batch, whose writes it has seen already. -/
def receive (e : Engine) (calls : List Call) : Engine :=
  { e with
    queue := e.queue ++ commands calls
    connected := e.connected && !calls.contains .disconnect }

@[simp]
theorem queue_receive (e : Engine) (calls : List Call) :
    (e.receive calls).queue = e.queue ++ commands calls := rfl

/-- Whether the mark that the engine has stopped is set. -/
def isHalted (e : Engine) : Bool :=
  match e.ending? with
  -- a worker that breaks down does not set it
  | none | some (.breach _) => false
  | some .shutdown | some (.fault _) => true

def fault? (e : Engine) : Option Fault :=
  match e.ending? with
  | some (.fault f) => some f
  | _ => none

/-- Calls outside of a batch write the keypad and leave the rest to be found. -/
theorem foldl_call (e : Engine) (calls : List Call) :
    calls.foldl call e =
      { e.receive calls with
        worker := { e.worker with
          interpreter := e.worker.interpreter.writeKeypads (writes calls) } } := by
  induction calls generalizing e with
  | nil => simp [receive]
  | cons c rest ih =>
      rw [List.foldl_cons, ih]
      cases c with
      | send c => simp [call, send, receive]
      | writeKeypad w => simp [call, writeKeypad, receive]
      | disconnect => simp [call, disconnect, receive]

/-! ## Turns -/

def farewell : Ending → List Entry
  | .shutdown => [.halted]
  | .fault f => [.halted, .sent (.fault f)]
  | .breach _ => []

def record (e : Engine) (p : Progress) : Engine × List Entry :=
  ({ e with worker := p.worker, ending? := p.ending? },
    p.entries ++ (p.ending?.map farewell).getD [])

@[simp]
theorem worker_record (e : Engine) (p : Progress) : (e.record p).1.worker = p.worker := rfl

@[simp]
theorem queue_record (e : Engine) (p : Progress) : (e.record p).1.queue = e.queue := rfl

/-- Whether a turn at this moment does nothing. -/
def blocked (e : Engine) : Bool :=
  e.ending?.isSome || (e.queue.isEmpty && e.connected && !e.worker.running)

/-- One turn of the worker at `now`.  Queued commands come before batches. -/
def turn (e : Engine) (now : Nat) (arrivals : Nat → List Call) : Engine × List Entry :=
  match e.ending?, e.queue with
  | some _, _ => (e, [])
  | none, c :: rest => { e with queue := rest }.record (e.worker.handle now c)
  | none, [] =>
      -- a queue that is empty and closed counts as a shutdown
      if !e.connected then e.record { worker := e.worker, ending? := some .shutdown }
      else if e.worker.running then
        let p := e.worker.batch now arrivals
        (e.receive p.calls).record p
      else (e, [])

/-! ## Runs -/

inductive Happening where
  | call (c : Call)
  | turn (now : Nat) (arrivals : Nat → List Call)

/-- The engine after something happened, with what its worker did. -/
def after (e : Engine) : Happening → Engine × List Entry
  | .call c => (e.call c, [])
  | .turn now arrivals => e.turn now arrivals

/-- The engine after a run, with everything its worker did. -/
def runAll (e : Engine) : List Happening → Engine × List Entry
  | [] => (e, [])
  | h :: rest =>
      let (next, entries) := e.after h
      let (last, more) := next.runAll rest
      (last, entries ++ more)

@[simp]
theorem runAll_nil (e : Engine) : e.runAll [] = (e, []) := rfl

@[simp]
theorem runAll_cons (e : Engine) (h : Happening) (rest : List Happening) :
    e.runAll (h :: rest) = (((e.after h).1.runAll rest).1,
      (e.after h).2 ++ ((e.after h).1.runAll rest).2) := rfl

def signals (entries : List Entry) : List Signal :=
  entries.filterMap fun
    | .sent s => some s
    | _ => none

end Engine
end Chip8
