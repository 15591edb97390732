import Chip8.Interpreter.Perform

/-!
# Interpreter — everything an interpreter does

The main definitions are:

* `Interpreter.step`, which runs the instruction at the program counter or polls the keypad;
* `Interpreter.execute` and `executeMany`, which run given instructions;
* `Interpreter.tick`, `load`, `reset` and the taking of frames and beeps;
* `Interpreter.run`, which takes many steps with a tick after every so many of them.

A fault becomes part of the run state and stays there until a reset.
-/

namespace Chip8

namespace Interpreter

/-- Back to power-on. -/
def reset (s : Interpreter) : Interpreter :=
  -- the generator goes on where it was
  { s with
    machine := s.machine.reset
    runState := .running
    frameDirty := true
    beepPending := false }

/-- After a reset an interpreter is like a new one that has the same generator. -/
theorem reset_eq_start (s : Interpreter) : s.reset = start s.generator := by
  rw [reset, Machine.reset_eq_powerOn, start]

/-- Copy a program to the program area. -/
def load (s : Interpreter) (program : List UInt8) : Outcome :=
  match s.machine.load program with
  | .ok m => ⟨none, { s with machine := m }⟩
  -- a refusal does not halt the interpreter
  | .error f => ⟨some f, s⟩

/-! ## The outside -/

/-- The screen, if it may have changed since it was taken last. -/
def frame? (s : Interpreter) : Option Frame :=
  if s.frameDirty then some s.machine.screen else none

def frameTaken (s : Interpreter) : Interpreter :=
  { s with frameDirty := false }

def beepTaken (s : Interpreter) : Interpreter :=
  { s with beepPending := false }

def writeKeypad (s : Interpreter) (w : Keypad.Write) : Interpreter :=
  { s with machine := s.machine.writeKeypad w }

def writeKeypads (s : Interpreter) (ws : List Keypad.Write) : Interpreter :=
  ws.foldl writeKeypad s

@[simp]
theorem writeKeypads_nil (s : Interpreter) : s.writeKeypads [] = s := rfl

@[simp]
theorem writeKeypads_cons (s : Interpreter) (w : Keypad.Write) (rest : List Keypad.Write) :
    s.writeKeypads (w :: rest) = (s.writeKeypad w).writeKeypads rest := rfl

def tickBeeps (s : Interpreter) : Bool :=
  s.machine.timers.beeps

def tick (s : Interpreter) : Interpreter :=
  { s with machine := s.machine.tick, beepPending := s.beepPending || s.tickBeeps }

/-! ## Instructions -/

/-- How a piece of work ends: a fault becomes the run state of what is left. -/
def settle : EStateM.Result Stop Interpreter Unit → Except Breach Outcome
  | .ok () next => .ok ⟨none, next⟩
  | .error (.fault f) left => .ok ⟨some f, { left with runState := .faulted f }⟩
  | .error (.breach b) _ => .error b

/-- One step: an instruction, one look at the keypad, or the fault again. -/
def step (s : Interpreter) : Except Breach Outcome :=
  match s.runState with
  | .running => settle (cycle s)
  | .awaitingKey register => settle (pollKey register s)
  | .faulted f => .ok ⟨some f, s⟩

def current? (s : Interpreter) : Option Instruction :=
  match s.runState, s.machine.nextInstruction with
  | .running, .ok (_, i) => some i
  | _, _ => none

/-- Run a given instruction as if it stood at the program counter. -/
def execute (s : Interpreter) (i : Instruction) : Except Breach Outcome :=
  match s.runState with
  | .faulted f => .ok ⟨some f, s⟩
  | _ => settle (perform i s)

/-- Run given instructions in order, up to the first fault. -/
def executeMany (s : Interpreter) : List Instruction → Except Breach Outcome
  | [] => .ok ⟨none, s⟩
  | i :: rest => do
      let o ← s.execute i
      match o.fault? with
      | some _ => return o
      | none => o.next.executeMany rest

end Interpreter

/-! ## Many steps -/

structure Run where
  interpreter : Interpreter
  steps : Nat := 0
  beeps : Nat := 0
  -- the fault that ended the run
  fault? : Option Fault := none
  deriving DecidableEq

namespace Run

/-- Whether the timers tick after this many steps.  Every zero steps means never. -/
def ticksAfter (tickEvery steps : Nat) : Bool :=
  tickEvery != 0 && steps % tickEvery == 0

def round (tickEvery : Nat) (r : Run) : Except Breach Run := do
  let o ← r.interpreter.step
  match o.fault? with
  | some f => return { r with interpreter := o.next, fault? := some f }
  | none =>
      let steps := r.steps + 1
      if ticksAfter tickEvery steps then
        let beeps := r.beeps + (if o.next.tickBeeps then 1 else 0)
        return { r with interpreter := o.next.tick, steps, beeps }
      else
        return { r with interpreter := o.next, steps }

def rounds (tickEvery : Nat) : Nat → Run → Except Breach Run
  | 0, r => return r
  | count + 1, r => do
      let r ← r.round tickEvery
      match r.fault? with
      | some _ => return r
      | none => rounds tickEvery count r

end Run

def Interpreter.run (s : Interpreter) (count tickEvery : Nat) : Except Breach Run :=
  Run.rounds tickEvery count { interpreter := s }

end Chip8
