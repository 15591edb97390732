import Chip8.Machine.Basic
import Chip8.Random

/-!
# Interpreter.State — a machine that runs

An interpreter is a machine with a run state, a random generator and two marks for the outside: the
screen may have changed, and a beep is pending.
-/

namespace Chip8

inductive RunState where
  -- reading and executing instructions
  | running
  -- parked until a key is held, whose number goes to the register
  | awaitingKey (register : UInt8)
  -- halted until the next reset
  | faulted (f : Fault)
  deriving DecidableEq, Repr

structure Interpreter where
  machine : Machine
  runState : RunState
  generator : Generator
  -- the screen may differ from the frame that was taken last
  frameDirty : Bool
  -- the sound timer ran out since a beep was taken last
  beepPending : Bool
  deriving DecidableEq

/-- What became of a request: the fault that refused it, if any, and the state afterwards. -/
structure Outcome where
  fault? : Option Fault
  next : Interpreter
  deriving DecidableEq

namespace Interpreter

/-- A machine at power-on with a given source of random bytes. -/
def start (g : Generator) : Interpreter where
  machine := .powerOn
  runState := .running
  generator := g
  frameDirty := true
  beepPending := false

def ofSeed (seed : UInt64) : Interpreter :=
  start (.ofSeed seed)

end Interpreter
end Chip8
