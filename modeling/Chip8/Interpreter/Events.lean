import Chip8.Interpreter.Operation
import Chip8.Interpreter.Basic
import Chip8.Log

/-!
# Events — the log of an interpreter

For each request, the events that it causes, in order.  They are computed from the state before the
request, so that the log is a view of a run and no part of its state.
-/

namespace Chip8
namespace Interpreter

open Log (Event)

/-! ## Instructions -/

def haltEvents : EStateM.Result Stop Interpreter Unit → List Event
  | .error (.fault f) _ => [.halting f]
  | _ => []

/-- The events of carrying out an instruction. -/
def performEvents (s : Interpreter) (i : Instruction) : List Event :=
  (match i with
    | .awaitKey _ => [.awaitingKey s.machine.pc]
    | _ => []) ++ haltEvents (perform i s)

def stepEvents (s : Interpreter) : List Event :=
  match s.runState with
  | .running =>
      match s.machine.nextInstruction with
      | .ok (opcode, i) => .decoded s.machine.pc opcode i :: s.performEvents i
      | .error (.fault f) => [.halting f]
      | .error (.breach _) => []
  | .awaitingKey register =>
      match s.machine.keypad.lowestPressed with
      | some key => [.keyTaken key register]
      | none => []
  | .faulted _ => []

def executeEvents (s : Interpreter) (i : Instruction) : List Event :=
  match s.runState with
  | .faulted _ => []
  | _ => s.performEvents i

def executeManyEvents (s : Interpreter) : List Instruction → List Event
  | [] => []
  | i :: rest =>
      s.executeEvents i ++
        match s.execute i with
        | .ok ⟨none, next⟩ => next.executeManyEvents rest
        | _ => []

def tickEvents (s : Interpreter) : List Event :=
  if s.tickBeeps then [.beeped] else []

/-! ## Requests -/

/-- The events of an operation. -/
def events (s : Interpreter) : Operation → List Event
  | .step => s.stepEvents
  | .execute i => s.executeEvents i
  | .executeMany program => s.executeManyEvents program
  | .tick => s.tickEvents
  | .load program => [.loading program.length]
  | .reset => [.resetting]
  | .takeFrame | .takeBeep => []
  | .writeKeypad w => w.events

def roundEvents (s : Interpreter) (tickEvery steps : Nat) : List Event :=
  s.stepEvents ++
    match s.step with
    | .ok ⟨none, next⟩ => if Run.ticksAfter tickEvery (steps + 1) then next.tickEvents else []
    | _ => []

def roundsEvents (tickEvery : Nat) : Nat → Run → List Event
  | 0, _ => []
  | count + 1, r =>
      r.interpreter.roundEvents tickEvery r.steps ++
        match r.round tickEvery with
        | .ok r =>
            match r.fault? with
            | some _ => []
            | none => roundsEvents tickEvery count r
        | .error _ => []

/-- The events of a run. -/
def runEvents (s : Interpreter) (count tickEvery : Nat) : List Event :=
  roundsEvents tickEvery count { interpreter := s }

end Interpreter
end Chip8
