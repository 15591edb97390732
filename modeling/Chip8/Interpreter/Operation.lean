import Chip8.Interpreter.Basic

/-!
# Operation — everything that can be asked of an interpreter

An `Operation` is one request and a `Response` its answer.  `Interpreter.apply` carries out one
operation and `Interpreter.applyAll` a history of them, which is how statements about all runs of an
interpreter are made.
-/

namespace Chip8

inductive Operation where
  | step
  | execute (i : Instruction)
  | executeMany (program : List Instruction)
  | tick
  | load (program : List UInt8)
  | reset
  | takeFrame
  | takeBeep
  | writeKeypad (w : Keypad.Write)
  deriving DecidableEq, Repr

inductive Response where
  | done
  | refused (f : Fault)
  | flag (value : Bool)
  | frame (frame? : Option Frame)
  deriving DecidableEq

namespace Outcome

def response (o : Outcome) : Response :=
  match o.fault? with
  | none => .done
  | some f => .refused f

end Outcome

namespace Interpreter

/-- Carry out one operation. -/
def apply (s : Interpreter) : Operation → Except Breach (Response × Interpreter)
  | .step => do
      let o ← s.step
      return (o.response, o.next)
  | .execute i => do
      let o ← s.execute i
      return (o.response, o.next)
  | .executeMany program => do
      let o ← s.executeMany program
      return (o.response, o.next)
  | .tick => return (.flag s.tickBeeps, s.tick)
  | .load program =>
      let o := s.load program
      return (o.response, o.next)
  | .reset => return (.done, s.reset)
  | .takeFrame => return (.frame s.frame?, s.frameTaken)
  | .takeBeep => return (.flag s.beepPending, s.beepTaken)
  | .writeKeypad w => return (.done, s.writeKeypad w)

/-- Carry out a history of operations, with the answer to each. -/
def applyAll (s : Interpreter) : List Operation → Except Breach (List Response × Interpreter)
  | [] => return ([], s)
  | op :: rest => do
      let (response, next) ← s.apply op
      let (responses, last) ← next.applyAll rest
      return (response :: responses, last)

end Interpreter
end Chip8
