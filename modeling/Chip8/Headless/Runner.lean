import Chip8.Frame
import Chip8.Headless.Arguments
import Chip8.Interpreter.Basic

/-!
# Runner — a fixed number of instructions in virtual time

The runner takes one step per cycle.  Each step earns a credit of the timer rate, and whenever the
credit has reached the instruction rate a timer tick is paid from it, so that ticks and steps keep
their proportion exactly.  A fault ends the run and nothing is printed.
-/

namespace Chip8
namespace Headless

/-! ## Virtual time -/

structure Beat where
  interpreter : Interpreter
  -- what has been earned and not yet paid
  credit : Nat := 0
  beeps : Nat := 0
  deriving DecidableEq

namespace Beat

def tick (b : Beat) : Beat :=
  { b with
    interpreter := b.interpreter.tick
    beeps := b.beeps + (if b.interpreter.tickBeeps then 1 else 0) }

/-- Pay for ticks as long as the credit reaches the instruction rate. -/
def pay (rate : Nat) (b : Beat) : Beat :=
  if 0 < rate ∧ rate ≤ b.credit then
    pay rate { b.tick with credit := b.credit - rate }
  else b
termination_by b.credit

/-- One step and the ticks that it pays for. -/
def cycle (c : Config) (b : Beat) : Except Stop Beat :=
  match b.interpreter.step with
  | .error breach => .error (.breach breach)
  | .ok ⟨some f, _⟩ => .error (.fault f)
  | .ok ⟨none, next⟩ =>
      .ok (pay c.instructionRate.toNat
        { b with interpreter := next, credit := b.credit + c.timerRate.toNat })

/-- A number of cycles, up to the first that fails. -/
def cycles (c : Config) : Nat → Beat → Except Stop Beat
  | 0, b => .ok b
  | count + 1, b =>
      match b.cycle c with
      | .error stop => .error stop
      | .ok next => cycles c count next

end Beat

/-! ## Whole runs -/

structure FileError where
  code : Nat
  kind : String
  message : String
  deriving DecidableEq, Repr

namespace FileError

def notFound : FileError :=
  ⟨2, "NotFound", "No such file or directory"⟩

def record (e : FileError) : String :=
  "Os \x7b code: " ++ e.code.repr ++ ", kind: " ++ e.kind ++ ", message: \"" ++ e.message ++
    "\" \x7d"

end FileError

inductive Failure where
  | config (e : ConfigError)
  | file (e : FileError)
  | fault (f : Fault)
  | breach (b : Breach)
  deriving DecidableEq, Repr

def Failure.record : Failure → String
  | config e => e.record
  | file e => e.record
  | fault f => f.record
  | breach _ => "Breach"

def Failure.ofStop : Stop → Failure
  | .fault f => fault f
  | .breach b => breach b

/-- The end of a run whose program has been copied. -/
def runLoaded (o : Options) (s : Interpreter) : Except Failure Beat :=
  (Beat.cycles o.config o.cycles { interpreter := s }).mapError Failure.ofStop

/-- A whole run of the program in a file. -/
def run (o : Options) (g : Generator) (file : Except FileError (List UInt8)) :
    Except Failure Beat :=
  -- the rates are checked first, then the file, then whether the program fits
  match o.config.check, file with
  | .error e, _ => .error (.config e)
  | .ok (), .error e => .error (.file e)
  | .ok (), .ok program =>
      match (Interpreter.start g).load program with
      | ⟨some f, _⟩ => .error (.fault f)
      | ⟨none, s⟩ => runLoaded o s

/-! ## Reports -/

/-- What a run leaves behind. -/
structure Report where
  exitCode : UInt32
  output : String
  -- the closing line of the log
  closing? : Option String
  -- the line that explains a failure
  failure? : Option String
  deriving DecidableEq, Repr

def Beat.closing (b : Beat) : String :=
  "Stopped at pc " ++ Hex.word b.interpreter.machine.pc.toNat ++
    " after " ++ b.beeps.repr ++ " beeps"

def report (o : Options) : Except Failure Beat → Report
  | .ok b => {
      exitCode := 0
      output := if o.dump then b.interpreter.machine.screen.text else ""
      closing? := some b.closing
      failure? := none }
  | .error e => {
      exitCode := 1
      output := ""
      closing? := none
      failure? := some ("Error: " ++ e.record) }

/-- The report of a request for a text. -/
def textReport (text : String) : Report where
  exitCode := 0
  output := text
  closing? := none
  failure? := none

end Headless
end Chip8
