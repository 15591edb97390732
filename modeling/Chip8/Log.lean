import Chip8.Fault
import Chip8.Instruction.Mnemonic
import Chip8.Devices

/-!
# Log — what is written down while a machine runs

An `Event` is something worth a line in a log.  It has a level and a text; the modules that cause
events say when each one occurs.
-/

namespace Chip8
namespace Log

inductive Level where
  | trace
  | debug
  | warn
  | error
  deriving DecidableEq, Repr

def Level.name : Level → String
  | trace => "trace"
  | debug => "debug"
  | warn => "warn"
  | error => "error"

/-- Something worth a line. -/
inductive Event where
  -- an instruction was read at the program counter
  | decoded (pc opcode : UInt16) (i : Instruction)
  -- a program of this many bytes is about to be copied
  | loading (bytes : Nat)
  | resetting
  -- the sound timer ran out
  | beeped
  -- the machine parked until a key is held
  | awaitingKey (pc : UInt16)
  -- a held key ended the wait
  | keyTaken (key register : UInt8)
  -- a write named a key that does not exist
  | keyIgnored (key : UInt8)
  -- more ticks were missed than are made up for
  | fellBehind (ticks replayed : Nat)
  | halting (f : Fault)
  deriving DecidableEq, Repr

namespace Event

def level : Event → Level
  | decoded .. => .trace
  | loading _ | resetting | beeped | awaitingKey _ | keyTaken .. => .debug
  | keyIgnored _ | fellBehind .. => .warn
  | halting _ => .error

def text : Event → String
  | decoded pc opcode i => Hex.word pc.toNat ++ ": " ++ Hex.word opcode.toNat ++ " " ++ i.text
  | loading bytes => "Loading " ++ bytes.repr ++ " program bytes"
  | resetting => "Resetting emulator"
  | beeped => "Beep"
  | awaitingKey pc => "Awaiting key at " ++ Hex.word pc.toNat
  | keyTaken key register =>
      "Key " ++ Hex.bare key.toNat ++ " satisfies wait into V" ++ Hex.upper register.toNat
  | keyIgnored key => "Ignoring out of range key " ++ Hex.bare key.toNat
  | fellBehind ticks replayed =>
      "Fell behind by " ++ ticks.repr ++ " ticks, replaying " ++ replayed.repr
  | halting f => "Halting: " ++ f.message

end Event
end Log

/-! ## The keypad's lines -/

/-- The events of a write to a keypad. -/
def Keypad.Write.events : Keypad.Write → List Log.Event
  | .set key _ => if key.toNat < 16 then [] else [.keyIgnored key]
  | .releaseAll => []

end Chip8
