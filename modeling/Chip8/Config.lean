/-!
# Config — rates and the random seed

Instructions and timers run at rates of their own, in ticks per second.  A configuration is valid if
neither rate is zero; `Config.check` names the first that is.
-/

namespace Chip8

inductive Rate where
  | instruction
  | timer
  deriving DecidableEq, Repr

def Rate.name : Rate → String
  | instruction => "instruction_hz"
  | timer => "timer_hz"

structure Config where
  instructionRate : UInt32 := 500
  timerRate : UInt32 := 60
  -- without a seed the random bytes are unpredictable
  seed : Option UInt64 := none
  deriving DecidableEq, Repr

/-- What can be wrong with a configuration. -/
inductive ConfigError where
  | zeroRate (rate : Rate)
  deriving DecidableEq, Repr

namespace ConfigError

def rateName : ConfigError → String
  | zeroRate rate => rate.name

def message (e : ConfigError) : String :=
  e.rateName ++ " must be greater than zero"

def record (e : ConfigError) : String :=
  "ZeroRate \x7b name: \"" ++ e.rateName ++ "\" \x7d"

end ConfigError

/-- Whether a configuration can be run, and if not, why. -/
def Config.check (c : Config) : Except ConfigError Unit :=
  -- the instruction rate is looked at first
  if c.instructionRate = 0 then .error (.zeroRate .instruction)
  else if c.timerRate = 0 then .error (.zeroRate .timer)
  else .ok ()

end Chip8
