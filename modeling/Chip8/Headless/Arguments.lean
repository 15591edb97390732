import Chip8.Config

/-!
# Arguments — the command line of the headless runner

The arguments are read from left to right.  An argument that begins with two dashes names a setting
or a switch in full, one that begins with a single dash holds one-letter names, and any other is the
value of the setting before it or the path of the program.  After `--` every argument is a
path.  The main definitions are:

* `Argument.ofString`, which tells these kinds apart;
* `Draft.readAll`, which collects what was given;
* `Draft.finish`, which checks it and fills in the defaults.
-/

namespace Chip8
namespace Headless

/-! ## Settings -/

inductive Setting where
  | cycles
  | instructionRate
  | timerRate
  | seed
  deriving DecidableEq, Repr

namespace Setting

def longName : Setting → String
  | cycles => "cycles"
  | instructionRate => "hz"
  | timerRate => "timer-hz"
  | seed => "seed"

def ofLong? (name : String) : Option Setting :=
  [cycles, instructionRate, timerRate, seed].find? fun s => s.longName == name

def ofLetter? : Char → Option Setting
  | 'c' => some cycles
  | _ => none

/-- The value of a setting that is not given one. -/
def default? : Setting → Option Nat
  | cycles => some 1000
  | instructionRate => some 500
  | timerRate => some 60
  | seed => none

-- all values stay below 64 bits or 32
def limit : Setting → Nat
  | cycles | seed => 0x10000000000000000
  | instructionRate | timerRate => 0x100000000

end Setting

inductive Switch where
  | dump
  | help
  | version
  deriving DecidableEq, Repr

namespace Switch

def ofLong? : String → Option Switch
  | "dump" => some dump
  | "help" => some help
  | "version" => some version
  | _ => none

def ofLetter? : Char → Option Switch
  | 'd' => some dump
  | 'h' => some help
  | 'V' => some version
  | _ => none

end Switch

/-! ## Outcomes -/

structure Options where
  cycles : Nat
  config : Config
  dump : Bool
  program : String
  deriving DecidableEq, Repr

/-- What is wrong with a command line. -/
inductive UsageError where
  | unknownName (name : String)
  | unexpectedPath (path : String)
  | repeatedSetting (s : Setting)
  | repeatedDump
  | missingValue (s : Setting)
  | missingPath
  | invalidNumber (s : Setting) (text : String)
  deriving DecidableEq, Repr

/-- Why a command line does not lead to a run. -/
inductive Detour where
  | help
  | version
  | misuse (e : UsageError)
  deriving DecidableEq, Repr

/-! ## Kinds of arguments -/

inductive Argument where
  | separator
  -- a full name, with the value after the first equals sign
  | long (name : String) (value? : Option (List Char))
  -- one-letter names, perhaps with a value after the last
  | letters (cs : List Char)
  | plain (text : String)
  deriving DecidableEq, Repr

/-- The text before the first equals sign, and the text after it. -/
def splitEquals (cs : List Char) : List Char × Option (List Char) :=
  (cs.takeWhile (· != '='),
    match cs.dropWhile (· != '=') with
    | [] => none
    | _ :: rest => some rest)

/-- The kind of an argument.  More than two dashes are taken for two. -/
def Argument.ofString (text : String) : Argument :=
  match text.toList with
  | ['-', '-'] => .separator
  | '-' :: '-' :: rest =>
      let (name, value?) := splitEquals (rest.dropWhile (· == '-'))
      .long (String.ofList name) value?
  | '-' :: c :: rest => .letters (c :: rest)
  | _ => .plain text

/-! ## Drafts -/

structure Draft where
  -- settings with their values, the latest first
  settings : List (Setting × Option String) := []
  -- the setting that takes the next plain argument as its value
  pending? : Option Setting := none
  dumps : Nat := 0
  path? : Option String := none
  deriving DecidableEq, Repr

namespace Draft

/-- A setting with a value that is attached to it; equals signs before the value are dropped. -/
def attach (d : Draft) (s : Setting) (value : List Char) : Draft :=
  { d with
    settings := (s, some (String.ofList (value.dropWhile (· == '=')))) :: d.settings
    pending? := none }

def expect (d : Draft) (s : Setting) : Draft :=
  { d with settings := (s, none) :: d.settings, pending? := some s }

def flip (d : Draft) : Switch → Except Detour Draft
  | .dump => .ok { d with dumps := d.dumps + 1, pending? := none }
  | .help => .error .help
  | .version => .error .version

def path (d : Draft) (text : String) : Except Detour Draft :=
  match d.path? with
  | none => .ok { d with path? := some text }
  | some _ => .error (.misuse (.unexpectedPath text))

/-- A plain argument: the value that was waited for, or the path. -/
def plain (d : Draft) (text : String) : Except Detour Draft :=
  match d.pending?, d.settings with
  -- the setting that waits is the one given last
  | some s, (_, none) :: rest => .ok { d with settings := (s, some text) :: rest, pending? := none }
  | _, _ => d.path text

def long (d : Draft) (name : String) (value? : Option (List Char)) : Except Detour Draft :=
  match Setting.ofLong? name, value?, Switch.ofLong? name with
  | some s, some value, _ => .ok (d.attach s value)
  | some s, none, _ => .ok (d.expect s)
  | none, _, some switch => d.flip switch
  | none, _, none => .error (.misuse (.unknownName name))

/-- One-letter names.  What follows the letter of a setting is its value. -/
def letters (d : Draft) : List Char → Except Detour Draft
  | [] => .ok d
  | c :: rest =>
      match Setting.ofLetter? c, rest, Switch.ofLetter? c with
      | some s, [], _ => .ok (d.expect s)
      | some s, value, _ => .ok (d.attach s value)
      | none, rest, some switch => do
          let d ← d.flip switch
          d.letters rest
      | none, _, none => .error (.misuse (.unknownName (String.singleton c)))

def paths (d : Draft) : List String → Except Detour Draft
  | [] => .ok d
  | text :: rest => do
      let d ← d.path text
      d.paths rest

def readAll (d : Draft) : List String → Except Detour Draft
  | [] => .ok d
  | text :: rest =>
      match Argument.ofString text with
      | .separator => d.paths rest
      | .long name value? => do
          let d ← d.long name value?
          d.readAll rest
      | .letters cs => do
          let d ← d.letters cs
          d.readAll rest
      | .plain text => do
          let d ← d.plain text
          d.readAll rest

/-! ## Checking -/

/-- The number written in decimal digits, perhaps after a plus sign, if it is below the limit. -/
def number? (limit : Nat) (text : String) : Option Nat :=
  let digits := match text.toList with
    | '+' :: rest => rest
    | cs => cs
  if digits.isEmpty || !digits.all Char.isDigit then none
  else
    let value := digits.foldl (fun n c => 10 * n + (c.toNat - 48)) 0
    if value < limit then some value else none

/-- The value of a setting that was given.  Without a text it has its default, if there is one. -/
def valueOf (s : Setting) : Option String → Except UsageError (Option Nat)
  | some text =>
      match number? s.limit text with
      | some n => .ok (some n)
      | none => .error (.invalidNumber s text)
  | none =>
      match s.default? with
      | some n => .ok (some n)
      | none => .error (.missingValue s)

/-- The value of a setting, given at most once. -/
def value (d : Draft) (s : Setting) : Except UsageError (Option Nat) :=
  match d.settings.filter fun given => given.1 == s with
  | [] => .ok s.default?
  | [(_, text?)] => valueOf s text?
  | _ => .error (.repeatedSetting s)

def finish (d : Draft) : Except UsageError Options := do
  let cycles ← d.value .cycles
  let instructionRate ← d.value .instructionRate
  let timerRate ← d.value .timerRate
  let seed ← d.value .seed
  if 1 < d.dumps then throw .repeatedDump
  match d.path? with
  | none => throw .missingPath
  | some program =>
      return {
        cycles := cycles.getD 0
        config := {
          instructionRate := UInt32.ofNat (instructionRate.getD 0)
          timerRate := UInt32.ofNat (timerRate.getD 0)
          seed := seed.map UInt64.ofNat }
        dump := d.dumps == 1
        program }

end Draft

def Options.parse (arguments : List String) : Except Detour Options := do
  let draft ← Draft.readAll {} arguments
  draft.finish.mapError .misuse

/-! ## Texts -/

def versionText : String :=
  "chip8-vm 0.1.0\n"

def helpLines : List String :=
  ["chip8-vm 0.1.0",
   "Run a CHIP-8 program headless for a fixed number of instructions",
   "",
   "USAGE:",
   "    chip8-vm [FLAGS] [OPTIONS] <rom>",
   "",
   "FLAGS:",
   "    -d, --dump       Print the final screen",
   "    -h, --help       Prints help information",
   "    -V, --version    Prints version information",
   "",
   "OPTIONS:",
   "    -c, --cycles <cycles>        Instructions to execute before stopping [default: 1000]",
   "        --hz <hz>                Instruction rate, used to interleave timer ticks [default: 500]",
   "        --seed <seed>            Seed for the random number instruction",
   "        --timer-hz <timer-hz>    Timer rate [default: 60]",
   "",
   "ARGS:",
   "    <rom>    The program to execute",
   ""]

/-- How the runner is used. -/
def helpText : String :=
  "\n".intercalate helpLines

end Headless
end Chip8
