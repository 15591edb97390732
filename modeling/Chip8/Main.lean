import Chip8.Headless.Runner

/-!
# Main — the headless runner as a program

Reads the command line and the program file, runs, and prints.  Everything that is decided is
decided in `Chip8.Headless`.
-/

namespace Chip8
namespace Headless

/-- Read a file, with the reason if that fails. -/
def readFile (path : String) : IO (Except FileError (List UInt8)) := do
  try
    let bytes ← IO.FS.readBinFile path
    return .ok bytes.toList
  catch
    | .noFileOrDirectory .. => return .error .notFound
    | e => return .error ⟨0, "Other", toString e⟩

/-- The generator of a seed, or one that nobody can foresee. -/
def generator : Option UInt64 → IO Generator
  | some seed => return .ofSeed seed
  | none => do
      let bytes ← IO.getRandomBytes 8
      return .ofSeed (bytes.toList.foldl (fun n b => n * 256 + b.toUInt64) 0)

def print (r : Report) : IO Unit := do
  IO.print r.output
  if let some line := r.failure? then IO.eprintln line
  if (← IO.getEnv "CHIP8_LOG").isSome then
    if let some line := r.closing? then IO.eprintln line

def perform (o : Options) : IO UInt32 := do
  let file ← readFile o.program
  let g ← generator o.config.seed
  let r := report o (run o g file)
  print r
  return r.exitCode

end Headless
end Chip8

def main (arguments : List String) : IO UInt32 := do
  match Chip8.Headless.Options.parse arguments with
  | .ok o => Chip8.Headless.perform o
  | .error .help => IO.print Chip8.Headless.helpText; return 0
  | .error .version => IO.print Chip8.Headless.versionText; return 0
  | .error (.misuse _) => IO.eprintln "error: the arguments were not understood"; return 1
