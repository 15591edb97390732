import Chip8.Engine.System

/-!
# Script — a client and an engine on one clock

A `Script` is a list of `Action`s of a single client.  Playing it interleaves the client with the
worker in a definite way: the worker handles commands as soon as they are sent, unless it sleeps
after a batch, and takes its other turns while the client waits.  The clock moves only while the
client waits for a goal, for time to pass, or for the worker to stop.
-/

namespace Chip8
namespace Engine

/-! ## Scripts -/

/-- What a client can wait for. -/
inductive Goal where
  -- at least so many pictures were shown
  | frames (count : Nat)
  -- at least so many beeps were heard
  | beeps (count : Nat)
  | fault
  deriving DecidableEq, Repr

inductive Action where
  | send (c : Command)
  | writeKeypad (w : Keypad.Write)
  | sleep (nanoseconds : Nat)
  | isHalted
  | await (goal : Goal)
  -- stop the engine and ask for the fault that halted it
  | shutdown
  | drop
  deriving DecidableEq, Repr

inductive Reply where
  | done
  | flag (value : Bool)
  | refused (f : Fault)
  | timeout
  deriving DecidableEq, Repr

abbrev Script := List Action

/-! ## Scenes -/

/-- An engine at a time, with all that it has shown. -/
structure Scene where
  engine : Engine
  clock : Nat
  -- until when the worker sleeps
  wakes : Nat
  shown : Array Signal

namespace Scene

def opening (engine : Engine) : Scene where
  engine := engine
  clock := 0
  wakes := 0
  shown := #[]

def count (s : Scene) (kind : Signal → Bool) : Nat :=
  s.shown.countP kind

def reached (s : Scene) : Goal → Bool
  | .frames n => n ≤ s.count fun | .present _ => true | _ => false
  | .beeps n => n ≤ s.count fun | .beep => true | _ => false
  | .fault => 0 < s.count fun | .fault _ => true | _ => false

def turn (s : Scene) : Scene :=
  let (engine, entries) := s.engine.turn s.clock fun _ => []
  { s with engine, shown := s.shown ++ (signals entries).toArray }

/-- Let the worker handle all that is queued, unless it sleeps. -/
def settle (s : Scene) : Scene :=
  if s.clock < s.wakes then s else Nat.repeat turn s.engine.queue.length s

/-! ## Time -/

-- nanoseconds that a turn takes at least, and that a client waits for a goal
abbrev turnTime : Nat := 50000

abbrev patience : Nat := 5000000000

def advance (s : Scene) (clock : Nat) : Scene :=
  { s with clock }.settle

@[simp]
theorem clock_repeat_turn (s : Scene) (count : Nat) :
    (Nat.repeat turn count s).clock = s.clock := by
  induction count with
  | zero => rfl
  | succ count ih => exact ih

@[simp]
theorem clock_advance (s : Scene) (clock : Nat) : (s.advance clock).clock = clock := by
  unfold advance settle
  split
  · rfl
  · exact clock_repeat_turn _ _

/-- One turn, and the sleep after it. -/
def work (s : Scene) : Scene :=
  let next := s.turn
  { next with wakes := s.clock + max turnTime (next.engine.worker.idle s.clock) }

/-- The worker takes turns until the condition holds or the deadline has come. -/
def wait (deadline : Nat) (met : Scene → Bool) (s : Scene) : Scene × Bool :=
  if met s then (s, true)
  else if s.clock < deadline then
    if s.clock < s.wakes then
      wait deadline met (s.advance (min s.wakes deadline))
    else if s.engine.blocked then ({ s with clock := deadline }, false)
    else wait deadline met s.work
  else (s, false)
termination_by (deadline - s.clock, s.clock + 1 - s.wakes)
decreasing_by
  · -- time passes
    refine Prod.Lex.left _ _ ?_
    rw [clock_advance]
    omega
  · -- the worker falls asleep
    refine Prod.Lex.right _ ?_
    have hrest : turnTime ≤ max turnTime (s.turn.engine.worker.idle s.clock) := Nat.le_max_left ..
    show s.clock + 1 - (s.clock + max turnTime (s.turn.engine.worker.idle s.clock)) < _
    simp only [turnTime] at hrest ⊢
    omega

/-! ## Playing -/

def send (s : Scene) (c : Command) : Scene :=
  { s with engine := s.engine.send c }.settle

/-- Tell the worker to shut down, and wait until it has. -/
def stop (s : Scene) : Scene :=
  let next := s.send .shutdown
  next.advance (max next.clock next.wakes)

/-- The scene after an action, and the answer to it. -/
def act (s : Scene) : Action → Scene × Reply
  | .send c => (s.send c, .done)
  | .writeKeypad w => ({ s with engine := s.engine.writeKeypad w }, .done)
  | .sleep nanoseconds => ((s.wait (s.clock + nanoseconds) fun _ => false).1, .done)
  | .isHalted => (s, .flag s.engine.isHalted)
  | .await goal =>
      let (next, reached) := s.wait (s.clock + patience) fun t => t.reached goal
      (next, if reached then .done else .timeout)
  | .shutdown =>
      let next := s.stop
      (next, match next.engine.fault? with
        | some f => .refused f
        | none => .done)
  | .drop => (s.stop, .done)

/-- Play a script to its end, where the engine is stopped. -/
def play (s : Scene) : Script → Scene × List Reply
  | [] => (s.stop, [])
  | a :: rest =>
      let (next, reply) := s.act a
      let (last, replies) := next.play rest
      (last, reply :: replies)

end Scene
end Engine
end Chip8
