import Chip8.Log

/-!
# Pacer — ticks at a fixed rate

A pacer turns the passing of time into a number of due ticks.  Times are nanoseconds after a common
origin.  `Pacer.due` counts the ticks up to a time and moves the pacer past them; after a long
stall it answers at most a quarter second of ticks and forgets the rest.  `Pacer.untilNext` is the
time that is left before another tick falls due.
-/

namespace Chip8

structure Pacer where
  -- nanoseconds between ticks
  period : Nat
  -- when the next tick falls due
  next : Nat
  -- the greatest number of ticks answered at once
  maxBurst : Nat
  deriving DecidableEq, Repr

namespace Pacer

/-- The pacer of a rate in ticks per second, whose first tick is due at `start`.  A rate of zero
counts as one. -/
def ofRate (rate start : Nat) : Pacer where
  period := 1000000000 / max rate 1
  next := start
  maxBurst := max (max rate 1 / 4) 1

/-- The greatest number of ticks that one call makes up for. -/
def maxCount : Nat :=
  0xFFFFFFFF

/-- The ticks that have fallen due by `now`. -/
def elapsed (p : Pacer) (now : Nat) : Nat :=
  if now < p.next then 0 else min ((now - p.next) / p.period + 1) maxCount

def skip (p : Pacer) (ticks : Nat) : Pacer :=
  { p with next := p.next + p.period * ticks }

/-- The ticks to carry out at `now`, and the pacer afterwards. -/
def due (p : Pacer) (now : Nat) : Except Breach (Nat × Pacer) :=
  if now < p.next then .ok (0, p)
  -- without a period there is no next tick
  else if p.period = 0 then .error .zeroPeriod
  else .ok (min (p.elapsed now) p.maxBurst, p.skip (p.elapsed now))

def dueEvents (p : Pacer) (now : Nat) : List Log.Event :=
  if p.period ≠ 0 ∧ p.maxBurst < p.elapsed now then [.fellBehind (p.elapsed now) p.maxBurst] else []

def untilNext (p : Pacer) (now : Nat) : Nat :=
  p.next - now

/-- Forget what has fallen due; the next tick is due at `now`. -/
def restart (p : Pacer) (now : Nat) : Pacer :=
  { p with next := now }

/-! ## Fields after each change -/

@[simp]
theorem next_ofRate (rate start : Nat) : (ofRate rate start).next = start := rfl

@[simp]
theorem period_skip (p : Pacer) (ticks : Nat) : (p.skip ticks).period = p.period := rfl

@[simp]
theorem maxBurst_skip (p : Pacer) (ticks : Nat) : (p.skip ticks).maxBurst = p.maxBurst := rfl

@[simp]
theorem next_skip (p : Pacer) (ticks : Nat) :
    (p.skip ticks).next = p.next + p.period * ticks := rfl

@[simp]
theorem period_restart (p : Pacer) (now : Nat) : (p.restart now).period = p.period := rfl

@[simp]
theorem maxBurst_restart (p : Pacer) (now : Nat) : (p.restart now).maxBurst = p.maxBurst := rfl

@[simp]
theorem next_restart (p : Pacer) (now : Nat) : (p.restart now).next = now := rfl

end Pacer
end Chip8
