import Chip8.Proofs.Engine.Rates
import Chip8.Proofs.Pacer.Backlog

/-!
# Idling — how long a worker sleeps

After a batch a worker sleeps until one of its pacers has a tick.  That a tick is due is found by a
division, and the time that is left is found by a subtraction.  For a pacer whose rate leaves it a
period the two agree: `next` is the first time at which something is due, and then it is one tick.
So a worker that sleeps until the earlier of two such times misses nothing, and it never wakes for
nothing.

Main statement: `idle_until_first_tick`.
-/

namespace Chip8

/-! ## Pacers -/

namespace Pacer

variable {p q : Pacer} {rate now t : Nat}

/-- A state of a pacer that ticks at least once a second and at most once a nanosecond. -/
def Paced (p : Pacer) : Prop :=
  ∃ rate next, 0 < rate ∧ rate ≤ 1000000000 ∧ p = ofRate rate next

/-- A rate of zero counts as one. -/
theorem ofRate_paced (h : rate ≤ 1000000000) (start : Nat) : (ofRate rate start).Paced := by
  refine ⟨max rate 1, start, Nat.lt_of_lt_of_le Nat.one_pos (Nat.le_max_right _ _),
    Nat.max_le.2 ⟨h, by decide⟩, ?_⟩
  simp only [ofRate, Nat.max_assoc, Nat.max_self]

/-- As time passes, only the time of the next tick changes. -/
theorem Paced.of_moved (h : p.Paced) (hmoved : Moved p now q) : q.Paced := by
  rcases h with ⟨rate, next, hpos, hrate, rfl⟩
  cases hmoved with
  | kept | restarted | skipped => exact ⟨rate, _, hpos, hrate, rfl⟩

theorem Paced.steady (h : p.Paced) : p.Steady := by
  rcases h with ⟨rate, next, -, hrate, rfl⟩
  exact ofRate_steady hrate next

theorem Paced.maxBurst_pos (h : p.Paced) : 0 < p.maxBurst := by
  rcases h with ⟨rate, next, -, -, rfl⟩
  exact Nat.lt_of_lt_of_le Nat.one_pos (Nat.le_max_right _ _)

theorem due_of_lt (h : now < p.next) : p.due now = .ok (0, p) :=
  if_pos h

/-- A call counts nothing exactly as long as the next tick is still to come. -/
theorem Paced.due_eq_zero_iff (h : p.Paced) (now : Nat) :
    ∃ count q, p.due now = .ok (count, q) ∧ (count = 0 ↔ now < p.next) := by
  -- the burst limit never cuts an answer down to zero
  have hburst : p.maxBurst ≠ 0 := Nat.ne_of_gt h.maxBurst_pos
  refine ⟨_, _, due_eq h.steady.period_pos now, ?_⟩
  rw [h.steady.min_elapsed, Nat.min_eq_zero_iff, or_iff_left hburst, backlog_eq_zero_iff]

@[simp]
theorem elapsed_next (p : Pacer) : p.elapsed p.next = 1 := by
  rw [elapsed_of_le (Nat.le_refl _), Nat.sub_self, Nat.zero_div]
  decide

/-- The tick that falls due just now is the only one. -/
theorem Paced.due_next (h : p.Paced) : p.due p.next = .ok (1, p.skip 1) := by
  rw [due_eq h.steady.period_pos, elapsed_next, Nat.min_eq_left h.maxBurst_pos]

theorem untilNext_pos_iff : 0 < p.untilNext now ↔ now < p.next :=
  Nat.sub_pos_iff_lt

/-- The time that is left ends with the next tick. -/
theorem lt_next_of_untilNext (hnow : now ≤ t) (ht : t < now + p.untilNext now) : t < p.next := by
  unfold untilNext at ht
  omega

theorem add_untilNext (h : now < p.next) : now + p.untilNext now = p.next :=
  Nat.add_sub_of_le (Nat.le_of_lt h)

end Pacer

/-! ## Workers -/

namespace Engine

structure Worker.Paced (w : Worker) : Prop where
  steps : w.steps.Paced
  timers : w.timers.Paced

namespace Worker

variable {w : Worker} {now t : Nat}

/-- A batch before both ticks is empty but for the picture and the beep. -/
theorem batch_of_lt (hsteps : t < w.steps.next) (htimers : t < w.timers.next)
    (arrivals : Nat → List Call) :
    w.batch t arrivals = w.progress (.flush w.interpreter) := by
  simp only [batch, finish, Pacer.due_of_lt hsteps, Pacer.due_of_lt htimers, progress]
  rfl

/-- A worker is awake again when the first of its ticks falls due, or at once if one is overdue. -/
theorem lt_next_of_idle (hnow : now ≤ t) (ht : t < now + w.idle now) :
    t < w.steps.next ∧ t < w.timers.next := by
  have hsteps : w.idle now ≤ w.steps.untilNext now := Nat.min_le_left _ _
  have htimers : w.idle now ≤ w.timers.untilNext now := Nat.min_le_right _ _
  exact ⟨Pacer.lt_next_of_untilNext hnow (by omega), Pacer.lt_next_of_untilNext hnow (by omega)⟩

/-- A worker wakes for one of its pacers. -/
theorem next_le_add_idle (w : Worker) (now : Nat) :
    w.steps.next ≤ now + w.idle now ∨ w.timers.next ≤ now + w.idle now := by
  unfold idle Pacer.untilNext
  omega

end Worker

/-- Whatever happens to an engine, its pacers keep their rates. -/
theorem runAll_paced {c : Config} (hperiods : c.HasPeriods) (g : Generator) (start : Nat)
    (happenings : List Happening) :
    ((ofConfig c g start).runAll happenings).1.worker.Paced := by
  have hnil : (ofConfig c g start).worker.Paced :=
    ⟨Pacer.ofRate_paced hperiods.1 start, Pacer.ofRate_paced hperiods.2 start⟩
  refine runAll_induction (I := fun e _ => e.worker.Paced) hnil (fun e _ h hdone => ?_) happenings
  cases h with
  | call c =>
      cases c with
      | send | writeKeypad | disconnect => exact ⟨hdone.steps, hdone.timers⟩
  | turn now arrivals =>
      have hmoved := e.turn_moved now arrivals
      exact ⟨hdone.steps.of_moved hmoved.1, hdone.timers.of_moved hmoved.2⟩

/-- A pacer with a period counts nothing exactly while there is time left before its next tick, and
then counts one at once. A worker that sleeps for the shorter of the two times finds nothing to do
before it is over, and something to do then. The workers of all runs have such pacers. -/
theorem idle_until_first_tick :
    (∀ p : Pacer, p.Paced → ∀ now,
      (∃ count q, p.due now = .ok (count, q) ∧ (count = 0 ↔ 0 < p.untilNext now)) ∧
      (0 < p.untilNext now →
        (∀ t, now ≤ t → t < now + p.untilNext now → p.due t = .ok (0, p)) ∧
        p.due (now + p.untilNext now) = .ok (1, p.skip 1))) ∧
    (∀ w : Worker, w.Paced → ∀ now,
      (∀ t, now ≤ t → t < now + w.idle now →
        w.steps.due t = .ok (0, w.steps) ∧ w.timers.due t = .ok (0, w.timers) ∧
        ∀ arrivals, w.batch t arrivals = w.progress (.flush w.interpreter)) ∧
      ∃ count steps number timers, w.steps.due (now + w.idle now) = .ok (count, steps) ∧
        w.timers.due (now + w.idle now) = .ok (number, timers) ∧ (0 < count ∨ 0 < number)) ∧
    ∀ c g start happenings, c.HasPeriods →
      ((ofConfig c g start).runAll happenings).1.worker.Paced := by
  refine ⟨?pacers, ?workers, fun c g start happenings h => runAll_paced h g start happenings⟩
  case pacers =>
    intro p hp now
    rcases hp.due_eq_zero_iff now with ⟨count, q, hdue, hzero⟩
    refine ⟨⟨count, q, hdue, hzero.trans Pacer.untilNext_pos_iff.symm⟩, fun hleft => ⟨?_, ?_⟩⟩
    · intro t hnow ht
      exact Pacer.due_of_lt (Pacer.lt_next_of_untilNext hnow ht)
    · rw [Pacer.add_untilNext (Pacer.untilNext_pos_iff.1 hleft)]
      exact hp.due_next
  case workers =>
    intro w hw now
    refine ⟨fun t hnow ht => ?_, ?_⟩
    · have hearly := Worker.lt_next_of_idle hnow ht
      exact ⟨Pacer.due_of_lt hearly.1, Pacer.due_of_lt hearly.2,
        Worker.batch_of_lt hearly.1 hearly.2⟩
    · rcases hw.steps.due_eq_zero_iff (now + w.idle now) with ⟨count, steps, hdue, hzero⟩
      rcases hw.timers.due_eq_zero_iff (now + w.idle now) with ⟨number, timers, hticks, hnone⟩
      refine ⟨count, steps, number, timers, hdue, hticks, ?_⟩
      -- the pacer whose tick has come by then has something to count
      have hreached := w.next_le_add_idle now
      omega

/-- At five hundred steps and sixty ticks a second, a worker half a millisecond after the first of
both sleeps until the second step falls due, and the second tick is still far away then. -/
theorem idle_until_first_tick_second_step :
    let p := (Pacer.ofRate 500 0).skip 1
    let q := (Pacer.ofRate 60 0).skip 1
    let w : Worker := { Worker.ofConfig {} (.ofSeed 3) 0 with steps := p, timers := q }
    (p.Paced ∧ w.Paced ∧ ({} : Config).HasPeriods) ∧
      0 < p.untilNext 500000 ∧ w.idle 500000 = 1500000 ∧ q.due 2000000 = .ok (0, q) ∧
      p.due 1999999 = .ok (0, p) ∧ p.due 2000000 = .ok (1, p.skip 1) ∧
      w.batch 1999999 (fun _ => []) = w.progress (.flush w.interpreter) ∧
      (∃ count steps number timers, p.due 2000000 = .ok (count, steps) ∧
        q.due 2000000 = .ok (number, timers) ∧ (0 < count ∨ 0 < number)) ∧
      ((ofConfig {} (.ofSeed 3) 0).runAll (idling 0)).1.worker.Paced := by
  intro p q w
  have hp : p.Paced := ⟨500, 2000000, by decide, by decide, rfl⟩
  have hq : q.Paced := ⟨60, 16666666, by decide, by decide, rfl⟩
  have hw : w.Paced := ⟨hp, hq⟩
  have hperiods : ({} : Config).HasPeriods := ⟨by decide, by decide⟩
  have hleft : 0 < p.untilNext 500000 := by decide +kernel
  have huntil : p.untilNext 500000 = 1500000 := by decide +kernel
  have hidle : w.idle 500000 = 1500000 := by decide +kernel
  have hticks : q.due 2000000 = .ok (0, q) := by decide +kernel
  rcases (idle_until_first_tick.1 p hp 500000).2 hleft with ⟨hnothing, hone⟩
  rcases idle_until_first_tick.2.1 w hw 500000 with ⟨hasleep, hawake⟩
  rw [huntil] at hnothing hone
  rw [hidle] at hasleep hawake
  have hearly := hasleep 1999999 (by decide) (by decide)
  exact ⟨⟨hp, hw, hperiods⟩, hleft, hidle, hticks, hnothing 1999999 (by decide) (by decide), hone,
    hearly.2.2 _, hawake, idle_until_first_tick.2.2 {} (.ofSeed 3) 0 (idling 0) hperiods⟩

end Engine
end Chip8
