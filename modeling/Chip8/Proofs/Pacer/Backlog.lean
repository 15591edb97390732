import Chip8.Proofs.Pacer.Accounting
import Mathlib.Algebra.BigOperators.Group.List.Lemmas
import Mathlib.Algebra.GroupWithZero.Nat
import Mathlib.Order.Basic

/-!
# Backlog — what a stall leaves to be replayed

The backlog at a time is the number of ticks that have fallen due by then, however many they are.  A
call counts `maxCount` of them at most, answers no more than the burst limit, and forgets all that
it counted.  So a backlog that one call can count is gone after it, and a stall is replayed once; of
a longer one the rest is still due, and the next call replays it again.

Main statement: `stall_replayed_once_iff`.
-/

namespace Chip8
namespace Pacer

variable {p q : Pacer} {now count : Nat}

/-! ## Ticks that are still due -/

/-- The ticks that have fallen due by `now`, without a bound on their number. -/
def backlog (p : Pacer) (now : Nat) : Nat :=
  if now < p.next then 0 else (now - p.next) / p.period + 1

/-- A call counts the backlog as far as its counter reaches. -/
theorem elapsed_eq_min (p : Pacer) (now : Nat) : p.elapsed now = min (p.backlog now) maxCount := by
  unfold elapsed backlog
  split
  · exact (Nat.zero_min _).symm
  · rfl

/-- A number of periods reaches past the clock if the backlog is no greater. -/
theorem backlog_le_iff (hpos : 0 < p.period) {n : Nat} :
    p.backlog now ≤ n ↔ now < p.next + p.period * n := by
  unfold backlog
  split
  · rename_i hbefore
    exact ⟨fun _ => Nat.lt_of_lt_of_le hbefore (Nat.le_add_right _ _), fun _ => Nat.zero_le n⟩
  · rename_i hreached
    have hle : p.next ≤ now := Nat.not_lt.1 hreached
    calc (now - p.next) / p.period + 1 ≤ n
        ↔ now - p.next < n * p.period := Nat.div_lt_iff_lt_mul hpos
      _ ↔ now < p.next + p.period * n := by
        rw [Nat.mul_comm]
        omega

/-- Nothing is due before the next tick. -/
theorem backlog_eq_zero_iff : p.backlog now = 0 ↔ now < p.next := by
  unfold backlog
  split
  · rename_i hbefore
    simp [hbefore]
  · rename_i hreached
    simp [hreached]

/-- Ticks that are skipped are no longer due. -/
theorem backlog_skip (hpos : 0 < p.period) (ticks : Nat) :
    (p.skip ticks).backlog now = p.backlog now - ticks := by
  -- both sides stay below the same bounds
  refine eq_of_forall_ge_iff fun n => ?_
  have hskipped : 0 < (p.skip ticks).period := hpos
  calc (p.skip ticks).backlog now ≤ n
      ↔ now < p.next + p.period * ticks + p.period * n := backlog_le_iff hskipped
    _ ↔ now < p.next + p.period * (n + ticks) := by
      rw [Nat.mul_add]
      omega
    _ ↔ p.backlog now ≤ n + ticks := (backlog_le_iff hpos).symm
    _ ↔ p.backlog now - ticks ≤ n := Nat.sub_le_iff_le_add.symm

/-! ## One call -/

/-- A call counts what has elapsed and skips it, also when nothing has. -/
theorem due_eq (hpos : 0 < p.period) (now : Nat) :
    p.due now = .ok (min (p.elapsed now) p.maxBurst, p.skip (p.elapsed now)) := by
  unfold due
  split
  · rename_i hbefore
    simp only [elapsed, skip, hbefore, ↓reduceIte, Nat.zero_min, Nat.mul_zero, Nat.add_zero]
  · rw [if_neg (Nat.ne_of_gt hpos)]

/-- Below the limit of counting, the answer is the backlog up to the burst limit. -/
theorem Steady.min_elapsed (hp : p.Steady) :
    min (p.elapsed now) p.maxBurst = min (p.backlog now) p.maxBurst := by
  have hlt := hp.maxBurst_lt
  rw [elapsed_eq_min]
  omega

/-- A call takes as many ticks off the backlog as it can count. -/
theorem backlog_skip_elapsed (hpos : 0 < p.period) (now : Nat) :
    (p.skip (p.elapsed now)).backlog now = p.backlog now - maxCount := by
  rw [backlog_skip hpos, elapsed_eq_min]
  omega

/-- The next tick lies after the time of the call exactly if the whole backlog was counted. -/
theorem lt_next_skip_elapsed_iff (hpos : 0 < p.period) :
    now < (p.skip (p.elapsed now)).next ↔ p.backlog now ≤ maxCount := by
  rw [← backlog_eq_zero_iff, backlog_skip_elapsed hpos]
  exact Nat.sub_eq_zero_iff_le

theorem Steady.skip (hp : p.Steady) (ticks : Nat) : (p.skip ticks).Steady :=
  ⟨hp.period_pos, hp.maxBurst_lt⟩

/-- Another call at once answers zero, and waits for a period at most, if everything was counted. -/
theorem Steady.due_again_of_le (hp : p.Steady) (h : p.backlog now ≤ maxCount) :
    let q := p.skip (p.elapsed now)
    q.due now = .ok (0, q) ∧ 0 < q.untilNext now ∧
      (p.next ≤ now → q.untilNext now ≤ p.period) := by
  intro q
  have hlt : now < q.next := (lt_next_skip_elapsed_iff hp.period_pos).2 h
  refine ⟨if_pos hlt, Nat.sub_pos_of_lt hlt, fun hreached => ?_⟩
  have hnext : q.next ≤ now + p.period := next_skip_elapsed_le hreached
  exact Nat.sub_le_iff_le_add'.2 hnext

/-- It answers more ticks, and does not wait, if some were left. -/
theorem Steady.due_again_of_lt (hp : p.Steady) (hburst : 0 < p.maxBurst)
    (h : maxCount < p.backlog now) :
    let q := p.skip (p.elapsed now)
    q.untilNext now = 0 ∧ ∃ again r, q.due now = .ok (again, r) ∧ 0 < again := by
  intro q
  have hq : q.Steady := hp.skip _
  have hle : q.next ≤ now :=
    Nat.not_lt.1 fun hlt => Nat.not_le.2 h ((lt_next_skip_elapsed_iff hp.period_pos).1 hlt)
  have hleft : 0 < q.backlog now := by
    rw [backlog_skip_elapsed hp.period_pos]
    exact Nat.sub_pos_of_lt h
  refine ⟨Nat.sub_eq_zero_of_le hle, _, _, due_eq hq.period_pos now, ?_⟩
  rw [hq.min_elapsed]
  exact Nat.lt_min.2 ⟨hleft, hburst⟩

/-! ## Calls in any order -/

/-- Whatever is asked of a steady pacer, it keeps its period and its burst limit. -/
theorem Steady.askAll_keeps (hp : p.Steady) (calls : List Call) :
    ∃ answers q, p.askAll calls = .ok (answers, q) ∧ q.period = p.period ∧
      q.maxBurst = p.maxBurst := by
  induction calls generalizing p with
  | nil => exact ⟨[], p, rfl, rfl, rfl⟩
  | cons call rest ih =>
      cases call with
      | due t =>
          rcases ih (hp.skip (p.elapsed t)) with ⟨answers, q, hall, hperiod, hburst⟩
          refine ⟨.counted ⟨t, min (p.elapsed t) p.maxBurst, p.capped t⟩ :: answers, q, ?_, hperiod,
            hburst⟩
          simp only [Pacer.askAll, ask, due_eq hp.period_pos, hall]
      | restart t =>
          have hrestarted : (p.restart t).Steady := ⟨hp.period_pos, hp.maxBurst_lt⟩
          rcases ih hrestarted with ⟨answers, q, hall, hperiod, hburst⟩
          refine ⟨.restarted t :: answers, q, ?_, hperiod, hburst⟩
          simp only [Pacer.askAll, ask, hall]

/-! ## Calls at one time -/

def replayed (p : Pacer) (now k : Nat) : Nat :=
  min (p.backlog now - k * maxCount) p.maxBurst

/-- After a call the others move up by one. -/
theorem replayed_skip_elapsed (hpos : 0 < p.period) (k : Nat) :
    (p.skip (p.elapsed now)).replayed now k = p.replayed now (k + 1) := by
  rw [replayed, replayed, backlog_skip_elapsed hpos, maxBurst_skip, Nat.sub_sub, Nat.succ_mul,
    Nat.add_comm]

/-- Calls at one time give away what each of them is left. -/
theorem Steady.askAll_replicate (hp : p.Steady) (now polls : Nat) :
    ∃ answers q, p.askAll (.replicate polls (.due now)) = .ok (answers, q) ∧
      answers.map Answer.ticks = (List.range polls).map (p.replayed now) := by
  induction polls generalizing p with
  | zero => exact ⟨[], p, rfl, rfl⟩
  | succ polls ih =>
      -- after the first call the backlog is shorter by as much as one call can count
      rcases ih (hp.skip (p.elapsed now)) with ⟨answers, q, hall, hticks⟩
      refine ⟨.counted ⟨now, min (p.elapsed now) p.maxBurst, p.capped now⟩ :: answers, q, ?_, ?_⟩
      · rw [List.replicate_succ]
        simp only [Pacer.askAll, ask, due_eq hp.period_pos, hall]
      · have hfirst : min (p.elapsed now) p.maxBurst = p.replayed now 0 := by
          rw [hp.min_elapsed, replayed, Nat.zero_mul, Nat.sub_zero]
        have hlater : (p.skip (p.elapsed now)).replayed now = p.replayed now ∘ Nat.succ := by
          funext k
          rw [replayed_skip_elapsed hp.period_pos, Function.comp_apply]
        rw [List.map_cons, hticks, hlater, List.range_succ_eq_map, List.map_cons, List.map_map,
          ← hfirst, Answer.ticks]

@[simp]
theorem total_eq_sum (answers : List Answer) : total answers = (answers.map Answer.ticks).sum := by
  induction answers with
  | nil => rfl
  | cons answer rest ih => simp [ih]

/-- A backlog that one call can count is replayed by the first call alone. -/
theorem sum_replayed_le (h : p.backlog now ≤ maxCount) (polls : Nat) :
    ((List.range polls).map (p.replayed now)).sum ≤ p.maxBurst := by
  cases polls with
  | zero => exact Nat.zero_le _
  | succ polls =>
      have hfirst : p.replayed now 0 ≤ p.maxBurst := Nat.min_le_right _ _
      have hlater (k : Nat) : (p.replayed now ∘ Nat.succ) k = 0 := by
        have hgone : p.backlog now - Nat.succ k * maxCount = 0 := by
          rw [Nat.succ_mul]
          omega
        rw [Function.comp_apply, replayed, hgone, Nat.zero_min]
      have hrest : ((List.range polls).map (p.replayed now ∘ Nat.succ)).sum = 0 := by
        refine List.sum_eq_zero fun ticks hticks => ?_
        rcases List.mem_map.1 hticks with ⟨k, -, rfl⟩
        exact hlater k
      rw [List.range_succ_eq_map, List.map_cons, List.map_map, List.sum_cons, hrest, Nat.add_zero]
      exact hfirst

/-! ## Stalls -/

/-- After any calls of a pacer with a rate up to one tick per nanosecond, a call at any time answers
its backlog up to a quarter second of ticks, or one. If a call can count the backlog, the next tick
lies after that time and the stall is replayed once; otherwise there is no wait and the next call
replays more. -/
theorem stall_replayed_once_iff {rate : Nat} (hpos : 0 < rate) (hrate : rate ≤ 1000000000)
    (start : Nat) (calls : List Call) :
    let period := 1000000000 / rate
    let limit := max (rate / 4) 1
    ∃ answers p, (ofRate rate start).askAll calls = .ok (answers, p) ∧
      ∀ now, ∃ q, p.due now = .ok (min (p.backlog now) limit, q) ∧
        (now < q.next ↔ now < p.next + period * maxCount) ∧
        (now < p.next + period * maxCount → q.due now = .ok (0, q) ∧ 0 < q.untilNext now ∧
          (p.next ≤ now → q.untilNext now ≤ period)) ∧
        (p.next + period * maxCount ≤ now → q.untilNext now = 0 ∧
          ∃ again r, q.due now = .ok (again, r) ∧ 0 < again) ∧
        ∀ polls, ∃ replies last, p.askAll (.replicate polls (.due now)) = .ok (replies, last) ∧
          replies.map Answer.ticks =
            (List.range polls).map (fun k => min (p.backlog now - k * maxCount) limit) ∧
          (now < p.next + period * maxCount → total replies ≤ limit) := by
  intro period limit
  have hsteady := ofRate_steady hrate start
  have hmax : max rate 1 = rate := Nat.max_eq_left hpos
  rcases hsteady.askAll_keeps calls with ⟨answers, p, hall, hkeptPeriod, hkeptBurst⟩
  have hperiod : p.period = period := by
    simp only [hkeptPeriod, ofRate, hmax, period]
  have hburst : p.maxBurst = limit := by
    simp only [hkeptBurst, ofRate, hmax, limit]
  have hp : p.Steady := by
    refine ⟨?_, ?_⟩
    · rw [hkeptPeriod]
      exact hsteady.period_pos
    · rw [hkeptBurst]
      exact hsteady.maxBurst_lt
  have hlimit : 0 < p.maxBurst := by
    rw [hburst]
    exact Nat.lt_of_lt_of_le Nat.one_pos (Nat.le_max_right _ _)
  refine ⟨answers, p, hall, fun now => ?_⟩
  have hcounted : p.backlog now ≤ maxCount ↔ now < p.next + period * maxCount :=
    hperiod ▸ backlog_le_iff hp.period_pos
  refine ⟨p.skip (p.elapsed now), ?_, ?_, ?_, ?_, ?_⟩
  · rw [due_eq hp.period_pos, hp.min_elapsed, hburst]
  · exact (lt_next_skip_elapsed_iff hp.period_pos).trans hcounted
  · intro hshort
    rw [← hperiod]
    exact hp.due_again_of_le (hcounted.2 hshort)
  · intro hlong
    exact hp.due_again_of_lt hlimit (Nat.lt_of_not_le fun h => Nat.not_lt.2 hlong (hcounted.1 h))
  · intro polls
    rcases hp.askAll_replicate now polls with ⟨replies, last, hpolls, hticks⟩
    refine ⟨replies, last, hpolls, ?_, fun hshort => ?_⟩
    · rw [hticks, ← hburst]
      rfl
    · rw [total_eq_sum, hticks, ← hburst]
      exact sum_replayed_le (hcounted.2 hshort) polls

/-- Sixty ticks a second: of the six hundred ticks of a stall fifteen are replayed, and three calls
at its end replay no more. -/
theorem stall_replayed_once_iff_ten_seconds :
    let p : Pacer := ⟨16666666, 16666666, 15⟩
    (0 < 60 ∧ 60 ≤ 1000000000) ∧ (ofRate 60 0).askAll [.due 0] = .ok ([.counted ⟨0, 1, false⟩], p) ∧
      p.backlog 10000000000 = 600 ∧
      ∃ q, p.due 10000000000 = .ok (15, q) ∧ q.due 10000000000 = .ok (0, q) ∧
        0 < q.untilNext 10000000000 ∧ q.untilNext 10000000000 ≤ 1000000000 / 60 ∧
        ∃ replies last, p.askAll (.replicate 3 (.due 10000000000)) = .ok (replies, last) ∧
          total replies ≤ 15 := by
  intro p
  have hpos : 0 < 60 := by decide
  have hrate : 60 ≤ 1000000000 := by decide
  have hrun : (ofRate 60 0).askAll [.due 0] = .ok ([.counted ⟨0, 1, false⟩], p) := by rfl
  rcases stall_replayed_once_iff hpos hrate 0 [.due 0] with ⟨answers, _, hall, hstall⟩
  rw [hrun] at hall
  cases hall
  have hshort : 10000000000 < p.next + 1000000000 / 60 * maxCount := by decide
  have hreached : p.next ≤ 10000000000 := by decide
  rcases hstall 10000000000 with ⟨q, hdue, -, honce, -, hpolls⟩
  rcases honce hshort with ⟨hagain, hwait, hperiod⟩
  rcases hpolls 3 with ⟨replies, last, hreplies, -, htotal⟩
  have hbacklog : p.backlog 10000000000 = 600 := by decide
  rw [hbacklog] at hdue
  exact ⟨⟨hpos, hrate⟩, hrun, hbacklog, q, hdue, hagain, hwait, hperiod hreached, replies, last,
    hreplies, htotal hshort⟩

/-- At one tick per nanosecond a stall of five seconds is more than one call can count.  After it
the next tick is overdue, the second call at the same time replays another quarter second of ticks,
and both together exceed the limit. -/
theorem stall_replayed_twice :
    let p := ofRate 1000000000 0
    let q := p.skip maxCount
    let r := q.skip (q.elapsed 5000000000)
    p.due 5000000000 = .ok (250000000, q) ∧ q.next ≤ 5000000000 ∧ q.untilNext 5000000000 = 0 ∧
      q.due 5000000000 = .ok (250000000, r) ∧ max (1000000000 / 4) 1 < 250000000 + 250000000 := by
  decide

end Pacer
end Chip8
