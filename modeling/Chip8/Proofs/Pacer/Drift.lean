import Chip8.Proofs.Pacer.Backlog

/-!
# Drift — the rate of a pacer over whole seconds

Polls that are not cut off give away the backlog, all of it and nothing else, however they are
spaced (`Steady.askAll_uncapped`).  So the rate at which a pacer really ticks is that of its
period.  The period is a whole number of nanoseconds: for a rate that does not divide a second it is
a little short, and the pacer a little fast.  What it gains is `surplus`.

Main statement: `total_whole_seconds`.
-/

namespace Chip8
namespace Pacer

variable {p : Pacer} {now t : Nat}

/-! ## Polls that are not cut off -/

def Answer.capped : Answer → Bool
  | counted poll => poll.capped
  | restarted _ => false

/-- None of the answers was cut off. -/
def Uncapped (answers : List Answer) : Prop :=
  ∀ answer ∈ answers, answer.capped = false

/-- The backlog only grows while nothing is asked. -/
theorem backlog_mono (hpos : 0 < p.period) (h : now ≤ t) : p.backlog now ≤ p.backlog t :=
  (backlog_le_iff hpos).2 (Nat.lt_of_le_of_lt h ((backlog_le_iff hpos).1 (Nat.le_refl _)))

/-- A poll that is not cut off counts the whole backlog. -/
theorem Steady.elapsed_eq_backlog (hp : p.Steady) (h : p.capped now = false) :
    p.elapsed now = p.backlog now := by
  have hlt : p.elapsed now < maxCount :=
    Nat.lt_of_le_of_lt (elapsed_le_of_not_capped h) hp.maxBurst_lt
  rw [elapsed_eq_min] at hlt ⊢
  omega

/-- As long as no poll is cut off, the ticks are those due by the time of the last one. -/
theorem Steady.askAll_uncapped (hp : p.Steady) {times : List Nat}
    (htimes : times.Pairwise (· ≤ ·)) :
    ∃ answers last, p.askAll (times.map .due) = .ok (answers, last) ∧
      answers.map Answer.call = times.map .due ∧
      ∀ t, times.getLast? = some t → Uncapped answers → total answers = p.backlog t := by
  induction times generalizing p with
  | nil => exact ⟨[], p, rfl, rfl, fun t ht => nomatch ht⟩
  | cons now rest ih =>
      rcases List.pairwise_cons.1 htimes with ⟨hnow, hrest⟩
      rcases ih (hp.skip (p.elapsed now)) hrest with ⟨answers, last, hall, hcalls, htotal⟩
      refine ⟨.counted ⟨now, min (p.elapsed now) p.maxBurst, p.capped now⟩ :: answers, last, ?_,
        congrArg (Call.due now :: ·) hcalls, ?_⟩
      · simp only [List.map_cons, Pacer.askAll, ask, due_eq hp.period_pos, hall]
      · intro t ht huncapped
        have hfirst : p.capped now = false := huncapped _ (.head _)
        have hlater : Uncapped answers := fun answer hanswer =>
          huncapped answer (.tail _ hanswer)
        have hcount : min (p.elapsed now) p.maxBurst = p.backlog now := by
          rw [Nat.min_eq_left (elapsed_le_of_not_capped hfirst), hp.elapsed_eq_backlog hfirst]
        show min (p.elapsed now) p.maxBurst + total answers = p.backlog t
        cases rest with
        | nil =>
            cases ht
            rw [List.map_eq_nil_iff.1 hcalls, hcount]
            rfl
        | cons second rest =>
            -- the later polls share what the first one has left of the backlog
            have hle : p.backlog now ≤ p.backlog t :=
              backlog_mono hp.period_pos (hnow t (List.mem_of_getLast? ht))
            calc min (p.elapsed now) p.maxBurst + total answers
                = p.backlog now + (p.skip (p.elapsed now)).backlog t := by
                  rw [hcount, htotal t ht hlater]
              _ = p.backlog now + (p.backlog t - p.backlog now) := by
                  rw [backlog_skip hp.period_pos, hp.elapsed_eq_backlog hfirst]
              _ = p.backlog t := Nat.add_sub_of_le hle

/-! ## Whole seconds -/

/-- The ticks that a pacer gives away in a number of seconds beyond its rate. -/
def surplus (rate seconds : Nat) : Nat :=
  -- what is cut off the period of each tick adds up to them
  seconds * (1000000000 % rate) / (1000000000 / rate)

variable {rate : Nat}

theorem period_pos (hpos : 0 < rate) (hrate : rate ≤ 1000000000) : 0 < 1000000000 / rate :=
  Nat.div_pos hrate hpos

theorem surplus_eq_zero_iff (hpos : 0 < rate) (hrate : rate ≤ 1000000000) (seconds : Nat) :
    surplus rate seconds = 0 ↔ seconds * (1000000000 % rate) < 1000000000 / rate :=
  Nat.div_eq_zero_iff_lt (period_pos hpos hrate)

/-- The rates that are kept for ever are the divisors of a second. -/
theorem forall_surplus_eq_zero_iff (hpos : 0 < rate) (hrate : rate ≤ 1000000000) :
    (∀ seconds, surplus rate seconds = 0) ↔ rate ∣ 1000000000 := by
  constructor
  · intro h
    -- after as many seconds as a period has nanoseconds, each nanosecond cut off has become a tick
    have hrest := h (1000000000 / rate)
    rw [surplus, Nat.mul_div_cancel_left _ (period_pos hpos hrate)] at hrest
    exact Nat.dvd_of_mod_eq_zero hrest
  · intro hdvd seconds
    rw [surplus, Nat.mod_eq_zero_of_dvd hdvd, Nat.mul_zero, Nat.zero_div]

/-- A number of seconds is as many periods as the rate says, and the surplus. -/
theorem periods_in_seconds (hpos : 0 < rate) (hrate : rate ≤ 1000000000) (seconds : Nat) :
    seconds * 1000000000 / (1000000000 / rate) = rate * seconds + surplus rate seconds := by
  -- a second is as many periods as the rate says, and what was cut off them
  have hsecond : 1000000000 / rate * rate + 1000000000 % rate = 1000000000 := Nat.div_add_mod' _ _
  have hsplit : seconds * 1000000000 =
      1000000000 / rate * (rate * seconds) + seconds * (1000000000 % rate) := by
    calc seconds * 1000000000
        = seconds * (1000000000 / rate * rate + 1000000000 % rate) := by rw [hsecond]
      _ = 1000000000 / rate * (rate * seconds) + seconds * (1000000000 % rate) := by
        rw [Nat.mul_add]
        congr 1
        ac_rfl
  rw [hsplit, Nat.mul_add_div (period_pos hpos hrate)]
  rfl

/-- So the backlog after whole seconds has the tick at the start besides. -/
theorem backlog_whole_seconds (hpos : 0 < rate) (hrate : rate ≤ 1000000000) (start seconds : Nat) :
    (ofRate rate start).backlog (start + seconds * 1000000000) =
      rate * seconds + 1 + surplus rate seconds := by
  have hmax : max rate 1 = rate := Nat.max_eq_left hpos
  have hreached : ¬ start + seconds * 1000000000 < start := by omega
  rw [backlog]
  simp only [ofRate, hmax, hreached, ↓reduceIte, Nat.add_sub_cancel_left]
  rw [periods_in_seconds hpos hrate]
  omega

/-- A pacer of a rate up to one tick per nanosecond, polled in order of time up to a whole number of
seconds after its start: unless a poll is cut off, the ticks are the rate for each second, the one
at the start, and the surplus. -/
theorem total_whole_seconds {start seconds : Nat} {times : List Nat} (hpos : 0 < rate)
    (hrate : rate ≤ 1000000000) (htimes : times.Pairwise (· ≤ ·))
    (hlast : times.getLast? = some (start + seconds * 1000000000)) :
    ∃ answers last, (ofRate rate start).askAll (times.map .due) = .ok (answers, last) ∧
      answers.map Answer.call = times.map .due ∧
      (Uncapped answers → total answers = rate * seconds + 1 + surplus rate seconds ∧
        (total answers = rate * seconds + 1 ↔
          seconds * (1000000000 % rate) < 1000000000 / rate)) := by
  have hsteady := ofRate_steady hrate start
  rcases hsteady.askAll_uncapped htimes with ⟨answers, last, hall, hcalls, htotal⟩
  refine ⟨answers, last, hall, hcalls, fun huncapped => ?_⟩
  have hsum : total answers = rate * seconds + 1 + surplus rate seconds :=
    (htotal _ hlast huncapped).trans (backlog_whole_seconds hpos hrate start seconds)
  refine ⟨hsum, ?_⟩
  rw [hsum, Nat.add_eq_left, surplus_eq_zero_iff hpos hrate]

/-- Sixty ticks a second do not divide it, but in one second nothing is gained yet. -/
theorem total_whole_seconds_sixty :
    let times := [0, 200000000, 400000000, 600000000, 800000000, 1000000000]
    (0 < 60 ∧ 60 ≤ 1000000000 ∧ times.Pairwise (· ≤ ·) ∧
      times.getLast? = some (0 + 1 * 1000000000)) ∧
      ∃ answers last, (ofRate 60 0).askAll (times.map .due) = .ok (answers, last) ∧
        Uncapped answers ∧ total answers = 60 * 1 + 1 := by
  intro times
  have hpos : 0 < 60 := by decide
  have hrate : 60 ≤ 1000000000 := by decide
  have htimes : times.Pairwise (· ≤ ·) := by decide
  have hlast : times.getLast? = some (0 + 1 * 1000000000) := by decide
  rcases total_whole_seconds hpos hrate htimes hlast with ⟨answers, last, hall, -, htotal⟩
  let replies : List Answer := [.counted ⟨0, 1, false⟩, .counted ⟨200000000, 12, false⟩,
    .counted ⟨400000000, 12, false⟩, .counted ⟨600000000, 12, false⟩,
    .counted ⟨800000000, 12, false⟩, .counted ⟨1000000000, 12, false⟩]
  have hrun : (ofRate 60 0).askAll (times.map .due) =
      .ok (replies, ⟨16666666, 1016666626, 15⟩) := by rfl
  have huncapped : Uncapped replies := by
    unfold Uncapped
    decide
  rw [hrun] at hall
  have hreplies : replies = answers := congrArg Prod.fst (Except.ok.inj hall)
  rw [← hreplies] at htotal
  exact ⟨⟨hpos, hrate, htimes, hlast⟩, replies, _, hrun, huncapped,
    (htotal huncapped).2.2 (by decide)⟩

/-- The pacer of 44100 ticks a second has a period of 22675 nanoseconds, and gives one tick too many
in the first second. -/
theorem second_gains_tick :
    let times := [0, 200000000, 400000000, 600000000, 800000000, 1000000000]
    (0 < 44100 ∧ 44100 ≤ 1000000000 ∧ times.Pairwise (· ≤ ·) ∧
      times.getLast? = some (0 + 1 * 1000000000)) ∧
      ∃ answers last, (ofRate 44100 0).askAll (times.map .due) = .ok (answers, last) ∧
        Uncapped answers ∧ total answers = 44102 ∧ total answers ≠ 44100 * 1 + 1 := by
  intro times
  have hrun : (ofRate 44100 0).askAll (times.map .due) = .ok ([.counted ⟨0, 1, false⟩,
      .counted ⟨200000000, 8820, false⟩, .counted ⟨400000000, 8820, false⟩,
      .counted ⟨600000000, 8820, false⟩, .counted ⟨800000000, 8821, false⟩,
      .counted ⟨1000000000, 8820, false⟩], ⟨22675, 1000012850, 11025⟩) := by rfl
  refine ⟨by decide, _, _, hrun, ?_, by decide, by decide⟩
  unfold Uncapped
  decide

end Pacer
end Chip8
