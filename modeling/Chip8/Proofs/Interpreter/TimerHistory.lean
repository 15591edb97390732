import Chip8.Proofs.Interpreter.Deeds
import Mathlib.Data.List.DropRight

/-!
# TimerHistory — timers and beeps, from what was done

A timer holds the value that it was set to last, less the ticks since then, but not below zero.  A
tick beeps when it is as far from the last setting of the sound timer as that setting says, and a
beep is pending if a tick has beeped since the last time one was taken.  Resets count as settings to
zero.

`FollowsTimers` states this as an invariant of the deeds so far, which every deed keeps.

Main statement: `timers_follow_deeds`.
-/

namespace Chip8

/-! ## Settings, ticks and beeps in a list of deeds -/

inductive Timer where
  | delay
  | sound
  deriving DecidableEq

/-- What a timer holds. -/
def Timers.get (t : Timers) : Timer → UInt8
  | .delay => t.delay
  | .sound => t.sound

/-- The timer that an instruction sets, and the register that it is set from. -/
def Instruction.setting? : Instruction → Option (Timer × UInt8)
  | .setDelay x => some (.delay, x)
  | .setSound x => some (.sound, x)
  | _ => none

namespace Deed

/-- What the deed sets a timer to. -/
def sets? (timer : Timer) : Deed → Option UInt8
  | .ran found i _ =>
      match i.setting? with
      | some (target, x) => if target = timer then some (found.machine.value x) else none
      | none => none
  | .reset => some 0
  | .ticked _ | .beepTaken => none

def ticks : Deed → Bool
  | .ticked _ => true
  | _ => false

/-- No beep is pending after the deed. -/
def silences : Deed → Bool
  | .reset | .beepTaken => true
  | _ => false

end Deed

variable {timer : Timer} {past : List Deed} {d : Deed} {v : UInt8}

def lastSet (timer : Timer) (past : List Deed) : UInt8 :=
  (past.filterMap (Deed.sets? timer)).getLast?.getD 0

/-- The ticks since a timer was set last. -/
def ticksSince (timer : Timer) (past : List Deed) : Nat :=
  (past.rtakeWhile fun d => (d.sets? timer).isNone).countP Deed.ticks

/-- What is left of the last setting of a timer. -/
def timeLeft (timer : Timer) (past : List Deed) : Nat :=
  (lastSet timer past).toNat - min (lastSet timer past).toNat (ticksSince timer past)

/-- A tick has beeped since the last time that a beep was taken, or that all was reset. -/
def BeepedSince (past : List Deed) : Prop :=
  .ticked true ∈ past.rtakeWhile fun d => !d.silences

theorem lastSet_concat_some (h : d.sets? timer = some v) : lastSet timer (past ++ [d]) = v := by
  simp [lastSet, h]

theorem lastSet_concat_none (h : d.sets? timer = none) :
    lastSet timer (past ++ [d]) = lastSet timer past := by
  simp [lastSet, h]

/-- A setting begins a new count. -/
theorem ticksSince_concat_some (h : d.sets? timer = some v) :
    ticksSince timer (past ++ [d]) = 0 := by
  simp [ticksSince, h]

/-- Every tick after it is counted. -/
theorem ticksSince_concat_none (h : d.sets? timer = none) :
    ticksSince timer (past ++ [d]) = ticksSince timer past + d.ticks.toNat := by
  cases hticks : d.ticks with
  | _ => simp [ticksSince, h, hticks]

/-- Subtraction stops at zero by itself. -/
theorem timeLeft_eq_sub :
    timeLeft timer past = (lastSet timer past).toNat - ticksSince timer past := by
  unfold timeLeft
  omega

theorem timeLeft_concat_some (h : d.sets? timer = some v) :
    timeLeft timer (past ++ [d]) = v.toNat := by
  simp [timeLeft_eq_sub, lastSet_concat_some h, ticksSince_concat_some h]

/-- A tick takes one of it. -/
theorem timeLeft_concat_none (h : d.sets? timer = none) :
    timeLeft timer (past ++ [d]) = timeLeft timer past - d.ticks.toNat := by
  simp [timeLeft_eq_sub, lastSet_concat_none h, ticksSince_concat_none h, Nat.sub_sub]

/-- A reset, or a beep that is taken, leaves no beep. -/
theorem beepedSince_concat_of_silences (h : d.silences = true) : ¬ BeepedSince (past ++ [d]) := by
  simp [BeepedSince, h]

/-- Any other deed leaves what was pending, and a tick may add to it. -/
theorem beepedSince_concat (h : d.silences = false) :
    BeepedSince (past ++ [d]) ↔ BeepedSince past ∨ d = .ticked true := by
  simp [BeepedSince, h, eq_comm]

namespace Interpreter

open Chip8.Interpreter.Action

variable {s t : Interpreter} {i : Instruction}

/-! ## The invariant -/

/-- The timers and the pending beep are what the deeds so far make of them. -/
structure FollowsTimers (past : List Deed) (s : Interpreter) : Prop where
  value_eq : ∀ timer, (s.machine.timers.get timer).toNat = timeLeft timer past
  pending_iff : s.beepPending = true ↔ BeepedSince past

/-- What an instruction leaves in a timer. -/
theorem get_timersAfter (s : Interpreter) (i : Instruction) (timer : Timer) (left : Interpreter) :
    (s.machine.timersAfter i).get timer =
      ((Deed.ran s i left).sets? timer).getD (s.machine.timers.get timer) := by
  cases i with
  | setDelay x | setSound x =>
      cases timer with
      | _ => rfl
  | _ => rfl

/-- An instruction sets a timer, or leaves both as they are. -/
theorem FollowsTimers.ran (hs : FollowsTimers past s) (h : perform i s = .ok () t) :
    FollowsTimers (past ++ [.ran s i t]) t where
  value_eq := by
    intro timer
    have hget : t.machine.timers.get timer =
        ((Deed.ran s i t).sets? timer).getD (s.machine.timers.get timer) := by
      rw [← get_timersAfter, eq_effect_of_perform h]
      rfl
    rw [hget]
    -- a setting takes the place of what was left, and other instructions leave that alone
    cases hsets : (Deed.ran s i t).sets? timer with
    | some v =>
        rw [timeLeft_concat_some hsets]
        rfl
    | none =>
        rw [timeLeft_concat_none hsets]
        exact hs.value_eq timer
  pending_iff := by
    have hpending : t.beepPending = s.beepPending := by
      rw [eq_effect_of_perform h]
      rfl
    rw [beepedSince_concat rfl, hpending, hs.pending_iff]
    exact (or_iff_left fun heq => nomatch heq).symm

/-- A tick counts both timers down. -/
theorem FollowsTimers.ticked (hs : FollowsTimers past s) :
    FollowsTimers (past ++ [.ticked s.tickBeeps]) s.tick where
  value_eq := by
    intro timer
    rw [timeLeft_concat_none rfl, ← hs.value_eq timer]
    cases timer with
    | _ => exact Timers.toNat_countDown _
  pending_iff := by
    rw [beepedSince_concat rfl, ← hs.pending_iff, Deed.ticked.injEq]
    exact Bool.or_eq_true_iff

/-- After a reset, or a beep that was taken, nothing is pending. -/
theorem pending_iff_of_silences (hpending : t.beepPending = false) (h : d.silences = true) :
    t.beepPending = true ↔ BeepedSince (past ++ [d]) := by
  rw [hpending]
  exact iff_of_false Bool.false_ne_true (beepedSince_concat_of_silences h)

/-- A reset is a new beginning, whatever was done before it. -/
theorem followsTimers_reset (past : List Deed) (s : Interpreter) :
    FollowsTimers (past ++ [.reset]) s.reset where
  value_eq := by
    intro timer
    have hzero : s.reset.machine.timers.get timer = 0 := by
      rw [reset_eq_start]
      cases timer with
      | _ => rfl
    rw [timeLeft_concat_some rfl, hzero]
  pending_iff := pending_iff_of_silences rfl rfl

/-- Taking the beep does not touch the timers. -/
theorem FollowsTimers.beepTaken (hs : FollowsTimers past s) :
    FollowsTimers (past ++ [.beepTaken]) s.beepTaken where
  value_eq := by
    intro timer
    rw [timeLeft_concat_none rfl]
    exact hs.value_eq timer
  pending_iff := pending_iff_of_silences rfl rfl

/-- Every deed keeps the timers in step. -/
theorem keeps_followsTimers : Keeps FollowsTimers where
  ran := fun _ _ _ _ hs hperform => hs.ran hperform
  ticked := fun _ _ hs => hs.ticked
  reset := fun past s _ => followsTimers_reset past s
  beepTaken := fun _ _ hs => hs.beepTaken
  quiet := by
    intro past s t hs hquiet
    refine ⟨fun timer => ?_, ?_⟩
    · rw [hquiet.timers_eq]
      exact hs.value_eq timer
    · rw [hquiet.beepPending_eq]
      exact hs.pending_iff

theorem followsTimers_start (g : Generator) : FollowsTimers [] (start g) where
  value_eq := by
    intro timer
    cases timer with
    | _ => rfl
  pending_iff := iff_of_false Bool.false_ne_true List.not_mem_nil

/-! ## Histories -/

/-- The register gets what the delay timer holds. -/
theorem read_of_perform {x : UInt8} (h : perform (.readDelay x) s = .ok () t) :
    t.machine.registers[x.toNat]? = some s.machine.timers.delay := by
  have hx : x.toNat < registerCount := lt_of_setRegister (f := fun v => v) h
  rw [eq_effect_of_perform h]
  exact Vector.getElem?_setIfInBounds_self_of_lt hx

/-- The next tick beeps when there has been one tick less than the sound timer was set to. -/
theorem FollowsTimers.tickBeeps_iff (hs : FollowsTimers past s) :
    s.tickBeeps = true ↔ 1 ≤ (lastSet .sound past).toNat ∧
      ticksSince .sound past + 1 = (lastSet .sound past).toNat := by
  have hvalue : s.machine.timers.sound.toNat = timeLeft .sound past := hs.value_eq .sound
  have hone : s.tickBeeps = true ↔ s.machine.timers.sound.toNat = 1 := by
    rw [tickBeeps, Timers.beeps, beq_iff_eq, ← UInt8.toNat_inj]
    rfl
  rw [hone, hvalue, timeLeft_eq_sub]
  omega

/-- After every history the timers hold what is left of their last settings, the next tick beeps if
the last setting of the sound timer says so, and a beep can be taken if a tick has beeped since the
last time. Each instruction that reads the delay timer gets what was left there. -/
theorem timers_follow_deeds {g : Generator} {ops : List Operation} {rs : List Response}
    (h : (start g).applyAll ops = .ok (rs, s)) :
    let past := (start g).deeds ops
    (∀ timer, (s.machine.timers.get timer).toNat = timeLeft timer past) ∧
      (∃ beeps, s.apply .tick = .ok (.flag beeps, s.tick) ∧
        (beeps = true ↔ 1 ≤ (lastSet .sound past).toNat ∧
          ticksSince .sound past + 1 = (lastSet .sound past).toNat)) ∧
      (∃ pending, s.apply .takeBeep = .ok (.flag pending, s.beepTaken) ∧
        (pending = true ↔ BeepedSince past)) ∧
      ∀ before found x left later, past = before ++ .ran found (.readDelay x) left :: later →
        ∃ value, left.machine.registers[x.toNat]? = some value ∧
          value.toNat = timeLeft .delay before := by
  intro past
  have hreads : ∀ past s i t, FollowsTimers past s → perform i s = .ok () t →
      ∀ x, i = .readDelay x → ∃ value, t.machine.registers[x.toNat]? = some value ∧
        value.toNat = timeLeft .delay past := by
    rintro past s i t hs hperform x rfl
    exact ⟨_, read_of_perform hperform, hs.value_eq .delay⟩
  rcases (keeps_followsTimers.atRuns hreads).deeds ⟨followsTimers_start g, atRuns_nil⟩ h with
    ⟨hs, hruns⟩
  refine ⟨hs.value_eq, ⟨_, rfl, hs.tickBeeps_iff⟩, ⟨_, rfl, hs.pending_iff⟩, ?_⟩
  intro before found x left later hsplit
  exact hruns before found (.readDelay x) left later hsplit x rfl

/-- The sound timer is set again while it still runs, and then a return is refused.  The tick after
that beeps all the same, as the second one since the timer was set to two. -/
theorem timers_follow_deeds_set_again :
    let ops : List Operation := [.execute (.setConst 0 5), .execute (.setSound 0), .tick,
      .execute (.setConst 0 2), .execute (.setSound 0), .tick, .execute .ret]
    let past := (start (.ofSeed 3)).deeds ops
    lastSet .sound past = 2 ∧ ticksSince .sound past = 1 ∧
      ∃ rs s, (start (.ofSeed 3)).applyAll ops = .ok (rs, s) ∧
        s.apply .tick = .ok (.flag true, s.tick) := by
  intro ops past
  have hset : lastSet .sound past = 2 := by decide +kernel
  have hticks : ticksSince .sound past = 1 := by decide +kernel
  cases hall : (start (.ofSeed 3)).applyAll ops with
  | error b =>
      have hok : ((start (.ofSeed 3)).applyAll ops).isOk = true := by decide +kernel
      rw [hall] at hok
      cases hok
  | ok answer =>
      rcases timers_follow_deeds hall with ⟨-, ⟨beeps, htick, hbeeps⟩, -⟩
      have hbeep : beeps = true := by
        refine hbeeps.2 ?_
        rw [hset, hticks]
        decide
      rw [hbeep] at htick
      exact ⟨hset, hticks, answer.1, answer.2, rfl, htick⟩

end Interpreter
end Chip8
