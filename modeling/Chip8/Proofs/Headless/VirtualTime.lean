import Chip8.Headless.Runner
import Chip8.Proofs.Engine.Beeps
import Chip8.Proofs.Interpreter.Bounds
import Chip8.Proofs.Interpreter.History

/-!
# VirtualTime — where the ticks of a headless run fall

The runner never looks at a clock.  After each step it adds the timer rate to a credit, and pays for
ticks from it, the instruction rate for each.  What is left is the remainder of a division, so that
the ticks are where a division of the number of steps puts them: after `k` steps there have been `k
* timerRate / instructionRate` of them.  `timetable` is this order of steps and ticks, and `InTime`
the invariant of a run that keeps it.

Main statement: `run_keeps_timetable`.
-/

namespace Chip8

namespace Interpreter

variable {s t : Interpreter} {ops : List Operation}

/-! ## Ticks of a history -/

/-- The states before the ticks of a history. -/
def beforeTicks (s : Interpreter) : List Operation → List Interpreter
  | [] => []
  | op :: rest =>
      match s.apply op with
      | .error _ => []
      | .ok (_, next) => (if op = .tick then [s] else []) ++ next.beforeTicks rest

def falls (s : Interpreter) : Bool :=
  s.machine.timers.sound == 1 && s.tick.machine.timers.sound == 0

/-- How many ticks of a history take the sound timer from one to zero. -/
def falling (s : Interpreter) (ops : List Operation) : Nat :=
  (s.beforeTicks ops).countP falls

/-- Such a tick is one that beeps. -/
theorem falls_eq_tickBeeps (s : Interpreter) : s.falls = s.tickBeeps := by
  unfold falls tickBeeps Timers.beeps
  cases hone : s.machine.timers.sound == 1 with
  | false => rfl
  | true =>
      have hsound : s.machine.timers.sound = 1 := eq_of_beq hone
      have hnext : s.tick.machine.timers.sound = Timers.countDown s.machine.timers.sound := rfl
      rw [hnext, hsound]
      rfl

/-- The ticks of one history and of the next. -/
theorem falling_append (h : s.Leads ops t) (more : List Operation) :
    s.falling (ops ++ more) = s.falling ops + t.falling more := by
  -- the histories are put together before anything is counted
  have hstates : s.beforeTicks (ops ++ more) = s.beforeTicks ops ++ t.beforeTicks more := by
    induction ops generalizing s with
    | nil =>
        rcases h with ⟨responses, hnil⟩
        cases hnil
        rfl
    | cons op rest ih =>
        rcases h with ⟨responses, hall⟩
        rcases applyAll_cons hall with ⟨r, later, next, happly, hrest, -⟩
        simp only [List.cons_append, beforeTicks, happly, ih ⟨later, hrest⟩, List.append_assoc]
  rw [falling, hstates, List.countP_append]
  rfl

@[simp]
theorem falling_tick_cons (s : Interpreter) (ops : List Operation) :
    s.falling (.tick :: ops) = s.tickBeeps.toNat + s.tick.falling ops := by
  show ([s] ++ s.tick.beforeTicks ops).countP falls = _
  rw [List.countP_append, List.countP_singleton, falls_eq_tickBeeps]
  cases s.tickBeeps <;> rfl

/-- Ticks without a step between them let the sound timer run out once at most. -/
@[simp]
theorem falling_ticks (s : Interpreter) (count : Nat) :
    s.falling (List.replicate count .tick) =
      (s.machine.timers.runsOutWithin count).toNat := by
  induction count generalizing s with
  | zero =>
      have hnever : s.machine.timers.runsOutWithin 0 = false := by
        simp only [Timers.runsOutWithin, decide_eq_false_iff_not]
        omega
      rw [hnever]
      rfl
  | succ count ih =>
      rw [List.replicate_succ, falling_tick_cons, ih, Timers.runsOutWithin_succ]
      show s.tickBeeps.toNat + (s.machine.timers.tick.runsOutWithin count).toNat =
        (s.tickBeeps || s.machine.timers.tick.runsOutWithin count).toNat
      cases hbeeps : s.tickBeeps with
      | true =>
          -- the timer has run out with this tick, so that it cannot do so again
          rw [Timers.runsOutWithin_tick_of_beeps hbeeps]
          rfl
      | false => simp

/-- Whatever is not executed directly leads from bounds to bounds. -/
theorem Leads.bounded (h : s.Leads ops t) (hs : s.Bounded)
    (hops : ∀ op ∈ ops, op.direct = false) : t.Bounded := by
  rcases applyAll_total (I := Bounded) (fun _ _ hu hop => hu.apply hop) hops hs with
    ⟨responses, u, hall, hu⟩
  rw [h.unique ⟨responses, hall⟩]
  exact hu

end Interpreter

namespace Headless

open Interpreter (Leads)

variable {c : Config} {s next : Interpreter} {b : Beat} {f : Fault} {k rate : Nat}

/-! ## The timetable -/

/-- The ticks between step `k` and the one after it, where the first step has number zero. -/
def ticksAfterStep (c : Config) (k : Nat) : Nat :=
  (k + 1) * c.timerRate.toNat / c.instructionRate.toNat -
    k * c.timerRate.toNat / c.instructionRate.toNat

def timetable (c : Config) : Nat → List Operation
  | 0 => []
  | k + 1 => timetable c k ++ .step :: List.replicate (ticksAfterStep c k) .tick

@[simp]
theorem count_step_timetable (c : Config) (k : Nat) : (timetable c k).count .step = k := by
  induction k with
  | zero => rfl
  | succ k ih => simp [timetable, ih, List.count_replicate]

/-- The differences of the divisions add up to the last one. -/
@[simp]
theorem count_tick_timetable (c : Config) (k : Nat) :
    (timetable c k).count .tick = k * c.timerRate.toNat / c.instructionRate.toNat := by
  induction k with
  | zero => simp [timetable]
  | succ k ih =>
      have hmono : k * c.timerRate.toNat / c.instructionRate.toNat ≤
          (k + 1) * c.timerRate.toNat / c.instructionRate.toNat :=
        Nat.div_le_div_right (Nat.mul_le_mul_right _ (Nat.le_succ k))
      rw [timetable, List.count_append, ih, List.count_cons_of_ne (by decide),
        List.count_replicate_self, ticksAfterStep]
      omega

/-! ## Paying -/

namespace Beat

/-- The run after so many passes of the loop that pays for ticks. -/
def payTimes (rate : Nat) : Nat → Beat → Beat
  | 0, b => b
  | count + 1, b => payTimes rate count { b.tick with credit := b.credit - rate }

/-- The loop ends when as many ticks are paid for as the credit covers. -/
theorem pay_eq_payTimes (hrate : 0 < rate) (b : Beat) :
    pay rate b = payTimes rate (b.credit / rate) b := by
  -- by the passes of the loop, each of which makes the credit less by one rate
  induction b using pay.induct rate with
  | case1 b h ih =>
      rw [pay, if_pos h, ih, Nat.div_eq_sub_div hrate h.2]
      rfl
  | case2 b h =>
      have hless : b.credit < rate := Nat.not_le.1 fun hle => h ⟨hrate, hle⟩
      rw [pay, if_neg h, Nat.div_eq_of_lt hless]
      rfl

/-- It costs one rate. -/
@[simp]
theorem credit_payTimes (rate count : Nat) (b : Beat) :
    (payTimes rate count b).credit = b.credit - count * rate := by
  induction count generalizing b with
  | zero =>
      rw [Nat.zero_mul]
      rfl
  | succ count ih =>
      rw [payTimes, ih, Nat.succ_mul]
      show b.credit - rate - count * rate = _
      omega

/-- Every pass of the loop is a tick. -/
theorem interpreter_payTimes (rate count : Nat) (b : Beat) :
    b.interpreter.Leads (List.replicate count .tick) (payTimes rate count b).interpreter := by
  induction count generalizing b with
  | zero => exact .refl _
  | succ count ih => exact .cons rfl (ih { b.tick with credit := b.credit - rate })

/-- It is counted as a beep if the sound timer falls with it. -/
@[simp]
theorem beeps_payTimes (rate count : Nat) (b : Beat) :
    (payTimes rate count b).beeps =
      b.beeps + b.interpreter.falling (List.replicate count .tick) := by
  induction count generalizing b with
  | zero => rfl
  | succ count ih =>
      rw [payTimes, ih, List.replicate_succ, Interpreter.falling_tick_cons, ← Nat.add_assoc]
      show b.beeps + (if b.interpreter.tickBeeps then 1 else 0) + _ = _
      cases b.interpreter.tickBeeps <;> rfl

/-! ## Cycles -/

/-- A run that has earned the timer rate, and not yet paid for ticks. -/
def earned (c : Config) (b : Beat) (next : Interpreter) : Beat :=
  { b with interpreter := next, credit := b.credit + c.timerRate.toNat }

/-- The last cycle goes on from the run before it. -/
theorem cycles_succ (c : Config) (k : Nat) (b : Beat) :
    cycles c (k + 1) b =
      match cycles c k b with
      | .error stop => .error stop
      | .ok last => last.cycle c := by
  -- the loop goes on after its first cycle, and the invariant wants the last one in sight
  induction k generalizing b with
  | zero =>
      simp only [cycles]
      cases b.cycle c <;> rfl
  | succ k ih =>
      rw [cycles, cycles]
      cases b.cycle c with
      | error stop => rfl
      | ok last => exact ih last

/-- A run that has stopped does not go on. -/
theorem cycles_of_error {stop : Stop} (h : cycles c k b = .error stop) (more : Nat) :
    cycles c (k + more) b = .error stop := by
  induction more with
  | zero => exact h
  | succ more ih => rw [← Nat.add_assoc, cycles_succ, ih]

/-- A run that has kept the timetable for `k` steps. -/
structure InTime (c : Config) (s : Interpreter) (k : Nat) (b : Beat) : Prop where
  leads : s.Leads (timetable c k) b.interpreter
  credit_eq : b.credit = k * c.timerRate.toNat % c.instructionRate.toNat
  beeps_eq : b.beeps = s.falling (timetable c k)
  beeps_le : b.beeps ≤ k

theorem inTime_zero (c : Config) (s : Interpreter) : InTime c s 0 { interpreter := s } where
  leads := .refl s
  credit_eq := by rw [Nat.zero_mul, Nat.zero_mod]
  beeps_eq := rfl
  beeps_le := Nat.le_refl 0

/-- The credit of a run in time, with what one more step has earned, goes on from the time that the
ticks so far have used up. -/
theorem InTime.time_eq (hb : InTime c s k b) (next : Interpreter) :
    c.instructionRate.toNat * (k * c.timerRate.toNat / c.instructionRate.toNat) +
      (b.earned c next).credit = (k + 1) * c.timerRate.toNat := by
  show _ + (b.credit + c.timerRate.toNat) = _
  rw [hb.credit_eq, ← Nat.add_assoc, Nat.div_add_mod, Nat.succ_mul]

/-- It covers the ticks of the timetable, and no more. -/
theorem InTime.earned_div (hrate : 0 < c.instructionRate.toNat) (hb : InTime c s k b)
    (next : Interpreter) :
    (b.earned c next).credit / c.instructionRate.toNat = ticksAfterStep c k := by
  rw [ticksAfterStep, ← hb.time_eq next, Nat.mul_add_div hrate, Nat.add_sub_cancel_left]

/-- The remainder is what is left for the next step. -/
theorem InTime.earned_mod (hb : InTime c s k b) (next : Interpreter) :
    (b.earned c next).credit % c.instructionRate.toNat =
      (k + 1) * c.timerRate.toNat % c.instructionRate.toNat := by
  rw [← hb.time_eq next, Nat.mul_add_mod]

/-- Two rates of thirty-two bits bound the credit. -/
theorem InTime.earned_lt (hrate : 0 < c.instructionRate.toNat) (hb : InTime c s k b)
    (next : Interpreter) :
    (b.earned c next).credit < 0x200000000 := by
  have hrest : b.credit < c.instructionRate.toNat := by
    rw [hb.credit_eq]
    exact Nat.mod_lt _ hrate
  have hinstruction := c.instructionRate.toNat_lt
  have htimer := c.timerRate.toNat_lt
  show b.credit + c.timerRate.toNat < 0x200000000
  omega

/-- One more step that succeeds, with the ticks after it. -/
theorem InTime.cycle (hrate : 0 < c.instructionRate.toNat) (hb : InTime c s k b)
    (hstep : b.interpreter.step = .ok ⟨none, next⟩) :
    b.cycle c = .ok (payTimes c.instructionRate.toNat (ticksAfterStep c k) (b.earned c next)) ∧
      InTime c s (k + 1)
        (payTimes c.instructionRate.toNat (ticksAfterStep c k) (b.earned c next)) := by
  have hearned := hb.earned_div hrate next
  have happly : b.interpreter.apply .step = .ok (.done, next) := by
    simp only [Interpreter.apply, hstep]
    rfl
  have hticks := interpreter_payTimes c.instructionRate.toNat (ticksAfterStep c k) (b.earned c next)
  have hfalling : s.falling (timetable c (k + 1)) =
      s.falling (timetable c k) + next.falling (List.replicate (ticksAfterStep c k) .tick) := by
    rw [timetable, Interpreter.falling_append hb.leads]
    simp only [Interpreter.falling, Interpreter.beforeTicks, happly]
    rfl
  refine ⟨?_, ?_, ?_, ?_, ?_⟩
  · rw [← hearned, ← pay_eq_payTimes hrate]
    simp only [Beat.cycle, hstep]
    rfl
  · exact hb.leads.append (.cons happly hticks)
  · rw [credit_payTimes, ← hearned, ← hb.earned_mod next, Nat.mod_eq_sub_div_mul]
  · rw [beeps_payTimes, hfalling, ← hb.beeps_eq]
    rfl
  · have hle := hb.beeps_le
    have hone := Bool.toNat_le (next.machine.timers.runsOutWithin (ticksAfterStep c k))
    rw [beeps_payTimes]
    -- no step comes between the ticks of a cycle, so at most one of them beeps
    show b.beeps + next.falling _ ≤ k + 1
    rw [Interpreter.falling_ticks]
    omega

/-- In the loop after a step the credit stays small, and the loop goes on for the ticks of the
timetable. -/
theorem InTime.passes (hrate : 0 < c.instructionRate.toNat) (hb : InTime c s k b)
    {j : Nat} (hj : j ≤ ticksAfterStep c k) :
    (payTimes c.instructionRate.toNat j (b.earned c next)).credit < 0x200000000 ∧
      (c.instructionRate.toNat ≤
          (payTimes c.instructionRate.toNat j (b.earned c next)).credit ↔
        j < ticksAfterStep c k) := by
  have hless := hb.earned_lt hrate next
  have hcovers := hb.earned_div hrate next
  have hpaid : j * c.instructionRate.toNat ≤ (b.earned c next).credit := by
    rw [← hcovers] at hj
    exact (Nat.le_div_iff_mul_le hrate).1 hj
  have hnext : j < ticksAfterStep c k ↔
      (j + 1) * c.instructionRate.toNat ≤ (b.earned c next).credit := by
    rw [← hcovers]
    exact Nat.le_div_iff_mul_le hrate
  rw [credit_payTimes, hnext, Nat.succ_mul]
  refine ⟨Nat.lt_of_le_of_lt (Nat.sub_le _ _) hless, ?_⟩
  omega

end Beat

/-! ## Runs -/

/-- The fault of the step after `k` steps and their ticks, if it is refused. -/
def faultAfter? (c : Config) (s : Interpreter) (k : Nat) : Option Fault := do
  let (_, t) ← (s.applyAll (timetable c k)).toOption
  let o ← t.step.toOption
  o.fault?

/-- The fault is that of the next step. -/
theorem faultAfter?_of_leads {t : Interpreter} {o : Outcome} (h : s.Leads (timetable c k) t)
    (hstep : t.step = .ok o) : faultAfter? c s k = o.fault? := by
  rcases h with ⟨responses, hall⟩
  rw [faultAfter?, hall]
  show (do let o ← t.step.toOption; o.fault?) = _
  rw [hstep]
  rfl

/-- No instruction is executed directly. -/
theorem direct_of_mem_timetable {op : Operation} (h : op ∈ timetable c k) : op.direct = false := by
  induction k with
  | zero => cases h
  | succ k ih =>
      rw [timetable, List.mem_append, List.mem_cons] at h
      rcases h with hbefore | rfl | hticks
      · exact ih hbefore
      · rfl
      · rw [List.eq_of_mem_replicate hticks]
        rfl

/-- As long as no step is refused, the run keeps the timetable. -/
theorem exists_inTime (hrate : 0 < c.instructionRate.toNat) (hs : s.Bounded) (k : Nat)
    (hgood : ∀ j < k, faultAfter? c s j = none) :
    ∃ b, Beat.cycles c k { interpreter := s } = .ok b ∧ b.InTime c s k := by
  induction k with
  | zero => exact ⟨_, rfl, Beat.inTime_zero c s⟩
  | succ k ih =>
      rcases ih fun j hj => hgood j (Nat.lt_succ_of_lt hj) with ⟨b, hcycles, hb⟩
      have hbounded := hb.leads.bounded hs fun _ => direct_of_mem_timetable
      rcases hbounded.step with ⟨⟨fault?, next⟩, hstep, -⟩
      cases fault? with
      | some f =>
          -- step `k` is one of those that are not refused
          have hnone := hgood k (Nat.lt_succ_self k)
          rw [faultAfter?_of_leads hb.leads hstep] at hnone
          cases hnone
      | none =>
          rcases hb.cycle hrate hstep with ⟨hcycle, hlater⟩
          refine ⟨_, ?_, hlater⟩
          rw [Beat.cycles_succ, hcycles]
          exact hcycle

/-- The first step that is refused ends the run, however many were asked for. -/
theorem cycles_of_faultAfter? (hrate : 0 < c.instructionRate.toNat) (hs : s.Bounded)
    (hgood : ∀ j < k, faultAfter? c s j = none) (hfault : faultAfter? c s k = some f) {count : Nat}
    (hcount : k < count) : Beat.cycles c count { interpreter := s } = .error (.fault f) := by
  rcases exists_inTime hrate hs k hgood with ⟨b, hcycles, hb⟩
  have hbounded := hb.leads.bounded hs fun _ => direct_of_mem_timetable
  rcases hbounded.step with ⟨⟨fault?, next⟩, hstep, -⟩
  rw [faultAfter?_of_leads hb.leads hstep] at hfault
  have hlast : Beat.cycles c (k + 1) { interpreter := s } = .error (.fault f) := by
    cases hfault
    simp only [Beat.cycles_succ, hcycles, Beat.cycle, hstep]
  rcases Nat.exists_eq_add_of_le hcount with ⟨more, rfl⟩
  exact Beat.cycles_of_error hlast more

/-- A configuration that is accepted has no rate of zero. -/
theorem pos_of_check (h : c.check = .ok ()) :
    0 < c.instructionRate.toNat ∧ 0 < c.timerRate.toNat := by
  unfold Config.check at h
  split at h
  · cases h
  · rename_i hinstruction
    split at h
    · cases h
    · rename_i htimer
      refine ⟨Nat.pos_of_ne_zero fun hzero => ?_, Nat.pos_of_ne_zero fun hzero => ?_⟩
      · exact hinstruction (UInt32.toNat.inj hzero)
      · exact htimer (UInt32.toNat.inj hzero)

theorem bounded_of_load {g : Generator} {program : List UInt8} {loaded : Interpreter}
    (h : (Interpreter.start g).load program = ⟨none, loaded⟩) : loaded.Bounded := by
  have hbounded := Interpreter.start_bounded g
  have happly : (Interpreter.start g).apply (.load program) = .ok (.done, loaded) := by
    simp only [Interpreter.apply, h]
    rfl
  have hindirect : (Operation.load program).direct = false := rfl
  rcases hbounded.apply hindirect with ⟨r, t, hother, ht⟩
  rw [happly] at hother
  cases hother
  exact ht

/-- After `k` steps of a headless run there have been `k * timerRate / instructionRate` ticks, with
the remainder of that division as credit and a beep for each tick that ends a sound. If no step is
refused the report names the state after the whole timetable, and otherwise the first refusal is the
end. -/
theorem run_keeps_timetable (o : Options) (g : Generator) {program : List UInt8}
    {loaded : Interpreter} (hcheck : o.config.check = .ok ())
    (hload : (Interpreter.start g).load program = ⟨none, loaded⟩) :
    let c := o.config
    let rate := c.instructionRate.toNat
    let good (k : Nat) : Prop := ∀ j < k, faultAfter? c loaded j = none
    let finished := run o g (.ok program)
    (∀ k, (timetable c k).count .step = k ∧
      (timetable c k).count .tick = k * c.timerRate.toNat / rate) ∧
    (∀ k, good k → ∃ b, Beat.cycles c k { interpreter := loaded } = .ok b ∧ b.InTime c loaded k ∧
      ∀ next, b.interpreter.step = .ok ⟨none, next⟩ →
        b.cycle c = .ok (.payTimes rate (ticksAfterStep c k) (b.earned c next)) ∧
        ∀ j ≤ ticksAfterStep c k, let passed := Beat.payTimes rate j (b.earned c next)
          passed.credit < 0x200000000 ∧ (rate ≤ passed.credit ↔ j < ticksAfterStep c k)) ∧
    (good o.cycles → ∃ s, loaded.Leads (timetable c o.cycles) s ∧
      loaded.falling (timetable c o.cycles) ≤ o.cycles ∧
      report o finished = {
        exitCode := 0
        output := if o.dump then s.machine.screen.text else ""
        closing? := some ("Stopped at pc " ++ Hex.word s.machine.pc.toNat ++ " after " ++
          (loaded.falling (timetable c o.cycles)).repr ++ " beeps")
        failure? := none }) ∧
    ∀ k < o.cycles, good k → ∀ f, faultAfter? c loaded k = some f →
      finished = .error (.fault f) ∧
      report o finished = {
        exitCode := 1
        output := ""
        closing? := none
        failure? := some ("Error: " ++ f.record) } := by
  intro c rate good finished
  have hrate : 0 < rate := (pos_of_check hcheck).1
  have hbounded := bounded_of_load hload
  have hfinished : finished = (Beat.cycles c o.cycles { interpreter := loaded }).mapError
      Failure.ofStop := by
    simp only [finished, run, hcheck, hload]
    rfl
  refine ⟨fun k => ⟨count_step_timetable c k, count_tick_timetable c k⟩, ?_, ?_, ?_⟩
  · intro k hgood
    rcases exists_inTime hrate hbounded k hgood with ⟨b, hcycles, hb⟩
    refine ⟨b, hcycles, hb, ?_⟩
    intro next hstep
    exact ⟨(hb.cycle hrate hstep).1, fun j hj => hb.passes hrate hj⟩
  · intro hgood
    rcases exists_inTime hrate hbounded o.cycles hgood with ⟨b, hcycles, hb⟩
    have hbeeps := hb.beeps_eq
    refine ⟨b.interpreter, hb.leads, ?_, ?_⟩
    · rw [← hbeeps]
      exact hb.beeps_le
    · rw [hfinished, hcycles, ← hbeeps]
      rfl
  · intro k hk hgood f hfault
    have hstopped : finished = .error (.fault f) := by
      rw [hfinished, cycles_of_faultAfter? hrate hbounded hgood hfault hk]
      rfl
    refine ⟨hstopped, ?_⟩
    rw [hstopped]
    rfl

/-- The sound timer runs from two. With two ticks for three steps it beeps once in seven cycles;
without its last instruction the program halts on the third step, before the beep. -/
theorem run_keeps_timetable_short_sound :
    let sound : List UInt8 := [0x60, 0x02, 0xF0, 0x18, 0x12, 0x04]
    let o : Options := ⟨7, { instructionRate := 3, timerRate := 2 }, false, "sound"⟩
    let g := Generator.ofSeed 0
    let loaded := ((Interpreter.start g).load sound).next
    let halting := ((Interpreter.start g).load (sound.take 4)).next
    let f : Fault := .unknownOpcode 0 0x204
    (o.config.check = .ok () ∧ (Interpreter.start g).load sound = ⟨none, loaded⟩ ∧
      (Interpreter.start g).load (sound.take 4) = ⟨none, halting⟩ ∧
      (∀ j < 7, faultAfter? o.config loaded j = none) ∧
      (∀ j < 2, faultAfter? o.config halting j = none) ∧
      faultAfter? o.config halting 2 = some f) ∧
      timetable o.config 4 = [.step, .step, .tick, .step, .tick, .step] ∧
      report o (run o g (.ok sound)) =
        ⟨0, "", some "Stopped at pc 0x0204 after 1 beeps", none⟩ ∧
      report o (run o g (.ok (sound.take 4))) = ⟨1, "", none, some ("Error: " ++ f.record)⟩ := by
  intro sound o g loaded halting f
  have hcheck : o.config.check = .ok () := rfl
  have hfits : ((Interpreter.start g).load sound).fault? = none ∧
      ((Interpreter.start g).load (sound.take 4)).fault? = none := by
    decide
  have hload : (Interpreter.start g).load sound = ⟨none, loaded⟩ := by
    rw [← hfits.1]
  have hshort : (Interpreter.start g).load (sound.take 4) = ⟨none, halting⟩ := by
    rw [← hfits.2]
  have hgood : ∀ j < 7, faultAfter? o.config loaded j = none := by decide +kernel
  have hbefore : ∀ j < 2, faultAfter? o.config halting j = none := by decide +kernel
  have hfault : faultAfter? o.config halting 2 = some f := by decide +kernel
  have htable : timetable o.config 4 = [.step, .step, .tick, .step, .tick, .step] := by decide
  refine ⟨⟨hcheck, hload, hshort, hgood, hbefore, hfault⟩, htable, ?_, ?_⟩
  · rcases (run_keeps_timetable o g hcheck hload).2.2.1 hgood with ⟨s, ⟨_, hall⟩, -, hreport⟩
    have hend : (loaded.applyAll (timetable o.config 7)).toOption.map
          (fun answer => answer.2.machine.pc) = some 0x204 := by
      decide +kernel
    have hbeeps : loaded.falling (timetable o.config 7) = 1 := by decide +kernel
    have hpc : s.machine.pc = 0x204 := by
      rw [hall] at hend
      exact Option.some.inj hend
    rw [hreport, hpc, hbeeps]
    rfl
  · exact ((run_keeps_timetable o g hcheck hshort).2.2.2 2 (by decide) hbefore f hfault).2

end Headless
end Chip8
