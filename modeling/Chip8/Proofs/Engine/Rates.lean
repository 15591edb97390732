import Chip8.Proofs.Engine.Journal
import Chip8.Proofs.Interpreter.Bounds
import Chip8.Proofs.Interpreter.Loading

/-!
# Rates — which rates an engine can live with

The period of a pacer is a whole number of nanoseconds, so a rate above one tick per nanosecond
leaves none, and to count the ticks that are due is then a division by zero.  `Config.check` does
not look for that: it refuses a rate of zero only.

An engine whose rates have periods is `Sound` in every run: it goes on, or it is gone because it was
told so, because nobody was left to talk to it, or by a fault, and then the mark that it has stopped
is set.  An engine with a faster rate lasts until its first batch.

Main statement: `spawn_sound_or_breaks`.
-/

namespace Chip8

/-! ## Pacers -/

namespace Pacer

variable {p q : Pacer} {rate limit now count : Nat}

/-- What a pacer goes through as time passes. -/
inductive Moved (p : Pacer) (now : Nat) : Pacer → Prop where
  | kept : Moved p now p
  | restarted : Moved p now (p.restart now)
  | skipped (ticks : Nat) : Moved p now (p.skip ticks)

theorem Moved.period_eq (h : Moved p now q) : q.period = p.period := by
  cases h with
  | kept | restarted | skipped => rfl

theorem moved_of_due (h : p.due now = .ok (count, q)) : Moved p now q := by
  unfold due at h
  split at h
  · cases h
    exact .kept
  · split at h
    · cases h
    · cases h
      exact .skipped _

/-- The only thing that can be wrong with a pacer is that it has no period. -/
theorem eq_zeroPeriod_of_due {b : Breach} (h : p.due now = .error b) :
    b = .zeroPeriod ∧ p.period = 0 := by
  unfold due at h
  split at h
  · cases h
  · split at h
    · rename_i hzero
      cases h
      exact ⟨rfl, hzero⟩
    · cases h

/-- A pacer without a period cannot count what is due. -/
theorem due_of_zero (hzero : p.period = 0) (hnext : p.next ≤ now) :
    p.due now = .error .zeroPeriod := by
  simp only [due, Nat.not_lt.2 hnext, hzero, ↓reduceIte]

/-- A tick that falls due just now is the only one. -/
theorem count_le_one_of_due (h : p.due p.next = .ok (count, q)) : count ≤ 1 := by
  unfold due at h
  split at h
  · cases h
    exact Nat.zero_le 1
  · rename_i hlt
    split at h
    · cases h
    · cases h
      have helapsed : p.elapsed p.next ≤ 1 := by
        simp only [elapsed, hlt, ↓reduceIte, Nat.sub_self, Nat.zero_div]
        exact Nat.min_le_left _ _
      exact Nat.le_trans (Nat.min_le_left _ _) helapsed

/-- Up to a billion ticks a second leave a period. -/
theorem period_ofRate_pos_iff (rate start : Nat) :
    0 < (ofRate rate start).period ↔ rate ≤ 1000000000 := by
  have hmax : 0 < max rate 1 := Nat.lt_of_lt_of_le Nat.one_pos (Nat.le_max_right _ _)
  simp only [ofRate, Nat.div_pos_iff]
  omega

/-- A pacer that never breaks down: it has a period, of a second at most. -/
structure Usable (p : Pacer) : Prop where
  period_pos : 0 < p.period
  period_le : p.period ≤ 1000000000

theorem Usable.of_moved (h : p.Usable) (hmoved : Moved p now q) : q.Usable := by
  refine ⟨?_, ?_⟩
  · rw [hmoved.period_eq]
    exact h.period_pos
  · rw [hmoved.period_eq]
    exact h.period_le

theorem ofRate_usable {start : Nat} (h : rate ≤ 1000000000) : (ofRate rate start).Usable :=
  ⟨(period_ofRate_pos_iff rate start).2 h, Nat.div_le_self _ _⟩

/-- A usable pacer always counts. -/
theorem Usable.due_ne_error (h : p.Usable) (b : Breach) : p.due now ≠ .error b := by
  intro hdue
  have hpos := h.period_pos
  have hzero := (eq_zeroPeriod_of_due hdue).2
  omega

def SkipFits (p : Pacer) (now : Nat) : Prop :=
  p.period * p.elapsed now < 0x10000000000000000 * 1000000000

/-- It never moves further than a duration can be. -/
theorem Usable.skipFits (h : p.Usable) (now : Nat) : p.SkipFits now := by
  have helapsed : p.elapsed now ≤ maxCount := by
    unfold elapsed
    split
    · exact Nat.zero_le _
    · exact Nat.min_le_right _ _
  calc p.period * p.elapsed now ≤ 1000000000 * maxCount := Nat.mul_le_mul h.period_le helapsed
    _ < 0x10000000000000000 * 1000000000 := by decide

/-- The pacer was made for a rate; if that left it without a period, its tick is due at `limit`. -/
structure Serves (rate limit : Nat) (p : Pacer) : Prop where
  period_eq : p.period = 1000000000 / max rate 1
  next_le : p.period = 0 → p.next ≤ limit

theorem Serves.of_moved (h : p.Serves rate limit) (hmoved : Moved p now q) (hnow : now ≤ limit) :
    q.Serves rate limit := by
  refine ⟨hmoved.period_eq.trans h.period_eq, ?_⟩
  intro hzero
  rw [hmoved.period_eq] at hzero
  have hnext := h.next_le hzero
  cases hmoved with
  | kept => exact hnext
  | restarted => exact hnow
  | skipped ticks =>
      -- without a period the pacer does not get ahead
      show p.next + p.period * ticks ≤ limit
      rw [hzero, Nat.zero_mul]
      exact hnext

/-- A pacer that has counted has a period. -/
theorem Serves.rate_le_of_due (h : p.Serves rate now) (hdue : p.due now = .ok (count, q)) :
    rate ≤ 1000000000 := by
  refine Decidable.byContradiction fun hfast => ?_
  have hzero : p.period = 0 := by
    have hnot := mt (period_ofRate_pos_iff rate now).1 hfast
    rw [h.period_eq]
    exact Nat.eq_zero_of_not_pos hnot
  rw [due_of_zero hzero (h.next_le hzero)] at hdue
  cases hdue

end Pacer

/-- Both rates are slow enough to leave a period. -/
def Config.HasPeriods (c : Config) : Prop :=
  c.instructionRate.toNat ≤ 1000000000 ∧ c.timerRate.toNat ≤ 1000000000

/-! ## Interpreters in a batch -/

namespace Interpreter

variable {s : Interpreter} {i : Instruction}

/-- Whatever leaves these four parts alone leaves the bounds alone. -/
theorem Bounded.congr {t : Interpreter} (h : s.Bounded) (hpc : t.machine.pc = s.machine.pc)
    (hindex : t.machine.index = s.machine.index) (hstack : t.machine.stack = s.machine.stack)
    (hrun : t.runState = s.runState) : t.Bounded := by
  refine ⟨?_, ?_, ?_, ?_, ?_⟩
  · rw [hpc]
    exact h.pc_le
  · rw [hindex]
    exact h.index_le
  · rw [hstack]
    exact h.depth_le
  · rw [hstack]
    exact h.sites_le
  · rw [hpc, hrun]
    exact h.parked

theorem Bounded.writeKeypads (h : s.Bounded) (ws : List Keypad.Write) :
    (s.writeKeypads ws).Bounded := by
  induction ws generalizing s with
  | nil => exact h
  | cons w rest ih =>
      exact ih (h.congr rfl rfl rfl rfl : (s.writeKeypad w).Bounded)

/-- An instruction that is at hand and meets nothing that refuses it is performed. -/
theorem Bounded.step_of_current (h : s.Bounded) (hi : s.current? = some i)
    (hnone : s.machine.fault? i = none) : s.step = .ok ⟨none, s.effect i⟩ := by
  rcases h.step with ⟨o, hstep, -⟩
  rw [hstep]
  cases Interpreter.step_outcome hstep with
  | @performed j hj _ =>
      rw [hi] at hj
      cases hj
      rfl
  | polled hpark =>
      have hrun := (current?_eq_some_iff.1 hi).1
      rw [hpark] at hrun
      cases hrun
  | refused hrefusal =>
      cases hrefusal with
      | unread _ hunread _ =>
          rw [hi] at hunread
          cases hunread
      | refused hj hsome =>
          rw [hi] at hj
          cases hj
          rw [hnone] at hsome
          cases hsome
      | halted hhalted =>
          exact absurd hhalted (ne_faulted_of_running (current?_eq_some_iff.1 hi).1 _)

end Interpreter

namespace Engine

namespace Stint

variable {s : Interpreter}

/-- The steps of a batch keep the bounds, and only a fault can cut them short. -/
theorem steps_bounded (arrivals : Nat → List Call) (count : Nat) (h : s.Bounded) :
    (steps arrivals count s).interpreter.Bounded ∧
      ((steps arrivals count s).ending? = none ∨
        ∃ f, (steps arrivals count s).ending? = some (.fault f)) := by
  induction count generalizing arrivals s with
  | zero => exact ⟨h, .inl rfl⟩
  | succ count ih =>
      rcases (h.writeKeypads (writes (arrivals 0))).step with ⟨⟨fault?, next⟩, hstep, hnext⟩
      rw [steps]
      unfold step
      rw [hstep]
      cases fault? with
      | some f => exact ⟨hnext, .inr ⟨f, rfl⟩⟩
      | none => exact ih (fun k => arrivals (k + 1)) hnext

theorem ticks_bounded (count : Nat) (h : s.Bounded) : (ticks count s).interpreter.Bounded := by
  induction count generalizing s with
  | zero => exact h
  | succ count ih =>
      exact ih (h.congr rfl rfl rfl rfl : s.tick.Bounded)

theorem load_bounded (program : List UInt8) (s : Interpreter) :
    (load program s).interpreter.Bounded := by
  have h := Interpreter.start_bounded s.generator
  have hout := load_outcome program s
  generalize load program s = a at hout ⊢
  cases hout with
  | refused | loaded => exact h.congr rfl rfl rfl rfl

end Stint

/-! ## Workers -/

/-- Why a worker is gone, if it is: not because it broke down. -/
inductive Explained (connected : Bool) : Option Ending → List Entry → Prop where
  | going {entries : List Entry} : Explained connected none entries
  | told {entries : List Entry} : .handled .shutdown ∈ entries →
      Explained connected (some .shutdown) entries
  | deserted {entries : List Entry} : connected = false →
      Explained connected (some .shutdown) entries
  | faulted {entries : List Entry} (f : Fault) : .raised f ∈ entries →
      Explained connected (some (.fault f)) entries

theorem Explained.weaken {connected connected' : Bool} {ending? : Option Ending}
    {entries entries' : List Entry} (h : Explained connected ending? entries)
    (hconnected : connected = false → connected' = false) (hentries : entries ⊆ entries') :
    Explained connected' ending? entries' := by
  cases h with
  | going => exact .going
  | told hmem => exact .told (hentries hmem)
  | deserted hclosed => exact .deserted (hconnected hclosed)
  | faulted f hmem => exact .faulted f (hentries hmem)

structure Worker.Sound (w : Worker) : Prop where
  interpreter : w.interpreter.Bounded
  steps : w.steps.Usable
  timers : w.timers.Usable

namespace Worker

variable {w : Worker}

/-- A start lets both pacers start again. -/
theorem handle_moved (w : Worker) (now : Nat) (c : Command) :
    Pacer.Moved w.steps now (w.handle now c).worker.steps ∧
      Pacer.Moved w.timers now (w.handle now c).worker.timers := by
  cases c with
  | load | pause | shutdown => exact ⟨.kept, .kept⟩
  | start => exact ⟨.restarted, .restarted⟩

/-- A batch counts what is due on both of them. -/
theorem batch_moved (w : Worker) (now : Nat) (arrivals : Nat → List Call) :
    Pacer.Moved w.steps now (w.batch now arrivals).worker.steps ∧
      Pacer.Moved w.timers now (w.batch now arrivals).worker.timers := by
  have hout := w.batch_outcome now arrivals
  generalize w.batch now arrivals = p at hout ⊢
  cases hout with
  | uncounted => exact ⟨.kept, .kept⟩
  | cut hdue | unticked hdue => exact ⟨Pacer.moved_of_due hdue, .kept⟩
  | finished hdue _ _ hticks => exact ⟨Pacer.moved_of_due hdue, Pacer.moved_of_due hticks⟩

theorem handle_bounded (h : w.interpreter.Bounded) (now : Nat) (c : Command) :
    (w.handle now c).worker.interpreter.Bounded := by
  cases c with
  | load program => exact Stint.load_bounded program w.interpreter
  | start | pause | shutdown => exact h

theorem batch_bounded (h : w.interpreter.Bounded) (now : Nat)
    (arrivals : Nat → List Call) :
    (w.batch now arrivals).worker.interpreter.Bounded := by
  have hout := w.batch_outcome now arrivals
  generalize w.batch now arrivals = p at hout ⊢
  cases hout with
  | uncounted => exact h
  | @cut count _ _ _ _ hsteps _ | @unticked count _ _ _ _ hsteps _ _ =>
      rw [← hsteps]
      exact (Stint.steps_bounded arrivals count h).1
  | @finished count number _ _ a t _ hsteps _ _ hticks =>
      have hstepped := (Stint.steps_bounded arrivals count h).1
      rw [hsteps] at hstepped
      have hticked := Stint.ticks_bounded number hstepped
      rw [hticks] at hticked
      exact hticked.congr rfl rfl rfl rfl

/-- A command ends a worker by shutting it down, or by a load that is refused. -/
theorem handle_explained (w : Worker) (now : Nat) (c : Command) (connected : Bool) :
    Explained connected (w.handle now c).ending? (w.handle now c).entries := by
  cases c with
  | start | pause => exact .going
  | shutdown => exact .told (.head _)
  | load program =>
      show Explained connected (Stint.load program w.interpreter).ending?
        (.handled (.load program) :: (Stint.load program w.interpreter).entries)
      have hout := Stint.load_outcome program w.interpreter
      generalize Stint.load program w.interpreter = a at hout ⊢
      cases hout with
      | refused f => exact .faulted f (.tail _ (.head _))
      | loaded => exact .going

/-- A batch of a sound worker can be ended by a fault only. -/
theorem batch_explained (h : w.Sound) (now : Nat) (arrivals : Nat → List Call)
    (connected : Bool) :
    Explained connected (w.batch now arrivals).ending? (w.batch now arrivals).entries := by
  have hout := w.batch_outcome now arrivals
  generalize w.batch now arrivals = p at hout ⊢
  cases hout with
  | uncounted hdue => exact absurd hdue (h.steps.due_ne_error _)
  | unticked _ _ _ hticks => exact absurd hticks (h.timers.due_ne_error _)
  | finished => exact .going
  | @cut count _ a ending _ hsteps hending =>
      -- bounded steps are cut short by a fault only, and that is their last entry
      have hstepped := (Stint.steps_bounded arrivals count h.interpreter).2
      rcases Stint.steps_entries arrivals count w.interpreter with ⟨performed, hentries⟩
      rw [hsteps, hending] at hstepped hentries
      rcases hstepped with hnone | ⟨f, hfault⟩
      · cases hnone
      · cases hfault
        refine .faulted f ?_
        rw [show a.entries = _ from hentries]
        exact List.mem_append_right _ (.head _)

/-- A batch with a rate that is too fast ends the worker, if not by a fault before it. -/
theorem batch_breaks {c : Config} {now : Nat} (hfast : ¬ c.HasPeriods)
    (h : w.interpreter.Bounded) (hsteps : w.steps.Serves c.instructionRate.toNat now)
    (htimers : w.timers.Serves c.timerRate.toNat now) (arrivals : Nat → List Call) :
    (w.batch now arrivals).ending? = some (.breach .zeroPeriod) ∨
      c.instructionRate.toNat ≤ 1000000000 ∧
        ∃ f, (w.batch now arrivals).ending? = some (.fault f) := by
  have hout := w.batch_outcome now arrivals
  generalize w.batch now arrivals = p at hout ⊢
  cases hout with
  | uncounted hdue =>
      rw [(Pacer.eq_zeroPeriod_of_due hdue).1]
      exact .inl rfl
  | unticked _ _ _ hticks =>
      rw [(Pacer.eq_zeroPeriod_of_due hticks).1]
      exact .inl rfl
  | @cut count _ a ending hdue hstepped hending =>
      have hcut := (Stint.steps_bounded arrivals count h).2
      rw [hstepped, hending] at hcut
      -- the steps were counted, so it is the timers that are too fast
      rcases hcut with hnone | hfault
      · cases hnone
      · exact .inr ⟨hsteps.rate_le_of_due hdue, hfault⟩
  | finished hdue _ _ hticks =>
      -- a batch is not finished before both pacers have counted
      exact absurd ⟨hsteps.rate_le_of_due hdue, htimers.rate_le_of_due hticks⟩ hfast

end Worker

/-! ## Runs -/

/-- The engine cannot break down, and if its worker is gone the journal tells why. -/
structure Sound (e : Engine) (entries : List Entry) : Prop where
  worker : e.worker.Sound
  explained : Explained e.connected e.ending? entries

/-- Whoever is gone for a reason has set the mark. -/
theorem Sound.isHalted {e : Engine} {entries : List Entry} (h : Sound e entries) :
    e.isHalted = e.ending?.isSome := by
  unfold Engine.isHalted
  cases hending : e.ending? with
  | none => rfl
  | some ending =>
      cases ending with
      | shutdown | fault => rfl
      | breach b =>
          have hexplained := h.explained
          rw [hending] at hexplained
          cases hexplained

/-- Every happening keeps the bounds. -/
theorem after_bounded (e : Engine) (h : Happening) (hdone : e.worker.interpreter.Bounded) :
    (e.after h).1.worker.interpreter.Bounded := by
  have hout := after_outcome e h
  generalize e.after h = next at hout ⊢
  cases hout with
  | idle hworker _ _ =>
      rw [hworker]
      exact hdone
  | keys w => exact hdone.congr rfl rfl rfl rfl
  | handled now _ _ => exact Worker.handle_bounded hdone now _
  | batched now arrivals _ _ _ => exact Worker.batch_bounded hdone now arrivals
  | closed => exact hdone

theorem turn_moved (e : Engine) (now : Nat) (arrivals : Nat → List Call) :
    Pacer.Moved e.worker.steps now (e.turn now arrivals).1.worker.steps ∧
      Pacer.Moved e.worker.timers now (e.turn now arrivals).1.worker.timers := by
  unfold turn
  split
  · exact ⟨.kept, .kept⟩
  · exact e.worker.handle_moved now _
  · split
    · exact ⟨.kept, .kept⟩
    · split
      · exact e.worker.batch_moved now arrivals
      · exact ⟨.kept, .kept⟩

/-- Every happening keeps an engine sound. -/
theorem after_sound (e : Engine) (done : List Entry) (h : Happening) (hdone : Sound e done) :
    Sound (e.after h).1 (done ++ (e.after h).2) := by
  have hbounded := after_bounded e h hdone.worker.interpreter
  have hmoved : (e.after h).1.worker.steps.Usable ∧ (e.after h).1.worker.timers.Usable := by
    cases h with
    | call c =>
        cases c with
        | send | writeKeypad | disconnect => exact ⟨hdone.worker.steps, hdone.worker.timers⟩
    | turn now arrivals =>
        have hturn := e.turn_moved now arrivals
        exact ⟨hdone.worker.steps.of_moved hturn.1, hdone.worker.timers.of_moved hturn.2⟩
  refine ⟨⟨hbounded, hmoved.1, hmoved.2⟩, ?_⟩
  have hout := after_outcome e h
  generalize e.after h = next at hout ⊢
  -- what a worker enters is in the journal, with its last words after it
  have hentered (p : Progress) :
      p.entries ⊆ done ++ (p.entries ++ (p.ending?.map farewell).getD []) :=
    fun entry hentry => List.mem_append_right _ (List.mem_append_left _ hentry)
  cases hout with
  | idle _ hending hconnected =>
      rw [hending]
      exact hdone.explained.weaken hconnected fun entry => List.mem_append_left _
  | keys w => exact hdone.explained.weaken id fun entry => List.mem_append_left _
  | handled now _ _ =>
      exact (e.worker.handle_explained now _ e.connected).weaken id (hentered _)
  | batched now arrivals _ _ _ =>
      exact (Worker.batch_explained hdone.worker now arrivals e.connected).weaken
        (e.connected_receive _) (hentered _)
  | closed _ _ hconnected => exact .deserted hconnected

/-- The times at which the worker looks at its clock. -/
def readings (happenings : List Happening) : List Nat :=
  happenings.filterMap fun
    | .turn now _ => some now
    | _ => none

/-- As long as no reading is later than `limit`, a pacer without a period is due by then. -/
theorem runAll_serves {e : Engine} {instructionRate timerRate limit : Nat}
    (hsteps : e.worker.steps.Serves instructionRate limit)
    (htimers : e.worker.timers.Serves timerRate limit) (happenings : List Happening)
    (hreadings : ∀ now ∈ readings happenings, now ≤ limit) :
    (e.runAll happenings).1.worker.steps.Serves instructionRate limit ∧
      (e.runAll happenings).1.worker.timers.Serves timerRate limit := by
  -- only a turn reads the clock; all else leaves the pacers alone
  induction happenings generalizing e with
  | nil => exact ⟨hsteps, htimers⟩
  | cons h rest ih =>
      cases h with
      | call c =>
          cases c with
          | send c => exact ih (e := e.send c) hsteps htimers hreadings
          | writeKeypad w => exact ih (e := e.writeKeypad w) hsteps htimers hreadings
          | disconnect => exact ih (e := e.disconnect) hsteps htimers hreadings
      | turn now arrivals =>
          have hturn := e.turn_moved now arrivals
          have hnow : now ≤ limit := hreadings now (.head _)
          exact ih (hsteps.of_moved hturn.1 hnow) (htimers.of_moved hturn.2 hnow)
            fun later hlater => hreadings later (.tail _ hlater)

/-- The pacers of a run serve the rates of its configuration. -/
theorem ofConfig_serves (c : Config) (g : Generator) {start limit : Nat} (hstart : start ≤ limit)
    (happenings : List Happening) (hreadings : ∀ now ∈ readings happenings, now ≤ limit) :
    let w := ((ofConfig c g start).runAll happenings).1.worker
    w.steps.Serves c.instructionRate.toNat limit ∧ w.timers.Serves c.timerRate.toNat limit :=
  runAll_serves (e := ofConfig c g start) ⟨rfl, fun _ => hstart⟩ ⟨rfl, fun _ => hstart⟩ happenings
    hreadings

theorem ofConfig_bounded (c : Config) (g : Generator) (start : Nat)
    (happenings : List Happening) :
    ((ofConfig c g start).runAll happenings).1.worker.interpreter.Bounded := by
  have hnil : (ofConfig c g start).worker.interpreter.Bounded := Interpreter.start_bounded g
  exact runAll_induction (I := fun e _ => e.worker.interpreter.Bounded) hnil
    (fun e _ h hdone => after_bounded e h hdone) happenings

/-- An engine whose rates have periods is sound in every run. -/
theorem ofConfig_sound {c : Config} (hperiods : c.HasPeriods) (g : Generator) (start : Nat)
    (happenings : List Happening) :
    Sound ((ofConfig c g start).runAll happenings).1
      ((ofConfig c g start).runAll happenings).2 := by
  have hsteps : (ofConfig c g start).worker.steps.Usable := Pacer.ofRate_usable hperiods.1
  have htimers : (ofConfig c g start).worker.timers.Usable := Pacer.ofRate_usable hperiods.2
  have hnil : Sound (ofConfig c g start) [] :=
    ⟨⟨Interpreter.start_bounded g, hsteps, htimers⟩, .going⟩
  exact runAll_induction (I := Sound) hnil after_sound happenings

theorem eq_ofConfig_of_spawn {c : Config} {g : Generator} {start : Nat} {e : Engine}
    (h : spawn c g start = .ok e) : e = ofConfig c g start := by
  unfold spawn at h
  split at h
  · exact (Except.ok.inj h).symm
  · cases h

theorem isHalted_of_breach {e : Engine} {b : Breach} (h : e.ending? = some (.breach b)) :
    e.isHalted = false := by
  simp only [Engine.isHalted, h]

/-! ## A jump to itself -/

/-- A jump to itself. -/
def idleLoop : List UInt8 := [0x12, 0x00]

/-- The loop is loaded and started; the next turn is the first batch. -/
def idling (start : Nat) : List Happening :=
  [.call (.send (.load idleLoop)), .call (.send .start), .turn start fun _ => [],
    .turn start fun _ => []]

theorem idling_batchDue (c : Config) (g : Generator) (start : Nat) :
    ((ofConfig c g start).runAll (idling start)).1.BatchDue :=
  ⟨rfl, rfl, rfl, rfl⟩

/-- The first batch of the loop runs the jump. -/
theorem idling_current? (c : Config) (g : Generator) (start : Nat) :
    ((ofConfig c g start).runAll (idling start)).1.worker.interpreter.current? =
      some (.jump 0x200) := by
  -- the machine does not depend on the rates, nor on the random bytes
  let m : Machine :=
    { Machine.powerOn with memory := overlay Machine.powerOn.memory programStart idleLoop }
  have hpc : m.pc.toNat < 0xFFF := by decide
  have hdecode : Instruction.decode? m.word = some (.jump 0x200) := by decide +kernel
  have hnext : m.nextInstruction = .ok (m.word, .jump 0x200) := by
    rw [Machine.nextInstruction_of_lt hpc, hdecode]
  exact Interpreter.current?_eq_some_iff.2 ⟨rfl, _, hnext⟩

theorem readings_idling (start : Nat) :
    ∀ now ∈ readings (idling start ++ [.turn start fun _ => []]), now = start := by
  intro now hnow
  simpa [readings, idling] using hnow

/-- One step ends a batch only if it is refused. -/
theorem Stint.steps_of_count_le_one {s : Interpreter} {count : Nat} (hcount : count ≤ 1)
    (hstep : (step s).ending? = none) : (steps (fun _ => []) count s).ending? = none := by
  cases count with
  | zero => rfl
  | succ count =>
      have hzero : count = 0 := by omega
      rw [hzero]
      show (andThen { step s with calls := [] } (steps (fun _ => []) 0)).ending? = none
      unfold andThen
      rw [hstep]
      rfl

/-- The loop meets no fault, so its first batch breaks down if a rate is too fast. -/
theorem idling_breaks {c : Config} (hfast : ¬ c.HasPeriods) (g : Generator) (start : Nat) :
    ((ofConfig c g start).runAll (idling start ++ [.turn start fun _ => []])).1.ending? =
      some (.breach .zeroPeriod) := by
  have hdue := idling_batchDue c g start
  have hcurrent := idling_current? c g start
  have hbounded := ofConfig_bounded c g start (idling start)
  have hserves := ofConfig_serves c g (Nat.le_refl start) (idling start)
    fun now hnow => Nat.le_of_eq (readings_idling start now (List.mem_append_left [_] hnow))
  have hnext : ((ofConfig c g start).runAll (idling start)).1.worker.steps.next = start := rfl
  rw [runAll_append]
  show (((ofConfig c g start).runAll (idling start)).1.turn start fun _ => []).1.ending? = _
  generalize ((ofConfig c g start).runAll (idling start)).1 = e
    at hdue hcurrent hbounded hserves hnext ⊢
  rw [hdue.turn]
  show (e.worker.batch start fun _ => []).ending? = _
  rcases Worker.batch_breaks hfast hbounded hserves.1 hserves.2 (fun _ => []) with hbreach | hfault
  · exact hbreach
  · rcases hfault with ⟨-, f, hf⟩
    have hout := e.worker.batch_outcome start fun _ => []
    generalize (e.worker.batch start fun _ => []) = p at hout hf ⊢
    cases hout with
    | uncounted | unticked | finished => cases hf
    | cut hcount hsteps hending =>
        -- one step is due, and it succeeds
        have hperformed : (Stint.step e.worker.interpreter).ending? = none := by
          unfold Stint.step
          rw [hbounded.step_of_current hcurrent rfl]
        rw [← hnext] at hcount
        have hnone := Stint.steps_of_count_le_one (Pacer.count_le_one_of_due hcount) hperformed
        rw [hsteps, hending] at hnone
        cases hnone

/-! ## Configurations -/

/-- An engine that was accepted with rates that have periods never breaks down, and when its worker
is gone the mark says so. With a faster rate every batch breaks it down, unless a fault ends it
first, and the mark is not set; such a batch is reached with no time passing. -/
theorem spawn_sound_or_breaks {c : Config} {g : Generator} {start : Nat} {e : Engine}
    (hspawn : spawn c g start = .ok e) :
    (c.HasPeriods → ∀ happenings, let run := e.runAll happenings
      Sound run.1 run.2 ∧ run.1.isHalted = run.1.ending?.isSome ∧
        ∀ now, run.1.worker.steps.SkipFits now ∧ run.1.worker.timers.SkipFits now) ∧
    (¬ c.HasPeriods →
      (∃ happenings, (∀ now ∈ readings happenings, now = start) ∧
        (e.runAll happenings).1.ending? = some (.breach .zeroPeriod) ∧
        (e.runAll happenings).1.isHalted = false) ∧
      ∀ happenings now arrivals, start ≤ now → (∀ earlier ∈ readings happenings, earlier ≤ now) →
        let before := (e.runAll happenings).1
        let after := (before.turn now arrivals).1
        before.BatchDue →
          after.ending? = some (.breach .zeroPeriod) ∧ after.isHalted = false ∨
            c.instructionRate.toNat ≤ 1000000000 ∧ ∃ f, after.ending? = some (.fault f)) := by
  rw [eq_ofConfig_of_spawn hspawn]
  refine ⟨?_, fun hfast => ⟨?_, ?_⟩⟩
  · intro hperiods happenings run
    have hsound : Sound run.1 run.2 := ofConfig_sound hperiods g start happenings
    exact ⟨hsound, hsound.isHalted, fun now =>
      ⟨hsound.worker.steps.skipFits now, hsound.worker.timers.skipFits now⟩⟩
  · have hbreach := idling_breaks hfast g start
    exact ⟨_, readings_idling start, hbreach, isHalted_of_breach hbreach⟩
  · intro happenings now arrivals hstart hreadings before after hdue
    have hserves := ofConfig_serves c g hstart happenings hreadings
    have hbounded := ofConfig_bounded c g start happenings
    have hafter : after.ending? = (before.worker.batch now arrivals).ending? := by
      show (before.turn now arrivals).1.ending? = _
      rw [hdue.turn]
      rfl
    rw [hafter]
    rcases Worker.batch_breaks hfast hbounded hserves.1 hserves.2 arrivals with hbreach | hfault
    · exact .inl ⟨hbreach, isHalted_of_breach (hafter.trans hbreach)⟩
    · exact .inr hfault

/-- At the usual rates the engine is sound; with timers of two billion ticks a second its first
batch breaks it down. -/
theorem spawn_sound_or_breaks_idling :
    let usual : Config := {}
    let fast : Config := { timerRate := 2000000000 }
    let g := Generator.ofSeed 3
    let run := (ofConfig usual g 0).runAll (idling 0)
    let first := (((ofConfig fast g 0).runAll (idling 0)).1.turn 7 fun _ => []).1
    spawn usual g 0 = .ok (ofConfig usual g 0) ∧ usual.HasPeriods ∧ Sound run.1 run.2 ∧
      spawn fast g 0 = .ok (ofConfig fast g 0) ∧ ¬ fast.HasPeriods ∧
      first.ending? = some (.breach .zeroPeriod) ∧ first.isHalted = false := by
  intro usual fast g run first
  have hspawnUsual : spawn usual g 0 = .ok (ofConfig usual g 0) := rfl
  have hspawnFast : spawn fast g 0 = .ok (ofConfig fast g 0) := rfl
  have hperiods : usual.HasPeriods := by
    unfold Config.HasPeriods
    decide
  have hfast : ¬ fast.HasPeriods := by
    unfold Config.HasPeriods
    decide
  have hsound := (spawn_sound_or_breaks hspawnUsual).1 hperiods (idling 0)
  have hbreaks := ((spawn_sound_or_breaks hspawnFast).2 hfast).2 (idling 0) 7 (fun _ => [])
    (Nat.zero_le 7) (by decide) (idling_batchDue fast g 0)
  have hfirst : first.fault? = none := by decide +kernel
  refine ⟨hspawnUsual, hperiods, hsound.1, hspawnFast, hfast, ?_⟩
  rcases hbreaks with hbreach | ⟨-, f, hf⟩
  · exact hbreach
  · rw [show first.fault? = some f by simp only [fault?, first, hf]] at hfirst
    cases hfirst

/-- Two billion instructions a second are accepted, and the first batch stops the worker without the
mark or a fault. -/
theorem check_admits_breach :
    let c : Config := { instructionRate := 2000000000 }
    let last := ((ofConfig c (.ofSeed 3) 0).runAll (idling 0 ++ [.turn 0 fun _ => []])).1
    c.check = .ok () ∧ last.ending? = some (.breach .zeroPeriod) ∧ last.isHalted = false ∧
      last.fault? = none := by
  intro c last
  have hending : last.ending? = some (.breach .zeroPeriod) := by decide +kernel
  have hfault : last.fault? = none := by
    simp only [fault?, hending]
  exact ⟨rfl, hending, isHalted_of_breach hending, hfault⟩

end Engine
end Chip8
