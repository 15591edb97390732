import Chip8.Proofs.Engine.Journal

/-!
# Beeps — no beep is lost, and no two are taken for one

Between a tick and the beep that is heard stands one mark, `beepPending`, which cannot count.  That
it need not is not a matter of one place: no step runs between the ticks of a batch, so the sound
timer runs out on at most one of them; the ticks of a batch are followed by its flush; and a batch
that ends early ends before its first tick.

The invariant `Settled` says that as many beeps were sent as ticks have beeped, and that none is
pending.

Main statement: `runAll_beeps`.
-/

namespace Chip8

/-! ## The sound timer -/

namespace Timers

def runsOutWithin (t : Timers) (count : Nat) : Bool :=
  decide (1 ≤ t.sound.toNat ∧ t.sound.toNat ≤ count)

/-- A tick beeps when the sound timer is at one. -/
theorem beeps_iff (t : Timers) : t.beeps = true ↔ t.sound.toNat = 1 := by
  unfold beeps
  rw [beq_iff_eq]
  constructor
  · intro h
    rw [h]
    rfl
  · intro h
    exact UInt8.toNat.inj h

@[simp]
theorem toNat_sound_tick (t : Timers) : t.tick.sound.toNat = t.sound.toNat - 1 :=
  toNat_countDown t.sound

/-- It runs out on the first tick, or on one of those after it. -/
@[simp]
theorem runsOutWithin_succ (t : Timers) (count : Nat) :
    t.runsOutWithin (count + 1) = (t.beeps || t.tick.runsOutWithin count) := by
  rw [Bool.eq_iff_iff, Bool.or_eq_true, beeps_iff]
  simp only [runsOutWithin, decide_eq_true_eq, toNat_sound_tick]
  omega

/-- A timer that has run out does not run out again by itself. -/
theorem runsOutWithin_tick_of_beeps {t : Timers} (h : t.beeps = true) (count : Nat) :
    t.tick.runsOutWithin count = false := by
  have hsound : t.sound.toNat = 1 := t.beeps_iff.1 h
  rw [Bool.eq_false_iff]
  simp only [runsOutWithin, ne_eq, decide_eq_true_eq, toNat_sound_tick]
  omega

end Timers

namespace Engine

/-! ## The invariant -/

/-- As many beeps were sent as ticks have beeped, and none is pending. -/
structure Settled (s : Interpreter) (entries : List Entry) : Prop where
  count_eq : entries.count (.sent .beep) = entries.count (.ticked true)
  beepPending_eq : s.beepPending = false

/-- Entries in which beeps and beeping ticks are equally many. -/
theorem Settled.append {s t : Interpreter} {done more : List Entry} (h : Settled s done)
    (ht : t.beepPending = false) (hmore : more.count (.sent .beep) = more.count (.ticked true)) :
    Settled t (done ++ more) where
  count_eq := by simp [h.count_eq, hmore]
  beepPending_eq := ht

namespace Stint

/-! ## Pieces of a batch -/

/-- Steps make no sound. -/
theorem steps_settled (arrivals : Nat → List Call) (count : Nat) {s : Interpreter}
    (hs : s.beepPending = false) :
    Settled (steps arrivals count s).interpreter (steps arrivals count s).entries := by
  refine steps_induction (I := Settled) ?_ ?_ arrivals count ⟨rfl, hs⟩
  · intro s done w hdone
    exact ⟨hdone.count_eq, hdone.beepPending_eq⟩
  · intro s done hdone
    have hout := step_outcome s
    generalize step s = a at hout ⊢
    cases hout with
    | performed => exact hdone.append hdone.beepPending_eq rfl
    | @polled x =>
        rcases s.polled_keeps x with ⟨registers, pc, runState, hpolled⟩
        refine hdone.append ?_ rfl
        rw [hpolled]
        exact hdone.beepPending_eq
    | refused => exact hdone.append hdone.beepPending_eq rfl
    | broken => exact hdone.append hdone.beepPending_eq rfl

/-- The ticks of a batch beep at most once, and send nothing themselves. -/
theorem ticks_journal (count : Nat) (s : Interpreter) :
    (ticks count s).ending? = none ∧
      (ticks count s).entries.count (.sent .beep) = 0 ∧
      (ticks count s).entries.count (.ticked true) =
        (s.machine.timers.runsOutWithin count).toNat ∧
      (ticks count s).interpreter.beepPending =
        (s.beepPending || s.machine.timers.runsOutWithin count) := by
  induction count generalizing s with
  | zero =>
      have hnever : s.machine.timers.runsOutWithin 0 = false := by
        rw [Bool.eq_false_iff]
        simp only [Timers.runsOutWithin, ne_eq, decide_eq_true_eq]
        omega
      rw [hnever, Bool.or_false]
      exact ⟨rfl, rfl, rfl, rfl⟩
  | succ count ih =>
      rcases ih s.tick with ⟨hending, hsent, hticked, hpending⟩
      have hentries : (ticks (count + 1) s).entries =
          .ticked s.tickBeeps :: (ticks count s.tick).entries := rfl
      have hlater : s.tick.machine.timers = s.machine.timers.tick := rfl
      rw [hlater] at hticked hpending
      refine ⟨hending, ?_, ?_, ?_⟩
      · simp [hentries, hsent]
      · rw [hentries, List.count_cons, hticked, Timers.runsOutWithin_succ]
        show _ = (s.tickBeeps || s.machine.timers.tick.runsOutWithin count).toNat
        cases hbeeps : s.tickBeeps with
        -- this tick beeps, so none of the others does, and the count stays one
        | true =>
            rw [Timers.runsOutWithin_tick_of_beeps hbeeps]
            rfl
        | false => rfl
      · calc
          (ticks (count + 1) s).interpreter.beepPending
              = (s.tick.beepPending || s.machine.timers.tick.runsOutWithin count) := hpending
          _ = (s.beepPending || (s.tickBeeps || s.machine.timers.tick.runsOutWithin count)) :=
              Bool.or_assoc _ _ _
          _ = (s.beepPending || s.machine.timers.runsOutWithin (count + 1)) := by
              rw [Timers.runsOutWithin_succ]
              rfl

/-- A flush sends the beep that is pending. -/
theorem flush_journal (s : Interpreter) :
    (flush s).entries.count (.sent .beep) = s.beepPending.toNat ∧
      (flush s).entries.count (.ticked true) = 0 := by
  unfold flush
  cases s.frame? with
  | none => cases s.beepPending <;> exact ⟨rfl, rfl⟩
  | some frame => cases s.beepPending <;> exact ⟨by simp, by simp⟩

/-- Ticks and the flush after them send one beep if the sound timer runs out, and none otherwise. -/
theorem ticks_flush_settled (count : Nat) {s : Interpreter} (hs : s.beepPending = false) :
    Settled ((ticks count s).andThen flush).interpreter
      ((ticks count s).andThen flush).entries := by
  rcases ticks_journal count s with ⟨hending, hsent, hticked, hpending⟩
  rcases flush_journal (ticks count s).interpreter with ⟨hbeep, htick⟩
  simp only [andThen, hending]
  refine ⟨?_, rfl⟩
  simp [hsent, hticked, hbeep, htick, hpending, hs]

/-- Loading drops what was pending, and sends a picture at most. -/
theorem load_settled (program : List UInt8) (s : Interpreter) :
    Settled (load program s).interpreter (load program s).entries := by
  -- the reset that comes first takes the mark away, whether the program fits or not
  have hquiet : (s.reset.load program).next.beepPending = false := by
    rcases s.reset.load_keeps program with ⟨memory, hnext⟩
    rw [hnext]
    rfl
  unfold load
  generalize s.reset.load program = o at hquiet
  rcases o with ⟨fault?, next⟩
  cases fault? with
  | some f => exact ⟨rfl, hquiet⟩
  | none =>
      rcases flush_journal next with ⟨hbeep, htick⟩
      refine ⟨?_, rfl⟩
      rw [hbeep, htick, hquiet]
      rfl

end Stint

/-! ## Turns -/

namespace Worker

/-- Handling a command makes no sound. -/
theorem handle_settled (w : Worker) (now : Nat) (c : Command)
    (hw : w.interpreter.beepPending = false) :
    Settled (w.handle now c).worker.interpreter (w.handle now c).entries := by
  have hobey : Settled (w.obey now c).worker.interpreter (w.obey now c).entries := by
    cases c with
    | load program => exact Stint.load_settled program w.interpreter
    | start | pause | shutdown => exact ⟨rfl, hw⟩
  -- that a command was handled is an entry of its own, which comes first
  refine ⟨?_, hobey.beepPending_eq⟩
  show (Entry.handled c :: (w.obey now c).entries).count (.sent .beep) = _
  rw [List.count_cons, hobey.count_eq]
  rfl

/-- The ticks of a batch are followed by its flush. -/
theorem finish_settled (w : Worker) (now : Nat) (hw : w.interpreter.beepPending = false) :
    Settled (w.finish now).worker.interpreter (w.finish now).entries := by
  unfold finish
  split
  · exact ⟨rfl, hw⟩
  · exact Stint.ticks_flush_settled _ hw

/-- A batch that ends early ends before its first tick. -/
theorem batch_settled (w : Worker) (now : Nat) (arrivals : Nat → List Call)
    (hw : w.interpreter.beepPending = false) :
    Settled (w.batch now arrivals).worker.interpreter (w.batch now arrivals).entries := by
  unfold batch
  split
  · exact ⟨rfl, hw⟩
  · rename_i count steps _
    have hsteps := Stint.steps_settled arrivals count hw
    dsimp only
    split
    -- the batch ends before its first tick
    · exact hsteps
    · have hfinish := finish_settled
        ({ w with steps }.progress (.steps arrivals count w.interpreter)).worker now
        hsteps.beepPending_eq
      exact hsteps.append hfinish.beepPending_eq hfinish.count_eq

end Worker

/-- The last entries of a worker are no beeps and no ticks. -/
theorem record_settled (e : Engine) {p : Progress} {done : List Entry}
    (h : Settled p.worker.interpreter (done ++ p.entries)) :
    Settled (e.record p).1.worker.interpreter (done ++ (e.record p).2) := by
  -- a worker that goes on writes nothing more, and one that ends says why
  have hfarewell : ((p.ending?.map farewell).getD []).count (.sent .beep) =
      ((p.ending?.map farewell).getD []).count (.ticked true) := by
    cases p.ending? with
    | none => rfl
    | some ending => cases ending <;> rfl
  have happend := h.append (t := p.worker.interpreter) h.beepPending_eq hfarewell
  rw [List.append_assoc] at happend
  exact happend

/-- No happening leaves a beep pending, or sends one that no tick made. -/
theorem after_settled (e : Engine) (done : List Entry) (h : Happening)
    (hdone : Settled e.worker.interpreter done) :
    Settled (e.after h).1.worker.interpreter (done ++ (e.after h).2) := by
  have hout := after_outcome e h
  generalize e.after h = next at hout ⊢
  cases hout with
  | idle hworker =>
      rw [List.append_nil]
      exact ⟨hdone.count_eq, by rw [hworker]; exact hdone.beepPending_eq⟩
  | keys w =>
      rw [List.append_nil]
      exact ⟨hdone.count_eq, hdone.beepPending_eq⟩
  | @handled c rest now =>
      have hturn := e.worker.handle_settled now c hdone.beepPending_eq
      exact record_settled _ (hdone.append hturn.beepPending_eq hturn.count_eq)
  | batched now arrivals =>
      have hturn := e.worker.batch_settled now arrivals hdone.beepPending_eq
      exact record_settled _ (hdone.append hturn.beepPending_eq hturn.count_eq)
  | closed => exact record_settled e (hdone.append hdone.beepPending_eq rfl)

/-! ## Runs -/

/-- After every run of an engine as many beeps were sent as ticks have beeped, and none is pending.
-/
theorem runAll_beeps (c : Config) (g : Generator) (now : Nat) (happenings : List Happening) :
    let run := (ofConfig c g now).runAll happenings
    run.2.count (.sent .beep) = run.2.count (.ticked true) ∧
      run.1.worker.interpreter.beepPending = false := by
  have hsettled := runAll_induction (I := fun e entries => Settled e.worker.interpreter entries)
    (e := ofConfig c g now) ⟨rfl, rfl⟩ after_settled happenings
  exact ⟨hsettled.count_eq, hsettled.beepPending_eq⟩

end Engine
end Chip8
