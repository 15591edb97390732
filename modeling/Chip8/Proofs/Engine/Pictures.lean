import Chip8.Proofs.Engine.Journal
import Chip8.Proofs.Interpreter.FrameTaking

/-!
# Pictures — what is seen of a running engine

An engine shows its screen at the end of a load and at the end of a batch, and nowhere else.  Work
in between is `Unseen`: it leaves the mark `frameDirty` if something was painted, and the
screen as it was if not.  A flush makes a picture of what the mark tells, so work that ends with one
is `Flushed`, and what was shown last is the screen: the engine is `Current`.

A batch that a fault ends has no flush.  What it painted is never shown, and the picture shown last
is the screen as it was when the batch began.

Main statements: `turn_shows_screen` and `faulting_batch_shows_nothing`.
-/

namespace Chip8
namespace Engine

/-! ## Pictures in a journal -/

def Signal.picture? : Signal → Option Frame
  | .present frame => some frame
  | .beep | .fault _ => none

/-- The pictures that were shown, in order. -/
def pictures (entries : List Entry) : List Frame :=
  (signals entries).filterMap Signal.picture?

def lastPicture? (entries : List Entry) : Option Frame :=
  (pictures entries).getLast?

/-- An instruction that paints was carried out, even if no pixel changed. -/
def Painted (entries : List Entry) : Prop :=
  ∃ i, Entry.stepped (some i) ∈ entries ∧ i.paints = true

@[simp]
theorem pictures_append (before more : List Entry) :
    pictures (before ++ more) = pictures before ++ pictures more := by
  simp only [pictures, signals, List.filterMap_append]

@[simp]
theorem lastPicture?_append (before more : List Entry) :
    lastPicture? (before ++ more) = (lastPicture? more).or (lastPicture? before) := by
  rw [lastPicture?, pictures_append, List.getLast?_append]
  rfl

/-- The picture shown last stays the last one while none is shown. -/
theorem lastPicture?_append_of_nil {more : List Entry} (h : pictures more = [])
    (before : List Entry) : lastPicture? (before ++ more) = lastPicture? before := by
  have hnone : lastPicture? more = none := by
    rw [lastPicture?, h]
    rfl
  rw [lastPicture?_append, hnone, Option.none_or]

/-- Something was painted in one part or in the other. -/
@[simp]
theorem painted_append (before more : List Entry) :
    Painted (before ++ more) ↔ Painted before ∨ Painted more := by
  simp only [Painted, List.mem_append, or_and_right, exists_or]

@[simp]
theorem not_painted_nil : ¬ Painted [] := by
  simp [Painted]

@[simp]
theorem painted_stepped {i? : Option Instruction} :
    Painted [.stepped i?] ↔ ∃ i, i? = some i ∧ i.paints = true := by
  simp only [Painted, List.mem_singleton, Entry.stepped.injEq, eq_comm]

/-- The last words of a worker hold no picture. -/
@[simp]
theorem pictures_record (e : Engine) (p : Progress) :
    pictures (e.record p).2 = pictures p.entries := by
  have hfarewell : pictures ((p.ending?.map farewell).getD []) = [] := by
    cases p.ending? with
    | none => rfl
    | some ending => cases ending <;> rfl
  show pictures (p.entries ++ _) = _
  simp [hfarewell]

@[simp]
theorem painted_record (e : Engine) (p : Progress) :
    Painted (e.record p).2 ↔ Painted p.entries := by
  have hfarewell : ¬ Painted ((p.ending?.map farewell).getD []) := by
    rintro ⟨i, hi, -⟩
    cases hending : p.ending? with
    | none => simp [hending] at hi
    | some ending => cases ending <;> simp [hending, farewell] at hi
  show Painted (p.entries ++ _) ↔ _
  simp [hfarewell]

/-! ## Work that shows nothing -/

/-- Work from `s` to `t` that shows nothing.  Whether something was painted is left in the mark. -/
structure Unseen (s t : Interpreter) (entries : List Entry) : Prop where
  pictures_eq : pictures entries = []
  frameDirty_iff : t.frameDirty = true ↔ Painted entries ∨ s.frameDirty = true
  screen_eq : ¬ Painted entries → t.machine.screen = s.machine.screen

/-- Work that paints nothing leaves the mark and the screen alone. -/
theorem unseen_of_not_painted {s t : Interpreter} {entries : List Entry}
    (hpictures : pictures entries = []) (hnot : ¬ Painted entries)
    (hdirty : t.frameDirty = s.frameDirty) (hscreen : t.machine.screen = s.machine.screen) :
    Unseen s t entries where
  pictures_eq := hpictures
  frameDirty_iff := by rw [hdirty, or_iff_right hnot]
  screen_eq := fun _ => hscreen

theorem Unseen.refl (s : Interpreter) : Unseen s s [] :=
  unseen_of_not_painted rfl not_painted_nil rfl rfl

/-- Work that shows nothing, in two parts. -/
theorem Unseen.append {s t u : Interpreter} {before more : List Entry} (h : Unseen s t before)
    (hmore : Unseen t u more) : Unseen s u (before ++ more) where
  pictures_eq := by simp [h.pictures_eq, hmore.pictures_eq]
  frameDirty_iff := by
    rw [hmore.frameDirty_iff, h.frameDirty_iff, painted_append, ← or_assoc,
      or_comm (a := Painted more)]
  screen_eq := by
    rw [painted_append, not_or]
    rintro ⟨hbefore, hmore'⟩
    exact (hmore.screen_eq hmore').trans (h.screen_eq hbefore)

/-- Without painting, a clean mark stays clean. -/
theorem Unseen.clean {s t : Interpreter} {entries : List Entry} (h : Unseen s t entries)
    (hclean : t.frameDirty = false) : ¬ Painted entries ∧ s.frameDirty = false := by
  have hneither : ¬ (Painted entries ∨ s.frameDirty = true) := by
    rw [← h.frameDirty_iff, hclean]
    exact Bool.false_ne_true
  exact ⟨fun hp => hneither (.inl hp), Bool.eq_false_iff.2 fun hs => hneither (.inr hs)⟩

theorem Unseen.stays_clean {s t : Interpreter} {entries : List Entry} (h : Unseen s t entries)
    (hnot : ¬ Painted entries) (hclean : s.frameDirty = false) : t.frameDirty = false := by
  rw [Bool.eq_false_iff, ne_eq, h.frameDirty_iff, or_iff_right hnot, hclean]
  exact Bool.false_ne_true

namespace Stint

/-- A step shows nothing, and paints what its instruction paints. -/
theorem step_unseen (s : Interpreter) : Unseen s (step s).interpreter (step s).entries := by
  have hout := step_outcome s
  generalize step s = a at hout ⊢
  cases hout with
  | @performed i _ _ =>
      have hpaints : Painted [.stepped (some i)] ↔ i.paints = true := by simp
      refine ⟨rfl, ?_, ?_⟩
      · show (i.paints || s.frameDirty) = true ↔ _
        rw [Bool.or_eq_true, hpaints]
      · rw [hpaints, Bool.not_eq_true]
        exact fun hquiet => Interpreter.screenAfter_eq s.machine hquiet
  | @polled x _ =>
      rcases s.polled_keeps x with ⟨registers, pc, runState, hpolled⟩
      refine unseen_of_not_painted rfl (by simp) ?_ ?_
      · rw [hpolled]
      · rw [hpolled]
  | refused f => exact unseen_of_not_painted rfl (by simp [Painted]) rfl rfl
  | broken => exact .refl s

/-- Nor do the steps of a batch show anything. -/
theorem steps_unseen (arrivals : Nat → List Call) (count : Nat) (s : Interpreter) :
    Unseen s (steps arrivals count s).interpreter (steps arrivals count s).entries := by
  refine steps_induction (I := Unseen s) ?_ ?_ arrivals count (.refl s)
  · intro t done w hdone
    exact ⟨hdone.pictures_eq, hdone.frameDirty_iff, hdone.screen_eq⟩
  · intro t done hdone
    exact hdone.append (step_unseen t)

/-- Ticks paint nothing. -/
theorem ticks_unseen (count : Nat) (s : Interpreter) :
    Unseen s (ticks count s).interpreter (ticks count s).entries := by
  induction count generalizing s with
  | zero => exact .refl s
  | succ count ih =>
      have hfirst : Unseen s s.tick [.ticked s.tickBeeps] :=
        unseen_of_not_painted rfl (by simp [Painted]) rfl rfl
      exact hfirst.append (ih s.tick)

end Stint

/-! ## Work that ends with a flush -/

/-- Work from `s` to `t` that ends with a flush.  It shows one picture if there is something new to
be seen, and none otherwise. -/
structure Flushed (s t : Interpreter) (entries : List Entry) : Prop where
  frameDirty_eq : t.frameDirty = false
  pictures_of_new : Painted entries ∨ s.frameDirty = true → pictures entries = [t.machine.screen]
  pictures_of_old : ¬ (Painted entries ∨ s.frameDirty = true) →
    pictures entries = [] ∧ t.machine.screen = s.machine.screen

/-- The picture that was shown last is the screen, and no change waits to be shown. -/
structure Current (s : Interpreter) (entries : List Entry) : Prop where
  lastPicture?_eq : lastPicture? entries = some s.machine.screen
  frameDirty_eq : s.frameDirty = false

/-- A flush shows what the mark before it tells. -/
theorem Unseen.flush {s t : Interpreter} {entries : List Entry} (h : Unseen s t entries) :
    Flushed s (Stint.flush t).interpreter (entries ++ (Stint.flush t).entries) := by
  have hpictures : pictures (Stint.flush t).entries = t.frame?.toList := by
    rw [Stint.flush_entries, pictures_append]
    cases t.frame? with
    | none => cases t.beepPending <;> rfl
    | some frame => cases t.beepPending <;> rfl
  have hnot : ¬ Painted (Stint.flush t).entries := by
    rintro ⟨i, hi, -⟩
    rw [Stint.flush_entries] at hi
    cases t.beepPending <;> simp at hi
  have hwaiting : Painted (entries ++ (Stint.flush t).entries) ∨ s.frameDirty = true ↔
      t.frameDirty = true := by
    rw [painted_append, or_iff_left hnot, h.frameDirty_iff]
  refine ⟨rfl, ?_, ?_⟩
  · intro hnew
    rw [pictures_append, h.pictures_eq, hpictures, Interpreter.frame?, if_pos (hwaiting.1 hnew)]
    rfl
  · intro hold
    rw [hwaiting] at hold
    have hclean := h.clean (Bool.eq_false_iff.2 hold)
    refine ⟨?_, h.screen_eq hclean.1⟩
    rw [pictures_append, h.pictures_eq, hpictures, Interpreter.frame?, if_neg hold]
    rfl

/-- There is a picture exactly if there is something new. -/
theorem Flushed.length_eq_one_iff {s t : Interpreter} {entries : List Entry}
    (h : Flushed s t entries) :
    (pictures entries).length = 1 ↔ s.frameDirty = true ∨ Painted entries := by
  by_cases hnew : Painted entries ∨ s.frameDirty = true
  · rw [h.pictures_of_new hnew]
    exact ⟨fun _ => hnew.symm, fun _ => rfl⟩
  · rw [(h.pictures_of_old hnew).1]
    exact ⟨fun hone => absurd hone.symm Nat.one_ne_zero, fun hor => absurd hor.symm hnew⟩

theorem Flushed.length_le_one {s t : Interpreter} {entries : List Entry}
    (h : Flushed s t entries) : (pictures entries).length ≤ 1 := by
  by_cases hnew : Painted entries ∨ s.frameDirty = true
  · rw [h.pictures_of_new hnew]
    exact Nat.le_refl 1
  · rw [(h.pictures_of_old hnew).1]
    exact Nat.zero_le 1

/-- What is shown last after a flush is the screen, if that was so whenever the mark was clean. -/
theorem Flushed.current {s t : Interpreter} {entries done : List Entry} (h : Flushed s t entries)
    (hdone : s.frameDirty = false → lastPicture? done = some s.machine.screen) :
    Current t (done ++ entries) := by
  refine ⟨?_, h.frameDirty_eq⟩
  by_cases hnew : Painted entries ∨ s.frameDirty = true
  · rw [lastPicture?_append, lastPicture?, h.pictures_of_new hnew]
    rfl
  · rcases h.pictures_of_old hnew with ⟨hnil, hscreen⟩
    have hclean : s.frameDirty = false := Bool.eq_false_iff.2 fun hs => hnew (.inr hs)
    rw [lastPicture?_append_of_nil hnil, hscreen, hdone hclean]

/-- A load that succeeds shows the blank screen. -/
theorem Stint.load_flushed {program : List UInt8} {s : Interpreter}
    (h : (Stint.load program s).ending? = none) :
    pictures (Stint.load program s).entries = [.blank] ∧
      (Stint.load program s).interpreter.frameDirty = false ∧
      (Stint.load program s).interpreter.machine.screen = .blank := by
  have hout := Stint.load_outcome program s
  generalize Stint.load program s = a at h hout ⊢
  cases hout with
  | refused => cases h
  | loaded memory =>
      -- the reset has set the mark, so the flush shows what it left
      let next : Interpreter := { s.reset with machine := { s.reset.machine with memory } }
      have hshown := (Unseen.refl next).flush.pictures_of_new (.inr rfl)
      exact ⟨hshown, rfl, rfl⟩

/-- One that is refused shows nothing, and the reset before it has set the mark. -/
theorem Stint.load_unshown (program : List UInt8) (s : Interpreter)
    (h : (Stint.load program s).ending? ≠ none) :
    pictures (Stint.load program s).entries = [] ∧
      (Stint.load program s).interpreter.frameDirty = true := by
  have hout := Stint.load_outcome program s
  generalize Stint.load program s = a at h hout ⊢
  cases hout with
  | refused => exact ⟨rfl, rfl⟩
  | loaded => exact absurd rfl h

/-! ## Batches -/

namespace Worker

/-- A batch that ends the worker shows nothing. -/
theorem batch_unseen (w : Worker) (now : Nat) (arrivals : Nat → List Call)
    (h : (w.batch now arrivals).ending? ≠ none) :
    Unseen w.interpreter (w.batch now arrivals).worker.interpreter
      (w.batch now arrivals).entries := by
  have hout := w.batch_outcome now arrivals
  generalize w.batch now arrivals = p at h hout ⊢
  cases hout with
  | uncounted _ => exact .refl w.interpreter
  | cut _ hsteps _ | unticked _ hsteps _ _ =>
      rw [← hsteps]
      exact Stint.steps_unseen _ _ _
  | finished => exact absurd rfl h

/-- Any other batch ends with a flush. -/
theorem batch_flushed {w : Worker} {now : Nat} {arrivals : Nat → List Call}
    (h : (w.batch now arrivals).ending? = none) :
    Flushed w.interpreter (w.batch now arrivals).worker.interpreter
      (w.batch now arrivals).entries := by
  have hout := w.batch_outcome now arrivals
  generalize w.batch now arrivals = p at h hout ⊢
  cases hout with
  | uncounted | cut | unticked => cases h
  | finished _ hsteps _ _ hticks =>
      rw [← hticks, ← hsteps, ← List.append_assoc]
      exact ((Stint.steps_unseen _ _ _).append (Stint.ticks_unseen _ _)).flush

end Worker

/-! ## Runs -/

/-- What is known of the pictures at any moment of a run. -/
structure Tracked (e : Engine) (entries : List Entry) : Prop where
  clean : e.worker.interpreter.frameDirty = false →
    lastPicture? entries = some e.worker.interpreter.machine.screen
  /-- Between two turns, only the very first picture can be missing. -/
  missing : e.ending? = none → e.worker.interpreter.frameDirty = true →
    lastPicture? entries = none

theorem Current.tracked {e : Engine} {entries : List Entry}
    (h : Current e.worker.interpreter entries) : Tracked e entries where
  clean := fun _ => h.lastPicture?_eq
  missing := by
    intro _ hdirty
    rw [h.frameDirty_eq] at hdirty
    cases hdirty

/-- Work that shows nothing and ends the worker. -/
theorem Tracked.unseen {e e' : Engine} {done entries : List Entry} (h : Tracked e done)
    (hunseen : Unseen e.worker.interpreter e'.worker.interpreter entries)
    (hended : e'.ending? ≠ none) : Tracked e' (done ++ entries) where
  clean := by
    intro hclean
    rcases hunseen.clean hclean with ⟨hnot, hbefore⟩
    rw [lastPicture?_append_of_nil hunseen.pictures_eq, hunseen.screen_eq hnot, h.clean hbefore]
  missing := fun hnone => absurd hnone hended

/-- A happening that leaves the picture alone, and does not bring an engine back that has ended. -/
theorem Tracked.same {e e' : Engine} {done entries : List Entry} (h : Tracked e done)
    (hpictures : pictures entries = [])
    (hdirty : e'.worker.interpreter.frameDirty = e.worker.interpreter.frameDirty)
    (hscreen : e'.worker.interpreter.machine.screen = e.worker.interpreter.machine.screen)
    (hending : e'.ending? = none → e.ending? = none) : Tracked e' (done ++ entries) := by
  have hlast := lastPicture?_append_of_nil hpictures done
  refine ⟨?_, ?_⟩
  · rw [hlast, hdirty, hscreen]
    exact h.clean
  · rw [hlast, hdirty]
    exact fun hnone => h.missing (hending hnone)

/-- A load shows a blank screen or ends the worker; other commands show nothing. -/
theorem handled_tracked (e : Engine) (done : List Entry) {c : Command} {rest : List Command}
    (now : Nat) (hending : e.ending? = none) (h : Tracked e done) :
    Tracked ({ e with queue := rest }.record (e.worker.handle now c)).1
      (done ++ ({ e with queue := rest }.record (e.worker.handle now c)).2) := by
  have hpictures : pictures ({ e with queue := rest }.record (e.worker.handle now c)).2 =
      pictures (e.worker.obey now c).entries := pictures_record _ _
  cases c with
  | load program =>
      cases hended : (Stint.load program e.worker.interpreter).ending? with
      | none =>
          rcases Stint.load_flushed hended with ⟨hshown, hdirty, hscreen⟩
          refine Current.tracked ⟨?_, hdirty⟩
          have hlast : lastPicture?
              ({ e with queue := rest }.record (e.worker.handle now (.load program))).2 =
                some .blank := by
            rw [lastPicture?, hpictures]
            exact congrArg List.getLast? hshown
          rw [lastPicture?_append, hlast]
          exact congrArg some hscreen.symm
      | some ending =>
          have hunshown := Stint.load_unshown program e.worker.interpreter (by simp [hended])
          refine ⟨?_, ?_⟩
          · intro hclean
            have hdirty := hunshown.2.symm.trans hclean
            cases hdirty
          · intro hnone
            have := hended.symm.trans hnone
            cases this
  | start | pause => exact h.same hpictures rfl rfl fun _ => hending
  | shutdown => exact h.same hpictures rfl rfl fun _ => hending

/-- Whatever happens, it is known what was shown last. -/
theorem after_tracked (e : Engine) (done : List Entry) (h : Happening) (hdone : Tracked e done) :
    Tracked (e.after h).1 (done ++ (e.after h).2) := by
  have hout := after_outcome e h
  generalize e.after h = next at hout ⊢
  cases hout with
  | idle hworker hending _ =>
      exact hdone.same rfl (by rw [hworker]) (by rw [hworker]) fun hnone => by rw [← hending, hnone]
  | keys w => exact hdone.same rfl rfl rfl id
  | handled now hending _ => exact handled_tracked e done now hending hdone
  | batched now arrivals hending _ _ =>
      cases hended : (e.worker.batch now arrivals).ending? with
      | none =>
          rw [record_of_none _ hended]
          exact ((Worker.batch_flushed hended).current hdone.clean).tracked
      | some ending =>
          have hne : (e.worker.batch now arrivals).ending? ≠ none := by simp [hended]
          have hunseen := e.worker.batch_unseen now arrivals hne
          refine hdone.unseen ⟨?_, ?_, ?_⟩ hne
          · simp [hunseen.pictures_eq]
          · simpa using hunseen.frameDirty_iff
          · simpa using hunseen.screen_eq
  | closed hending => exact hdone.same (pictures_record e _) rfl rfl fun _ => hending

theorem runAll_tracked (c : Config) (g : Generator) (start : Nat) (happenings : List Happening) :
    Tracked ((ofConfig c g start).runAll happenings).1
      ((ofConfig c g start).runAll happenings).2 := by
  refine runAll_induction ?_ after_tracked happenings
  refine ⟨?_, fun _ _ => rfl⟩
  intro hclean
  cases hclean

/-! ## Starting and pausing -/

def Entry.onlyTiming : Entry → Bool
  | .handled .start | .handled .pause => true
  | _ => false

theorem not_painted_of_onlyTiming {entries : List Entry}
    (h : ∀ entry ∈ entries, entry.onlyTiming = true) : ¬ Painted entries := by
  rintro ⟨i, hi, -⟩
  cases h _ hi

/-- To start and to pause shows nothing. -/
theorem pictures_of_onlyTiming {entries : List Entry}
    (h : ∀ entry ∈ entries, entry.onlyTiming = true) : pictures entries = [] := by
  induction entries with
  | nil => rfl
  | cons entry rest ih =>
      have hrest := ih fun other hother => h other (.tail _ hother)
      have hentry := h entry (.head _)
      cases entry with
      | handled c => exact hrest
      | _ => cases hentry

/-- A happening at which nothing is done but to start or to pause leaves shown what was shown. -/
theorem Current.after {e : Engine} {done : List Entry} (hdone : Current e.worker.interpreter done)
    (h : Happening) (honly : ∀ entry ∈ (e.after h).2, entry.onlyTiming = true) :
    Current (e.after h).1.worker.interpreter (done ++ (e.after h).2) := by
  have hlast := lastPicture?_append_of_nil (pictures_of_onlyTiming honly) done
  -- it is enough that the screen is the same and the mark stays clean
  have hsame {s : Interpreter} (hs : (e.after h).1.worker.interpreter = s)
      (hdirty : s.frameDirty = false)
      (hscreen : s.machine.screen = e.worker.interpreter.machine.screen) :
      Current (e.after h).1.worker.interpreter (done ++ (e.after h).2) := by
    refine ⟨?_, hs ▸ hdirty⟩
    rw [hlast, hs, hscreen]
    exact hdone.lastPicture?_eq
  have hclean := hdone.frameDirty_eq
  have hnot := not_painted_of_onlyTiming honly
  have hout := after_outcome e h
  generalize e.after h = next at honly hlast hsame hnot hout ⊢
  cases hout with
  | idle hworker _ _ => exact hsame (congrArg Worker.interpreter hworker) hclean rfl
  | keys w => exact hsame rfl hclean rfl
  | @handled c rest now _ _ =>
      cases c with
      | start | pause => exact hsame rfl hclean rfl
      | load | shutdown =>
          have hentry := honly _ (.head _)
          cases hentry
  | batched now arrivals _ _ _ =>
      rw [painted_record] at hnot
      cases hended : (e.worker.batch now arrivals).ending? with
      | none =>
          have hflushed := Worker.batch_flushed hended
          have hold : ¬ (Painted (e.worker.batch now arrivals).entries ∨
              e.worker.interpreter.frameDirty = true) := by
            rintro (hp | hd)
            · exact hnot hp
            · rw [hclean] at hd
              cases hd
          exact hsame rfl hflushed.frameDirty_eq (hflushed.pictures_of_old hold).2
      | some ending =>
          have hunseen := e.worker.batch_unseen now arrivals (by simp [hended])
          exact hsame rfl (hunseen.stays_clean hnot hclean) (hunseen.screen_eq hnot)
  | closed => exact hsame rfl hclean rfl

theorem Current.runAll {e : Engine} {done : List Entry} (hdone : Current e.worker.interpreter done)
    (later : List Happening) (honly : ∀ entry ∈ (e.runAll later).2, entry.onlyTiming = true) :
    Current (e.runAll later).1.worker.interpreter (done ++ (e.runAll later).2) := by
  refine runAll_induction (I := fun e' more => (∀ entry ∈ more, entry.onlyTiming = true) →
    Current e'.worker.interpreter (done ++ more)) ?_ ?_ later honly
  · intro _
    rw [List.append_nil]
    exact hdone
  · intro e' more h hmore honly'
    have hbefore : ∀ entry ∈ more, entry.onlyTiming = true :=
      fun entry hentry => honly' entry (List.mem_append_left _ hentry)
    have hafter := (hmore hbefore).after h
      fun entry hentry => honly' entry (List.mem_append_right _ hentry)
    rw [List.append_assoc] at hafter
    exact hafter

/-! ## What a turn shows -/

/-- A batch that does not end the worker ends with a flush. -/
theorem BatchDue.flushed {e : Engine} (h : e.BatchDue) {now : Nat}
    {arrivals : Nat → List Call} (hon : (e.turn now arrivals).1.ending? = none) :
    Flushed e.worker.interpreter (e.turn now arrivals).1.worker.interpreter
      (e.turn now arrivals).2 := by
  rw [h.turn] at hon ⊢
  rw [record_of_none _ hon]
  exact Worker.batch_flushed hon

/-- A load that does not end the worker shows the blank screen. -/
theorem LoadDue.shown {e : Engine} (h : e.LoadDue) {now : Nat}
    {arrivals : Nat → List Call} (hon : (e.turn now arrivals).1.ending? = none) :
    pictures (e.turn now arrivals).2 = [.blank] ∧
      (e.turn now arrivals).1.worker.interpreter.frameDirty = false ∧
      (e.turn now arrivals).1.worker.interpreter.machine.screen = .blank := by
  rcases h with ⟨hending, program, rest, hqueue⟩
  rw [turn_of_command hending hqueue] at hon ⊢
  rw [pictures_record]
  exact Stint.load_flushed hon

/-- Only one of the two is due. -/
theorem BatchDue.not_loadDue {e : Engine} (h : e.BatchDue) : ¬ e.LoadDue := by
  rintro ⟨-, program, rest, hqueue⟩
  rw [h.queue_eq] at hqueue
  cases hqueue

/-- A turn that does not end the worker shows one picture or none: a load the blank screen, and a
batch the screen if the mark was set or a step painted. After it the picture shown last is the
screen, and stays so while commands to start and to pause are handled. -/
theorem turn_shows_screen (c : Config) (g : Generator) (start : Nat) (happenings : List Happening)
    (now : Nat) (arrivals : Nat → List Call) :
    let run := (ofConfig c g start).runAll happenings
    let next := run.1.turn now arrivals
    run.1.BatchDue ∨ run.1.LoadDue → next.1.ending? = none →
      (pictures next.2).length ≤ 1 ∧
      (run.1.LoadDue → pictures next.2 = [.blank]) ∧
      (run.1.BatchDue → ((pictures next.2).length = 1 ↔
        run.1.worker.interpreter.frameDirty = true ∨ Painted next.2)) ∧
      ∀ later, (∀ entry ∈ (next.1.runAll later).2, entry.onlyTiming = true) →
        Current (next.1.runAll later).1.worker.interpreter
          (run.2 ++ next.2 ++ (next.1.runAll later).2) := by
  intro run next hdue hon
  have htracked : Tracked run.1 run.2 := runAll_tracked c g start happenings
  rcases hdue with hbatch | hload
  · have hflushed := hbatch.flushed hon
    have hcurrent := hflushed.current htracked.clean
    exact ⟨hflushed.length_le_one, fun hload => absurd hload hbatch.not_loadDue,
      fun _ => hflushed.length_eq_one_iff, fun later => hcurrent.runAll later⟩
  · rcases hload.shown hon with ⟨hpictures, hdirty, hscreen⟩
    have hone : (pictures next.2).length = 1 := by
      rw [hpictures]
      rfl
    have hcurrent : Current next.1.worker.interpreter (run.2 ++ next.2) := by
      refine ⟨?_, hdirty⟩
      rw [lastPicture?_append, lastPicture?, hpictures, hscreen]
      rfl
    exact ⟨Nat.le_of_eq hone, fun _ => hpictures,
      fun hbatch => absurd hload hbatch.not_loadDue, fun later => hcurrent.runAll later⟩

/-- The first batch draws a sprite; after it the engine is paused and started again. -/
theorem turn_shows_screen_sprite :
    let quiet : Nat → List Call := fun _ => []
    let run := (ofConfig {} (.ofSeed 7) 0).runAll
      [.call (.send (.load [0xD0, 0x05])), .turn 0 quiet, .call (.send .start), .turn 1 quiet]
    let next := run.1.turn 1 quiet
    let later := next.1.runAll
      [.call (.send .pause), .turn 2 quiet, .call (.send .start), .turn 3 quiet]
    (run.1.BatchDue ∧ next.1.ending? = none ∧
      later.2 = [.handled .pause, .handled .start]) ∧
      (pictures next.2).length = 1 ∧
      Current later.1.worker.interpreter (run.2 ++ next.2 ++ later.2) := by
  intro quiet run next later
  have hdue : run.1.BatchDue := ⟨rfl, rfl, rfl, rfl⟩
  have hends : next.1.ending? = none ∧ .stepped (some (.draw 0 0 5)) ∈ next.2 ∧
      later.2 = [.handled .pause, .handled .start] := by
    decide +kernel
  rcases hends with ⟨hon, hdrawn, hlater⟩
  have honly : ∀ entry ∈ later.2, entry.onlyTiming = true := by
    rw [hlater]
    decide
  rcases turn_shows_screen {} (.ofSeed 7) 0 _ 1 quiet (.inl hdue) hon with
    ⟨-, -, hbatch, hcurrent⟩
  exact ⟨⟨hdue, hon, hlater⟩, (hbatch hdue).2 (.inr ⟨_, hdrawn, rfl⟩), hcurrent _ honly⟩

/-! ## What a fault leaves unseen -/

/-- A batch that a fault ends makes its steps up to the fault and shows nothing. The picture shown
last is the screen as it was when the batch began, which is the screen at the halt iff one was shown
before and the steps left the screen as it was. -/
theorem faulting_batch_shows_nothing (c : Config) (g : Generator) (start : Nat)
    (happenings : List Happening) (now : Nat) (arrivals : Nat → List Call) (f : Fault) :
    let run := (ofConfig c g start).runAll happenings
    let next := run.1.turn now arrivals
    let before := run.1.worker.interpreter
    let after := next.1.worker.interpreter
    run.1.BatchDue → next.1.ending? = some (.fault f) →
      (∃ performed : List (Option Instruction),
        next.2 = performed.map .stepped ++ [.raised f, .halted, .sent (.fault f)]) ∧
      lastPicture? (run.2 ++ next.2) =
        (if before.frameDirty then none else some before.machine.screen) ∧
      (lastPicture? (run.2 ++ next.2) = some after.machine.screen ↔
        before.frameDirty = false ∧ after.machine.screen = before.machine.screen) ∧
      (¬ Painted next.2 → after.machine.screen = before.machine.screen) := by
  intro run next before after hdue hended
  have htracked : Tracked run.1 run.2 := runAll_tracked c g start happenings
  have hnext : next = (run.1.receive (run.1.worker.batch now arrivals).calls).record
      (run.1.worker.batch now arrivals) := hdue.turn now arrivals
  rw [hnext] at hended
  have hfault : (run.1.worker.batch now arrivals).ending? = some (.fault f) := hended
  have hunseen := run.1.worker.batch_unseen now arrivals (by simp [hfault])
  have hnil : pictures next.2 = [] := by
    rw [hnext, pictures_record]
    exact hunseen.pictures_eq
  have hlast : lastPicture? (run.2 ++ next.2) =
      if before.frameDirty then none else some before.machine.screen := by
    rw [lastPicture?_append_of_nil hnil]
    cases hdirty : before.frameDirty with
    | true => exact htracked.missing hdue.ending?_eq hdirty
    | false => exact htracked.clean hdirty
  refine ⟨?_, hlast, ?_, ?_⟩
  · rcases Worker.batch_entries_of_fault hfault with ⟨performed, hentries⟩
    refine ⟨performed, ?_⟩
    rw [hnext]
    show (run.1.worker.batch now arrivals).entries ++
      ((run.1.worker.batch now arrivals).ending?.map farewell).getD [] = _
    rw [hentries, hfault, List.append_assoc]
    rfl
  · rw [hlast]
    cases before.frameDirty with
    | true => simp
    | false => simp [eq_comm]
  · rw [hnext, painted_record]
    intro hnot
    have hscreen := hunseen.screen_eq hnot
    show next.1.worker.interpreter.machine.screen = _
    rw [hnext]
    exact hscreen

/-- A sprite that an earlier batch has shown is still to be seen when the next step is refused. -/
theorem faulting_batch_shows_nothing_after_sprite :
    let quiet : Nat → List Call := fun _ => []
    let run := (ofConfig {} (.ofSeed 7) 0).runAll
      [.call (.send (.load [0xD0, 0x05])), .turn 0 quiet, .call (.send .start), .turn 0 quiet,
        .turn 0 quiet]
    let next := run.1.turn 2000000 quiet
    (run.1.BatchDue ∧ next.1.ending? = some (.fault (.unknownOpcode 0 0x202))) ∧
      lastPicture? (run.2 ++ next.2) = some next.1.worker.interpreter.machine.screen := by
  intro quiet run next
  have hruns : (run.1.ending? = none ∧ run.1.queue = [] ∧ run.1.connected = true ∧
      run.1.worker.running = true) ∧ run.1.worker.interpreter.frameDirty = false ∧
      next.1.ending? = some (.fault (.unknownOpcode 0 0x202)) ∧
      next.2 = [.raised (.unknownOpcode 0 0x202), .halted,
        .sent (.fault (.unknownOpcode 0 0x202))] := by
    decide +kernel
  rcases hruns with ⟨⟨hgoes, hqueue, hconnected, hrunning⟩, hclean, hended, hentries⟩
  have hdue : run.1.BatchDue := ⟨hgoes, hqueue, hconnected, hrunning⟩
  have hnot : ¬ Painted next.2 := by
    rw [hentries]
    rintro ⟨i, hi, -⟩
    simp at hi
  rcases faulting_batch_shows_nothing {} (.ofSeed 7) 0 _ 2000000 quiet _ hdue hended with
    ⟨-, -, hlast, hscreen⟩
  exact ⟨⟨hdue, hended⟩, hlast.2 ⟨hclean, hscreen hnot⟩⟩

/-- A pixel lit by the batch that the fault ends is never shown. -/
theorem faulting_batch_hides_pixel :
    let quiet : Nat → List Call := fun _ => []
    let run := (ofConfig { instructionRate := 1000000000 } (.ofSeed 3) 0).runAll
      [.call (.send (.load [0xA0, 0x05, 0xD0, 0x01, 0x00, 0x00])), .turn 0 quiet,
        .call (.send .start), .turn 0 quiet]
    let next := run.1.turn 2 quiet
    next.2 = [.stepped (some (.setIndex 5)), .stepped (some (.draw 0 0 1)),
        .raised (.unknownOpcode 0 0x204), .halted, .sent (.fault (.unknownOpcode 0 0x204))] ∧
      lastPicture? (run.2 ++ next.2) ≠ some next.1.worker.interpreter.machine.screen := by
  intro quiet run next
  have hruns : next.2 = [.stepped (some (.setIndex 5)), .stepped (some (.draw 0 0 1)),
        .raised (.unknownOpcode 0 0x204), .halted, .sent (.fault (.unknownOpcode 0 0x204))] ∧
      (lastPicture? (run.2 ++ next.2)).map (fun frame => frame.lit 2) = some false ∧
      next.1.worker.interpreter.machine.screen.lit 2 = true := by
    decide +kernel
  rcases hruns with ⟨hentries, hdark, hlit⟩
  refine ⟨hentries, fun hlast => ?_⟩
  rw [hlast, Option.map_some, hlit] at hdark
  cases hdark

end Engine
end Chip8
