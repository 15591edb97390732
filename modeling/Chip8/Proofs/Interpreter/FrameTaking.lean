import Chip8.Proofs.Interpreter.History

/-!
# FrameTaking — no change of the screen is missed

Whoever looks at the screen only through `takeFrame` sees every picture that is left standing.  The
mark `frameDirty` is tied to the history by an invariant in two parts: it is set iff the screen was
painted since the frame was taken last, and while it is not set, the frame that was handed out last
is the screen.  A look at the screen as it stands reads a field and is no operation.

Main statement: `takeFrame_history`.
-/

namespace Chip8

/-! ## Frames among answers -/

def Response.frame? : Response → Option Frame
  | .frame frame? => frame?
  | _ => none

/-- The frame that was handed out last. -/
def Response.lastFrame? (rs : List Response) : Option Frame :=
  (rs.filterMap Response.frame?).getLast?

/-- A later frame replaces the ones before it. -/
@[simp]
theorem Response.lastFrame?_concat (rs : List Response) (r : Response) :
    lastFrame? (rs ++ [r]) = r.frame?.or (lastFrame? rs) := by
  unfold lastFrame?
  cases hr : r.frame? with
  | none => simp [List.filterMap_append, hr]
  | some frame => simp [List.filterMap_append, hr]

/-- No outcome of a run hands out a frame. -/
@[simp]
theorem Outcome.frame?_response (o : Outcome) : o.response.frame? = none := by
  unfold response
  cases o.fault? with
  | none => rfl
  | some f => rfl

namespace Interpreter

variable {s t : Interpreter} {op : Operation} {r : Response}

/-! ## Painting -/

/-- The operation is a reset or carries out an instruction that paints, even if no pixel changes. -/
def Paints (s : Interpreter) (op : Operation) : Prop :=
  op = .reset ∨ ∃ i ∈ s.carriedOut op, i.paints = true

/-- In a history that begins at `s`, no frame has been taken yet, or the screen was painted after
the last taking. -/
def PaintedSince (s : Interpreter) (ops : List Operation) : Prop :=
  .takeFrame ∉ ops ∨ ∃ before op later rs u, ops = before ++ op :: later ∧ .takeFrame ∉ later ∧
    s.applyAll before = .ok (rs, u) ∧ u.Paints op

/-- The mark is set by instructions that paint, and stays set. -/
theorem frameDirty_effects (s : Interpreter) (program : List Instruction) :
    (s.effects program).frameDirty = true ↔
      (∃ i ∈ program, i.paints = true) ∨ s.frameDirty = true := by
  induction program generalizing s with
  | nil => simp [effects]
  | cons i rest ih =>
      simp only [effects_cons, ih, frameDirty_effect, Bool.or_eq_true, List.mem_cons,
        exists_eq_or_imp]
      rw [← or_assoc, or_comm (a := ∃ j ∈ rest, j.paints = true)]

/-- Nothing but painting changes the screen. -/
theorem screenAfter_eq {i : Instruction} (m : Machine) (h : i.paints = false) :
    m.screenAfter i = m.screen := by
  cases i with
  | clearScreen | draw => cases h
  | _ => rfl

/-- Without painting the screen stays as it was. -/
theorem screen_effects {program : List Instruction} (h : ∀ i ∈ program, i.paints = false) :
    (s.effects program).machine.screen = s.machine.screen := by
  induction program generalizing s with
  | nil => rfl
  | cons i rest ih =>
      have hrest : ∀ j ∈ rest, j.paints = false := fun j hj => h j (.tail _ hj)
      calc
        (s.effects (i :: rest)).machine.screen = (s.effect i).machine.screen := ih hrest
        _ = s.machine.screen := screenAfter_eq s.machine (h i (.head _))

/-! ## One operation -/

/-- Only a reset paints without running anything. -/
theorem not_paints_of_not_executes (hop : op.executes = false) (hreset : op ≠ .reset) :
    ¬ s.Paints op := by
  rintro (h | ⟨i, hi, -⟩)
  · exact hreset h
  · cases op with
    | step | execute | executeMany => cases hop
    | _ => cases hi

/-- Every operation but a taking adds its own painting to the mark, and leaves the screen alone
unless it paints. -/
theorem apply_paints (h : s.apply op = .ok (r, t)) (hop : op ≠ .takeFrame) :
    (t.frameDirty = true ↔ s.Paints op ∨ s.frameDirty = true) ∧
      (¬ s.Paints op → t.machine.screen = s.machine.screen) ∧ r.frame? = none := by
  -- operations that touch neither the mark nor the screen
  have hsame (hquiet : ¬ s.Paints op) (hdirty : t.frameDirty = s.frameDirty)
      (hscreen : t.machine.screen = s.machine.screen) (hr : r.frame? = none) :
      (t.frameDirty = true ↔ s.Paints op ∨ s.frameDirty = true) ∧
        (¬ s.Paints op → t.machine.screen = s.machine.screen) ∧ r.frame? = none := by
    rw [hdirty]
    exact ⟨⟨.inr, fun h => h.resolve_left hquiet⟩, fun _ => hscreen, hr⟩
  have hquiet (hne : op ≠ .reset) (hexec : op.executes = false) : ¬ s.Paints op :=
    not_paints_of_not_executes hexec hne
  cases apply_outcome h with
  | ran o runState hexec hnext =>
      have hne : op ≠ .reset := by
        rintro rfl
        cases hexec
      have hpaints : s.Paints op ↔ ∃ i ∈ s.carriedOut op, i.paints = true :=
        or_iff_right hne
      refine ⟨?_, ?_, o.frame?_response⟩
      · rw [hnext, hpaints]
        exact frameDirty_effects s _
      · intro hnone
        rw [hnext]
        refine screen_effects fun i hi => ?_
        rw [← Bool.not_eq_true]
        exact fun hi' => hnone (hpaints.2 ⟨i, hi, hi'⟩)
  | @polled x _ hnil =>
      have hnone : ¬ s.Paints .step := by
        rintro (h | ⟨i, hi, -⟩)
        · cases h
        · rw [hnil] at hi
          cases hi
      rcases s.polled_keeps x with ⟨registers, pc, runState, hpolled⟩
      refine hsame hnone ?_ ?_ rfl
      · rw [hpolled]
      · rw [hpolled]
  | load program o memory hnext =>
      refine hsame (hquiet (by simp) rfl) ?_ ?_ o.frame?_response
      · rw [hnext]
      · rw [hnext]
  | reset =>
      refine ⟨⟨fun _ => .inl (.inl rfl), fun _ => rfl⟩, ?_, rfl⟩
      intro hnone
      exact absurd (.inl rfl) hnone
  | takeFrame => exact absurd rfl hop
  | tick | takeBeep | writeKeypad => exact hsame (hquiet (by simp) rfl) rfl rfl rfl

/-! ## Histories -/

/-- Painting since the last taking, one operation later. -/
theorem paintedSince_concat {ops : List Operation} {rs : List Response} {u : Interpreter}
    (h : s.applyAll ops = .ok (rs, u)) (hop : op ≠ .takeFrame) :
    s.PaintedSince (ops ++ [op]) ↔ u.Paints op ∨ s.PaintedSince ops := by
  have hconcat {ops : List Operation} (hnone : .takeFrame ∉ ops) : .takeFrame ∉ ops ++ [op] := by
    intro hmem
    rcases List.mem_append.1 hmem with hmem | hmem
    · exact hnone hmem
    · exact hop (List.mem_singleton.1 hmem).symm
  constructor
  · rintro (hnone | ⟨before, q, later, rs', v, hsplit, hlater, hbefore, hpaints⟩)
    · exact .inr (.inl fun hmem => hnone (List.mem_append_left _ hmem))
    -- the painting is the last operation, or lies before it
    · rcases place_in_concat hsplit with ⟨rfl, rfl, -⟩ | ⟨rest, rfl, rfl⟩
      · rw [h] at hbefore
        cases hbefore
        exact .inl hpaints
      · have hrest : Operation.takeFrame ∉ rest :=
          fun hmem => hlater (List.mem_append_left _ hmem)
        exact .inr (.inr ⟨before, q, rest, rs', v, rfl, hrest, hbefore, hpaints⟩)
  · rintro (hpaints | hnone | ⟨before, q, later, rs', v, rfl, hlater, hbefore, hpaints⟩)
    · exact .inr ⟨ops, op, [], rs, u, rfl, List.not_mem_nil, h, hpaints⟩
    · exact .inl (hconcat hnone)
    · exact .inr ⟨before, q, later ++ [op], rs', v, by simp, hconcat hlater, hbefore, hpaints⟩

/-- Taking a frame is not painting. -/
theorem not_paintedSince_taken (s : Interpreter) (ops : List Operation) :
    ¬ s.PaintedSince (ops ++ [.takeFrame]) := by
  rintro (hnone | ⟨before, q, later, rs, u, hsplit, hlater, -, hpaints⟩)
  · exact hnone (List.mem_append_right _ (.head _))
  · rcases place_in_concat hsplit with ⟨-, rfl, -⟩ | ⟨rest, rfl, -⟩
    · exact not_paints_of_not_executes rfl (by simp) hpaints
    · exact hlater (List.mem_append_right _ (.head _))

/-- The mark tells whether the screen was painted since the frame was taken last, and without it the
frame that was handed out last is the screen. -/
theorem frameDirty_history (g : Generator) {ops : List Operation} {rs : List Response}
    (h : (start g).applyAll ops = .ok (rs, s)) :
    (s.frameDirty = true ↔ (start g).PaintedSince ops) ∧
      (s.frameDirty = false → Response.lastFrame? rs = some s.machine.screen) := by
  refine applyAll_induction (I := fun ops rs s =>
    (s.frameDirty = true ↔ (start g).PaintedSince ops) ∧
      (s.frameDirty = false → Response.lastFrame? rs = some s.machine.screen)) ?_ ?_ h
  · -- the mark is set from the start, where nothing has been taken
    refine ⟨⟨fun _ => .inl List.not_mem_nil, fun _ => rfl⟩, ?_⟩
    intro hclean
    cases hclean
  · rintro ops rs u op r t hops ⟨hmark, hlast⟩ happly
    by_cases hop : op = .takeFrame
    -- a taking clears the mark, and what it hands out, or else the frame before, is the screen
    · subst hop
      cases happly
      refine ⟨⟨fun hdirty => Bool.noConfusion hdirty,
        fun hpainted => absurd hpainted (not_paintedSince_taken _ _)⟩, fun _ => ?_⟩
      rw [Response.lastFrame?_concat]
      cases hdirty : u.frameDirty with
      | true =>
          simp only [Response.frame?, frame?, hdirty]
          rfl
      | false =>
          simp only [Response.frame?, frame?, hdirty]
          exact hlast hdirty
    · have hpaints := apply_paints happly hop
      refine ⟨?_, ?_⟩
      · rw [hpaints.1, hmark, paintedSince_concat hops hop]
      -- no mark after the operation: it was not set before, and the operation left the screen alone
      · intro hclean
        have hneither : ¬ (u.Paints op ∨ u.frameDirty = true) := by
          rw [← hpaints.1, hclean]
          exact Bool.false_ne_true
        have hquiet : ¬ u.Paints op := fun h => hneither (.inl h)
        have hbefore : u.frameDirty = false :=
          Bool.eq_false_iff.2 fun h => hneither (.inr h)
        rw [Response.lastFrame?_concat, hpaints.2.2, Option.none_or, hpaints.2.1 hquiet]
        exact hlast hbefore

/-- At any moment of any history, taking a frame gives one iff the interpreter was created, was
reset or carried out an instruction that paints since the last taking. A frame that is given is the
screen, and if none is given, the one that was given last still is. -/
theorem takeFrame_history (g : Generator) (ops : List Operation) (rs : List Response)
    (s : Interpreter) (h : (start g).applyAll ops = .ok (rs, s)) :
    ∃ frame?, s.apply .takeFrame = .ok (.frame frame?, s.frameTaken) ∧
      (∀ frame, frame? = some frame → frame = s.machine.screen) ∧
      (frame? = none → Response.lastFrame? rs = some s.machine.screen) ∧
      (frame?.isSome = true ↔ (start g).PaintedSince ops) := by
  have hhistory := frameDirty_history g h
  refine ⟨s.frame?, rfl, ?_⟩
  rw [← hhistory.1]
  unfold frame?
  cases hdirty : s.frameDirty with
  | true =>
      refine ⟨?_, ?_, Iff.rfl⟩
      · intro frame hframe
        cases hframe
        rfl
      · intro hnone
        cases hnone
  | false =>
      refine ⟨?_, fun _ => hhistory.2 hdirty, Iff.rfl⟩
      intro frame hframe
      cases hframe

/-- A sprite without rows counts as painting, and a timer tick does not. -/
theorem takeFrame_history_empty_sprite :
    let s := start (.ofSeed 0)
    let drawn : List Operation := [.takeFrame, .execute (.draw 0 0 0)]
    let ticked : List Operation := [.takeFrame, .execute (.draw 0 0 0), .takeFrame, .tick]
    (∃ rs t, s.applyAll drawn = .ok (rs, t) ∧ s.PaintedSince drawn ∧
      t.apply .takeFrame = .ok (.frame (some t.machine.screen), t.frameTaken)) ∧
      ∃ rs t, s.applyAll ticked = .ok (rs, t) ∧ ¬ s.PaintedSince ticked ∧
        t.apply .takeFrame = .ok (.frame none, t.frameTaken) ∧
        Response.lastFrame? rs = some t.machine.screen := by
  intro s drawn ticked
  have hdrawn : ∃ rs t, s.applyAll drawn = .ok (rs, t) ∧
      t.apply .takeFrame = .ok (.frame (some t.machine.screen), t.frameTaken) := ⟨_, _, rfl, rfl⟩
  have hticked : ∃ rs t, s.applyAll ticked = .ok (rs, t) ∧
      t.apply .takeFrame = .ok (.frame none, t.frameTaken) := ⟨_, _, rfl, rfl⟩
  refine ⟨?_, ?_⟩
  · rcases hdrawn with ⟨rs, t, hall, hsome⟩
    rcases takeFrame_history (.ofSeed 0) drawn rs t hall with ⟨frame?, htaken, -, -, hpainted⟩
    rw [hsome] at htaken
    cases htaken
    exact ⟨rs, t, hall, hpainted.1 rfl, hsome⟩
  · rcases hticked with ⟨rs, t, hall, hnone⟩
    rcases takeFrame_history (.ofSeed 0) ticked rs t hall with ⟨frame?, htaken, -, hlast, hpainted⟩
    rw [hnone] at htaken
    cases htaken
    exact ⟨rs, t, hall, fun h => Bool.noConfusion (hpainted.2 h), hnone, hlast rfl⟩

end Interpreter
end Chip8
