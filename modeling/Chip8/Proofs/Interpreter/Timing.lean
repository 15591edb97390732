import Chip8.Proofs.Interpreter.Interleaving

/-!
# Timing — what a program can know of its timers

Take two histories that agree on their steps, resets and loads, in the same order, while the ticks
come at other moments and in other numbers.  Such histories are `Aligned`.  As long as no step reads
the delay timer, they pass through states that are `Parallel`: only the timers and the beep differ,
and the mark of a changed screen as well, if frames are taken at other moments, too.  So the steps
run the same instructions and are answered alike, and what is refused in one history is refused in
the other.

Main statement: `Aligned.agree`.
-/

namespace Chip8

/-! ## Kinds of operations -/

namespace Operation

def essential : Operation → Bool
  | step | reset | load _ => true
  | _ => false

/-- The operation moves nothing but the timers and what waits to be taken.  If marks are to be
compared, no frame is taken. -/
def aside (marked : Bool) : Operation → Bool
  | tick | takeBeep => true
  | takeFrame => !marked
  | _ => false

end Operation

namespace Interpreter

variable {Q : Periphery → Periphery → Prop} {s t u : Interpreter} {op : Operation}
  {ops ops' : List Operation} {r : Response} {marked : Bool}

/-! ## Parallel but for the timers -/

/-- The keypads are the same, and so are the marks of a changed screen, if they are to be compared.
-/
def Untimed (marked : Bool) (p q : Periphery) : Prop :=
  q.keypad = p.keypad ∧ (marked = true → q.frameDirty = p.frameDirty)

namespace Parallel

theorem refl (s : Interpreter) : Parallel (Untimed marked) s s :=
  ⟨rfl, rfl, rfl, rfl, fun _ => rfl⟩

theorem symm (h : Parallel (Untimed marked) s t) : Parallel (Untimed marked) t s where
  machine_eq := by
    rw [h.machine_eq]
    rfl
  runState_eq := h.runState_eq.symm
  generator_eq := h.generator_eq.symm
  related := ⟨h.related.1.symm, fun hmarked => (h.related.2 hmarked).symm⟩

theorem trans (h : Parallel (Untimed marked) s t) (hmore : Parallel (Untimed marked) t u) :
    Parallel (Untimed marked) s u where
  machine_eq := by
    rw [hmore.machine_eq, h.machine_eq]
    rfl
  runState_eq := hmore.runState_eq.trans h.runState_eq
  generator_eq := hmore.generator_eq.trans h.generator_eq
  related := ⟨hmore.related.1.trans h.related.1,
    fun hmarked => (hmore.related.2 hmarked).trans (h.related.2 hmarked)⟩

theorem eq_of_untimed (h : Parallel (Untimed marked) s t) :
    t = { s with
      machine := { s.machine with timers := t.machine.timers }
      frameDirty := t.frameDirty
      beepPending := t.beepPending } := by
  have hkeypad : t.machine.keypad = s.machine.keypad := h.related.1
  have heq := h.eq_withPeriphery
  rw [withPeriphery, periphery, hkeypad] at heq
  exact heq

end Parallel

/-- An instruction that does not read the delay timer runs alike on both sides. -/
theorem foresees_untimed (h : ∀ i, s.current? = some i → i.readsDelay = false) :
    Foresees (Untimed marked) s where
  allows := by
    intro i hi
    refine ⟨?_, fun hreads => ?_, ?_, ?_, ?_⟩
    · exact fun p q hpq => ⟨hpq.1, fun _ => rfl⟩
    · rw [h i hi] at hreads
      cases hreads
    · exact fun _ p q hpq => hpq.1
    · exact fun _ p q v hpq => hpq
    · exact fun _ p q v hpq => hpq
  keypad_eq := fun x _ p q hpq => hpq.1

/-! ## Single operations -/

/-- What moves only the timers and what waits leads to a parallel state. -/
theorem apply_aside (h : op.aside marked = true) (s : Interpreter) :
    ∃ r next, s.apply op = .ok (r, next) ∧ r.fault? = none ∧
      Parallel (Untimed marked) s next := by
  cases op with
  | tick => exact ⟨_, _, rfl, rfl, rfl, rfl, rfl, rfl, fun _ => rfl⟩
  | takeBeep => exact ⟨_, _, rfl, rfl, rfl, rfl, rfl, rfl, fun _ => rfl⟩
  | takeFrame =>
      refine ⟨_, _, rfl, rfl, rfl, rfl, rfl, rfl, fun hmarked => ?_⟩
      rw [hmarked] at h
      cases h
  | step | execute | executeMany | load | reset | writeKeypad => cases h

theorem ne_step_of_aside (h : op.aside marked = true) : op ≠ .step := by
  rintro rfl
  cases h

/-- A reset leaves nothing to differ but the generator. -/
theorem Parallel.reset (h : Parallel Q s t) : t.reset = s.reset := by
  rw [reset_eq_start, reset_eq_start, h.generator_eq]

/-- A load is granted or refused alike. -/
theorem Parallel.load (h : Parallel Q s t) (program : List UInt8) :
    (t.load program).fault? = (s.load program).fault? ∧
      Parallel Q (s.load program).next (t.load program).next := by
  have hload := Machine.load_withDevices s.machine program t.machine.timers t.machine.keypad
  rw [← h.machine_eq] at hload
  simp only [Interpreter.load, hload]
  cases hn : s.machine.load program with
  | error f => exact ⟨rfl, h⟩
  | ok n => exact ⟨rfl, h.replace (Machine.keeps_of_load hn)⟩

/-- A step that does not read the delay timer, a reset and a load go the same way from parallel
states. -/
theorem Parallel.apply_essential (hop : op.essential = true)
    (hst : Parallel (Untimed marked) s t)
    (hfree : op = .step → ∀ i, s.current? = some i → i.readsDelay = false) :
    Agree (fun a b => b.1 = a.1 ∧ Parallel (Untimed marked) a.2 b.2) (s.apply op) (t.apply op) := by
  cases op with
  | step => exact hst.apply_step (foresees_untimed (hfree rfl))
  | reset =>
      refine .ok ⟨rfl, ?_⟩
      show Parallel (Untimed marked) s.reset t.reset
      rw [hst.reset]
      exact .refl _
  | load program =>
      rcases hst.load program with ⟨hfault, hnext⟩
      refine .ok ⟨?_, hnext⟩
      show (t.load program).response = (s.load program).response
      rw [Outcome.response, hfault, Outcome.response]
  | execute | executeMany | tick | takeFrame | takeBeep | writeKeypad => cases hop

/-! ## Histories -/

/-- Two histories with the same steps, resets and loads, in the same order.  Between them each has
whatever it likes of the operations that stand aside. -/
inductive Aligned (marked : Bool) : List Operation → List Operation → Prop where
  | nil : Aligned marked [] []
  | left {op : Operation} {ops ops' : List Operation} : op.aside marked = true →
      Aligned marked ops ops' → Aligned marked (op :: ops) ops'
  | right {op : Operation} {ops ops' : List Operation} : op.aside marked = true →
      Aligned marked ops ops' → Aligned marked ops (op :: ops')
  | both {op : Operation} {ops ops' : List Operation} : op.essential = true →
      Aligned marked ops ops' → Aligned marked (op :: ops) (op :: ops')

/-- What stands aside is not essential. -/
theorem filter_essential_cons_of_aside (h : op.aside marked = true) (ops : List Operation) :
    (op :: ops).filter Operation.essential = ops.filter Operation.essential := by
  refine List.filter_cons_of_neg ?_
  cases op with
  | tick | takeBeep | takeFrame => exact Bool.false_ne_true
  | step | execute | executeMany | load | reset | writeKeypad => cases h

/-- Histories of such operations are aligned if what is essential in them is the same. -/
theorem aligned_of_filter (hops : ∀ op ∈ ops, op.essential = true ∨ op.aside marked = true)
    (hops' : ∀ op ∈ ops', op.essential = true ∨ op.aside marked = true)
    (h : ops.filter Operation.essential = ops'.filter Operation.essential) :
    Aligned marked ops ops' := by
  induction ops generalizing ops' with
  | nil =>
      induction ops' with
      | nil => exact .nil
      | cons op' rest' ih' =>
          rcases hops' op' (.head _) with hessential | haside
          · rw [List.filter_cons_of_pos hessential] at h
            cases h
          · rw [filter_essential_cons_of_aside haside] at h
            exact .right haside (ih' (fun op hop => hops' op (.tail _ hop)) h)
  | cons op rest ih =>
      have hrest : ∀ op ∈ rest, op.essential = true ∨ op.aside marked = true :=
        fun op hop => hops op (.tail _ hop)
      rcases hops op (.head _) with hessential | haside
      · rw [List.filter_cons_of_pos hessential] at h
        -- the other history has the same operation after what it has of the others
        induction ops' with
        | nil => cases h
        | cons op' rest' ih' =>
            have hrest' : ∀ op ∈ rest', op.essential = true ∨ op.aside marked = true :=
              fun op hop => hops' op (.tail _ hop)
            rcases hops' op' (.head _) with hessential' | haside'
            · rw [List.filter_cons_of_pos hessential'] at h
              rcases List.cons.inj h with ⟨rfl, hlater⟩
              exact .both hessential (ih hrest hrest' hlater)
            · rw [filter_essential_cons_of_aside haside'] at h
              exact .right haside' (ih' hrest' h)
      · rw [filter_essential_cons_of_aside haside] at h
        exact .left haside (ih hrest hops' h)

/-- What is essential in a history of steps and ticks are its steps. -/
theorem filter_essential_of_ticks (hops : ∀ op ∈ ops, op = .step ∨ op = .tick) :
    ops.filter Operation.essential = List.replicate (ops.count .step) .step := by
  rw [← List.filter_beq]
  refine List.filter_congr fun op hop => ?_
  rcases hops op hop with rfl | rfl <;> rfl

/-- Histories of equally many steps are aligned, wherever their ticks are. -/
theorem aligned_of_ticks (hops : ∀ op ∈ ops, op = .step ∨ op = .tick)
    (hops' : ∀ op ∈ ops', op = .step ∨ op = .tick) (h : ops.count .step = ops'.count .step) :
    Aligned marked ops ops' := by
  have hkinds {ops : List Operation} (hops : ∀ op ∈ ops, op = .step ∨ op = .tick) :
      ∀ op ∈ ops, op.essential = true ∨ op.aside marked = true := by
    intro op hop
    rcases hops op hop with rfl | rfl
    · exact .inl rfl
    · exact .inr rfl
  refine aligned_of_filter (hkinds hops) (hkinds hops') ?_
  rw [filter_essential_of_ticks hops, filter_essential_of_ticks hops', h]

/-- What two aligned histories have in common when both have come to their end. -/
structure Matching (marked : Bool) (ops ops' : List Operation)
    (a b : List Response × Interpreter) : Prop where
  answersTo_eq : answersTo .step ops' b.1 = answersTo .step ops a.1
  refusals_eq : refusals b.1 = refusals a.1
  parallel : Parallel (Untimed marked) a.2 b.2

namespace Matching

variable {a b : List Response × Interpreter}

/-- What one side does besides has no answer to compare. -/
theorem left (h : Matching marked ops ops' a b) (hop : op ≠ .step) (hr : r.fault? = none) :
    Matching marked (op :: ops) ops' (r :: a.1, a.2) b where
  answersTo_eq := by simpa [hop] using h.answersTo_eq
  refusals_eq := by simpa [hr] using h.refusals_eq
  parallel := h.parallel

theorem right (h : Matching marked ops ops' a b) (hop : op ≠ .step) (hr : r.fault? = none) :
    Matching marked ops (op :: ops') a (r :: b.1, b.2) where
  answersTo_eq := by simpa [hop] using h.answersTo_eq
  refusals_eq := by simpa [hr] using h.refusals_eq
  parallel := h.parallel

theorem both (h : Matching marked ops ops' a b) (op : Operation) (r : Response) :
    Matching marked (op :: ops) (op :: ops') (r :: a.1, a.2) (r :: b.1, b.2) where
  answersTo_eq := by
    by_cases hop : op = .step
    · simp [hop, h.answersTo_eq]
    · simp [hop, h.answersTo_eq]
  refusals_eq := by simp [h.refusals_eq]
  parallel := h.parallel

end Matching

/-- Aligned histories from parallel states run the same instructions, are answered alike and end in
parallel states, if the first of them never reads the delay timer. -/
theorem Aligned.agree (h : Aligned marked ops ops') (hst : Parallel (Untimed marked) s t)
    (hfree : ∀ i ∈ s.fetched ops, i.readsDelay = false) :
    t.fetched ops' = s.fetched ops ∧
      Agree (Matching marked ops ops') (s.applyAll ops) (t.applyAll ops') := by
  induction h generalizing s t with
  | nil => exact ⟨rfl, .ok ⟨rfl, rfl, hst⟩⟩
  -- an operation of one side that stands aside leads to a state that is still parallel to the other
  | left haside _ ih =>
      rcases apply_aside haside s with ⟨r, next, happly, hr, hnext⟩
      have hne := ne_step_of_aside haside
      rw [fetched_cons_of_ne hne happly] at hfree ⊢
      rcases ih (hnext.symm.trans hst) hfree with ⟨hfetched, hagree⟩
      refine ⟨hfetched, ?_⟩
      rw [applyAll_cons_ok happly]
      exact hagree.mapLeft fun a b hab => hab.left hne hr
  | right haside _ ih =>
      rcases apply_aside haside t with ⟨r, next, happly, hr, hnext⟩
      have hne := ne_step_of_aside haside
      rw [fetched_cons_of_ne hne happly]
      rcases ih (hst.trans hnext) hfree with ⟨hfetched, hagree⟩
      refine ⟨hfetched, ?_⟩
      rw [applyAll_cons_ok happly]
      exact hagree.mapRight fun a b hab => hab.right hne hr
  | @both op ops ops' hessential _ ih =>
      -- only a step can tell the timers, and this one does not read them
      have hfirst : op = .step → ∀ i, s.current? = some i → i.readsDelay = false := by
        rintro rfl i hi
        exact hfree i (mem_fetched_step hi _)
      rcases (hst.apply_essential hessential hfirst).elim with
        ⟨b, happly, hother⟩ | ⟨a, b, happly, hother, hanswer, hnext⟩
      · rw [fetched_cons_error happly, fetched_cons_error hother, hst.current?_eq,
          applyAll_cons_error happly, applyAll_cons_error hother]
        exact ⟨rfl, .error b⟩
      · rcases ih hnext fun i hi => hfree i (mem_fetched_of_next happly hi) with
          ⟨hfetched, hagree⟩
        rw [fetched_cons_ok happly, fetched_cons_ok hother, hst.current?_eq, hfetched,
          applyAll_cons_ok happly, applyAll_cons_ok hother, hanswer]
        exact ⟨rfl, hagree.map fun _ _ h => h.both op a.1⟩

end Interpreter
end Chip8
