import Chip8.Proofs.Interpreter.History
import Chip8.Proofs.Interpreter.Periphery

/-!
# Interleaving — ticks and keys between steps

A timer tick and a change of the keypad come from outside, at any moment.  If a step neither reads
nor sets a timer, it makes no difference whether the timers tick before or after it; if it does not
look at the keypad, the same holds of a change of the keypad.  For a history of steps and ticks it
follows that all ticks may be put after all steps.

In one state the two orders are the step seen from two parallel states, one of which has ticked
already. `fetched` lists the instructions that the steps of a history run, and `answersTo` picks the
answers to operations of one kind.

Main statement: `outside_commutes`.
-/

namespace Chip8

namespace Instruction

def usesTimers (i : Instruction) : Bool :=
  i.readsDelay || i.setsTimer

end Instruction

namespace Interpreter

variable {s t : Interpreter} {op : Operation} {ops more : List Operation} {r : Response}
  {rs : List Response}

/-! ## Histories of steps -/

/-- The instructions that the steps of a history run, as far as the history gets. -/
def fetched (s : Interpreter) : List Operation → List Instruction
  | [] => []
  | op :: rest =>
      (if op = .step then s.current?.toList else []) ++
        match s.apply op with
        | .ok (_, next) => next.fetched rest
        | .error _ => []

/-- A history that goes on runs what its first operation runs, and then the rest. -/
theorem fetched_cons_ok (h : s.apply op = .ok (r, t)) (ops : List Operation) :
    s.fetched (op :: ops) = (if op = .step then s.current?.toList else []) ++ t.fetched ops := by
  rw [fetched, h]

theorem fetched_cons_error {b : Breach} (h : s.apply op = .error b) (ops : List Operation) :
    s.fetched (op :: ops) = if op = .step then s.current?.toList else [] := by
  rw [fetched, h, List.append_nil]

theorem fetched_cons_of_ne (hop : op ≠ .step) (h : s.apply op = .ok (r, t)) (ops : List Operation) :
    s.fetched (op :: ops) = t.fetched ops := by
  rw [fetched_cons_ok h, if_neg hop, List.nil_append]

/-- The instruction that a step of a history runs is fetched. -/
theorem mem_fetched_step {i : Instruction} (h : s.current? = some i) (ops : List Operation) :
    i ∈ s.fetched (.step :: ops) := by
  rw [fetched, if_pos rfl, h]
  exact List.mem_append_left _ (.head _)

/-- What the rest of a history runs is run by the whole. -/
theorem mem_fetched_of_next {i : Instruction} (h : s.apply op = .ok (r, t))
    (hi : i ∈ t.fetched ops) :
    i ∈ s.fetched (op :: ops) := by
  rw [fetched_cons_ok h]
  exact List.mem_append_right _ hi

/-- The answers to those operations of a history that are of one kind. -/
def answersTo (op : Operation) (ops : List Operation) (rs : List Response) : List Response :=
  ((ops.zip rs).filter fun entry => entry.1 = op).map Prod.snd

@[simp]
theorem answersTo_cons_self (op : Operation) (ops : List Operation) (r : Response)
    (rs : List Response) : answersTo op (op :: ops) (r :: rs) = r :: answersTo op ops rs := by
  simp [answersTo]

@[simp]
theorem answersTo_cons_of_ne {first : Operation} (h : first ≠ op) (ops : List Operation)
    (r : Response) (rs : List Response) :
    answersTo op (first :: ops) (r :: rs) = answersTo op ops rs := by
  simp [answersTo, h]

/-! ## One step and one tick -/

/-- The second periphery is the first one after a tick of the given timers. -/
def Ticked (timers : Timers) (p q : Periphery) : Prop :=
  p.timers = timers ∧
    q = { p with timers := timers.tick, beepPending := p.beepPending || timers.beeps }

/-- A tick leads to a parallel state. -/
theorem parallel_ticked (s : Interpreter) : Parallel (Ticked s.machine.timers) s s.tick := by
  have hrelated : Ticked s.machine.timers s.periphery s.tick.periphery := ⟨rfl, rfl⟩
  exact .of_withPeriphery hrelated

/-- Parallel states one tick apart differ by that tick and by nothing else. -/
theorem eq_tick_of_parallel {timers : Timers} (h : Parallel (Ticked timers) s t) :
    s.machine.timers = timers ∧ t = s.tick := by
  rcases h.related with ⟨rfl, hperiphery⟩
  have heq := h.eq_withPeriphery
  rw [hperiphery] at heq
  exact ⟨rfl, heq⟩

/-- An instruction that leaves the timers alone runs alike on both sides of a tick. -/
theorem foresees_ticked (h : ∀ i, s.current? = some i → i.usesTimers = false) (timers : Timers) :
    Foresees (Ticked timers) s where
  allows := by
    intro i hi
    rcases Bool.or_eq_false_iff.1 (h i hi) with ⟨hreads, hsets⟩
    refine ⟨?_, fun h => ?_, ?_, fun h => ?_, fun h => ?_⟩
    · rintro p q ⟨htimers, rfl⟩
      exact ⟨htimers, rfl⟩
    · rw [hreads] at h
      cases h
    · rintro - p q ⟨-, rfl⟩
      rfl
    · rw [hsets] at h
      cases h
    · rw [hsets] at h
      cases h
  keypad_eq := by
    rintro x - p q ⟨-, rfl⟩
    rfl

/-- A step that does not use the timers leaves them alone, and goes after a tick as it goes before
of it. -/
theorem apply_step_tick (h : ∀ i, s.current? = some i → i.usesTimers = false) :
    s.tick.apply .step = (s.apply .step).map (fun a => (a.1, a.2.tick)) ∧
      ∀ r next, s.apply .step = .ok (r, next) → next.machine.timers = s.machine.timers := by
  have hstep := (parallel_ticked s).apply_step (foresees_ticked h _)
  generalize s.apply .step = left, s.tick.apply .step = right at hstep ⊢
  cases hstep with
  | error b => exact ⟨rfl, fun _ _ hok => nomatch hok⟩
  | @ok a b hab =>
      rcases eq_tick_of_parallel hab.2 with ⟨htimers, hnext⟩
      refine ⟨congrArg Except.ok (Prod.ext hab.1 hnext), fun r next hok => ?_⟩
      cases hok
      exact htimers

/-! ## One step and one change of the keypad -/

/-- The second periphery is the first one after a write of the keypad. -/
def Written (w : Keypad.Write) (p q : Periphery) : Prop :=
  q = { p with keypad := p.keypad.write w }

theorem parallel_written (s : Interpreter) (w : Keypad.Write) :
    Parallel (Written w) s (s.writeKeypad w) := by
  have hrelated : Written w s.periphery (s.writeKeypad w).periphery := rfl
  exact .of_withPeriphery hrelated

/-- Parallel states one write apart differ by that write and by nothing else. -/
theorem eq_writeKeypad_of_parallel {w : Keypad.Write} (h : Parallel (Written w) s t) :
    t = s.writeKeypad w := by
  have heq := h.eq_withPeriphery
  rw [h.related] at heq
  exact heq

/-- An instruction that does not look at the keypad runs alike on both sides of a write. -/
theorem foresees_written (hpark : ∀ x, s.runState ≠ .awaitingKey x)
    (h : ∀ i, s.current? = some i → i.readsKeypad = false) (w : Keypad.Write) :
    Foresees (Written w) s where
  allows := by
    intro i hi
    refine ⟨?_, ?_, fun hreads => ?_, ?_, ?_⟩
    · rintro p q rfl
      rfl
    · rintro - p q rfl
      rfl
    · rw [h i hi] at hreads
      cases hreads
    · rintro - p q v rfl
      rfl
    · rintro - p q v rfl
      rfl
  keypad_eq := fun x hx => absurd hx (hpark x)

/-- A step that does not look at the keypad goes after a change of it as it goes before. -/
theorem apply_step_writeKeypad (hpark : ∀ x, s.runState ≠ .awaitingKey x)
    (h : ∀ i, s.current? = some i → i.readsKeypad = false) (w : Keypad.Write) :
    (s.writeKeypad w).apply .step = (s.apply .step).map fun a => (a.1, a.2.writeKeypad w) := by
  have hstep := (parallel_written s w).apply_step (foresees_written hpark h w)
  generalize s.apply .step = left, (s.writeKeypad w).apply .step = right at hstep ⊢
  cases hstep with
  | error b => rfl
  | ok hab => exact congrArg Except.ok (Prod.ext hab.1 (eq_writeKeypad_of_parallel hab.2))

/-! ## Two operations in either order -/

/-- An operation that always succeeds changes places with a step that goes after it as before it. -/
theorem swap_of_apply_step {f : Interpreter → Interpreter} {answer : Interpreter → Response}
    (hop : ∀ s : Interpreter, s.apply op = .ok (answer s, f s))
    (hstep : (f s).apply .step = (s.apply .step).map fun a => (a.1, f a.2))
    (hanswer : ∀ r next, s.apply .step = .ok (r, next) → answer next = answer s) :
    s.applyAll [op, .step] = (s.applyAll [.step, op]).map fun a => (a.1.reverse, a.2) := by
  rw [applyAll_cons_ok (hop s)]
  cases happly : s.apply .step with
  | error b =>
      rw [happly] at hstep
      rw [applyAll_cons_error happly, applyAll_cons_error hstep]
      rfl
  | ok a =>
      rw [happly] at hstep
      have hlast : a.2.applyAll [op] = .ok ([answer s], f a.2) := by
        rw [applyAll_cons_ok (hop a.2), hanswer a.1 a.2 happly]
        rfl
      rw [applyAll_cons_ok happly, applyAll_cons_ok hstep, hlast]
      rfl

/-! ## All ticks after all steps -/

theorem tick_apply (s : Interpreter) : s.apply .tick = .ok (.flag s.tickBeeps, s.tick) := rfl

/-- The steps of a history. -/
def stepsOf (ops : List Operation) : List Operation :=
  List.replicate (ops.count .step) .step

def ticksOf (ops : List Operation) : List Operation :=
  List.replicate (ops.count .tick) .tick

/-- Steps that do not use the timers go after a tick as they go before it. -/
theorem applyAll_steps_tick (count : Nat)
    (h : ∀ i ∈ s.tick.fetched (.replicate count .step), i.usesTimers = false) :
    s.fetched (.replicate count .step) = s.tick.fetched (.replicate count .step) ∧
      s.tick.applyAll (.replicate count .step) =
        (s.applyAll (.replicate count .step)).map (fun a => (a.1, a.2.tick)) ∧
      ∀ rs t, s.applyAll (.replicate count .step) = .ok (rs, t) →
        t.machine.timers = s.machine.timers := by
  -- the tick is carried through one step after the other, from the front
  induction count generalizing s with
  | zero =>
      refine ⟨rfl, rfl, fun rs t hok => ?_⟩
      cases hok
      rfl
  | succ count ih =>
      rw [List.replicate_succ] at h ⊢
      have hcurrent : s.tick.current? = s.current? := (parallel_ticked s).current?_eq
      have hfirst : ∀ i, s.current? = some i → i.usesTimers = false :=
        fun i hi => h i (mem_fetched_step (hcurrent.trans hi) _)
      rcases apply_step_tick hfirst with ⟨hstep, hkept⟩
      cases happly : s.apply .step with
      | error b =>
          rw [happly] at hstep
          rw [applyAll_cons_error happly, applyAll_cons_error hstep, fetched_cons_error happly,
            fetched_cons_error hstep, hcurrent]
          exact ⟨rfl, rfl, fun _ _ hok => nomatch hok⟩
      | ok a =>
          rw [happly] at hstep
          rcases ih fun i hi => h i (mem_fetched_of_next hstep hi) with ⟨hfetched, hall, htimers⟩
          rw [applyAll_cons_ok happly, applyAll_cons_ok hstep, fetched_cons_ok happly,
            fetched_cons_ok hstep, hcurrent, hall]
          refine ⟨congrArg (_ ++ ·) hfetched, ?_, ?_⟩
          · cases a.2.applyAll (.replicate count .step) with
            | error b => rfl
            | ok later => rfl
          · intro rs t hok
            rcases applyAll_cons ((applyAll_cons_ok happly _).trans hok) with
              ⟨_, later, next, hfirst, hrest, -⟩
            rw [happly] at hfirst
            cases hfirst
            exact (htimers later t hrest).trans (hkept _ _ happly)

/-- All ticks of a history are put after all its steps: the steps run the same instructions, and
break down alike, or both parts give the answers that they gave before. -/
structure Sorts (s : Interpreter) (ops : List Operation) : Prop where
  fetched_eq : s.fetched (stepsOf ops) = s.fetched ops
  error : ∀ b, s.applyAll ops = .error b → s.applyAll (stepsOf ops) = .error b
  ok : ∀ rs u, s.applyAll ops = .ok (rs, u) →
    ∃ t, s.applyAll (stepsOf ops) = .ok (answersTo .step ops rs, t) ∧
      t.applyAll (ticksOf ops) = .ok (answersTo .tick ops rs, u)

namespace Sorts

@[simp]
theorem stepsOf_step (rest : List Operation) : stepsOf (.step :: rest) = .step :: stepsOf rest := by
  rw [stepsOf, List.count_cons_self, List.replicate_succ, stepsOf]

@[simp]
theorem ticksOf_step (rest : List Operation) : ticksOf (.step :: rest) = ticksOf rest := by
  rw [ticksOf, List.count_cons_of_ne (by decide), ticksOf]

@[simp]
theorem stepsOf_tick (rest : List Operation) : stepsOf (.tick :: rest) = stepsOf rest := by
  rw [stepsOf, List.count_cons_of_ne (by decide), stepsOf]

@[simp]
theorem ticksOf_tick (rest : List Operation) : ticksOf (.tick :: rest) = .tick :: ticksOf rest := by
  rw [ticksOf, List.count_cons_self, List.replicate_succ, ticksOf]

/-- Nothing comes after a step that breaks down. -/
theorem of_error {b : Breach} (h : s.apply .step = .error b) (rest : List Operation) :
    Sorts s (.step :: rest) where
  fetched_eq := by
    simp [fetched_cons_error h]
  error := by
    intro b' hb
    rw [applyAll_cons_error h] at hb
    rw [stepsOf_step, applyAll_cons_error h, hb]
  ok := by
    intro rs u hok
    rw [applyAll_cons_error h] at hok
    cases hok

/-- A step stays where it is. -/
theorem step {rest : List Operation} (h : s.apply .step = .ok (r, t)) (hrest : Sorts t rest) :
    Sorts s (.step :: rest) where
  fetched_eq := by
    simp [fetched_cons_ok h, hrest.fetched_eq]
  error := by
    intro b hb
    rw [applyAll_cons_ok h] at hb
    cases hall : t.applyAll rest with
    | ok later =>
        rw [hall] at hb
        cases hb
    | error e =>
        rw [hall] at hb
        cases hb
        rw [stepsOf_step, applyAll_cons_ok h, hrest.error b hall]
        rfl
  ok := by
    intro rs u hok
    rcases applyAll_cons hok with ⟨_, later, _, hfirst, hall, rfl⟩
    rw [h] at hfirst
    cases hfirst
    rcases hrest.ok later u hall with ⟨v, hfront, hback⟩
    rw [stepsOf_step, ticksOf_step, answersTo_cons_self, answersTo_cons_of_ne (by decide)]
    refine ⟨v, ?_, hback⟩
    rw [applyAll_cons_ok h, hfront]
    rfl

/-- A tick may go after the steps that follow it. -/
theorem tick {rest : List Operation} (hrest : Sorts s.tick rest)
    (h : ∀ i ∈ s.tick.fetched rest, i.usesTimers = false) : Sorts s (.tick :: rest) := by
  rcases applyAll_steps_tick (rest.count .step) (hrest.fetched_eq ▸ h) with
    ⟨hfetched, hsteps, htimers⟩
  rw [← stepsOf] at hfetched hsteps htimers
  refine ⟨?_, ?_, ?_⟩
  · rw [stepsOf_tick, hfetched, hrest.fetched_eq]
    rfl
  · intro b hb
    rw [applyAll_cons_ok (tick_apply s)] at hb
    cases hall : s.tick.applyAll rest with
    | ok later =>
        rw [hall] at hb
        cases hb
    | error e =>
        rw [hall] at hb
        cases hb
        have hlate := hrest.error b hall
        rw [hsteps] at hlate
        rw [stepsOf_tick]
        cases hearly : s.applyAll (stepsOf rest) with
        | ok a =>
            rw [hearly] at hlate
            cases hlate
        | error e =>
            rw [hearly] at hlate
            exact hlate
  · intro rs u hok
    rcases applyAll_cons hok with ⟨_, later, _, hfirst, hall, rfl⟩
    cases hfirst
    rcases hrest.ok later u hall with ⟨v, hfront, hback⟩
    rw [hsteps] at hfront
    rw [stepsOf_tick, ticksOf_tick, answersTo_cons_self, answersTo_cons_of_ne (by decide)]
    cases hearly : s.applyAll (stepsOf rest) with
    | error e =>
        rw [hearly] at hfront
        cases hfront
    | ok a =>
        rcases a with ⟨front, w⟩
        rw [hearly] at hfront
        cases hfront
        -- the timers are after the steps what they were before, so the tick is answered alike
        have hbeeps : w.tickBeeps = s.tickBeeps := congrArg Timers.beeps (htimers _ w hearly)
        refine ⟨w, rfl, ?_⟩
        rw [applyAll_cons_ok (tick_apply w), hback, hbeeps]
        rfl

end Sorts

/-- Without an instruction that uses the timers, the ticks go after the steps. -/
theorem sorts_of_fetched (hops : ∀ op ∈ ops, op = .step ∨ op = .tick)
    (h : ∀ i ∈ s.fetched ops, i.usesTimers = false) : Sorts s ops := by
  induction ops generalizing s with
  | nil =>
      refine ⟨rfl, fun b hb => hb, fun rs u hok => ?_⟩
      cases hok
      exact ⟨s, rfl, rfl⟩
  | cons op rest ih =>
      have hrest : ∀ op ∈ rest, op = .step ∨ op = .tick := fun op hop => hops op (.tail _ hop)
      rcases hops op (.head _) with rfl | rfl
      · cases happly : s.apply .step with
        | error b => exact .of_error happly rest
        | ok a =>
            exact .step happly (ih hrest fun i hi => h i (mem_fetched_of_next happly hi))
      · exact .tick (ih hrest h) h

/-- All ticks of a history may be put after all its steps. -/
theorem Sorts.applyAll_eq (h : Sorts s ops) :
    s.applyAll (stepsOf ops ++ ticksOf ops) = (s.applyAll ops).map fun a =>
      (answersTo .step ops a.1 ++ answersTo .tick ops a.1, a.2) := by
  cases hall : s.applyAll ops with
  | error b => exact applyAll_append_error (h.error b hall) _
  | ok a =>
      rcases h.ok a.1 a.2 hall with ⟨t, hsteps, hticks⟩
      rw [applyAll_append_ok hsteps, hticks]
      rfl

/-- What comes from outside changes places with steps that do not observe it: a tick unless the step
reads or sets a timer, also in whole histories of steps and ticks, and a change of the keypad unless
the step waits for a key or runs one of the skips that look for one. -/
theorem outside_commutes (s : Interpreter) :
    ((∀ i, s.current? = some i → i.usesTimers = false) →
      s.applyAll [.tick, .step] =
        (s.applyAll [.step, .tick]).map fun a => (a.1.reverse, a.2)) ∧
    (∀ ops, (∀ op ∈ ops, op = .step ∨ op = .tick) →
      (∀ i ∈ s.fetched ops, i.usesTimers = false) →
      s.fetched (stepsOf ops) = s.fetched ops ∧
      s.applyAll (stepsOf ops ++ ticksOf ops) = (s.applyAll ops).map fun a =>
        (answersTo .step ops a.1 ++ answersTo .tick ops a.1, a.2)) ∧
    ∀ w, (∀ x, s.runState ≠ .awaitingKey x) →
      (∀ i, s.current? = some i → i.readsKeypad = false) →
      s.applyAll [.writeKeypad w, .step] =
        (s.applyAll [.step, .writeKeypad w]).map fun a => (a.1.reverse, a.2) := by
  refine ⟨fun h => ?_, fun ops hops h => ?_, fun w hpark h => ?_⟩
  · rcases apply_step_tick h with ⟨hstep, hkept⟩
    exact swap_of_apply_step tick_apply hstep fun r next hok =>
      congrArg (fun timers => Response.flag timers.beeps) (hkept r next hok)
  · have hsorts := sorts_of_fetched hops h
    exact ⟨hsorts.fetched_eq, hsorts.applyAll_eq⟩
  · exact swap_of_apply_step (fun _ => rfl) (apply_step_writeKeypad hpark h w) fun _ _ _ => rfl

/-- A loop of two instructions, with two ticks left before the beep. -/
theorem outside_commutes_loop :
    let loaded := ((start (.ofSeed 3)).load [0x60, 0x05, 0x12, 0x00]).next
    let s : Interpreter := { loaded with machine := { loaded.machine with timers := ⟨3, 2⟩ } }
    let ops : List Operation := [.step, .tick, .step, .tick, .step]
    ((∀ i, s.current? = some i → i.usesTimers = false) ∧ (∀ op ∈ ops, op = .step ∨ op = .tick) ∧
      (∀ i ∈ s.fetched ops, i.usesTimers = false) ∧ (∀ x, s.runState ≠ .awaitingKey x) ∧
      ∀ i, s.current? = some i → i.readsKeypad = false) ∧
      s.applyAll [.tick, .step] =
        (s.applyAll [.step, .tick]).map (fun a => (a.1.reverse, a.2)) ∧
      (s.applyAll [.step, .step, .step, .tick, .tick]).toOption.map
        (fun a => (a.1, a.2.beepPending)) =
          some ([.done, .done, .done, .flag false, .flag true], true) ∧
      s.applyAll [.writeKeypad (.set 5 true), .step] =
        (s.applyAll [.step, .writeKeypad (.set 5 true)]).map fun a => (a.1.reverse, a.2) := by
  intro loaded s ops
  have hcurrent : s.current? = some (.setConst 0 5) := by decide +kernel
  have htimers : ∀ i, s.current? = some i → i.usesTimers = false := by
    intro i hi
    rw [hcurrent] at hi
    cases hi
    rfl
  have hkeypad : ∀ i, s.current? = some i → i.readsKeypad = false := by
    intro i hi
    rw [hcurrent] at hi
    cases hi
    rfl
  have hops : ∀ op ∈ ops, op = .step ∨ op = .tick := by decide
  have hfetched : ∀ i ∈ s.fetched ops, i.usesTimers = false := by decide +kernel
  have hpark : ∀ x, s.runState ≠ .awaitingKey x := fun _ hx => nomatch hx
  rcases outside_commutes s with ⟨htick, hsort, hkey⟩
  refine ⟨⟨htimers, hops, hfetched, hpark, hkeypad⟩, htick htimers, ?_, hkey _ hpark hkeypad⟩
  have hsorted : stepsOf ops ++ ticksOf ops = [.step, .step, .step, .tick, .tick] := by decide
  rw [← hsorted, (hsort ops hops hfetched).2]
  decide +kernel

end Interpreter
end Chip8
