import Chip8.Proofs.Interpreter.Outcomes
import Chip8.Proofs.Machine.Devices

/-!
# Periphery — two interpreters side by side

The timers, the keypad and the two marks for the outside are the periphery of an interpreter.  Two
interpreters are `Parallel` if they agree on everything else and their peripheries are related in
some given way.  A piece of work `Respects` a relation if it comes to the same end from related
states: it gives the same answer or stops for the same reason, and leaves related states.

Most pieces of work respect every relation.  What an instruction needs of a relation beyond that is
`Allows`: the delay timers or the keypads have to be the same if it reads them, and setting the
timers must not break the relation if it does so.  With that, every row of the opcode table, and so
every step, goes the same way from parallel states.

Main statement: `Parallel.step`.
-/

namespace Chip8

/-! ## What instructions have to do with the periphery -/

namespace Instruction

def readsDelay : Instruction → Bool
  | readDelay _ => true
  | _ => false

def setsTimer : Instruction → Bool
  | setDelay _ | setSound _ => true
  | _ => false

def readsKeypad : Instruction → Bool
  | skip c => c.readsKeypad
  | _ => false

end Instruction

/-- What the outside changes of an interpreter, or takes from it. -/
structure Periphery where
  timers : Timers
  keypad : Keypad
  frameDirty : Bool
  beepPending : Bool
  deriving DecidableEq

namespace Periphery

def setDelay (p : Periphery) (delay : UInt8) : Periphery :=
  { p with timers := { p.timers with delay } }

def setSound (p : Periphery) (sound : UInt8) : Periphery :=
  { p with timers := { p.timers with sound } }

def mark (p : Periphery) : Periphery :=
  { p with frameDirty := true }

/-- What an instruction needs of a relation between peripheries to go the same way on both sides. -/
structure Allows (Q : Periphery → Periphery → Prop) (i : Instruction) : Prop where
  mark : ∀ p q, Q p q → Q p.mark q.mark
  delay_eq : i.readsDelay = true → ∀ p q, Q p q → q.timers.delay = p.timers.delay
  keypad_eq : i.readsKeypad = true → ∀ p q, Q p q → q.keypad = p.keypad
  setDelay : i.setsTimer = true → ∀ p q v, Q p q → Q (p.setDelay v) (q.setDelay v)
  setSound : i.setsTimer = true → ∀ p q v, Q p q → Q (p.setSound v) (q.setSound v)

end Periphery

namespace Interpreter

open Chip8.Interpreter.Action

variable {α β : Type} {Q : Periphery → Periphery → Prop} {s t : Interpreter} {i : Instruction}

def periphery (s : Interpreter) : Periphery where
  timers := s.machine.timers
  keypad := s.machine.keypad
  frameDirty := s.frameDirty
  beepPending := s.beepPending

def withPeriphery (s : Interpreter) (p : Periphery) : Interpreter :=
  { s with
    machine := s.machine.withDevices p.timers p.keypad
    frameDirty := p.frameDirty
    beepPending := p.beepPending }

/-- The interpreters agree on everything but their peripheries, which are related. -/
structure Parallel (Q : Periphery → Periphery → Prop) (s t : Interpreter) : Prop where
  machine_eq : t.machine = s.machine.withDevices t.machine.timers t.machine.keypad
  runState_eq : t.runState = s.runState
  generator_eq : t.generator = s.generator
  related : Q s.periphery t.periphery

namespace Parallel

/-- The second interpreter is the first one with another periphery. -/
theorem eq_withPeriphery (h : Parallel Q s t) : t = s.withPeriphery t.periphery := by
  rcases h with ⟨hmachine, hrun, hgenerator, -⟩
  rcases t with ⟨machine, runState, generator, frameDirty, beepPending⟩
  dsimp only at hmachine hrun hgenerator
  subst hrun hgenerator
  exact congrArg (Interpreter.mk · s.runState s.generator frameDirty beepPending) hmachine

/-- Another periphery makes a parallel interpreter. -/
theorem of_withPeriphery {p : Periphery} (h : Q s.periphery p) : Parallel Q s (s.withPeriphery p) :=
  ⟨rfl, rfl, rfl, h⟩

/-- A question that is blind to the devices has the same answer on both sides. -/
theorem blind {question : Machine → α} (h : Parallel Q s t) (hblind : Machine.Blind question) :
    question t.machine = question s.machine := by
  rw [h.machine_eq]
  exact hblind _ _ _

/-- Both machines are replaced, but for their devices. -/
theorem replace (h : Parallel Q s t) {n : Machine}
    (hn : n.timers = s.machine.timers ∧ n.keypad = s.machine.keypad) :
    Parallel Q { s with machine := n }
      { t with machine := n.withDevices t.machine.timers t.machine.keypad } where
  machine_eq := rfl
  runState_eq := h.runState_eq
  generator_eq := h.generator_eq
  related := by
    have hsame : periphery { s with machine := n } = s.periphery := by
      simp only [periphery, hn.1, hn.2]
    rw [hsame]
    exact h.related

end Parallel

/-! ## Pieces of work -/

namespace Action

/-- The same answer, or the same reason to stop, and related states. -/
inductive Alike (R : Interpreter → Interpreter → Prop) :
    EStateM.Result Stop Interpreter α → EStateM.Result Stop Interpreter α → Prop where
  | ok (x : α) {s t : Interpreter} : R s t → Alike R (.ok x s) (.ok x t)
  | error (stop : Stop) {s t : Interpreter} : R s t → Alike R (.error stop s) (.error stop t)

/-- From related states the work comes to the same end. -/
def Respects (R : Interpreter → Interpreter → Prop) (a : Action α) : Prop :=
  ∀ s t, R s t → Alike R (a s) (a t)

/-- Pieces that respect a relation do so one after the other. -/
theorem Respects.bind {R : Interpreter → Interpreter → Prop} {a : Action α} {k : α → Action β}
    (ha : Respects R a) (hk : ∀ x, Respects R (k x)) : Respects R (a >>= k) := by
  intro s t h
  have hfirst := ha s t h
  rw [bind_apply, bind_apply]
  generalize a s = left, a t = right at hfirst ⊢
  cases hfirst with
  | ok x hst => exact hk x _ _ hst
  | error stop hst => exact .error stop hst

theorem respects_pure (R : Interpreter → Interpreter → Prop) (x : α) :
    Respects R (pure x) :=
  fun _ _ h => .ok x h

theorem respects_look {view : Machine → α}
    (h : ∀ s t, Parallel Q s t → view t.machine = view s.machine) :
    Respects (Parallel Q) (look view) := by
  intro s t hst
  rw [look, look, h s t hst]
  exact .ok _ hst

/-- A question with the same answer on both sides respects the relation. -/
theorem respects_ask {question : Machine → Except Stop α}
    (h : ∀ s t, Parallel Q s t → question t.machine = question s.machine) :
    Respects (Parallel Q) (ask question) := by
  intro s t hst
  simp only [ask, h s t hst]
  cases question s.machine with
  | ok x => exact .ok x hst
  | error stop => exact .error stop hst

/-- So does a change that leaves the devices alone. -/
theorem respects_change {f : Machine → Except Stop Machine} (h : Machine.Inert f) :
    Respects (Parallel Q) (change f) := by
  intro s t hst
  have hf : f t.machine =
      (f s.machine).map fun n => n.withDevices t.machine.timers t.machine.keypad := by
    calc f t.machine
        = f (s.machine.withDevices t.machine.timers t.machine.keypad) := by rw [← hst.machine_eq]
      _ = _ := h _ _ _
  simp only [change, hf]
  cases hn : f s.machine with
  | ok n => exact .ok () (hst.replace (h.keeps hn))
  | error stop => exact .error stop hst

theorem respects_update {f : Machine → Machine}
    (h : ∀ m timers keypad, f (m.withDevices timers keypad) = (f m).withDevices timers keypad) :
    Respects (Parallel Q) (update f) := by
  have hinert : Machine.Inert fun m => .ok (f m) :=
    fun m timers keypad => congrArg Except.ok (h m timers keypad)
  exact respects_change hinert

theorem respects_popSite : Respects (Parallel Q) popSite := by
  intro s t hst
  have hpop : t.machine.pop = s.machine.pop.map fun answer =>
      (answer.1, answer.2.withDevices t.machine.timers t.machine.keypad) := by
    rw [← Machine.pop_withDevices, ← hst.machine_eq]
  simp only [popSite, hpop]
  cases hn : s.machine.pop with
  | ok answer => exact .ok answer.1 (hst.replace (Machine.keeps_of_pop hn))
  | error stop => exact .error stop hst

/-- The same cells are flipped on both sides. -/
theorem respects_blit (cells : List Cell) : Respects (Parallel Q) (blit cells) := by
  intro s t hst
  have hscreen : t.machine.screen = s.machine.screen := hst.blind fun _ _ _ => rfl
  simp only [blit, hscreen]
  refine .ok _ ?_
  rw [hst.machine_eq]
  exact hst.replace ⟨rfl, rfl⟩

/-- The mark for the screen is set on both sides. -/
theorem respects_markFrame (h : ∀ p q, Q p q → Q p.mark q.mark) :
    Respects (Parallel Q) markFrame :=
  fun _ _ hst => .ok () ⟨hst.machine_eq, hst.runState_eq, hst.generator_eq, h _ _ hst.related⟩

theorem respects_drawByte : Respects (Parallel Q) drawByte := by
  intro s t hst
  rw [drawByte, drawByte, hst.generator_eq]
  exact .ok _ ⟨hst.machine_eq, hst.runState_eq, rfl, hst.related⟩

theorem respects_enter (runState : RunState) : Respects (Parallel Q) (enter runState) :=
  fun _ _ hst => .ok () ⟨hst.machine_eq, rfl, hst.generator_eq, hst.related⟩

theorem respects_advance (bytes : Nat) : Respects (Parallel Q) (advance bytes) :=
  respects_change (Machine.inert_advance bytes)

theorem respects_jump (target : UInt16) : Respects (Parallel Q) (jump target) :=
  respects_update fun _ _ _ => rfl

theorem respects_register (x : UInt8) : Respects (Parallel Q) (register x) :=
  respects_ask fun _ _ h => h.blind (Machine.blind_register x.toNat)

theorem respects_setRegister (x value : UInt8) : Respects (Parallel Q) (setRegister x value) :=
  respects_change (Machine.inert_setRegister x.toNat value)

theorem respects_sliceAtIndex (count : Nat) : Respects (Parallel Q) (sliceAtIndex count) :=
  respects_ask fun _ _ h => h.blind (Machine.blind_slice count)

theorem respects_writeAtIndex (offset : Nat) (value : UInt8) :
    Respects (Parallel Q) (writeAtIndex offset value) :=
  respects_change (Machine.inert_write offset value)

/-- Setting a timer on both sides, in a relation that does not break by it. -/
theorem respects_setTimers (set : Timers → Timers)
    (h : ∀ p q, Q p q → Q { p with timers := set p.timers } { q with timers := set q.timers }) :
    Respects (Parallel Q) (update fun m => { m with timers := set m.timers }) := by
  intro s t hst
  refine .ok () ⟨?_, hst.runState_eq, hst.generator_eq, h _ _ hst.related⟩
  exact congrArg (fun m : Machine => { m with timers := set t.machine.timers }) hst.machine_eq

end Action

/-! ## Instructions -/

/-- An instruction goes the same way from parallel states, if it is allowed. -/
theorem respects_perform (h : Periphery.Allows Q i) : Respects (Parallel Q) (perform i) := by
  cases i with
  | clearScreen =>
      exact (respects_update fun _ _ _ => rfl).bind fun _ =>
        (respects_markFrame h.mark).bind fun _ => respects_advance 2
  | ret =>
      exact respects_popSite.bind fun _ => (respects_ask fun _ _ _ => rfl).bind fun pc =>
        respects_jump pc
  | jump target => exact respects_jump target
  | call target =>
      exact (respects_change Machine.inert_push).bind fun _ => respects_jump target
  | skip c =>
      refine Respects.bind (respects_ask fun s t hst => ?_) fun skips => respects_advance _
      cases hreads : c.readsKeypad with
      | false => exact hst.blind (Machine.blind_holds hreads)
      | true =>
          -- the only question of an instruction that a change of the keys can answer otherwise
          have hkeypad : t.machine.keypad = s.machine.keypad := h.keypad_eq hreads _ _ hst.related
          rw [hst.machine_eq, hkeypad]
          exact Machine.holds_withTimers s.machine _ c
  | setConst x n => exact (respects_setRegister x n).bind fun _ => respects_advance 2
  | addConst x n =>
      exact (respects_register x).bind fun vx => (respects_setRegister x _).bind fun _ =>
        respects_advance 2
  | alu op x y =>
      exact (respects_change (Machine.inert_operate op x y)).bind fun _ => respects_advance 2
  | setIndex address => exact (respects_update fun _ _ _ => rfl).bind fun _ => respects_advance 2
  | jumpOffset base => exact respects_change (Machine.inert_jumpOffset base)
  | random x mask =>
      exact respects_drawByte.bind fun byte => (respects_setRegister x _).bind fun _ =>
        respects_advance 2
  | draw x y height =>
      exact (respects_register x).bind fun vx => (respects_register y).bind fun vy =>
        (respects_sliceAtIndex _).bind fun sprite => (respects_blit _).bind fun hit =>
        (respects_update fun _ _ _ => rfl).bind fun _ => (respects_markFrame h.mark).bind fun _ =>
        respects_advance 2
  | readDelay x =>
      -- the timer goes to a register, which is compared from then on
      have hdelay : ∀ s t, Parallel Q s t → t.machine.timers.delay = s.machine.timers.delay :=
        fun _ _ hst => h.delay_eq rfl _ _ hst.related
      exact (respects_look hdelay).bind fun delay => (respects_setRegister x delay).bind fun _ =>
        respects_advance 2
  -- the keypad is looked at by later steps only
  | awaitKey x => exact respects_enter _
  | setDelay x =>
      exact (respects_register x).bind fun vx =>
        (respects_setTimers (fun timers => { timers with delay := vx })
          fun p q => h.setDelay rfl p q vx).bind fun _ => respects_advance 2
  | setSound x =>
      exact (respects_register x).bind fun vx =>
        (respects_setTimers (fun timers => { timers with sound := vx })
          fun p q => h.setSound rfl p q vx).bind fun _ => respects_advance 2
  | addIndex x =>
      have hsum (vx : UInt8) :
          Machine.Blind fun m => Machine.checkedWord (m.index.toNat + vx.toNat) := fun _ _ _ => rfl
      exact (respects_register x).bind fun vx =>
        (respects_ask fun _ _ hst => hst.blind (hsum vx)).bind fun sum =>
        (respects_update fun _ _ _ => rfl).bind fun _ => respects_advance 2
  | glyph x =>
      exact (respects_register x).bind fun vx => (respects_ask fun _ _ _ => rfl).bind fun address =>
        (respects_update fun _ _ _ => rfl).bind fun _ => respects_advance 2
  | decimal x =>
      exact (respects_register x).bind fun value => (respects_sliceAtIndex 3).bind fun _ =>
        (respects_writeAtIndex 0 _).bind fun _ => (respects_writeAtIndex 1 _).bind fun _ =>
        (respects_writeAtIndex 2 _).bind fun _ => respects_advance 2
  | save last =>
      exact (respects_sliceAtIndex _).bind fun _ =>
        (respects_ask fun _ _ hst => hst.blind (Machine.blind_firstRegisters _)).bind fun values =>
        (respects_change (Machine.inert_store values)).bind fun _ => respects_advance 2
  | restore last =>
      exact (respects_sliceAtIndex _).bind fun values =>
        (respects_change (Machine.inert_setFirstRegisters values)).bind fun _ => respects_advance 2

/-! ## Results -/

/-- Two pieces of work that break down for the same reason, or end with related results. -/
inductive Agree {α β : Type} (R : α → β → Prop) : Except Breach α → Except Breach β → Prop where
  | ok {a : α} {b : β} : R a b → Agree R (.ok a) (.ok b)
  | error (b : Breach) : Agree R (.error b) (.error b)

namespace Agree

variable {γ δ : Type} {R : α → β → Prop} {x : Except Breach α} {y : Except Breach β} {f : α → γ}
  {g : β → δ}

/-- Agreeing results are the same breach, or two related answers. -/
theorem elim (h : Agree R x y) :
    (∃ b, x = .error b ∧ y = .error b) ∨ ∃ a b, x = .ok a ∧ y = .ok b ∧ R a b := by
  cases h with
  | ok hab => exact .inr ⟨_, _, rfl, rfl, hab⟩
  | error b => exact .inl ⟨b, rfl, rfl⟩

theorem of_ok {a : α} {b : β} (h : Agree R x y) (hx : x = .ok a) (hy : y = .ok b) :
    R a b := by
  subst hx hy
  cases h with
  | ok hab => exact hab

theorem mono {R' : α → β → Prop} (h : Agree R x y) (hR : ∀ a b, R a b → R' a b) :
    Agree R' x y := by
  cases h with
  | ok hab => exact .ok (hR _ _ hab)
  | error b => exact .error b

/-- A function on each side keeps the agreement if it keeps the relation. -/
theorem map {R' : γ → δ → Prop} (h : Agree R x y) (hfg : ∀ a b, R a b → R' (f a) (g b)) :
    Agree R' (x.map f) (y.map g) := by
  cases h with
  | ok hab => exact .ok (hfg _ _ hab)
  | error b => exact .error b

theorem mapLeft {R' : γ → β → Prop} (h : Agree R x y) (hf : ∀ a b, R a b → R' (f a) b) :
    Agree R' (x.map f) y := by
  cases h with
  | ok hab => exact .ok (hf _ _ hab)
  | error b => exact .error b

theorem mapRight {R' : α → δ → Prop} (h : Agree R x y) (hg : ∀ a b, R a b → R' a (g b)) :
    Agree R' x (y.map g) := by
  cases h with
  | ok hab => exact .ok (hg _ _ hab)
  | error b => exact .error b

end Agree

/-! ## Steps -/

/-- The same instruction is at hand. -/
theorem Parallel.current?_eq (h : Parallel Q s t) : t.current? = s.current? := by
  rw [current?, current?, h.runState_eq, h.blind Machine.blind_nextInstruction]

/-- A running step goes the same way, if the instruction at hand is allowed. -/
theorem Parallel.cycle (h : Parallel Q s t) (hrun : s.runState = .running)
    (hallows : ∀ i, s.current? = some i → Periphery.Allows Q i) :
    Alike (Parallel Q) (cycle s) (cycle t) := by
  have hnext : t.machine.nextInstruction = s.machine.nextInstruction :=
    h.blind Machine.blind_nextInstruction
  simp only [Interpreter.cycle, bind_apply, ask, hnext]
  cases hread : s.machine.nextInstruction with
  | error stop => exact .error stop h
  | ok answer =>
      have hcurrent : s.current? = some answer.2 := current?_eq_some_iff.2 ⟨hrun, answer.1, hread⟩
      exact respects_perform (hallows _ hcurrent) s t h

/-- A look at the keypad goes the same way if the same keys are held. -/
theorem respects_pollKey (x : UInt8) (h : ∀ p q, Q p q → q.keypad = p.keypad) :
    Respects (Parallel Q) (pollKey x) := by
  have hkeypad (s t : Interpreter) (hst : Parallel Q s t) :
      t.machine.keypad.lowestPressed = s.machine.keypad.lowestPressed :=
    congrArg Keypad.lowestPressed (h _ _ hst.related)
  refine (respects_look hkeypad).bind fun key? => ?_
  cases key? with
  | none => exact respects_pure _ ()
  | some key =>
      exact (respects_setRegister x key).bind fun _ => (respects_advance 2).bind fun _ =>
        respects_enter .running

/-- Alike ends of work are the same answer to a caller. -/
theorem settle_agree {r r' : EStateM.Result Stop Interpreter Unit} (h : Alike (Parallel Q) r r') :
    Agree (fun o o' => o'.fault? = o.fault? ∧ Parallel Q o.next o'.next)
      (settle r) (settle r') := by
  cases h with
  | ok x hst => exact .ok ⟨rfl, hst⟩
  | error stop hst =>
      cases stop with
      | fault f => exact .ok ⟨rfl, hst.machine_eq, rfl, hst.generator_eq, hst.related⟩
      | breach b => exact .error b

structure Foresees (Q : Periphery → Periphery → Prop) (s : Interpreter) : Prop where
  allows : ∀ i, s.current? = some i → Periphery.Allows Q i
  keypad_eq : ∀ x, s.runState = .awaitingKey x → ∀ p q, Q p q → q.keypad = p.keypad

/-- A step goes the same way from parallel states: it has the same fault or none, or breaks down
alike, and what is left is parallel again. -/
theorem Parallel.step (h : Parallel Q s t) (hs : Foresees Q s) :
    Agree (fun o o' => o'.fault? = o.fault? ∧ Parallel Q o.next o'.next) s.step t.step := by
  cases hrun : s.runState with
  | running =>
      rw [step_of_running hrun, step_of_running (h.runState_eq.trans hrun)]
      exact settle_agree (h.cycle hrun hs.allows)
  | awaitingKey x =>
      rw [step_of_awaitingKey hrun, step_of_awaitingKey (h.runState_eq.trans hrun)]
      exact settle_agree (respects_pollKey x (hs.keypad_eq x hrun) s t h)
  | faulted f =>
      rw [step_of_faulted hrun, step_of_faulted (h.runState_eq.trans hrun)]
      exact .ok ⟨rfl, h⟩

theorem Parallel.apply_step (h : Parallel Q s t) (hs : Foresees Q s) :
    Agree (fun a b => b.1 = a.1 ∧ Parallel Q a.2 b.2) (s.apply .step) (t.apply .step) := by
  have hstep := h.step hs
  unfold apply
  generalize s.step = left, t.step = right at hstep ⊢
  cases hstep with
  | ok hnext =>
      refine .ok ⟨?_, hnext.2⟩
      show Outcome.response _ = Outcome.response _
      rw [Outcome.response, Outcome.response, hnext.1]
  | error b => exact .error b

end Interpreter
end Chip8
