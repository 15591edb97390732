import Chip8.Proofs.Interpreter.Interleaving
import Chip8.Proofs.Keypad.Latch
import Mathlib.Logic.Function.Iterate

/-!
# KeyWait — parked until a key is held

The instruction that waits for a key does nothing but park the interpreter, whatever keys are held
just then.  From there on a step is one look at the keypad.  As long as each look finds no key held,
the steps leave no trace: where the interpreter has come to depends on the number of ticks and on
the keys that are held now, and on nothing that was pressed and released in between
(`applyAll_parked`).  The first look that finds keys takes the least of them and goes on after the
instruction.

Main statement: `parks_until_held`.
-/

namespace Chip8

/-- The operation is one of those by which a running program is driven. -/
def Operation.drives : Operation → Bool
  | .step | .tick | .writeKeypad _ => true
  | _ => false

def Operation.write? : Operation → Option Keypad.Write
  | .writeKeypad w => some w
  | _ => none

/-- The keypad after operations of which only the writes count. -/
def keypadAfter (k : Keypad) (ops : List Operation) : Keypad :=
  k.writeAll (ops.filterMap Operation.write?)

/-- Whenever a step is taken, no key is held. -/
def Unheld (k : Keypad) (ops : List Operation) : Prop :=
  ∀ before later, ops = before ++ .step :: later → (keypadAfter k before).held = []

theorem unheld_nil (k : Keypad) : Unheld k [] := by
  intro before later hsplit
  simp at hsplit

/-- A key that is held now matters to a step, and to nothing else. -/
@[simp]
theorem unheld_cons {k : Keypad} {op : Operation} {rest : List Operation} :
    Unheld k (op :: rest) ↔ (op = .step → k.held = []) ∧ Unheld (keypadAfter k [op]) rest := by
  have hcons (before : List Operation) :
      keypadAfter k (op :: before) = keypadAfter (keypadAfter k [op]) before := by
    cases op <;> rfl
  constructor
  · intro h
    refine ⟨fun hstep => h [] rest (congrArg (· :: rest) hstep), ?_⟩
    intro before later hsplit
    rw [← hcons]
    exact h (op :: before) later (congrArg (op :: ·) hsplit)
  · rintro ⟨hnow, hrest⟩ before later hsplit
    rcases List.cons_eq_append_iff.1 hsplit with ⟨rfl, hfirst⟩ | ⟨front, rfl, hlater⟩
    · exact hnow (List.cons.inj hfirst).1.symm
    · rw [hcons]
      exact hrest front later hlater

/-- Whether a key is held at some step can be read off the operations. -/
instance decidableUnheld : (k : Keypad) → (ops : List Operation) → Decidable (Unheld k ops)
  | k, [] => .isTrue (unheld_nil k)
  | k, op :: rest =>
      have := decidableUnheld (keypadAfter k [op]) rest
      decidable_of_iff ((op = .step → k.held = []) ∧ Unheld (keypadAfter k [op]) rest)
        unheld_cons.symm

namespace Interpreter

variable {s t : Interpreter} {x : UInt8} {ops : List Operation}

/-! ## One step -/

/-- The interpreter waiting for a key. -/
def parked (s : Interpreter) (x : UInt8) : Interpreter :=
  { s with runState := .awaitingKey x }

/-- Parking changes the run state alone, also while keys are held. -/
theorem step_of_awaitKey (h : s.current? = some (.awaitKey x)) :
    s.step = .ok ⟨none, s.parked x⟩ := by
  have hrow := (row_of_current? h).2
  have hadmits : s.machine.Admits (.awaitKey x) :=
    ⟨Instruction.registers_lt_of_row hrow, trivial⟩
  exact step_of_admits h hadmits rfl

/-- A look at the keypad that finds no key. -/
theorem step_of_held_eq_nil (hpark : s.runState = .awaitingKey x)
    (hheld : s.machine.keypad.held = []) : s.step = .ok ⟨none, s⟩ := by
  have hnone : s.machine.keypad.lowestPressed = none := Keypad.lowestPressed_eq_none_iff.2 hheld
  have hpoll : pollKey x s = .ok () s := by
    rw [pollKey, Action.bind_apply, Action.look]
    simp only [hnone]
    rfl
  rw [step_of_awaitingKey hpark, hpoll]
  rfl

/-- The interpreter that has taken a key: it stands in the register, and the program goes on. -/
def keyTaken (s : Interpreter) (x key : UInt8) (hx : x.toNat < registerCount) : Interpreter :=
  { s with
    machine := { s.machine with
      registers := s.machine.registers.set x.toNat key hx
      pc := UInt16.ofNat (s.machine.pc.toNat + 2) }
    runState := .running }

/-- A look at the keypad that finds keys. -/
theorem step_of_lowestPressed {key : UInt8} (hpark : s.runState = .awaitingKey x)
    (hx : x.toNat < registerCount) (hpc : s.machine.pc.toNat + 2 < 0x10000)
    (hkey : s.machine.keypad.lowestPressed = some key) :
    s.step = .ok ⟨none, s.keyTaken x key hx⟩ := by
  rw [step_of_awaitingKey hpark, (pollKey_ends s x).eq_ok ⟨hx, hpc⟩ rfl, polled, hkey, keyTaken,
    Overlay.set_eq_setIfInBounds]
  rfl

/-- It takes the least of them, and goes on after the instruction that parked. -/
theorem step_of_held_ne_nil (hpark : s.runState = .awaitingKey x) (hx : x.toNat < registerCount)
    (hpc : s.machine.pc.toNat + 2 < 0x10000) (hheld : s.machine.keypad.held ≠ []) :
    ∃ key ∈ s.machine.keypad.held, (∀ other ∈ s.machine.keypad.held, key ≤ other) ∧
      s.step = .ok ⟨none, s.keyTaken x key hx⟩ ∧
      (s.keyTaken x key hx).machine.pc.toNat = s.machine.pc.toNat + 2 := by
  have hsome : s.machine.keypad.lowestPressed ≠ none := mt Keypad.lowestPressed_eq_none_iff.1 hheld
  rcases Option.ne_none_iff_exists'.1 hsome with ⟨key, hkey⟩
  rcases Keypad.lowestPressed_eq_some_iff.1 hkey with ⟨hmem, hleast⟩
  have hnext : (s.keyTaken x key hx).machine.pc.toNat = s.machine.pc.toNat + 2 :=
    UInt16.toNat_ofNat_of_lt' hpc
  exact ⟨key, hmem, hleast, step_of_lowestPressed hpark hx hpc hkey, hnext⟩

/-! ## Waiting -/

def withKeypad (s : Interpreter) (keypad : Keypad) : Interpreter :=
  { s with machine := { s.machine with keypad } }

/-- The timers do not look at the keypad, and a tick does not stop the wait. -/
theorem tick_iterate_withKeypad (s : Interpreter) (k : Keypad) (n : Nat) :
    (tick^[n] (s.withKeypad k)) = (tick^[n] s).withKeypad k := by
  induction n generalizing s with
  | zero => rfl
  | succ n ih => exact ih s.tick

/-- Ticks do not end the wait. -/
@[simp]
theorem runState_tick_iterate (s : Interpreter) (n : Nat) :
    (tick^[n] s).runState = s.runState := by
  induction n generalizing s with
  | zero => rfl
  | succ n ih => exact ih s.tick

@[simp]
theorem pc_tick_iterate (s : Interpreter) (n : Nat) :
    (tick^[n] s).machine.pc = s.machine.pc := by
  induction n generalizing s with
  | zero => rfl
  | succ n ih => exact ih s.tick

/-- Steps that find no key held leave no trace; what counts are the ticks and the keys held in the
end. -/
theorem applyAll_parked (hpark : s.runState = .awaitingKey x)
    (hops : ∀ op ∈ ops, op.drives = true) (hheld : Unheld s.machine.keypad ops) :
    ∃ rs, s.applyAll ops = .ok (rs,
      (tick^[ops.count .tick] s).withKeypad (keypadAfter s.machine.keypad ops)) := by
  induction ops generalizing s with
  | nil => exact ⟨[], rfl⟩
  | cons op rest ih =>
      rcases List.forall_mem_cons.1 hops with ⟨hop, hrest⟩
      rcases unheld_cons.1 hheld with ⟨hnow, htail⟩
      cases op with
      | step =>
          -- no key is held just now, so the rest begins where this step began
          rcases ih hpark hrest htail with ⟨rs, hall⟩
          have happly : s.apply .step = .ok (.done, s) := by
            rw [apply, step_of_held_eq_nil hpark (hnow rfl)]
            rfl
          refine ⟨.done :: rs, ?_⟩
          rw [applyAll_cons_ok happly, hall, List.count_cons_of_ne (by decide)]
          rfl
      | tick =>
          rcases ih (s := s.tick) hpark hrest htail with ⟨rs, hall⟩
          refine ⟨.flag s.tickBeeps :: rs, ?_⟩
          rw [applyAll_cons_ok (tick_apply s), hall, List.count_cons_self]
          rfl
      | writeKeypad w =>
          rcases ih (s := s.writeKeypad w) hpark hrest htail with ⟨rs, hall⟩
          have happly : s.apply (.writeKeypad w) = .ok (.done, s.writeKeypad w) := rfl
          -- the write may as well be made after all the ticks
          have hwritten : s.writeKeypad w = s.withKeypad (s.machine.keypad.write w) := rfl
          refine ⟨.done :: rs, ?_⟩
          rw [applyAll_cons_ok happly, hall, List.count_cons_of_ne (by simp), hwritten,
            tick_iterate_withKeypad]
          rfl
      | _ => cases hop

/-- A parked interpreter fetches nothing. -/
theorem fetched_of_parked (hpark : s.runState = .awaitingKey x)
    (hops : ∀ op ∈ ops, op.drives = true) (hheld : Unheld s.machine.keypad ops) :
    s.fetched ops = [] := by
  induction ops generalizing s with
  | nil => rfl
  | cons op rest ih =>
      rcases List.forall_mem_cons.1 hops with ⟨hop, hrest⟩
      rcases unheld_cons.1 hheld with ⟨hnow, htail⟩
      cases op with
      | step =>
          have hcurrent : s.current? = none := by
            simp only [current?, hpark]
          have happly : s.apply .step = .ok (.done, s) := by
            rw [apply, step_of_held_eq_nil hpark (hnow rfl)]
            rfl
          rw [fetched_cons_ok happly, hcurrent, ih hpark hrest htail]
          rfl
      | tick =>
          rw [fetched_cons_of_ne (by decide) (tick_apply s)]
          exact ih (s := s.tick) hpark hrest htail
      | writeKeypad w =>
          have happly : s.apply (.writeKeypad w) = .ok (.done, s.writeKeypad w) := rfl
          rw [fetched_cons_of_ne (by simp) happly]
          exact ih (s := s.writeKeypad w) hpark hrest htail
      | _ => cases hop

/-! ## The whole wait -/

/-- The instruction parks the interpreter, whatever keys are held, and it stays parked as long as
each step finds none. The first step that finds keys takes the least of them; what was pressed and
released between two steps is as if it never was. -/
theorem parks_until_held (h : s.current? = some (.awaitKey x))
    (hops : ∀ op ∈ ops, op.drives = true) (hheld : Unheld s.machine.keypad ops) :
    s.step = .ok ⟨none, s.parked x⟩ ∧
      ∃ (hx : x.toNat < registerCount) (rs : List Response) (t : Interpreter),
        (s.parked x).applyAll ops = .ok (rs, t) ∧
        (t.runState = .awaitingKey x ∧ t.machine.pc = s.machine.pc ∧
          t.machine.keypad = keypadAfter s.machine.keypad ops ∧ (s.parked x).fetched ops = []) ∧
        (t.machine.keypad.held = [] → t.step = .ok ⟨none, t⟩) ∧
        (t.machine.keypad.held ≠ [] → ∃ key ∈ t.machine.keypad.held,
          (∀ other ∈ t.machine.keypad.held, key ≤ other) ∧
          t.step = .ok ⟨none, t.keyTaken x key hx⟩ ∧
          (t.keyTaken x key hx).machine.pc.toNat = s.machine.pc.toNat + 2) ∧
        (∀ others, (∀ op ∈ others, op.drives = true) → Unheld s.machine.keypad others →
          others.count .tick = ops.count .tick →
          (∀ key, key ∈ (keypadAfter s.machine.keypad others).held ↔
            key ∈ (keypadAfter s.machine.keypad ops).held) →
          ∃ rs', (s.parked x).applyAll others = .ok (rs', t)) := by
  rcases row_of_current? h with ⟨hpc, hrow⟩
  have hx : x.toNat < registerCount := Instruction.registers_lt_of_row hrow x (.head _)
  have hparked : (s.parked x).runState = .awaitingKey x := rfl
  rcases applyAll_parked hparked hops hheld with ⟨rs, hall⟩
  refine ⟨step_of_awaitKey h, hx, rs, _, hall, ?_⟩
  generalize ht : (tick^[ops.count .tick] (s.parked x)).withKeypad
    (keypadAfter (s.parked x).machine.keypad ops) = t
  have hrun : t.runState = .awaitingKey x := by
    rw [← ht]
    exact runState_tick_iterate (s.parked x) _
  have hplace : t.machine.pc = s.machine.pc := by
    rw [← ht]
    exact pc_tick_iterate (s.parked x) _
  have hkeys : t.machine.keypad = keypadAfter s.machine.keypad ops := by
    rw [← ht]
    rfl
  have hfits : t.machine.pc.toNat + 2 < 0x10000 := by
    rw [hplace]
    omega
  refine ⟨⟨hrun, hplace, hkeys, fetched_of_parked hparked hops hheld⟩, step_of_held_eq_nil hrun,
    ?_, ?_⟩
  · intro hsome
    rw [← hplace]
    exact step_of_held_ne_nil hrun hx hfits hsome
  · intro others hothers hheld' hcount hsame
    rcases applyAll_parked hparked hothers hheld' with ⟨rs', hall'⟩
    have hkeypad : keypadAfter s.machine.keypad others = keypadAfter s.machine.keypad ops :=
      Keypad.eq_of_mem_held_iff hsame
    have hpoint : keypadAfter (s.parked x).machine.keypad others =
        keypadAfter (s.parked x).machine.keypad ops := hkeypad
    rw [hcount, hpoint, ht] at hall'
    exact ⟨rs', hall'⟩

/-- A key is held when the instruction is reached, and does not count.  Another one is pressed and
released again between two steps.  In the end two keys are held, and the lesser one is taken. -/
theorem parks_until_held_two :
    let s := ((start (.ofSeed 3)).load [0xF3, 0x0A]).next.writeKeypad (.set 7 true)
    let ops : List Operation := [.writeKeypad (.set 7 false), .step, .tick,
      .writeKeypad (.set 5 true), .writeKeypad (.set 5 false), .step,
      .writeKeypad (.set 9 true), .writeKeypad (.set 4 true), .tick]
    s.current? = some (.awaitKey 3) ∧ (∀ op ∈ ops, op.drives = true) ∧
      Unheld s.machine.keypad ops ∧
      ∃ rs t next, (s.parked 3).applyAll ops = .ok (rs, t) ∧
        t.machine.keypad.held = [4, 9] ∧ t.step = .ok ⟨none, next⟩ ∧
        next.machine.registers[3] = 4 ∧ next.machine.pc.toNat = 0x202 := by
  intro s ops
  have hcurrent : s.current? = some (.awaitKey 3) := by decide +kernel
  have hops : ∀ op ∈ ops, op.drives = true := by decide
  have hheld : Unheld s.machine.keypad ops := by decide +kernel
  rcases parks_until_held hcurrent hops hheld with ⟨-, hx, rs, t, hall, -, -, htakes, -⟩
  have hkeys : ((s.parked 3).applyAll ops).toOption.map
      (fun result => result.2.machine.keypad.held) = some [4, 9] := by
    decide +kernel
  rw [hall] at hkeys
  have hfour : t.machine.keypad.held = [4, 9] := Option.some.inj hkeys
  rcases htakes (by rw [hfour]; decide) with ⟨key, hkey, hleast, hstep, hpc⟩
  have hmin : key = 4 := by
    rw [hfour] at hkey hleast
    have hle : key ≤ 4 := hleast 4 (.head _)
    rcases List.mem_cons.1 hkey with rfl | hnine
    · rfl
    · rw [List.mem_singleton.1 hnine] at hle
      exact absurd hle (by decide)
  refine ⟨hcurrent, hops, hheld, rs, t, _, hall, hfour, hstep, ?_, hpc⟩
  rw [hmin]
  exact Vector.getElem_set_self hx

end Interpreter
end Chip8
