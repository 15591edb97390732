import Chip8.Proofs.Interpreter.Resetting
import Chip8.Proofs.Keypad.Latch

/-!
# Writers — several handles of one keypad

Each writer has a handle, and the calls of all of them come in some order, one at a time.  All
handles write the latch that the machine reads, so what is held in the end depends on the order of
the calls and not on who made them.  Since a write of one key leaves the others alone, a key that
only one writer touches is held as if there were no others.

Main statement: `writers_share_keys`.
-/

namespace Chip8

/-- Writing the keys of an interpreter writes those of its machine. -/
@[simp]
theorem Interpreter.keypad_writeKeypads (s : Interpreter) (ws : List Keypad.Write) :
    (s.writeKeypads ws).machine.keypad = s.machine.keypad.writeAll ws := by
  induction ws generalizing s with
  | nil => rfl
  | cons w rest ih => exact ih (s.writeKeypad w)

namespace Session

open Keypad (PressedLast)

variable {s t : Session} {acts : List Act} {handle : Nat} {key : UInt8}

/-! ## Calls of the writers -/

/-- The act makes a handle or uses one. -/
def Act.wires : Act → Bool
  | .ask _ => false
  | .obtain | .write .. => true

def Act.write? : Act → Option Keypad.Write
  | .write _ w => some w
  | .ask _ | .obtain => none

/-- What is written through one handle. -/
def Act.writeVia? (handle : Nat) : Act → Option Keypad.Write
  | .write other w => if other = handle then some w else none
  | .ask _ | .obtain => none

/-- All that is written, by whom ever. -/
def writes (acts : List Act) : List Keypad.Write :=
  acts.filterMap Act.write?

def writesVia (handle : Nat) (acts : List Act) : List Keypad.Write :=
  acts.filterMap (Act.writeVia? handle)

@[simp]
theorem writes_nil : writes [] = [] := rfl

@[simp]
theorem writes_cons (a : Act) (rest : List Act) :
    writes (a :: rest) = a.write?.toList ++ writes rest := by
  cases a with
  | ask | obtain | write => rfl

@[simp]
theorem writesVia_nil (handle : Nat) : writesVia handle [] = [] := rfl

@[simp]
theorem writesVia_cons (handle : Nat) (a : Act) (rest : List Act) :
    writesVia handle (a :: rest) = (a.writeVia? handle).toList ++ writesVia handle rest := by
  simp only [writesVia, List.filterMap_cons]
  cases a.writeVia? handle with
  | none => rfl
  | some w => rfl

/-- Seen from the interpreter, such acts are nothing but writes. -/
theorem operations_of_wires (h : ∀ a ∈ acts, a.wires = true) :
    operations acts = (writes acts).map .writeKeypad := by
  induction acts with
  | nil => rfl
  | cons a rest ih =>
      rcases List.forall_mem_cons.1 h with ⟨ha, hrest⟩
      cases a with
      | ask op => cases ha
      | obtain => simpa [Act.write?] using ih hrest
      | write handle w => simpa [Act.write?] using ih hrest

/-- The calls go through, and the machine reads what they have written. -/
theorem run_of_wires (hconnected : s.Connected) (hwires : ∀ a ∈ acts, a.wires = true)
    (hholds : Holds s.handles.length acts) :
    ∃ rs t, s.run acts = .ok (rs, t) ∧
      t.interpreter.machine.keypad = s.interpreter.machine.keypad.writeAll (writes acts) := by
  have hseen := seen_run hconnected hholds
  rcases s.interpreter.meets_writeKeypads (writes acts) with ⟨responses, hall, -⟩
  rw [operations_of_wires hwires, hall] at hseen
  cases hrun : s.run acts with
  | error b =>
      rw [hrun] at hseen
      cases hseen
  | ok result =>
      rw [hrun] at hseen
      have hlast : result.2.interpreter = s.interpreter.writeKeypads (writes acts) :=
        congrArg Prod.snd (Except.ok.inj hseen)
      refine ⟨result.1, result.2, rfl, ?_⟩
      rw [hlast, Interpreter.keypad_writeKeypads]

/-- Calls of the other writers that do not concern a key might as well not have been made. -/
theorem foldl_holds_writes
    (h : ∀ other w, .write other w ∈ acts → other ≠ handle → w.concerns key = false) (held : Bool) :
    (writes acts).foldl (fun held w => w.holds key held) held =
      (writesVia handle acts).foldl (fun held w => w.holds key held) held := by
  induction acts generalizing held with
  | nil => rfl
  | cons a rest ih =>
      have hrest : ∀ other w, .write other w ∈ rest → other ≠ handle → w.concerns key = false :=
        fun other w hmem => h other w (.tail _ hmem)
      cases a with
      | ask | obtain => simpa [Act.write?, Act.writeVia?] using ih hrest held
      | write other w =>
          -- a write through another handle is missing on the right, and does nothing on the left
          by_cases hother : other = handle
          · simpa [Act.write?, Act.writeVia?, hother] using ih hrest (w.holds key held)
          · have hsilent : w.holds key held = held :=
              Keypad.Write.holds_of_not_concerns (h other w (.head _) hother) held
            simpa [Act.write?, Act.writeVia?, hother, hsilent] using ih hrest held

/-- For the key of one writer the calls of that writer decide. -/
theorem pressedLast_writes
    (h : ∀ other w, .write other w ∈ acts → other ≠ handle → w.concerns key = false) :
    PressedLast key (writes acts) ↔ PressedLast key (writesVia handle acts) := by
  rw [Keypad.pressedLast_iff_foldl, Keypad.pressedLast_iff_foldl, foldl_holds_writes h]

/-- Two calls reach the same latch, through whichever handles. -/
theorem Connected.writeThrough_writeThrough (h : s.Connected) {handle' : Nat}
    (hhandle : handle < s.handles.length) (hhandle' : handle' < s.handles.length)
    (w w' : Keypad.Write) :
    (s.writeThrough handle w).writeThrough handle' w' =
      { s with interpreter := { s.interpreter with machine := { s.interpreter.machine with
          keypad := (s.interpreter.machine.keypad.write w).write w' } } } := by
  have hnext : Connected { s with interpreter := s.interpreter.writeKeypad w } := h
  rw [h.writeThrough hhandle, hnext.writeThrough hhandle']
  rfl

/-! ## All writers together -/

/-- A new machine whose keypad is written through any number of handles, made at any time and used
in any order. Those keys are held that were pressed last, by whom ever, since all were released, and
for a key that is the business of one writer the calls of that writer are enough. -/
theorem writers_share_keys (g : Generator) (latch : Nat) {acts : List Act}
    (hwires : ∀ a ∈ acts, a.wires = true) (hholds : Holds 0 acts) :
    ∃ rs t, (start g latch).run acts = .ok (rs, t) ∧
      let k := t.interpreter.machine.keypad
      (∀ key, key ∈ k.held ↔ key.toNat < 16 ∧ PressedLast key (writes acts)) ∧
      (∀ key, k.isPressed key = true ↔ key % 16 ∈ k.held) ∧
      (∀ key, k.lowestPressed = some key ↔ key ∈ k.held ∧ ∀ other ∈ k.held, key ≤ other) ∧
      (k.lowestPressed = none ↔ k.held = []) ∧
      (k.latch ≠ 0 → k.lowestPressed = some (UInt8.ofNat k.latch.ctz.toNat)) ∧
      (∀ handle < t.handles.length, ∀ key pressed,
        (16 ≤ key.toNat → t.writeThrough handle (.set key pressed) = t) ∧
        (∀ other ≠ key, other ∈ (t.writeThrough handle
          (.set key pressed)).interpreter.machine.keypad.held ↔ other ∈ k.held) ∧
        ∀ handle' < t.handles.length, ∀ key' ≠ key, ∀ pressed',
          (t.writeThrough handle (.set key pressed)).writeThrough handle' (.set key' pressed') =
            (t.writeThrough handle' (.set key' pressed')).writeThrough handle
              (.set key pressed)) ∧
      ∀ handle key,
        (∀ other w, .write other w ∈ acts → other ≠ handle → w.concerns key = false) →
        (key ∈ k.held ↔ key.toNat < 16 ∧ PressedLast key (writesVia handle acts)) := by
  have hnew : (start g latch).Connected := fun _ hlatch => absurd hlatch List.not_mem_nil
  rcases run_of_wires hnew hwires hholds with ⟨rs, t, hrun, hkeypad⟩
  have hconnected : t.Connected := hnew.run hrun
  have hheld : ∀ key, key ∈ t.interpreter.machine.keypad.held ↔
      key.toNat < 16 ∧ PressedLast key (writes acts) := by
    intro key
    rw [hkeypad]
    exact Keypad.mem_held_writeAll key (writes acts)
  -- what can be asked of the keypad is a question about its held keys
  refine ⟨rs, t, hrun, hheld, fun key => Keypad.isPressed_iff_mem_held,
    fun key => Keypad.lowestPressed_eq_some_iff, Keypad.lowestPressed_eq_none_iff,
    Keypad.lowestPressed_eq_ctz, ?_, ?_⟩
  · intro handle hhandle key pressed
    refine ⟨fun hkey => ?_, fun other hother => ?_, fun handle' hhandle' key' hkey' pressed' => ?_⟩
    · rw [hconnected.writeThrough hhandle, Interpreter.writeKeypad, Machine.writeKeypad,
        Keypad.write_of_ge hkey]
    · have hsilent : (Keypad.Write.set key pressed).concerns other = false :=
        beq_false_of_ne hother.symm
      rw [hconnected.writeThrough hhandle]
      exact Keypad.mem_held_write_of_not_concerns hsilent
    · rw [hconnected.writeThrough_writeThrough hhandle hhandle',
        hconnected.writeThrough_writeThrough hhandle' hhandle, Keypad.write_set_comm hkey'.symm]
  · intro handle key hothers
    rw [hheld, pressedLast_writes hothers]

/-- Two writers press and release keys.  One of them calls for a key that there is not, the other
releases all keys on the way, and key five is the business of the second writer alone. -/
theorem writers_share_keys_two :
    let acts : List Act := [.obtain, .write 0 (.set 2 true), .obtain, .write 1 .releaseAll,
      .write 0 (.set 0xC true), .write 1 (.set 5 true), .write 0 (.set 0x15 false),
      .write 1 (.set 9 true), .write 0 (.set 9 false)]
    ((∀ a ∈ acts, a.wires = true) ∧ Holds 0 acts ∧
      (∀ a ∈ acts, ∀ other w, a = .write other w → other ≠ 1 → w.concerns 5 = false)) ∧
      PressedLast 5 (writesVia 1 acts) ∧
      ∃ rs t, (start (.ofSeed 3) 0).run acts = .ok (rs, t) ∧
        t.interpreter.machine.keypad.held = [5, 0xC] ∧
        5 ∈ t.interpreter.machine.keypad.held ∧
        t.interpreter.machine.keypad.isPressed 0xF5 = true ∧
        t.interpreter.machine.keypad.lowestPressed = some 5 := by
  intro acts
  have hwires : ∀ a ∈ acts, a.wires = true := by decide
  have hholds : Holds 0 acts := by simp [acts, Holds]
  have hothers : ∀ a ∈ acts, ∀ other w, a = .write other w → other ≠ 1 →
      w.concerns 5 = false := by
    simp [acts, Keypad.Write.concerns]
  have hfive : PressedLast 5 (writesVia 1 acts) :=
    ⟨[.releaseAll], [.set 9 true], by decide, by decide⟩
  have hkeys : ((start (.ofSeed 3) 0).run acts).toOption.map
      (fun result => result.2.interpreter.machine.keypad.held) = some [5, 0xC] := by
    decide +kernel
  rcases writers_share_keys (.ofSeed 3) 0 hwires hholds with
    ⟨rs, t, hrun, -, hpressed, hlowest, -, -, -, hvia⟩
  rw [hrun] at hkeys
  have hheld : t.interpreter.machine.keypad.held = [5, 0xC] := Option.some.inj hkeys
  have hmem : 5 ∈ t.interpreter.machine.keypad.held :=
    (hvia 1 5 fun other w hact => hothers _ hact other w rfl).2 ⟨by decide, hfive⟩
  refine ⟨⟨hwires, hholds, hothers⟩, hfive, rs, t, hrun, hheld, hmem, (hpressed 0xF5).2 hmem,
    (hlowest 5).2 ⟨hmem, ?_⟩⟩
  rw [hheld]
  decide +kernel

end Session
end Chip8
