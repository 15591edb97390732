import Chip8.Proofs.Interpreter.History

/-!
# Resetting — a reset leaves no trace of the past

Whoever writes the keypad does so through a handle, and keeps it.  A `Session` is an interpreter
with the handles that were given out: the machine reads one latch, and each handle writes the latch
that the machine read when the handle was made.  A reset releases the keys of that latch and does
not put another one in its place.  So all handles stay `Connected`, and a history of a session is
one of its interpreter, whichever handle each write goes through.

Of the interpreter itself a reset leaves nothing but the generator.  What comes after it depends on
the generator alone.

Main statement: `reset_forgets`.
-/

namespace Chip8

/-- An interpreter and those who write its keypad. -/
structure Session where
  interpreter : Interpreter
  -- the name of the latch that the machine reads
  latch : Nat
  -- for each handle the latch that it writes, the oldest first
  handles : List Nat := []
  deriving DecidableEq

namespace Session

inductive Act where
  | ask (op : Operation)
  -- make another handle for the keypad
  | obtain
  -- change the keypad through a handle, counted from the oldest
  | write (handle : Nat) (w : Keypad.Write)
  deriving DecidableEq, Repr

variable {s t : Session} {a : Act} {acts later : List Act} {n : Nat} {r? : Option Response}
  {rs : List Response}

/-! ## Sessions -/

/-- A new interpreter whose keypad is the latch of this name. -/
def start (g : Generator) (latch : Nat) : Session where
  interpreter := .start g
  latch := latch

/-- What is written to another latch, or through a missing handle, does not reach the machine. -/
def writeThrough (s : Session) (handle : Nat) (w : Keypad.Write) : Session :=
  if s.handles[handle]? = some s.latch then
    { s with interpreter := s.interpreter.writeKeypad w }
  else s

def act (s : Session) : Act → Except Breach (Option Response × Session)
  | .ask op => do
      let (response, next) ← s.interpreter.apply op
      -- no operation gives the machine another latch, a reset as little as any other
      return (some response, { s with interpreter := next })
  -- making a handle is not answered
  | .obtain => return (none, { s with handles := s.handles ++ [s.latch] })
  | .write handle w => return (some .done, s.writeThrough handle w)

def run (s : Session) : List Act → Except Breach (List Response × Session)
  | [] => return ([], s)
  | a :: rest => do
      let (response?, next) ← s.act a
      let (responses, last) ← next.run rest
      return (response?.toList ++ responses, last)

def seen (result : List Response × Session) : List Response × Interpreter :=
  (result.1, result.2.interpreter)

theorem act_ask_ok {op : Operation} {r : Response} {next : Interpreter}
    (h : s.interpreter.apply op = .ok (r, next)) :
    s.act (.ask op) = .ok (some r, { s with interpreter := next }) := by
  rw [act, h]
  rfl

theorem act_ask_error {op : Operation} {b : Breach} (h : s.interpreter.apply op = .error b) :
    s.act (.ask op) = .error b := by
  rw [act, h]
  rfl

theorem run_cons_ok (h : s.act a = .ok (r?, t)) (rest : List Act) :
    s.run (a :: rest) = (t.run rest).map fun result => (r?.toList ++ result.1, result.2) := by
  rw [run, h]
  show t.run rest >>= _ = _
  cases t.run rest with
  | error b => rfl
  | ok result => rfl

/-- An act without an answer ends the run. -/
theorem run_cons_error {b : Breach} (h : s.act a = .error b) (rest : List Act) :
    s.run (a :: rest) = .error b := by
  rw [run, h]
  rfl

/-! ## Handles -/

/-- Every handle writes the latch that the machine reads. -/
def Connected (s : Session) : Prop :=
  ∀ latch ∈ s.handles, latch = s.latch

/-- A connected handle writes the keypad of the machine. -/
theorem Connected.writeThrough (h : s.Connected) {handle : Nat}
    (hhandle : handle < s.handles.length) (w : Keypad.Write) :
    s.writeThrough handle w = { s with interpreter := s.interpreter.writeKeypad w } := by
  have hlatch : s.handles[handle]? = some s.latch := by
    rw [List.getElem?_eq_getElem hhandle, h _ (List.getElem_mem hhandle)]
  rw [Session.writeThrough, if_pos hlatch]

/-- Whatever is done, handles that were connected stay so, and a new one is. -/
theorem Connected.act (h : s.Connected) (hact : s.act a = .ok (r?, t)) : t.Connected := by
  cases a with
  | ask op =>
      cases happly : s.interpreter.apply op with
      | error b =>
          rw [act_ask_error happly] at hact
          cases hact
      | ok answer =>
          rw [act_ask_ok happly] at hact
          cases hact
          exact h
  | obtain =>
      cases hact
      intro latch hlatch
      rcases List.mem_append.1 hlatch with hold | hnew
      · exact h latch hold
      · exact List.mem_singleton.1 hnew
  | write handle w =>
      cases hact
      unfold Session.writeThrough
      split
      · exact h
      · exact h

/-- So handles stay connected through a run. -/
theorem Connected.run (h : s.Connected) (hrun : s.run acts = .ok (rs, t)) : t.Connected := by
  induction acts generalizing s rs with
  | nil =>
      cases hrun
      exact h
  | cons a rest ih =>
      cases hact : s.act a with
      | error b =>
          rw [run_cons_error hact] at hrun
          cases hrun
      | ok first =>
          rw [run_cons_ok hact] at hrun
          cases hrest : first.2.run rest with
          | error b =>
              rw [hrest] at hrun
              cases hrun
          | ok result =>
              rw [hrest] at hrun
              cases hrun
              exact ih (h.act hact) hrest

/-- Every handle that is used was made before.  In the beginning there are `n` of them. -/
def Holds : Nat → List Act → Prop
  | _, [] => True
  | n, .ask _ :: rest => Holds n rest
  | n, .obtain :: rest => Holds (n + 1) rest
  | n, .write handle _ :: rest => handle < n ∧ Holds n rest

/-! ## Histories of a session -/

def Act.operation? : Act → Option Operation
  | .ask op => some op
  | .obtain => none
  | .write _ w => some (.writeKeypad w)

def operations (acts : List Act) : List Operation :=
  acts.filterMap Act.operation?

@[simp]
theorem operations_nil : operations [] = [] := rfl

@[simp]
theorem operations_ask (op : Operation) (rest : List Act) :
    operations (.ask op :: rest) = op :: operations rest := rfl

@[simp]
theorem operations_obtain (rest : List Act) : operations (.obtain :: rest) = operations rest := rfl

@[simp]
theorem operations_write (handle : Nat) (w : Keypad.Write) (rest : List Act) :
    operations (.write handle w :: rest) = .writeKeypad w :: operations rest := rfl

theorem map_seen (r? : Option Response) (outcome : Except Breach (List Response × Session)) :
    (outcome.map fun result => (r?.toList ++ result.1, result.2)).map seen =
      (outcome.map seen).map fun result => (r?.toList ++ result.1, result.2) := by
  cases outcome with
  | error b => rfl
  | ok result => rfl

/-- While all handles are connected, what is done in a session is done to its interpreter. -/
theorem seen_run (hconnected : s.Connected) (hholds : Holds s.handles.length acts) :
    (s.run acts).map seen = s.interpreter.applyAll (operations acts) := by
  induction acts generalizing s with
  | nil => rfl
  | cons a rest ih =>
      cases a with
      | ask op =>
          cases happly : s.interpreter.apply op with
          | error b =>
              rw [run_cons_error (act_ask_error happly)]
              exact (Interpreter.applyAll_cons_error happly _).symm
          | ok answer =>
              have hnext := ih (s := { s with interpreter := answer.2 }) hconnected hholds
              rw [run_cons_ok (act_ask_ok happly), map_seen, hnext]
              exact (Interpreter.applyAll_cons_ok happly _).symm
      | obtain =>
          -- nothing is asked of the interpreter, and the rest may use one handle more
          have hact : s.act .obtain =
              .ok (none, { s with handles := s.handles ++ [s.latch] }) := rfl
          have hmore : Holds (s.handles ++ [s.latch]).length rest := by
            rw [List.length_append]
            exact hholds
          rw [run_cons_ok hact, map_seen, ih (hconnected.act hact) hmore, operations_obtain]
          cases s.interpreter.applyAll (operations rest) with
          | error b => rfl
          | ok result => rfl
      | write handle w =>
          rcases hholds with ⟨hhandle, hrest⟩
          have hact : s.act (.write handle w) =
              .ok (some .done, { s with interpreter := s.interpreter.writeKeypad w }) := by
            rw [act, hconnected.writeThrough hhandle]
            rfl
          have happly : s.interpreter.apply (.writeKeypad w) =
              .ok (.done, s.interpreter.writeKeypad w) := rfl
          have hnext := ih (s := { s with interpreter := s.interpreter.writeKeypad w })
            hconnected hrest
          rw [run_cons_ok hact, map_seen, hnext]
          exact (Interpreter.applyAll_cons_ok happly _).symm

/-! ## After a reset -/

/-- What comes after a reset depends on the generator alone. -/
theorem applyAll_reset {s t : Interpreter} (h : t.generator = s.generator) (ops : List Operation) :
    t.applyAll (.reset :: ops) = s.applyAll (.reset :: ops) := by
  have hsame : t.reset = s.reset := by
    rw [Interpreter.reset_eq_start, Interpreter.reset_eq_start, h]
  have happly (s : Interpreter) : s.apply .reset = .ok (.done, s.reset) := rfl
  rw [Interpreter.applyAll_cons_ok (happly s), Interpreter.applyAll_cons_ok (happly t), hsame]

/-- Take two sessions with any past, in which the generators have come to the same state. After a
reset and the load of a program the same operations, with the same writes through any of the handles
on each side, are answered alike and lead to the same interpreter. -/
theorem reset_forgets {g g' : Generator} {latch latch' : Nat}
    {before before' later later' : List Act} {rs rs' : List Response} {s t : Session}
    (hs : (start g latch).run before = .ok (rs, s))
    (ht : (start g' latch').run before' = .ok (rs', t))
    (hgenerator : t.interpreter.generator = s.interpreter.generator)
    (hlater : Holds s.handles.length later) (hlater' : Holds t.handles.length later')
    (hsame : operations later' = operations later) (program : List UInt8) :
    s.interpreter.reset = .start s.interpreter.generator ∧
      (t.run (.ask .reset :: .ask (.load program) :: later')).map seen =
        (s.run (.ask .reset :: .ask (.load program) :: later)).map seen := by
  have hnew (g : Generator) (latch : Nat) : (start g latch).Connected :=
    fun _ hlatch => absurd hlatch List.not_mem_nil
  have hconnected : s.Connected := (hnew g latch).run hs
  have hconnected' : t.Connected := (hnew g' latch').run ht
  -- both sessions are as good as their interpreters, which the reset makes equal
  refine ⟨Interpreter.reset_eq_start _, ?_⟩
  have hback : Holds s.handles.length (.ask .reset :: .ask (.load program) :: later) := hlater
  have hback' : Holds t.handles.length (.ask .reset :: .ask (.load program) :: later') := hlater'
  calc
    (t.run (.ask .reset :: .ask (.load program) :: later')).map seen
        = t.interpreter.applyAll (.reset :: .load program :: operations later') :=
          seen_run hconnected' hback'
    _ = t.interpreter.applyAll (.reset :: .load program :: operations later) := by rw [hsame]
    _ = s.interpreter.applyAll (.reset :: .load program :: operations later) :=
          applyAll_reset hgenerator _
    _ = (s.run (.ask .reset :: .ask (.load program) :: later)).map seen :=
          (seen_run hconnected hback).symm

/-- A session that has halted on a fault while a key was held, and a new one.  A key is pressed
through the old handle there, and through a handle made after the reset here. -/
theorem reset_forgets_fault :
    let past : List Act :=
      [.obtain, .write 0 (.set 5 true), .ask (.load [0x00, 0xEE]), .ask .step]
    let later : List Act := [.ask .step, .write 0 (.set 0xC true), .ask .step]
    let later' : List Act := [.obtain, .ask .step, .write 0 (.set 0xC true), .ask .step]
    let t := start (.ofSeed 3) 1
    ∃ s, (start (.ofSeed 3) 0).run past =
        .ok ([.done, .done, .refused (.stackUnderflow 0x200)], s) ∧
      t.run [] = .ok ([], t) ∧ t.interpreter.generator = s.interpreter.generator ∧
      Holds s.handles.length later ∧ Holds t.handles.length later' ∧
      operations later' = operations later ∧
      (t.run (.ask .reset :: .ask (.load [0xF3, 0x0A]) :: later')).map seen =
        (s.run (.ask .reset :: .ask (.load [0xF3, 0x0A]) :: later)).map seen := by
  intro past later later' t
  have hpast : ((start (.ofSeed 3) 0).run past).toOption.map
      (fun result => (result.1, result.2.interpreter.generator, result.2.handles)) =
        some ([.done, .done, .refused (.stackUnderflow 0x200)], .ofSeed 3, [0]) := by
    decide +kernel
  cases hrun : (start (.ofSeed 3) 0).run past with
  | error b =>
      rw [hrun] at hpast
      cases hpast
  | ok result =>
      rcases result with ⟨rs, s⟩
      rw [hrun] at hpast
      have hparts := Option.some.inj hpast
      have hrs : rs = _ := congrArg Prod.fst hparts
      have hgenerator : s.interpreter.generator = .ofSeed 3 := congrArg (fun p => p.2.1) hparts
      have hhandles : s.handles = [0] := congrArg (fun p => p.2.2) hparts
      have hlater : Holds s.handles.length later := by
        rw [hhandles]
        exact ⟨Nat.zero_lt_one, trivial⟩
      have hlater' : Holds t.handles.length later' := ⟨Nat.zero_lt_one, trivial⟩
      have hforgets := reset_forgets hrun (rfl : t.run [] = .ok ([], t)) hgenerator.symm hlater
        hlater' rfl [0xF3, 0x0A]
      exact ⟨s, by rw [hrs], rfl, hgenerator.symm, hlater, hlater', rfl, hforgets.2⟩

end Session
end Chip8
