import Chip8.Proofs.Interpreter.Outcomes
import Mathlib.Data.List.Induction

/-!
# History — what an operation leaves, and what a history does

`carriedOut` lists the instructions that an operation carries out.  `ApplyOutcome` goes through all
operations and says which state each of them leaves: those that run instructions leave the `effects`
of what they carried out, and the others change a part of the state by themselves.

`applyAll_induction` builds a statement about a history up from its beginning, one operation at a
time, so that it can speak of the operations and answers so far.  `Leads` is a history without its
answers, which can be put together and taken apart.
-/

namespace Chip8

def Operation.executes : Operation → Bool
  | .step | .execute _ | .executeMany _ => true
  | _ => false

def Response.fault? : Response → Option Fault
  | .refused f => some f
  | _ => none

/-- The faults that a history was answered with. -/
def refusals (rs : List Response) : List Fault :=
  rs.filterMap Response.fault?

@[simp]
theorem refusals_nil : refusals [] = [] := rfl

@[simp]
theorem refusals_cons (r : Response) (rs : List Response) :
    refusals (r :: rs) = r.fault?.toList ++ refusals rs := by
  cases r with
  | _ => rfl

namespace Interpreter

variable {s t : Interpreter} {op : Operation} {r : Response} {o : Outcome}

/-! ## Instructions carried out -/

/-- The instructions of a list that are carried out when the list is run. -/
def carriedOutMany (s : Interpreter) : List Instruction → List Instruction
  | [] => []
  | i :: rest =>
      match s.execute i with
      | .ok ⟨none, next⟩ => i :: next.carriedOutMany rest
      | _ => []

/-- The instructions that an operation carries out.  One that is refused is not among them. -/
def carriedOut (s : Interpreter) : Operation → List Instruction
  | .step =>
      match s.step with
      | .ok ⟨none, _⟩ => s.current?.toList
      | _ => []
  | .execute i => s.carriedOutMany [i]
  | .executeMany program => s.carriedOutMany program
  | _ => []

def effects (s : Interpreter) (program : List Instruction) : Interpreter :=
  program.foldl effect s

@[simp]
theorem effects_nil (s : Interpreter) : s.effects [] = s := rfl

@[simp]
theorem effects_cons (s : Interpreter) (i : Instruction) (rest : List Instruction) :
    s.effects (i :: rest) = (s.effect i).effects rest := rfl

/-- A list that is run leaves the effects of what it carries out, but for the run state. -/
theorem executeMany_effects {program : List Instruction} (h : s.executeMany program = .ok o) :
    ∃ runState, o.next = { s.effects (s.carriedOutMany program) with runState } := by
  induction program generalizing s with
  | nil =>
      cases h
      exact ⟨s.runState, rfl⟩
  | cons i rest ih =>
      rcases executeMany_cases h with ⟨hfirst, hrest⟩ | ⟨f, hfirst, rfl⟩
      · -- the rest of the list begins after the effect of its first instruction
        have hcons : s.carriedOutMany (i :: rest) = i :: (s.effect i).carriedOutMany rest := by
          simp only [carriedOutMany, hfirst]
        rw [hcons]
        exact ih hrest
      · have hnil : s.carriedOutMany (i :: rest) = [] := by
          simp only [carriedOutMany, hfirst]
        rw [hnil]
        exact ⟨.faulted f, rfl⟩

/-! ## Single operations -/

/-- The answer and the state that an operation can end with. -/
inductive ApplyOutcome (s : Interpreter) : Operation → Response × Interpreter → Prop where
  | ran {op : Operation} (o : Outcome) (runState : RunState) : op.executes = true →
      o.next = { s.effects (s.carriedOut op) with runState } →
      ApplyOutcome s op (o.response, o.next)
  -- a look at the keypad carries out no instruction
  | polled {x : UInt8} : s.runState = .awaitingKey x → s.carriedOut .step = [] →
      ApplyOutcome s .step (.done, s.polled x)
  | tick : ApplyOutcome s .tick (.flag s.tickBeeps, s.tick)
  | load (program : List UInt8) (o : Outcome) (memory : Memory) :
      o.next = { s with machine := { s.machine with memory } } →
      ApplyOutcome s (.load program) (o.response, o.next)
  | reset : ApplyOutcome s .reset (.done, s.reset)
  | takeFrame : ApplyOutcome s .takeFrame (.frame s.frame?, s.frameTaken)
  | takeBeep : ApplyOutcome s .takeBeep (.flag s.beepPending, s.beepTaken)
  | writeKeypad (w : Keypad.Write) : ApplyOutcome s (.writeKeypad w) (.done, s.writeKeypad w)

/-- A step runs an instruction, looks at the keypad or is refused. -/
theorem apply_outcome_step (h : s.step = .ok o) :
    ApplyOutcome s .step (o.response, o.next) := by
  cases step_outcome h with
  | @performed i hi _ =>
      refine .ran ⟨none, s.effect i⟩ (s.effect i).runState rfl ?_
      simp only [carriedOut, h, hi]
      rfl
  | polled hx =>
      refine .polled hx ?_
      have hcurrent : s.current? = none := by
        simp only [current?, hx]
      simp only [carriedOut, h, hcurrent]
      rfl
  | @refused f _ =>
      refine .ran ⟨some f, _⟩ (.faulted f) rfl ?_
      simp only [carriedOut, h]
      rfl

/-- No operation ends in another way. -/
theorem apply_outcome (h : s.apply op = .ok (r, t)) : ApplyOutcome s op (r, t) := by
  cases op with
  | step =>
      rcases outcome_of_answer h with ⟨o, hstep, rfl, rfl⟩
      exact apply_outcome_step hstep
  | execute i =>
      rcases outcome_of_answer h with ⟨o, hexec, rfl, rfl⟩
      rw [← executeMany_singleton] at hexec
      rcases executeMany_effects hexec with ⟨runState, hnext⟩
      exact .ran o runState rfl hnext
  | executeMany program =>
      rcases outcome_of_answer h with ⟨o, hexec, rfl, rfl⟩
      rcases executeMany_effects hexec with ⟨runState, hnext⟩
      exact .ran o runState rfl hnext
  | load program =>
      cases h
      rcases s.load_keeps program with ⟨memory, hnext⟩
      exact .load program _ memory hnext
  | tick =>
      cases h
      exact .tick
  | reset =>
      cases h
      exact .reset
  | takeFrame =>
      cases h
      exact .takeFrame
  | takeBeep =>
      cases h
      exact .takeBeep
  | writeKeypad w =>
      cases h
      exact .writeKeypad w

/-! ## Histories from their beginning -/

/-- The last operation of a history begins where the others have led. -/
theorem applyAll_concat {ops : List Operation} {rs : List Response}
    (h : s.applyAll (ops ++ [op]) = .ok (rs, t)) :
    ∃ before u r, s.applyAll ops = .ok (before, u) ∧ u.apply op = .ok (r, t) ∧
      rs = before ++ [r] := by
  induction ops generalizing s rs with
  | nil =>
      rcases applyAll_cons h with ⟨r, last, next, happly, hnil, rfl⟩
      cases hnil
      exact ⟨[], s, r, rfl, happly, rfl⟩
  | cons first rest ih =>
      rcases applyAll_cons h with ⟨r, later, next, happly, hrest, rfl⟩
      rcases ih hrest with ⟨before, u, last, hbefore, hlast, rfl⟩
      refine ⟨r :: before, u, last, ?_, hlast, rfl⟩
      simp only [applyAll, happly, bind, Except.bind, hbefore]
      rfl

/-- A place in a history of one more element: the last one, or a place in the history before. -/
theorem place_in_concat {α : Type} {front before later : List α} {first last : α}
    (h : front ++ [last] = before ++ first :: later) :
    (before = front ∧ first = last ∧ later = []) ∨
      ∃ rest, later = rest ++ [last] ∧ front = before ++ first :: rest := by
  rcases List.eq_nil_or_concat later with rfl | ⟨rest, last', hlater⟩
  · rcases List.append_inj' h rfl with ⟨hfront, hlast⟩
    cases hlast
    exact .inl ⟨hfront.symm, rfl, rfl⟩
  · rw [List.concat_eq_append] at hlater
    have hsplit : front ++ [last] = (before ++ first :: rest) ++ [last'] := by
      rw [h, hlater, List.append_assoc, List.cons_append]
    rcases List.append_inj' hsplit rfl with ⟨hfront, hlast⟩
    cases hlast
    exact .inr ⟨rest, hlater, hfront⟩

/-- What holds at the beginning, and after one more operation whenever it holds after a history,
holds after every history. -/
theorem applyAll_induction {I : List Operation → List Response → Interpreter → Prop}
    (hnil : I [] [] s)
    (hconcat : ∀ ops rs u op r t, s.applyAll ops = .ok (rs, u) → I ops rs u →
      u.apply op = .ok (r, t) → I (ops ++ [op]) (rs ++ [r]) t)
    {ops : List Operation} {rs : List Response} (h : s.applyAll ops = .ok (rs, t)) :
    I ops rs t := by
  induction ops using List.reverseRecOn generalizing rs t with
  | nil =>
      cases h
      exact hnil
  | append_singleton ops op ih =>
      rcases applyAll_concat h with ⟨before, u, r, hbefore, hlast, rfl⟩
      exact hconcat ops before u op r t hbefore (ih hbefore) hlast

/-! ## Histories in pieces -/

variable {u : Interpreter} {ops more : List Operation} {rs : List Response}

/-- A history goes on after its first operation. -/
theorem applyAll_cons_ok (h : s.apply op = .ok (r, t)) (ops : List Operation) :
    s.applyAll (op :: ops) = (t.applyAll ops).map fun a => (r :: a.1, a.2) := by
  rw [applyAll, h]
  show t.applyAll ops >>= _ = _
  cases t.applyAll ops with
  | error b => rfl
  | ok a => rfl

/-- Or ends with it, if there is no answer. -/
theorem applyAll_cons_error {b : Breach} (h : s.apply op = .error b) (ops : List Operation) :
    s.applyAll (op :: ops) = .error b := by
  rw [applyAll, h]
  rfl

theorem applyAll_append_ok (h : s.applyAll ops = .ok (rs, t)) (more : List Operation) :
    s.applyAll (ops ++ more) = (t.applyAll more).map fun a => (rs ++ a.1, a.2) := by
  induction ops generalizing s rs with
  | nil =>
      cases h
      show t.applyAll more = _
      cases t.applyAll more with
      | error b => rfl
      | ok a => rfl
  | cons first rest ih =>
      rcases applyAll_cons h with ⟨r, later, next, happly, hrest, rfl⟩
      rw [List.cons_append, applyAll_cons_ok happly, ih hrest]
      cases t.applyAll more with
      | error b => rfl
      | ok a => rfl

theorem applyAll_append_error {b : Breach} (h : s.applyAll ops = .error b) (more : List Operation) :
    s.applyAll (ops ++ more) = .error b := by
  induction ops generalizing s with
  | nil => cases h
  | cons first rest ih =>
      cases happly : s.apply first with
      | error e =>
          rw [applyAll_cons_error happly] at h
          rw [List.cons_append, applyAll_cons_error happly, h]
      | ok a =>
          rw [applyAll_cons_ok happly] at h
          rw [List.cons_append, applyAll_cons_ok happly]
          cases hrest : a.2.applyAll rest with
          | ok later =>
              rw [hrest] at h
              cases h
          | error e =>
              rw [hrest] at h
              cases h
              rw [ih hrest]
              rfl

/-- A place in two lists, one after the other, is a place in one of them. -/
theorem place_in_append {β : Type} {xs ys before later : List β} {first : β}
    (h : xs ++ ys = before ++ first :: later) :
    (∃ rest, xs = before ++ first :: rest ∧ later = rest ++ ys) ∨
      ∃ front, before = xs ++ front ∧ ys = front ++ first :: later := by
  rcases List.append_eq_append_iff.1 h with ⟨front, hbefore, hys⟩ | ⟨middle, hxs, hlater⟩
  · exact .inr ⟨front, hbefore, hys⟩
  · cases middle with
    | nil => exact .inr ⟨[], by rw [hxs, List.append_nil, List.append_nil], hlater.symm⟩
    | cons first' rest =>
        rcases List.cons.inj hlater with ⟨rfl, hrest⟩
        exact .inl ⟨rest, hxs, hrest⟩

/-- The operations, carried out one after the other, lead from one interpreter to another. -/
def Leads (s : Interpreter) (ops : List Operation) (t : Interpreter) : Prop :=
  ∃ responses, s.applyAll ops = .ok (responses, t)

theorem Leads.refl (s : Interpreter) : s.Leads [] s :=
  ⟨[], rfl⟩

theorem Leads.cons (h : s.apply op = .ok (r, t)) (hmore : t.Leads more u) :
    s.Leads (op :: more) u := by
  rcases hmore with ⟨responses, hmore⟩
  refine ⟨r :: responses, ?_⟩
  simp only [applyAll, h, bind, Except.bind, hmore]
  rfl

theorem Leads.append (h : s.Leads ops t) (hmore : t.Leads more u) : s.Leads (ops ++ more) u := by
  induction ops generalizing s with
  | nil =>
      rcases h with ⟨responses, hnil⟩
      cases hnil
      exact hmore
  | cons op rest ih =>
      rcases h with ⟨responses, hall⟩
      rcases applyAll_cons hall with ⟨r, later, next, happly, hrest, -⟩
      exact .cons happly (ih ⟨later, hrest⟩)

/-- A history leads to one place. -/
theorem Leads.unique (h : s.Leads ops t) (hother : s.Leads ops u) : t = u := by
  rcases h with ⟨_, hall⟩
  rcases hother with ⟨_, hall'⟩
  rw [hall] at hall'
  cases hall'
  rfl

/-- A history passes through a state at each of its places. -/
theorem Leads.split (h : s.Leads (ops ++ more) u) : ∃ t, s.Leads ops t ∧ t.Leads more u := by
  induction ops generalizing s with
  | nil => exact ⟨s, .refl s, h⟩
  | cons op rest ih =>
      rcases h with ⟨responses, hall⟩
      rcases applyAll_cons hall with ⟨r, later, next, happly, hrest, -⟩
      rcases ih ⟨later, hrest⟩ with ⟨t, hfront, hback⟩
      exact ⟨t, .cons happly hfront, hback⟩

/-! ## Faults on the way -/

/-- The operations lead from one interpreter to another, and are refused with these faults. -/
def Meets (s : Interpreter) (ops : List Operation) (faults : List Fault) (t : Interpreter) : Prop :=
  ∃ responses, s.applyAll ops = .ok (responses, t) ∧ refusals responses = faults

variable {faults later : List Fault}

theorem Meets.leads (h : s.Meets ops faults t) : s.Leads ops t := by
  rcases h with ⟨responses, hall, -⟩
  exact ⟨responses, hall⟩

theorem Meets.refl (s : Interpreter) : s.Meets [] [] s :=
  ⟨[], rfl, rfl⟩

/-- The faults of a history are those of its operations. -/
theorem Meets.cons (h : s.apply op = .ok (r, t)) (hmore : t.Meets more later u) :
    s.Meets (op :: more) (r.fault?.toList ++ later) u := by
  rcases hmore with ⟨responses, hmore, rfl⟩
  refine ⟨r :: responses, ?_, by simp⟩
  simp only [applyAll, h, bind, Except.bind, hmore]
  rfl

/-- An operation that is not refused meets nothing. -/
theorem Meets.cons_of_none (h : s.apply op = .ok (r, t)) (hr : r.fault? = none)
    (hmore : t.Meets more later u) : s.Meets (op :: more) later u := by
  have hcons := Meets.cons h hmore
  rw [hr] at hcons
  exact hcons

theorem Meets.append (h : s.Meets ops faults t) (hmore : t.Meets more later u) :
    s.Meets (ops ++ more) (faults ++ later) u := by
  induction ops generalizing s faults with
  | nil =>
      rcases h with ⟨responses, hnil, rfl⟩
      cases hnil
      exact hmore
  | cons op rest ih =>
      rcases h with ⟨responses, hall, rfl⟩
      rcases applyAll_cons hall with ⟨r, rs, next, happly, hrest, rfl⟩
      rw [refusals_cons, List.append_assoc]
      exact .cons happly (ih ⟨rs, hrest, rfl⟩)

/-- Writes of the keypad are never refused. -/
theorem meets_writeKeypads (s : Interpreter) (ws : List Keypad.Write) :
    s.Meets (ws.map .writeKeypad) [] (s.writeKeypads ws) := by
  induction ws generalizing s with
  | nil => exact .refl s
  | cons w rest ih =>
      have hfirst : s.apply (.writeKeypad w) = .ok (.done, s.writeKeypad w) := rfl
      exact .cons_of_none hfirst rfl (ih (s.writeKeypad w))

end Interpreter
end Chip8
