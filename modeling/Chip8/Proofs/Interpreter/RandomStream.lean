import Chip8.Proofs.Interpreter.Deeds

/-!
# RandomStream — every random byte of a history

The place of a generator in its stream is the number of random instructions among the deeds so far,
and the bytes that they store are those of the stream, one after the other.  So a history with the
same random instructions draws the same bytes, whatever else is asked for in between.

`FollowsStream` states this as an invariant of the deeds so far, which every deed keeps.

Main statement: `draws_follow_stream`.
-/

namespace Chip8

def Deed.draws : Deed → Bool
  | .ran _ i _ => i.drawsRandom
  | .ticked _ | .reset | .beepTaken => false

namespace Interpreter

open Chip8.Interpreter.Action

variable {g : Generator} {s t : Interpreter} {i : Instruction} {op : Operation} {r : Response}
  {past : List Deed} {d : Deed}

/-! ## The invariant -/

/-- The generator is `g`, moved on by one word for each deed that draws. -/
def FollowsStream (g : Generator) (past : List Deed) (s : Interpreter) : Prop :=
  s.generator = { g with drawn := g.drawn + past.countP Deed.draws }

theorem followsStream_self (s : Interpreter) : FollowsStream s.generator [] s :=
  rfl

/-- A deed that does not draw leaves the generator where it is. -/
theorem FollowsStream.concat (hs : FollowsStream g past s) (hd : d.draws = false)
    (ht : t.generator = s.generator) : FollowsStream g (past ++ [d]) t := by
  have hcount : (past ++ [d]).countP Deed.draws = past.countP Deed.draws := by
    simp [hd]
  rw [FollowsStream, hcount, ht]
  exact hs

/-- A deed that draws moves it on by one word. -/
theorem FollowsStream.concat_of_draws (hs : FollowsStream g past s) (hd : d.draws = true)
    (ht : t.generator = s.generator.advance) : FollowsStream g (past ++ [d]) t := by
  have hcount : (past ++ [d]).countP Deed.draws = past.countP Deed.draws + 1 := by
    simp [hd]
  rw [FollowsStream, hcount, ht, hs]
  rfl

/-- An instruction keeps the generator in its stream, whether it draws or not. -/
theorem FollowsStream.ran (hs : FollowsStream g past s) (h : perform i s = .ok () t) :
    FollowsStream g (past ++ [.ran s i t]) t := by
  have hgenerator : t.generator = if i.drawsRandom then s.generator.advance else s.generator := by
    rw [eq_effect_of_perform h]
    rfl
  cases hdraws : i.drawsRandom with
  | true =>
      rw [hdraws, if_pos rfl] at hgenerator
      exact hs.concat_of_draws hdraws hgenerator
  | false =>
      rw [hdraws, if_neg Bool.false_ne_true] at hgenerator
      exact hs.concat hdraws hgenerator

/-- Every deed keeps the generator in its stream. -/
theorem keeps_followsStream (g : Generator) : Keeps (FollowsStream g) where
  ran := fun _ _ _ _ hs hperform => hs.ran hperform
  ticked := by
    intro past s hs
    exact hs.concat rfl rfl
  reset := by
    intro past s hs
    refine hs.concat rfl ?_
    rw [reset]
  beepTaken := by
    intro past s hs
    exact hs.concat rfl rfl
  quiet := by
    intro past s t hs hquiet
    rw [FollowsStream, hquiet.generator_eq]
    exact hs

/-- A random instruction stores the byte at the place where the generator stands, under its mask. -/
theorem FollowsStream.stored (hs : FollowsStream g past s) {x mask : UInt8}
    (h : perform (.random x mask) s = .ok () t) :
    t.machine.registers[x.toNat]? =
      some ((g.word (g.drawn + past.countP Deed.draws)).toUInt8 &&& mask) := by
  have hx : x.toNat < registerCount := lt_of_setRegister (f := fun byte => byte &&& mask) h
  have hbyte : s.generator.peek = (g.word (g.drawn + past.countP Deed.draws)).toUInt8 := by
    rw [hs]
    rfl
  rw [eq_effect_of_perform h, ← hbyte]
  exact Vector.getElem?_setIfInBounds_self_of_lt hx

/-! ## Single operations -/

/-- The operation carries out no instruction: it is none that could, it is refused, it looks at the
keypad, or the interpreter has halted. -/
inductive Idle (s : Interpreter) : Operation → Response → Prop where
  | aside {op : Operation} {r : Response} : op.executes = false → Idle s op r
  | refused {op : Operation} (f : Fault) : op.runsOne = true → Idle s op (.refused f)
  | polled {x : UInt8} {r : Response} : s.runState = .awaitingKey x → Idle s .step r
  | halted {f : Fault} {op : Operation} {r : Response} : s.runState = .faulted f → Idle s op r

theorem countP_draws_of_aside (hop : op.executes = false) (s : Interpreter) :
    (s.deedsOf op).countP Deed.draws = 0 := by
  cases op with
  | tick | load | reset | takeFrame | takeBeep | writeKeypad => rfl
  | step | execute | executeMany => cases hop

/-- What carries out no instruction draws nothing. -/
theorem countP_draws_of_idle (hidle : Idle s op r) (h : s.apply op = .ok (r, t)) :
    (s.deedsOf op).countP Deed.draws = 0 := by
  cases hidle with
  | aside hop => exact countP_draws_of_aside hop s
  | refused f hop =>
      rw [deedsOf_of_refused h hop]
      rfl
  | polled hpark =>
      rw [deedsOf_step_of_none (by simp only [current?, hpark])]
      rfl
  | halted hfault =>
      cases hop : op.executes with
      | true =>
          rw [deedsOf_of_faulted hfault hop]
          rfl
      | false => exact countP_draws_of_aside hop s

/-- An operation moves the generator by the draws in it. -/
theorem generator_of_apply (h : s.apply op = .ok (r, t)) :
    t.generator = { s.generator with
      drawn := s.generator.drawn + (s.deedsOf op).countP Deed.draws } :=
  (keeps_followsStream s.generator).apply (followsStream_self s) h

/-- Without an instruction the generator stays where it is. -/
theorem generator_of_idle (hidle : Idle s op r) (h : s.apply op = .ok (r, t)) :
    t.generator = s.generator := by
  rw [generator_of_apply h, countP_draws_of_idle hidle h]
  rfl

/-! ## Histories -/

/-- After every history the generator has given as many words as there are random instructions among
the deeds. The k-th of them stored the low byte of the k-th word under its mask, and an operation
that carries out no instruction does not move the generator. -/
theorem draws_follow_stream {seed : UInt64} {ops : List Operation} {rs : List Response}
    (h : (ofSeed seed).applyAll ops = .ok (rs, s)) :
    let past := (ofSeed seed).deeds ops
    s.generator = { Generator.ofSeed seed with drawn := past.countP Deed.draws } ∧
      (∀ before found x mask left later,
        past = before ++ .ran found (.random x mask) left :: later →
          left.machine.registers[x.toNat]? =
            some (((Generator.ofSeed seed).word (before.countP Deed.draws)).toUInt8 &&& mask)) ∧
      ∀ op r t, s.apply op = .ok (r, t) →
        t.generator = { s.generator with
          drawn := s.generator.drawn + (s.deedsOf op).countP Deed.draws } ∧
        (Idle s op r → t.generator = s.generator) := by
  intro past
  have hstored : ∀ past s i t, FollowsStream (.ofSeed seed) past s → perform i s = .ok () t →
      ∀ x mask, i = .random x mask → t.machine.registers[x.toNat]? =
        some (((Generator.ofSeed seed).word (past.countP Deed.draws)).toUInt8 &&& mask) := by
    rintro past s i t hs hperform x mask rfl
    have hvalue := hs.stored hperform
    -- nothing has been drawn from the generator of a seed
    rw [show (Generator.ofSeed seed).drawn = 0 from rfl, Nat.zero_add] at hvalue
    exact hvalue
  have hkeeps := (keeps_followsStream (.ofSeed seed)).atRuns hstored
  rcases hkeeps.deeds ⟨followsStream_self (ofSeed seed), atRuns_nil⟩ h with ⟨hs, hruns⟩
  refine ⟨?_, ?_, fun op r t happly => ⟨generator_of_apply happly, fun hidle =>
    generator_of_idle hidle happly⟩⟩
  · rw [hs, show (Generator.ofSeed seed).drawn = 0 from rfl, Nat.zero_add]
  · intro before found x mask left later hsplit
    exact hruns before found (.random x mask) left later hsplit x mask rfl

/-- A byte is drawn under an empty mask, a return is refused, and the next random instruction with
it. After a reset the program draws the second byte. -/
theorem draws_follow_stream_reset :
    let ops : List Operation := [.execute (.random 1 0), .execute .ret, .execute (.random 1 0xFF),
      .reset, .load [0xC2, 0xFF], .step]
    ((ofSeed 3).deeds ops).countP Deed.draws = 2 ∧
      ∃ rs s, (ofSeed 3).applyAll ops = .ok (rs, s) ∧
        s.generator = { Generator.ofSeed 3 with drawn := 2 } := by
  intro ops
  have hcount : ((ofSeed 3).deeds ops).countP Deed.draws = 2 := by decide +kernel
  cases hall : (ofSeed 3).applyAll ops with
  | error b =>
      have hok : ((ofSeed 3).applyAll ops).isOk = true := by decide +kernel
      rw [hall] at hok
      cases hok
  | ok answer =>
      have hgenerator := (draws_follow_stream hall).1
      rw [hcount] at hgenerator
      exact ⟨hcount, answer.1, answer.2, rfl, hgenerator⟩

end Interpreter
end Chip8
