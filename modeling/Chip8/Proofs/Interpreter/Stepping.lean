import Chip8.Interpreter.Operation
import Chip8.Proofs.Instruction.OpcodeTable
import Chip8.Proofs.Interpreter.Performing

/-!
# Stepping — one step, one operation, one history

A step either reads a word and performs its instruction, or is refused before it gets there, or
looks at the keypad.  `cycle_cases` and `pollKey_ends` say so; `applyAll_total` and `applyAll_keeps`
lift what is known of single operations to histories of any length.
-/

namespace Chip8

/-! ## Reading a word -/

namespace Machine

variable {m : Machine}

/-- The byte at an address, zero outside memory. -/
def byteAt (m : Machine) (address : Nat) : UInt8 :=
  m.memory[address]?.getD 0

def word (m : Machine) : Opcode :=
  .ofBytes (m.byteAt m.pc.toNat) (m.byteAt (m.pc.toNat + 1))

/-- The faults that keep a machine from reading an instruction. -/
inductive FetchFault (m : Machine) : Fault → Prop where
  /-- The word begins on the last byte of memory, and its second byte lies outside. -/
  | straddling : m.pc.toNat = 0xFFF → FetchFault m (.outOfRange 0x1000 m.pc)
  | outside : 0x1000 ≤ m.pc.toNat → FetchFault m (.outOfRange m.pc.toNat m.pc)
  | unknown : m.pc.toNat < 0xFFF → (∀ i, ¬ m.word.Row i) →
      FetchFault m (.unknownOpcode m.word m.pc)

theorem read_of_lt {address : Nat} (h : address < memorySize) :
    m.read address = .ok (m.byteAt address) := by
  simp [read, byteAt, h]

theorem read_of_ge {address : Nat} (h : ¬ address < memorySize) :
    m.read address = .error (.fault (m.outOfRange address)) := by
  simp [read, h]

/-- A word that lies in memory is read. -/
theorem fetch_of_lt (h : m.pc.toNat < 0xFFF) : m.fetch = .ok m.word := by
  have hhigh : m.pc.toNat < memorySize := Nat.lt_trans h (by decide)
  have hlow : m.pc.toNat + 1 < memorySize := Nat.succ_lt_succ h
  simp only [fetch, read_of_lt hhigh, read_of_lt hlow]
  rfl

theorem nextInstruction_of_lt (h : m.pc.toNat < 0xFFF) :
    m.nextInstruction = match Instruction.decode? m.word with
      | some i => .ok (m.word, i)
      | none => .error (.fault (.unknownOpcode m.word m.pc)) := by
  simp only [nextInstruction, fetch_of_lt h]
  rfl

/-- A word on a row of the opcode table is that instruction. -/
theorem nextInstruction_of_row {i : Instruction} (h : m.pc.toNat < 0xFFF) (hrow : m.word.Row i) :
    m.nextInstruction = .ok (m.word, i) := by
  have hd : Instruction.decode? m.word = some i := Instruction.decode?_eq_some_iff.2 hrow
  simp only [nextInstruction_of_lt h, hd]

/-- What keeps a machine from reading is the fault that it reports. -/
theorem nextInstruction_of_fetchFault {f : Fault} (h : m.FetchFault f) :
    m.nextInstruction = .error (.fault f) := by
  cases h with
  | straddling heq =>
      have hhigh : m.pc.toNat < memorySize := by
        rw [heq]
        decide
      have hlow : ¬ m.pc.toNat + 1 < memorySize := by
        rw [heq]
        decide
      simp only [nextInstruction, fetch, read_of_lt hhigh, read_of_ge hlow]
      simp only [outOfRange, heq]
      rfl
  | outside hge =>
      have hhigh : ¬ m.pc.toNat < memorySize := Nat.not_lt.2 hge
      simp only [nextInstruction, fetch, read_of_ge hhigh]
      rfl
  | unknown hlt hnone =>
      have hd : Instruction.decode? m.word = none := Instruction.decode?_eq_none_iff.2 hnone
      simp only [nextInstruction_of_lt hlt, hd]

/-- A machine either cannot read an instruction or stands on a row of the opcode table. -/
theorem fetchFault_or_row (m : Machine) :
    (∃ f, m.FetchFault f) ∨ ∃ i, m.pc.toNat < 0xFFF ∧ m.word.Row i := by
  rcases Nat.lt_trichotomy m.pc.toNat 0xFFF with hlt | heq | hgt
  · by_cases h : ∃ i, m.word.Row i
    · rcases h with ⟨i, hrow⟩
      exact .inr ⟨i, hlt, hrow⟩
    · exact .inl ⟨_, .unknown hlt fun i hrow => h ⟨i, hrow⟩⟩
  · exact .inl ⟨_, .straddling heq⟩
  · exact .inl ⟨_, .outside hgt⟩

/-- A fault of reading carries the program counter. -/
theorem FetchFault.pc_eq {f : Fault} (h : m.FetchFault f) : f.pc = m.pc := by
  cases h with
  | straddling _ | outside _ | unknown _ _ => rfl

/-- A stack of low call sites has a low one on top; an empty one has zero there. -/
theorem top_le {limit : Nat} (h : ∀ site ∈ m.stack.entries, site.toNat ≤ limit) :
    m.stack.top.toNat ≤ limit := by
  unfold CallStack.top
  cases he : m.stack.entries with
  | nil => exact Nat.zero_le _
  | cons site rest =>
      have hmem : site ∈ m.stack.entries := by
        rw [he]
        exact .head _
      exact h site hmem

/-- An instruction that was read has a meaning, unless the index register or the stack is out of
bounds. -/
theorem admits_of_row {i : Instruction} (hindex : m.index.toNat ≤ 0xFFF)
    (hdepth : m.stack.depth ≤ stackCapacity)
    (hsites : ∀ site ∈ m.stack.entries, site.toNat ≤ 0xFFE) (hpc : m.pc.toNat < 0xFFF)
    (hrow : m.word.Row i) : m.Admits i where
  registers_lt := Instruction.registers_lt_of_row hrow
  numbersFit := by
    have htop := top_le hsites
    cases i with
    | jump | call | jumpOffset | awaitKey => trivial
    | ret => exact ⟨hdepth, by omega⟩
    | skip c =>
        show m.pc.toNat + (if m.meets c then 4 else 2) < 0x10000
        split <;> omega
    | addIndex x =>
        have hv := (m.value x).toNat_lt
        exact ⟨by omega, by omega⟩
    | _ =>
        have hfit : m.pc.toNat + 2 < 0x10000 := by omega
        exact hfit

/-- A fault of an instruction carries the program counter. -/
theorem pc_eq_of_fault? {i : Instruction} {f : Fault} (h : m.fault? i = some f) :
    f.pc = m.pc := by
  -- the three kinds of instructions that touch a range are refused by the same two checks
  have hrange (address count : Nat) (hr : m.rangeFault? address count = some f) :
      f.pc = m.pc := by
    unfold rangeFault? at hr
    split at hr
    · cases hr
      rfl
    · split at hr
      · cases hr
        rfl
      · cases hr
  cases i with
  | ret | call | jumpOffset =>
      simp only [fault?] at h
      split at h <;> cases h
      rfl
  | draw | decimal | save | restore => exact hrange _ _ h
  | _ => cases h

end Machine

namespace Interpreter

variable {s t : Interpreter}

/-! ## Steps -/

theorem step_of_running (h : s.runState = .running) : s.step = settle (cycle s) := by
  simp only [step, h]

theorem step_of_awaitingKey {x : UInt8} (h : s.runState = .awaitingKey x) :
    s.step = settle (pollKey x s) := by
  simp only [step, h]

/-- A step after a fault reports it again. -/
theorem step_of_faulted {f : Fault} (h : s.runState = .faulted f) : s.step = .ok ⟨some f, s⟩ := by
  simp only [step, h]

theorem ne_faulted_of_running (h : s.runState = .running) (f : Fault) :
    s.runState ≠ .faulted f := by
  intro hf
  rw [h] at hf
  cases hf

theorem execute_of_faulted {f : Fault} (h : s.runState = .faulted f) (i : Instruction) :
    s.execute i = .ok ⟨some f, s⟩ := by
  simp only [execute, h]

/-- A given instruction is performed, unless the interpreter has halted. -/
theorem execute_of_ne (h : ∀ f, s.runState ≠ .faulted f) (i : Instruction) :
    s.execute i = settle (perform i s) := by
  unfold execute
  split
  · rename_i f hf
    exact absurd hf (h f)
  · rfl

/-- A cycle is refused while it reads, or it performs the instruction of a row. -/
theorem cycle_cases (s : Interpreter) :
    (∃ f, s.machine.FetchFault f ∧ cycle s = .error (.fault f) s) ∨
      ∃ i, s.machine.pc.toNat < 0xFFF ∧ s.machine.word.Row i ∧ cycle s = perform i s := by
  -- reading changes nothing, so the instruction begins where the cycle began
  have hcycle : cycle s = match s.machine.nextInstruction with
      | .ok (_, i) => perform i s
      | .error stop => .error stop s := by
    rw [cycle, Action.bind_apply, Action.ask]
    cases s.machine.nextInstruction with
    | ok _ => rfl
    | error _ => rfl
  rcases s.machine.fetchFault_or_row with ⟨f, hf⟩ | ⟨i, hpc, hrow⟩
  · exact .inl ⟨f, hf, by rw [hcycle, Machine.nextInstruction_of_fetchFault hf]⟩
  · exact .inr ⟨i, hpc, hrow, by rw [hcycle, Machine.nextInstruction_of_row hpc hrow]⟩

/-- The state after a look at the keypad. -/
def polled (s : Interpreter) (x : UInt8) : Interpreter :=
  match s.machine.keypad.lowestPressed with
  | none => s
  | some key => { s with
      machine := { s.machine with
        registers := s.machine.registers.setIfInBounds x.toNat key
        pc := UInt16.ofNat (s.machine.pc.toNat + 2) }
      runState := .running }

/-- A look at the keypad is never refused. -/
theorem pollKey_ends (s : Interpreter) (x : UInt8) :
    Ends s (x.toNat < registerCount ∧ s.machine.pc.toNat + 2 < 0x10000) none () (s.polled x)
      (pollKey x s) := by
  cases hk : s.machine.keypad.lowestPressed with
  | none =>
      have hpoll : pollKey x s = .ok () s := by
        rw [pollKey, Action.bind_apply, Action.look]
        simp only [hk]
        rfl
      rw [hpoll, polled, hk]
      exact .done rfl
  | some key =>
      have hpoll : pollKey x s = (do
          Action.setRegister x key
          Action.advance 2
          Action.enter .running : Action Unit) s := by
        rw [pollKey, Action.bind_apply, Action.look]
        simp only [hk]
      rw [hpoll, polled, hk]
      refine .conv ((setRegister_ends x key s).andThen fun _ => (advance_ends 2 _).andThen fun _ =>
        enter_ends .running _) ?_ rfl rfl
      intro h
      exact ⟨h.1, h.2, trivial⟩

/-! ## Histories -/

/-- An invariant under which every operation of a kind succeeds, and which it keeps, holds after
every history of such operations, and none of them breaks down. -/
theorem applyAll_total {Allowed : Operation → Prop} {I : Interpreter → Prop}
    (hstep : ∀ s op, I s → Allowed op → ∃ r t, s.apply op = .ok (r, t) ∧ I t)
    {ops : List Operation} (hops : ∀ op ∈ ops, Allowed op) (hs : I s) :
    ∃ rs t, s.applyAll ops = .ok (rs, t) ∧ I t := by
  induction ops generalizing s with
  | nil => exact ⟨[], s, rfl, hs⟩
  | cons op rest ih =>
      -- the first operation leads to a state of the invariant, from which the rest succeeds
      rcases hstep s op hs (hops op (.head _)) with ⟨r, next, happly, hnext⟩
      have hrest : ∀ op ∈ rest, Allowed op := fun op hop => hops op (.tail _ hop)
      rcases ih hrest hnext with ⟨rs, t, hall, ht⟩
      refine ⟨r :: rs, t, ?_, ht⟩
      simp only [applyAll, happly, bind, Except.bind, hall]
      rfl

/-- Work in two parts succeeds when its parts do. -/
theorem bind_eq_ok {α β : Type} {x : Except Breach α} {k : α → Except Breach β} {b : β} :
    (x >>= k) = .ok b ↔ ∃ a, x = .ok a ∧ k a = .ok b := by
  constructor
  · intro h
    cases x with
    | error e => cases h
    | ok a => exact ⟨a, rfl, h⟩
  · intro h
    rcases h with ⟨a, rfl, hk⟩
    exact hk

theorem outcome_of_answer {x : Except Breach Outcome} {r : Response}
    (h : (do
      let o ← x
      return (o.response, o.next)) = Except.ok (r, t)) :
    ∃ o, x = .ok o ∧ o.response = r ∧ o.next = t := by
  rcases bind_eq_ok.1 h with ⟨o, ho, hanswer⟩
  cases hanswer
  exact ⟨o, ho, rfl, rfl⟩

/-- The first operation of a history and the rest of it. -/
theorem applyAll_cons {op : Operation} {rest : List Operation} {responses : List Response}
    (h : s.applyAll (op :: rest) = .ok (responses, t)) :
    ∃ r rs next, s.apply op = .ok (r, next) ∧ next.applyAll rest = .ok (rs, t) ∧
      responses = r :: rs := by
  rw [applyAll] at h
  rcases bind_eq_ok.1 h with ⟨⟨r, next⟩, happly, hlater⟩
  rcases bind_eq_ok.1 hlater with ⟨⟨rs, last⟩, hrest, hanswer⟩
  cases hanswer
  exact ⟨r, rs, next, happly, hrest, rfl⟩

/-- An invariant that every operation keeps holds after every history. -/
theorem applyAll_keeps {I : Interpreter → Prop}
    (hstep : ∀ s op r t, I s → s.apply op = .ok (r, t) → I t)
    {ops : List Operation} {rs : List Response} (hs : I s)
    (h : s.applyAll ops = .ok (rs, t)) : I t := by
  induction ops generalizing s rs with
  | nil =>
      cases h
      exact hs
  | cons op rest ih =>
      rcases applyAll_cons h with ⟨r, rs', next, happly, hrest, -⟩
      exact ih (hstep s op r next hs happly) hrest

end Interpreter
end Chip8
