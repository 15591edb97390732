import Chip8.Proofs.Interpreter.Stepping

/-!
# FaultTable — exactly when a step is refused, and with which fault

`Machine.StepFault` lists the faults of a step by the word at the program counter, with the first
address outside memory that each refusal reports.  `Machine.stepFault?` computes the same from the
decoded instruction; `stepFault?_eq_some_iff` is the agreement of the two.

Main statement: `step_fault_iff`.
-/

namespace Chip8

namespace Machine

variable {m : Machine} {i : Instruction} {f : Fault}

/-! ## The table -/

/-- The faults of a step. -/
inductive StepFault (m : Machine) : Fault → Prop where
  | fetch {f : Fault} : m.FetchFault f → StepFault m f
  | full : m.pc.toNat < 0xFFF → m.word.family = 0x2 → m.stack.depth = 16 →
      StepFault m (.stackOverflow m.pc)
  | empty : m.pc.toNat < 0xFFF → m.word = 0x00EE → m.stack.depth = 0 →
      StepFault m (.stackUnderflow m.pc)
  | jumpOffset : m.pc.toNat < 0xFFF → m.word.family = 0xB →
      0x1000 ≤ m.word.address.toNat + m.registers[0].toNat →
      StepFault m (.outOfRange (m.word.address.toNat + m.registers[0].toNat) m.pc)
  | draw : m.pc.toNat < 0xFFF → m.word.family = 0xD → 0 < m.word.n.toNat →
      0x1000 ≤ m.index.toNat + m.word.n.toNat - 1 →
      StepFault m (.outOfRange (m.index.toNat + m.word.n.toNat - 1) m.pc)
  | decimal : m.pc.toNat < 0xFFF → m.word.family = 0xF → m.word.constant = 0x33 →
      0x1000 ≤ m.index.toNat + 2 → StepFault m (.outOfRange (m.index.toNat + 2) m.pc)
  | save : m.pc.toNat < 0xFFF → m.word.family = 0xF → m.word.constant = 0x55 →
      0x1000 ≤ m.index.toNat + m.word.x.toNat →
      StepFault m (.outOfRange (m.index.toNat + m.word.x.toNat) m.pc)
  | restore : m.pc.toNat < 0xFFF → m.word.family = 0xF → m.word.constant = 0x65 →
      0x1000 ≤ m.index.toNat + m.word.x.toNat →
      StepFault m (.outOfRange (m.index.toNat + m.word.x.toNat) m.pc)

def stepFault? (m : Machine) : Option Fault :=
  match m.nextInstruction with
  | .ok (_, i) => m.fault? i
  | .error (.fault f) => some f
  | .error (.breach _) => none

/-- Where nothing can be fetched, that is the fault. -/
theorem stepFault?_of_fetchFault (h : m.FetchFault f) : m.stepFault? = some f := by
  simp only [stepFault?, nextInstruction_of_fetchFault h]

/-- Otherwise it is the fault of the instruction. -/
theorem stepFault?_of_row (hpc : m.pc.toNat < 0xFFF) (hrow : m.word.Row i) :
    m.stepFault? = m.fault? i := by
  simp only [stepFault?, nextInstruction_of_row hpc hrow]

/-! ## Ranges -/

/-- A range that begins in memory is refused for its last address. -/
theorem rangeFault?_eq_some_iff {address count : Nat} (h : address ≤ 0xFFF) :
    m.rangeFault? address count = some f ↔
      0 < count ∧ 0x1000 ≤ address + count - 1 ∧ .outOfRange (address + count - 1) m.pc = f := by
  have hfirst : ¬ memorySize ≤ address := Nat.not_le.2 (Nat.lt_succ_of_le h)
  by_cases hlast : 0 < count ∧ memorySize ≤ address + count - 1
  · have hfault : m.rangeFault? address count =
        some (.outOfRange (address + count - 1) m.pc) := by
      simp only [rangeFault?, hlast, and_self, ↓reduceIte, outOfRange]
    have hin : 0 < count ∧ 0x1000 ≤ address + count - 1 := hlast
    simp [hfault, hin]
  · have hfault : m.rangeFault? address count = none := by
      simp only [rangeFault?, hlast, hfirst, ↓reduceIte]
    have hout : ¬ (0 < count ∧ 0x1000 ≤ address + count - 1) := hlast
    constructor
    · intro hsome
      rw [hfault] at hsome
      cases hsome
    · rintro ⟨hpos, hge, -⟩
      exact absurd ⟨hpos, hge⟩ hout

/-! ## Agreement -/

/-- Each fault that an instruction is refused with stands in the table. -/
theorem stepFault_of_fault? (hindex : m.index.toNat ≤ 0xFFF)
    (hdepth : m.stack.depth ≤ stackCapacity) (hpc : m.pc.toNat < 0xFFF) (hrow : m.word.Row i)
    (hf : m.fault? i = some f) : m.StepFault f := by
  cases hrow with
  | ret hop =>
      simp only [fault?] at hf
      split at hf
      · rename_i hempty
        cases hf
        exact .empty hpc hop hempty
      · cases hf
  | call hop =>
      simp only [fault?] at hf
      split at hf
      · cases hf
      · rename_i hfull
        cases hf
        -- no stack is deeper than it has slots, so a stack without room is exactly full
        have hdepth16 : m.stack.depth = 16 := Nat.le_antisymm hdepth (Nat.not_lt.1 hfull)
        exact .full hpc hop hdepth16
  | jumpOffset hop =>
      simp only [fault?, value_zero] at hf
      split at hf
      · cases hf
      · rename_i hout
        cases hf
        exact .jumpOffset hpc hop (Nat.not_lt.1 hout)
  | draw hop =>
      rcases (rangeFault?_eq_some_iff hindex).1 hf with ⟨hpos, hge, rfl⟩
      exact .draw hpc hop hpos hge
  | decimal hop hconst =>
      rcases (rangeFault?_eq_some_iff hindex).1 hf with ⟨-, hge, rfl⟩
      exact .decimal hpc hop hconst hge
  | save hop hconst =>
      rcases (rangeFault?_eq_some_iff hindex).1 hf with ⟨-, hge, rfl⟩
      exact .save hpc hop hconst hge
  | restore hop hconst =>
      rcases (rangeFault?_eq_some_iff hindex).1 hf with ⟨-, hge, rfl⟩
      exact .restore hpc hop hconst hge
  | _ => cases hf

/-- Each fault in the table is met. -/
theorem stepFault?_of_stepFault (hindex : m.index.toNat ≤ 0xFFF) (h : m.StepFault f) :
    m.stepFault? = some f := by
  cases h with
  | fetch hfetch => exact stepFault?_of_fetchFault hfetch
  | full hpc hop hdepth =>
      have hfull : ¬ m.stack.depth < stackCapacity := by
        rw [hdepth]
        decide
      rw [stepFault?_of_row hpc (.call hop)]
      simp only [fault?, hfull, ↓reduceIte]
  | empty hpc hop hdepth =>
      rw [stepFault?_of_row hpc (.ret hop)]
      simp only [fault?, hdepth, ↓reduceIte]
  | jumpOffset hpc hop hge =>
      have hout : ¬ m.word.address.toNat + m.registers[0].toNat < memorySize := Nat.not_lt.2 hge
      rw [stepFault?_of_row hpc (.jumpOffset hop)]
      simp only [fault?, value_zero, hout, ↓reduceIte, outOfRange]
  | draw hpc hop hpos hge =>
      rw [stepFault?_of_row hpc (.draw hop)]
      exact (rangeFault?_eq_some_iff hindex).2 ⟨hpos, hge, rfl⟩
  | decimal hpc hop hconst hge =>
      rw [stepFault?_of_row hpc (.decimal hop hconst)]
      exact (rangeFault?_eq_some_iff hindex).2 ⟨Nat.succ_pos _, hge, rfl⟩
  | save hpc hop hconst hge =>
      rw [stepFault?_of_row hpc (.save hop hconst)]
      exact (rangeFault?_eq_some_iff hindex).2 ⟨Nat.succ_pos _, hge, rfl⟩
  | restore hpc hop hconst hge =>
      rw [stepFault?_of_row hpc (.restore hop hconst)]
      exact (rangeFault?_eq_some_iff hindex).2 ⟨Nat.succ_pos _, hge, rfl⟩

/-- The fault of a step is the one that the table gives, and there is no other. -/
theorem stepFault?_eq_some_iff (hindex : m.index.toNat ≤ 0xFFF)
    (hdepth : m.stack.depth ≤ stackCapacity) : m.stepFault? = some f ↔ m.StepFault f := by
  constructor
  · intro hsome
    rcases m.fetchFault_or_row with ⟨g, hfetch⟩ | ⟨i, hpc, hrow⟩
    · rw [stepFault?_of_fetchFault hfetch] at hsome
      cases hsome
      exact .fetch hfetch
    · rw [stepFault?_of_row hpc hrow] at hsome
      exact stepFault_of_fault? hindex hdepth hpc hrow hsome
  · exact stepFault?_of_stepFault hindex

end Machine

namespace Interpreter

variable {s : Interpreter}

/-- A running step ends, and it is refused with the fault of the machine. -/
theorem step_fault?_eq (hrun : s.runState = .running) (hindex : s.machine.index.toNat ≤ 0xFFF)
    (hdepth : s.machine.stack.depth ≤ stackCapacity)
    (hsites : ∀ site ∈ s.machine.stack.entries, site.toNat ≤ 0xFFE) :
    ∃ o, s.step = .ok o ∧ o.fault? = s.machine.stepFault? := by
  rw [step_of_running hrun]
  rcases s.cycle_cases with ⟨f, hfetch, hcycle⟩ | ⟨i, hpc, hrow, hcycle⟩
  · rw [hcycle, Machine.stepFault?_of_fetchFault hfetch]
    exact ⟨_, rfl, rfl⟩
  · have hadm : s.machine.Admits i := Machine.admits_of_row hindex hdepth hsites hpc hrow
    rw [hcycle, Machine.stepFault?_of_row hpc hrow]
    cases hf : s.machine.fault? i with
    | some f =>
        rw [(performed s i).eq_error hadm hf]
        exact ⟨_, rfl, rfl⟩
    | none =>
        rw [(performed s i).eq_ok hadm hf]
        exact ⟨_, rfl, rfl⟩

/-- A running step of a machine within its limits succeeds, or is refused with the fault that the
table gives; in particular the table never gives two. -/
theorem step_fault_iff (hrun : s.runState = .running) (hindex : s.machine.index.toNat ≤ 0xFFF)
    (hdepth : s.machine.stack.depth ≤ 16)
    (hsites : ∀ site ∈ s.machine.stack.entries, site.toNat ≤ 0xFFE) :
    ∃ o, s.step = .ok o ∧ ∀ f, o.fault? = some f ↔ s.machine.StepFault f := by
  rcases step_fault?_eq hrun hindex hdepth hsites with ⟨o, hstep, hfault⟩
  refine ⟨o, hstep, ?_⟩
  intro f
  rw [hfault]
  exact Machine.stepFault?_eq_some_iff hindex hdepth

/-- Every limit reached at once: the word at the last byte of memory is not read. -/
theorem step_fault_iff_at_limits :
    let m : Machine := { Machine.powerOn with
      pc := 0xFFF, index := 0xFFF, stack := ⟨Vector.replicate 16 0xFFE, 16⟩ }
    let s : Interpreter := { start (.ofSeed 1) with machine := m }
    s.runState = .running ∧ m.index.toNat ≤ 0xFFF ∧ m.stack.depth ≤ 16 ∧
      (∀ site ∈ m.stack.entries, site.toNat ≤ 0xFFE) ∧
      ∃ o, s.step = .ok o ∧ o.fault? = some (.outOfRange 0x1000 0xFFF) := by
  intro m s
  have hsites : ∀ site ∈ m.stack.entries, site.toNat ≤ 0xFFE := by
    intro site hsite
    have hslot : site ∈ (Vector.replicate 16 (0xFFE : UInt16)).toList :=
      List.mem_of_mem_take (List.mem_reverse.1 hsite)
    rw [Vector.toList_replicate] at hslot
    rw [List.eq_of_mem_replicate hslot]
    decide
  have hindex : m.index.toNat ≤ 0xFFF := by decide
  rcases step_fault_iff (s := s) rfl hindex (Nat.le_refl 16) hsites with ⟨o, hstep, hfault⟩
  exact ⟨rfl, hindex, Nat.le_refl 16, hsites, o, hstep, (hfault _).2 (.fetch (.straddling rfl))⟩

end Interpreter
end Chip8
