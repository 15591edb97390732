import Chip8.Machine.Basic
import Chip8.Proofs.Machine.Effect

/-!
# Stacking — the call stack as a list of limited length

The slots of a call stack and the number of them in use stand for a list: that of the call sites
that have been put on the stack and not taken off again, the latest first.  `askList` says how a
list of at most sixteen sites replies to a push and a pop.  A machine whose stack holds a list
replies as the list does and holds what the list has become, whatever stands in the slots that are
not in use (`Machine.askStack_holds`). Nothing but the stack changes.

A machine is changed in place.  `inPlace` goes through a request write by write, and what was
written before a stop stays written.  Since both requests look before they write, a refused one
leaves nothing behind (`inPlace_eq`).

Main statement: `stack_follows_list`.
-/

namespace Chip8

/-! ## Two other accounts of a request -/

/-- A list of at most sixteen call sites, the latest first. -/
def askList (pc : UInt16) (sites : List UInt16) :
    StackRequest → Except Stop (Option UInt16) × List UInt16
  | .push site =>
      if sites.length < stackCapacity then (.ok none, site :: sites)
      else (.error (.fault (.stackOverflow pc)), sites)
  | .pop =>
      match sites with
      | [] => (.error (.fault (.stackUnderflow pc)), [])
      | site :: rest => (.ok (some site), rest)

namespace StackRequest

def refuse (when : Machine → Bool) (fault : Machine → Fault) : EStateM Stop Machine Unit := fun m =>
  if when m then .error (.fault (fault m)) m else .ok () m

def writeSlot (site : UInt16) : EStateM Stop Machine Unit := fun m =>
  if h : m.stack.depth < stackCapacity then
    .ok () { m with stack := { m.stack with slots := m.stack.slots.set m.stack.depth site h } }
  else .error (.breach .corruptStack) m

def readSlot : EStateM Stop Machine UInt16 := fun m =>
  if h : m.stack.depth < stackCapacity then .ok m.stack.slots[m.stack.depth] m
  else .error (.breach .corruptStack) m

def changeDepth (f : Nat → Nat) : EStateM Stop Machine Unit := fun m =>
  .ok () { m with stack := { m.stack with depth := f m.stack.depth } }

/-- The looks and writes of a request in their order. -/
def inPlace : StackRequest → EStateM Stop Machine (Option UInt16)
  -- what is written before a stop stays written
  | .push site => do
      refuse (fun m => stackCapacity ≤ m.stack.depth) fun m => .stackOverflow m.pc
      writeSlot site
      changeDepth (· + 1)
      return none
  | .pop => do
      refuse (fun m => m.stack.depth = 0) fun m => .stackUnderflow m.pc
      changeDepth (· - 1)
      let site ← readSlot
      return some site

end StackRequest

namespace Machine

variable {m : Machine} {sites : List UInt16} {site : UInt16}

/-- The stack stands for the list. -/
structure Holds (m : Machine) (sites : List UInt16) : Prop where
  entries_eq : m.stack.entries = sites
  depth_eq : m.stack.depth = sites.length
  length_le : sites.length ≤ stackCapacity

/-- A new machine holds no call site. -/
theorem holds_powerOn : powerOn.Holds [] where
  entries_eq := by simp [powerOn]
  depth_eq := rfl
  length_le := Nat.zero_le _

/-- Nor does a machine after a reset. -/
theorem holds_reset (m : Machine) : m.reset.Holds [] :=
  m.reset_eq_powerOn ▸ holds_powerOn

/-! ## One request -/

/-- A push with room replies without a site and stores its own. -/
theorem askStack_push_of_lt (h : m.stack.depth < stackCapacity) (site : UInt16) :
    m.askStack (.push site) = (.ok none, { m with
      stack := {
        slots := m.stack.slots.setIfInBounds m.stack.depth site
        depth := m.stack.depth + 1 } }) := by
  rw [askStack, push, CallStack.push_of_lt h]
  rfl

/-- A push without room leaves the machine as it was. -/
theorem askStack_push_of_ge (h : ¬ m.stack.depth < stackCapacity) (site : UInt16) :
    m.askStack (.push site) = (.error (.fault (.stackOverflow m.pc)), m) := by
  rw [askStack, push, CallStack.push_of_ge h]
  rfl

/-- A pop of the empty stack leaves the machine as it was. -/
theorem askStack_pop_of_zero (h : m.stack.depth = 0) :
    m.askStack .pop = (.error (.fault (.stackUnderflow m.pc)), m) := by
  rw [askStack, pop, CallStack.pop_of_zero h]
  rfl

/-- A pop replies with the latest site and gives its slot back. -/
theorem askStack_pop_of_pos (hpos : m.stack.depth ≠ 0) (hle : m.stack.depth ≤ stackCapacity) :
    m.askStack .pop = (.ok (some m.stack.top), { m with
      stack := { m.stack with depth := m.stack.depth - 1 } }) := by
  rw [askStack, pop, CallStack.pop_of_pos hpos hle]
  rfl

/-- A push puts its site at the head of the list. -/
theorem Holds.push (h : m.Holds sites) (hroom : sites.length < stackCapacity) (site : UInt16) :
    (m.askStack (.push site)).1 = .ok none ∧ (m.askStack (.push site)).2.Holds (site :: sites) := by
  have hlt : m.stack.depth < stackCapacity := h.depth_eq ▸ hroom
  have hpush := CallStack.entries_of_push (CallStack.push_of_lt hlt m.pc site)
  rw [askStack_push_of_lt hlt]
  exact ⟨rfl, hpush.2.2.trans (congrArg (site :: ·) h.entries_eq), congrArg (· + 1) h.depth_eq,
    hroom⟩

/-- A pop takes the head off the list. -/
theorem Holds.pop (h : m.Holds (site :: sites)) :
    (m.askStack .pop).1 = .ok (some site) ∧ (m.askStack .pop).2.Holds sites := by
  have hdepth : m.stack.depth = sites.length + 1 := h.depth_eq
  have hpos : m.stack.depth ≠ 0 := hdepth ▸ Nat.succ_ne_zero _
  have hle : m.stack.depth ≤ stackCapacity := h.depth_eq ▸ h.length_le
  -- the first site of the list is on top of the stack, and the others are left
  have hpop := (CallStack.entries_of_pop (CallStack.pop_of_pos hpos hle m.pc)).2
  rcases List.cons.inj (h.entries_eq.symm.trans hpop) with ⟨htop, hrest⟩
  rw [askStack_pop_of_pos hpos hle, htop]
  exact ⟨rfl, hrest.symm, by rw [hdepth]; rfl, Nat.le_of_succ_le h.length_le⟩

/-- The machine replies as the list does. -/
theorem askStack_holds (h : m.Holds sites) (r : StackRequest) :
    (m.askStack r).1 = (askList m.pc sites r).1 ∧
      (m.askStack r).2.Holds (askList m.pc sites r).2 := by
  cases r with
  | push site =>
      by_cases hroom : sites.length < stackCapacity
      · rw [askList, if_pos hroom]
        exact h.push hroom site
      · have hfull : ¬ m.stack.depth < stackCapacity := h.depth_eq ▸ hroom
        rw [askList, if_neg hroom, askStack_push_of_ge hfull]
        exact ⟨rfl, h⟩
  | pop =>
      cases sites with
      | nil =>
          rw [askStack_pop_of_zero h.depth_eq]
          exact ⟨rfl, h⟩
      | cons site rest => exact h.pop

/-- Only the stack changes. -/
theorem askStack_keeps (m : Machine) (r : StackRequest) :
    ∃ stack, (m.askStack r).2 = { m with stack } := by
  cases r with
  | push site =>
      cases hpush : m.stack.push m.pc site with
      | ok stack =>
          rw [askStack, push, hpush]
          exact ⟨stack, rfl⟩
      | error stop =>
          rw [askStack, push, hpush]
          exact ⟨m.stack, rfl⟩
  | pop =>
      cases hpop : m.stack.pop m.pc with
      | ok result =>
          rw [askStack, pop, hpop]
          exact ⟨result.2, rfl⟩
      | error stop =>
          rw [askStack, pop, hpop]
          exact ⟨m.stack, rfl⟩

/-! ## In place -/

section InPlace

open StackRequest

theorem inPlace_push_of_lt (h : m.stack.depth < stackCapacity) (site : UInt16) :
    inPlace (.push site) m = .ok none { m with
      stack := {
        slots := m.stack.slots.setIfInBounds m.stack.depth site
        depth := m.stack.depth + 1 } } := by
  have hroom : ¬ stackCapacity ≤ m.stack.depth := Nat.not_le.2 h
  rw [← Overlay.set_eq_setIfInBounds m.stack.slots h]
  simp [inPlace, refuse, writeSlot, changeDepth, bind, EStateM.bind, pure, EStateM.pure, hroom, h]

theorem inPlace_push_of_ge (h : ¬ m.stack.depth < stackCapacity) (site : UInt16) :
    inPlace (.push site) m = .error (.fault (.stackOverflow m.pc)) m := by
  have hfull : stackCapacity ≤ m.stack.depth := Nat.not_lt.1 h
  simp [inPlace, refuse, bind, EStateM.bind, hfull]

theorem inPlace_pop_of_zero (h : m.stack.depth = 0) :
    inPlace .pop m = .error (.fault (.stackUnderflow m.pc)) m := by
  simp [inPlace, refuse, bind, EStateM.bind, h]

/-- The slot that is read has just been given back. -/
theorem inPlace_pop_of_pos (hpos : m.stack.depth ≠ 0) (hle : m.stack.depth ≤ stackCapacity) :
    inPlace .pop m = .ok (some m.stack.top) { m with
      stack := { m.stack with depth := m.stack.depth - 1 } } := by
  have hlt : m.stack.depth - 1 < stackCapacity := by omega
  have htop : m.stack.slots[m.stack.depth - 1] = m.stack.top := by
    have hslot := CallStack.top_eq_getElem? (s := m.stack) (d := m.stack.depth - 1) (by omega) hlt
    rwa [Vector.getElem?_eq_getElem hlt, Option.some_inj] at hslot
  simp [inPlace, refuse, readSlot, changeDepth, bind, EStateM.bind, pure, EStateM.pure, hpos, hlt,
    htop]

/-- Carried out in place, a request replies the same and leaves the same machine behind. -/
theorem inPlace_eq (h : m.stack.depth ≤ stackCapacity) (r : StackRequest) :
    r.inPlace m = match m.askStack r with
      | (.ok reply, next) => .ok reply next
      | (.error stop, _) => .error stop m := by
  cases r with
  | push site =>
      by_cases hlt : m.stack.depth < stackCapacity
      · rw [inPlace_push_of_lt hlt, askStack_push_of_lt hlt]
      · rw [inPlace_push_of_ge hlt, askStack_push_of_ge hlt]
  | pop =>
      by_cases hzero : m.stack.depth = 0
      · rw [inPlace_pop_of_zero hzero, askStack_pop_of_zero hzero]
      · rw [inPlace_pop_of_pos hzero h, askStack_pop_of_pos hzero h]

end InPlace

/-! ## Any number of requests -/

/-- So the machine goes along with the list through any requests. -/
theorem askAll_holds (h : m.Holds sites) (requests : List StackRequest) :
    (askAll askStack m requests).1 = (askAll (askList m.pc) sites requests).1 ∧
      (askAll askStack m requests).2.Holds (askAll (askList m.pc) sites requests).2 ∧
      ∃ stack, (askAll askStack m requests).2 = { m with stack } := by
  refine askAll_simulates (R := fun t sites => t.Holds sites ∧ ∃ stack, t = { m with stack })
    (fun t sites r hrelated => ?_) ⟨h, m.stack, rfl⟩ requests
  -- the program counter that a fault names is among the parts that do not change
  rcases hrelated with ⟨hholds, stack, rfl⟩
  rcases askStack_holds hholds r with ⟨hreply, hnext⟩
  rcases askStack_keeps { m with stack } r with ⟨stack', hkept⟩
  exact ⟨hreply, hnext, stack', hkept⟩

end Machine

/-! ## Pushes undone by pops -/

section Lists

variable {pc : UInt16} {sites pushed : List UInt16}

/-- Pushes that all go through leave their sites at the head, the last of them first. -/
theorem askAll_pushes (h : (askAll (askList pc) sites (pushed.map .push)).1 =
      List.replicate pushed.length (.ok none)) :
    (askAll (askList pc) sites (pushed.map .push)).2 = pushed.reverse ++ sites := by
  induction pushed generalizing sites with
  | nil => rfl
  | cons site rest ih =>
      rw [List.map_cons, askAll_cons] at h ⊢
      rcases List.cons.inj h with ⟨hreply, hrest⟩
      by_cases hroom : sites.length < stackCapacity
      · have hpush : askList pc sites (.push site) = (.ok none, site :: sites) := if_pos hroom
        rw [hpush] at hrest ⊢
        rw [List.reverse_cons, List.append_assoc, List.singleton_append]
        exact ih hrest
      · -- a push without room would not have gone through
        rw [askList, if_neg hroom] at hreply
        cases hreply

/-- Pops take the sites off the head one by one. -/
theorem askAll_pops (pc : UInt16) (taken sites : List UInt16) :
    askAll (askList pc) (taken ++ sites) (List.replicate taken.length .pop) =
      (taken.map fun site => .ok (some site), sites) := by
  induction taken with
  | nil => rfl
  | cons site rest ih =>
      rw [List.length_cons, List.replicate_succ, askAll_cons]
      show (Except.ok (some site) :: (askAll (askList pc) (rest ++ sites) _).1,
        (askAll (askList pc) (rest ++ sites) _).2) = _
      rw [ih, List.map_cons]

end Lists

namespace Machine

/-- A machine that holds a list of sites replies to any requests as the list does, always holds what
the list has become, and is otherwise left alone. Carried out in place, a request replies the same
and leaves the same machine behind. Pushes that all go through are undone by as many pops. -/
theorem stack_follows_list :
    (powerOn.Holds [] ∧ ∀ m : Machine, m.reset.Holds []) ∧
    ∀ (m : Machine) (sites : List UInt16), m.Holds sites →
      (∀ requests,
        let run := askAll askStack m requests
        let list := askAll (askList m.pc) sites requests
        run.1 = list.1 ∧ run.2.Holds list.2 ∧ ∃ stack, run.2 = { m with stack }) ∧
      (∀ r : StackRequest, r.inPlace m = match m.askStack r with
        | (.ok reply, next) => .ok reply next
        | (.error stop, _) => .error stop m) ∧
      ∀ pushed : List UInt16,
        (askAll askStack m (pushed.map .push)).1 = List.replicate pushed.length (.ok none) →
        let undone := askAll askStack m (pushed.map .push ++ List.replicate pushed.length .pop)
        undone.1 = List.replicate pushed.length (.ok none) ++
          pushed.reverse.map (fun site => .ok (some site)) ∧ undone.2.Holds sites := by
  refine ⟨⟨holds_powerOn, holds_reset⟩, fun m sites h => ⟨askAll_holds h, fun r => ?_, ?_⟩⟩
  · exact inPlace_eq (h.depth_eq ▸ h.length_le) r
  · intro pushed hpushed
    -- when the pops begin, the pushed sites stand before the list in reverse
    have hlist := (askAll_holds h (pushed.map .push)).1.symm.trans hpushed
    have hpops := askAll_pops m.pc pushed.reverse sites
    rw [List.length_reverse] at hpops
    have hundone := askAll_holds h (pushed.map .push ++ List.replicate pushed.length .pop)
    rw [askAll_append (askList m.pc), hlist, askAll_pushes hlist, hpops] at hundone
    exact ⟨hundone.1, hundone.2.1⟩

/-- Sixteen calls fill the stack of a fresh machine.  One more is refused and leaves the stack as it
was, and sixteen pops undo the calls.  In place, a pop of the empty stack leaves the machine as it
was. -/
theorem stack_follows_list_full :
    let sites : List UInt16 := (List.range 16).map fun k => UInt16.ofNat (0x200 + 2 * k)
    let calls := sites.map StackRequest.push
    powerOn.Holds [] ∧
      (askAll askStack powerOn calls).1 = List.replicate 16 (.ok none) ∧
      (askAll askStack powerOn (calls ++ [.push 0x300])).1[16]? =
        some (.error (.fault (.stackOverflow 0x200))) ∧
      (askAll askStack powerOn (calls ++ [.push 0x300])).2.Holds sites.reverse ∧
      (askAll askStack powerOn (calls ++ List.replicate 16 .pop)).1 =
        List.replicate 16 (.ok none) ++ sites.reverse.map (fun site => .ok (some site)) ∧
      StackRequest.pop.inPlace powerOn = .error (.fault (.stackUnderflow 0x200)) powerOn := by
  intro sites calls
  rcases stack_follows_list with ⟨⟨hfresh, -⟩, hall⟩
  rcases hall powerOn [] hfresh with ⟨hrun, hinPlace, hundo⟩
  have hcalls : (askAll askStack powerOn calls).1 = List.replicate 16 (.ok none) :=
    (hrun calls).1.trans rfl
  rcases hrun (calls ++ [.push 0x300]) with ⟨hreplies, hholds, -⟩
  refine ⟨hfresh, hcalls, ?_, hholds, (hundo sites hcalls).1, hinPlace .pop⟩
  rw [hreplies]
  rfl

end Machine
end Chip8
