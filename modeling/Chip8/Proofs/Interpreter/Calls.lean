import Chip8.Proofs.Interpreter.Bounds
import Chip8.Proofs.Interpreter.History

/-!
# Calls — a call and the return that matches it

A call leaves its site on the stack, on top of the sites that were there.  As long as the stack is
higher than before the call, nothing reaches down to that site: calls made meanwhile use the slots
above it, and returns give those back.  So when the stack is as low again as before the call, it is
by a return, and the return goes on after the call, whatever the program has done in between, also
to its own code.

Main statement: `return_matches_call`.
-/

namespace Chip8
namespace CallStack

variable {base stack : CallStack} {site : UInt16}

def KeptOn (base stack : CallStack) : Prop :=
  ∀ k < base.depth, stack.slots[k]? = base.slots[k]?

/-- A call that was made on top of `base` has not returned yet: all that `base` used is kept, and
the call site stands in the slot above. -/
structure Pending (base : CallStack) (site : UInt16) (stack : CallStack) : Prop where
  depth_lt : base.depth < stack.depth
  depth_le : stack.depth ≤ stackCapacity
  site_eq : stack.slots[base.depth]? = some site
  kept : base.KeptOn stack

/-- A push does not reach what lies below. -/
theorem getElem?_push {k : Nat} (h : k < stack.depth) :
    (stack.slots.setIfInBounds stack.depth site)[k]? = stack.slots[k]? :=
  Vector.getElem?_setIfInBounds_ne (Nat.ne_of_gt h)

/-- A call is pending as soon as it is made. -/
theorem pending_push (h : base.depth < stackCapacity) (site : UInt16) :
    base.Pending site
      { slots := base.slots.setIfInBounds base.depth site, depth := base.depth + 1 } where
  depth_lt := Nat.lt_succ_self _
  depth_le := h
  site_eq := Vector.getElem?_setIfInBounds_self_of_lt h
  kept := fun _ hk => getElem?_push hk

theorem Pending.push (h : base.Pending site stack) (hroom : stack.depth < stackCapacity)
    (inner : UInt16) :
    base.Pending site
      { slots := stack.slots.setIfInBounds stack.depth inner, depth := stack.depth + 1 } where
  depth_lt := Nat.lt_succ_of_lt h.depth_lt
  depth_le := hroom
  site_eq := (getElem?_push h.depth_lt).trans h.site_eq
  kept := fun k hk => (getElem?_push (Nat.lt_trans hk h.depth_lt)).trans (h.kept k hk)

/-- A return is one from a further call, or goes to the call site. -/
theorem Pending.pop (h : base.Pending site stack) :
    base.Pending site { stack with depth := stack.depth - 1 } ∨
      (stack.depth - 1 = base.depth ∧ stack.top = site) := by
  have hlt := h.depth_lt
  have hle := h.depth_le
  by_cases hlast : stack.depth = base.depth + 1
  · right
    have htop := top_eq_getElem? hlast (by omega)
    rw [h.site_eq] at htop
    exact ⟨by omega, (Option.some.inj htop).symm⟩
  · left
    exact ⟨by simp only; omega, by simp only; omega, h.site_eq, h.kept⟩

end CallStack

/-- A call that is not refused finds a free slot. -/
theorem Machine.room_of_fault? {m : Machine} {target : UInt16}
    (h : m.fault? (.call target) = none) : m.stack.depth < stackCapacity := by
  by_contra hroom
  rw [fault?, if_neg hroom] at h
  cases h

namespace Interpreter

variable {s u t next : Interpreter} {op : Operation} {ops more : List Operation} {r : Response}
  {o : Outcome} {depth : Nat}

/-! ## One operation -/

/-- The step from `u` to `t` is the return from the call that `s` is about to make. -/
structure Returns (s u t : Interpreter) : Prop where
  current : u.current? = some .ret
  step_eq : u.step = .ok ⟨none, t⟩
  pc_eq : t.machine.pc.toNat = s.machine.pc.toNat + 2
  depth_eq : t.machine.stack.depth = s.machine.stack.depth
  kept : s.machine.stack.KeptOn t.machine.stack

def CallPending (s u : Interpreter) : Prop :=
  s.machine.stack.Pending s.machine.pc u.machine.stack

/-- The step that calls leaves the call pending. -/
theorem callPending_of_step {target : UInt16} (hcall : s.current? = some (.call target))
    (hstep : s.step = .ok ⟨none, next⟩) : s.CallPending next := by
  rcases performed_of_current? hcall hstep with ⟨hnone, rfl⟩
  exact CallStack.pending_push (Machine.room_of_fault? hnone) s.machine.pc

/-- A pending call stays so, or the step is the return from it. -/
theorem CallPending.step (h : s.CallPending u) (hpc : s.machine.pc.toNat < 0xFFF)
    (hstep : u.step = .ok o) : s.CallPending o.next ∨ s.Returns u o.next := by
  cases step_outcome hstep with
  | @performed i hi hnone =>
      -- only a call and a return touch the stack
      cases i with
      | ret =>
          rcases CallStack.Pending.pop h with hinner | ⟨hdepth, htop⟩
          · exact .inl hinner
          · right
            have hfits : s.machine.pc.toNat + 2 < 0x10000 := by omega
            have hback : (u.effect .ret).machine.pc.toNat = s.machine.pc.toNat + 2 := by
              calc (u.effect .ret).machine.pc.toNat
                  = (UInt16.ofNat (u.machine.stack.top.toNat + 2)).toNat := rfl
                _ = (UInt16.ofNat (s.machine.pc.toNat + 2)).toNat := by rw [htop]
                _ = s.machine.pc.toNat + 2 := UInt16.toNat_ofNat_of_lt' hfits
            exact ⟨hi, hstep, hback, hdepth, h.kept⟩
      | call target =>
          exact .inl (CallStack.Pending.push h (Machine.room_of_fault? hnone) u.machine.pc)
      | _ => exact .inl h
  | @polled x _ =>
      rcases u.polled_keeps x with ⟨registers, pc, runState, hpolled⟩
      rw [hpolled]
      exact .inl h
  | refused _ => exact .inl h

/-- Only a step returns from a call. -/
theorem CallPending.apply (h : s.CallPending u) (hpc : s.machine.pc.toNat < 0xFFF)
    (hop : op.direct = false ∧ op ≠ .reset) (happly : u.apply op = .ok (r, t)) :
    s.CallPending t ∨ (op = .step ∧ s.Returns u t) := by
  cases op with
  | step =>
      rcases outcome_of_answer happly with ⟨o, hstep, -, rfl⟩
      exact (h.step hpc hstep).imp_right fun hreturns => ⟨rfl, hreturns⟩
  | execute | executeMany => cases hop.1
  | reset => exact absurd rfl hop.2
  | load program =>
      cases happly
      rcases u.load_keeps program with ⟨memory, hnext⟩
      rw [hnext]
      exact .inl h
  | tick | takeFrame | takeBeep | writeKeypad =>
      cases happly
      exact .inl h

/-! ## Up to the return -/

/-- Until the operations are through, the stack is never as high as this. -/
def Avoids (s : Interpreter) (ops : List Operation) (depth : Nat) : Prop :=
  ∀ before later u, ops = before ++ later → later ≠ [] → s.Leads before u →
    u.machine.stack.depth ≠ depth

theorem avoids_nil (s : Interpreter) (depth : Nat) : s.Avoids [] depth := by
  intro before later u hsplit hlater
  exact absurd (List.append_eq_nil_iff.1 hsplit.symm).2 hlater

theorem avoids_cons : s.Avoids (op :: ops) depth ↔
    s.machine.stack.depth ≠ depth ∧ ∀ r t, s.apply op = .ok (r, t) → t.Avoids ops depth := by
  constructor
  · intro h
    refine ⟨h [] (op :: ops) s rfl (List.cons_ne_nil _ _) (.refl s), ?_⟩
    intro r t happly before later u hsplit hlater hbefore
    exact h (op :: before) later u (congrArg (op :: ·) hsplit) hlater (.cons happly hbefore)
  · rintro ⟨hnow, hrest⟩ before later u hsplit hlater hbefore
    rcases List.cons_eq_append_iff.1 hsplit with ⟨rfl, -⟩ | ⟨front, rfl, hops⟩
    · rwa [← Leads.unique (.refl s) hbefore]
    · rcases hbefore with ⟨rs, hall⟩
      rcases applyAll_cons hall with ⟨r, rest, next, happly, hfront, -⟩
      exact hrest r next happly front later u hops hlater ⟨rest, hfront⟩

theorem Avoids.front (h : s.Avoids (ops ++ more) depth) : s.Avoids ops depth := by
  intro before later u hsplit hlater
  refine h before (later ++ more) u ?_ (List.append_ne_nil_of_left_ne_nil hlater more)
  rw [hsplit, List.append_assoc]

/-- A call is pending until the stack is as low again as it was before the call. -/
theorem CallPending.leads (h : s.CallPending u) (hpc : s.machine.pc.toNat < 0xFFF)
    (hops : ∀ op ∈ ops, op.direct = false ∧ op ≠ .reset) (hleads : u.Leads ops t)
    (havoids : u.Avoids ops s.machine.stack.depth)
    (hend : t.machine.stack.depth ≠ s.machine.stack.depth) : s.CallPending t := by
  induction ops generalizing u with
  | nil => rwa [← Leads.unique (.refl u) hleads]
  | cons op rest ih =>
      rcases List.forall_mem_cons.1 hops with ⟨hop, hrest⟩
      rcases hleads with ⟨rs, hall⟩
      rcases applyAll_cons hall with ⟨r, later, v, happly, hlater, -⟩
      have hv : v.Avoids rest s.machine.stack.depth := (avoids_cons.1 havoids).2 r v happly
      rcases h.apply hpc hop happly with hpending | ⟨-, hreturns⟩
      · exact ih hpending hrest ⟨later, hlater⟩ hv
      · -- after a return the stack is as low as before the call, which it avoids up to its end
        exfalso
        cases rest with
        | nil =>
            cases hlater
            exact hend hreturns.depth_eq
        | cons first rest => exact (avoids_cons.1 hv).1 hreturns.depth_eq

instance decidableAvoids (s : Interpreter) :
    (ops : List Operation) → (depth : Nat) → Decidable (s.Avoids ops depth)
  | [], depth => .isTrue (avoids_nil s depth)
  | op :: rest, depth =>
      match happly : s.apply op with
      | .error _ =>
          decidable_of_iff (s.machine.stack.depth ≠ depth) (by simp [avoids_cons, happly])
      | .ok (_, t) =>
          have := decidableAvoids t rest depth
          decidable_of_iff (s.machine.stack.depth ≠ depth ∧ t.Avoids rest depth)
            (by simp [avoids_cons, happly])

/-- After a call that succeeds, let the program run in any way until the stack is for the first time
as low as it was before the call. The last operation then is a step that returns, to just after the
call, and the slots below are what they were. -/
theorem return_matches_call {target : UInt16} {rs : List Response}
    (hcall : s.current? = some (.call target)) (hstep : s.step = .ok ⟨none, next⟩)
    (hops : ∀ op ∈ ops, op.direct = false ∧ op ≠ .reset) (hrun : next.applyAll ops = .ok (rs, t))
    (hfirst : next.Avoids ops s.machine.stack.depth)
    (hdepth : t.machine.stack.depth = s.machine.stack.depth) :
    (∃ before u, ops = before ++ [.step] ∧ next.Leads before u ∧ s.Returns u t) ∧
      ∀ before later u, ops = before ++ later → later ≠ [] → next.Leads before u →
        s.CallPending u := by
  have hpc : s.machine.pc.toNat < 0xFFF := (row_of_current? hcall).1
  have hnext : s.CallPending next := callPending_of_step hcall hstep
  have hway : ∀ before later u, ops = before ++ later → later ≠ [] → next.Leads before u →
      s.CallPending u := by
    intro before later u hsplit hlater hbefore
    have hfront : ∀ op ∈ before, op.direct = false ∧ op ≠ .reset := fun op hop =>
      hops op (hsplit ▸ List.mem_append_left later hop)
    exact hnext.leads hpc hfront hbefore (hsplit ▸ hfirst).front
      (hfirst before later u hsplit hlater hbefore)
  refine ⟨?_, hway⟩
  rcases List.eq_nil_or_concat ops with rfl | ⟨before, last, hlast⟩
  · -- the call itself has made the stack higher
    cases hrun
    exact absurd hdepth (Nat.ne_of_gt hnext.depth_lt)
  · rw [List.concat_eq_append] at hlast
    subst hlast
    rcases applyAll_concat hrun with ⟨rs, u, r, hbefore, happly, -⟩
    have hpending : s.CallPending u :=
      hway before [last] u rfl (List.cons_ne_nil _ _) ⟨rs, hbefore⟩
    rcases hpending.apply hpc (hops last (by simp)) happly with hstill | ⟨rfl, hreturns⟩
    · exact absurd hdepth (Nat.ne_of_gt hstill.depth_lt)
    · exact ⟨before, u, rfl, ⟨rs, hbefore⟩, hreturns⟩

/-- The subroutine calls another one, and puts its own return in place with its last instruction but
one.  The timers tick, and a key is pressed. -/
theorem return_matches_call_self_modifying :
    let program : List UInt8 := [0x22, 0x04, 0x12, 0x02, 0x22, 0x12, 0xA2, 0x0E, 0x60, 0x00, 0x61,
      0xEE, 0xF1, 0x55, 0x00, 0x00, 0x00, 0x00, 0x00, 0xEE]
    let s := ((start (.ofSeed 3)).load program).next
    let ops : List Operation :=
      [.step, .tick, .step, .writeKeypad (.set 7 true), .step, .step, .step, .step, .step]
    ∃ next rs t, s.current? = some (.call 0x204) ∧ s.step = .ok ⟨none, next⟩ ∧
      (∀ op ∈ ops, op.direct = false ∧ op ≠ .reset) ∧ next.applyAll ops = .ok (rs, t) ∧
      next.Avoids ops s.machine.stack.depth ∧
      t.machine.stack.depth = s.machine.stack.depth ∧ t.machine.pc.toNat = 0x202 := by
  intro program s ops
  -- one evaluation for all of them, since each would load the program again
  have hvalues : s.current? = some (.call 0x204) ∧ s.machine.fault? (.call 0x204) = none ∧
      (s.effect (.call 0x204)).Avoids ops s.machine.stack.depth ∧
      ((s.effect (.call 0x204)).applyAll ops).toOption.map
        (fun result => result.2.machine.stack.depth) = some s.machine.stack.depth := by
    decide +kernel
  rcases hvalues with ⟨hcall, hroom, hfirst, hend⟩
  have hadmits : s.machine.Admits (.call 0x204) := ⟨fun _ hx => (nomatch hx), trivial⟩
  have hstep : s.step = .ok ⟨none, s.effect (.call 0x204)⟩ := step_of_admits hcall hadmits hroom
  have hops : ∀ op ∈ ops, op.direct = false ∧ op ≠ .reset := by decide
  cases hrun : (s.effect (.call 0x204)).applyAll ops with
  | error b =>
      rw [hrun] at hend
      cases hend
  | ok result =>
      rcases result with ⟨rs, t⟩
      rw [hrun] at hend
      have hdepth : t.machine.stack.depth = s.machine.stack.depth := Option.some.inj hend
      rcases (return_matches_call hcall hstep hops hrun hfirst hdepth).1 with
        ⟨_, _, _, _, hreturns⟩
      exact ⟨_, rs, t, hcall, hstep, hops, hrun, hfirst, hdepth, hreturns.pc_eq⟩

end Interpreter
end Chip8
