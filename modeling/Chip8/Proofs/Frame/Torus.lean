import Chip8.Frame
import Chip8.Proofs.Frame.Counting
import Mathlib.Data.List.DropRight

/-!
# Torus — a screen as independent cells

The cells of a screen are flipped one at a time, by coordinates of any size that name the same cell
if they agree around both edges.  So a cell is lit if it has been flipped an odd number of times
since the screen was cleared, whatever has been done to the others (`get_askAll`), and the order of
flips makes no difference to the screen.

Main statement: `cells_follow_flips`.
-/

namespace Chip8
namespace Frame

variable {f : Frame} {x y u v : Nat} {r : Request} {past requests requests' : List Request}

/-! ## Flips in a list of requests -/

def Request.clears : Request → Bool
  | .clear => true
  | .flip .. | .get .. | .snapshot => false

def Request.flips (u v : Nat) : Request → Bool
  | .flip x y => x % screenWidth = u % screenWidth ∧ y % screenHeight = v % screenHeight
  | .clear | .get .. | .snapshot => false

-- counted from the last clear, or from the beginning
def flipsSince (u v : Nat) (past : List Request) : Nat :=
  (past.rtakeWhile fun r => !r.clears).countP (Request.flips u v)

/-- A clear forgets the flips. -/
theorem flipsSince_concat_of_clears (h : r.clears = true) : flipsSince u v (past ++ [r]) = 0 := by
  simp [flipsSince, h]

/-- Any other request adds to the flips what it flips itself. -/
theorem flipsSince_concat (h : r.clears = false) :
    flipsSince u v (past ++ [r]) = flipsSince u v past + (r.flips u v).toNat := by
  cases hflips : r.flips u v with
  | _ => simp [flipsSince, h, hflips]

/-- Without a clear all flips count. -/
theorem flipsSince_of_not_clears (h : ∀ r ∈ past, r.clears = false) :
    flipsSince u v past = past.countP (Request.flips u v) := by
  have hall : past.rtakeWhile (fun r => !r.clears) = past :=
    List.rtakeWhile_eq_self_iff.2 fun r hr => by rw [h r hr]; rfl
  rw [flipsSince, hall]

/-! ## One request -/

/-- A flip reaches the cell that it names, and no other. -/
@[simp]
theorem get_flip (f : Frame) (x y u v : Nat) :
    (f.flip x y).2.get u v = (f.get u v ^^ (Request.flip x y).flips u v) := by
  show (f.toggle (.at x y)).lit (.at u v) = _
  rw [lit_toggle, decide_eq_decide.2 Cell.at_eq_at_iff]
  rfl

/-- A blank screen is dark at all coordinates. -/
@[simp]
theorem get_blank (u v : Nat) : blank.get u v = false :=
  lit_blank _

@[simp]
theorem litCount_blank : blank.litCount = 0 := by
  rw [litCount, blank, Vector.toList_replicate]
  exact List.count_eq_zero.2 fun h => absurd (List.eq_of_mem_replicate h) (by decide)

/-- A request that is no clear turns a cell around if it flips it. -/
theorem get_ask_of_not_clears (h : r.clears = false) :
    (f.ask r).2.get u v = (f.get u v ^^ r.flips u v) := by
  cases r with
  | clear => cases h
  | flip x y => exact f.get_flip x y u v
  | get | snapshot => exact (Bool.xor_false _).symm

/-- A clear leaves a blank screen. -/
theorem ask_of_clears (h : r.clears = true) : (f.ask r).2 = blank := by
  cases r with
  | clear => rfl
  | flip | get | snapshot => cases h

/-- Each flip adds a lit cell or takes one away. -/
theorem litCount_flip (f : Frame) (x y : Nat) :
    ((f.flip x y).2.litCount : Int) = f.litCount + if (f.flip x y).1 then -1 else 1 := by
  have hcell : (Cell.at x y).val < f.cells.toList.length := by
    rw [Vector.length_toList]
    exact (Cell.at x y).isLt
  have hlit : f.cells.toList[(Cell.at x y).val] = f.get x y := by
    simp [get, lit]
  have hset : (f.flip x y).2.litCount =
      (f.cells.toList.set (Cell.at x y).val (!f.get x y)).count true := by
    simp [flip, toggle, get, litCount, Vector.toList_set]
  rw [hset, List.count_set hcell, hlit]
  show _ = _ + if f.get x y then (-1 : Int) else 1
  cases hbefore : f.get x y with
  | false => rfl
  | true =>
      -- the cell that goes dark has been counted
      have hpos : 0 < f.litCount := by
        rw [hbefore] at hlit
        exact List.count_pos_iff.2 (hlit ▸ List.getElem_mem hcell)
      show ((f.litCount - 1 : Nat) : Int) = f.litCount + -1
      omega

/-! ## Any number of requests -/

/-- A clear forgets what the cell was before; flips turn it around. -/
theorem get_askAll (f : Frame) (past : List Request) (u v : Nat) :
    (askAll ask f past).2.get u v =
      ((f.get u v && past.all fun r => !r.clears) ^^ decide (flipsSince u v past % 2 = 1)) := by
  induction past using List.reverseRecOn with
  | nil => simp [askAll, flipsSince]
  | append_singleton past r ih =>
      rw [state_concat]
      cases hclears : r.clears with
      | true =>
          -- whatever was lit before, nothing is lit after a clear
          simp [ask_of_clears, hclears, flipsSince_concat_of_clears]
      | false =>
          have hall : (past ++ [r]).all (fun r => !r.clears) = past.all fun r => !r.clears := by
            simp [hclears]
          rw [get_ask_of_not_clears hclears, ih, flipsSince_concat hclears, hall, odd_add_toNat,
            Bool.xor_assoc]

/-- From a blank screen on, a cell is lit after an odd number of flips. -/
theorem get_askAll_blank (past : List Request) (u v : Nat) :
    (askAll ask blank past).2.get u v = decide (flipsSince u v past % 2 = 1) := by
  simp [get_askAll]

/-- Two screens that look the same at all coordinates are the same. -/
theorem eq_of_get_eq {g : Frame} (h : ∀ u v, f.get u v = g.get u v) : f = g := by
  refine eq_of_lit_eq fun c => ?_
  rcases Cell.exists_at c with ⟨u, -, v, -, rfl⟩
  exact h u v

/-- As long as nothing is cleared, requests in any order lead to the same screen. -/
theorem askAll_perm (f : Frame) (h : ∀ r ∈ requests, r.clears = false)
    (hperm : requests.Perm requests') : (askAll ask f requests').2 = (askAll ask f requests).2 := by
  have h' : ∀ r ∈ requests', r.clears = false := fun r hr => h r (hperm.mem_iff.2 hr)
  refine eq_of_get_eq fun u v => ?_
  -- a cell depends on how often it is flipped, which is the same in both orders
  rw [get_askAll, get_askAll, flipsSince_of_not_clears h, flipsSince_of_not_clears h',
    hperm.countP_eq, hperm.all_eq]

/-- A screen that begins blank and is asked whatever it may be. A cell is lit afterwards if the
flips of it since the last clear are odd in number, and each flip replies whether they were so just
before. Flips can be made in any order, and each changes the number of lit cells by one. -/
theorem cells_follow_flips :
    (∀ (requests : List Request) (u v : Nat),
      (askAll ask blank requests).2.get u v = decide (flipsSince u v requests % 2 = 1)) ∧
    (∀ (before later : List Request) (x y : Nat),
      (askAll ask blank (before ++ .flip x y :: later)).1[before.length]? =
        some (.lit (decide (flipsSince x y before % 2 = 1)))) ∧
    (∀ (f : Frame) (requests requests' : List Request), (∀ r ∈ requests, r.clears = false) →
      requests.Perm requests' → (askAll ask f requests').2 = (askAll ask f requests).2) ∧
    ∀ (f : Frame) (x y : Nat), ∃ hit, (f.ask (.flip x y)).1 = .lit hit ∧
      ((f.ask (.flip x y)).2.litCount : Int) = f.litCount + if hit then -1 else 1 := by
  refine ⟨get_askAll_blank, fun before later x y => ?_,
    fun f requests requests' h hperm => askAll_perm f h hperm,
    fun f x y => ⟨f.get x y, rfl, f.litCount_flip x y⟩⟩
  rw [reply_at, ← get_askAll_blank]
  rfl

/-- One cell is flipped under three names, with a clear after the first flip.  The cell in the lower
right corner is named by the largest numbers of 64 bits. -/
theorem cells_follow_flips_wrapped :
    let before : List Request := [.flip 1 2, .clear, .flip 65 34, .snapshot]
    let flips : List Request :=
      [.flip 129 66, .flip 0xFFFFFFFFFFFFFFFF 0xFFFFFFFFFFFFFFFF, .flip 1 2]
    ((∀ r ∈ flips, r.clears = false) ∧ flips.Perm flips.reverse) ∧
      (askAll ask blank (before ++ flips)).1[4]? = some (.lit true) ∧
      (askAll ask blank (before ++ flips)).2.get 1 2 = true ∧
      (askAll ask blank (before ++ flips)).2.get 63 31 = true ∧
      (askAll ask blank flips.reverse).2 = (askAll ask blank flips).2 ∧
      (blank.ask (.flip 129 66)).2.litCount = 1 := by
  intro before flips
  have hkeep : ∀ r ∈ flips, r.clears = false := by decide
  have hperm : flips.Perm flips.reverse := (List.reverse_perm flips).symm
  rcases cells_follow_flips with ⟨hget, hreply, horder, hcount⟩
  refine ⟨⟨hkeep, hperm⟩, (hreply before flips.tail 129 66).trans ?_, (hget _ 1 2).trans ?_,
    (hget _ 63 31).trans ?_, horder blank flips flips.reverse hkeep hperm, ?_⟩
  · decide
  · decide
  · decide
  · rcases hcount blank 129 66 with ⟨hit, hlit, hchange⟩
    have hdark : hit = false := (Reply.lit.inj hlit).symm.trans (get_blank 129 66)
    rw [hdark, litCount_blank] at hchange
    exact Int.ofNat.inj hchange

end Frame
end Chip8
