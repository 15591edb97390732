/-!
# Overlay — writing a list over consecutive cells

`overlay v start xs` is `v` with the cells from `start` on replaced by the members of `xs`; members
that would lie beyond the end are dropped.  `getElem_overlay` reads any cell of the result.
-/

namespace Chip8

/-- The vector with consecutive cells replaced by the members of a list. -/
def overlay {α : Type} {n : Nat} (v : Vector α n) (start : Nat) : List α → Vector α n
  | [] => v
  | x :: xs => overlay (v.setIfInBounds start x) (start + 1) xs

namespace Overlay

variable {α : Type} {n : Nat}

/-- Within bounds the check of the index makes no difference. -/
theorem set_eq_setIfInBounds (v : Vector α n) {i : Nat} (h : i < n) (x : α) :
    v.set i x h = v.setIfInBounds i x := by
  ext j hj
  simp [Vector.getElem_set, Vector.getElem_setIfInBounds]

/-- A cell before the list keeps its value. -/
theorem getElem_of_lt (xs : List α) (v : Vector α n) {start i : Nat} (hi : i < n) (h : i < start) :
    (overlay v start xs)[i] = v[i] := by
  induction xs generalizing v start with
  | nil => rfl
  | cons x xs ih =>
      rw [overlay, ih (v.setIfInBounds start x) (by omega)]
      simp [show start ≠ i by omega]

/-- A cell under the list has the value of its member. -/
theorem getElem_of_mem (xs : List α) (v : Vector α n) {start i : Nat} (hi : i < n) (h : start ≤ i)
    (hx : i - start < xs.length) : (overlay v start xs)[i] = xs[i - start] := by
  induction xs generalizing v start with
  | nil => simp at hx
  | cons x xs ih =>
      by_cases hs : i = start
      · subst hs
        rw [overlay, getElem_of_lt xs _ hi (by omega)]
        simp
      · have hx' : i - (start + 1) < xs.length := by
          simp only [List.length_cons] at hx
          omega
        rw [overlay, ih (v.setIfInBounds start x) (by omega) hx']
        simp [show i - start = i - (start + 1) + 1 by omega]

/-- A cell after the list keeps its value. -/
theorem getElem_of_ge (xs : List α) (v : Vector α n) {start i : Nat} (hi : i < n)
    (h : start + xs.length ≤ i) : (overlay v start xs)[i] = v[i] := by
  induction xs generalizing v start with
  | nil => rfl
  | cons x xs ih =>
      simp only [List.length_cons] at h
      rw [overlay, ih (v.setIfInBounds start x) (by omega)]
      simp [show start ≠ i by omega]

/-- So no cell outside the list changes. -/
theorem getElem?_of_outside (xs : List α) (v : Vector α n) {start i : Nat}
    (h : i < start ∨ start + xs.length ≤ i) : (overlay v start xs)[i]? = v[i]? := by
  by_cases hi : i < n
  · rw [Vector.getElem?_eq_getElem hi, Vector.getElem?_eq_getElem hi]
    cases h with
    | inl hlt => rw [getElem_of_lt xs v hi hlt]
    | inr hge => rw [getElem_of_ge xs v hi hge]
  · rw [Vector.getElem?_eq_none (Nat.le_of_not_lt hi),
      Vector.getElem?_eq_none (Nat.le_of_not_lt hi)]

/-- The members of the list are read back one by one, as far as they lie within bounds. -/
theorem getElem?_of_inside (xs : List α) (v : Vector α n) {start k : Nat} (hk : k < xs.length)
    (h : start + k < n) : (overlay v start xs)[start + k]? = xs[k]? := by
  have hsub : start + k - start = k := Nat.add_sub_cancel_left start k
  have hmem : start + k - start < xs.length := by
    rw [hsub]
    exact hk
  rw [Vector.getElem?_eq_getElem h, getElem_of_mem xs v h (Nat.le_add_right start k) hmem,
    List.getElem?_eq_getElem hk]
  simp only [hsub]

end Overlay
end Chip8
