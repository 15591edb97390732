/-!
# Requests — asking a state one thing after the other

Something that is asked replies, and may be another one afterwards.  `askAll` goes through a list of
requests and collects the replies.

* `reply_at`: a reply does not depend on what is asked later;
* `askAll_simulates`: what replies alike to each request replies alike to any list of them.
-/

namespace Chip8

variable {σ τ ρ α : Type} {ask : σ → ρ → α × σ}

/-- The replies to a list of requests, and the state after the last of them. -/
def askAll (ask : σ → ρ → α × σ) (s : σ) : List ρ → List α × σ
  | [] => ([], s)
  | r :: rest =>
      let (reply, next) := ask s r
      let (replies, last) := askAll ask next rest
      (reply :: replies, last)

@[simp]
theorem askAll_cons (s : σ) (r : ρ) (rest : List ρ) :
    askAll ask s (r :: rest) =
      ((ask s r).1 :: (askAll ask (ask s r).2 rest).1, (askAll ask (ask s r).2 rest).2) := rfl

/-- The requests of the second list go to the state that the first one leaves. -/
theorem askAll_append (ask : σ → ρ → α × σ) (s : σ) (past later : List ρ) :
    askAll ask s (past ++ later) =
      ((askAll ask s past).1 ++ (askAll ask (askAll ask s past).2 later).1,
        (askAll ask (askAll ask s past).2 later).2) := by
  induction past generalizing s with
  | nil => rfl
  | cons r rest ih => rw [List.cons_append, askAll_cons, ih, askAll_cons, List.cons_append]

theorem state_concat (s : σ) (past : List ρ) (r : ρ) :
    (askAll ask s (past ++ [r])).2 = (ask (askAll ask s past).2 r).2 := by
  rw [askAll_append]
  rfl

@[simp]
theorem length_replies (s : σ) (requests : List ρ) :
    (askAll ask s requests).1.length = requests.length := by
  induction requests generalizing s with
  | nil => rfl
  | cons r rest ih => rw [askAll_cons, List.length_cons, List.length_cons, ih]

/-- The reply to one of the requests is given by the state that those before it have left. -/
theorem reply_at (s : σ) (before : List ρ) (r : ρ) (later : List ρ) :
    (askAll ask s (before ++ r :: later)).1[before.length]? =
      some (ask (askAll ask s before).2 r).1 := by
  rw [askAll_append, List.getElem?_append_right (Nat.le_of_eq (length_replies s before)),
    length_replies, Nat.sub_self]
  rfl

/-- Two states that reply alike to each request, and stay related, reply alike to a list of them. -/
theorem askAll_simulates {ask' : τ → ρ → α × τ} {R : σ → τ → Prop}
    (hstep : ∀ s t r, R s t →
      (ask s r).1 = (ask' t r).1 ∧ R (ask s r).2 (ask' t r).2)
    {s : σ} {t : τ} (h : R s t) (requests : List ρ) :
    (askAll ask s requests).1 = (askAll ask' t requests).1 ∧
      R (askAll ask s requests).2 (askAll ask' t requests).2 := by
  induction requests generalizing s t with
  | nil => exact ⟨rfl, h⟩
  | cons r rest ih =>
      rcases hstep s t r h with ⟨hreply, hnext⟩
      rcases ih hnext with ⟨hreplies, hlast⟩
      rw [askAll_cons, askAll_cons, hreply, hreplies]
      exact ⟨rfl, hlast⟩

end Chip8
