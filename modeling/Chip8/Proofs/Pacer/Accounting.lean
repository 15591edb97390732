import Chip8.Pacer

/-!
# Accounting — how many ticks a pacer gives away

A pacer answers with whole ticks and keeps what is left of the time in `next`.  So the account is
one of time: every tick that is given away moves `next` by a period, and `next` is never more than a
period ahead of the clock.  `Answered` says this of one call.

A sequence of calls falls into segments, one from each restart to the next.  In a segment the ticks
never outnumber the periods since its origin, and they are as many, counting the one at the origin,
unless a call was cut off at the burst limit; it does not matter when the calls were made.

Main statement: `askAll_accounts`.
-/

namespace Chip8
namespace Pacer

variable {p q : Pacer} {now count : Nat}

/-! ## One call -/

def capped (p : Pacer) (now : Nat) : Bool :=
  decide (p.maxBurst < p.elapsed now)

theorem elapsed_le_of_not_capped (h : p.capped now = false) : p.elapsed now ≤ p.maxBurst := by
  simpa only [capped, decide_eq_false_iff_not, Nat.not_lt] using h

/-- A pacer with a period, whose burst limit is reached before it loses count. -/
structure Steady (p : Pacer) : Prop where
  period_pos : 0 < p.period
  maxBurst_lt : p.maxBurst < maxCount

/-- What a call at `now` that was answered with `count` leaves of a pacer. -/
structure Answered (p : Pacer) (now count : Nat) (q : Pacer) : Prop where
  period_eq : q.period = p.period
  maxBurst_eq : q.maxBurst = p.maxBurst
  count_le : count ≤ p.maxBurst
  -- every tick is paid for with a period
  paid : p.next + p.period * count ≤ q.next
  next_le : p.next ≤ now + p.period → q.next ≤ now + p.period
  -- nothing is forgotten below the burst limit
  exact : p.capped now = false → q.next = p.next + p.period * count ∧ now < q.next

/-- Once a tick is due, those that have elapsed are counted in periods. -/
theorem elapsed_of_le (h : p.next ≤ now) :
    p.elapsed now = min ((now - p.next) / p.period + 1) maxCount := by
  simp only [elapsed, Nat.not_lt.2 h, ↓reduceIte]

/-- The ticks that have fallen due do not reach further than a period ahead. -/
theorem next_skip_elapsed_le (h : p.next ≤ now) :
    p.next + p.period * p.elapsed now ≤ now + p.period := by
  have hwhole : p.period * ((now - p.next) / p.period) ≤ now - p.next := Nat.mul_div_le _ _
  have hticks : p.elapsed now ≤ (now - p.next) / p.period + 1 := by
    rw [elapsed_of_le h]
    exact Nat.min_le_left _ _
  calc p.next + p.period * p.elapsed now
      ≤ p.next + p.period * ((now - p.next) / p.period + 1) :=
        Nat.add_le_add_left (Nat.mul_le_mul_left _ hticks) _
    _ = p.next + p.period * ((now - p.next) / p.period) + p.period := by
        rw [Nat.mul_succ, Nat.add_assoc]
    _ ≤ now + p.period := by omega

/-- Unless the count is cut off, they reach past the clock. -/
theorem lt_next_skip_elapsed (hpos : 0 < p.period) (h : p.next ≤ now)
    (hcount : p.elapsed now < maxCount) : now < p.next + p.period * p.elapsed now := by
  have hticks : p.elapsed now = (now - p.next) / p.period + 1 := by
    rw [elapsed_of_le h] at hcount ⊢
    omega
  have hrest : now - p.next < p.period * ((now - p.next) / p.period + 1) :=
    Nat.lt_mul_div_succ _ hpos
  rw [hticks]
  omega

/-- Every answer of a steady pacer keeps the account of one call. -/
theorem answered_of_due (hp : p.Steady) (h : p.due now = .ok (count, q)) :
    Answered p now count q := by
  unfold due at h
  split at h
  · -- the next tick is still to come
    rename_i hbefore
    cases h
    exact ⟨rfl, rfl, Nat.zero_le _, Nat.le_refl _, id, fun _ => ⟨rfl, hbefore⟩⟩
  · rename_i hreached
    have hle : p.next ≤ now := Nat.not_lt.1 hreached
    split at h
    · cases h
    · cases h
      refine ⟨rfl, rfl, Nat.min_le_right _ _, ?_, fun _ => next_skip_elapsed_le hle, ?_⟩
      · exact Nat.add_le_add_left (Nat.mul_le_mul_left _ (Nat.min_le_left _ _)) _
      · intro huncapped
        have hburst : p.elapsed now ≤ p.maxBurst := elapsed_le_of_not_capped huncapped
        rw [Nat.min_eq_left hburst]
        have hcount : p.elapsed now < maxCount := Nat.lt_of_le_of_lt hburst hp.maxBurst_lt
        exact ⟨rfl, lt_next_skip_elapsed hp.period_pos hle hcount⟩

/-- A steady pacer always answers. -/
theorem Steady.exists_due (hp : p.Steady) (now : Nat) : ∃ count q, p.due now = .ok (count, q) := by
  have hperiod : p.period ≠ 0 := Nat.ne_of_gt hp.period_pos
  by_cases hbefore : now < p.next
  · exact ⟨0, p, if_pos hbefore⟩
  · refine ⟨min (p.elapsed now) p.maxBurst, p.skip (p.elapsed now), ?_⟩
    simp only [due, hbefore, hperiod, ↓reduceIte]

theorem Steady.of_answered (hp : p.Steady) (h : Answered p now count q) : q.Steady where
  period_pos := by rw [h.period_eq]; exact hp.period_pos
  maxBurst_lt := by rw [h.maxBurst_eq]; exact hp.maxBurst_lt

/-- A rate up to one tick per nanosecond has a steady pacer. -/
theorem ofRate_steady {rate : Nat} (hrate : rate ≤ 1000000000) (start : Nat) :
    (ofRate rate start).Steady where
  period_pos := by
    have hle : max rate 1 ≤ 1000000000 := Nat.max_le.2 ⟨hrate, by decide⟩
    exact Nat.div_pos hle (Nat.lt_of_lt_of_le Nat.one_pos (Nat.le_max_right _ _))
  maxBurst_lt := by
    simp only [ofRate, maxCount]
    omega

/-! ## Sequences of calls -/

inductive Call where
  | due (now : Nat)
  | restart (now : Nat)
  deriving DecidableEq, Repr

def Call.time : Call → Nat
  | due now | restart now => now

structure Poll where
  now : Nat
  count : Nat
  capped : Bool
  deriving DecidableEq, Repr

inductive Answer where
  | counted (poll : Poll)
  | restarted (now : Nat)
  deriving DecidableEq, Repr

namespace Answer

def call : Answer → Call
  | counted poll => .due poll.now
  | restarted now => .restart now

def ticks : Answer → Nat
  | counted poll => poll.count
  | restarted _ => 0

def isRestart : Answer → Bool
  | counted _ => false
  | restarted _ => true

end Answer

def ask (p : Pacer) : Call → Except Breach (Answer × Pacer)
  | .due now =>
      match p.due now with
      | .error b => .error b
      | .ok (count, q) => .ok (.counted ⟨now, count, p.capped now⟩, q)
  | .restart now => .ok (.restarted now, p.restart now)

/-- The answers to a sequence of calls, and the pacer after them. -/
def askAll (p : Pacer) : List Call → Except Breach (List Answer × Pacer)
  | [] => .ok ([], p)
  | call :: rest =>
      match p.ask call with
      | .error b => .error b
      | .ok (answer, q) =>
          match q.askAll rest with
          | .error b => .error b
          | .ok (answers, last) => .ok (answer :: answers, last)

def total : List Answer → Nat
  | [] => 0
  | answer :: rest => answer.ticks + total rest

def lastTime (start : Nat) (answers : List Answer) : Nat :=
  (answers.map (Call.time ∘ Answer.call)).getLastD start

@[simp]
theorem total_nil : total [] = 0 := rfl

@[simp]
theorem total_cons (answer : Answer) (rest : List Answer) :
    total (answer :: rest) = answer.ticks + total rest := rfl

@[simp]
theorem lastTime_nil (start : Nat) : lastTime start [] = start := rfl

@[simp]
theorem lastTime_cons (start : Nat) (answer : Answer) (answers : List Answer) :
    lastTime start (answer :: answers) = lastTime answer.call.time answers :=
  List.getLastD_cons ..

/-! ## Segments -/

/-- The counts from one restart to the next, or from the beginning to the first. -/
structure Segment where
  origin : Nat
  polls : List Poll
  deriving DecidableEq, Repr

namespace Segment

def total (s : Segment) : Nat :=
  s.polls.foldr (fun poll rest => poll.count + rest) 0

def last? (s : Segment) : Option Nat :=
  s.polls.getLast?.map Poll.now

def add (poll : Poll) (s : Segment) : Segment :=
  { s with polls := poll :: s.polls }

-- no count was cut off
def Uncapped (s : Segment) : Prop :=
  ∀ poll ∈ s.polls, poll.capped = false

@[simp]
theorem origin_add (poll : Poll) (s : Segment) : (s.add poll).origin = s.origin := rfl

@[simp]
theorem total_add (poll : Poll) (s : Segment) : (s.add poll).total = poll.count + s.total := rfl

@[simp]
theorem uncapped_add (poll : Poll) (s : Segment) :
    (s.add poll).Uncapped ↔ poll.capped = false ∧ s.Uncapped := by
  simp [Uncapped, add]

end Segment

/-- The segments of a sequence whose first one begins at `origin`. -/
def segments (origin : Nat) : List Answer → List Segment
  | [] => [⟨origin, []⟩]
  | .counted poll :: rest => (segments origin rest).modifyHead (.add poll)
  | .restarted now :: rest => ⟨origin, []⟩ :: segments now rest

/-- The account of a segment before which the next tick was due at `next`. -/
structure Segment.Accounted (period next : Nat) (s : Segment) (t : Nat) : Prop where
  origin_le : s.origin ≤ t
  le : period * s.total + next ≤ t + period
  lt : s.Uncapped → t < period * s.total + next

/-- A count before a segment goes to its account. -/
theorem Segment.accounted_add {s : Segment} {t : Nat} (ha : Answered p now count q)
    (horigin : s.origin ≤ now) (hnext : q.next ≤ now + p.period)
    (hs : ∀ t, s.last? = some t → s.Accounted q.period q.next t)
    (hlast : (s.add ⟨now, count, p.capped now⟩).last? = some t) :
    (s.add ⟨now, count, p.capped now⟩).Accounted p.period p.next t := by
  have hpaid := ha.paid
  have hmul : p.period * (count + s.total) = p.period * count + p.period * s.total :=
    Nat.mul_add _ _ _
  cases hpolls : s.polls with
  | nil =>
      -- the count is the only one, so the account is that of the call
      have hzero : s.total = 0 := by simp only [Segment.total, hpolls, List.foldr_nil]
      have ht : t = now := by
        simpa [Segment.add, Segment.last?, hpolls] using hlast.symm
      subst ht
      refine ⟨horigin, ?_, ?_⟩
      · simp only [Segment.total_add, hzero, Nat.add_zero]
        omega
      · intro hun
        have hexact := ha.exact ((Segment.uncapped_add _ s).1 hun).1
        simp only [Segment.total_add, hzero, Nat.add_zero]
        omega
  | cons poll rest =>
      have hsome : s.last? = some t := by
        rw [← hlast, Segment.add, Segment.last?, Segment.last?, hpolls]
        rfl
      have haccount := hs t hsome
      have hle := haccount.le
      have hlt := haccount.lt
      rw [ha.period_eq] at hle hlt
      refine ⟨haccount.origin_le, ?_, ?_⟩
      · simp only [Segment.total_add]
        omega
      · intro hun
        rcases (Segment.uncapped_add _ s).1 hun with ⟨hfirst, hrest⟩
        have hexact := ha.exact hfirst
        have hlater := hlt hrest
        simp only [Segment.total_add]
        omega

/-- The account of all answers to a pacer, from `now` on. -/
structure Ledger (p : Pacer) (origin now : Nat) (answers : List Answer) : Prop where
  segments_eq : ∃ head tail, segments origin answers = head :: tail ∧ head.origin = origin ∧
    (∀ t, head.last? = some t → head.Accounted p.period p.next t) ∧
    ∀ s ∈ tail, ∀ t, s.last? = some t → s.Accounted p.period s.origin t
  count_le : ∀ answer ∈ answers, answer.ticks ≤ p.maxBurst
  total_le : p.period * total answers + p.next ≤
    lastTime now answers + p.period + p.period * answers.countP Answer.isRestart

namespace Ledger

variable {origin : Nat} {answers : List Answer}

/-- Without answers there is nothing to account for. -/
theorem nil (h : p.next ≤ now + p.period) : Ledger p origin now [] where
  segments_eq := by
    refine ⟨⟨origin, []⟩, [], rfl, rfl, ?_, ?_⟩
    · intro t ht
      cases ht
    · intro s hs
      cases hs
  count_le := by
    intro answer hanswer
    cases hanswer
  total_le := by simpa using h

/-- A count goes to the segment after it. -/
theorem counted (ha : Answered p now count q) (horigin : origin ≤ now)
    (hnext : q.next ≤ now + p.period) (h : Ledger q origin now answers) {earlier : Nat} :
    Ledger p origin earlier (.counted ⟨now, count, p.capped now⟩ :: answers) where
  segments_eq := by
    rcases h.segments_eq with ⟨head, tail, hsegments, hhead, hfirst, hrest⟩
    refine ⟨head.add ⟨now, count, p.capped now⟩, tail, ?_, hhead, ?_, ?_⟩
    · rw [segments, hsegments]
      rfl
    · intro t ht
      exact Segment.accounted_add ha (hhead ▸ horigin) hnext hfirst ht
    · intro s hs t ht
      rw [← ha.period_eq]
      exact hrest s hs t ht
  count_le := by
    intro answer hanswer
    rcases List.mem_cons.1 hanswer with rfl | hrest
    · exact ha.count_le
    · rw [← ha.maxBurst_eq]
      exact h.count_le answer hrest
  total_le := by
    have hpaid := ha.paid
    have htotal := h.total_le
    rw [ha.period_eq] at htotal
    have hmul : p.period * (count + total answers) =
        p.period * count + p.period * total answers := Nat.mul_add _ _ _
    simp only [total_cons, lastTime_cons, List.countP_cons]
    show p.period * (count + total answers) + p.next ≤
      lastTime now answers + p.period + p.period * answers.countP Answer.isRestart
    omega

/-- A restart begins another segment. -/
theorem restarted {earlier : Nat} (hnext : p.next ≤ now + p.period)
    (h : Ledger (p.restart now) now now answers) :
    Ledger p origin earlier (.restarted now :: answers) where
  segments_eq := by
    rcases h.segments_eq with ⟨head, tail, hsegments, hhead, hfirst, hrest⟩
    refine ⟨⟨origin, []⟩, head :: tail, ?_, rfl, ?_, ?_⟩
    · rw [segments, hsegments]
    · intro t ht
      cases ht
    · intro s hs t ht
      rcases List.mem_cons.1 hs with rfl | hs
      · -- the next tick of a segment that begins with a restart is due at its origin
        have hfirst' := hfirst t ht
        rw [hhead]
        exact hfirst'
      · exact hrest s hs t ht
  count_le := by
    intro answer hanswer
    rcases List.mem_cons.1 hanswer with rfl | hrest
    · exact Nat.zero_le _
    · exact h.count_le answer hrest
  total_le := by
    have htotal : p.period * total answers + now ≤
        lastTime now answers + p.period + p.period * answers.countP Answer.isRestart := by
      simpa using h.total_le
    have hrestarts : (Answer.restarted now :: answers).countP Answer.isRestart =
        answers.countP Answer.isRestart + 1 := List.countP_cons_of_pos rfl
    simp only [total_cons, lastTime_cons, hrestarts, Answer.ticks, Answer.call, Call.time,
      Nat.zero_add, Nat.mul_succ]
    omega

end Ledger

/-- A steady pacer answers all calls, and its account is kept. -/
theorem Steady.askAll {p : Pacer} (hp : p.Steady) {origin now : Nat} {calls : List Call}
    (horigin : origin ≤ now) (hnext : p.next ≤ now + p.period)
    (htimes : (now :: calls.map Call.time).Pairwise (· ≤ ·)) :
    ∃ answers last, p.askAll calls = .ok (answers, last) ∧ answers.map Answer.call = calls ∧
      Ledger p origin now answers := by
  induction calls generalizing p origin now with
  | nil => exact ⟨[], p, rfl, rfl, .nil hnext⟩
  | cons call rest ih =>
      rcases List.pairwise_cons.1 htimes with ⟨hnow, hlater⟩
      have hcall : now ≤ call.time := hnow _ (.head _)
      cases call with
      | due t =>
          rcases hp.exists_due t with ⟨count, q, hdue⟩
          have ha := answered_of_due hp hdue
          have hle : p.next ≤ t + p.period := Nat.le_trans hnext (Nat.add_le_add_right hcall _)
          have hafter : q.next ≤ t + p.period := ha.next_le hle
          have hahead : q.next ≤ t + q.period := by
            rw [ha.period_eq]
            exact hafter
          rcases ih (hp.of_answered ha) (Nat.le_trans horigin hcall) hahead hlater with
            ⟨answers, last, hall, hcalls, hledger⟩
          refine ⟨.counted ⟨t, count, p.capped t⟩ :: answers, last, ?_,
            congrArg (Call.due t :: ·) hcalls,
            hledger.counted ha (Nat.le_trans horigin hcall) hafter⟩
          simp only [Pacer.askAll, ask, hdue, hall]
      | restart t =>
          have hle : p.next ≤ t + p.period := Nat.le_trans hnext (Nat.add_le_add_right hcall _)
          have hsteady : (p.restart t).Steady := ⟨hp.period_pos, hp.maxBurst_lt⟩
          rcases ih hsteady (Nat.le_refl t) (Nat.le_add_right _ _) hlater with
            ⟨answers, last, hall, hcalls, hledger⟩
          refine ⟨.restarted t :: answers, last, ?_, congrArg (Call.restart t :: ·) hcalls,
            hledger.restarted hle⟩
          simp only [Pacer.askAll, ask, hall]

/-! ## From time to ticks -/

/-- As many periods as fit into a time, and one more. -/
theorem le_div_add_one {period n origin t : Nat} (hpos : 0 < period)
    (h : period * n + origin ≤ t + period) : n ≤ (t - origin) / period + 1 := by
  cases n with
  | zero => exact Nat.zero_le _
  | succ n =>
      rw [Nat.mul_succ] at h
      have hn : n * period ≤ t - origin := by
        rw [Nat.mul_comm]
        omega
      exact Nat.succ_le_succ ((Nat.le_div_iff_mul_le hpos).2 hn)

theorem div_add_one_le {period n origin t : Nat} (horigin : origin ≤ t)
    (h : t < period * n + origin) : (t - origin) / period + 1 ≤ n := by
  have hlt : t - origin < period * n := by omega
  exact Nat.div_lt_of_lt_mul hlt

/-- The ticks of a segment never outnumber the periods since its origin. -/
theorem Segment.Accounted.total_le {period t : Nat} {s : Segment} (hpos : 0 < period)
    (h : s.Accounted period s.origin t) : s.total ≤ (t - s.origin) / period + 1 :=
  le_div_add_one hpos h.le

theorem Segment.Accounted.total_eq {period t : Nat} {s : Segment} (hpos : 0 < period)
    (h : s.Accounted period s.origin t) (hun : s.Uncapped) :
    s.total = (t - s.origin) / period + 1 :=
  Nat.le_antisymm (h.total_le hpos) (div_add_one_le h.origin_le (h.lt hun))

/-- A pacer of a rate up to one tick per nanosecond answers every sequence of calls in order of
time. In each segment the ticks are at most the periods up to its last count and one more, and
exactly as many if no count was cut off. No call gives away more than a quarter second of ticks, or
one, and each restart adds one tick at most. -/
theorem askAll_accounts {rate start : Nat} {calls : List Call} (hpos : 0 < rate)
    (hrate : rate ≤ 1000000000) (htimes : (start :: calls.map Call.time).Pairwise (· ≤ ·)) :
    let period := 1000000000 / rate
    ∃ answers last, (ofRate rate start).askAll calls = .ok (answers, last) ∧
      answers.map Answer.call = calls ∧
      (∀ s ∈ segments start answers, ∀ t, s.last? = some t →
        s.total ≤ (t - s.origin) / period + 1 ∧
          (s.Uncapped → s.total = (t - s.origin) / period + 1)) ∧
      (∀ answer ∈ answers, answer.ticks ≤ max (rate / 4) 1) ∧
      total answers ≤
        (lastTime start answers - start) / period + 1 + answers.countP Answer.isRestart := by
  intro period
  have hsteady := ofRate_steady hrate start
  have hmax : max rate 1 = rate := Nat.max_eq_left hpos
  have hperiod : (ofRate rate start).period = period := by
    simp only [ofRate, hmax, period]
  have hburst : (ofRate rate start).maxBurst = max (rate / 4) 1 := by
    simp only [ofRate, hmax]
  have hperiodPos : 0 < period := hperiod ▸ hsteady.period_pos
  rcases hsteady.askAll (Nat.le_refl start) (Nat.le_add_right start _) htimes with
    ⟨answers, last, hall, hcalls, hledger⟩
  refine ⟨answers, last, hall, hcalls, ?_, ?_, ?_⟩
  · rcases hledger.segments_eq with ⟨head, tail, hsegments, hhead, hfirst, hrest⟩
    have haccounted : ∀ s ∈ segments start answers, ∀ t, s.last? = some t →
        s.Accounted period s.origin t := by
      intro s hs t ht
      rw [hsegments] at hs
      rw [← hperiod]
      rcases List.mem_cons.1 hs with rfl | hs
      · rw [hhead]
        exact hfirst t ht
      · exact hrest s hs t ht
    intro s hs t ht
    have h := haccounted s hs t ht
    exact ⟨h.total_le hperiodPos, h.total_eq hperiodPos⟩
  · intro answer hanswer
    rw [← hburst]
    exact hledger.count_le answer hanswer
  · have htotal := hledger.total_le
    rw [hperiod, next_ofRate] at htotal
    rcases Nat.le_total (total answers) (answers.countP Answer.isRestart) with hfew | hmany
    · exact Nat.le_trans hfew (Nat.le_add_left _ _)
    · -- what is beyond one tick for each restart is paid for with the time that has passed
      have hmul := Nat.mul_le_mul_left period hmany
      have hbeyond : period * (total answers - answers.countP Answer.isRestart) + start ≤
          lastTime start answers + period := by
        rw [Nat.mul_sub]
        omega
      have hticks := le_div_add_one hperiodPos hbeyond
      omega

/-- Sixty ticks a second: a stall of ten seconds is cut off, and the segment after the restart gives
away four ticks in a twentieth of a second, in two calls. -/
theorem askAll_accounts_stall :
    let calls : List Call := [.due 0, .due 10000000000, .restart 11000000000, .due 11020000000,
      .due 11050000000]
    let late : Segment := ⟨11000000000, [⟨11020000000, 2, false⟩, ⟨11050000000, 2, false⟩]⟩
    (0 < 60 ∧ 60 ≤ 1000000000 ∧ (0 :: calls.map Call.time).Pairwise (· ≤ ·)) ∧
      ∃ answers last, (ofRate 60 0).askAll calls = .ok (answers, last) ∧
        answers.map Answer.ticks = [1, 15, 0, 2, 2] ∧ late ∈ segments 0 answers ∧
        late.total = (11050000000 - 11000000000) / (1000000000 / 60) + 1 := by
  intro calls late
  have hpos : 0 < 60 := by decide
  have hrate : 60 ≤ 1000000000 := by decide
  have htimes : (0 :: calls.map Call.time).Pairwise (· ≤ ·) := by decide
  rcases askAll_accounts hpos hrate htimes with ⟨answers, last, hall, -, hsegments, -⟩
  have hrun : (ofRate 60 0).askAll calls = .ok ([.counted ⟨0, 1, false⟩,
      .counted ⟨10000000000, 15, true⟩, .restarted 11000000000, .counted ⟨11020000000, 2, false⟩,
      .counted ⟨11050000000, 2, false⟩], ⟨16666666, 11066666664, 15⟩) := by rfl
  rw [hrun] at hall
  cases hall
  have hlate : late ∈ segments 0 [.counted ⟨0, 1, false⟩, .counted ⟨10000000000, 15, true⟩,
      .restarted 11000000000, .counted ⟨11020000000, 2, false⟩,
      .counted ⟨11050000000, 2, false⟩] := .tail _ (.head _)
  have hun : late.Uncapped := by
    unfold Segment.Uncapped
    decide
  exact ⟨⟨hpos, hrate, htimes⟩, _, _, hrun, rfl, hlate,
    (hsegments late hlate _ rfl).2 hun⟩

end Pacer
end Chip8
