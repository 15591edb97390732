import Chip8.Proofs.Engine.Operations
import Chip8.Proofs.Engine.Reports
import Chip8.Proofs.Pacer.Accounting

/-!
# Commands — in what order they are obeyed, and what a start allows

A command waits in the queue until a turn takes it off, and no turn does anything else as long as
one waits.  So the commands handled so far, with the queue after them, are the commands sent so far:
`Obeyed` says this of one happening and of a whole run, and also that the engine runs exactly if the
last start or pause among the handled commands is a start.

While the engine does not run, nothing but a load or a write of the keypad changes its interpreter.
And when it is started its pacers forget what has fallen due, so that the steps and ticks from there
on are paid for with time that has passed since, which is the invariant `Spent`.

Main statement: `runAll_commands`.
-/

namespace Chip8

/-! ## Pacers since a start -/

namespace Pacer

variable {p q : Pacer} {origin now t n count : Nat}

/-- Two pacers of one rate. -/
structure Alike (p q : Pacer) : Prop where
  period_eq : q.period = p.period
  maxBurst_eq : q.maxBurst = p.maxBurst

theorem Moved.alike (h : Moved p now q) : Alike p q := by
  cases h with
  | kept | restarted | skipped => exact ⟨rfl, rfl⟩

theorem Alike.trans {r : Pacer} (h : Alike p q) (hmore : Alike q r) : Alike p r :=
  ⟨hmore.period_eq.trans h.period_eq, hmore.maxBurst_eq.trans h.maxBurst_eq⟩

theorem Steady.of_alike (hp : p.Steady) (h : Alike p q) : q.Steady where
  period_pos := by rw [h.period_eq]; exact hp.period_pos
  maxBurst_lt := by rw [h.maxBurst_eq]; exact hp.maxBurst_lt

/-- Since `origin` the pacer was asked for `n` ticks, and each of them has moved it by a period; at
`now` it is a period ahead at most. -/
structure Spent (origin now n : Nat) (p : Pacer) : Prop where
  steady : p.Steady
  paid : p.period * n + origin ≤ p.next
  next_le : p.next ≤ now + p.period

/-- A pacer that starts again owes nothing. -/
theorem spent_restart (hp : p.Steady) (now : Nat) : (p.restart now).Spent now now 0 :=
  ⟨⟨hp.period_pos, hp.maxBurst_lt⟩, Nat.le_of_eq (Nat.zero_add now), Nat.le_add_right now _⟩

/-- Fewer ticks are paid for as well, and time goes on. -/
theorem Spent.weaken {fewer later : Nat} (h : p.Spent origin now n) (hfewer : fewer ≤ n)
    (hlater : now ≤ later) : p.Spent origin later fewer where
  steady := h.steady
  paid := Nat.le_trans (Nat.add_le_add_right (Nat.mul_le_mul_left _ hfewer) _) h.paid
  next_le := Nat.le_trans h.next_le (Nat.add_le_add_right hlater _)

theorem Spent.of_due (h : p.Spent origin now n) (hnow : now ≤ t)
    (hdue : p.due t = .ok (count, q)) : q.Spent origin t (n + count) where
  steady := h.steady.of_answered (answered_of_due h.steady hdue)
  paid := by
    have ha := answered_of_due h.steady hdue
    rw [ha.period_eq]
    calc p.period * (n + count) + origin = p.period * n + origin + p.period * count := by
          rw [Nat.mul_add, Nat.add_right_comm]
      _ ≤ p.next + p.period * count := Nat.add_le_add_right h.paid _
      _ ≤ q.next := ha.paid
  next_le := by
    have ha := answered_of_due h.steady hdue
    rw [ha.period_eq]
    exact ha.next_le (Nat.le_trans h.next_le (Nat.add_le_add_right hnow _))

/-- What was paid for is as many ticks as periods have passed, and one more. -/
theorem Spent.le (h : p.Spent origin now n) : n ≤ (now - origin) / p.period + 1 :=
  le_div_add_one h.steady.period_pos (Nat.le_trans h.paid h.next_le)

end Pacer

namespace Engine

/-! ## Commands of a run -/

def Entry.command? : Entry → Option Command
  | .handled c => some c
  | _ => none

/-- The commands that clients send, in order. -/
def sent (moments : List Moment) : List Command :=
  commands (callsOf moments)

/-- The commands that were handled, in order. -/
def handled (entries : List Entry) : List Command :=
  entries.filterMap Entry.command?

def Command.program? : Command → Option (List UInt8)
  | load program => some program
  | start | pause | shutdown => none

/-- Whether the engine runs after a command. -/
def Command.switch (running : Bool) : Command → Bool
  | start => true
  | pause => false
  | load _ | shutdown => running

/-- The last start or pause among the commands is a start. -/
def startedLast (commands : List Command) : Bool :=
  commands.foldl Command.switch false

@[simp]
theorem sent_append (moments more : List Moment) :
    sent (moments ++ more) = sent moments ++ sent more := by
  simp [sent]

@[simp]
theorem handled_append (entries more : List Entry) :
    handled (entries ++ more) = handled entries ++ handled more :=
  List.filterMap_append

theorem handled_eq_nil_iff {entries : List Entry} :
    handled entries = [] ↔ ∀ entry ∈ entries, entry.command? = none :=
  List.filterMap_eq_nil_iff

@[simp]
theorem handled_runAll_cons (e : Engine) (h : Happening) (rest : List Happening) :
    handled (e.runAll (h :: rest)).2 =
      handled (e.after h).2 ++ handled ((e.after h).1.runAll rest).2 :=
  handled_append _ _

/-! ## Entries of a turn -/

/-- Steps handle no command. -/
@[simp]
theorem handled_steps (arrivals : Nat → List Call) (count : Nat) (s : Interpreter) :
    handled (Stint.steps arrivals count s).entries = [] := by
  rcases Stint.steps_entries arrivals count s with ⟨performed, hentries⟩
  rw [hentries, handled_append, List.append_eq_nil_iff]
  refine ⟨?_, ?_⟩
  · rw [handled_eq_nil_iff]
    intro entry hentry
    rcases List.mem_map.1 hentry with ⟨i?, -, rfl⟩
    rfl
  · unfold alarm
    split <;> rfl

@[simp]
theorem handled_ticks (count : Nat) (s : Interpreter) :
    handled (Stint.ticks count s).entries = [] := by
  rcases Stint.ticks_entries count s with ⟨-, beeps, hentries⟩
  rw [hentries, handled_eq_nil_iff]
  intro entry hentry
  rcases List.mem_map.1 hentry with ⟨beeped, -, rfl⟩
  rfl

@[simp]
theorem handled_flush (s : Interpreter) : handled (Stint.flush s).entries = [] := by
  unfold Stint.flush
  cases s.frame? with
  | none => cases s.beepPending <;> rfl
  | some frame => cases s.beepPending <;> rfl

@[simp]
theorem handled_obey (w : Worker) (now : Nat) (c : Command) :
    handled (w.obey now c).entries = [] := by
  cases c with
  | start | pause | shutdown => rfl
  | load program =>
      show handled (Stint.load program w.interpreter).entries = []
      have hout := Stint.load_outcome program w.interpreter
      generalize Stint.load program w.interpreter = a at hout ⊢
      cases hout with
      | refused => rfl
      | loaded => exact handled_flush _

/-- Nor does a batch. -/
@[simp]
theorem handled_batch (w : Worker) (now : Nat) (arrivals : Nat → List Call) :
    handled (w.batch now arrivals).entries = [] := by
  have hout := w.batch_outcome now arrivals
  generalize w.batch now arrivals = p at hout ⊢
  cases hout with
  | uncounted => rfl
  | cut _ hsteps | unticked _ hsteps => simp [← hsteps]
  | finished _ hsteps _ _ hticks =>
      simp [← hticks, ← hsteps]

/-- The last words of a worker handle nothing. -/
@[simp]
theorem handled_record (e : Engine) (p : Progress) :
    handled (e.record p).2 = handled p.entries := by
  show handled (p.entries ++ (p.ending?.map farewell).getD []) = _
  have hfarewell : handled ((p.ending?.map farewell).getD []) = [] := by
    cases p.ending? with
    | none => rfl
    | some ending => cases ending <;> rfl
  simp [hfarewell]

/-- A turn that handles a command handles that one. -/
@[simp]
theorem handled_handle (w : Worker) (now : Nat) (c : Command) :
    handled (w.handle now c).entries = [c] :=
  congrArg (c :: ·) (handled_obey w now c)

/-- A start and a pause decide whether the worker runs. -/
@[simp]
theorem running_handle (w : Worker) (now : Nat) (c : Command) :
    (w.handle now c).worker.running = c.switch w.running := by
  cases c with
  | load | start | pause | shutdown => rfl

@[simp]
theorem running_batch (w : Worker) (now : Nat) (arrivals : Nat → List Call) :
    (w.batch now arrivals).worker.running = w.running := by
  have hout := w.batch_outcome now arrivals
  generalize w.batch now arrivals = p at hout ⊢
  cases hout with
  | uncounted | cut | unticked | finished => rfl

/-! ## In order, each once -/

/-- What was sent is handled from the front, and decides whether the engine runs. -/
structure Obeyed (e : Engine) (commands : List Command) (next : Engine × List Entry) : Prop where
  queue_eq : e.queue ++ commands = handled next.2 ++ next.1.queue
  running_eq : next.1.worker.running = (handled next.2).foldl Command.switch e.worker.running

theorem handled_turn {e : Engine} {c : Command} {rest : List Command} (hending : e.ending? = none)
    (hqueue : e.queue = c :: rest) (now : Nat) (arrivals : Nat → List Call) :
    handled (e.turn now arrivals).2 = [c] ∧ (e.turn now arrivals).1.queue = rest := by
  rw [turn_of_command hending hqueue]
  simp

theorem Obeyed.of_handled_nil {e : Engine} {next : Engine × List Entry}
    (hnil : handled next.2 = []) (hqueue : next.1.queue = e.queue)
    (hrunning : next.1.worker.running = e.worker.running) : Obeyed e [] next where
  queue_eq := by simp [hnil, hqueue]
  running_eq := by simp [hnil, hrunning]

/-- A turn handles the front of the queue, and adds to its end what was sent amid a batch. -/
theorem turn_obeyed (e : Engine) (now : Nat) (arrivals : Nat → List Call) :
    Obeyed e (sent (e.moments (.turn now arrivals))) (e.turn now arrivals) := by
  cases hending : e.ending? with
  | some ending =>
      simp only [moments, turn, hending]
      exact .of_handled_nil rfl rfl rfl
  | none =>
      cases hqueue : e.queue with
      | cons c rest =>
          simp only [moments, turn, hending, hqueue, sent, callsOf_map_did]
          refine ⟨?_, ?_⟩
          · simp [hqueue]
          · simp
      | nil =>
          -- without a command the worker stops, carries out a batch, or stands still
          cases hconnected : e.connected with
          | false =>
              simp only [moments, turn, hending, hqueue, hconnected]
              exact .of_handled_nil rfl rfl rfl
          | true =>
              cases hrunning : e.worker.running with
              | false =>
                  simp only [moments, turn, hending, hqueue, hconnected, hrunning]
                  exact .of_handled_nil rfl rfl rfl
              | true =>
                  have hdue : e.BatchDue := ⟨hending, hqueue, hconnected, hrunning⟩
                  rw [hdue.turn, hdue.moments]
                  -- what was sent amid the batch is found in the queue after it
                  refine ⟨?_, ?_⟩
                  · simp [sent]
                  · simp

theorem after_obeyed (e : Engine) (h : Happening) : Obeyed e (sent (e.moments h)) (e.after h) := by
  cases h with
  | call c =>
      cases c with
      | send c => exact ⟨rfl, rfl⟩
      | writeKeypad | disconnect => exact ⟨List.append_nil _, rfl⟩
  | turn now arrivals => exact e.turn_obeyed now arrivals

theorem runAll_obeyed (e : Engine) (happenings : List Happening) :
    Obeyed e (sent (e.allMoments happenings)) (e.runAll happenings) := by
  induction happenings generalizing e with
  | nil => exact ⟨List.append_nil _, rfl⟩
  | cons h rest ih =>
      have hfirst := after_obeyed e h
      have hrest := ih (e.after h).1
      rw [allMoments, sent_append]
      refine ⟨?_, ?_⟩
      · -- what the first happening leaves in the queue is before what is sent later
        calc
          e.queue ++ (sent (e.moments h) ++ sent ((e.after h).1.allMoments rest))
              = handled (e.after h).2 ++
                  ((e.after h).1.queue ++ sent ((e.after h).1.allMoments rest)) := by
                rw [← List.append_assoc, hfirst.queue_eq, List.append_assoc]
          _ = handled (e.runAll (h :: rest)).2 ++ (e.runAll (h :: rest)).1.queue := by
                rw [hrest.queue_eq, handled_runAll_cons, List.append_assoc]
                rfl
      · simp [hrest.running_eq, hfirst.running_eq]

/-- Whatever waits at the front of the queue is handled once the worker has taken a turn for each
command, unless it has ended before. -/
theorem runAll_handles (later : List Happening) {e : Engine} (front back : List Command)
    (hqueue : e.queue = front ++ back) (hturns : front.length ≤ turns later)
    (hending : (e.runAll later).1.ending? = none) : front <+: handled (e.runAll later).2 := by
  induction later generalizing e front back with
  | nil =>
      rw [List.eq_nil_of_length_eq_zero (Nat.le_zero.1 hturns)]
      exact List.nil_prefix
  | cons happening rest ih =>
      cases happening with
      | call call =>
          cases call with
          | send c =>
              -- the queue grows after what is waited for
              refine ih front (back ++ [c]) ?_ hturns hending
              show e.queue ++ [c] = _
              rw [hqueue, List.append_assoc]
          | writeKeypad | disconnect => exact ih front back hqueue hturns hending
      | turn now arrivals =>
          cases front with
          | nil => exact List.nil_prefix
          | cons c front =>
              -- an engine that is not gone in the end was not gone before
              have hgoing : e.ending? = none := by
                rcases Option.eq_none_or_eq_some e.ending? with hnone | ⟨ending, hsome⟩
                · exact hnone
                · rw [runAll_ending?_of_some hsome] at hending
                  cases hending
              rcases handled_turn hgoing hqueue now arrivals with ⟨hhandled, hrest⟩
              have hlater := ih front back hrest (Nat.le_of_succ_le_succ hturns) hending
              simpa [after, hhandled] using hlater

/-- A worker that is gone does nothing. -/
theorem runAll_entries_of_some {e : Engine} {ending : Ending} (h : e.ending? = some ending)
    (later : List Happening) : (e.runAll later).2 = [] := by
  induction later generalizing e with
  | nil => rfl
  | cons happening rest ih =>
      have hfirst : (e.after happening).2 = [] := by
        cases happening with
        | call c => rfl
        | turn now arrivals => simp only [after, turn, h]
      have hrest : ((e.after happening).1.runAll rest).2 = [] :=
        ih (after_ending?_of_some h happening)
      simp [hfirst, hrest]

/-- A shutdown ends the worker, so that it is the last command to be handled. -/
structure ShutLast (e : Engine) (commands : List Command) : Prop where
  ending?_eq : .shutdown ∈ commands → e.ending? = some .shutdown
  last : .shutdown ∉ commands.dropLast

/-- No command is handled after a shutdown. -/
theorem after_shutLast (e : Engine) (done : List Entry) (h : Happening)
    (hdone : ShutLast e (handled done)) :
    ShutLast (e.after h).1 (handled (done ++ (e.after h).2)) := by
  -- a happening that handles no command changes no ending that is there
  have hsame {next : Engine × List Entry} (hnil : handled next.2 = [])
      (hending : e.ending? = some .shutdown → next.1.ending? = some .shutdown) :
      ShutLast next.1 (handled (done ++ next.2)) := by
    rw [handled_append, hnil, List.append_nil]
    exact ⟨fun hmem => hending (hdone.ending?_eq hmem), hdone.last⟩
  have hout := after_outcome e h
  generalize e.after h = next at hout ⊢
  cases hout with
  | idle _ hending _ => exact hsame rfl fun h => hending.trans h
  | keys w => exact hsame rfl id
  | closed hnone => exact hsame rfl fun _ => rfl
  | batched now arrivals hnone _ _ =>
      refine hsame ?_ fun hsome => ?_
      · simp
      · rw [hnone] at hsome
        cases hsome
  | @handled c rest now hnone hqueue =>
      -- a worker that still handles commands has handled no shutdown
      have hbefore : .shutdown ∉ handled done := by
        intro hmem
        have hsome := hdone.ending?_eq hmem
        rw [hnone] at hsome
        cases hsome
      rw [handled_append, handled_record, handled_handle]
      refine ⟨?_, ?_⟩
      · intro hmem
        rcases List.mem_append.1 hmem with hold | hlast
        · exact absurd hold hbefore
        · cases List.mem_singleton.1 hlast
          rfl
      · rw [List.dropLast_concat]
        exact hbefore

theorem runAll_shutLast (c : Config) (g : Generator) (start : Nat) (happenings : List Happening) :
    ShutLast ((ofConfig c g start).runAll happenings).1
      (handled ((ofConfig c g start).runAll happenings).2) :=
  runAll_induction (I := fun e entries => ShutLast e (handled entries))
    ⟨fun h => absurd h List.not_mem_nil, List.not_mem_nil⟩ after_shutLast happenings

/-! ## Paused engines -/

/-- What may happen to the interpreter of a paused engine. -/
inductive Change where
  | keys (w : Keypad.Write)
  | load (program : List UInt8)
  deriving DecidableEq, Repr

namespace Change

def apply (s : Interpreter) : Change → Interpreter
  | keys w => s.writeKeypad w
  | load program => (Stint.load program s).interpreter

def write? : Change → Option Keypad.Write
  | keys w => some w
  | load _ => none

def program? : Change → Option (List UInt8)
  | keys _ => none
  | load program => some program

end Change

/-- The changes lead from one interpreter to another; they are the key writes of these calls and the
loads of these commands. -/
structure Changed (s t : Interpreter) (calls : List Call) (commands : List Command)
    (changes : List Change) : Prop where
  foldl_eq : changes.foldl Change.apply s = t
  writes_eq : changes.filterMap Change.write? = writes calls
  loads_eq : changes.filterMap Change.program? = commands.filterMap Command.program?

theorem Changed.append {s t u : Interpreter} {calls later : List Call}
    {commands more : List Command} {changes rest : List Change}
    (h : Changed s t calls commands changes) (hmore : Changed t u later more rest) :
    Changed s u (calls ++ later) (commands ++ more) (changes ++ rest) where
  foldl_eq := by simp [h.foldl_eq, hmore.foldl_eq]
  writes_eq := by simp [h.writes_eq, hmore.writes_eq]
  loads_eq := by simp [h.loads_eq, hmore.loads_eq]

/-- A paused worker that finds no command leaves everything alone. -/
theorem turn_of_paused {e : Engine} (hpaused : e.worker.running = false)
    (hqueue : e.ending? = none → e.queue = []) (now : Nat) (arrivals : Nat → List Call) :
    (e.turn now arrivals).1.worker = e.worker ∧ handled (e.turn now arrivals).2 = [] := by
  unfold turn
  split
  · exact ⟨rfl, rfl⟩
  · rename_i hnone hcons
    have hnil := hqueue hnone
    rw [hcons] at hnil
    cases hnil
  · split
    · exact ⟨rfl, rfl⟩
    · rw [hpaused]
      exact ⟨rfl, rfl⟩

/-- Of the commands only a load changes the interpreter. -/
theorem handle_changed (w : Worker) (now : Nat) (c : Command) :
    ∃ changes, Changed w.interpreter (w.handle now c).worker.interpreter [] [c] changes := by
  cases c with
  | load program => exact ⟨[.load program], rfl, rfl, rfl⟩
  | start | pause | shutdown => exact ⟨[], rfl, rfl, rfl⟩

/-- No batch is carried out, so no call comes amid one. -/
theorem callsOf_moments_of_paused {e : Engine} (hpaused : e.worker.running = false) (now : Nat)
    (arrivals : Nat → List Call) : callsOf (e.moments (.turn now arrivals)) = [] := by
  simp only [moments, hpaused, Bool.and_false]
  split
  · rfl
  · exact callsOf_map_did _
  · rfl

/-- One happening changes a paused engine by key writes and loads only. -/
theorem after_changed {e : Engine} (hpaused : e.worker.running = false) (h : Happening) :
    ∃ changes, Changed e.worker.interpreter (e.after h).1.worker.interpreter
      (callsOf (e.moments h)) (handled (e.after h).2) changes := by
  cases h with
  | call c =>
      cases c with
      | send | disconnect => exact ⟨[], rfl, rfl, rfl⟩
      | writeKeypad w => exact ⟨[.keys w], rfl, rfl, rfl⟩
  | turn now arrivals =>
      rw [callsOf_moments_of_paused hpaused]
      -- the turn is spent on a command, or on nothing
      by_cases hwaits : ∃ c rest, e.ending? = none ∧ e.queue = c :: rest
      · rcases hwaits with ⟨c, rest, hnone, hqueue⟩
        rw [after, (handled_turn hnone hqueue now arrivals).1, turn_of_command hnone hqueue]
        exact handle_changed e.worker now c
      · have hqueue (hnone : e.ending? = none) : e.queue = [] := by
          cases hq : e.queue with
          | nil => rfl
          | cons c rest => exact absurd ⟨c, rest, hnone, hq⟩ hwaits
        rcases turn_of_paused hpaused hqueue now arrivals with ⟨hworker, hnil⟩
        rw [after, hworker, hnil]
        exact ⟨[], rfl, rfl, rfl⟩

/-- Without a start nothing is started. -/
theorem foldl_switch_of_no_start {commands : List Command} (h : .start ∉ commands) :
    commands.foldl Command.switch false = false := by
  induction commands with
  | nil => rfl
  | cons c rest ih =>
      have hrest := ih fun hmem => h (.tail _ hmem)
      cases c with
      | start => exact absurd (.head _) h
      | load | pause | shutdown => exact hrest

theorem runAll_changed {e : Engine} (hpaused : e.worker.running = false) (later : List Happening)
    (hstart : .start ∉ handled (e.runAll later).2) :
    ∃ changes, Changed e.worker.interpreter (e.runAll later).1.worker.interpreter
      (callsOf (e.allMoments later)) (handled (e.runAll later).2) changes := by
  induction later generalizing e with
  | nil => exact ⟨[], rfl, rfl, rfl⟩
  | cons h rest ih =>
      rw [handled_runAll_cons, List.mem_append, not_or] at hstart
      -- without a start the engine is still paused after the first happening
      have hstill : (e.after h).1.worker.running = false := by
        rw [(after_obeyed e h).running_eq, hpaused]
        exact foldl_switch_of_no_start hstart.1
      rcases after_changed hpaused h with ⟨changes, hfirst⟩
      rcases ih hstill hstart.2 with ⟨more, hmore⟩
      rw [handled_runAll_cons, allMoments, callsOf_append]
      exact ⟨changes ++ more, hfirst.append hmore⟩

/-! ## Started engines -/

/-- Both pacers keep their rates. -/
theorem runAll_alike (e : Engine) (happenings : List Happening) :
    e.worker.steps.Alike (e.runAll happenings).1.worker.steps ∧
      e.worker.timers.Alike (e.runAll happenings).1.worker.timers := by
  induction happenings generalizing e with
  | nil => exact ⟨⟨rfl, rfl⟩, ⟨rfl, rfl⟩⟩
  | cons h rest ih =>
      have hfirst : e.worker.steps.Alike (e.after h).1.worker.steps ∧
          e.worker.timers.Alike (e.after h).1.worker.timers := by
        cases h with
        | call c =>
            cases c with
            | send | writeKeypad | disconnect => exact ⟨⟨rfl, rfl⟩, ⟨rfl, rfl⟩⟩
        | turn now arrivals =>
            have hmoved := e.turn_moved now arrivals
            exact ⟨hmoved.1.alike, hmoved.2.alike⟩
      have hrest := ih (e.after h).1
      exact ⟨hfirst.1.trans hrest.1, hfirst.2.trans hrest.2⟩

/-- The operations since `origin` contain no more steps and ticks than were paid for. -/
structure Spent (origin now : Nat) (ops : List Operation) (w : Worker) : Prop where
  steps : w.steps.Spent origin now (ops.count .step)
  timers : w.timers.Spent origin now (ops.count .tick)

variable {origin now t : Nat} {ops more : List Operation} {w : Worker} {e : Engine}

theorem Spent.weaken (h : Spent origin now ops w) (hnow : now ≤ t) : Spent origin t ops w :=
  ⟨h.steps.weaken (Nat.le_refl _) hnow, h.timers.weaken (Nat.le_refl _) hnow⟩

/-- Operations among which there are no steps and no ticks cost nothing. -/
theorem Spent.of_not_mem (h : Spent origin now ops w)
    (hmore : .step ∉ more ∧ .tick ∉ more) : Spent origin now (ops ++ more) w where
  steps := by simpa [List.count_eq_zero.2 hmore.1] using h.steps
  timers := by simpa [List.count_eq_zero.2 hmore.2] using h.timers

/-- Handling a command costs nothing, unless it is a start. -/
theorem Spent.of_handle {c : Command} (h : Spent origin now ops w) (hc : c ≠ .start) (t : Nat) :
    Spent origin now (ops ++ w.handleOperations c) (w.handle t c).worker := by
  have hmore := h.of_not_mem (w.not_mem_handleOperations c)
  cases c with
  | start => exact absurd rfl hc
  | load | pause | shutdown => exact ⟨hmore.steps, hmore.timers⟩

/-- A batch asks for as many steps and ticks as its pacers count. -/
theorem Spent.of_batch (h : Spent origin now ops w) (hnow : now ≤ t)
    (arrivals : Nat → List Call) :
    Spent origin t (ops ++ w.batchOperations t arrivals) (w.batch t arrivals).worker := by
  have hout := w.batch_outcome t arrivals
  generalize w.batch t arrivals = p at hout ⊢
  -- the steps that are due move their pacer, and at most as many are asked for
  have hsteps {count : Nat} {q : Pacer} (hdue : w.steps.due t = .ok (count, q)) :
      q.Spent origin t
        ((ops ++ Stint.stepsOperations arrivals count w.interpreter).count .step) := by
    have hcount := (Stint.count_stepsOperations arrivals count w.interpreter).1
    rw [List.count_append]
    exact (h.steps.of_due hnow hdue).weaken (Nat.add_le_add_left hcount _) (Nat.le_refl t)
  have hticks (count : Nat) :
      (ops ++ Stint.stepsOperations arrivals count w.interpreter).count .tick =
        ops.count .tick := by
    simp [(Stint.count_stepsOperations arrivals count w.interpreter).2]
  cases hout with
  | uncounted hdue =>
      simp only [Worker.batchOperations_eq, hdue, List.append_nil]
      exact h.weaken hnow
  | cut hdue hstepped hending =>
      subst hstepped
      simp only [Worker.batchOperations_eq, hdue, hending, List.append_nil]
      refine ⟨hsteps hdue, ?_⟩
      rw [hticks]
      exact (h.weaken hnow).timers
  | unticked hdue hstepped hending hnever =>
      subst hstepped
      simp only [Worker.batchOperations_eq, hdue, hending, hnever, List.append_nil]
      refine ⟨hsteps hdue, ?_⟩
      rw [hticks]
      exact (h.weaken hnow).timers
  | @finished count number steps timers _ _ hdue hstepped hending hticked _ =>
      subst hstepped
      simp only [Worker.batchOperations_eq, hdue, hending, hticked]
      rw [← List.append_assoc, ← List.append_assoc]
      refine .of_not_mem ⟨?_, ?_⟩ (by decide : .step ∉ flushing ∧ .tick ∉ flushing)
      · rw [List.count_append, List.count_replicate]
        exact hsteps hdue
      · rw [List.count_append, hticks, List.count_replicate_self]
        exact h.timers.of_due hnow hticked

/-- A turn that handles no start is paid for. -/
theorem Spent.of_turn (h : Spent origin now ops e.worker) (hnow : now ≤ t)
    (arrivals : Nat → List Call) (hstart : .start ∉ handled (e.turn t arrivals).2) :
    Spent origin t (ops ++ e.operations (.turn t arrivals)) (e.turn t arrivals).1.worker := by
  have hout := e.operations_outcome (.turn t arrivals)
  generalize e.operations (.turn t arrivals) = more at hout ⊢
  cases hout with
  | none hsame =>
      rw [List.append_nil, show (e.turn t arrivals).1.worker = e.worker from hsame]
      exact h.weaken hnow
  | handled _ _ hnone hqueue =>
      rw [turn_of_command hnone hqueue, handled_record, handled_handle,
        List.mem_singleton] at hstart
      rw [turn_of_command hnone hqueue]
      exact (h.weaken hnow).of_handle (fun hc => hstart hc.symm) t
  | batched _ _ hdue =>
      rw [hdue.turn]
      exact h.of_batch hnow arrivals

theorem runAll_spent (later : List Happening) (h : Spent origin now ops e.worker)
    (hstart : .start ∉ handled (e.runAll later).2)
    (htimes : (now :: readings later ++ [t]).Pairwise (· ≤ ·)) :
    Spent origin t (ops ++ e.allOperations later) (e.runAll later).1.worker := by
  induction later generalizing e ops now with
  | nil =>
      have hnow : now ≤ t := (List.pairwise_cons.1 htimes).1 t (.head _)
      simpa using h.weaken hnow
  | cons happening rest ih =>
      rw [handled_runAll_cons, List.mem_append, not_or] at hstart
      rw [allOperations_cons, ← List.append_assoc]
      cases happening with
      | call call =>
          have hcall : .step ∉ e.operations (.call call) ∧ .tick ∉ e.operations (.call call) := by
            cases call with
            | send | writeKeypad | disconnect => simp [operations, moments, operationsOf]
          have hmore := h.of_not_mem hcall
          cases call with
          | send | writeKeypad | disconnect => exact ih ⟨hmore.steps, hmore.timers⟩ hstart.2 htimes
      | turn s arrivals =>
          rcases List.pairwise_cons.1 htimes with ⟨hnow, hlater⟩
          exact ih (h.of_turn (hnow s (.head _)) arrivals hstart.1) hstart.2 hlater

/-- A start makes both pacers forget what has fallen due. -/
theorem spent_of_start {rest : List Command} (hsteps : e.worker.steps.Steady)
    (htimers : e.worker.timers.Steady) (hnone : e.ending? = none)
    (hqueue : e.queue = .start :: rest) (arrivals : Nat → List Call) :
    Spent now now [] (e.turn now arrivals).1.worker := by
  rw [turn_of_command hnone hqueue]
  exact ⟨Pacer.spent_restart hsteps now, Pacer.spent_restart htimers now⟩

/-! ## Runs -/

/-- How an engine obeys: every command once and in order, a shutdown last, and the queue before any
step. While the engine is not started its interpreter changes by key writes and loads only, and from
a start on the steps and ticks are at most the periods that have passed and one more. -/
theorem runAll_commands {c : Config} (hperiods : c.HasPeriods) (g : Generator) (start : Nat)
    (happenings : List Happening) :
    let run := (ofConfig c g start).runAll happenings
    (sent ((ofConfig c g start).allMoments happenings) = handled run.2 ++ run.1.queue ∧
      ShutLast run.1 (handled run.2) ∧
      Explained run.1.connected run.1.ending? run.2 ∧
      (∀ ending later, run.1.ending? = some ending → (run.1.runAll later).2 = []) ∧
      ∀ later, run.1.queue.length ≤ turns later → (run.1.runAll later).1.ending? = none →
        run.1.queue <+: handled (run.1.runAll later).2) ∧
    (∀ command rest now arrivals, run.1.ending? = none → run.1.queue = command :: rest →
      let next := run.1.turn now arrivals
      handled next.2 = [command] ∧ next.1.queue = rest ∧
        .step ∉ run.1.operations (.turn now arrivals) ∧
        .tick ∉ run.1.operations (.turn now arrivals)) ∧
    (∀ h, run.1.worker.interpreter.Leads (run.1.operations h)
        (run.1.after h).1.worker.interpreter ∧
      (.step ∈ run.1.operations h ∨ .tick ∈ run.1.operations h →
        run.1.BatchDue ∧ startedLast (handled run.2) = true)) ∧
    (startedLast (handled run.2) = false → ∀ later, let last := run.1.runAll later
      .start ∉ handled last.2 → ∃ changes, Changed run.1.worker.interpreter
        last.1.worker.interpreter (callsOf (run.1.allMoments later)) (handled last.2) changes) ∧
    ∀ rest now arrivals, run.1.ending? = none → run.1.queue = .start :: rest →
      let begun := (run.1.turn now arrivals).1
      ∀ later t, .start ∉ handled (begun.runAll later).2 →
        (now :: readings later ++ [t]).Pairwise (· ≤ ·) →
        let ops := begun.allOperations later
        begun.worker.interpreter.Leads ops (begun.runAll later).1.worker.interpreter ∧
          ops.count .step ≤ (t - now) / (ofConfig c g start).worker.steps.period + 1 ∧
          ops.count .tick ≤ (t - now) / (ofConfig c g start).worker.timers.period + 1 := by
  intro run
  have hobeyed : Obeyed (ofConfig c g start)
      (sent ((ofConfig c g start).allMoments happenings)) run := runAll_obeyed _ _
  have hsound : Sound run.1 run.2 := ofConfig_sound hperiods g start happenings
  have hrunning : run.1.worker.running = startedLast (handled run.2) := hobeyed.running_eq
  have hbounded : run.1.worker.interpreter.Bounded := hsound.worker.interpreter
  refine ⟨⟨hobeyed.queue_eq, runAll_shutLast c g start happenings, hsound.explained, ?_, ?_⟩,
    ?_, ?_, ?_, ?_⟩
  · intro ending later hending
    exact runAll_entries_of_some hending later
  · intro later hturns hending
    exact runAll_handles later run.1.queue [] (List.append_nil _).symm hturns hending
  · intro command rest now arrivals hnone hqueue next
    have hturn := handled_turn hnone hqueue now arrivals
    have hops : run.1.operations (.turn now arrivals) = run.1.worker.handleOperations command := by
      simp only [operations_turn, hnone, hqueue]
    rw [hops]
    exact ⟨hturn.1, hturn.2, run.1.worker.not_mem_handleOperations command⟩
  · intro h
    refine ⟨after_leads hbounded h, ?_⟩
    intro hworks
    have hdue : run.1.BatchDue := by
      rcases hworks with hstep | htick
      · exact .of_mem hstep (.inl rfl)
      · exact .of_mem htick (.inr rfl)
    exact ⟨hdue, hrunning.symm.trans hdue.running_eq⟩
  · intro hpaused later last hstart
    exact runAll_changed (hrunning.trans hpaused) later hstart
  · intro rest now arrivals hnone hqueue begun later t hstart htimes ops
    have halike := runAll_alike (ofConfig c g start) (happenings ++ .turn now arrivals :: later)
    rw [runAll_append] at halike
    have hbefore := runAll_alike (ofConfig c g start) happenings
    have hsteps := (Pacer.ofRate_steady hperiods.1 start).of_alike hbefore.1
    have htimers := (Pacer.ofRate_steady hperiods.2 start).of_alike hbefore.2
    have hspent := runAll_spent later (spent_of_start hsteps htimers hnone hqueue arrivals)
      hstart htimes
    rw [List.nil_append] at hspent
    refine ⟨?_, ?_, ?_⟩
    · exact runAll_leads (after_bounded run.1 (.turn now arrivals) hbounded) later
    · rw [← halike.1.period_eq]
      exact hspent.steps.le
    · rw [← halike.2.period_eq]
      exact hspent.timers.le

/-- A key is pressed and a program loaded while the engine is paused. It is started a microsecond
later, and at five milliseconds three steps have been carried out, as many as a start allows. -/
theorem runAll_commands_idle_loop :
    let c : Config := {}
    let g := Generator.ofSeed 3
    let turn (now : Nat) : Happening := .turn now fun _ => []
    let paused := (ofConfig c g 0).runAll [.call (.send (.load idleLoop))]
    let loading : List Happening := [.call (.writeKeypad (.set 3 true)), turn 0]
    let starting : List Happening :=
      .call (.send (.load idleLoop)) :: loading ++ [.call (.send .start)]
    let loaded := (ofConfig c g 0).runAll starting
    let begun := (loaded.1.turn 1000 fun _ => []).1
    let later : List Happening := [turn 1000, turn 5000000]
    (c.HasPeriods ∧ startedLast (handled paused.2) = false ∧
      .start ∉ handled (paused.1.runAll loading).2 ∧ loaded.1.ending? = none ∧
      loaded.1.queue = [.start] ∧ .start ∉ handled (begun.runAll later).2 ∧
      (1000 :: readings later ++ [5000000]).Pairwise (· ≤ ·)) ∧
      (∃ changes, Changed paused.1.worker.interpreter (paused.1.runAll loading).1.worker.interpreter
        (callsOf (paused.1.allMoments loading)) (handled (paused.1.runAll loading).2) changes) ∧
      (begun.allOperations later).count .step = 3 ∧
      3 ≤ (5000000 - 1000) / (ofConfig c g 0).worker.steps.period + 1 := by
  intro c g turn paused loading starting loaded begun later
  have hperiods : c.HasPeriods := by
    unfold Config.HasPeriods
    decide
  have hpaused : startedLast (handled paused.2) = false := rfl
  have hnone : loaded.1.ending? = none := by decide +kernel
  have hqueue : loaded.1.queue = [.start] := by decide +kernel
  have hloading : .start ∉ handled (paused.1.runAll loading).2 := by decide +kernel
  have hlater : .start ∉ handled (begun.runAll later).2 := by decide +kernel
  have htimes : (1000 :: readings later ++ [5000000]).Pairwise (· ≤ ·) := by decide
  have hcount : (begun.allOperations later).count .step = 3 := by decide +kernel
  have hcommands := runAll_commands hperiods g 0
  have hstarted := (hcommands starting).2.2.2.2 [] 1000 (fun _ => []) hnone hqueue later 5000000
    hlater htimes
  refine ⟨⟨hperiods, hpaused, hloading, hnone, hqueue, hlater, htimes⟩, ?_, hcount, ?_⟩
  · exact (hcommands [.call (.send (.load idleLoop))]).2.2.2.1 hpaused loading hloading
  · rw [← hcount]
    exact hstarted.2.1

end Engine
end Chip8
