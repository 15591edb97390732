import Chip8.Proofs.Engine.Journal

/-!
# Reports — how a worker tells of a fault

A step or a load may raise a fault, and the worker then says three things and is gone: the fault was
raised, the mark that the engine has stopped is set, the fault is sent.  `Told` is the shape of the
journal that follows: everything before those entries is calm, and nothing comes after them.

So whoever looks at the signals, at the mark or at the answer to a shutdown learns of the same
fault, and of no other.

Main statement: `runAll_reports`.
-/

namespace Chip8
namespace Engine

/-! ## Calm entries -/

def Entry.calm : Entry → Bool
  | .raised _ | .sent (.fault _) => false
  | _ => true

def Calm (entries : List Entry) : Prop :=
  ∀ entry ∈ entries, entry.calm = true

@[simp]
theorem calm_nil : Calm [] :=
  fun _ h => (List.not_mem_nil h).elim

@[simp]
theorem calm_append {before more : List Entry} :
    Calm (before ++ more) ↔ Calm before ∧ Calm more := by
  simp only [Calm, List.mem_append, or_imp, forall_and]

theorem Calm.not_raised {entries : List Entry} (h : Calm entries) (f : Fault) :
    .raised f ∉ entries := by
  intro hmem
  cases h _ hmem

theorem Calm.not_sent {entries : List Entry} (h : Calm entries) (f : Fault) :
    .sent (.fault f) ∉ entries := by
  intro hmem
  cases h _ hmem

/-- Calm entries send pictures and beeps only. -/
theorem Calm.ne_fault {entries : List Entry} (h : Calm entries) :
    ∀ s ∈ signals entries, ∀ f, s ≠ .fault f := by
  rintro s hs f rfl
  rcases List.mem_filterMap.1 hs with ⟨entry, hentry, hsome⟩
  cases entry with
  | sent t =>
      cases hsome
      exact h.not_sent f hentry
  | _ => cases hsome

/-- Steps that are performed are calm. -/
@[simp]
theorem calm_map_stepped (performed : List (Option Instruction)) :
    Calm (performed.map .stepped) := by
  intro entry hentry
  rcases List.mem_map.1 hentry with ⟨i?, -, rfl⟩
  rfl

@[simp]
theorem calm_map_ticked (beeps : List Bool) : Calm (beeps.map .ticked) := by
  intro entry hentry
  rcases List.mem_map.1 hentry with ⟨beeped, -, rfl⟩
  rfl

/-- A flush sends a picture and a beep at most. -/
@[simp]
theorem calm_flush (s : Interpreter) : Calm (Stint.flush s).entries := by
  rw [Stint.flush_entries, calm_append]
  refine ⟨?_, ?_⟩
  · intro entry hentry
    rcases List.mem_map.1 hentry with ⟨frame, -, rfl⟩
    rfl
  · intro entry hentry
    cases hbeep : s.beepPending with
    | true =>
        rw [hbeep, if_pos rfl, List.mem_singleton] at hentry
        rw [hentry]
        rfl
    | false =>
        rw [hbeep] at hentry
        cases hentry

/-! ## Pieces of work -/

/-- The work is calm but for the fault that ends it, if one does, which it enters last. -/
def Reported (entries : List Entry) (ending? : Option Ending) : Prop :=
  ∃ usual, Calm usual ∧ entries = usual ++ alarm ending?

theorem Reported.of_calm {entries : List Entry} {ending? : Option Ending} (h : Calm entries)
    (hending : alarm ending? = []) : Reported entries ending? :=
  ⟨entries, h, by rw [hending, List.append_nil]⟩

/-- A load tells of the fault of a program that does not fit. -/
theorem load_reported (program : List UInt8) (s : Interpreter) :
    Reported (Stint.load program s).entries (Stint.load program s).ending? := by
  have hout := Stint.load_outcome program s
  generalize Stint.load program s = a at hout ⊢
  cases hout with
  | refused f memory => exact ⟨[], calm_nil, rfl⟩
  | loaded memory => exact .of_calm (calm_flush _) rfl

/-- A command tells of the fault of its load. -/
theorem handle_reported (w : Worker) (now : Nat) (c : Command) :
    Reported (w.handle now c).entries (w.handle now c).ending? := by
  have hobey : Reported (w.obey now c).entries (w.obey now c).ending? := by
    cases c with
    | load program => exact load_reported program w.interpreter
    | start | pause | shutdown => exact .of_calm calm_nil rfl
  rcases hobey with ⟨usual, hcalm, hentries⟩
  refine ⟨.handled c :: usual, ?_, congrArg (Entry.handled c :: ·) hentries⟩
  intro entry hentry
  rcases List.mem_cons.1 hentry with rfl | hrest
  · rfl
  · exact hcalm entry hrest

/-- A batch tells of the fault that ends its steps. -/
theorem batch_reported (w : Worker) (now : Nat) (arrivals : Nat → List Call) :
    Reported (w.batch now arrivals).entries (w.batch now arrivals).ending? := by
  have hout := w.batch_outcome now arrivals
  generalize w.batch now arrivals = p at hout ⊢
  cases hout with
  | uncounted _ => exact .of_calm calm_nil rfl
  | @cut count _ a _ _ hsteps hending =>
      rcases Stint.steps_entries arrivals count w.interpreter with ⟨performed, hentries⟩
      rw [hsteps, hending] at hentries
      exact ⟨performed.map .stepped, calm_map_stepped performed, hentries⟩
  | @unticked count _ a _ _ hsteps hending _ =>
      rcases Stint.steps_entries arrivals count w.interpreter with ⟨performed, hentries⟩
      rw [hsteps, hending] at hentries
      exact ⟨performed.map .stepped, calm_map_stepped performed, hentries⟩
  | @finished count number _ _ a t _ hsteps hending _ hticks =>
      rcases Stint.steps_entries arrivals count w.interpreter with ⟨performed, hstepped⟩
      rcases Stint.ticks_entries number a.interpreter with ⟨-, beeps, hticked⟩
      rw [hsteps, hending, show alarm none = [] from rfl, List.append_nil] at hstepped
      rw [hticks] at hticked
      refine .of_calm ?_ rfl
      simp [hstepped, hticked, calm_map_stepped, calm_map_ticked, calm_flush]

/-! ## Journals -/

/-- A journal that tells of one fault at its end, or of none. -/
inductive Told : List Entry → Option Fault → Prop where
  | calm {entries : List Entry} : Calm entries → Told entries none
  | fault {usual : List Entry} (f : Fault) : Calm usual →
      Told (usual ++ [.raised f, .halted, .sent (.fault f)]) (some f)

/-- The fault that is sent is the one that is told of. -/
theorem Told.sent_iff {entries : List Entry} {fault? : Option Fault} (h : Told entries fault?)
    (f : Fault) : .sent (.fault f) ∈ entries ↔ fault? = some f := by
  cases h with
  | calm hcalm => exact ⟨fun hmem => absurd hmem (hcalm.not_sent f), fun hnone => by cases hnone⟩
  | fault g hcalm =>
      constructor
      · intro hmem
        rcases List.mem_append.1 hmem with husual | hlast
        · exact absurd husual (hcalm.not_sent f)
        · simp only [List.mem_cons, List.not_mem_nil, reduceCtorEq, Entry.sent.injEq,
            Signal.fault.injEq, false_or, or_false] at hlast
          rw [hlast]
      · intro hsome
        cases hsome
        simp

/-- Only one fault is raised, and what comes after it is known. -/
theorem Told.split {before rest entries : List Entry} {fault? : Option Fault} {f : Fault}
    (h : Told entries fault?) (hsplit : entries = before ++ .raised f :: rest) :
    fault? = some f ∧ Calm before ∧ rest = [.halted, .sent (.fault f)] := by
  cases h with
  | calm hcalm =>
      have hmem : .raised f ∈ entries := by
        rw [hsplit]
        simp
      exact absurd hmem (hcalm.not_raised f)
  | @fault usual g hcalm =>
      rcases List.append_eq_append_iff.1 hsplit with ⟨tail, hbefore, hlast⟩ | ⟨tail, husual, hlast⟩
      · cases tail with
        | nil =>
            rw [List.append_nil] at hbefore
            cases hlast
            rw [hbefore]
            exact ⟨rfl, hcalm, rfl⟩
        | cons entry tail =>
            -- the entries after the fault raise no other
            have hmem : Entry.raised f ∈ [Entry.halted, Entry.sent (.fault g)] := by
              rw [(List.cons.inj hlast).2]
              simp
            simp at hmem
      · cases tail with
        | nil =>
            rw [List.append_nil] at husual
            cases hlast
            rw [← husual]
            exact ⟨rfl, hcalm, rfl⟩
        | cons entry tail =>
            have hentry : entry = .raised f := (List.cons.inj hlast).1.symm
            have hmem : .raised f ∈ usual := by
              rw [husual, hentry]
              simp
            exact absurd hmem (hcalm.not_raised f)

/-- A journal that tells of a fault ends with it. -/
theorem Told.exists_split {entries : List Entry} {f : Fault} (h : Told entries (some f)) :
    ∃ usual, Calm usual ∧ entries = usual ++ [.raised f, .halted, .sent (.fault f)] := by
  cases h with
  | @fault usual _ hcalm => exact ⟨usual, hcalm, rfl⟩

/-- The signals of a journal: pictures and beeps, then the fault if there is one. -/
theorem Told.signals {entries : List Entry} {fault? : Option Fault} (h : Told entries fault?) :
    ∃ shown, (∀ s ∈ shown, ∀ f, s ≠ .fault f) ∧
      signals entries = shown ++ (fault?.map Signal.fault).toList := by
  cases h with
  | calm hcalm => exact ⟨Engine.signals entries, hcalm.ne_fault, (List.append_nil _).symm⟩
  | @fault usual f hcalm =>
      refine ⟨Engine.signals usual, hcalm.ne_fault, ?_⟩
      simp only [Engine.signals, List.filterMap_append]
      rfl

theorem record_told (e : Engine) {done : List Entry} {p : Progress} (hdone : Calm done)
    (hp : Reported p.entries p.ending?) :
    Told (done ++ (e.record p).2) (e.record p).1.fault? := by
  rcases hp with ⟨usual, hcalm, hentries⟩
  have hall : Calm (done ++ usual) := calm_append.2 ⟨hdone, hcalm⟩
  show Told (done ++ (p.entries ++ (p.ending?.map farewell).getD [])) _
  rw [hentries]
  cases hending : p.ending? with
  | none =>
      simp only [fault?, record, hending]
      simpa [alarm] using Told.calm hall
  | some ending =>
      simp only [fault?, record, hending]
      cases ending with
      | fault f =>
          have htold := Told.fault f hall
          simpa [alarm, farewell] using htold
      | shutdown =>
          have hhalted : Calm [.halted] := by
            intro entry hentry
            cases List.mem_singleton.1 hentry
            rfl
          simpa [alarm, farewell] using Told.calm (calm_append.2 ⟨hall, hhalted⟩)
      | breach b => simpa [alarm, farewell] using Told.calm hall

/-- Whatever happens, the journal tells of the fault of the engine. -/
theorem after_told (e : Engine) (done : List Entry) (h : Happening)
    (hdone : Told done e.fault?) : Told (done ++ (e.after h).2) (e.after h).1.fault? := by
  -- a worker that goes on has told of no fault so far
  have hcalm (hending : e.ending? = none) : Calm done := by
    simp only [fault?, hending] at hdone
    cases hdone with
    | calm hcalm => exact hcalm
  have hout := after_outcome e h
  generalize e.after h = next at hout ⊢
  cases hout with
  | idle _ hending _ =>
      simpa [fault?, hending] using hdone
  | keys w =>
      rw [List.append_nil]
      exact hdone
  | handled now hending _ => exact record_told _ (hcalm hending) (handle_reported _ _ _)
  | batched now arrivals hending _ _ =>
      exact record_told _ (hcalm hending) (batch_reported _ _ _)
  | closed hending =>
      exact record_told _ (hcalm hending) (.of_calm calm_nil rfl)

theorem runAll_told (c : Config) (g : Generator) (now : Nat) (happenings : List Happening) :
    Told ((ofConfig c g now).runAll happenings).2
      ((ofConfig c g now).runAll happenings).1.fault? := by
  have hnil : Told [] (ofConfig c g now).fault? := .calm calm_nil
  exact runAll_induction (I := fun e entries => Told entries e.fault?) hnil after_told happenings

/-- The mark is set with every fault. -/
theorem isHalted_of_fault? {e : Engine} {f : Fault} (h : e.fault? = some f) :
    e.isHalted = true := by
  unfold fault? at h
  unfold isHalted
  split at h
  · rename_i g hending
    rw [hending]
  · cases h

/-! ## Shutting down -/

/-- How many turns the worker takes in a run. -/
def turns : List Happening → Nat
  | [] => 0
  | .turn _ _ :: rest => turns rest + 1
  | _ :: rest => turns rest

theorem after_ending?_of_some {e : Engine} {ending : Ending} (h : e.ending? = some ending)
    (happening : Happening) : (e.after happening).1.ending? = some ending := by
  cases happening with
  | call c =>
      cases c with
      | send | writeKeypad | disconnect => exact h
  | turn now arrivals =>
      simp only [after, turn, h]

/-- A worker that is gone stays gone. -/
theorem runAll_ending?_of_some {e : Engine} {ending : Ending} (h : e.ending? = some ending)
    (later : List Happening) : (e.runAll later).1.ending? = some ending := by
  induction later generalizing e with
  | nil => exact h
  | cons happening rest ih => exact ih (after_ending?_of_some h happening)

/-- A queued shutdown is reached once the worker has taken a turn for each command before it
and one for itself, unless it has ended before. -/
theorem runAll_ends (later : List Happening) {e : Engine} (front back : List Command)
    (hqueue : e.queue = front ++ .shutdown :: back) (hturns : front.length < turns later) :
    (e.runAll later).1.ending?.isSome = true := by
  induction later generalizing e front back with
  | nil => cases hturns
  | cons happening rest ih =>
      cases hending : e.ending? with
      | some ending =>
          rw [runAll_ending?_of_some hending]
          rfl
      | none =>
          cases happening with
          | call call =>
              cases call with
              | send c =>
                  -- the queue grows after the shutdown
                  refine ih front (back ++ [c]) ?_ hturns
                  show e.queue ++ [c] = _
                  rw [hqueue, List.append_assoc, List.cons_append]
              | writeKeypad | disconnect => exact ih front back hqueue hturns
          | turn now arrivals =>
              cases front with
              | nil =>
                  have hturn : (e.turn now arrivals).1.ending? = some .shutdown := by
                    rw [turn_of_command hending hqueue]
                    rfl
                  have hrest := runAll_ending?_of_some hturn rest
                  show ((e.turn now arrivals).1.runAll rest).1.ending?.isSome = true
                  rw [hrest]
                  rfl
              | cons c front =>
                  -- the turn takes one command off the front, or ends the worker early
                  refine ih front back ?_ (Nat.lt_of_succ_lt_succ hturns)
                  show (e.turn now arrivals).1.queue = _
                  rw [turn_of_command hending hqueue]
                  rfl

/-! ## Runs -/

/-- The signals of a run are pictures and beeps, and at most one fault after them. It is the first
that was raised, and nothing follows it but the mark that the engine has stopped. A worker that is
told to shut down does end, and answers with the fault that was sent. -/
theorem runAll_reports (c : Config) (g : Generator) (now : Nat) (happenings : List Happening) :
    let run := (ofConfig c g now).runAll happenings
    (∃ shown, (∀ s ∈ shown, ∀ f, s ≠ .fault f) ∧
      signals run.2 = shown ++ (run.1.fault?.map Signal.fault).toList) ∧
    (∀ f, .sent (.fault f) ∈ run.2 ↔
      ∃ before rest, run.2 = before ++ .raised f :: rest ∧ ∀ f', .raised f' ∉ before) ∧
    (∀ f before rest, run.2 = before ++ .raised f :: rest →
      rest = [.halted, .sent (.fault f)] ∧ run.1.isHalted = true) ∧
    ∀ front back later, run.1.queue = front ++ .shutdown :: back → front.length < turns later →
      let last := (ofConfig c g now).runAll (happenings ++ later)
      last.1.ending?.isSome = true ∧
        ∀ f, last.1.fault? = some f ↔ .sent (.fault f) ∈ last.2 := by
  intro run
  have htold : Told run.2 run.1.fault? := runAll_told c g now happenings
  refine ⟨htold.signals, ?_, ?_, ?_⟩
  · intro f
    constructor
    · intro hsent
      rw [htold.sent_iff] at hsent
      rw [hsent] at htold
      rcases htold.exists_split with ⟨usual, hcalm, hentries⟩
      exact ⟨usual, _, hentries, hcalm.not_raised⟩
    · rintro ⟨before, rest, hsplit, -⟩
      rw [hsplit, (htold.split hsplit).2.2]
      simp
  · intro f before rest hsplit
    rcases htold.split hsplit with ⟨hfault, -, hrest⟩
    exact ⟨hrest, isHalted_of_fault? hfault⟩
  · intro front back later hqueue hturns last
    have hlast : Told last.2 last.1.fault? := runAll_told c g now _
    have hsplit : last = _ := runAll_append (ofConfig c g now) happenings later
    refine ⟨?_, fun f => (hlast.sent_iff f).symm⟩
    rw [hsplit]
    exact runAll_ends later front back hqueue hturns

/-- A program without instructions halts its engine in the third turn.  The client pauses and shuts
down the engine too late, so that neither is ever handled. -/
theorem runAll_reports_empty_program :
    let happenings : List Happening := [.call (.send (.load [0, 0])), .call (.send .start),
      .turn 0 fun _ => [], .turn 0 fun _ => [], .turn 0 fun _ => [.send .pause, .send .shutdown]]
    let later : List Happening := [.turn 1 fun _ => [], .turn 2 fun _ => []]
    let f : Fault := .unknownOpcode 0 0x200
    let run := (ofConfig {} (.ofSeed 3) 0).runAll happenings
    let last := (ofConfig {} (.ofSeed 3) 0).runAll (happenings ++ later)
    (run.1.queue = [.pause] ++ .shutdown :: [] ∧ [Command.pause].length < turns later) ∧
      last.1.fault? = some f ∧ .sent (.fault f) ∈ last.2 ∧ .handled .pause ∉ last.2 := by
  intro happenings later f run last
  have hruns : run.1.queue = [.pause] ++ .shutdown :: [] ∧ [Command.pause].length < turns later ∧
      last.1.fault? = some f ∧ .handled .pause ∉ last.2 := by
    decide +kernel
  rcases hruns with ⟨hqueue, hturns, hfault, hpause⟩
  have hreports := (runAll_reports {} (.ofSeed 3) 0 happenings).2.2.2 _ _ later hqueue hturns
  exact ⟨⟨hqueue, hturns⟩, hfault, (hreports.2 f).1 hfault, hpause⟩

end Engine
end Chip8
