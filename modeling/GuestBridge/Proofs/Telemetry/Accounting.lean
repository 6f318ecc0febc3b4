import GuestBridge.Proofs.Provenance.Operations

/-!
# Telemetry accounts for what went across the bridges

Along a run in which only bridges write to a collector, what the collector holds is what the
operations completed on the way make up:

1. A step works and then reports what it completes (`State.completes_step`), so a collector changes
   by the events of that operation, if its bridge reports there, and not at all otherwise
   (`State.telemetry_step`).
2. So along a run a collector takes in the completions of its bridges one after the other
   (`State.telemetry_reaches`).
3. What a collector takes in is counted by kinds and recorded in order (`Telemetry.accounts_after`).

That a tail call is counted once for each frame that is removed rests on two facts about a return:
one that succeeds removes a frame just when a tail call was pending (`World.resume_eq`), and one
that fails removes none (`Completion.Settled`).
-/

namespace GuestBridge

/-! ## Taking events in -/

namespace Telemetry

variable {done : List Completion} {kind : EventKind}

/-- The events of an operation are noted. -/
def noteAll (t : Telemetry) (d : Completion) : Telemetry :=
  d.events.foldl (fun t event => t.note d.bridge.config.traceCalls event.1 event.2) t

/-- The events of several operations are noted, first to last. -/
def after (t : Telemetry) (done : List Completion) : Telemetry := done.foldl noteAll t

theorem after_append (t : Telemetry) (done more : List Completion) :
    t.after (done ++ more) = (t.after done).after more := List.foldl_append

theorem counters_noteAll (t : Telemetry) (d : Completion) (kind : EventKind) :
    (t.noteAll d).counters.get kind = t.counters.get kind + d.events.countP (·.1 = kind) := by
  unfold noteAll
  generalize d.events = events
  induction events generalizing t with
  | nil => rfl
  | cons event rest ih =>
    rw [List.foldl_cons, ih, counters_note, Counters.get_bump, List.countP_cons]
    by_cases hkind : kind = event.1
    · simp only [hkind, decide_true, if_true]
      omega
    · simp only [hkind, Ne.symm hkind, decide_false, if_false, Bool.false_eq_true]
      omega

theorem counters_after (t : Telemetry) (done : List Completion) (kind : EventKind) :
    (t.after done).counters.get kind
      = t.counters.get kind + (done.flatMap (·.events)).countP (·.1 = kind) := by
  induction done generalizing t with
  | nil => rfl
  | cons d rest ih =>
    rw [after, List.foldl_cons, ← after, ih, counters_noteAll, List.flatMap_cons,
      List.countP_append]
    omega

end Telemetry

/-- What is kept of the events of an operation if they are traced. -/
def Completion.records (d : Completion) : List EventRecord :=
  d.events.map fun event => { kind := event.1, detail := some event.2 }

namespace Telemetry

theorem records_noteAll (t : Telemetry) (d : Completion) :
    (t.noteAll d).records = t.records ++ if d.bridge.config.traceCalls then d.records else [] := by
  unfold noteAll Completion.records
  generalize d.events = events
  cases d.bridge.config.traceCalls with
  | false =>
    rw [if_neg (by decide), List.append_nil]
    induction events generalizing t with
    | nil => rfl
    | cons event rest ih => exact ih _
  | true =>
    rw [if_pos rfl]
    induction events generalizing t with
    | nil => exact (List.append_nil _).symm
    | cons event rest ih => exact (ih _).trans (List.append_assoc _ _ _)

theorem records_after (t : Telemetry) (done : List Completion) :
    (t.after done).records
      = t.records ++ (done.filter (·.bridge.config.traceCalls)).flatMap (·.records) := by
  induction done generalizing t with
  | nil => exact (List.append_nil _).symm
  | cons d rest ih =>
    rw [after, List.foldl_cons, ← after, ih, records_noteAll, List.filter_cons]
    split <;> simp

end Telemetry

/-! ## What an operation counts for -/

namespace Completion

/-- How much an operation counts for a kind of events: for collapsed tail calls the frames that it
has removed, for failures one if it is reported and has failed, and for any other kind one if it is
reported as that and has succeeded. -/
def counts (d : Completion) : EventKind → Nat
  | .tailCollapse => d.removed
  | .failure => if d.kind?.isSome && d.error?.isSome then 1 else 0
  | kind => if d.kind? = some kind && d.error?.isNone then 1 else 0

/-- An operation that has failed has removed no frame. -/
def Settled (d : Completion) : Prop := d.error? ≠ none → d.removed = 0

theorem Settled.countP_events {d : Completion} (hd : d.Settled) (kind : EventKind) :
    d.events.countP (·.1 = kind) = d.counts kind := by
  cases d with
  | unwrap => cases kind <;> rfl
  | resume b before next result after =>
    cases result <;> cases kind <;>
      simp_all [Settled, events, counts, removed, kind?, error?, failure?, List.countP_replicate]
  | _ =>
    rename_i result
    cases result <;> cases kind <;> simp [events, ending, counts, removed, kind?, error?, failure?]

/-- A kind's share of the events of several operations is the sum of what they count for it. -/
theorem countP_flatMap_events {done : List Completion} (hsettled : ∀ d ∈ done, d.Settled)
    (kind : EventKind) :
    (done.flatMap (·.events)).countP (·.1 = kind) = (done.map (·.counts kind)).sum := by
  rw [List.countP_flatMap]
  exact congrArg List.sum (List.map_congr_left fun d hd => (hsettled d hd).countP_events kind)

theorem countP_records (d : Completion) (kind : EventKind) :
    d.records.countP (·.kind = kind) = d.events.countP (·.1 = kind) := List.countP_map

end Completion

/-! ## Accounts -/

namespace Telemetry

/-- What a collector holds between two states accounts for the operations completed between them:
it has counted each of them once, and recorded the traced ones in their order. -/
structure Accounts (done : List Completion) (before after : Telemetry) : Prop where
  counters : ∀ kind, after.counters.get kind
    = before.counters.get kind + (done.map (·.counts kind)).sum
  records : after.records
    = before.records ++ (done.filter (·.bridge.config.traceCalls)).flatMap (·.records)

/-- A collector holds as many records of each kind as it has counted. -/
def Complete (t : Telemetry) : Prop :=
  ∀ kind, t.records.countP (·.kind = kind) = t.counters.get kind

theorem accounts_after {done : List Completion} (hsettled : ∀ d ∈ done, d.Settled)
    (t : Telemetry) : Accounts done t (t.after done) where
  counters := by
    intro kind
    rw [counters_after, Completion.countP_flatMap_events hsettled]
  records := t.records_after done

/-- If all operations are traced, each event that is counted is recorded. -/
theorem Complete.after {done : List Completion} {t : Telemetry} (ht : t.Complete)
    (htraced : ∀ d ∈ done, d.bridge.config.traceCalls = true) : (t.after done).Complete := by
  intro kind
  have hevents : ∀ d ∈ done, (List.countP (·.kind = kind) ∘ Completion.records) d
      = (List.countP (·.1 = kind) ∘ Completion.events) d := fun d _ => d.countP_records kind
  rw [counters_after, records_after, List.filter_eq_self.2 htraced, List.countP_append, ht kind,
    List.countP_flatMap, List.countP_flatMap]
  exact congrArg (_ + List.sum ·) (List.map_congr_left hevents)

end Telemetry

/-! ## Steps -/

namespace World

theorem telemetry_onTelemetry_self (w : World) (c : CollectorId) (f : Telemetry → Telemetry) :
    (w.onTelemetry c f).telemetry c = f (w.telemetry c) := by
  rw [onTelemetry, telemetry, Table.update_eq, Table.get_set_self]
  rfl

theorem telemetry_onTelemetry_of_ne (w : World) {c c' : CollectorId} (hne : c' ≠ c)
    (f : Telemetry → Telemetry) : (w.onTelemetry c' f).telemetry c = w.telemetry c := by
  have hnumber : c'.number ≠ c.number := fun hn => hne (by cases c; cases c'; simp_all)
  rw [onTelemetry, telemetry, Table.update_eq, Table.get_set_of_ne _ hnumber]
  rfl

/-- A completion is entered into the collector of its bridge, and into no other. -/
theorem telemetry_entered (w : World) (done : Option Completion) (c : CollectorId) :
    (w.entered done).telemetry c
      = (w.telemetry c).after (done.toList.filter (·.bridge.collector = c)) := by
  cases done with
  | none => rfl
  | some d =>
    rw [entered, Option.toList_some]
    by_cases hc : d.bridge.collector = c
    · rw [List.filter_cons_of_pos (by simpa using hc)]
      show _ = (w.telemetry c).noteAll d
      unfold Telemetry.noteAll
      generalize d.events = events
      induction events generalizing w with
      | nil => rfl
      | cons event rest ih =>
        subst hc
        rw [List.foldl_cons, ih, note, telemetry_onTelemetry_self, List.foldl_cons]
    · rw [List.filter_cons_of_neg (by simpa using hc)]
      generalize d.events = events
      induction events generalizing w with
      | nil => rfl
      | cons event rest ih =>
        rw [List.foldl_cons, ih, note, telemetry_onTelemetry_of_ne _ hc]

theorem Works.telemetry {w w₁ : World} (hworks : Works w w₁) (c : CollectorId) :
    w₁.telemetry c = w.telemetry c := congrArg (·.get c.number) hworks.collectors

theorem Completes.telemetry {w w₁ : World} {done : Option Completion}
    (hdone : Completes done w w₁) (c : CollectorId) :
    w₁.telemetry c = (w.telemetry c).after (done.toList.filter (·.bridge.collector = c)) := by
  obtain ⟨w', hworks, rfl⟩ := hdone
  rw [telemetry_entered, hworks.telemetry]

end World

/-! ## What a step completes -/

/-- A return that fails leaves the context as it was. -/
theorem CallContext.settled_resume (ctx : CallContext) (b : Bridge) (next : Address) :
    (Completion.resume b ctx next (ctx.resume next).1 (ctx.resume next).2).Settled := by
  intro herror
  unfold resume at herror ⊢
  split at herror
  · rename_i htail
    rw [if_pos htail]
    cases hcaller : ctx.caller? with
    | none => exact Nat.sub_self _
    | some caller =>
      rw [hcaller] at herror
      exact absurd rfl herror
  · exact absurd rfl herror

theorem Op.settled_completion {o : Op} {w : World} {d : Completion}
    (hd : o.completion? w (o.perform w).1 = some d) : d.Settled := by
  cases o with
  | resume b ctx next =>
    cases hd
    exact ctx.settled_resume b next
  | marshal | wrap | unwrap | passArguments =>
    cases hd
    exact fun _ => rfl
  | _ => cases hd

theorem Call.settled_completion {c : Call} {reply : c.Reply} {d : Completion}
    (hd : c.completion? reply = some d) : d.Settled := by
  cases c with
  | guestMethod | guestSub => cases hd
  | method | sub =>
    cases hd
    exact fun _ => rfl

namespace State

variable {s t : State} {n : Nat} {c : CollectorId}

theorem settled_completed {d : Completion} (hd : s.completed? = some d) : d.Settled := by
  obtain ⟨r, frames, m⟩ := s
  cases r with
  | finish outcome =>
    cases frames with
    | nil => cases hd
    | cons f frames => exact Call.settled_completion hd
  | act o next => exact Op.settled_completion hd
  | look | closure => cases hd
  | call call next =>
    rw [completed?] at hd
    rcases hentry : (call.start m).1 with reply | ⟨l, args⟩
    · rw [hentry] at hd
      exact Call.settled_completion hd
    · rw [hentry] at hd
      cases hd

theorem settled_completedAlong (hreach : Reaches n s t) :
    ∀ d ∈ s.completedAlong n, d.Settled := by
  induction n generalizing s with
  | zero => exact fun _ hd => nomatch hd
  | succ n ih =>
    obtain ⟨u, hstep, hrest⟩ := hreach
    intro d hd
    rw [completedAlong_succ hstep, List.mem_append] at hd
    rcases hd with hnow | hlater
    · exact settled_completed (Option.mem_toList.1 hnow)
    · exact ih hrest d hlater

/-- An operation that writes to a collector past all bridges completes nothing, and no other
collector changes. -/
theorem telemetry_step_of_writes {c' : CollectorId} (hstep : s.step = some t)
    (hwrites : s.writes? = some c') (hne : c' ≠ c) :
    s.completed? = none ∧ t.machine.world.telemetry c = s.machine.world.telemetry c := by
  obtain ⟨r, frames, m⟩ := s
  cases r with
  | act o next =>
    cases o with
    | count | record =>
      cases hwrites
      cases hstep
      exact ⟨rfl, m.world.telemetry_onTelemetry_of_ne hne _⟩
    | _ => cases hwrites
  | _ => cases hwrites

/-- A step changes a collector by what it completes across a bridge that reports there. -/
theorem telemetry_step (hstep : s.step = some t) (hsole : s.writes? ≠ some c) :
    t.machine.world.telemetry c = (s.machine.world.telemetry c).after
      (s.completed?.toList.filter (·.bridge.collector = c)) := by
  cases hwrites : s.writes? with
  | none => exact (completes_step hstep hwrites).telemetry c
  | some c' =>
    obtain ⟨hnone, hsame⟩ := telemetry_step_of_writes hstep hwrites
      fun hc => hsole (hwrites.trans (congrArg some hc))
    rw [hnone, hsame]
    rfl

/-! ## Runs -/

/-- Along a run a collector takes in what is completed across the bridges that report there. -/
theorem telemetry_reaches (hreach : Reaches n s t) (hsole : c ∉ s.writesAlong n) :
    t.machine.world.telemetry c = (s.machine.world.telemetry c).after
      ((s.completedAlong n).filter (·.bridge.collector = c)) := by
  induction n generalizing s with
  | zero =>
    obtain rfl : s = t := hreach
    rfl
  | succ n ih =>
    obtain ⟨u, hstep, hrest⟩ := hreach
    rw [writesAlong_succ hstep, List.mem_append, not_or, Option.mem_toList] at hsole
    rw [ih hrest hsole.2, telemetry_step hstep hsole.1, completedAlong_succ hstep,
      List.filter_append, Telemetry.after_append]

/-- A call whose sub runs: the state in which it is entered, the one in which its sub starts, the
number of steps that the sub takes, and the answer. -/
inductive Runs : State → State → Nat → (c : Call) → c.Reply → Prop where
  | intro {call : Call} {next : call.Reply → Routine} {frames : List Frame}
      {m m₁ m₂ : Machine Code} {l : Landing} {args : List Handle} {k : Nat}
      {outcome : Except Fault (List Handle)} (hstart : call.start m = (.inr (l, args), m₁))
      (hbody : Reaches k
        { routine := m₁.bodyOf l.closure call.interpreter args
          frames := ⟨call, l, next⟩ :: frames
          machine := m₁ }
        { routine := .finish outcome, frames := ⟨call, l, next⟩ :: frames, machine := m₂ }) :
      Runs { routine := .call call next, frames, machine := m }
        { routine := m₁.bodyOf l.closure call.interpreter args
          frames := ⟨call, l, next⟩ :: frames
          machine := m₁ } k call (call.finish l outcome m₂).1

/-- A call is completed after everything that its sub completes. -/
theorem Runs.completedAlong {s inner : State} {k : Nat} {call : Call} {reply : call.Reply}
    (hruns : Runs s inner k call reply) :
    s.completedAlong (k + 2) = inner.completedAlong k ++ (call.completion? reply).toList := by
  obtain @⟨_, next, frames, m, m₁, m₂, l, args, _, outcome, hstart, hbody⟩ := hruns
  have henter : State.step { routine := .call call next, frames, machine := m }
      = some { routine := m₁.bodyOf l.closure call.interpreter args
               frames := ⟨call, l, next⟩ :: frames
               machine := m₁ } := by
    rw [step, hstart]
    rfl
  have hentry : State.completed? { routine := .call call next, frames, machine := m } = none := by
    rw [completed?, hstart]
    rfl
  have hlast : State.completedAlong 1
      { routine := .finish outcome, frames := ⟨call, l, next⟩ :: frames, machine := m₂ }
        = (call.completion? (call.finish l outcome m₂).1).toList := List.append_nil _
  rw [completedAlong_succ henter, hentry, completedAlong_add hbody 1, hlast]
  rfl

/-- The state so many steps later, if there is one. -/
def later? : Nat → State → Option State
  | 0, s => some s
  | n + 1, s => s.step.bind (later? n)

theorem reaches_of_later? (hlater : s.later? n = some t) : Reaches n s t := by
  induction n generalizing s with
  | zero => exact Option.some.inj hlater
  | succ n ih =>
    obtain ⟨u, hstep, hrest⟩ := Option.bind_eq_some_iff.1 hlater
    exact ⟨u, hstep, ih hrest⟩

/-- Along every run in which only bridges write to a collector, it accounts for the operations
completed across the bridges that report to it; if they are all traced, there are as many records of
each kind as have been counted. A call is completed after everything that its sub completes. -/
theorem telemetry_accounts (hreach : Reaches n s t) (hsole : c ∉ s.writesAlong n) :
    Telemetry.Accounts ((s.completedAlong n).filter (·.bridge.collector = c))
        (s.machine.world.telemetry c) (t.machine.world.telemetry c) ∧
      ((∀ d ∈ s.completedAlong n, d.bridge.collector = c → d.bridge.config.traceCalls = true) →
        (s.machine.world.telemetry c).Complete → (t.machine.world.telemetry c).Complete) ∧
      ∀ u inner k call reply, Runs u inner k call reply →
        u.completedAlong (k + 2) = inner.completedAlong k ++ (call.completion? reply).toList := by
  rw [telemetry_reaches hreach hsole]
  refine ⟨Telemetry.accounts_after ?_ _, fun htraced hbefore => hbefore.after ?_,
    fun _ _ _ _ _ hruns => hruns.completedAlong⟩
  · exact fun d hd => settled_completedAlong hreach d (List.mem_of_mem_filter hd)
  · intro d hd
    obtain ⟨hmem, hc⟩ := List.mem_filter.1 hd
    exact htraced d hmem (of_decide_eq_true hc)

end State

/-! ## A run with a call inside of a call -/

/-- A bridge that traces. -/
def tracingBridge : Bridge :=
  { interpreter := ⟨1⟩, config := { traceCalls := true }, collector := ⟨0⟩ }

/-- A sub that calls another one across the bridge, and then one that is not there. -/
def callsBack : Code := fun _ _ =>
  .act (.newArray []) fun positional => .act (.newHash []) fun named =>
    .call (.sub tracingBridge (.name "leaf") .void positional named) fun _ =>
      .act (.newArray []) fun positional => .act (.newHash []) fun named =>
        .call (.sub tracingBridge (.name "missing") .void positional named) fun _ =>
          .finish (.ok [])

/-- A tail call that is about to return. -/
def tailCalled : CallContext :=
  { frames := [⟨"outer", { label := "main" }⟩]
    pending := .ready { label := "outer", tailCall := true } }

/-- The sub is called, a number is converted, and a tail call returns. -/
def crossings : Routine :=
  .act .newInterpreter fun i => .closure [] (fun _ _ => .finish (.ok [])) fun leaf =>
    .act (.define i "main" "leaf" leaf) fun _ => .closure [] callsBack fun outer =>
      .act (.define i "main" "outer" outer) fun _ =>
        .act (.newArray []) fun positional => .act (.newHash []) fun named =>
          .call (.sub tracingBridge (.name "outer") .list positional named) fun _ =>
            .act (.marshal tracingBridge (.integer 7)) fun _ =>
              .act (.resume tracingBridge tailCalled ⟨4⟩) fun _ => .finish (.ok [])

/-- The calls that the sub makes are recorded before its own. -/
theorem telemetry_accounts_crossings : ∃ t, State.Reaches 18 { routine := crossings } t ∧
    (t.machine.world.telemetry ⟨0⟩).records =
      [{ kind := .call, detail := some "sub Name(\"leaf\")" },
        { kind := .failure,
          detail := some "sub Name(\"missing\"): undefined subroutine &missing called" },
        { kind := .call, detail := some "sub Name(\"outer\")" },
        { kind := .convert, detail := some "convert Integer" },
        { kind := .tailCollapse, detail := some "@0x0004 -> @0x0004" }] ∧
    (t.machine.world.telemetry ⟨0⟩).Complete := by
  have hsome : (State.later? 18 { routine := crossings }).isSome = true := by decide +kernel
  obtain ⟨t, ht⟩ := Option.isSome_iff_exists.1 hsome
  have hreach := State.reaches_of_later? ht
  have hsole : (⟨0⟩ : CollectorId) ∉ State.writesAlong 18 { routine := crossings } := by
    decide +kernel
  obtain ⟨haccounts, hcomplete, -⟩ := State.telemetry_accounts hreach hsole
  refine ⟨t, hreach, ?_, hcomplete ?_ ?_⟩
  · rw [haccounts.records]
    decide +kernel
  · decide +kernel
  · intro kind
    cases kind <;> rfl

end GuestBridge
