import GuestBridge.Routine.Run

/-!
# Running routines step by step

`Routine.run` answers how a routine ends and says nothing about what lies in between. Here a routine
runs one operation at a time. The calls that wait for their subs are frames, innermost first, so
every world that a run passes through, at any nesting, belongs to a state.

A call is what happens before its sub runs (`Call.start`), the sub, and what happens after it
(`Call.finish`); `Call.perform_eq` says that `Call.perform` is just that. So both ways of running a
routine agree: `run_iff_reaches`.
-/

namespace GuestBridge

/-! ## The parts of a call -/

/-- What a call remembers while its sub runs: the closure that it keeps, and across a bridge the
depth of its scope and the collections that were not pushed. -/
structure Landing where
  closure : ObjectId
  depth : Nat := 0
  held : List ObjectId := []

namespace Machine

variable {κ : Type}

/-- The part of a guest call before its sub runs: the arguments of the sub, or why the call ends
here. -/
def startCall (i : InterpreterId)
    (take : Interpreter → Except Fault (Sub × List Handle) × Interpreter) (m : Machine κ) :
    Except Fault (Landing × List Handle) × Machine κ :=
  match m.onWorld (·.guest i take) with
  | (.error fault, m) => (.error fault, m)
  | (.ok (sub, args), m) =>
    (.ok ({ closure := sub.closure }, args), m.update (·.retainObject sub.closure))

/-- Settles the results of a sub; there are none if it failed. -/
def settleOutcome (i : InterpreterId) (mode : Mode) :
    Except Fault (List Handle) → Machine κ → Except Fault Nat × Machine κ
  | .error fault, m => (.error fault, m)
  | .ok results, m => m.onWorld (·.guest i (·.settle mode results))

/-- The part of a guest call after its sub has run. -/
def endCall (i : InterpreterId) (mode : Mode) (l : Landing)
    (outcome : Except Fault (List Handle)) (m : Machine κ) : Except Fault Nat × Machine κ :=
  let (result, m) := settleOutcome i mode outcome m
  (result, m.update (·.dropObjects [l.closure]))

theorem call_eq (invoke : Invoke κ) (i : InterpreterId)
    (take : Interpreter → Except Fault (Sub × List Handle) × Interpreter) (mode : Mode)
    (m : Machine κ) :
    m.call invoke i take mode =
      match m.startCall i take with
      | (.error fault, m) => some (.error fault, m)
      | (.ok (l, args), m) =>
        (invoke i l.closure args m).map fun ended => endCall i mode l ended.1 ended.2 := by
  unfold call startCall
  rcases m.onWorld (·.guest i take) with ⟨fault | ⟨sub, args⟩, m₁⟩
  · rfl
  · dsimp only
    unfold runAndSettle
    rcases invoke i sub.closure args (m₁.update (·.retainObject sub.closure)) with
      _ | ⟨_ | _, _⟩ <;> rfl

/-- Opens a scope, marks the stack and pushes the arguments of a call across a bridge. -/
def openAcross (b : Bridge)
    (prepare : World → (Except CrossingError Unit × List ObjectId) × World) (m : Machine κ) :
    (Nat × Except CrossingError Unit × List ObjectId) × Machine κ :=
  let (depth, m) := m.onWorld (·.guest b.interpreter (·.openScope))
  let m := m.update fun w => (w.guest b.interpreter fun it => ((), it.mark)).2
  let ((ready, held), m) := m.onWorld prepare
  ((depth, ready, held), m)

/-- Closes the scope of a call across a bridge, lets go of what was not pushed, and reports. -/
def closeAcross (b : Bridge) (detail : String) (depth : Nat) (held : List ObjectId)
    (result : Except CrossingError ObjectId) (m : Machine κ) : Machine κ :=
  (m.update fun w => (w.closeScope b.interpreter depth).dropObjects held).update
    (·.tally b .call detail result)

/-- The part of a call across a bridge before its sub runs: the arguments of the sub, or why the
call ends here. -/
def startAcross (b : Bridge)
    (prepare : World → (Except CrossingError Unit × List ObjectId) × World)
    (take : Interpreter → Except Fault (Sub × List Handle) × Interpreter) (detail : String)
    (m : Machine κ) : Except CrossingError (Landing × List Handle) × Machine κ :=
  match m.openAcross b prepare with
  | ((depth, .error e, held), m) => (.error e, m.closeAcross b detail depth held (.error e))
  | ((depth, .ok (), held), m) =>
    match m.startCall b.interpreter take with
    | (.error fault, m) =>
      (.error (.guest fault), m.closeAcross b detail depth held (.error (.guest fault)))
    | (.ok (l, args), m) => (.ok ({ closure := l.closure, depth, held }, args), m)

/-- Wraps the results of a sub that have been settled. -/
def boxOutcome (i : InterpreterId) :
    Except Fault Nat → Machine κ → Except CrossingError ObjectId × Machine κ
  | .error fault, m => (.error (.guest fault), m)
  | .ok count, m => m.onWorld (·.boxResults i count)

/-- The part of a call across a bridge after its sub has run. -/
def endAcross (b : Bridge) (mode : Mode) (detail : String) (l : Landing)
    (outcome : Except Fault (List Handle)) (m : Machine κ) :
    Except CrossingError ObjectId × Machine κ :=
  let (settled, m) := endCall b.interpreter mode l outcome m
  let (result, m) := boxOutcome b.interpreter settled m
  (result, m.closeAcross b detail l.depth l.held result)

theorem callPrepared_ok (invoke : Invoke κ) (i : InterpreterId)
    (take : Interpreter → Except Fault (Sub × List Handle) × Interpreter) (mode : Mode)
    (ready : Unit) (m : Machine κ) :
    callPrepared invoke i take mode (.ok ready) m =
      (m.call invoke i take mode).map fun ended => boxOutcome i ended.1 ended.2 := by
  cases ready
  rw [callPrepared]
  rcases m.call invoke i take mode with _ | ⟨_ | _, _⟩ <;> rfl

/-- A call across a bridge opens and closes its scope, whatever happens in between. -/
theorem callAcross_eq_openAcross (invoke : Invoke κ) (b : Bridge)
    (prepare : World → (Except CrossingError Unit × List ObjectId) × World)
    (take : Interpreter → Except Fault (Sub × List Handle) × Interpreter) (mode : Mode)
    (detail : String) (m : Machine κ) :
    m.callAcross invoke b prepare take mode detail =
      match m.openAcross b prepare with
      | ((depth, ready, held), m) =>
        (callPrepared invoke b.interpreter take mode ready m).map fun ended =>
          (ended.1, ended.2.closeAcross b detail depth held ended.1) := by
  unfold callAcross openAcross
  dsimp only
  split <;> (rename_i heq; rw [heq]; rfl)

theorem callAcross_eq (invoke : Invoke κ) (b : Bridge)
    (prepare : World → (Except CrossingError Unit × List ObjectId) × World)
    (take : Interpreter → Except Fault (Sub × List Handle) × Interpreter) (mode : Mode)
    (detail : String) (m : Machine κ) :
    m.callAcross invoke b prepare take mode detail =
      match m.startAcross b prepare take detail with
      | (.error e, m) => some (.error e, m)
      | (.ok (l, args), m) =>
        (invoke b.interpreter l.closure args m).map fun ended =>
          endAcross b mode detail l ended.1 ended.2 := by
  rw [callAcross_eq_openAcross]
  unfold startAcross
  rcases m.openAcross b prepare with ⟨⟨depth, e | ready, held⟩, m₁⟩
  · rfl
  · dsimp only
    rw [callPrepared_ok, call_eq]
    rcases m₁.startCall b.interpreter take with ⟨fault | ⟨l, args⟩, m₂⟩
    · rfl
    · dsimp only
      rcases invoke b.interpreter l.closure args m₂ with _ | ⟨outcome, m₃⟩ <;> rfl

end Machine

/-! ## Calls as a whole -/

namespace Call

/-- The interpreter that a call runs on. -/
def interpreter : Call → InterpreterId
  | guestMethod i _ _ | guestSub i _ _ => i
  | method b _ _ _ _ | sub b _ _ _ _ => b.interpreter

/-- The part of a call before its sub runs: the arguments of the sub, or the answer of a call that
ends here. -/
def start : (c : Call) → Machine Code → (c.Reply ⊕ Landing × List Handle) × Machine Code
  | guestMethod i name _, m =>
    match m.startCall i (·.takeMethodCall name) with
    | (.error fault, m) => (.inl (.error fault), m)
    | (.ok landing, m) => (.inr landing, m)
  | guestSub i target _, m =>
    match m.startCall i (·.takeSubCall target) with
    | (.error fault, m) => (.inl (.error fault), m)
    | (.ok landing, m) => (.inr landing, m)
  | method b name invocant positional named, m =>
    match m.startAcross b (World.prepareMethod b invocant positional named)
      (·.takeMethodCall name) ("method " ++ name) with
    | (.error e, m) => (.inl (.error e), m)
    | (.ok landing, m) => (.inr landing, m)
  | sub b target _ positional named, m =>
    match m.startAcross b (World.prepareSub b positional named)
      (·.takeSubCall target) ("sub " ++ target.text) with
    | (.error e, m) => (.inl (.error e), m)
    | (.ok landing, m) => (.inr landing, m)

/-- The part of a call after its sub has run. -/
def finish : (c : Call) → Landing → Except Fault (List Handle) → Machine Code →
    c.Reply × Machine Code
  | guestMethod i _ mode, l, outcome, m => m.endCall i mode l outcome
  | guestSub i _ mode, l, outcome, m => m.endCall i mode l outcome
  | method b name _ _ _, l, outcome, m => m.endAcross b .list ("method " ++ name) l outcome
  | sub b target mode _ _, l, outcome, m => m.endAcross b mode ("sub " ++ target.text) l outcome

/-- A call runs the sub it finds once, between its two other parts. -/
theorem perform_eq (invoke : Invoke Code) (c : Call) (m : Machine Code) :
    c.perform invoke m =
      match c.start m with
      | (.inl reply, m) => some (reply, m)
      | (.inr (l, args), m) =>
        (invoke c.interpreter l.closure args m).map fun ended => c.finish l ended.1 ended.2 := by
  cases c with
  | guestMethod i name mode =>
    rw [perform, Machine.call_eq, start]
    rcases m.startCall i _ with ⟨_ | _, _⟩ <;> rfl
  | guestSub i target mode =>
    rw [perform, Machine.call_eq, start]
    rcases m.startCall i _ with ⟨_ | _, _⟩ <;> rfl
  | method b name invocant positional named =>
    rw [perform, Machine.callAcross_eq, start]
    rcases m.startAcross b _ _ _ with ⟨_ | _, _⟩ <;> rfl
  | sub b target mode positional named =>
    rw [perform, Machine.callAcross_eq, start]
    rcases m.startAcross b _ _ _ with ⟨_ | _, _⟩ <;> rfl

end Call

/-- The routine of a sub on its arguments. A closure without code is a sub that fails. -/
def Machine.bodyOf (m : Machine Code) (closure : ObjectId) : Code := fun i args =>
  match m.code? closure with
  | some code => code i args
  | none => .finish (.error .notCallable)

/-! ## States -/

/-- A call that waits for its sub, and how the routine that made it goes on. -/
structure Frame where
  call : Call
  landing : Landing
  next : call.Reply → Routine

/-- A routine that is running, the calls that wait for it, innermost first, and the machine. -/
structure State where
  routine : Routine
  frames : List Frame := []
  machine : Machine Code := {}

namespace State

/-- Starts the sub of a call, or goes on with the answer of a call that ended before. -/
def enter (c : Call) (next : c.Reply → Routine) (frames : List Frame) :
    (c.Reply ⊕ Landing × List Handle) × Machine Code → State
  | (.inl reply, machine) => { routine := next reply, frames, machine }
  | (.inr (landing, args), machine) =>
    { routine := machine.bodyOf landing.closure c.interpreter args
      frames := { call := c, landing, next } :: frames
      machine }

/-- One operation, one call entered, or one call left. A state at the end of the outermost routine
has no step. -/
def step : State → Option State
  | { routine := .finish _, frames := [], .. } => none
  | { routine := .finish outcome, frames := f :: frames, machine } =>
    let (reply, machine) := f.call.finish f.landing outcome machine
    some { routine := f.next reply, frames, machine }
  | { routine := .act o next, frames, machine } =>
    let (reply, machine) := machine.onWorld o.perform
    some { routine := next reply, frames, machine }
  | { routine := .look next, frames, machine } =>
    some { routine := next machine.world, frames, machine }
  | { routine := .call c next, frames, machine } => some (enter c next frames (c.start machine))
  | { routine := .closure captured code next, frames, machine } =>
    let (id, world) := machine.world.newClosure machine.code.size captured
    some { routine := next id, frames, machine := { world, code := machine.code.push code } }

/-- One state follows another after so many steps. -/
def Reaches : Nat → State → State → Prop
  | 0, s, t => s = t
  | n + 1, s, t => ∃ s', s.step = some s' ∧ Reaches n s' t

theorem Reaches.trans {s t u : State} {n k : Nat} (hfirst : Reaches n s t)
    (hnext : Reaches k t u) : Reaches (n + k) s u := by
  induction n generalizing s with
  | zero =>
    rw [Nat.zero_add]
    exact hfirst ▸ hnext
  | succ n ih =>
    obtain ⟨s', hstep, hrest⟩ := hfirst
    rw [Nat.succ_add]
    exact ⟨s', hstep, ih hrest⟩

/-- What a state reaches, unless it is the state itself, its successor reaches. -/
theorem Reaches.of_step {s t u : State} {n : Nat} (hreach : Reaches n s u)
    (hstep : s.step = some t) (hne : s ≠ u) : ∃ k, n = k + 1 ∧ Reaches k t u := by
  cases n with
  | zero => exact absurd hreach hne
  | succ k =>
    obtain ⟨s', hs', hrest⟩ := hreach
    rw [hstep, Option.some.injEq] at hs'
    exact ⟨k, rfl, hs' ▸ hrest⟩

end State

/-! ## Both ways of running agree -/

section Agree

open State

theorem Machine.invoke_succ (d : Nat) (i : InterpreterId) (closure : ObjectId)
    (args : List Handle) (m : Machine Code) :
    Machine.invoke (d + 1) i closure args m = (m.bodyOf closure i args).run (invoke d) m := by
  rw [Machine.invoke, Machine.bodyOf]
  cases m.code? closure <;> rfl

theorem Routine.run_call (invoke : Invoke Code) (c : Call) (next : c.Reply → Routine)
    (m : Machine Code) :
    (Routine.call c next).run invoke m =
      match c.start m with
      | (.inl reply, m) => (next reply).run invoke m
      | (.inr (l, args), m) =>
        (invoke c.interpreter l.closure args m).bind fun ended =>
          (next (c.finish l ended.1 ended.2).1).run invoke (c.finish l ended.1 ended.2).2 := by
  rw [run, Call.perform_eq]
  rcases c.start m with ⟨reply | ⟨l, args⟩, m₁⟩
  · rfl
  · dsimp only
    cases invoke c.interpreter l.closure args m₁ <;> rfl

/-- The calls of a routine may be answered by anything that answers as much. -/
theorem Routine.run_of_le {invoke invoke' : Invoke Code}
    (hle : ∀ i closure args m ended, invoke i closure args m = some ended →
      invoke' i closure args m = some ended)
    {r : Routine} {m : Machine Code} {ended : Except Fault (List Handle) × Machine Code}
    (hrun : r.run invoke m = some ended) : r.run invoke' m = some ended := by
  induction r generalizing m with
  | finish outcome => exact hrun
  | act o next ih => exact ih _ hrun
  | look next ih => exact ih _ hrun
  | closure captured code next ihcode ih => exact ih _ hrun
  | call c next ih =>
    rw [run_call] at hrun ⊢
    split at hrun
    · exact ih _ hrun
    · obtain ⟨body, hbody, hnext⟩ := Option.bind_eq_some_iff.1 hrun
      exact Option.bind_eq_some_iff.2 ⟨body, hle _ _ _ _ _ hbody, ih _ hnext⟩

theorem Machine.invoke_mono {d d' : Nat} (hle : d ≤ d') :
    ∀ i closure args m ended, Machine.invoke d i closure args m = some ended →
      Machine.invoke d' i closure args m = some ended := by
  induction d generalizing d' with
  | zero => exact fun _ _ _ _ _ hnone => by simp [Machine.invoke] at hnone
  | succ d ih =>
    intro i closure args m ended hrun
    obtain ⟨d', rfl⟩ : ∃ k, d' = k + 1 := ⟨d' - 1, by omega⟩
    rw [Machine.invoke_succ] at hrun ⊢
    exact Routine.run_of_le (ih (by omega)) hrun

/-- What runs with some nesting allowed runs in the same way with more. -/
theorem Machine.run_mono {r : Routine} {m : Machine Code} {d d' : Nat} (hle : d ≤ d')
    {ended : Except Fault (List Handle) × Machine Code} (hrun : m.run d r = some ended) :
    m.run d' r = some ended :=
  Routine.run_of_le (Machine.invoke_mono hle) hrun

/-- If the subs it calls are run step by step, so is a routine. The frames below it are left alone.
-/
theorem reaches_of_run_of_invoke {invoke : Invoke Code}
    (hinvoke : ∀ i closure args m outcome m' frames,
      invoke i closure args m = some (outcome, m') →
      ∃ n, Reaches n ⟨m.bodyOf closure i args, frames, m⟩ ⟨.finish outcome, frames, m'⟩)
    {r : Routine} {m m' : Machine Code} {frames : List Frame}
    {outcome : Except Fault (List Handle)} (hrun : r.run invoke m = some (outcome, m')) :
    ∃ n, Reaches n ⟨r, frames, m⟩ ⟨.finish outcome, frames, m'⟩ := by
  induction r generalizing m with
  | finish outcome' =>
    rw [Routine.run, Option.some.injEq, Prod.mk.injEq] at hrun
    obtain ⟨rfl, rfl⟩ := hrun
    exact ⟨0, rfl⟩
  | act o next ih =>
    obtain ⟨n, hn⟩ := ih _ hrun
    exact ⟨n + 1, _, rfl, hn⟩
  | look next ih =>
    obtain ⟨n, hn⟩ := ih _ hrun
    exact ⟨n + 1, _, rfl, hn⟩
  | closure captured code next ihcode ih =>
    obtain ⟨n, hn⟩ := ih _ hrun
    exact ⟨n + 1, _, rfl, hn⟩
  | call c next ih =>
    rw [Routine.run_call] at hrun
    split at hrun
    · rename_i reply m₁ hstart
      obtain ⟨n, hn⟩ := ih _ hrun
      exact ⟨n + 1, _, by rw [State.step, hstart]; rfl, hn⟩
    · rename_i l args m₁ hstart
      -- the steps of the sub run above the frame of the call
      obtain ⟨⟨inner, m₂⟩, hbody, hnext⟩ := Option.bind_eq_some_iff.1 hrun
      obtain ⟨n, hn⟩ := hinvoke _ _ _ _ _ _ (⟨c, l, next⟩ :: frames) hbody
      obtain ⟨k, hk⟩ := ih _ hnext
      refine ⟨n + (k + 1) + 1, _, by rw [State.step, hstart]; rfl, hn.trans ⟨_, ?_, hk⟩⟩
      rfl

theorem reaches_of_run {d : Nat} {r : Routine} {m m' : Machine Code} {frames : List Frame}
    {outcome : Except Fault (List Handle)} (hrun : m.run d r = some (outcome, m')) :
    ∃ n, Reaches n ⟨r, frames, m⟩ ⟨.finish outcome, frames, m'⟩ := by
  induction d generalizing r m m' frames outcome with
  | zero =>
    refine reaches_of_run_of_invoke ?_ hrun
    intro i closure args m outcome m' frames hnone
    simp [Machine.invoke] at hnone
  | succ d ih =>
    refine reaches_of_run_of_invoke ?_ hrun
    intro i closure args m outcome m' frames hbody
    rw [Machine.invoke_succ] at hbody
    exact ih hbody

/-- A routine whose steps come to the end of the outermost routine ends itself on the way. -/
theorem run_of_reaches {n : Nat} {r : Routine} {frames : List Frame} {m m' : Machine Code}
    {outcome : Except Fault (List Handle)}
    (hreach : Reaches n ⟨r, frames, m⟩ ⟨.finish outcome, [], m'⟩) :
    ∃ d inner m₁ k, m.run d r = some (inner, m₁) ∧ k ≤ n ∧
      Reaches k ⟨.finish inner, frames, m₁⟩ ⟨.finish outcome, [], m'⟩ := by
  induction n using Nat.strongRecOn generalizing r frames m with
  | ind n ih =>
    cases r with
    | finish inner => exact ⟨0, inner, m, n, rfl, Nat.le_refl n, hreach⟩
    | act | look | closure =>
      obtain ⟨k, rfl, hrest⟩ := hreach.of_step rfl nofun
      obtain ⟨d, inner, m₁, j, hrun, hle, hj⟩ := ih k (Nat.lt_succ_self k) hrest
      exact ⟨d, inner, m₁, j, hrun, by omega, hj⟩
    | call c next =>
      obtain ⟨k, rfl, hrest⟩ := hreach.of_step rfl nofun
      rcases hstart : c.start m with ⟨reply | ⟨l, args⟩, m₂⟩
      · rw [hstart] at hrest
        obtain ⟨d, inner, m₁, j, hrun, hle, hj⟩ := ih k (Nat.lt_succ_self k) hrest
        refine ⟨d, inner, m₁, j, ?_, by omega, hj⟩
        rw [Machine.run, Routine.run_call, hstart]
        exact hrun
      · rw [hstart] at hrest
        -- the sub ends on the way, then the call is left, and then the routine ends
        obtain ⟨d₁, inner₁, m₃, j₁, hrun₁, hle₁, hj₁⟩ := ih k (Nat.lt_succ_self k) hrest
        obtain ⟨j₂, rfl, hj₂⟩ := hj₁.of_step rfl nofun
        obtain ⟨d₂, inner, m₁, j, hrun₂, hle₂, hj⟩ := ih j₂ (by omega) hj₂
        refine ⟨max d₁ d₂ + 1, inner, m₁, j, ?_, by omega, hj⟩
        rw [Machine.run, Routine.run_call, hstart]
        refine Option.bind_eq_some_iff.2 ⟨(inner₁, m₃), ?_, ?_⟩
        · rw [Machine.invoke_succ]
          exact Machine.run_mono (Nat.le_max_left d₁ d₂) hrun₁
        · exact Machine.run_mono (by omega) hrun₂

/-- A routine runs to an end if and only if its steps lead there. -/
theorem run_iff_reaches (r : Routine) (m m' : Machine Code)
    (outcome : Except Fault (List Handle)) :
    (∃ d, m.run d r = some (outcome, m')) ↔
      ∃ n, Reaches n { routine := r, machine := m }
        { routine := .finish outcome, machine := m' } := by
  constructor
  · rintro ⟨d, hrun⟩
    exact reaches_of_run hrun
  · rintro ⟨n, hreach⟩
    obtain ⟨d, inner, m₁, k, hrun, -, hk⟩ := run_of_reaches hreach
    refine ⟨d, ?_⟩
    -- the end of the outermost routine has no step
    cases k with
    | zero =>
      rw [Reaches, State.mk.injEq, Routine.finish.injEq] at hk
      obtain ⟨rfl, -, rfl⟩ := hk
      exact hrun
    | succ k =>
      obtain ⟨s', hs', -⟩ := hk
      simp [State.step] at hs'

end Agree

end GuestBridge
