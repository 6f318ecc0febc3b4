import GuestBridge.Proofs.Ledger.Operations
import GuestBridge.Proofs.Steps

/-!
# The share ledger of a run

A run is lawful if callers and subs give away only shares that they hold, and turn to interpreters
that are still there. Along a lawful run the shares in the hands of callers are a list: each step
takes out what it spends and puts in what it gains.

`shares_eq_owners` is the ledger of every state of every lawful run, at any depth of calls: a scalar
has as many shares as it has owners, what has an owner is there, and no release has ever failed.
-/

namespace GuestBridge

open World

/-! ## Calls -/

namespace Machine

variable {held : Held} {w₀ : World} {m : Machine Code} {i : InterpreterId} {b : Bridge}
variable {take : Interpreter → Except Fault (Sub × List Handle) × Interpreter}

/-- The shares that a sub gives back with its results. Results that are gone have none. -/
def returned (w : World) (i : InterpreterId) : Except Fault (List Handle) → Held
  | .ok results => Held.of i (results.filter (w.interpreter i).heap.contains)
  | .error _ => []

theorem balanced_startCall (htake : ∀ it : Interpreter, it.Trades take [] [])
    (hbal : Balanced held w₀ m.world) (hi : m.world.isHeld i = true) :
    Balanced held w₀ (m.startCall i take).2.world := by
  have htaken : Balanced held w₀ (m.onWorld (·.guest i take)).2.world :=
    hbal.guestKeeping hi (htake _)
  unfold startCall
  split
  · rename_i heq
    rw [heq] at htaken
    exact htaken
  · rename_i heq
    rw [heq] at htaken
    exact htaken.retainObject _

theorem balanced_settleOutcome (mode : Mode) (outcome : Except Fault (List Handle))
    (hbal : Balanced (returned m.world i outcome ++ held) w₀ m.world)
    (hi : m.world.isHeld i = true) :
    Balanced held w₀ (settleOutcome i mode outcome m).2.world := by
  cases outcome with
  | error fault => exact hbal
  | ok results =>
    have hsettle := hbal.guestSpend hi (Interpreter.trades_settle mode results)
    exact hsettle

theorem balanced_endCall (mode : Mode) (l : Landing) (outcome : Except Fault (List Handle))
    (hbal : Balanced (returned m.world i outcome ++ held) w₀ m.world)
    (hi : m.world.isHeld i = true) :
    Balanced held w₀ (endCall i mode l outcome m).2.world :=
  (balanced_settleOutcome mode outcome hbal hi).dropObjects _

theorem world_openAcross (b : Bridge)
    (prepare : World → (Except CrossingError Unit × List ObjectId) × World) (m : Machine Code) :
    (m.openAcross b prepare).2.world =
      (prepare ((m.world.guest b.interpreter (·.openScope)).2.guest b.interpreter
        fun it => ((), it.mark)).2).2 := by
  simp only [openAcross, onWorld, update]

theorem balanced_openAcross {prepare : World → (Except CrossingError Unit × List ObjectId) × World}
    (hprepare : ∀ w, Balanced held w₀ w → Balanced held w₀ (prepare w).2)
    (hbal : Balanced held w₀ m.world) (hhost : w₀.holds.get b.interpreter.number ≠ 0) :
    Balanced held w₀ (m.openAcross b prepare).2.world := by
  have hopen := hbal.guestKeeping (hbal.isHeld_of_holds hhost) Interpreter.trades_openScope
  have hmark := hopen.guestKeeping (hopen.isHeld_of_holds hhost) Interpreter.trades_mark
  rw [world_openAcross]
  exact hprepare _ hmark

theorem balanced_closeAcross (detail : String) (depth : Nat) (objects : List ObjectId)
    (result : Except CrossingError ObjectId) (hbal : Balanced held w₀ m.world)
    (hhost : w₀.holds.get b.interpreter.number ≠ 0) :
    Balanced held w₀ (m.closeAcross b detail depth objects result).world :=
  ((hbal.closeScope (hbal.isHeld_of_holds hhost) depth).dropObjects objects).tally _ _ _

theorem balanced_startAcross
    {prepare : World → (Except CrossingError Unit × List ObjectId) × World}
    (hprepare : ∀ w, Balanced held w₀ w → Balanced held w₀ (prepare w).2)
    (htake : ∀ it : Interpreter, it.Trades take [] []) (detail : String)
    (hbal : Balanced held w₀ m.world) (hhost : w₀.holds.get b.interpreter.number ≠ 0) :
    Balanced held w₀ (m.startAcross b prepare take detail).2.world := by
  have hopen := balanced_openAcross hprepare hbal hhost
  unfold startAcross
  split
  · rename_i heq
    rw [heq] at hopen
    exact balanced_closeAcross detail _ _ _ hopen hhost
  · rename_i heq
    rw [heq] at hopen
    have hstart := balanced_startCall htake hopen (hopen.isHeld_of_holds hhost)
    split
    · rename_i heq₂
      rw [heq₂] at hstart
      exact balanced_closeAcross detail _ _ _ hstart hhost
    · rename_i heq₂
      rw [heq₂] at hstart
      exact hstart

theorem balanced_boxOutcome (settled : Except Fault Nat) (hbal : Balanced held w₀ m.world)
    (hhost : w₀.holds.get i.number ≠ 0) :
    Balanced held w₀ (boxOutcome i settled m).2.world := by
  cases settled with
  | error fault => exact hbal
  | ok count => exact hbal.boxResults hhost count

theorem balanced_endAcross (mode : Mode) (detail : String) (l : Landing)
    (outcome : Except Fault (List Handle))
    (hbal : Balanced (returned m.world b.interpreter outcome ++ held) w₀ m.world)
    (hhost : w₀.holds.get b.interpreter.number ≠ 0) :
    Balanced held w₀ (endAcross b mode detail l outcome m).2.world := by
  have hend := balanced_endCall mode l outcome hbal (hbal.isHeld_of_holds hhost)
  exact balanced_closeAcross detail _ _ _ (balanced_boxOutcome _ hend hhost) hhost

end Machine

namespace Call

variable {held : Held} {m : Machine Code}

/-- Does the call go to an interpreter that is there? -/
def allowed (w : World) : Call → Bool
  | guestMethod i _ _ | guestSub i _ _ => w.isHeld i
  | method b _ _ _ _ | sub b _ _ _ _ => w.holds.get b.interpreter.number != 0

theorem balanced_start (c : Call) (hallowed : c.allowed m.world = true)
    (hbal : Balanced held m.world m.world) :
    Balanced held m.world (c.start m).2.world := by
  cases c with
  | guestMethod i name mode =>
    have hstart := Machine.balanced_startCall (fun it => it.trades_takeMethodCall name) hbal
      hallowed
    rw [start]
    split <;> (rename_i heq; rw [heq] at hstart; exact hstart)
  | guestSub i target mode =>
    have hstart := Machine.balanced_startCall (fun it => it.trades_takeSubCall target) hbal hallowed
    rw [start]
    split <;> (rename_i heq; rw [heq] at hstart; exact hstart)
  | method b name invocant positional named =>
    have hstart := Machine.balanced_startAcross
      (fun w hbal => hbal.prepareMethod (bne_iff_ne.1 hallowed) invocant positional named)
      (fun it => it.trades_takeMethodCall name) ("method " ++ name) hbal (bne_iff_ne.1 hallowed)
    rw [start]
    split <;> (rename_i heq; rw [heq] at hstart; exact hstart)
  | sub b target mode positional named =>
    have hstart := Machine.balanced_startAcross
      (fun w hbal => hbal.prepareSub (bne_iff_ne.1 hallowed) positional named)
      (fun it => it.trades_takeSubCall target) ("sub " ++ target.text) hbal (bne_iff_ne.1 hallowed)
    rw [start]
    split <;> (rename_i heq; rw [heq] at hstart; exact hstart)

theorem balanced_finish (c : Call) (l : Landing) (outcome : Except Fault (List Handle))
    (hallowed : c.allowed m.world = true)
    (hbal : Balanced (Machine.returned m.world c.interpreter outcome ++ held) m.world m.world) :
    Balanced held m.world (c.finish l outcome m).2.world := by
  cases c with
  | guestMethod i name mode => exact Machine.balanced_endCall mode l outcome hbal hallowed
  | guestSub i target mode => exact Machine.balanced_endCall mode l outcome hbal hallowed
  | method b name invocant positional named =>
    exact Machine.balanced_endAcross .list _ l outcome hbal (bne_iff_ne.1 hallowed)
  | sub b target mode positional named =>
    exact Machine.balanced_endAcross mode _ l outcome hbal (bne_iff_ne.1 hallowed)

end Call

/-! ## Lawful runs -/

namespace State

/-- The world of a state. -/
abbrev world (s : State) : World := s.machine.world

/-- The shares that the next step takes over from callers and subs: those of its operation, or those
of the results that the innermost sub returns. -/
def spends : State → Held
  | { routine := .act o _, machine, .. } => o.spends machine.world
  | { routine := .finish outcome, frames := f :: _, machine } =>
    Machine.returned machine.world f.call.interpreter outcome
  | _ => []

/-- The shares that the next step hands out. -/
def gains : State → Held
  | { routine := .act o _, machine, .. } => o.gains (o.perform machine.world).1
  | _ => []

/-- Does the next step go to an interpreter that is there? -/
def allowed : State → Bool
  | { routine := .act o _, machine, .. } => o.allowed machine.world
  | { routine := .call c _, machine, .. } => c.allowed machine.world
  | { routine := .finish _, frames := f :: _, machine } => f.call.allowed machine.world
  | _ => true

end State

/-- The states of the lawful runs of a routine in an empty world, each with the shares that callers
and subs hold there. A step may be taken if these include what it spends. -/
inductive Lawful (r : Routine) : State → Held → Prop where
  | start : Lawful r { routine := r } []
  | step {s s' : State} {held rest : Held} : Lawful r s held → s.allowed = true →
      held.Perm (s.spends ++ rest) → s.step = some s' → Lawful r s' (s.gains ++ rest)

theorem Lawful.act {r : Routine} {o : Op} {next : o.Reply → Routine} {frames : List Frame}
    {m : Machine Code} {held : Held} (hrun : Lawful r ⟨.act o next, frames, m⟩ held)
    (hallowed : o.allowed m.world = true) (rest : Held)
    (hperm : held.Perm (o.spends m.world ++ rest)) :
    Lawful r ⟨next (o.perform m.world).1, frames, (m.onWorld o.perform).2⟩
      (o.gains (o.perform m.world).1 ++ rest) :=
  .step hrun hallowed hperm rfl

namespace State

variable {held : Held} {s s' : State}

/-- The invariant of lawful runs: the world is balanced, and no warning has been reported. -/
structure Sound (s : State) (held : Held) : Prop where
  balanced : Balanced held s.world s.world
  quiet : ∀ text, Event.warning text ∉ s.world.journal

theorem sound_start (r : Routine) : Sound { routine := r } [] where
  balanced := World.balanced_empty
  quiet := fun text => by simp

/-- A step from one balanced world to another that reports nothing. -/
theorem Sound.of_balanced {held' : Held} (hsound : s.Sound held)
    (hbal : Balanced held' s.world s'.world) : s'.Sound held' where
  balanced := hbal.rebase
  quiet := fun text => by
    rw [hbal.journal_eq]
    exact hsound.quiet text

/-- The shares in the hands of callers are counted, so their order is of no matter. -/
theorem Sound.perm {held' : Held} (hsound : s.Sound held) (hperm : held.Perm held') :
    s.Sound held' where
  balanced := hsound.balanced.perm hperm
  quiet := hsound.quiet

theorem Sound.act {o : Op} {next : o.Reply → Routine} {frames : List Frame} {m : Machine Code}
    {rest : Held} (hsound : Sound ⟨.act o next, frames, m⟩ (o.spends m.world ++ rest))
    (hallowed : o.allowed m.world = true) (r : Routine) :
    Sound ⟨r, frames, (m.onWorld o.perform).2⟩ (o.gains (o.perform m.world).1 ++ rest) := by
  have hbal : Balanced (o.spends m.world ++ rest) m.world m.world := hsound.balanced
  by_cases hkeeps : o.Keeps
  · exact hsound.of_balanced (hbal.perform hkeeps hallowed rfl)
  · cases o with
    | newInterpreter => exact ⟨hbal.newInterpreter, hsound.quiet⟩
    | holdInterpreter i => exact ⟨hbal.holdInterpreter hallowed, hsound.quiet⟩
    | dropInterpreter i =>
      obtain ⟨hdropped, hjournal⟩ := hbal.dropInterpreter (bne_iff_ne.1 hallowed)
      exact ⟨hdropped, fun text => hjournal ▸ hsound.quiet text⟩
    | remark text =>
      refine ⟨hbal.report (.remark text), ?_⟩
      intro other
      have hquiet := hsound.quiet other
      simpa [world, Machine.onWorld, Op.perform, World.report] using hquiet
    | _ => exact absurd trivial hkeeps

/-- Each step of a lawful run keeps the invariant. -/
theorem Sound.step {rest : Held} (hsound : s.Sound (s.spends ++ rest)) (hallowed : s.allowed = true)
    (hstep : s.step = some s') : s'.Sound (s.gains ++ rest) := by
  obtain ⟨r, frames, m⟩ := s
  cases r with
  | finish outcome =>
    cases frames with
    | nil => simp [State.step] at hstep
    | cons f frames =>
      rw [State.step, Option.some.injEq] at hstep
      subst hstep
      exact hsound.of_balanced (f.call.balanced_finish f.landing outcome hallowed hsound.balanced)
  | act o next =>
    rw [State.step, Option.some.injEq] at hstep
    subst hstep
    exact hsound.act hallowed _
  | look next =>
    rw [State.step, Option.some.injEq] at hstep
    subst hstep
    exact hsound.of_balanced hsound.balanced
  | call c next =>
    rw [State.step, Option.some.injEq] at hstep
    subst hstep
    have hstart := c.balanced_start hallowed hsound.balanced
    rcases hc : c.start m with ⟨reply | ⟨l, args⟩, m₁⟩
    · rw [hc] at hstart
      exact hsound.of_balanced hstart
    · rw [hc] at hstart
      exact hsound.of_balanced hstart
  | closure captured code next =>
    rw [State.step, Option.some.injEq] at hstep
    subst hstep
    exact hsound.of_balanced (hsound.balanced.newClosure m.code.size captured)

end State

theorem Lawful.sound {r : Routine} {s : State} {held : Held} (hrun : Lawful r s held) :
    s.Sound held := by
  induction hrun with
  | start => exact State.sound_start r
  | step _ hallowed hperm hstep ih => exact (ih.perm hperm).step hallowed hstep

/-- In every state of a lawful run, a scalar has as many shares as it has owners; a scalar of an
interpreter that something holds is there if and only if it has an owner; and no release of a scope
or of a boundary object has failed. -/
theorem shares_eq_owners {r : Routine} {s : State} {held : Held} (hrun : Lawful r s held) :
    (∀ i h c, (s.world.interpreter i).heap.cell? h = some c → c.shares = s.world.owners held i h) ∧
      (∀ i h, s.world.isHeld i = true →
        ((s.world.interpreter i).heap.contains h = true ↔ 0 < s.world.owners held i h)) ∧
      ∀ text, Event.warning text ∉ s.world.journal := by
  have hsound := hrun.sound
  have hcount : ∀ i h, s.world.isHeld i = true →
      (s.world.interpreter i).heap.shareCount h = s.world.owners held i h :=
    fun i h hi => hsound.balanced.shareCount_eq hi h
  refine ⟨?_, ?_, hsound.quiet⟩
  · -- an interpreter that nothing holds has no scalars
    intro i h c hc
    cases hi : s.world.isHeld i with
    | false =>
      rw [hsound.balanced.closed i hi (by simp) h] at hc
      simp at hc
    | true => rw [← hcount i h hi, Heap.shareCount_of_cell? hc]
  · intro i h hi
    rw [← hcount i h hi, Heap.contains_iff]
    cases hc : (s.world.interpreter i).heap.cell? h with
    | none => simp [Heap.shareCount_of_none hc]
    | some c =>
      have hpos := (hsound.balanced.ledger i hi).wellFormed.shares_pos h c hc
      simp [Heap.shareCount_of_cell? hc, hpos]

/-- A scalar with an owner of each kind: a boundary object, a reference, a temporary, and the
caller. -/
def fourOwners : Routine :=
  .act .newInterpreter fun i => .act (.create i (.int 7)) fun h =>
    .act (.wrap { interpreter := i, collector := ⟨0⟩ } h) fun _ =>
      .act (.referSharing i h) fun _ => .act (.share i h) fun _ =>
        .act (.addTemporary i h) fun _ => .finish (.ok [])

theorem shares_eq_owners_fourOwners : ∃ s held, Lawful fourOwners s held ∧
    (s.world.interpreter ⟨1⟩).heap.cell? ⟨0, 0⟩ = some { shares := 4, body := .int 7 } ∧
      s.world.owners held ⟨1⟩ ⟨0, 0⟩ = 4 := by
  have h₁ := (Lawful.start (r := fourOwners)).act rfl [] (by decide +kernel)
  have h₂ := h₁.act (by decide +kernel) [] (by decide +kernel)
  have h₃ := h₂.act (by decide +kernel) [(⟨1⟩, ⟨0, 0⟩)] (by decide +kernel)
  have h₄ := h₃.act (by decide +kernel) [(⟨1⟩, ⟨0, 0⟩)] (by decide +kernel)
  have h₅ := h₄.act (by decide +kernel) [(⟨1⟩, ⟨1, 0⟩), (⟨1⟩, ⟨0, 0⟩)] (by decide +kernel)
  have h₆ := h₅.act (by decide +kernel) [(⟨1⟩, ⟨1, 0⟩), (⟨1⟩, ⟨0, 0⟩)] (by decide +kernel)
  refine ⟨_, _, h₆, by decide +kernel, ?_⟩
  exact ((shares_eq_owners h₆).1 ⟨1⟩ ⟨0, 0⟩ { shares := 4, body := .int 7 }
    (by decide +kernel)).symm

end GuestBridge
