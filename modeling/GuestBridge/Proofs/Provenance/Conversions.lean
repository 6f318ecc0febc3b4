import GuestBridge.Proofs.Calls.Frames
import GuestBridge.Proofs.Cascade.Rest
import GuestBridge.Proofs.Conversion.Positions
import GuestBridge.Proofs.Conversion.Reversal
import GuestBridge.Proofs.Provenance.Boundary

/-!
# Conversions in a run

What a conversion does is stated of worlds at rest in which no stale handle in a boundary object
comes to fit a new scalar on the way. Both are so in the states of a run, whatever its routine has
done: heaps are at rest between two steps (`State.atRest_reaches`), and a handle fits again only
after its slot has been emptied `2 ^ 32` times (`World.Logged.spared`).

`State.Recorded` gathers what is known of a state together with a log of the run that has led to it,
and `World.Log.Rare` is the bound that is left: no slot has been emptied so often, nor will it be
when the operation at hand has emptied its own. A log that is short enough is within the bound
(`World.Log.rare_of_length`). Under it, in every state of every run:

* `Recorded.converted`, `Recorded.unconverted` — a conversion is faithful, or it changes nothing
* `Recorded.endsFirstBad` — its error is that of the first bad position
* `Recorded.unshare_takesBack` — it is taken back by dropping the share that it answers
* `Recorded.undone` — a call that ends before its sub is found changes nothing in the guest
* `Recorded.framed_pushAll` — the arguments of a call are laid out as their frame
-/

namespace GuestBridge

open Heap (timesEmptied)

/-- No slot of an interpreter comes to have been emptied `2 ^ 32` times when it is emptied so many
times more. -/
def World.Log.Rare (log : World.Log) (i : InterpreterId) (n : Nat) : Prop :=
  ∀ index, timesEmptied index (log i) + n < 2 ^ 32

/-- A slot is emptied at most once in each change. -/
theorem World.Log.rare_of_length {log : World.Log} {i : InterpreterId} {n : Nat}
    (hlength : (log i).length + n < 2 ^ 32) : log.Rare i n := by
  intro index
  have hle : timesEmptied index (log i) ≤ (log i).length := List.countP_le_length
  omega

namespace State

/-- A state of a run of a routine, with a log of the run. -/
structure Recorded (r : Routine) (s : State) (log : World.Log) : Prop where
  traced : Traced r s log
  logged : s.machine.world.Logged log
  atRest : s.machine.world.AtRest
  stack : ∀ i, ∃ acts, (s.machine.world.interpreter i).stack = ArgumentStack.after {} acts

variable {r : Routine} {s : State} {log : World.Log} {n : Nat}

/-- Every state of every run has one. -/
theorem exists_recorded (hreach : Reaches n { routine := r } s) : ∃ log, Recorded r s log := by
  obtain ⟨log, htraced, hlogged⟩ := Traced.start.reaches World.logged_empty hreach
  exact ⟨log, htraced, hlogged, atRest_reaches hreach World.atRest_empty,
    fun i => ⟨_, stack_reaches hreach i⟩⟩

namespace Recorded

variable {i : InterpreterId} {config : Config} {b : Bridge} {v : Value} {h : Handle}
variable {e : CrossingError} {w' : World}

theorem converted (hrec : Recorded r s log)
    (hrare : log.Rare i (s.machine.world.frees i config v))
    (hrun : s.machine.world.convert i config v = (.ok h, w')) :
    ∃ t ns, s.machine.world.Converted i config v h w' t ns :=
  World.converted (hrec.atRest i) (hrec.logged.spared config hrare) hrun

theorem unconverted (hrec : Recorded r s log)
    (hrare : log.Rare i (s.machine.world.frees i config v))
    (hrun : s.machine.world.convert i config v = (.error e, w')) :
    s.machine.world.Unconverted i config v e w' :=
  World.unconverted (hrec.atRest i) (hrec.logged.spared config hrare) hrun

theorem endsFirstBad (hrec : Recorded r s log)
    (hrare : log.Rare b.interpreter (s.machine.world.frees b.interpreter b.config v)) :
    s.machine.world.EndsFirstBad b v :=
  World.marshal_endsFirstBad (hrec.atRest b.interpreter) (hrec.logged.spared b.config hrare)

theorem unshare_takesBack (hrec : Recorded r s log)
    (hrare : log.Rare b.interpreter (s.machine.world.frees b.interpreter b.config v))
    (hrun : s.machine.world.marshal b v = (.ok h, w')) :
    ∃ w'', w'.guest b.interpreter (·.unshare h)
        = (.ok ((s.machine.world.interpreter b.interpreter).heap.shareCount h), w'') ∧
      s.machine.world.TakenBack b v w'' :=
  World.unshare_takesBack (hrec.atRest b.interpreter) (hrec.logged.spared b.config hrare) hrun

variable {positional named : ObjectId} {given outside : List ObjectId}

/-- The collections may go, and with them what is given up besides. -/
theorem undone {x : Callee} {result : Except CrossingError ObjectId} {m' : Machine Code}
    (hrec : Recorded r s log)
    (hrare : log.Rare b.interpreter
      (x.frees b positional named (s.machine.world.opened b.interpreter)))
    (hgives : s.machine.world.store.GivesUp given []) (hpositional : positional ∈ given)
    (hnamed : named ∈ given)
    (hrun : x.perform (fun _ _ _ _ => none) b positional named s.machine = some (result, m')) :
    x.Undone b positional named s.machine result m' :=
  Callee.undone (hrec.atRest b.interpreter) hgives hpositional hnamed
    (hrec.logged.spared b.config hrare) hrun

/-- The caller holds both collections, and host code holds `outside` besides. -/
theorem framed_pushAll {vs : List Value} {es : List (String × Value)}
    {result : Except CrossingError Nat} (hrec : Recorded r s log)
    (hrare : log.Rare i (s.machine.world.freesAll i config positional named))
    (hvs : s.machine.world.store.get? positional = some (.array vs))
    (hes : s.machine.world.store.get? named = some (.hash es))
    (hgives : s.machine.world.store.GivesUp given []) (hpositional : positional ∈ given)
    (hnamed : named ∈ given) (hcount : s.machine.world.Counted (named :: positional :: outside))
    (hpush : s.machine.world.pushAll i config positional named = (result, w')) :
    ∃ done hs, World.Framed i s.machine.world w' done hs ∧
      s.machine.world.FrameEnds i config positional named vs es w' result done := by
  obtain ⟨acts, hstack⟩ := hrec.stack i
  exact World.framed_pushAll (hrec.atRest i) hstack hvs hes hgives hpositional hnamed hcount
    (hrec.logged.spared config hrare) hpush

end Recorded

end State

end GuestBridge
