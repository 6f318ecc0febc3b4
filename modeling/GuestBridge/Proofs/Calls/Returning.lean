import GuestBridge.Host.Continuation
import Mathlib.Data.List.Basic

/-!
# Returning through a continuation

The continuation of a caller is kept in the frame of the call that it was handed to, and can be used
at any time. It names where to resume, but not the frame that it comes from: returning through it
takes the innermost frame off the chain, whichever that is by then.

* `CallContext.frames_after` — as long as a frame is not left, it stays where it is, with the frames
  below it
* `CallContext.returnThrough_caller` — returning through the continuation of a frame resumes at its
  address and leaves the frames below exactly if no other frame lies on top
* `CallContext.caller_leaves_frame` — with a frame on top, that one is left and the frame of the
  continuation stays
-/

namespace GuestBridge.CallContext

variable {ctx : CallContext} {frame : CallFrame} {above below chain : List CallFrame} {n : Nat}

/-! ## Acts -/

/-- One thing done to a chain of calls. -/
inductive Act where
  | enter (sub : String) (caller : Continuation)
  | leave
  | await (pending : Pending)
  | returnThrough (c : Continuation) (next : Address)
  | resume (next : Address)
  deriving DecidableEq, Repr

/-- The chain after an act. -/
def act (ctx : CallContext) : Act → CallContext
  | .enter sub caller => ctx.enter sub caller
  | .leave => ctx.leave.2
  | .await pending => ctx.withPending pending
  | .returnThrough c next => (ctx.returnThrough c next).2
  | .resume next => (ctx.resume next).2

/-- The chain after some acts, first to last. -/
def after (ctx : CallContext) (acts : List Act) : CallContext := acts.foldl act ctx

/-- More than `n` calls are active all along some acts, so that of the calls that are active at the
outset the `n + 1` outermost are not left. -/
def StaysOver (n : Nat) : CallContext → List Act → Prop
  | ctx, [] => n < ctx.depth
  | ctx, a :: rest => n < ctx.depth ∧ StaysOver n (ctx.act a) rest

instance StaysOver.decide (n : Nat) :
    (ctx : CallContext) → (acts : List Act) → Decidable (StaysOver n ctx acts)
  | _, [] => inferInstanceAs (Decidable (_ < _))
  | ctx, a :: rest =>
    have := StaysOver.decide n (ctx.act a) rest
    inferInstanceAs (Decidable (_ ∧ _))

theorem StaysOver.head {acts : List Act} (hstays : StaysOver n ctx acts) : n < ctx.depth := by
  cases acts with
  | nil => exact hstays
  | cons a rest => exact hstays.1

/-! ## Frames that stay -/

theorem frames_resume (ctx : CallContext) (next : Address) :
    (ctx.resume next).2.frames = ctx.frames ∨ (ctx.resume next).2.frames = ctx.frames.tail := by
  unfold resume
  split
  · split
    · exact .inr rfl
    · exact .inl rfl
  · exact .inl rfl

/-- An act puts one frame on the chain, takes one off, or leaves it as it is. -/
theorem frames_act (ctx : CallContext) (a : Act) :
    (∃ frame, (ctx.act a).frames = frame :: ctx.frames) ∨ (ctx.act a).frames = ctx.frames ∨
      (ctx.act a).frames = ctx.frames.tail := by
  cases a with
  | enter sub caller => exact .inl ⟨⟨sub, caller⟩, rfl⟩
  | leave => exact .inr (.inr rfl)
  | await pending => exact .inr (.inl rfl)
  | returnThrough c next => exact .inr (.inr rfl)
  | resume next => exact .inr (ctx.frames_resume next)

/-- An act after which there are as many frames as before at least leaves these where they are. -/
theorem frames_act_over (hframes : ctx.frames = above ++ chain) {a : Act}
    (hdeep : chain.length ≤ (ctx.act a).depth) :
    ∃ above', (ctx.act a).frames = above' ++ chain := by
  rcases ctx.frames_act a with ⟨frame, hact⟩ | hact | hact
  · exact ⟨frame :: above, by rw [hact, hframes, List.cons_append]⟩
  · exact ⟨above, by rw [hact, hframes]⟩
  · cases above with
    | nil =>
      have hlength : (ctx.act a).depth = chain.length - 1 := by
        rw [depth, hact, hframes, List.nil_append, List.length_tail]
      have hchain : chain = [] := List.eq_nil_of_length_eq_zero (by omega)
      exact ⟨(ctx.act a).frames, by rw [hchain, List.append_nil]⟩
    | cons frame above => exact ⟨above, by rw [hact, hframes, List.cons_append, List.tail_cons]⟩

/-- A frame that is not left stays on the chain with the frames below it. -/
theorem frames_after {acts : List Act} (hframes : ctx.frames = above ++ frame :: below)
    (hstays : StaysOver below.length ctx acts) :
    ∃ above', (ctx.after acts).frames = above' ++ frame :: below := by
  induction acts generalizing ctx above with
  | nil => exact ⟨above, hframes⟩
  | cons a rest ih =>
    obtain ⟨above', hact⟩ := frames_act_over hframes hstays.2.head
    exact ih hact hstays.2

/-! ## Returning -/

/-- The continuation of a caller resumes at its address, or at the next instruction if it names
none, and takes the innermost frame off. That leaves the frames below its own one exactly if as many
calls are active as when its own frame was innermost. -/
theorem returnThrough_caller (hframes : ctx.frames = frame :: below) {acts : List Act}
    (hstays : StaysOver below.length ctx acts) (next : Address) :
    ctx.caller? = some frame.caller ∧
      ((ctx.after acts).returnThrough frame.caller next).1 = frame.caller.resume.getD next ∧
      (∃ above, (ctx.after acts).frames = above ++ frame :: below ∧
        ((ctx.after acts).returnThrough frame.caller next).2.frames =
          (above ++ frame :: below).tail) ∧
      (((ctx.after acts).returnThrough frame.caller next).2.frames = below ↔
        (ctx.after acts).depth = ctx.depth) := by
  have hinnermost : ctx.frames = [] ++ frame :: below := hframes
  obtain ⟨above, habove⟩ := frames_after hinnermost hstays
  have hpopped : ((ctx.after acts).returnThrough frame.caller next).2.frames =
      (above ++ frame :: below).tail := by rw [frames_returnThrough, habove]
  refine ⟨by rw [caller?, hframes]; rfl, rfl, ⟨above, habove, hpopped⟩, ?_⟩
  rw [hpopped, depth, depth, habove, hframes]
  cases above with
  | nil => simp
  | cons top above =>
    -- the frame of the continuation is still there, so there are too many on either side
    constructor
    · intro hbelow
      have hlength := congrArg List.length hbelow
      simp only [List.cons_append, List.tail_cons, List.length_append, List.length_cons] at hlength
      omega
    · intro hlength
      simp only [List.length_append, List.length_cons] at hlength
      omega

/-- With a call left open and another entered and left, the frame stays; with both left, it goes. -/
theorem returnThrough_caller_open :
    let main : CallFrame := ⟨"main", { label := "toplevel", resume := some ⟨4⟩ }⟩
    let outer : CallFrame := ⟨"outer", { label := "main" }⟩
    let ctx : CallContext := { frames := [outer, main] }
    let acts : List Act := [.enter "inner" { label := "outer", resume := some ⟨12⟩ },
      .await .needed, .enter "leaf" { label := "inner" }, .leave]
    ((ctx.after acts).returnThrough outer.caller ⟨99⟩).1 = ⟨99⟩ ∧
      ((ctx.after acts).returnThrough outer.caller ⟨99⟩).2.frames ≠ [main] ∧
      ((ctx.after (acts ++ [.resume ⟨7⟩, .leave])).returnThrough outer.caller ⟨99⟩).2.frames =
        [main] := by
  intro main outer ctx acts
  have hframes : ctx.frames = outer :: [main] := rfl
  have hstays : StaysOver [main].length ctx acts := by decide
  have hstays' : StaysOver [main].length ctx (acts ++ [.resume ⟨7⟩, .leave]) := by decide
  obtain ⟨-, hresume, -, hopen⟩ := returnThrough_caller hframes hstays ⟨99⟩
  obtain ⟨-, -, -, hleft⟩ := returnThrough_caller hframes hstays' ⟨99⟩
  exact ⟨hresume, mt hopen.1 (by decide), hleft.2 (by decide)⟩

/-- Returning through the continuation of the outer one of two calls leaves the inner one. The outer
one, with nothing below it, is still on the chain. -/
theorem caller_leaves_frame :
    let main : Continuation := { label := "main", resume := some ⟨4⟩ }
    let ctx : CallContext := enter {} "outer" main
    let inner := ctx.enter "inner" { label := "outer", resume := some ⟨12⟩ }
    ctx.caller? = some main ∧ (inner.returnThrough main ⟨99⟩).1 = ⟨4⟩ ∧
      (inner.returnThrough main ⟨99⟩).2.frames = [⟨"outer", main⟩] ∧
      (inner.returnThrough main ⟨99⟩).2.frames ≠ [] := by
  decide

end GuestBridge.CallContext
