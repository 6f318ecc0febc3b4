import GuestBridge.Proofs.Calls.Marks
import GuestBridge.Proofs.Ledger.Runs

/-!
# Stale results

A sub may return handles of scalars that are gone. The call then fails with the fault of the first
of them, whichever results its mode keeps, and only after all results have been settled: the results
that are there have given back the shares that they came with (`Balanced.settle_stale`).

Some of them may have been pushed before. The scope of the call is still open then, and closing it
cuts temporaries, marks and scopes back to the same heights as if nothing had been pushed
(`Underlies.closeScope_pass`). With the values it is so unless the sub has popped what its caller
had pushed: then the results lie where the caller's values were, and they stay
(`popping_leaves_result`).
-/

namespace GuestBridge

/-! ## Settling -/

namespace Interpreter

variable {it : Interpreter} {owed : Handle → Nat} {results : List Handle} {k : Handle}

/-- The faults of the results that are kept are the stale ones, in order. -/
theorem keepEach_fst (hs : List Handle) (it : Interpreter) :
    (keepEach hs it).1 = (hs.filter fun h => !it.heap.contains h).map Handle.stale := by
  induction hs generalizing it with
  | nil => rfl
  | cons h rest ih =>
    by_cases hlive : it.heap.contains h = true
    · rw [keepEach_of_live hlive, ih, List.filter_cons_of_neg (by simp [hlive])]
    · rw [keepEach_of_stale hlive, ih, List.filter_cons_of_pos (by simp [hlive]), List.map_cons]

/-- Settling reports the first fault of the drops, or else of the results that are kept. -/
theorem settle_fst (it : Interpreter) (mode : Mode) (hne : results ≠ []) :
    (it.settle mode results).1 =
      match (it.heap.unshareEach (mode.split results).1).1 ++
        (keepEach (mode.split results).2
          (it.onHeap (·.unshareEach (mode.split results).1)).2).1 with
      | fault :: _ => .error fault
      | [] => .ok (mode.split results).2.length := by
  unfold settle
  cases mode with
  | scalar =>
    cases results with
    | nil => exact absurd rfl hne
    | cons r rest =>
      dsimp only
      split <;> (rename_i heq; rw [onHeap] at heq; rw [onHeap, heq])
  | void | list =>
    dsimp only
    split <;> (rename_i heq; rw [onHeap] at heq; rw [onHeap, heq])

/-- The results that are there have a share each. If others are stale, the first of these is
reported, whichever the mode keeps. -/
theorem Balanced.settle_stale
    (hbal : it.Balanced fun k => owed k + (results.filter it.heap.contains).count k)
    (hfirst : results.find? (fun h => !it.heap.contains h) = some k) (mode : Mode) :
    (it.settle mode results).1 = .error k.stale := by
  have hne : results ≠ [] := by
    rintro rfl
    cases hfirst
  have hsplit := hbal
  rw [← mode.split_append results] at hsplit
  obtain ⟨hdropped, -, hkept⟩ := hsplit.dropGiven fun _ _ => rfl
  have hkeep : ((mode.split results).2.filter fun h =>
      !(it.onHeap (·.unshareEach (mode.split results).1)).2.heap.contains h)
        = (mode.split results).2.filter fun h => !it.heap.contains h :=
    List.filter_congr fun h hh => by rw [hkept h hh]
  rw [← List.head?_filter] at hfirst
  obtain ⟨rest, hstale⟩ := List.head?_eq_some_iff.1 hfirst
  rw [settle_fst it mode hne, hdropped, keepEach_fst, hkeep, ← List.map_append,
    ← List.filter_append, mode.split_append, hstale]
  rfl

end Interpreter

/-! ## Closing the scope -/

/-- Scalars that are pushed as temporaries while a scope is open are gone when it has been closed.
Only values can stay, if the stack had gone below the floor of the scope. -/
theorem ArgumentStack.Underlies.closeScope_pass {s s₁ : ArgumentStack}
    (hunder : s.openScope.Underlies s₁) (hs : List Handle) :
    ((s₁.pass hs).closeScope (s.depth + 1)).2.marks = (s₁.closeScope (s.depth + 1)).2.marks ∧
      ((s₁.pass hs).closeScope (s.depth + 1)).2.temps = (s₁.closeScope (s.depth + 1)).2.temps ∧
      ((s₁.pass hs).closeScope (s.depth + 1)).2.scopes = (s₁.closeScope (s.depth + 1)).2.scopes ∧
      (s.height ≤ s₁.height →
        ((s₁.pass hs).closeScope (s.depth + 1)).2 = (s₁.closeScope (s.depth + 1)).2) := by
  obtain ⟨more, hmore⟩ := hunder.temps
  obtain ⟨inner, hinner, habove⟩ := hunder.scopes
  obtain ⟨n, k, hn, hcut⟩ :=
    closeDownTo_cut ⟨s.height, s.temps.size, s.marks.size⟩ s.scopes inner habove
  have hopen : s₁.scopes = inner ++ ⟨s.height, s.temps.size, s.marks.size⟩ :: s.scopes := hinner
  have hsize : s.temps.size ≤ s₁.temps.size := by
    rw [hmore, Array.size_append]
    exact Nat.le_add_right _ _
  have htemps : (s₁.temps ++ hs.toArray).shrink s.temps.size = s₁.temps.shrink s.temps.size := by
    simp [Array.shrink_eq_take, Nat.sub_eq_zero_of_le hsize]
  rw [closeScope, closeScope, show (s₁.pass hs).scopes = s₁.scopes from rfl, hopen, depth, hcut,
    hcut]
  refine ⟨rfl, htemps, rfl, fun hheight => ?_⟩
  have hvalues : (s₁.values ++ hs.toArray).shrink n = s₁.values.shrink n := by
    have hle : n ≤ s₁.values.size := Nat.le_trans hn hheight
    simp [Array.shrink_eq_take, Nat.sub_eq_zero_of_le hle]
  simp only [pass, hvalues, htemps]

/-! ## The call -/

namespace Machine

variable {κ : Type} {m m₁ m₂ : Machine κ} {b : Bridge} {l : Landing} {mode : Mode}
variable {detail : String} {fault : Fault} {outcome : Except Fault (List Handle)}

/-- A call whose results cannot be settled ends with the fault and closes its scope. -/
theorem endAcross_of_fault (hsettle : settleOutcome b.interpreter mode outcome m
      = (.error fault, m₁)) :
    m.endAcross b mode detail l outcome = (.error (.guest fault),
      (m₁.update (·.dropObjects [l.closure])).closeAcross b detail l.depth l.held
        (.error (.guest fault))) := by
  rw [endAcross, endCall, hsettle]
  rfl

/-- The stack in the end is what closing the scope leaves of the one that settling leaves. -/
theorem stack_endAcross_of_fault (hsettle : settleOutcome b.interpreter mode outcome m
      = (.error fault, m₁)) :
    ((m.endAcross b mode detail l outcome).2.world.interpreter b.interpreter).stack
      = ((m₁.world.interpreter b.interpreter).stack.closeScope l.depth).2 := by
  have hclose := acts_closeAcross b detail l.depth l.held (.error (.guest fault))
    (m₁.update (·.dropObjects [l.closure])) b.interpreter
  have hdrop := World.sameStacks_release [.holder l.closure] m₁.world b.interpreter
  rw [endAcross_of_fault hsettle, hclose, if_pos rfl]
  exact congrArg (fun s : ArgumentStack => (s.closeScope l.depth).2) hdrop

end Machine

namespace Callee

variable {b : Bridge} {positional named : ObjectId}

theorem prepares (x : Callee) (b : Bridge) (positional named : ObjectId) :
    World.Prepares b (x.prepare b positional named) := by
  cases x with
  | method name invocant => exact World.prepares_method b invocant positional named
  | sub target mode => exact World.prepares_sub b positional named

theorem takesArguments (x : Callee) : Machine.TakesArguments x.take := by
  cases x with
  | method name invocant => exact Machine.takesArguments_method name
  | sub target mode => exact Machine.takesArguments_sub target

/-- When the sub of a call starts, the scope of the call is open. -/
theorem underlies_startAcross {κ : Type} {x : Callee} {m m₁ : Machine κ} {l : Landing}
    {args : List Handle}
    (hstart : m.startAcross b (x.prepare b positional named) x.take x.detail
      = (.ok (l, args), m₁)) :
    l.depth = (m.world.interpreter b.interpreter).stack.depth + 1 ∧
      (m.world.interpreter b.interpreter).stack.openScope.Underlies
        (m₁.world.interpreter b.interpreter).stack := by
  obtain ⟨hdepth, inner, hinner, hacts⟩ :=
    Machine.startAcrossActs_of_ok (congrArg Prod.fst hstart)
  have hstack := m.acts_startAcross (x.prepares b positional named) x.takesArguments x.detail
    b.interpreter
  rw [if_pos rfl, hacts, ArgumentStack.after_cons, hstart] at hstack
  refine ⟨hdepth, ?_⟩
  rw [hstack]
  exact ArgumentStack.Underlies.after (.refl _) fun d hd => absurd hd (hinner d)

end Callee

/-- A call whose results cannot be settled fails, and closes its scope on the stack that is there
then. -/
theorem Callee.perform_of_fault {κ : Type} {x : Callee} {b : Bridge} {positional named : ObjectId}
    {m m₁ m₂ m₃ : Machine κ} {l : Landing} {args : List Handle}
    {outcome : Except Fault (List Handle)} {fault : Fault} (invoke : Invoke κ)
    (hstart : m.startAcross b (x.prepare b positional named) x.take x.detail
      = (.ok (l, args), m₁))
    (hbody : invoke b.interpreter l.closure args m₁ = some (outcome, m₂))
    (hsettle : Machine.settleOutcome b.interpreter x.mode outcome m₂ = (.error fault, m₃)) :
    x.perform invoke b positional named m
        = some (.error (.guest fault), (m₂.endAcross b x.mode x.detail l outcome).2) ∧
      ((m₂.endAcross b x.mode x.detail l outcome).2.world.interpreter b.interpreter).stack
        = ((m₃.world.interpreter b.interpreter).stack.closeScope
          ((m.world.interpreter b.interpreter).stack.depth + 1)).2 := by
  refine ⟨?_, ?_⟩
  · rw [Callee.perform_eq, Machine.callAcross_eq, hstart]
    dsimp only
    rw [hbody, Option.map_some, Machine.endAcross_of_fault hsettle]
  · rw [Machine.stack_endAcross_of_fault hsettle, (Callee.underlies_startAcross hstart).1]

/-- The sub of a call runs with the scope of the call open, and leaves it open. -/
theorem Callee.underlies_body {x : Callee} {b : Bridge} {positional named : ObjectId} {d : Nat}
    {m m₁ m₂ : Machine Code} {l : Landing} {args : List Handle}
    {outcome : Except Fault (List Handle)} (hcode : m.Guarded)
    (hstart : m.startAcross b (x.prepare b positional named) x.take x.detail
      = (.ok (l, args), m₁))
    (hbody : Machine.invoke d b.interpreter l.closure args m₁ = some (outcome, m₂)) :
    (m.world.interpreter b.interpreter).stack.openScope.Underlies
      (m₂.world.interpreter b.interpreter).stack := by
  have hcodes := m.code_startAcross b (x.prepare b positional named) x.take x.detail
  rw [hstart] at hcodes
  exact (Callee.underlies_startAcross hstart).2.trans
    ((Machine.underlies_invoke (hcode.of_code hcodes) hbody).2 b.interpreter)

/-- Results that are there have a share each, and others are stale. Then settling them reports the
first that is stale. -/
theorem World.Balanced.settleOutcome_stale {κ : Type} {i : InterpreterId} {held : Held} {w₀ : World}
    {m : Machine κ} {results : List Handle} {k : Handle}
    (hbal : Balanced (Held.of i (results.filter (m.world.interpreter i).heap.contains) ++ held) w₀
      m.world)
    (hi : m.world.isHeld i = true)
    (hfirst : results.find? (fun h => !(m.world.interpreter i).heap.contains h) = some k)
    (mode : Mode) :
    ∃ m₁ kept, Machine.settleOutcome i mode (.ok results) m = (.error k.stale, m₁) ∧
      (m₁.world.interpreter i).stack = (m.world.interpreter i).stack.pass kept := by
  have hledger : (m.world.interpreter i).Balanced fun h =>
      (held.count (i, h) + m.world.store.wrappers i h)
        + (results.filter (m.world.interpreter i).heap.contains).count h :=
    (hbal.ledger i hi).congr fun h => by
      rw [Held.count_append_self]
      omega
  have hreply := (m.world.guest_fst i (·.settle mode results)).trans
    (hledger.settle_stale hfirst mode)
  obtain ⟨kept, hkept⟩ := (m.world.interpreter i).stack_settle mode results
  exact ⟨(m.onWorld (·.guest i (·.settle mode results))).2, kept, Prod.ext hreply rfl,
    (m.world.stack_guest i (·.settle mode results)).trans hkept⟩

/-- A sub returns results of which some are stale, and those that are there have a share each. The
call fails with the fault of the first stale one, and the shares of the others are gone: a scalar
has as many shares as it has owners, none of which is a result, and is there if and only if it has
one.
Marks, temporaries and scopes are those of a call whose sub has failed instead, in the same world.
So are the values, unless the sub has popped values of its caller. -/
theorem call_stale_results {x : Callee} {b : Bridge} {positional named : ObjectId} {d : Nat}
    {m m₁ m₂ : Machine Code} {l : Landing} {args results : List Handle} {held : Held} {k : Handle}
    (hcode : m.Guarded)
    (hstart : m.startAcross b (x.prepare b positional named) x.take x.detail
      = (.ok (l, args), m₁))
    (hbody : Machine.invoke d b.interpreter l.closure args m₁ = some (.ok results, m₂))
    (hhost : m₂.world.holds.get b.interpreter.number ≠ 0)
    (hbal : World.Balanced (Held.of b.interpreter
      (results.filter (m₂.world.interpreter b.interpreter).heap.contains) ++ held) m₂.world
      m₂.world)
    (hfirst : results.find? (fun h => !(m₂.world.interpreter b.interpreter).heap.contains h)
      = some k) (fault : Fault) :
    ∃ m' failed : Machine Code,
      x.perform (Machine.invoke d) b positional named m = some (.error (.guest k.stale), m') ∧
      x.perform (fun _ _ _ _ => some (.error fault, m₂)) b positional named m
        = some (.error (.guest fault), failed) ∧
      World.Balanced held m₂.world m'.world ∧
      (∀ h, (m'.world.interpreter b.interpreter).heap.shareCount h
        = m'.world.owners held b.interpreter h) ∧
      (∀ h, (m'.world.interpreter b.interpreter).heap.contains h = true ↔
        0 < m'.world.owners held b.interpreter h) ∧
      (m'.world.interpreter b.interpreter).stack.marks
        = (failed.world.interpreter b.interpreter).stack.marks ∧
      (m'.world.interpreter b.interpreter).stack.temps
        = (failed.world.interpreter b.interpreter).stack.temps ∧
      (m'.world.interpreter b.interpreter).stack.scopes
        = (failed.world.interpreter b.interpreter).stack.scopes ∧
      ((m.world.interpreter b.interpreter).stack.height
          ≤ (m₂.world.interpreter b.interpreter).stack.height →
        (m'.world.interpreter b.interpreter).stack
          = (failed.world.interpreter b.interpreter).stack) := by
  obtain ⟨m₃, kept, hsettle, hkept⟩ :=
    hbal.settleOutcome_stale (hbal.isHeld_of_holds hhost) hfirst x.mode
  have hfail : Machine.settleOutcome b.interpreter x.mode (.error fault) m₂ = (.error fault, m₂) :=
    rfl
  obtain ⟨hperform, hstack⟩ := Callee.perform_of_fault _ hstart hbody hsettle
  obtain ⟨hfailed, hstack'⟩ :=
    Callee.perform_of_fault (fun _ _ _ _ => some (.error fault, m₂)) hstart rfl hfail
  -- the scope of the call is open all the time, so closing it takes back what has been pushed
  obtain ⟨hmarks, htemps, hscopes, hall⟩ :=
    (Callee.underlies_body hcode hstart hbody).closeScope_pass kept
  rw [← hkept, ← hstack, ← hstack'] at hmarks htemps hscopes hall
  have hended := Machine.balanced_endAcross x.mode x.detail l (.ok results) hbal hhost
  have hi := hended.isHeld_of_holds hhost
  exact ⟨_, _, hperform, hfailed, hended, hended.shareCount_eq hi, hended.contains_iff_owned hi,
    hmarks, htemps, hscopes, hall⟩

/-- A sub that returns a new number and a handle that fits nothing. -/
def halfAnswer : Code := fun i _ => .act (.create i (.int 6)) fun r => .finish (.ok [r, ⟨9, 0⟩])

/-- The world of `greeting` with this sub. -/
def halfGreeting : Machine Code := { world := greeting, code := #[halfAnswer] }

/-- The machine on which it starts. -/
def halfGreeted : Machine Code := halfGreeting.entered greetingBridge ⟨1⟩ ⟨2⟩ greet

theorem guarded_halfGreeting : halfGreeting.Guarded := by
  intro code hmem i args
  obtain rfl : code = halfAnswer := by simpa [halfGreeting] using hmem
  simp [halfAnswer, Routine.Guarded, Op.Within]

/-- The number is gone when the call has failed. -/
theorem call_stale_results_halfGreeting : ∃ m',
    greet.perform (Machine.invoke 1) greetingBridge ⟨1⟩ ⟨2⟩ halfGreeting
        = some (.error (.guest (Handle.stale ⟨9, 0⟩)), m') ∧
      (∀ h, (m'.world.interpreter ⟨1⟩).heap.contains h = true ↔ 0 < m'.world.owners [] ⟨1⟩ h) := by
  have hstart : halfGreeting.startAcross greetingBridge (greet.prepare greetingBridge ⟨1⟩ ⟨2⟩)
      greet.take greet.detail = (.ok ({ closure := ⟨0⟩, depth := 1 },
        [⟨0, 0⟩, ⟨1, 0⟩, ⟨2, 0⟩, ⟨3, 0⟩]), halfGreeted) := Prod.ext (by cbv) rfl
  have hbalanced : World.Balanced [] greeting halfGreeted.world :=
    Machine.balanced_startAcross (m := halfGreeting)
      (fun w hbal => hbal.prepareMethod (by decide +kernel) (.namespace "Greeter") ⟨1⟩ ⟨2⟩)
      (fun it => it.trades_takeMethodCall "greet") "method greet" balanced_greeting
      (by decide +kernel)
  have hgain : World.Balanced (Held.of ⟨1⟩ [((halfGreeted.world.interpreter ⟨1⟩).create (.int 6)).1]
      ++ []) greeting (halfGreeted.world.guest ⟨1⟩ (·.create (.int 6))).2 :=
    hbalanced.guestGain (hbalanced.isHeld_of_holds (by decide +kernel))
      (Interpreter.trades_create (.int 6))
  have hnew : ((halfGreeted.world.interpreter ⟨1⟩).create (.int 6)).1 = ⟨4, 0⟩ := by decide +kernel
  have hcode : halfGreeted.code = #[halfAnswer] := halfGreeting.code_startAcross _ _ _ _
  have hclosure : halfGreeted.world.store.get? ⟨0⟩ = some (.closure 0 []) := by decide +kernel
  have hbody : Machine.invoke 1 ⟨1⟩ ⟨0⟩ [⟨0, 0⟩, ⟨1, 0⟩, ⟨2, 0⟩, ⟨3, 0⟩] halfGreeted =
      some (.ok [⟨4, 0⟩, ⟨9, 0⟩],
        { halfGreeted with world := (halfGreeted.world.guest ⟨1⟩ (·.create (.int 6))).2 }) := by
    rw [Machine.invoke_succ, Machine.bodyOf, Machine.code?, hclosure, hcode, ← hnew,
      ← World.guest_fst halfGreeted.world ⟨1⟩ (·.create (.int 6))]
    rfl
  have hlive : [⟨4, 0⟩, ⟨9, 0⟩].filter
      ((halfGreeted.world.guest ⟨1⟩ (·.create (.int 6))).2.interpreter ⟨1⟩).heap.contains
        = [((halfGreeted.world.interpreter ⟨1⟩).create (.int 6)).1] := by decide +kernel
  rw [← hlive] at hgain
  obtain ⟨m', -, hperform, -, -, -, hcontains, -⟩ :=
    call_stale_results guarded_halfGreeting hstart hbody (by decide +kernel) hgain.rebase
      (k := ⟨9, 0⟩) (by decide +kernel) (.died "gone")
  exact ⟨m', hperform, hcontains⟩

/-! ## What can stay -/

/-- A sub that pops a value of its caller before it returns like this, or before it fails. -/
def poppingFirst (outcome : Handle → Except Fault (List Handle)) : Code := fun i _ =>
  .act (.pop i) fun _ => .act (.create i (.int 6)) fun r => .finish (outcome r)

/-- The result that was there lies where the value of the caller was, and it is gone. If the sub
fails instead, nothing lies there. -/
theorem popping_leaves_result :
    (callSub.perform (Machine.invoke 1) (oneSub (poppingFirst fun r => .ok [r, ⟨9, 0⟩]))).map
        (fun ended => ((ended.1 : Except CrossingError ObjectId),
          (ended.2.world.interpreter ⟨1⟩).stack.values,
          (ended.2.world.interpreter ⟨1⟩).heap.contains ⟨2, 0⟩))
        = some (.error (.guest (Handle.stale ⟨9, 0⟩)), #[⟨2, 0⟩], false) ∧
      (callSub.perform (Machine.invoke 1)
          (oneSub (poppingFirst fun _ => .error (Handle.stale ⟨9, 0⟩)))).map
        (fun ended => (ended.2.world.interpreter ⟨1⟩).stack.values) = some #[] := by
  decide +kernel

end GuestBridge
