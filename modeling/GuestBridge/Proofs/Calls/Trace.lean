import GuestBridge.Proofs.Calls.Acts
import GuestBridge.Proofs.Calls.Dispatch

/-!
# What a run does to the stacks

Each operation, each call entered and each call left does a list of acts to the stack of the
interpreter that it runs on, and nothing to other stacks. `Op.acts`, `Call.startActs` and
`Call.finishActs` say which, and `State.acts` which ones the next step of a run does.

`State.actsAlong` lists the acts of a whole run; they lead from the stack in the first state to the
one in the last (`stack_reaches`).
-/

namespace GuestBridge

open ArgumentStack (Act)

/-! ## Interpreters -/

namespace Interpreter

theorem stack_pushTemporary (it : Interpreter) (h : Handle) :
    ∃ hs, (it.pushTemporary h).2.stack = it.stack.pass hs := by
  unfold pushTemporary ifLive
  split
  · exact ⟨[h], it.stack.push_addTemporary h⟩
  · exact ⟨[], it.stack.pass_nil.symm⟩

theorem stack_keepEach (hs : List Handle) (it : Interpreter) :
    ∃ kept, (keepEach hs it).2.stack = it.stack.pass kept := by
  induction hs generalizing it with
  | nil => exact ⟨[], it.stack.pass_nil.symm⟩
  | cons h rest ih =>
    obtain ⟨first, hfirst⟩ := it.stack_pushTemporary h
    obtain ⟨others, hothers⟩ := ih (it.pushTemporary h).2
    refine ⟨first ++ others, ?_⟩
    rw [keepEach_cons_snd, hothers, hfirst, ArgumentStack.pass_pass]

/-- Settling results pushes those that are kept. -/
theorem stack_settle (it : Interpreter) (mode : Mode) (results : List Handle) :
    ∃ kept, (it.settle mode results).2.stack = it.stack.pass kept := by
  rw [settle_snd]
  split
  · exact stack_keepEach _ (it.create .undef).2
  · exact stack_keepEach _ (it.onHeap (·.unshareEach (mode.split results).1)).2

end Interpreter

/-- A value is popped, or the stack stays as it is. -/
theorem ArgumentStack.pop_cases (s : ArgumentStack) :
    s.pop.2 = s ∨ s.height = s.pop.2.height + 1 := by
  unfold pop
  split
  · rename_i h hback
    split
    · exact .inl rfl
    · obtain ⟨below, hvalues⟩ := Array.back?_eq_some_iff.1 hback
      refine .inr ?_
      rw [height, height, hvalues, Array.pop_push, Array.size_push]
  · exact .inl rfl

/-! ## Acts on one interpreter -/

namespace World

variable {w w₁ w₂ : World} {i j : InterpreterId} {acts more : List Act}

/-- Every stack is the same. -/
def SameStacks (w w₁ : World) : Prop :=
  ∀ j, (w₁.interpreter j).stack = (w.interpreter j).stack

theorem SameStacks.refl (w : World) : SameStacks w w := fun _ => rfl

theorem SameStacks.trans (hfirst : SameStacks w w₁) (hnext : SameStacks w₁ w₂) :
    SameStacks w w₂ := fun j => (hnext j).trans (hfirst j)

/-- From one world to another these acts have been done to the stack of one interpreter, and nothing
to other stacks. -/
def Acts (i : InterpreterId) (acts : List Act) (w w₁ : World) : Prop :=
  ∀ j, (w₁.interpreter j).stack =
    if i = j then (w.interpreter j).stack.after acts else (w.interpreter j).stack

theorem SameStacks.no_acts (hsame : SameStacks w w₁) (i : InterpreterId) : Acts i [] w w₁ := by
  intro j
  rw [hsame j, ArgumentStack.after_nil, ite_self]

theorem Acts.trans (hfirst : Acts i acts w w₁) (hnext : Acts i more w₁ w₂) :
    Acts i (acts ++ more) w w₂ := by
  intro j
  rw [hnext j, hfirst j]
  split
  · rw [ArgumentStack.after_append]
  · rfl

theorem Acts.same (hfirst : Acts i acts w w₁) (hsame : SameStacks w₁ w₂) : Acts i acts w w₂ :=
  fun j => (hsame j).trans (hfirst j)

theorem acts_setInterpreter {it : Interpreter}
    (hit : it.stack = (w.interpreter i).stack.after acts) : Acts i acts w (w.setInterpreter i it) := by
  intro j
  rw [interpreter_setInterpreter]
  split
  · rename_i hij
    rw [hit, hij]
  · rfl

theorem acts_guest {f : Interpreter → α × Interpreter}
    (hf : (f (w.interpreter i)).2.stack = (w.interpreter i).stack.after acts) :
    Acts i acts w (w.guest i f).2 :=
  (acts_setInterpreter hf).same (w.recedes_guest i f).stack

/-- An operation that leaves the stack of its interpreter alone. -/
theorem sameStacks_guest {f : Interpreter → α × Interpreter}
    (hf : (f (w.interpreter i)).2.stack = (w.interpreter i).stack) :
    SameStacks w (w.guest i f).2 := by
  intro j
  have hacts : Acts i [] w (w.guest i f).2 := acts_guest hf
  rw [hacts j, ArgumentStack.after_nil, ite_self]

theorem sameStacks_onHeap (w : World) (i : InterpreterId) (f : Heap → α × Heap) :
    SameStacks w (w.guest i (·.onHeap f)).2 := sameStacks_guest rfl

theorem sameStacks_release (steps : List ReleaseStep) (w : World) :
    SameStacks w (w.release steps) := (recedes_release steps w).stack

theorem sameStacks_reportEach (es : List Event) (w : World) : SameStacks w (w.reportEach es) := by
  unfold reportEach
  induction es generalizing w with
  | nil => exact .refl w
  | cons e rest ih => exact ih (w.report e)

theorem sameStacks_tally (w : World) (b : Bridge) (kind : EventKind) (detail : String)
    (result : Except CrossingError α) : SameStacks w (w.tally b kind detail result) := by
  cases result <;> exact fun _ => rfl

theorem sameStacks_convert (w : World) (i : InterpreterId) (config : Config) (v : Value) :
    SameStacks w (w.convert i config v).2 := w.sameStacks_onHeap i _

theorem sameStacks_wrapScalar (w : World) (i : InterpreterId) (h : Handle) :
    SameStacks w (w.wrapScalar i h).2 := by
  have hshare : SameStacks w (w.guest i (·.share h)).2 := w.sameStacks_onHeap i _
  unfold wrapScalar
  split <;> (rename_i heq; rw [heq] at hshare; exact hshare)

/-- Host objects are on no stack, so a relation that holds wherever all stacks are the same is kept
when they are handled. -/
theorem hostClosed_of_sameStacks {R : World → World → Prop}
    (hsame : ∀ {w w₁}, SameStacks w w₁ → R w w₁)
    (htrans : ∀ {w w₁ w₂}, R w w₁ → R w₁ w₂ → R w w₂) : HostClosed R where
  refl := fun w => hsame (.refl w)
  trans := htrans
  dropObjects := fun w _ => hsame (sameStacks_release _ w)
  retainValues := fun _ _ => hsame fun _ => rfl
  setItems := fun _ _ _ => hsame fun _ => rfl
  setEntries := fun _ _ _ => hsame fun _ => rfl
  addObject := fun _ _ _ => hsame fun _ => rfl

theorem hostClosed_sameStacks : HostClosed SameStacks := hostClosed_of_sameStacks id .trans

theorem sameStacks_resume (w : World) (b : Bridge) (ctx : CallContext) (next : Address) :
    SameStacks w (w.resume b ctx next).2 := by
  unfold resume
  dsimp only
  split
  · split <;> exact fun _ => rfl
  · exact fun _ => rfl

/-! ## Arguments and results -/

/-- Some scalars have been pushed as temporaries, and nothing else has been done to a stack. -/
def Pushes (i : InterpreterId) (w w₁ : World) : Prop :=
  ∃ hs, Acts i (ArgumentStack.passing hs) w w₁

theorem SameStacks.pushes (hsame : SameStacks w w₁) (i : InterpreterId) : Pushes i w w₁ :=
  ⟨[], hsame.no_acts i⟩

theorem Pushes.trans (hfirst : Pushes i w w₁) (hnext : Pushes i w₁ w₂) : Pushes i w w₂ := by
  obtain ⟨hs, hacts⟩ := hfirst
  obtain ⟨hs', hacts'⟩ := hnext
  refine ⟨hs ++ hs', ?_⟩
  rw [ArgumentStack.passing, List.flatMap_append]
  exact hacts.trans hacts'

theorem Pushes.same (hfirst : Pushes i w w₁) (hsame : SameStacks w₁ w₂) : Pushes i w w₂ :=
  hfirst.trans (hsame.pushes i)

/-- The scalars that have been pushed from one world to another, if that is all that has been done
to the stack. -/
def pushed (w w₁ : World) (i : InterpreterId) : List Handle :=
  ((w₁.interpreter i).stack.temps.extract (w.interpreter i).stack.temps.size).toList

theorem Pushes.acts_passing (hpushes : Pushes i w w₁) :
    Acts i (ArgumentStack.passing (w.pushed w₁ i)) w w₁ := by
  obtain ⟨hs, hacts⟩ := hpushes
  have hstack := hacts i
  rw [if_pos rfl, ArgumentStack.after_passing] at hstack
  rw [pushed, hstack, ArgumentStack.extract_temps_pass]
  exact hacts

/-- An operation that pushes scalars as temporaries. -/
theorem pushes_guest {f : Interpreter → α × Interpreter}
    (hf : ∃ hs, (f (w.interpreter i)).2.stack = (w.interpreter i).stack.pass hs) :
    Pushes i w (w.guest i f).2 := by
  obtain ⟨hs, hstack⟩ := hf
  exact ⟨hs, acts_guest (by rw [hstack, ArgumentStack.after_passing])⟩

theorem pushes_pushTemporary (w : World) (i : InterpreterId) (h : Handle) :
    Pushes i w (w.pushTemporary i h).2 := by
  rw [pushTemporary_snd]
  exact pushes_guest ((w.interpreter i).stack_pushTemporary h)

theorem hostClosed_pushes (i : InterpreterId) : HostClosed (Pushes i) :=
  hostClosed_of_sameStacks (·.pushes i) .trans

/-- Converting, making and sharing a scalar are matters of the heap. -/
theorem argumentClosed_pushes (i : InterpreterId) : ArgumentClosed i (Pushes i) :=
  (hostClosed_pushes i).arguments (fun w config v => (w.sameStacks_convert i config v).pushes i)
    (fun w _ => (w.sameStacks_onHeap i _).pushes i) (fun w _ => (w.sameStacks_onHeap i _).pushes i)
    fun w h => w.pushes_pushTemporary i h

theorem pushes_passArguments (w : World) (b : Bridge) (positional named : ObjectId) :
    Pushes b.interpreter w (w.passArguments b positional named).2 :=
  ((argumentClosed_pushes b.interpreter).pushAll w b.config positional named).same
    (sameStacks_tally _ b _ _ _)

/-- A preparation of a call pushes its arguments and does nothing else to a stack. -/
def Prepares (b : Bridge) (prepare : World → (Except CrossingError Unit × List ObjectId) × World) :
    Prop := ∀ w, Pushes b.interpreter w (prepare w).2

theorem prepares_sub (b : Bridge) (positional named : ObjectId) :
    Prepares b (prepareSub b positional named) :=
  (argumentClosed_pushes b.interpreter).prepareSub positional named

theorem prepares_method (b : Bridge) (invocant : Invocant) (positional named : ObjectId) :
    Prepares b (prepareMethod b invocant positional named) :=
  (argumentClosed_pushes b.interpreter).prepareMethod invocant positional named

theorem pushes_settle (w : World) (i : InterpreterId) (mode : Mode) (results : List Handle) :
    Pushes i w (w.guest i (·.settle mode results)).2 :=
  pushes_guest ((w.interpreter i).stack_settle mode results)

/-- Some values have been popped, and nothing else has been done to a stack. -/
def Pops (i : InterpreterId) (w w₁ : World) : Prop :=
  ∃ n, Acts i (List.replicate n .pop) w w₁ ∧
    (w.interpreter i).stack.height = (w₁.interpreter i).stack.height + n

theorem SameStacks.pops (hsame : SameStacks w w₁) (i : InterpreterId) : Pops i w w₁ :=
  ⟨0, hsame.no_acts i, by rw [hsame i, Nat.add_zero]⟩

theorem Pops.trans (hfirst : Pops i w w₁) (hnext : Pops i w₁ w₂) : Pops i w w₂ := by
  obtain ⟨n, hacts, hheight⟩ := hfirst
  obtain ⟨m, hacts', hheight'⟩ := hnext
  refine ⟨n + m, ?_, by omega⟩
  rw [← List.replicate_append_replicate]
  exact hacts.trans hacts'

theorem Pops.acts_replicate (hpops : Pops i w w₁) :
    Acts i (List.replicate
      ((w.interpreter i).stack.height - (w₁.interpreter i).stack.height) .pop) w w₁ := by
  obtain ⟨n, hacts, hheight⟩ := hpops
  rw [hheight, Nat.add_sub_cancel_left]
  exact hacts

theorem pops_pop (w : World) (i : InterpreterId) : Pops i w (w.guest i (·.pop)).2 := by
  have hacts : Acts i [.pop] w (w.guest i (·.pop)).2 := acts_guest rfl
  rcases (w.interpreter i).stack.pop_cases with hsame | hheight
  · exact (sameStacks_guest hsame).pops i
  · refine ⟨1, hacts, ?_⟩
    rw [stack_guest]
    exact hheight

theorem pops_boxResults (w : World) (i : InterpreterId) (count : Nat) :
    Pops i w (w.boxResults i count).2 :=
  (hostClosed_of_sameStacks (·.pops i) .trans).boxResults (·.pops_pop i)
    (fun w h => (w.sameStacks_wrapScalar i h).pops i) w count

theorem acts_closeScope (w : World) (i : InterpreterId) (depth : Nat) :
    Acts i [.closeScope depth] w (w.closeScope i depth) := by
  have hclose : Acts i [.closeScope depth] w
      (w.setInterpreter i ((w.interpreter i).closeScope depth).2) := acts_setInterpreter rfl
  unfold closeScope
  rw [onInterpreter_eq]
  exact hclose.same ((sameStacks_reportEach _ _).trans (recedes_settleFreed _ i).stack)

/-- Acts on the stack of one interpreter, or on none. -/
def Does : Option (InterpreterId × List Act) → World → World → Prop
  | some (i, acts), w, w₁ => Acts i acts w w₁
  | none, w, w₁ => SameStacks w w₁

end World

/-- The acts on the stack of an interpreter. -/
def actsOn (i : InterpreterId) : Option (InterpreterId × List Act) → List Act
  | some (j, acts) => if j = i then acts else []
  | none => []

theorem World.Does.stack {w w₁ : World} {what : Option (InterpreterId × List Act)}
    (hdoes : World.Does what w w₁) (i : InterpreterId) :
    (w₁.interpreter i).stack = (w.interpreter i).stack.after (actsOn i what) := by
  cases what with
  | none => exact hdoes i
  | some what =>
    rw [hdoes i, actsOn]
    split <;> rfl

/-! ## Operations -/

namespace Op

/-- The acts that an operation does. -/
def acts (w : World) : Op → Option (InterpreterId × List Act)
  | push i h => some (i, if (w.interpreter i).heap.contains h then [.push h] else [])
  | pushTemporary i h =>
    some (i, if (w.interpreter i).heap.contains h then [.addTemporary h, .push h] else [])
  | addTemporary i h => some (i, if (w.interpreter i).heap.contains h then [.addTemporary h] else [])
  | pop i => some (i, [.pop])
  | mark i => some (i, [.mark])
  | openScope i => some (i, [.openScope])
  | closeScope i depth => some (i, [.closeScope depth])
  | passArguments b positional named =>
    some (b.interpreter,
      ArgumentStack.passing (w.pushed (w.passArguments b positional named).2 b.interpreter))
  | _ => none

theorem acts_ifLive {w : World} {i : InterpreterId} {h : Handle} {f : ArgumentStack → ArgumentStack}
    {acts : List Act}
    (hf : f (w.interpreter i).stack = (w.interpreter i).stack.after acts) :
    World.Acts i (if (w.interpreter i).heap.contains h then acts else []) w
      (w.guest i (·.ifLive h f)).2 := by
  refine World.acts_guest ?_
  unfold Interpreter.ifLive
  split
  · exact hf
  · rfl

theorem sameStacks_defineIn (i : InterpreterId) (package name : String) (closure : ObjectId)
    (w : World) : World.SameStacks w (defineIn i package name closure w) := by
  have hdefine : ∀ sub : Sub, World.SameStacks w ((w.retainObject closure).guest i fun it =>
      ((), { it with packages := it.packages.define package name sub })).2 :=
    fun sub => World.sameStacks_guest (w := w.retainObject closure) rfl
  exact (hdefine _).trans (World.sameStacks_release _ _)

open World in
theorem does_perform (o : Op) (w : World) : Does (o.acts w) w (o.perform w).2 := by
  cases o with
  | push i h => exact acts_ifLive (f := (·.push h)) rfl
  | addTemporary i h => exact acts_ifLive (f := (·.addTemporary h)) rfl
  | pushTemporary i h => exact acts_ifLive (f := fun s => (s.addTemporary h).push h) rfl
  | pop i => exact acts_guest (f := (·.pop)) rfl
  | mark i => exact acts_guest (f := fun it => ((), it.mark)) rfl
  | openScope i => exact acts_guest (f := (·.openScope)) rfl
  | closeScope i depth => exact w.acts_closeScope i depth
  | passArguments b positional named =>
    exact (w.pushes_passArguments b positional named).acts_passing
  | create i seed => exact sameStacks_guest (f := (·.create seed.body)) rfl
  | referTaking i target => exact sameStacks_guest (f := (·.referTaking target)) rfl
  | referSharing i target => exact sameStacks_guest (f := (·.referSharing target)) rfl
  | guestArrayPush i array item => exact sameStacks_guest (f := (·.arrayPush array item)) rfl
  | guestHashStore i hash key value =>
    exact sameStacks_guest (f := (·.hashStore hash key value)) rfl
  | bless i reference package => exact sameStacks_guest (f := (·.bless reference package)) rfl
  | share i h => exact sameStacks_guest (f := (·.share h)) rfl
  | unshare i h => exact sameStacks_guest (f := (·.unshare h)) rfl
  | newCode i name closure =>
    exact sameStacks_guest (w := w.retainObject closure)
      (f := (·.create (.code { name, closure }))) rfl
  | define i package name closure => exact sameStacks_defineIn i package name closure w
  | declareParents i package parents =>
    exact sameStacks_guest
      (f := fun it => ((), { it with packages := it.packages.declareParents package parents })) rfl
  | marshal b v =>
    exact (w.sameStacks_convert b.interpreter b.config v).trans (sameStacks_tally _ b _ _ _)
  | wrap b h => exact (w.sameStacks_wrapScalar b.interpreter h).trans (sameStacks_tally _ b _ _ _)
  | resume b ctx next => exact w.sameStacks_resume b ctx next
  | dropInterpreter i => exact sameStacks_release _ _
  | newArray | newHash | newObject | retain | drop | dropEach | dropObject | arrayPush
  | arrayUnshift | arrayShift | arrayGet | arrayDrain | arrayClear | arrayList | hashInsert
  | hashGet | hashDrain | unwrap => exact hostClosed_sameStacks.perform rfl w
  | newInterpreter | holdInterpreter | newCollector | remark | count | record => exact fun _ => rfl

end Op

/-! ## Calls -/

namespace Machine

variable {κ : Type} {b : Bridge} {i : InterpreterId}
variable {prepare : World → (Except CrossingError Unit × List ObjectId) × World}
variable {take : Interpreter → Except Fault (Sub × List Handle) × Interpreter}

/-- Whatever it answers, the search for the sub of a call takes the arguments off the stack. -/
def TakesArguments (take : Interpreter → Except Fault (Sub × List Handle) × Interpreter) : Prop :=
  ∀ it, (take it).2.stack = it.stack.takeArguments.2

theorem takesArguments_method (name : String) : TakesArguments (·.takeMethodCall name) :=
  fun it => congrArg Interpreter.stack (it.takeMethodCall_snd name)

theorem takesArguments_sub (target : Target) : TakesArguments (·.takeSubCall target) :=
  fun it => congrArg Interpreter.stack (it.takeSubCall_snd target)

theorem acts_startCall (htake : TakesArguments take) (i : InterpreterId) (m : Machine κ) :
    World.Acts i [.takeArguments] m.world (m.startCall i take).2.world := by
  have hacts : World.Acts i [.takeArguments] m.world (m.world.guest i take).2 :=
    World.acts_guest (htake _)
  rcases hrun : m.world.guest i take with ⟨fault | ⟨sub, args⟩, w⟩
  · rw [hrun] at hacts
    simp only [startCall, onWorld, hrun]
    exact hacts
  · rw [hrun] at hacts
    simp only [startCall, onWorld, hrun]
    exact hacts

theorem acts_opened (w : World) (i : InterpreterId) :
    World.Acts i [.openScope, .mark] w (w.opened i) := by
  have hopen : World.Acts i [.openScope] w (w.guest i (·.openScope)).2 := World.acts_guest rfl
  have hmark : World.Acts i [.mark] (w.guest i (·.openScope)).2 (w.opened i) :=
    World.acts_guest rfl
  exact hopen.trans hmark

theorem acts_openAcross (hprepare : World.Prepares b prepare) (m : Machine κ) :
    World.Acts b.interpreter (.openScope :: .mark :: ArgumentStack.passing
      (m.world.pushed (m.openAcross b prepare).2.world b.interpreter))
      m.world (m.openAcross b prepare).2.world := by
  obtain ⟨hs, hpush⟩ := hprepare (m.world.opened b.interpreter)
  rcases hready : prepare (m.world.opened b.interpreter) with ⟨⟨ready, held⟩, w⟩
  rw [openAcross_eq hready]
  rw [hready] at hpush
  have hacts := (acts_opened m.world b.interpreter).trans hpush
  have hstack := hacts b.interpreter
  rw [if_pos rfl, ArgumentStack.after_append, ArgumentStack.after_passing] at hstack
  -- opening a scope and marking the stack leave the temporaries alone
  have hpushed : m.world.pushed w b.interpreter = hs := by
    rw [World.pushed, hstack]
    exact ArgumentStack.extract_temps_pass _ hs
  rw [hpushed]
  exact hacts

theorem depth_openAcross (m : Machine κ) (b : Bridge)
    (prepare : World → (Except CrossingError Unit × List ObjectId) × World) :
    (m.openAcross b prepare).1.1 = (m.world.interpreter b.interpreter).stack.depth + 1 := by
  rcases hready : prepare (m.world.opened b.interpreter) with ⟨⟨ready, held⟩, w⟩
  rw [openAcross_eq hready]
  rfl

theorem acts_closeAcross (b : Bridge) (detail : String) (depth : Nat) (held : List ObjectId)
    (result : Except CrossingError ObjectId) (m : Machine κ) :
    World.Acts b.interpreter [.closeScope depth] m.world
      (m.closeAcross b detail depth held result).world :=
  ((m.world.acts_closeScope b.interpreter depth).same (World.sameStacks_release _ _)).same
    (World.sameStacks_tally _ b .call detail result)

/-- The acts of a call across a bridge before its sub runs. If it ends there, it closes its
scope. -/
def startAcrossActs (b : Bridge)
    (prepare : World → (Except CrossingError Unit × List ObjectId) × World)
    (take : Interpreter → Except Fault (Sub × List Handle) × Interpreter) (m : Machine κ) :
    List Act :=
  let (opened, m₁) := m.openAcross b prepare
  .openScope :: .mark :: ArgumentStack.passing (m.world.pushed m₁.world b.interpreter) ++
    match opened with
    | (depth, .error _, _) => [.closeScope depth]
    | (depth, .ok (), _) =>
      match (m₁.startCall b.interpreter take).1 with
      | .error _ => [.takeArguments, .closeScope depth]
      | .ok _ => [.takeArguments]

theorem acts_startAcross (hprepare : World.Prepares b prepare) (htake : TakesArguments take)
    (detail : String) (m : Machine κ) :
    World.Acts b.interpreter (m.startAcrossActs b prepare take) m.world
      (m.startAcross b prepare take detail).2.world := by
  have hopen := m.acts_openAcross hprepare
  rcases hopened : m.openAcross b prepare with ⟨⟨depth, e | ⟨⟩, held⟩, m₁⟩
  · rw [hopened] at hopen
    simp only [startAcrossActs, startAcross, hopened]
    exact hopen.trans (acts_closeAcross b detail depth held (.error e) m₁)
  · rw [hopened] at hopen
    have hstart := acts_startCall htake b.interpreter m₁
    rcases hfound : m₁.startCall b.interpreter take with ⟨fault | ⟨l, args⟩, m₂⟩
    · rw [hfound] at hstart
      simp only [startAcrossActs, startAcross, hopened, hfound]
      exact hopen.trans (hstart.trans
        (acts_closeAcross b detail depth held (.error (.guest fault)) m₂))
    · rw [hfound] at hstart
      simp only [startAcrossActs, startAcross, hopened, hfound]
      exact hopen.trans hstart

theorem pushes_endCall (i : InterpreterId) (mode : Mode) (l : Landing)
    (outcome : Except Fault (List Handle)) (m : Machine κ) :
    World.Pushes i m.world (m.endCall i mode l outcome).2.world := by
  cases outcome with
  | error fault => exact (World.sameStacks_release _ _).pushes i
  | ok results => exact (m.world.pushes_settle i mode results).same (World.sameStacks_release _ _)

theorem pops_boxOutcome (i : InterpreterId) (settled : Except Fault Nat) (m : Machine κ) :
    World.Pops i m.world (boxOutcome i settled m).2.world := by
  cases settled with
  | error fault => exact (World.SameStacks.refl m.world).pops i
  | ok count => exact m.world.pops_boxResults i count

/-- The acts of a guest call after its sub has run: the results that are kept are pushed. -/
def endCallActs (i : InterpreterId) (mode : Mode) (l : Landing)
    (outcome : Except Fault (List Handle)) (m : Machine κ) : List Act :=
  ArgumentStack.passing (m.world.pushed (m.endCall i mode l outcome).2.world i)

/-- The acts of a call across a bridge after its sub has run: the results are popped again, and the
scope of the call is closed. -/
def endAcrossActs (b : Bridge) (mode : Mode) (l : Landing)
    (outcome : Except Fault (List Handle)) (m : Machine κ) : List Act :=
  let (settled, m₁) := m.endCall b.interpreter mode l outcome
  let (_, m₂) := boxOutcome b.interpreter settled m₁
  m.endCallActs b.interpreter mode l outcome ++
    (List.replicate ((m₁.world.interpreter b.interpreter).stack.height
      - (m₂.world.interpreter b.interpreter).stack.height) .pop ++ [.closeScope l.depth])

theorem acts_endAcross (b : Bridge) (mode : Mode) (detail : String) (l : Landing)
    (outcome : Except Fault (List Handle)) (m : Machine κ) :
    World.Acts b.interpreter (m.endAcrossActs b mode l outcome) m.world
      (m.endAcross b mode detail l outcome).2.world := by
  have hpush := (m.pushes_endCall b.interpreter mode l outcome).acts_passing
  rcases hended : m.endCall b.interpreter mode l outcome with ⟨settled, m₁⟩
  have hpop := (pops_boxOutcome b.interpreter settled m₁).acts_replicate
  rcases hboxed : boxOutcome b.interpreter settled m₁ with ⟨result, m₂⟩
  rw [hended] at hpush
  rw [hboxed] at hpop
  simp only [endAcrossActs, endCallActs, endAcross, hended, hboxed]
  exact hpush.trans (hpop.trans (acts_closeAcross b detail l.depth l.held result m₂))

end Machine

namespace Call

/-- The acts of a call before its sub runs. -/
def startActs (m : Machine Code) : Call → List Act
  | guestMethod .. | guestSub .. => [.takeArguments]
  | method b name invocant positional named =>
    m.startAcrossActs b (World.prepareMethod b invocant positional named) (·.takeMethodCall name)
  | sub b target _ positional named =>
    m.startAcrossActs b (World.prepareSub b positional named) (·.takeSubCall target)

/-- The acts of a call after its sub has run. -/
def finishActs (l : Landing) (outcome : Except Fault (List Handle)) (m : Machine Code) :
    Call → List Act
  | guestMethod i _ mode | guestSub i _ mode => m.endCallActs i mode l outcome
  | method b .. => m.endAcrossActs b .list l outcome
  | sub b _ mode .. => m.endAcrossActs b mode l outcome

theorem acts_start (c : Call) (m : Machine Code) :
    World.Acts c.interpreter (c.startActs m) m.world (c.start m).2.world := by
  cases c with
  | guestMethod i name mode =>
    have hacts := Machine.acts_startCall (Machine.takesArguments_method name) i m
    rw [start]
    split <;> (rename_i heq; rw [heq] at hacts; exact hacts)
  | guestSub i target mode =>
    have hacts := Machine.acts_startCall (Machine.takesArguments_sub target) i m
    rw [start]
    split <;> (rename_i heq; rw [heq] at hacts; exact hacts)
  | method b name invocant positional named =>
    have hacts := m.acts_startAcross (World.prepares_method b invocant positional named)
      (Machine.takesArguments_method name) ("method " ++ name)
    rw [start]
    split <;> (rename_i heq; rw [heq] at hacts; exact hacts)
  | sub b target mode positional named =>
    have hacts := m.acts_startAcross (World.prepares_sub b positional named)
      (Machine.takesArguments_sub target) ("sub " ++ target.text)
    rw [start]
    split <;> (rename_i heq; rw [heq] at hacts; exact hacts)

theorem acts_finish (c : Call) (l : Landing) (outcome : Except Fault (List Handle))
    (m : Machine Code) :
    World.Acts c.interpreter (c.finishActs l outcome m) m.world
      (c.finish l outcome m).2.world := by
  cases c with
  | guestMethod i name mode => exact (m.pushes_endCall i mode l outcome).acts_passing
  | guestSub i target mode => exact (m.pushes_endCall i mode l outcome).acts_passing
  | method b name => exact m.acts_endAcross b .list ("method " ++ name) l outcome
  | sub b target mode => exact m.acts_endAcross b mode ("sub " ++ target.text) l outcome

end Call

/-! ## Runs -/

namespace State

/-- The acts of the next step. -/
def acts : State → Option (InterpreterId × List Act)
  | { routine := .finish _, frames := [], .. } => none
  | { routine := .finish outcome, frames := f :: _, machine } =>
    some (f.call.interpreter, f.call.finishActs f.landing outcome machine)
  | { routine := .act o _, machine, .. } => o.acts machine.world
  | { routine := .look _, .. } => none
  | { routine := .call c _, machine, .. } => some (c.interpreter, c.startActs machine)
  | { routine := .closure .., .. } => none

theorem machine_enter (c : Call) (next : c.Reply → Routine) (frames : List Frame)
    (started : (c.Reply ⊕ Landing × List Handle) × Machine Code) :
    (enter c next frames started).machine = started.2 := by
  rcases started with ⟨_ | _, _⟩ <;> rfl

theorem does_step {s t : State} (hstep : s.step = some t) :
    World.Does s.acts s.machine.world t.machine.world := by
  obtain ⟨r, frames, m⟩ := s
  cases r with
  | finish outcome =>
    cases frames with
    | nil => cases hstep
    | cons f frames =>
      cases hstep
      exact f.call.acts_finish f.landing outcome m
  | act o next =>
    cases hstep
    exact o.does_perform m.world
  | look next =>
    cases hstep
    exact World.SameStacks.refl m.world
  | call c next =>
    cases hstep
    rw [machine_enter]
    exact c.acts_start m
  | closure captured code next =>
    cases hstep
    exact fun _ => rfl

/-- The acts on the stack of an interpreter in the next so many steps. -/
def actsAlong (i : InterpreterId) : Nat → State → List Act
  | 0, _ => []
  | n + 1, s => actsOn i s.acts ++ (s.step.elim [] (actsAlong i n))

/-- The acts of a run lead from its first stack to its last one. -/
theorem stack_reaches {s t : State} {n : Nat} (hreach : Reaches n s t) (i : InterpreterId) :
    (t.machine.world.interpreter i).stack =
      (s.machine.world.interpreter i).stack.after (s.actsAlong i n) := by
  induction n generalizing s with
  | zero =>
    obtain rfl : s = t := hreach
    rfl
  | succ n ih =>
    obtain ⟨s', hstep, hrest⟩ := hreach
    rw [ih hrest, (does_step hstep).stack i, actsAlong, hstep, ArgumentStack.after_append]
    rfl

end State

end GuestBridge
