import GuestBridge.Proofs.Calls.Trace

/-!
# A call and its scope

A call across a bridge opens a scope and closes it again, and what happens in between is a run of
some other code. If this code closes only scopes that it has opened itself (`Routine.Guarded`), the
scopes and temporaries from before the call lie under all that it does (`Machine.underlies_invoke`),
so nothing of the call is left behind (`call_clears`).

The scope does not keep what is under it from being taken away. The mark of the call is gone before
the sub runs, so the sub can pop what its caller has pushed, and closing the scope cuts the stack
back but does not put anything on it (`popping_takes_value`). Values and marks are the same if
nothing goes below the height at which the call was made (`call_restores`).
-/

namespace GuestBridge

open ArgumentStack (Act)

/-! ## Guards -/

/-- The guard of a scope, which an operation hands out when it opens one. -/
def Op.guards : (o : Op) → o.Reply → List (InterpreterId × Nat)
  | openScope i, depth => [(i, depth)]
  | _, _ => []

/-- An operation closes a scope only with its guard. -/
def Op.Within (guards : List (InterpreterId × Nat)) : Op → Prop
  | closeScope i depth => (i, depth) ∈ guards
  | _ => True

/-- A routine closes a scope only with a guard that it holds or with one that it gets. The code of
the closures that it makes holds none to begin with. -/
def Routine.Guarded : Routine → List (InterpreterId × Nat) → Prop
  | finish _, _ => True
  | act o next, guards =>
    o.Within guards ∧ ∀ reply, (next reply).Guarded (o.guards reply ++ guards)
  | look next, guards => ∀ w, (next w).Guarded guards
  | call _ next, guards => ∀ reply, (next reply).Guarded guards
  | closure _ code next, guards =>
    (∀ i args, (code i args).Guarded []) ∧ ∀ id, (next id).Guarded guards

/-- No code of a machine holds the guard of a scope that has been opened outside of it. -/
def Machine.Guarded (m : Machine Code) : Prop :=
  ∀ code ∈ m.code, ∀ i args, (code i args).Guarded []

theorem Machine.Guarded.of_code {m m' : Machine Code} (hguarded : m.Guarded)
    (hcode : m'.code = m.code) : m'.Guarded := by
  rw [Machine.Guarded, hcode]
  exact hguarded

theorem Machine.Guarded.bodyOf {m : Machine Code} (hguarded : m.Guarded) (closure : ObjectId)
    (i : InterpreterId) (args : List Handle) : (m.bodyOf closure i args).Guarded [] := by
  unfold Machine.bodyOf Machine.code?
  split
  · rename_i code heq
    split at heq
    · exact hguarded code (Array.mem_of_getElem? heq) i args
    · cases heq
  · trivial

/-! ## What a call does before and after its sub -/

/-- Acts among which no scope is closed. -/
def ClosesNothing (acts : List Act) : Prop := ∀ d, .closeScope d ∉ acts

namespace Machine

variable {κ : Type} {m : Machine κ} {b : Bridge}
variable {prepare : World → (Except CrossingError Unit × List ObjectId) × World}
variable {take : Interpreter → Except Fault (Sub × List Handle) × Interpreter} {detail : String}

/-- A call that ends before its sub runs closes the scope that it has opened, and no other. -/
theorem startAcrossActs_of_error {e : CrossingError}
    (hend : (m.startAcross b prepare take detail).1 = .error e) :
    ∃ inner, ClosesNothing inner ∧ m.startAcrossActs b prepare take = .openScope :: inner ++
      [.closeScope ((m.world.interpreter b.interpreter).stack.depth + 1)] := by
  have hdepth := m.depth_openAcross b prepare
  rw [← hdepth]
  rcases hopened : m.openAcross b prepare with ⟨⟨depth, e | ⟨⟩, held⟩, m₁⟩
  · simp only [startAcrossActs, hopened]
    refine ⟨[.mark] ++ ArgumentStack.passing (m.world.pushed m₁.world b.interpreter), ?_, rfl⟩
    simp [ClosesNothing]
  · simp only [startAcross, hopened] at hend
    rcases hfound : m₁.startCall b.interpreter take with ⟨fault | ⟨l, args⟩, m₂⟩
    · simp only [startAcrossActs, hopened, hfound]
      refine ⟨[.mark] ++ ArgumentStack.passing (m.world.pushed m₁.world b.interpreter)
        ++ [.takeArguments], ?_, by simp⟩
      simp [ClosesNothing]
    · rw [hfound] at hend
      cases hend

/-- A call whose sub is to run has opened a scope, and closed none. -/
theorem startAcrossActs_of_ok {l : Landing} {args : List Handle}
    (hstart : (m.startAcross b prepare take detail).1 = .ok (l, args)) :
    l.depth = (m.world.interpreter b.interpreter).stack.depth + 1 ∧
      ∃ inner, ClosesNothing inner ∧ m.startAcrossActs b prepare take = .openScope :: inner := by
  have hdepth := m.depth_openAcross b prepare
  rw [← hdepth]
  rcases hopened : m.openAcross b prepare with ⟨⟨depth, e | ⟨⟩, held⟩, m₁⟩
  · simp only [startAcross, hopened] at hstart
    cases hstart
  · simp only [startAcross, hopened] at hstart
    rcases hfound : m₁.startCall b.interpreter take with ⟨fault | ⟨l, args⟩, m₂⟩
    · rw [hfound] at hstart
      cases hstart
    · rw [hfound] at hstart
      cases hstart
      simp only [startAcrossActs, hopened, hfound]
      refine ⟨trivial, [.mark] ++ ArgumentStack.passing (m.world.pushed m₁.world b.interpreter)
        ++ [.takeArguments], ?_, by simp⟩
      simp [ClosesNothing]

/-- When its sub has run, a call closes its scope, last of all. -/
theorem endAcrossActs_eq (m : Machine κ) (b : Bridge) (mode : Mode) (l : Landing)
    (outcome : Except Fault (List Handle)) :
    ∃ inner, ClosesNothing inner ∧
      m.endAcrossActs b mode l outcome = inner ++ [.closeScope l.depth] := by
  refine ⟨_ ++ List.replicate _ .pop, ?_, (List.append_assoc _ _ _).symm⟩
  simp [ClosesNothing, endCallActs]

end Machine

namespace Call

variable {c : Call} {b : Bridge} {m m₁ : Machine Code} {l : Landing} {args : List Handle}
variable {acts : List Act} {d : Nat}

/-- The bridge that a call goes across. -/
def bridge? : Call → Option Bridge
  | method b .. | sub b .. => some b
  | guestMethod .. | guestSub .. => none

theorem interpreter_of_bridge? (hb : c.bridge? = some b) : c.interpreter = b.interpreter := by
  cases c <;> cases hb <;> rfl

theorem startActs_of_inl (hb : c.bridge? = some b) {reply : c.Reply}
    (hstart : c.start m = (.inl reply, m₁)) :
    ∃ inner, ClosesNothing inner ∧ c.startActs m = .openScope :: inner ++
      [.closeScope ((m.world.interpreter b.interpreter).stack.depth + 1)] := by
  cases c with
  | guestMethod | guestSub => cases hb
  | method b name invocant positional named =>
    cases hb
    rw [start] at hstart
    rw [startActs]
    split at hstart
    · rename_i heq
      exact Machine.startAcrossActs_of_error (by rw [heq])
    · cases hstart
  | sub b target mode positional named =>
    cases hb
    rw [start] at hstart
    rw [startActs]
    split at hstart
    · rename_i heq
      exact Machine.startAcrossActs_of_error (by rw [heq])
    · cases hstart

theorem startActs_of_inr (hb : c.bridge? = some b) (hstart : c.start m = (.inr (l, args), m₁)) :
    l.depth = (m.world.interpreter b.interpreter).stack.depth + 1 ∧
      ∃ inner, ClosesNothing inner ∧ c.startActs m = .openScope :: inner := by
  cases c with
  | guestMethod | guestSub => cases hb
  | method b name invocant positional named =>
    cases hb
    rw [start] at hstart
    rw [startActs]
    split at hstart
    · cases hstart
    · rename_i heq
      cases hstart
      exact Machine.startAcrossActs_of_ok (by rw [heq])
  | sub b target mode positional named =>
    cases hb
    rw [start] at hstart
    rw [startActs]
    split at hstart
    · cases hstart
    · rename_i heq
      cases hstart
      exact Machine.startAcrossActs_of_ok (by rw [heq])

theorem finishActs_eq (hb : c.bridge? = some b) (l : Landing)
    (outcome : Except Fault (List Handle)) (m : Machine Code) :
    ∃ inner, ClosesNothing inner ∧ c.finishActs l outcome m = inner ++ [.closeScope l.depth] := by
  cases c with
  | guestMethod | guestSub => cases hb
  | method b =>
    rw [finishActs]
    exact m.endAcrossActs_eq b .list l outcome
  | sub b target mode =>
    rw [finishActs]
    exact m.endAcrossActs_eq b mode l outcome

/-- If a call closes a scope before its sub runs, then its own. -/
theorem depth_of_mem_startActs (hmem : .closeScope d ∈ c.startActs m) :
    d = (m.world.interpreter c.interpreter).stack.depth + 1 := by
  cases hb : c.bridge? with
  | none => cases c <;> simp [bridge?, startActs] at hb hmem
  | some b =>
    rw [interpreter_of_bridge? hb]
    rcases hstart : c.start m with ⟨reply | ⟨l, args⟩, m₁⟩
    · obtain ⟨inner, hinner, hacts⟩ := startActs_of_inl hb hstart
      rw [hacts] at hmem
      simpa [hinner d] using hmem
    · obtain ⟨-, inner, hinner, hacts⟩ := startActs_of_inr hb hstart
      rw [hacts] at hmem
      simp [hinner d] at hmem

/-- After its sub has run as well. -/
theorem depth_of_mem_finishActs (hstart : c.start m = (.inr (l, args), m₁))
    {outcome : Except Fault (List Handle)} {m₂ : Machine Code}
    (hmem : .closeScope d ∈ c.finishActs l outcome m₂) :
    d = (m.world.interpreter c.interpreter).stack.depth + 1 := by
  cases hb : c.bridge? with
  | none => cases c <;> simp [bridge?, finishActs, Machine.endCallActs] at hb hmem
  | some b =>
    obtain ⟨inner, hinner, hacts⟩ := finishActs_eq hb l outcome m₂
    rw [hacts] at hmem
    rw [interpreter_of_bridge? hb, ← (startActs_of_inr hb hstart).1]
    simpa [hinner d] using hmem

end Call

/-! ## Calls add no code -/

namespace Machine

variable {κ : Type}

theorem code_startCall (i : InterpreterId)
    (take : Interpreter → Except Fault (Sub × List Handle) × Interpreter) (m : Machine κ) :
    (m.startCall i take).2.code = m.code := by
  rcases hrun : m.world.guest i take with ⟨fault | ⟨sub, args⟩, w⟩ <;>
    simp only [startCall, onWorld, hrun, update]

theorem code_startAcross (b : Bridge)
    (prepare : World → (Except CrossingError Unit × List ObjectId) × World)
    (take : Interpreter → Except Fault (Sub × List Handle) × Interpreter) (detail : String)
    (m : Machine κ) : (m.startAcross b prepare take detail).2.code = m.code := by
  rcases hready : prepare (m.world.opened b.interpreter) with ⟨⟨e | ⟨⟩, held⟩, w⟩
  · simp only [startAcross, openAcross_eq hready, closeAcross, update]
  · have hcode := code_startCall b.interpreter take { m with world := w }
    rcases hfound : ({ m with world := w } : Machine κ).startCall b.interpreter take with
      ⟨fault | ⟨l, args⟩, m₁⟩
    · rw [hfound] at hcode
      simp only [startAcross, openAcross_eq hready, hfound, closeAcross, update]
      exact hcode
    · rw [hfound] at hcode
      simp only [startAcross, openAcross_eq hready, hfound]
      exact hcode

theorem code_endCall (i : InterpreterId) (mode : Mode) (l : Landing)
    (outcome : Except Fault (List Handle)) (m : Machine κ) :
    (m.endCall i mode l outcome).2.code = m.code := by
  cases outcome <;> rfl

theorem code_endAcross (b : Bridge) (mode : Mode) (detail : String) (l : Landing)
    (outcome : Except Fault (List Handle)) (m : Machine κ) :
    (m.endAcross b mode detail l outcome).2.code = m.code := by
  have hcode := m.code_endCall b.interpreter mode l outcome
  rcases hended : m.endCall b.interpreter mode l outcome with ⟨fault | count, m₁⟩
  · rw [hended] at hcode
    simp only [endAcross, hended, boxOutcome, closeAcross, update]
    exact hcode
  · rw [hended] at hcode
    simp only [endAcross, hended, boxOutcome, onWorld, closeAcross, update]
    exact hcode

end Machine

namespace Call

theorem code_start (c : Call) (m : Machine Code) : (c.start m).2.code = m.code := by
  cases c with
  | guestMethod i name mode =>
    have hcode := m.code_startCall i (·.takeMethodCall name)
    rw [start]
    split <;> (rename_i heq; rw [heq] at hcode; exact hcode)
  | guestSub i target mode =>
    have hcode := m.code_startCall i (·.takeSubCall target)
    rw [start]
    split <;> (rename_i heq; rw [heq] at hcode; exact hcode)
  | method b name invocant positional named =>
    have hcode := m.code_startAcross b (World.prepareMethod b invocant positional named)
      (·.takeMethodCall name) ("method " ++ name)
    rw [start]
    split <;> (rename_i heq; rw [heq] at hcode; exact hcode)
  | sub b target mode positional named =>
    have hcode := m.code_startAcross b (World.prepareSub b positional named)
      (·.takeSubCall target) ("sub " ++ target.text)
    rw [start]
    split <;> (rename_i heq; rw [heq] at hcode; exact hcode)

theorem code_finish (c : Call) (l : Landing) (outcome : Except Fault (List Handle))
    (m : Machine Code) : (c.finish l outcome m).2.code = m.code := by
  cases c with
  | guestMethod i name mode => exact m.code_endCall i mode l outcome
  | guestSub i target mode => exact m.code_endCall i mode l outcome
  | method b name => exact m.code_endAcross b .list ("method " ++ name) l outcome
  | sub b target mode => exact m.code_endAcross b mode ("sub " ++ target.text) l outcome

end Call

/-! ## What lies under a run -/

namespace World

variable {w w₁ w₂ : World} {what : Option (InterpreterId × List Act)}

/-- The scopes that are open, with their temporaries, lie under those of another world. -/
def Underlies (w w₁ : World) : Prop :=
  ∀ i, (w.interpreter i).stack.Underlies (w₁.interpreter i).stack

theorem Underlies.refl (w : World) : Underlies w w := fun _ => .refl _

theorem Underlies.trans (hfirst : Underlies w w₁) (hnext : Underlies w₁ w₂) : Underlies w w₂ :=
  fun i => (hfirst i).trans (hnext i)

theorem Underlies.does (hunder : Underlies w w₁) (hdoes : Does what w₁ w₂)
    (hclose : ∀ i d, .closeScope d ∈ actsOn i what → (w.interpreter i).stack.depth < d) :
    Underlies w w₂ := by
  intro i
  rw [hdoes.stack i]
  exact (hunder i).after (hclose i)

end World

/-- Only one operation closes scopes. -/
theorem Op.eq_of_mem_acts {o : Op} {w : World} {i : InterpreterId} {d : Nat}
    (hmem : .closeScope d ∈ actsOn i (o.acts w)) : o = .closeScope i d := by
  cases o with
  | closeScope j depth =>
    simp only [acts, actsOn] at hmem
    split at hmem
    · rename_i hij
      rw [hij, Act.closeScope.inj (List.mem_singleton.1 hmem)]
    · cases hmem
  | push j h | addTemporary j h | pushTemporary j h =>
    simp only [acts, actsOn] at hmem
    split at hmem
    · split at hmem <;> simp at hmem
    · cases hmem
  | pop j | mark j | openScope j | passArguments b =>
    simp only [acts, actsOn] at hmem
    split at hmem <;> simp at hmem
  | _ => cases hmem

theorem Op.openScope_fst (w : World) (i : InterpreterId) :
    ((Op.openScope i).perform w).1 = (w.interpreter i).stack.depth + 1 :=
  congrArg Prod.fst (w.onInterpreter_eq i (·.openScope))

/-- An operation with the guards that a routine holds leaves what is below alone, and the guards
that it gets are of scopes above. -/
theorem World.Underlies.perform {o : Op} {w w₁ : World} {guards : List (InterpreterId × Nat)}
    (hunder : w.Underlies w₁) (hwithin : o.Within guards)
    (habove : ∀ g ∈ guards, (w.interpreter g.1).stack.depth < g.2) :
    w.Underlies (o.perform w₁).2 ∧
      ∀ g ∈ o.guards (o.perform w₁).1 ++ guards, (w.interpreter g.1).stack.depth < g.2 := by
  refine ⟨hunder.does (o.does_perform w₁) ?_, ?_⟩
  · intro i d hmem
    obtain rfl := Op.eq_of_mem_acts hmem
    exact habove (i, d) hwithin
  · intro g hg
    rcases List.mem_append.1 hg with hg | hg
    · cases o with
      | openScope i =>
        obtain rfl := List.mem_singleton.1 hg
        rw [Op.openScope_fst]
        exact Nat.lt_succ_of_le (hunder i).depth_le
      | _ => cases hg
    · exact habove g hg

theorem World.Underlies.start {c : Call} {w : World} {m : Machine Code}
    (hunder : w.Underlies m.world) : w.Underlies (c.start m).2.world := by
  have hdoes : World.Does (some (c.interpreter, c.startActs m)) m.world (c.start m).2.world :=
    c.acts_start m
  refine hunder.does hdoes ?_
  intro i d hmem
  rw [actsOn] at hmem
  split at hmem
  · rename_i hi
    rw [Call.depth_of_mem_startActs hmem, hi]
    exact Nat.lt_succ_of_le (hunder i).depth_le
  · cases hmem

theorem World.Underlies.finish {c : Call} {w : World} {m m₁ m₂ : Machine Code} {l : Landing}
    {args : List Handle} (hunder : w.Underlies m.world)
    (hstart : c.start m = (.inr (l, args), m₁)) (hbody : m₁.world.Underlies m₂.world)
    (outcome : Except Fault (List Handle)) : w.Underlies (c.finish l outcome m₂).2.world := by
  have hstarted := hunder.start (c := c)
  rw [hstart] at hstarted
  have hdoes : World.Does (some (c.interpreter, c.finishActs l outcome m₂)) m₂.world
      (c.finish l outcome m₂).2.world := c.acts_finish l outcome m₂
  refine (hstarted.trans hbody).does hdoes ?_
  intro i d hmem
  rw [actsOn] at hmem
  split at hmem
  · rename_i hi
    rw [Call.depth_of_mem_finishActs hstart hmem, hi]
    exact Nat.lt_succ_of_le (hunder i).depth_le
  · cases hmem

/-- The scopes of a world lie under all that a guarded routine does from there, if they do so for
the subs that it calls. -/
theorem Routine.run_underlies {invoke : Invoke Code}
    (hinvoke : ∀ {i closure args m outcome m'}, m.Guarded →
      invoke i closure args m = some (outcome, m') → m'.Guarded ∧ m.world.Underlies m'.world)
    {r : Routine} {guards : List (InterpreterId × Nat)} {w : World} {m m' : Machine Code}
    {outcome : Except Fault (List Handle)} (hguarded : r.Guarded guards) (hcode : m.Guarded)
    (hunder : w.Underlies m.world)
    (habove : ∀ g ∈ guards, (w.interpreter g.1).stack.depth < g.2)
    (hrun : r.run invoke m = some (outcome, m')) : m'.Guarded ∧ w.Underlies m'.world := by
  induction r generalizing guards m with
  | finish outcome' =>
    cases hrun
    exact ⟨hcode, hunder⟩
  | act o next ih =>
    obtain ⟨hunder', habove'⟩ := hunder.perform hguarded.1 habove
    exact ih (o.perform m.world).1 (m := (m.onWorld o.perform).2) (hguarded.2 _) hcode hunder'
      habove' hrun
  | look next ih => exact ih _ (hguarded _) hcode hunder habove hrun
  | closure captured code next ihcode ih =>
    refine ih (m.world.newClosure m.code.size captured).1
      (m := ⟨(m.world.newClosure m.code.size captured).2, m.code.push code⟩) (hguarded.2 _) ?_
      hunder habove hrun
    intro code' hmem
    rcases Array.mem_push.1 hmem with hmem | rfl
    · exact hcode code' hmem
    · exact hguarded.1
  | call c next ih =>
    rw [run_call] at hrun
    have hstarted := hunder.start (c := c)
    have hcodes := c.code_start m
    split at hrun
    · rename_i reply m₁ hstart
      rw [hstart] at hstarted hcodes
      exact ih _ (hguarded _) (hcode.of_code hcodes) hstarted habove hrun
    · rename_i l args m₁ hstart
      rw [hstart] at hcodes
      obtain ⟨⟨inner, m₂⟩, hbody, hnext⟩ := Option.bind_eq_some_iff.1 hrun
      obtain ⟨hcode₂, hbelow⟩ := hinvoke (hcode.of_code hcodes) hbody
      exact ih _ (hguarded _) (hcode₂.of_code (c.code_finish l inner m₂))
        (hunder.finish hstart hbelow inner) habove hnext

/-- The scopes that are open when a sub starts lie under all that it does. -/
theorem Machine.underlies_invoke {d : Nat} {i : InterpreterId} {closure : ObjectId}
    {args : List Handle} {m m' : Machine Code} {outcome : Except Fault (List Handle)}
    (hcode : m.Guarded) (hrun : Machine.invoke d i closure args m = some (outcome, m')) :
    m'.Guarded ∧ m.world.Underlies m'.world := by
  induction d generalizing i closure args m m' outcome with
  | zero => simp [Machine.invoke] at hrun
  | succ d ih =>
    rw [Machine.invoke_succ] at hrun
    exact Routine.run_underlies ih (hcode.bodyOf closure i args) hcode (.refl m.world) (by simp)
      hrun

/-! ## What a call leaves -/

section

variable {d : Nat} {c : Call} {b : Bridge} {m m' : Machine Code} {reply : c.Reply}

/-- Whatever happens in a call across a bridge happens in its scope. -/
theorem Call.clears (hb : c.bridge? = some b) (hcode : m.Guarded)
    (hrun : c.perform (Machine.invoke d) m = some (reply, m')) :
    (m.world.interpreter b.interpreter).stack.Clears
      (m'.world.interpreter b.interpreter).stack := by
  have hacts := c.acts_start m b.interpreter
  rw [if_pos (interpreter_of_bridge? hb)] at hacts
  rw [perform_eq] at hrun
  split at hrun
  · rename_i reply' m₁ hstart
    cases hrun
    obtain ⟨inner, hinner, hclose⟩ := startActs_of_inl hb hstart
    rw [hstart, hclose, List.cons_append, ArgumentStack.after_cons, ArgumentStack.after_append]
      at hacts
    rw [hacts]
    exact ArgumentStack.Underlies.clears
      (ArgumentStack.Underlies.after (.refl _) fun d hd => absurd hd (hinner d))
  · rename_i l args m₁ hstart
    obtain ⟨⟨outcome, m₂⟩, hbody, hfinish⟩ := Option.map_eq_some_iff.1 hrun
    obtain ⟨hdepth, inner, hinner, hopen⟩ := startActs_of_inr hb hstart
    obtain ⟨inner', hinner', hclose⟩ := finishActs_eq hb l outcome m₂
    have hcodes := c.code_start m
    have hfinished := c.acts_finish l outcome m₂ b.interpreter
    rw [hstart] at hcodes hacts
    rw [hopen, ArgumentStack.after_cons] at hacts
    rw [if_pos (interpreter_of_bridge? hb), hclose, ArgumentStack.after_append, hdepth]
      at hfinished
    have hbelow := (Machine.underlies_invoke (hcode.of_code hcodes) hbody).2 b.interpreter
    rw [hacts] at hbelow
    have hend : (c.finish l outcome m₂).2 = m' := congrArg Prod.snd hfinish
    rw [← hend, hfinished]
    refine ArgumentStack.Underlies.clears (ArgumentStack.Underlies.after
      (.trans (.after (.refl _) ?_) hbelow) ?_)
    · exact fun d hd => absurd hd (hinner d)
    · exact fun d hd => absurd hd (hinner' d)

/-- A call that is answered has been run step by step. -/
theorem reaches_of_perform (hrun : c.perform (Machine.invoke d) m = some (reply, m'))
    (next : c.Reply → Routine) (frames : List Frame) :
    ∃ n, State.Reaches n ⟨.call c next, frames, m⟩ ⟨next reply, frames, m'⟩ := by
  rw [Call.perform_eq] at hrun
  split at hrun
  · rename_i reply' m₁ hstart
    cases hrun
    exact ⟨1, _, by rw [State.step, hstart]; rfl, rfl⟩
  · rename_i l args m₁ hstart
    obtain ⟨⟨outcome, m₂⟩, hbody, hfinish⟩ := Option.map_eq_some_iff.1 hrun
    obtain ⟨rfl, rfl⟩ := Prod.mk.inj hfinish
    cases d with
    | zero => simp [Machine.invoke] at hbody
    | succ d =>
      rw [Machine.invoke_succ] at hbody
      have hinside : ∃ n, State.Reaches n
          ⟨m₁.bodyOf l.closure c.interpreter args, ⟨c, l, next⟩ :: frames, m₁⟩
          ⟨.finish outcome, ⟨c, l, next⟩ :: frames, m₂⟩ := reaches_of_run hbody
      obtain ⟨n, hn⟩ := hinside
      exact ⟨n + 1 + 1, _, by rw [State.step, hstart]; rfl, hn.trans ⟨_, rfl, rfl⟩⟩

/-- A call across a bridge leaves nothing behind, whatever its sub does and however it ends. The
scopes and the temporaries are those from before, and there are no more values or marks. Each
temporary that has been handed over in the steps of the call has been taken out to be released,
once for each time. -/
theorem call_clears (hb : c.bridge? = some b) (hcode : m.Guarded)
    (hrun : c.perform (Machine.invoke d) m = some (reply, m')) :
    (m'.world.interpreter b.interpreter).stack.scopes
        = (m.world.interpreter b.interpreter).stack.scopes ∧
      (m'.world.interpreter b.interpreter).stack.temps
        = (m.world.interpreter b.interpreter).stack.temps ∧
      (m'.world.interpreter b.interpreter).stack.height
        ≤ (m.world.interpreter b.interpreter).stack.height ∧
      (m'.world.interpreter b.interpreter).stack.marks.size
        ≤ (m.world.interpreter b.interpreter).stack.marks.size ∧
      ∀ next frames,
        (∃ n, State.Reaches n ⟨.call c next, frames, m⟩ ⟨next reply, frames, m'⟩) ∧
        ∀ n, State.Reaches n ⟨.call c next, frames, m⟩ ⟨next reply, frames, m'⟩ →
          (ArgumentStack.madeBy (State.actsAlong b.interpreter n ⟨.call c next, frames, m⟩)).Perm
            ((m.world.interpreter b.interpreter).stack.takenBy
              (State.actsAlong b.interpreter n ⟨.call c next, frames, m⟩)) := by
  have hclears := Call.clears hb hcode hrun
  refine ⟨hclears.scopes, hclears.temps, hclears.values, hclears.marks, fun next frames => ?_⟩
  refine ⟨reaches_of_perform hrun next frames, fun n hreach => ?_⟩
  have hstack := State.stack_reaches hreach b.interpreter
  exact ArgumentStack.perm_made_taken ((congrArg ArgumentStack.temps hstack).symm.trans
    hclears.temps)

/-- A machine with one sub, the arguments of a call, and a value on the stack. -/
def oneSub (code : Code) : Machine Code :=
  let w := ({} : World).newInterpreter.2
  let w := (w.newClosure 0 []).2
  let w := Op.defineIn ⟨1⟩ "main" "f" ⟨0⟩ w
  let w := (w.newArray [.integer 7]).2
  let w := (w.newHash []).2
  let w := (w.guest ⟨1⟩ (·.create (.int 1))).2
  { world := (w.guest ⟨1⟩ (·.push ⟨0, 0⟩)).2, code := #[code] }

/-- The call of the sub. -/
def callSub : Call := .sub greetingBridge (.name "f") .list ⟨1⟩ ⟨2⟩

/-- A sub that leaves a scope open, with a temporary and a mark, and dies. -/
def untidy : Code := fun i _ =>
  .act (.openScope i) fun _ => .act (.create i (.int 5)) fun h =>
    .act (.pushTemporary i h) fun _ => .act (.mark i) fun _ => .finish (.error (.died "gone"))

theorem guarded_untidy : (oneSub untidy).Guarded := by
  intro code hmem i args
  obtain rfl : code = untidy := by simpa [oneSub] using hmem
  simp [untidy, Routine.Guarded, Op.Within]

/-- What the sub has left is gone when the call is answered. -/
theorem call_clears_untidy : ∃ reply m',
    callSub.perform (Machine.invoke 1) (oneSub untidy) = some (reply, m') ∧
      (m'.world.interpreter ⟨1⟩).stack.scopes = [] ∧
      (m'.world.interpreter ⟨1⟩).stack.temps = #[] ∧
      (m'.world.interpreter ⟨1⟩).stack.marks = #[] := by
  have hsome : (callSub.perform (Machine.invoke 1) (oneSub untidy)).isSome = true := by
    decide +kernel
  obtain ⟨⟨reply, m'⟩, hrun⟩ := Option.isSome_iff_exists.1 hsome
  obtain ⟨hscopes, htemps, -, hmarks, -⟩ :=
    call_clears (b := greetingBridge) rfl guarded_untidy hrun
  exact ⟨reply, m', hrun, hscopes.trans (by decide +kernel), htemps.trans (by decide +kernel),
    Array.eq_empty_of_size_eq_zero (Nat.le_zero.1 (Nat.le_trans hmarks (by decide +kernel)))⟩

/-! ## What a call may take away -/

/-- A sub that pops a value. -/
def popping : Code := fun i _ => .act (.pop i) fun _ => .finish (.ok [])

/-- Closing the scope of the call does not bring back the value that its caller had pushed. -/
theorem popping_takes_value : ∃ reply m',
    callSub.perform (Machine.invoke 1) (oneSub popping) = some (reply, m') ∧
      ((oneSub popping).world.interpreter ⟨1⟩).stack.values = #[⟨0, 0⟩] ∧
      (m'.world.interpreter ⟨1⟩).stack.values = #[] := by
  have hvalues : (callSub.perform (Machine.invoke 1) (oneSub popping)).map
      (fun ended => (ended.2.world.interpreter ⟨1⟩).stack.values) = some #[] := by
    decide +kernel
  obtain ⟨⟨reply, m'⟩, hrun, hempty⟩ := Option.map_eq_some_iff.1 hvalues
  exact ⟨reply, m', hrun, by decide +kernel, hempty⟩

/-- If the stack never goes below the height at which a call across a bridge is made, nothing has
been taken away from it either. -/
theorem call_restores (hb : c.bridge? = some b) (hcode : m.Guarded)
    (hrun : c.perform (Machine.invoke d) m = some (reply, m')) {next : c.Reply → Routine}
    {frames : List Frame} {n : Nat}
    (hreach : State.Reaches n ⟨.call c next, frames, m⟩ ⟨next reply, frames, m'⟩)
    (habove : (m.world.interpreter b.interpreter).stack.StaysAbove
      (m.world.interpreter b.interpreter).stack
      (State.actsAlong b.interpreter n ⟨.call c next, frames, m⟩)) :
    (m'.world.interpreter b.interpreter).stack
      = (m.world.interpreter b.interpreter).stack := by
  refine (Call.clears hb hcode hrun).eq ?_
  have hstack := State.stack_reaches hreach b.interpreter
  dsimp only at hstack
  rw [hstack]
  exact ArgumentStack.Bases.after (.refl _) habove

/-- A sub that leaves things behind takes nothing away. -/
theorem call_restores_untidy : ∃ reply m',
    callSub.perform (Machine.invoke 1) (oneSub untidy) = some (reply, m') ∧
      (m'.world.interpreter ⟨1⟩).stack = ((oneSub untidy).world.interpreter ⟨1⟩).stack := by
  have hfound : (callSub.start (oneSub untidy)).1.getRight?.map (fun e => (e.1.closure, e.2))
      = some (⟨0⟩, [⟨1, 0⟩]) := by decide +kernel
  have hclosure : (callSub.start (oneSub untidy)).2.world.store.get? ⟨0⟩
      = some (.closure 0 []) := by decide +kernel
  have hcode := callSub.code_start (oneSub untidy)
  rcases hstart : callSub.start (oneSub untidy) with ⟨reply | ⟨l, args⟩, m₁⟩
  · rw [hstart] at hfound
    cases hfound
  · rw [hstart] at hfound hclosure hcode
    obtain ⟨hl, rfl⟩ : l.closure = ⟨0⟩ ∧ args = [⟨1, 0⟩] := by simpa using hfound
    have hbody : m₁.bodyOf l.closure ⟨1⟩ [⟨1, 0⟩] = untidy ⟨1⟩ [⟨1, 0⟩] := by
      have hcode' : m₁.code = #[untidy] := hcode
      simp only [Machine.bodyOf, Machine.code?, hl, hclosure, hcode']
      rfl
    obtain ⟨m₂, hrun⟩ : ∃ m₂, (untidy ⟨1⟩ [⟨1, 0⟩]).run (Machine.invoke 0) m₁
        = some (.error (.died "gone"), m₂) := ⟨_, rfl⟩
    have hperform : callSub.perform (Machine.invoke 1) (oneSub untidy)
        = some (callSub.finish l (.error (.died "gone")) m₂) := by
      rw [Call.perform_eq, hstart]
      dsimp only
      rw [Machine.invoke_succ, show callSub.interpreter = ⟨1⟩ from rfl, hbody, hrun]
      rfl
    have hinside : ∀ frames, State.Reaches 4 ⟨untidy ⟨1⟩ [⟨1, 0⟩], frames, m₁⟩
        ⟨.finish (.error (.died "gone")), frames, m₂⟩ := by
      cases hrun
      exact fun frames => ⟨_, rfl, _, rfl, _, rfl, _, rfl, rfl⟩
    have hreach : State.Reaches 6 ⟨.call callSub fun _ => .finish (.ok []), [], oneSub untidy⟩
        ⟨.finish (.ok []), [], (callSub.finish l (.error (.died "gone")) m₂).2⟩ := by
      refine ⟨⟨untidy ⟨1⟩ [⟨1, 0⟩], [⟨callSub, l, fun _ => .finish (.ok [])⟩], m₁⟩, ?_,
        (hinside _).trans (k := 1) ⟨_, rfl, rfl⟩⟩
      rw [State.step, hstart, ← hbody]
      rfl
    exact ⟨_, _, hperform, call_restores (b := greetingBridge) rfl guarded_untidy hperform hreach
      (by decide +kernel)⟩

end

end GuestBridge
