import Mathlib
import GuestBridge.Proofs.Calls.Results
import GuestBridge.Proofs.Ledger.Operations
import GuestBridge.Routine.Run

/-!
# Calls across a bridge

A call across a bridge hands its arguments over, runs the sub that it finds, once, and wraps what
the sub returns. `call_dispatches` puts this together for method calls and for sub
calls, from any world in which shares have owners and whatever lies on the stack already.

* `Callee.Supplies` says what becomes of the receiver and of the collections, and `Callee.Finds`
  which sub is found once the scalars are on the stack.
* `Entered` is what the sub meets when it starts, `Returned` what is asked of it when it returns,
  and `Collected` what the caller has in the end.
-/

namespace GuestBridge

open World

theorem Interpreter.packageOf_stack (it : Interpreter) (stack : ArgumentStack) (h : Handle)
    (method : String) : { it with stack }.packageOf h method = it.packageOf h method := rfl

theorem Interpreter.targetSub_stack (it : Interpreter) (stack : ArgumentStack)
    (target : Target) : { it with stack }.targetSub target = it.targetSub target := rfl

/-! ## What a call runs -/

/-- What a call across a bridge runs: a method of its receiver, or a sub. -/
inductive Callee where
  | method (name : String) (invocant : Invocant)
  | sub (target : Target) (mode : Mode)

/-- The elements of the collections of a call, and the scalars that they and the receiver become. A
sub call has no receiver. -/
structure Arguments where
  values : List Value
  entries : List (String × Value)
  receiver : List Handle
  positional : List Handle
  named : List (Handle × Handle)

/-- The argument list of the sub. -/
def Arguments.handles (a : Arguments) : List Handle :=
  a.receiver ++ (a.positional ++ World.flatten a.named)

namespace Callee

variable {κ : Type} {b : Bridge} {positional named : ObjectId} {x : Callee} {a : Arguments}
variable {found : Sub} {held : Held} {w₀ w w₁ : World} {it : Interpreter} {s : ArgumentStack}

/-- The call across a bridge. -/
def perform (invoke : Invoke κ) (b : Bridge) (positional named : ObjectId) :
    Callee → Machine κ → Option (Except CrossingError ObjectId × Machine κ)
  | method name invocant, m => Call.perform invoke (.method b name invocant positional named) m
  | sub target mode, m => Call.perform invoke (.sub b target mode positional named) m

/-- How the arguments get onto the stack. -/
def prepare (b : Bridge) (positional named : ObjectId) :
    Callee → World → (Except CrossingError Unit × List ObjectId) × World
  | method _ invocant => World.prepareMethod b invocant positional named
  | sub _ _ => World.prepareSub b positional named

/-- How the arguments are taken off again and the sub is found. -/
def take : Callee → Interpreter → Except Fault (Sub × List Handle) × Interpreter
  | method name _ => (·.takeMethodCall name)
  | sub target _ => (·.takeSubCall target)

/-- The results that the caller wants. -/
def mode : Callee → Mode
  | method _ _ => .list
  | sub _ mode => mode

/-- How the call is reported. -/
def detail : Callee → String
  | method name _ => "method " ++ name
  | sub target _ => "sub " ++ target.text

/-- The positional values that are passed: a method call leaves out the slot of the receiver. -/
def slots : Callee → List Value → List Value
  | method _ _, items => items.drop 1
  | sub _ _, items => items

theorem perform_eq (invoke : Invoke κ) (m : Machine κ) :
    x.perform invoke b positional named m =
      m.callAcross invoke b (x.prepare b positional named) x.take x.mode x.detail := by
  cases x <;> rfl

/-! ## Supplying the arguments -/

/-- The receiver is there and all conversions succeed. -/
inductive Supplies (b : Bridge) (positional named : ObjectId) (w : World) :
    Callee → Arguments → World → Prop where
  | method {name invocant h vs es hs pairs} {w₁ w₂ w₃ : World} :
      w.Receives b invocant h w₁ →
      w₁.takeInvocantSlot b.config positional = (.ok (), w₂) →
      w₂.HandsOver b positional named vs es hs pairs w₃ →
      Supplies b positional named w (.method name invocant) ⟨vs, es, [h], hs, pairs⟩ w₃
  | sub {target mode vs es hs pairs} {w₁ : World} :
      w.HandsOver b positional named vs es hs pairs w₁ →
      Supplies b positional named w (.sub target mode) ⟨vs, es, [], hs, pairs⟩ w₁

/-- The arguments are on the stack, and they are the elements that the collections had. -/
theorem Supplies.carried (hsupplies : x.Supplies b positional named w a w₁)
    (hhost : w₀.holds.get b.interpreter.number ≠ 0) (hbal : Balanced held w₀ w) :
    x.prepare b positional named w = ((.ok (), []), w₁) ∧
      Carried held w₀ b.interpreter a.handles w w₁ ∧
      Spells b.config (w₁.interpreter b.interpreter) a.named a.entries ∧
      (∃ items, w.store.get? positional = some (.array items) ∧ a.values = x.slots items) ∧
      w.store.get? named = some (.hash a.entries) := by
  cases hsupplies with
  | sub hhands =>
    obtain ⟨hprepare, hcarried, hspells, hvs, hes⟩ := hhands.carried hhost hbal
    exact ⟨hprepare, hcarried, hspells, ⟨_, hvs, rfl⟩, hes⟩
  | method hreceives hslot hhands =>
    obtain ⟨hpush, hfirst⟩ := hreceives.passed hhost hbal
    obtain ⟨hnext, hvalues, hentries⟩ :=
      hfirst.balanced.carried_takeInvocantSlot hhost hslot
    obtain ⟨hprepare, hcarried, hspells, hvs, hes⟩ := hhands.carried hhost hnext.balanced
    obtain ⟨items, hitems, hdrop⟩ := hvalues _ hvs
    refine ⟨?_, hfirst.toCarried.trans (hnext.trans hcarried), hspells,
      ⟨items, hfirst.object _ _ hitems, hdrop⟩, hfirst.object _ _ (hentries _ _ hes)⟩
    rw [prepare, World.prepareMethod, hpush]
    dsimp only
    rw [hslot]
    exact hprepare

/-! ## Finding the sub -/

/-- The sub that is found for a callee when the arguments are these. -/
inductive Finds (it : Interpreter) : Callee → List Handle → Sub → Prop where
  | method {name invocant h rest package found} : it.packageOf h name = .ok package →
      it.packages.method? package name = some found →
      Finds it (.method name invocant) (h :: rest) found
  | sub {target mode args found} : it.targetSub target = .ok found →
      Finds it (.sub target mode) args found

/-- The arguments are all that lies above the mark, so nothing below is passed. -/
theorem Finds.take_eq {args : List Handle} (hfinds : x.Finds it args found)
    (hstack : it.stack = s.mark.pass args) :
    x.take it = (.ok (found, args),
      { it with stack := { s with temps := s.temps ++ args.toArray } }) := by
  have htaken : it.onStack (·.takeArguments)
      = (.ok args, { it with stack := { s with temps := s.temps ++ args.toArray } }) := by
    rw [Interpreter.onStack, hstack, s.takeArguments_pass]
  cases hfinds with
  | @method name _ h rest package _ hpackage hmethod =>
    show it.takeMethodCall name = _
    rw [Interpreter.takeMethodCall, htaken]
    dsimp only
    rw [it.packageOf_stack, hpackage]
    dsimp only
    rw [hmethod]
  | @sub target _ _ _ htarget =>
    show it.takeSubCall target = _
    rw [Interpreter.takeSubCall, htaken]
    dsimp only
    rw [it.targetSub_stack, htarget]

theorem trades_take (x : Callee) (it : Interpreter) : it.Trades x.take [] [] := by
  cases x with
  | method name _ => exact it.trades_takeMethodCall name
  | sub target _ => exact it.trades_takeSubCall target

end Callee

/-! ## Starting the sub -/

section Start

variable {κ : Type} {m : Machine κ} {b : Bridge} {positional named : ObjectId} {x : Callee}
variable {a : Arguments} {found : Sub} {held : Held} {w₀ w w₁ : World} {i : InterpreterId}

/-- The world in which arguments are pushed: a scope has been opened and the stack is marked. -/
def World.opened (w : World) (i : InterpreterId) : World :=
  ((w.guest i (·.openScope)).2.guest i fun it => ((), it.mark)).2

theorem World.Balanced.opened (hbal : Balanced held w₀ w) (hhost : w₀.holds.get i.number ≠ 0) :
    Balanced held w₀ (w.opened i) ∧
      ((w.opened i).interpreter i).stack = (w.interpreter i).stack.openScope.mark ∧
      ∀ id o, (w.opened i).store.get? id = some o → w.store.get? id = some o := by
  have hopen := hbal.guestKeeping (hbal.isHeld_of_holds hhost) Interpreter.trades_openScope
  have hmark := hopen.guestKeeping (hopen.isHeld_of_holds hhost) Interpreter.trades_mark
  refine ⟨hmark, ?_, ?_⟩
  · rw [World.opened, stack_guest, Interpreter.mark, stack_guest]
    rfl
  · intro id o ho
    have hbefore := (recedes_guest _ i fun it => ((), it.mark)).get? id o ho
    exact (w.recedes_guest i (·.openScope)).get? id o hbefore

/-- A call finds a sub: its receiver is there, all conversions succeed, and the scalars on the
stack lead to the sub. -/
def Callee.Dispatches (b : Bridge) (positional named : ObjectId) (w : World) (x : Callee)
    (a : Arguments) (found : Sub) : Prop :=
  ∃ w₁, x.Supplies b positional named (w.opened b.interpreter) a w₁ ∧
    x.Finds (w₁.interpreter b.interpreter) a.handles found

/-- What the sub of a call meets. A scope has been opened, the arguments are temporaries of it, and
the stack is empty down to the height at which the call was made. The arguments are the elements
that the collections had at the call, and the strings in front of the named ones are their keys. -/
structure Entered (b : Bridge) (positional named : ObjectId) (x : Callee) (a : Arguments)
    (held : Held) (w w₁ : World) : Prop where
  balanced : Balanced held w w₁
  stack : (w₁.interpreter b.interpreter).stack =
    { (w.interpreter b.interpreter).stack.openScope with
      temps := (w.interpreter b.interpreter).stack.temps ++ a.handles.toArray }
  keys : Spells b.config (w₁.interpreter b.interpreter) a.named a.entries
  values : ∃ items, w.store.get? positional = some (.array items) ∧ a.values = x.slots items
  entries : w.store.get? named = some (.hash a.entries)

/-- The machine on which the sub of a call starts. -/
def Machine.entered (m : Machine κ) (b : Bridge) (positional named : ObjectId) (x : Callee) :
    Machine κ :=
  (m.startAcross b (x.prepare b positional named) x.take x.detail).2

theorem Machine.openAcross_eq
    {prepare : World → (Except CrossingError Unit × List ObjectId) × World}
    {ready : Except CrossingError Unit} {objects : List ObjectId}
    (hprepare : prepare (m.world.opened b.interpreter) = ((ready, objects), w)) :
    m.openAcross b prepare =
      (((m.world.interpreter b.interpreter).stack.scopes.length + 1, ready, objects),
        { m with world := w }) := by
  have hdepth := m.world.guest_fst b.interpreter (·.openScope)
  rw [World.opened] at hprepare
  simp only [openAcross, onWorld, update, hprepare, hdepth]
  rfl

theorem Callee.Dispatches.startAcross_eq
    (hdispatch : x.Dispatches b positional named m.world a found)
    (hhost : m.world.holds.get b.interpreter.number ≠ 0) (hbal : Balanced held m.world m.world) :
    m.startAcross b (x.prepare b positional named) x.take x.detail =
        (.ok ({ closure := found.closure
                depth := (m.world.interpreter b.interpreter).stack.scopes.length + 1 },
          a.handles), m.entered b positional named x) ∧
      Entered b positional named x a held m.world (m.entered b positional named x).world := by
  obtain ⟨w₁, hsupplies, hfinds⟩ := hdispatch
  obtain ⟨hopened, hmarked, hobject⟩ := hbal.opened hhost
  obtain ⟨hprepare, hcarried, hspells, ⟨items, hitems, hvalues⟩, hentries⟩ :=
    hsupplies.carried hhost hopened
  have htake := hfinds.take_eq (hcarried.stack.trans (by rw [hmarked]))
  have hguest : w₁.guest b.interpreter x.take
      = (.ok (found, a.handles), (w₁.guest b.interpreter x.take).2) :=
    Prod.ext (by rw [guest_fst, htake]) rfl
  have hstart : m.startAcross b (x.prepare b positional named) x.take x.detail =
      (.ok ({ closure := found.closure
              depth := (m.world.interpreter b.interpreter).stack.scopes.length + 1 }, a.handles),
        { m with world := (w₁.guest b.interpreter x.take).2.retainObject found.closure }) := by
    rw [Machine.startAcross, Machine.openAcross_eq hprepare]
    dsimp only
    rw [Machine.startCall, Machine.onWorld]
    dsimp only
    rw [hguest]
    rfl
  have htaken : Balanced held m.world (w₁.guest b.interpreter x.take).2 :=
    hcarried.balanced.guestKeeping (hcarried.balanced.isHeld_of_holds hhost) (x.trades_take _)
  have hretains := htaken.retains (htaken.isHeld_of_holds hhost)
    (w₁.recedes_guest b.interpreter x.take)
  rw [interpreter_setInterpreter, if_pos rfl] at hretains
  -- taking the arguments off the stack leaves them temporaries, so their keys are still there
  have hkeys : Spells b.config (x.take (w₁.interpreter b.interpreter)).2 a.named a.entries := by
    rw [htake]
    exact hspells
  rw [Machine.entered, hstart]
  refine ⟨rfl, htaken.retainObject _, ?_, ?_, ⟨items, hobject _ _ hitems, hvalues⟩,
    hobject _ _ hentries⟩
  · show ((w₁.guest b.interpreter x.take).2.interpreter b.interpreter).stack = _
    rw [stack_guest, htake]
    rfl
  · refine hkeys.retains hretains ?_
    intro k hk
    rw [htake]
    simp [Arguments.handles, hk]

end Start

/-! ## Ending the call -/

section End

variable {κ : Type} {m : Machine κ} {b : Bridge} {positional named : ObjectId} {x : Callee}
variable {a : Arguments} {found : Sub} {held : Held} {w w₁ : World} {i : InterpreterId}
variable {mode : Mode} {results : List Handle} {s : ArgumentStack} {id : ObjectId}

/-- What is asked of the sub of a call when it returns. It found the stack `s`, and hands over
results that are there, each with a share. No object is named that has not been made. -/
structure Returned (i : InterpreterId) (s : ArgumentStack) (results : List Handle) (held : Held)
    (w : World) : Prop where
  balanced : Balanced (Held.of i results ++ held) w w
  host : w.holds.get i.number ≠ 0
  stack : s.Resumes (w.interpreter i).stack
  names : NamesBelow w.store.holdings.size w

/-- What the caller has in the end: an array that only it holds, of boundary objects that only the
array holds, one for each result that is kept. All these objects are new.

The sub does not own the shares of its results any more, and no temporary is left of the call. So
the owners of a scalar are callers, scalars that have it as a child, temporaries from before the
call, and boundary objects: a result that is kept has its share for its wrapper, and any other has
lost it. If the sub has left no scope open, the whole stack is the one from before the call. -/
structure Collected (i : InterpreterId) (mode : Mode) (results : List Handle) (held : Held)
    (s : ArgumentStack) (w w₁ : World) (id : ObjectId) : Prop where
  balanced : Balanced held w w₁
  shares : ∀ k, (w₁.interpreter i).heap.shareCount k =
    held.count (i, k) + (w₁.interpreter i).heap.asChild k + s.tempCount k + w₁.store.wrappers i k
  temps : (w₁.interpreter i).stack.temps = s.temps
  scopes : (w₁.interpreter i).stack.scopes = s.scopes
  stack : (w.interpreter i).stack.depth = s.depth + 1 → (w₁.interpreter i).stack = s
  results : ∃ kept ids, (w.interpreter i).Keeps (w₁.interpreter i) mode results kept ∧
    w₁.store.holding? id = some { holders := 1, object := .array (ids.map .boundary) } ∧
    ids.map w₁.store.holding? =
      kept.map (fun k => some { holders := 1, object := .boundary i k }) ∧
    (id :: ids).Nodup ∧ ∀ j ∈ id :: ids, w.store.holdings.size ≤ j.number

theorem World.release_nil (w : World) : w.release [] = w := by
  rw [World.release]

/-- The end of a call in which nothing is left to be pushed. -/
theorem Machine.endAcross_eq {l : Landing} {detail : String} {count : Nat}
    (hheld : l.held = [])
    (hsettle : m.world.guest b.interpreter (·.settle mode results) = (.ok count, w))
    (hbox : (w.dropObjects [l.closure]).boxResults b.interpreter count = (.ok id, w₁)) :
    m.endAcross b mode detail l (.ok results) =
      (.ok id, { m with
        world := (w₁.closeScope b.interpreter l.depth).note b .call detail }) := by
  rw [Machine.endAcross, Machine.endCall, Machine.settleOutcome, Machine.onWorld, hsettle]
  dsimp only
  rw [Machine.boxOutcome, Machine.onWorld]
  dsimp only [Machine.update]
  rw [hbox, Machine.closeAcross, hheld]
  dsimp only [Machine.update]
  rw [World.dropObjects, List.map_nil, World.release_nil]
  rfl

/-- A boundary object is an owner of its scalar. -/
theorem Store.wrappers_pos {st : Store} {j : ObjectId} {k : Handle} {holders : Nat}
    (hj : st.holding? j = some { holders, object := .boundary i k }) : 0 < st.wrappers i k := by
  have hput := Store.wrappers_put hj none i k
  rw [HostObject.wraps_boundary, Held.count_of, if_pos rfl, List.count_singleton_self,
    Option.elim_none] at hput
  omega

/-- What a boundary object stands for is there. -/
theorem World.Balanced.contains_of_wrapped {w₀ : World} {j : ObjectId} {k : Handle}
    {holders : Nat} (hbal : Balanced held w₀ w) (hhost : w₀.holds.get i.number ≠ 0)
    (hj : w.store.holding? j = some { holders, object := .boundary i k }) :
    (w.interpreter i).heap.contains k = true := by
  have hpos := Store.wrappers_pos hj
  obtain ⟨c, hc⟩ := (hbal.ledger i (hbal.isHeld_of_holds hhost)).exists_cell (h := k) (by omega)
  exact Heap.contains_iff.2 ⟨c, hc⟩

theorem World.Balanced.contains_of_boxes {w₀ w₂ : World} {n : Nat} {ks : List Handle}
    {ids : List ObjectId} (hbal : Balanced held w₀ w₂) (hhost : w₀.holds.get i.number ≠ 0)
    (hboxes : Boxes n i ks ids w w₂) {k : Handle} (hk : k ∈ ks) :
    (w₂.interpreter i).heap.contains k = true := by
  have hwrapped := List.mem_map_of_mem (f := fun k => some (Holding.mk 1 (.boundary i k))) hk
  rw [← hboxes.holdings] at hwrapped
  obtain ⟨j, -, hj⟩ := List.mem_map.1 hwrapped
  exact hbal.contains_of_wrapped hhost hj

/-- A call whose sub returns as it should ends with the results that are wanted. -/
theorem Returned.collected {args : Array Handle} {l : Landing}
    (hreturned : Returned b.interpreter { s.openScope with temps := s.temps ++ args } results held
      m.world)
    (hmarks : s.marks.back?.getD 0 ≤ s.height) (hheld : l.held = [])
    (hdepth : l.depth = s.scopes.length + 1) (mode : Mode) (detail : String) :
    ∃ id m₁, m.endAcross b mode detail l (.ok results) = (.ok id, m₁) ∧
      Collected b.interpreter mode results held s m.world m₁.world id := by
  have hhost := hreturned.host
  have hvalues : (m.world.interpreter b.interpreter).stack.values = s.values :=
    hreturned.stack.values
  have hsame : (m.world.interpreter b.interpreter).stack.marks = s.marks := hreturned.stack.marks
  -- the results that are kept become temporaries, and the sub is let go of
  obtain ⟨w₁, hsettle, hbal₁, hstack₁, hheap₁, hnames₁, hsize₁⟩ :=
    hreturned.balanced.settles hhost hreturned.names mode
  have hrec : Recedes w₁ (w₁.dropObjects [l.closure]) := recedes_release _ _
  have hn : m.world.store.holdings.size ≤ (w₁.dropObjects [l.closure]).store.holdings.size :=
    Nat.le_of_eq (hrec.size.trans hsize₁).symm
  -- they are wrapped
  obtain ⟨id, ids, w₃, hbox, hbal₃, hstack₃, hboxes₃, hholding, hfirst, hlast, hnew⟩ :=
    (hbal₁.dropObjects [l.closure]).boxes_boxResults hhost
      (by rw [ArgumentStack.height]; dsimp only; rw [hvalues, hsame]; exact hmarks)
      (fun k hk => by rw [Array.toList_append]; exact List.mem_append_right _ hk)
      (hnames₁.recedes hrec) hn
      ((hrec.stack b.interpreter).trans (hstack₁.trans (ArgumentStack.pass_eq_raise _ _)))
  have hend : m.endAcross b mode detail l (.ok results) = _ :=
    Machine.endAcross_eq hheld hsettle hbox
  -- the scope is closed, which leaves the wrappers alone
  obtain ⟨hstack₄, hboxes₄⟩ := hbal₃.boxes_closeScope hhost hboxes₃.names l.depth
  have hbal₄ := hbal₃.closeScope (hbal₃.isHeld_of_holds hhost) l.depth
  generalize w₃.closeScope b.interpreter l.depth = w₄ at hend hstack₄ hboxes₄ hbal₄
  have hboxes := hboxes₃.trans hboxes₄ hn
  rw [List.nil_append, List.nil_append] at hboxes
  have hkeeps : (m.world.interpreter b.interpreter).Keeps (w₄.interpreter b.interpreter) mode
      results ((m.world.interpreter b.interpreter).keeps mode results) :=
    Interpreter.keeps_of_recedes
      (hreturned.balanced.ledger _ (hreturned.balanced.isHeld_of_holds hhost)).wellFormed
      (hheap₁.trans ((hrec.heap b.interpreter).trans hboxes.heap))
      fun k hk => hbal₄.contains_of_boxes hhost hboxes hk
  rw [hstack₃, hdepth] at hstack₄
  obtain ⟨htemps, hscopes⟩ := hreturned.stack.closeScope
    ((m.world.interpreter b.interpreter).keeps mode results).toArray
  refine ⟨id, _, hend, hbal₄.onTelemetry _ _, ?_, ?_, ?_, ?_, _, ids,
    hkeeps, (hboxes₄.kept id (Nat.le_trans hn hfirst) hlast).trans hholding, hboxes.holdings, ?_,
    ?_⟩
  · -- every temporary that is left was there before the call
    intro k
    have htemp : (w₄.interpreter b.interpreter).stack.tempCount k = s.tempCount k := by
      rw [ArgumentStack.tempCount, hstack₄, htemps]
      rfl
    have hcount := hbal₄.shareCount_eq (hbal₄.isHeld_of_holds hhost) k
    rw [World.owners, htemp] at hcount
    exact hcount
  · show (w₄.interpreter b.interpreter).stack.temps = s.temps
    rw [hstack₄, htemps]
  · show (w₄.interpreter b.interpreter).stack.scopes = s.scopes
    rw [hstack₄, hscopes]
  · intro hclosed
    show (w₄.interpreter b.interpreter).stack = s
    rw [hstack₄, hreturned.stack.closeScope_eq hclosed]
  · exact List.nodup_cons.2 ⟨hnew, hboxes.nodup⟩
  · intro j hj
    rcases List.mem_cons.1 hj with rfl | hj
    · exact Nat.le_trans hn hfirst
    · exact Nat.le_trans hn (hboxes.fresh j hj).1

end End

/-! ## The whole call -/

/-- A call across a bridge that finds a sub runs it once, on the arguments, whatever runs it. If
the sub returns as it should, the caller gets the results that it wants. -/
theorem call_dispatches {κ : Type} {m : Machine κ} {b : Bridge} {positional named : ObjectId}
    {x : Callee} {a : Arguments} {found : Sub} {held : Held}
    (hbal : Balanced held m.world m.world) (hhost : m.world.holds.get b.interpreter.number ≠ 0)
    (hmarks : ∀ mark ∈ (m.world.interpreter b.interpreter).stack.marks.toList,
      mark ≤ (m.world.interpreter b.interpreter).stack.height)
    (hdispatch : x.Dispatches b positional named m.world a found) :
    Entered b positional named x a held m.world (m.entered b positional named x).world ∧
      ∃ finish : Except Fault (List Handle) × Machine κ →
          Except CrossingError ObjectId × Machine κ,
        (∀ invoke : Invoke κ, x.perform invoke b positional named m =
          (invoke b.interpreter found.closure a.handles (m.entered b positional named x)).map
            finish) ∧
        ∀ results held₁ (m₁ : Machine κ),
          Returned b.interpreter
            ((m.entered b positional named x).world.interpreter b.interpreter).stack results held₁
            m₁.world →
          ∃ id m₂, finish (.ok results, m₁) = (.ok id, m₂) ∧
            Collected b.interpreter x.mode results held₁
              (m.world.interpreter b.interpreter).stack m₁.world m₂.world id := by
  obtain ⟨hstart, hentered⟩ := hdispatch.startAcross_eq hhost hbal
  refine ⟨hentered, fun ended => Machine.endAcross b x.mode x.detail
    { closure := found.closure
      depth := (m.world.interpreter b.interpreter).stack.scopes.length + 1 } ended.1 ended.2,
    ?_, ?_⟩
  · intro invoke
    rw [Callee.perform_eq, Machine.callAcross_eq, hstart]
  · intro results held₁ m₁ hreturned
    rw [hentered.stack] at hreturned
    refine hreturned.collected ?_ rfl rfl x.mode x.detail
    cases hback : (m.world.interpreter b.interpreter).stack.marks.back? with
    | none => exact Nat.zero_le _
    | some mark => exact hmarks mark (Array.mem_toList_iff.2 (Array.mem_of_back? hback))

/-- A world with a method, an array whose first slot is for the receiver, and a hash. -/
def greeting : World :=
  let w := ({} : World).newInterpreter.2
  let w := (w.newClosure 0 []).2
  let w := Op.defineIn ⟨1⟩ "Greeter" "greet" ⟨0⟩ w
  let w := (w.newArray [.text "slot", .integer 7]).2
  (w.newHash [("count", .integer 1)]).2

/-- A sub that returns a new number. -/
def answer : Invoke Unit := fun i _ _ m =>
  let (h, m) := m.onWorld (·.guest i (·.create (.int 42)))
  some (.ok [h], m)

theorem balanced_greeting : Balanced [] greeting greeting := by
  have hclosure := balanced_empty.newInterpreter.newClosure 0 []
  have hdefined := hclosure.defineIn (i := ⟨1⟩) (hclosure.isHeld_of_holds (by decide +kernel))
    "Greeter" "greet" ⟨0⟩
  exact ((hdefined.newArray _).newHash _).rebase

/-- The bridge of the call. -/
def greetingBridge : Bridge := { interpreter := ⟨1⟩, collector := ⟨0⟩ }

/-- The callee of the call. -/
def greet : Callee := .method "greet" (.namespace "Greeter")

/-- The machine on which the sub starts. -/
def greeted : Machine Unit := Machine.entered { world := greeting } greetingBridge ⟨1⟩ ⟨2⟩ greet

theorem call_dispatches_greeting :
    ∃ id j m, greet.perform answer greetingBridge ⟨1⟩ ⟨2⟩ { world := greeting } = some (.ok id, m) ∧
      m.world.store.get? id = some (.array [.boundary j]) ∧
      m.world.store.get? j = some (.boundary ⟨1⟩ ⟨4, 0⟩) := by
  have hdispatch : greet.Dispatches greetingBridge ⟨1⟩ ⟨2⟩ greeting
      ⟨[.integer 7], [("count", .integer 1)], [⟨0, 0⟩], [⟨1, 0⟩], [(⟨2, 0⟩, ⟨3, 0⟩)]⟩
      { name := "Greeter::greet", closure := ⟨0⟩ } :=
    ⟨_, .method (.package (Prod.ext (by cbv) rfl)) (Prod.ext (by cbv) rfl)
      (.intro (by decide +kernel) (.cons (Prod.ext (by cbv) rfl) .nil) (by decide +kernel)
        (.cons (Prod.ext (by decide +kernel) rfl) (Prod.ext (by cbv) rfl) .nil)),
      @Callee.Finds.method _ "greet" _ _ _ "Greeter" _ (by cbv) (by decide +kernel)⟩
  obtain ⟨hentered, finish, honce, hreturn⟩ :=
    call_dispatches (m := ({ world := greeting } : Machine Unit)) balanced_greeting
      (by decide +kernel) (by decide +kernel) hdispatch
  have hgain := hentered.balanced.guestGain (i := ⟨1⟩)
    (hentered.balanced.isHeld_of_holds (by decide +kernel)) (Interpreter.trades_create (.int 42))
  have hnew : ((greeted.world.interpreter ⟨1⟩).create (.int 42)).1 = ⟨4, 0⟩ := by decide +kernel
  have hreturned : Returned ⟨1⟩ (greeted.world.interpreter ⟨1⟩).stack [⟨4, 0⟩] []
      (greeted.world.guest ⟨1⟩ (·.create (.int 42))).2 :=
    { balanced := hnew ▸ hgain.rebase
      host := by decide +kernel
      stack := by
        rw [stack_guest]
        exact .refl _
      names := namesBelow_sound (by decide +kernel) }
  obtain ⟨id, m, hfinish, hcollected⟩ :=
    hreturn [⟨4, 0⟩] [] ⟨(greeted.world.guest ⟨1⟩ (·.create (.int 42))).2, greeted.code⟩ hreturned
  have hanswer : answer ⟨1⟩ ⟨0⟩ [⟨0, 0⟩, ⟨1, 0⟩, ⟨2, 0⟩, ⟨3, 0⟩] greeted =
      some (.ok [⟨4, 0⟩], ⟨(greeted.world.guest ⟨1⟩ (·.create (.int 42))).2, greeted.code⟩) := by
    rw [← hnew, ← guest_fst greeted.world ⟨1⟩ (·.create (.int 42))]
    rfl
  obtain ⟨kept, ids, hkeeps, harray, hboxes, -, -⟩ := hcollected.results
  have hperform := (honce answer).trans (congrArg (Option.map finish) hanswer)
  rw [Option.map_some, hfinish] at hperform
  cases hkeeps
  obtain ⟨j, rfl⟩ := List.length_eq_one_iff.1 (by simpa using congrArg List.length hboxes)
  refine ⟨id, j, m, hperform, ?_, ?_⟩
  · rw [Store.get?, harray]
    rfl
  · rw [Store.get?, List.singleton_inj.1 hboxes]
    rfl

end GuestBridge
