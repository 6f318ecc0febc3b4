import GuestBridge.Proofs.Calls.Trace
import GuestBridge.Proofs.Provenance.Log
import GuestBridge.Proofs.Telemetry.Completion

/-!
# What the operations add to a log

Every operation on a world, every call entered and every call left takes a logged world to a logged
one, with a longer log. A boundary object is made in one place only, `World.wrapScalar`, and there
its scalar has just taken another share; everything else lets heaps evolve and boundary objects go.

`World.Advances` lists the pieces that operations are made of. A step of a run is made of them
(`State.advances_step`), so what each piece keeps is kept by every run: the log goes on
(`World.Advances.continues`), and all heaps are at rest between two steps (`State.atRest_reaches`).

None of the pieces writes to a collector. `World.Works` adds this to `World.Advances`, and
`State.completes_step` says that a step is such work followed by one report of what it completes.
-/

namespace GuestBridge

/-! ## The store -/

namespace Store

variable {st : Store} {id : ObjectId}

theorem fades_add (st : Store) {o : HostObject} (ho : ∀ owner handle, o ≠ .boundary owner handle) :
    st.Fades (st.add o).2 := by
  refine fades_of_get? ?_
  intro j owner handle hafter
  rw [get?_add] at hafter
  split at hafter
  · exact absurd (Option.some.inj hafter) (ho owner handle)
  · exact hafter

theorem fades_retain (st : Store) (id : ObjectId) : st.Fades (st.retain id) := by
  refine fades_of_get? ?_
  intro j owner handle hafter
  unfold retain at hafter
  split at hafter
  · rename_i h hh
    rw [get?_put hh] at hafter
    split at hafter
    · rename_i hj
      rw [hj, get?_of_holding? hh]
      exact hafter
    · exact hafter
  · exact hafter

theorem fades_retainValue (st : Store) (v : Value) : st.Fades (st.retainValue v) := by
  unfold retainValue
  split
  · exact st.fades_retain _
  · exact .refl st

theorem fades_retainValues (st : Store) (vs : List Value) : st.Fades (st.retainValues vs) := by
  unfold retainValues
  induction vs generalizing st with
  | nil => exact .refl st
  | cons v rest ih => exact (st.fades_retainValue v).trans (ih _)

end Store

/-! ## Interpreters -/

namespace Interpreter

theorem evolves_closeScope (it : Interpreter) (depth : Nat) :
    it.heap.Evolves (it.closeScope depth).2.heap := it.heap.evolves_unshareEach _

theorem evolves_settle (it : Interpreter) (mode : Mode) (results : List Handle) :
    it.heap.Evolves (it.settle mode results).2.heap := by
  rw [heap_settle]
  split
  · exact Heap.closed_evolves.allocate it.heap .undef
  · exact it.heap.evolves_unshareEach _

end Interpreter

/-! ## Releases -/

namespace World

open Heap (Evolves)

variable {w w₁ w₂ : World} {i : InterpreterId} {b : Bridge}

theorem Recedes.fades (hrec : Recedes w w₁) : w.store.Fades w₁.store :=
  Store.fades_of_get? fun id _ _ hafter => hrec.get? id _ hafter

theorem continues_takeFreed (w : World) (i : InterpreterId) : Continues w (w.takeFreed i).2 := by
  rw [takeFreed, onInterpreter_eq]
  exact continues_setInterpreter (Heap.evolves_perform .takeFreed _)

theorem continues_dismantle (w : World) (o : HostObject) : Continues w (w.dismantle o).2 := by
  cases o with
  | boundary owner handle =>
    have hunshare : Continues w (w.onInterpreter owner (·.unshare handle)).2 := by
      rw [onInterpreter_eq]
      exact continues_setInterpreter (Heap.closed_evolves.unshare _ handle)
    rw [dismantle, dropBoundary_snd]
    exact hunshare.trans (continues_takeFreed _ owner)
  | array | hash | object | closure => exact .refl w

theorem continues_endInterpreter (w : World) (i : InterpreterId) :
    Continues w (w.endInterpreter i).2 := by
  have hclear : Continues w (w.setInterpreter i (w.interpreter i).clear) :=
    continues_setInterpreter (Heap.evolves_clear _)
  exact hclear.trans (continues_takeFreed _ i)

/-- The heaps are as they were, and of the store only holders have changed, or objects have gone. -/
theorem continues_put {id : ObjectId} {h : Holding} (hh : w.store.holding? id = some h)
    {o : Option Holding} (ho : ∀ h', o = some h' → h'.object = h.object) :
    Continues w { w with store := w.store.put id o } :=
  continues_of_fades (fun _ => rfl) (recedes_put hh ho).fades

/-- An entry in the journal is not in the log. -/
theorem continues_report (w : World) (e : Event) : Continues w (w.report e) :=
  continues_of_fades (fun _ => rfl) (.refl _)

theorem continues_step {u u' : Unwinding} (hstep : Unwinding.Step u u') :
    Continues u.world u'.world := by
  cases hstep with
  | report => exact continues_report _ _
  | held | absent => exact .refl _
  | ends => exact continues_endInterpreter _ _
  | last hh => exact (continues_put hh (by simp)).trans (continues_dismantle _ _)
  | fewer hh => exact continues_put hh fun h' hh' => by rw [← Option.some.inj hh']

theorem continues_release (steps : List ReleaseStep) (w : World) : Continues w (w.release steps) :=
  release_rel Continues.refl Continues.trans continues_step steps w

theorem continues_settleFreed (w : World) (i : InterpreterId) : Continues w (w.settleFreed i) :=
  (w.continues_takeFreed i).trans (continues_release _ _)

/-! ## Acting on one interpreter -/

theorem continues_guest {f : Interpreter → α × Interpreter}
    (hf : (w.interpreter i).heap.Evolves (f (w.interpreter i)).2.heap) :
    Continues w (w.guest i f).2 := by
  rw [guest, onInterpreter_eq]
  exact (continues_setInterpreter hf).trans (continues_settleFreed _ i)

theorem continues_closeScope (w : World) (i : InterpreterId) (depth : Nat) :
    Continues w (w.closeScope i depth) := by
  have hclose : Continues w (w.setInterpreter i ((w.interpreter i).closeScope depth).2) :=
    continues_setInterpreter ((w.interpreter i).evolves_closeScope depth)
  have hreport : ∀ (es : List Event) (w : World), Continues w (w.reportEach es) := by
    intro es
    induction es with
    | nil => exact .refl
    | cons e rest ih => exact fun w => (w.continues_report e).trans (ih _)
  unfold closeScope
  rw [onInterpreter_eq]
  exact (hclose.trans (hreport _ _)).trans (continues_settleFreed _ i)

/-! ## What can happen to a world -/

/-- What every operation is made of: one interpreter is acted on, a scope is closed, something is
let go of, the store changes without a new boundary object, or a boundary object is made for a
scalar that is there. -/
inductive Advances : World → World → Prop where
  | refl (w : World) : Advances w w
  | trans {w w₁ w₂ : World} : Advances w w₁ → Advances w₁ w₂ → Advances w w₂
  | fades {w w₁ : World} : (∀ i, (w₁.interpreter i).heap = (w.interpreter i).heap) →
      w.store.Fades w₁.store → Advances w w₁
  | guest {α : Type} {w : World} {i : InterpreterId} {f : Interpreter → α × Interpreter} :
      (w.interpreter i).heap.Evolves (f (w.interpreter i)).2.heap → Advances w (w.guest i f).2
  | closeScope (w : World) (i : InterpreterId) (depth : Nat) : Advances w (w.closeScope i depth)
  | release (steps : List ReleaseStep) (w : World) : Advances w (w.release steps)
  | newBoundary {w w₁ : World} {i : InterpreterId} {h : Handle} : Advances w w₁ →
      (w.interpreter i).heap.contains h = true → Advances w (w₁.newBoundary i h).2

/-- Whatever happens, the log goes on. -/
theorem Advances.continues (hadvances : Advances w w₁) : Continues w w₁ := by
  induction hadvances with
  | refl w => exact .refl w
  | trans _ _ ihfirst ihnext => exact ihfirst.trans ihnext
  | fades hheap hfades => exact continues_of_fades hheap hfades
  | guest hf => exact continues_guest hf
  | closeScope w i depth => exact w.continues_closeScope i depth
  | release steps w => exact continues_release steps w
  | newBoundary _ hlive ih => exact ih.newBoundary hlive

/-! ## Work -/

theorem collectors_dismantle (w : World) (o : HostObject) :
    (w.dismantle o).2.collectors = w.collectors := by
  cases o with
  | boundary owner handle => rw [dismantle, dropBoundary_snd]; rfl
  | array | hash | object | closure => rfl

theorem collectors_step {u u' : Unwinding} (hstep : Unwinding.Step u u') :
    u'.world.collectors = u.world.collectors := by
  cases hstep with
  | report | held | absent | ends | fewer => rfl
  | last => exact collectors_dismantle _ _

theorem collectors_release (steps : List ReleaseStep) (w : World) :
    (w.release steps).collectors = w.collectors :=
  release_rel (R := fun w w₁ => w₁.collectors = w.collectors) (fun _ => rfl)
    (fun hfirst hnext => hnext.trans hfirst) collectors_step steps w

theorem collectors_guest (w : World) (i : InterpreterId) (f : Interpreter → α × Interpreter) :
    (w.guest i f).2.collectors = w.collectors := collectors_release _ _

theorem collectors_reportEach (es : List Event) (w : World) :
    (w.reportEach es).collectors = w.collectors := by
  unfold reportEach
  induction es generalizing w with
  | nil => rfl
  | cons e rest ih => exact ih (w.report e)

theorem collectors_closeScope (w : World) (i : InterpreterId) (depth : Nat) :
    (w.closeScope i depth).collectors = w.collectors :=
  (collectors_release _ _).trans (collectors_reportEach _ _)

/-- What an operation does before it reports: the world advances, and no collector is written to. -/
structure Works (w w₁ : World) : Prop where
  advances : Advances w w₁
  collectors : w₁.collectors = w.collectors

theorem Works.refl (w : World) : Works w w := ⟨.refl w, rfl⟩

theorem Works.trans (hfirst : Works w w₁) (hnext : Works w₁ w₂) : Works w w₂ :=
  ⟨hfirst.advances.trans hnext.advances, hnext.collectors.trans hfirst.collectors⟩

theorem Works.fades (hheap : ∀ i, (w₁.interpreter i).heap = (w.interpreter i).heap)
    (hfades : w.store.Fades w₁.store) (hcollectors : w₁.collectors = w.collectors) :
    Works w w₁ := ⟨.fades hheap hfades, hcollectors⟩

theorem Works.guest {α : Type} {f : Interpreter → α × Interpreter}
    (hf : (w.interpreter i).heap.Evolves (f (w.interpreter i)).2.heap) :
    Works w (w.guest i f).2 := ⟨.guest hf, w.collectors_guest i f⟩

theorem Works.closeScope (w : World) (i : InterpreterId) (depth : Nat) :
    Works w (w.closeScope i depth) := ⟨.closeScope w i depth, w.collectors_closeScope i depth⟩

theorem Works.release (steps : List ReleaseStep) (w : World) : Works w (w.release steps) :=
  ⟨.release steps w, collectors_release steps w⟩

theorem Works.newBoundary {h : Handle} (hworks : Works w w₁)
    (hlive : (w.interpreter i).heap.contains h = true) : Works w (w₁.newBoundary i h).2 :=
  ⟨.newBoundary hworks.advances hlive, hworks.collectors⟩

/-- Some work has been done, and then the operation completed by it, if there is one, has been
reported. -/
def Completes (done : Option Completion) (w w₁ : World) : Prop :=
  ∃ w', Works w w' ∧ w₁ = w'.entered done

theorem Works.completes (hworks : Works w w₁) : Completes none w w₁ := ⟨w₁, hworks, rfl⟩

theorem Works.trans_completes {done : Option Completion} (hworks : Works w w₁)
    (hnext : Completes done w₁ w₂) : Completes done w w₂ := by
  obtain ⟨w', hrest, rfl⟩ := hnext
  exact ⟨w', hworks.trans hrest, rfl⟩

/-- A report leaves heaps and store as they are. -/
theorem advances_entered (done : Option Completion) (w : World) :
    Advances w (w.entered done) := by
  cases done with
  | none => exact .refl w
  | some d =>
    rw [entered]
    generalize d.events = events
    induction events generalizing w with
    | nil => exact .refl w
    | cons event rest ih =>
      have hnote : Advances w (w.note d.bridge event.1 event.2) :=
        .fades (fun _ => rfl) (.refl _)
      exact hnote.trans (ih _)

theorem Completes.advances {done : Option Completion} (hdone : Completes done w w₁) :
    Advances w w₁ := by
  obtain ⟨w', hworks, rfl⟩ := hdone
  exact hworks.advances.trans (advances_entered done w')

theorem works_guest_of_heap {α : Type} {f : Interpreter → α × Interpreter}
    (hf : (f (w.interpreter i)).2.heap = (w.interpreter i).heap) :
    Works w (w.guest i f).2 := by
  refine .guest ?_
  rw [hf]
  exact .refl _

theorem works_convert (w : World) (i : InterpreterId) (config : Config) (v : Value) :
    Works w (w.convert i config v).2 :=
  Works.guest (Heap.closed_evolves.convert _ (config.maxDepth + 1) v _)

/-- The one place where boundary objects are made: a scalar that is not there is not wrapped. -/
theorem works_wrapScalar (w : World) (i : InterpreterId) (h : Handle) :
    Works w (w.wrapScalar i h).2 := by
  have hshare : Works w (w.guest i (·.share h)).2 :=
    Works.guest (Heap.closed_evolves.share _ h)
  unfold wrapScalar
  split
  · rename_i n w₁ heq
    have hanswer : ((w.interpreter i).heap.share h).1 = .ok n := congrArg Prod.fst heq
    rw [heq] at hshare
    refine hshare.newBoundary ?_
    cases hc : (w.interpreter i).heap.cell? h with
    | none => simp [Heap.share, hc] at hanswer
    | some c => exact Heap.contains_iff.2 ⟨c, hc⟩
  · rename_i heq
    rw [heq] at hshare
    exact hshare

/-! ## Host objects -/

theorem works_retainObject (w : World) (id : ObjectId) : Works w (w.retainObject id) :=
  Works.fades (fun _ => rfl) (w.store.fades_retain id) rfl

/-- Handling host objects makes no boundary object. -/
theorem hostClosed_works : HostClosed Works where
  refl := .refl
  trans := .trans
  dropObjects := fun w _ => .release _ w
  retainValues := fun w vs => Works.fades (fun _ => rfl) (w.store.fades_retainValues vs) rfl
  setItems := fun w id _ => Works.fades (fun _ => rfl)
    (w.store.fades_modify id fun _ _ _ => HostObject.eq_boundary_of_withItems) rfl
  setEntries := fun w id _ => Works.fades (fun _ => rfl)
    (w.store.fades_modify id fun _ _ _ => HostObject.eq_boundary_of_withEntries) rfl
  addObject := fun w _ ho => Works.fades (fun _ => rfl) (w.store.fades_add ho) rfl

/-! ## Arguments and results -/

theorem works_pushTemporary (w : World) (i : InterpreterId) (h : Handle) :
    Works w (w.pushTemporary i h).2 := by
  rw [pushTemporary_snd]
  exact works_guest_of_heap ((w.interpreter i).heap_ifLive h _)

theorem argumentClosed_works (i : InterpreterId) : ArgumentClosed i Works :=
  hostClosed_works.arguments (fun w => w.works_convert i)
    (fun _ _ => Works.guest (Heap.closed_evolves.allocate _ _))
    (fun _ h => Works.guest (Heap.closed_evolves.share _ h)) fun w h => w.works_pushTemporary i h

theorem works_boxResults (w : World) (i : InterpreterId) (count : Nat) :
    Works w (w.boxResults i count).2 :=
  hostClosed_works.boxResults (fun _ => works_guest_of_heap rfl) (fun w h => w.works_wrapScalar i h)
    w count

end World

/-! ## Operations -/

namespace Op

open World

theorem works_defineIn (i : InterpreterId) (package name : String) (closure : ObjectId)
    (w : World) : Works w (defineIn i package name closure w) := by
  have hdefine : ∀ sub : Sub, Works (w.retainObject closure)
      ((w.retainObject closure).guest i fun it =>
        ((), { it with packages := it.packages.define package name sub })).2 :=
    fun sub => works_guest_of_heap rfl
  exact ((w.works_retainObject closure).trans (hdefine _)).trans (.release _ _)

/-- Does an operation write to a collector, by itself or through a bridge? -/
def reports : Op → Bool
  | marshal .. | wrap .. | passArguments .. | resume .. | count .. | record .. => true
  | _ => false

theorem works_perform {o : Op} (hquiet : o.reports = false) (w : World) :
    Works w (o.perform w).2 := by
  cases o with
  | marshal | wrap | passArguments | resume | count | record => cases hquiet
  | create i seed => exact Works.guest (Heap.closed_evolves.allocate _ seed.body)
  | newCode i name closure =>
    exact (w.works_retainObject closure).trans
      (Works.guest (Heap.closed_evolves.allocate _ _))
  | define i package name closure => exact works_defineIn i package name closure w
  | declareParents i package parents =>
    exact works_guest_of_heap
      (f := fun it => ((), { it with packages := it.packages.declareParents package parents })) rfl
  | mark i => exact works_guest_of_heap (f := fun it => ((), it.mark)) rfl
  | openScope i => exact works_guest_of_heap (f := (·.openScope)) rfl
  | pop i => exact works_guest_of_heap (f := (·.pop)) rfl
  | referTaking i target => exact Works.guest (Heap.evolves_referTaking _ target)
  | referSharing i target => exact Works.guest (Heap.evolves_referSharing _ target)
  | guestArrayPush i array item => exact Works.guest (Heap.evolves_arrayPush _ array item)
  | guestHashStore i hash key value =>
    exact Works.guest (Heap.evolves_hashStore _ hash key value)
  | bless i reference package =>
    exact Works.guest (Heap.evolves_blessTarget _ reference package)
  | share i h => exact Works.guest (Heap.closed_evolves.share _ h)
  | unshare i h => exact Works.guest (Heap.closed_evolves.unshare _ h)
  | push i h | pushTemporary i h | addTemporary i h =>
    exact works_guest_of_heap ((w.interpreter i).heap_ifLive h _)
  | closeScope i depth => exact .closeScope w i depth
  | newArray | newHash | newObject | retain | drop | dropEach | dropObject | arrayPush
  | arrayUnshift | arrayShift | arrayGet | arrayDrain | arrayClear | arrayList | hashInsert
  | hashGet | hashDrain | unwrap => exact hostClosed_works.perform rfl w
  | dropInterpreter i =>
    have hholds : Works w (w.setHolds i (w.holds.get i.number - 1)) :=
      Works.fades (fun _ => rfl) (.refl _) rfl
    exact hholds.trans (.release _ _)
  | newInterpreter | holdInterpreter | newCollector | remark =>
    exact Works.fades (fun _ => rfl) (.refl _) rfl

/-- An operation across a bridge works and then reports once. -/
theorem completes_perform {o : Op} (hwrites : o.writes? = none) (w : World) :
    Completes (o.completion? w (o.perform w).1) w (o.perform w).2 := by
  cases o with
  | count | record => cases hwrites
  | marshal b v => exact ⟨_, w.works_convert b.interpreter b.config v, tally_eq _ b _ _ _⟩
  | wrap b h => exact ⟨_, w.works_wrapScalar b.interpreter h, tally_eq _ b _ _ _⟩
  | passArguments b positional named =>
    exact ⟨_, (argumentClosed_works _).pushAll w b.config positional named, tally_eq _ b _ _ _⟩
  | resume b ctx next => exact ⟨w, .refl w, w.resume_eq b ctx next⟩
  | unwrap b v => exact ⟨_, hostClosed_works.unwrap w b v, rfl⟩
  | _ => exact (works_perform rfl w).completes

theorem advances_perform (o : Op) (w : World) : Advances w (o.perform w).2 := by
  cases hwrites : o.writes? with
  | none => exact (completes_perform hwrites w).advances
  | some c =>
    cases o with
    | count | record => exact .fades (fun _ => rfl) (.refl _)
    | _ => cases hwrites

end Op

/-! ## Calls -/

namespace Machine

open World

variable {κ : Type} {b : Bridge} {i : InterpreterId}
variable {prepare : World → (Except CrossingError Unit × List ObjectId) × World}
variable {take : Interpreter → Except Fault (Sub × List Handle) × Interpreter}
variable {detail : String} {d : Except CrossingError ObjectId → Option Completion}

theorem works_startCall (htake : ∀ it, (take it).2.heap = it.heap) (i : InterpreterId)
    (m : Machine κ) : Works m.world (m.startCall i take).2.world := by
  have htaken : Works m.world (m.world.guest i take).2 := works_guest_of_heap (htake _)
  rcases hrun : m.world.guest i take with ⟨fault | ⟨sub, args⟩, w⟩
  · rw [hrun] at htaken
    simp only [startCall, onWorld, hrun]
    exact htaken
  · rw [hrun] at htaken
    simp only [startCall, onWorld, hrun]
    exact htaken.trans (w.works_retainObject sub.closure)

theorem works_openAcross (hprepare : ∀ w, Works w (prepare w).2) (b : Bridge)
    (m : Machine κ) : Works m.world (m.openAcross b prepare).2.world := by
  have hopen : Works m.world (m.world.guest b.interpreter (·.openScope)).2 :=
    works_guest_of_heap rfl
  have hmark : Works (m.world.guest b.interpreter (·.openScope)).2
      (m.world.opened b.interpreter) := works_guest_of_heap rfl
  have hopened := (hopen.trans hmark).trans (hprepare (m.world.opened b.interpreter))
  rcases hready : prepare (m.world.opened b.interpreter) with ⟨⟨ready, held⟩, w⟩
  rw [hready] at hopened
  rw [openAcross_eq hready]
  exact hopened

/-- A report of how a call ended is that of its completion. -/
def Tallied (b : Bridge) (detail : String)
    (d : Except CrossingError ObjectId → Option Completion) : Prop :=
  ∀ result (w : World), w.tally b .call detail result = w.entered (d result)

theorem completes_closeAcross (hd : Tallied b detail d)
    (depth : Nat) (held : List ObjectId) (result : Except CrossingError ObjectId) (m : Machine κ) :
    Completes (d result) m.world (m.closeAcross b detail depth held result).world :=
  ⟨_, (Works.closeScope m.world b.interpreter depth).trans (.release _ _), hd result _⟩

/-- A call across a bridge that ends before its sub runs is completed by that. -/
theorem completes_startAcross (hd : Tallied b detail d)
    (hprepare : ∀ w, Works w (prepare w).2) (htake : ∀ it, (take it).2.heap = it.heap)
    (m : Machine κ) :
    Completes ((Completion.failure? (m.startAcross b prepare take detail).1).bind (d <| .error ·))
      m.world (m.startAcross b prepare take detail).2.world := by
  have hopen := works_openAcross hprepare b m
  rcases hopened : m.openAcross b prepare with ⟨⟨depth, e | ⟨⟩, held⟩, m₁⟩
  · rw [hopened] at hopen
    simp only [startAcross, hopened]
    exact hopen.trans_completes (completes_closeAcross hd depth held (.error e) m₁)
  · rw [hopened] at hopen
    have hstart := hopen.trans (works_startCall htake b.interpreter m₁)
    rcases hfound : m₁.startCall b.interpreter take with ⟨fault | ⟨l, args⟩, m₂⟩
    · rw [hfound] at hstart
      simp only [startAcross, hopened, hfound]
      exact hstart.trans_completes
        (completes_closeAcross hd depth held (.error (.guest fault)) m₂)
    · rw [hfound] at hstart
      simp only [startAcross, hopened, hfound]
      exact hstart.completes

theorem works_endCall (i : InterpreterId) (mode : Mode) (l : Landing)
    (outcome : Except Fault (List Handle)) (m : Machine κ) :
    Works m.world (m.endCall i mode l outcome).2.world := by
  cases outcome with
  | error fault => exact .release _ _
  | ok results =>
    have hsettle : Works m.world (m.world.guest i (·.settle mode results)).2 :=
      Works.guest ((m.world.interpreter i).evolves_settle mode results)
    exact hsettle.trans (.release _ _)

theorem works_boxOutcome (i : InterpreterId) (settled : Except Fault Nat) (m : Machine κ) :
    Works m.world (boxOutcome i settled m).2.world := by
  cases settled with
  | error fault => exact .refl m.world
  | ok count => exact m.world.works_boxResults i count

theorem completes_endAcross (hd : Tallied b detail d)
    (mode : Mode) (l : Landing) (outcome : Except Fault (List Handle)) (m : Machine κ) :
    Completes (d (m.endAcross b mode detail l outcome).1) m.world
      (m.endAcross b mode detail l outcome).2.world := by
  have hended := m.works_endCall b.interpreter mode l outcome
  have hboxed := works_boxOutcome b.interpreter (m.endCall b.interpreter mode l outcome).1
    (m.endCall b.interpreter mode l outcome).2
  exact (hended.trans hboxed).trans_completes (completes_closeAcross hd l.depth l.held _ _)

end Machine

namespace Call

open World

theorem tallied_method (b : Bridge) (name : String) :
    Machine.Tallied b ("method " ++ name) fun result => some (.method b name result) :=
  fun result w => w.tally_eq b .call _ result

theorem tallied_sub (b : Bridge) (target : Target) :
    Machine.Tallied b ("sub " ++ target.text) fun result => some (.sub b target result) :=
  fun result w => w.tally_eq b .call _ result

theorem completes_start (c : Call) (m : Machine Code) :
    Completes (c.entry? (c.start m).1) m.world (c.start m).2.world := by
  have hmethod : ∀ (name : String) (it : Interpreter), (it.takeMethodCall name).2.heap = it.heap :=
    fun name it => by rw [it.takeMethodCall_snd]; rfl
  have hsub : ∀ (target : Target) (it : Interpreter), (it.takeSubCall target).2.heap = it.heap :=
    fun target it => by rw [it.takeSubCall_snd]; rfl
  cases c with
  | guestMethod i name mode =>
    have hstart := (Machine.works_startCall (hmethod name) i m).completes
    rw [start]
    split <;> (rename_i heq; rw [heq] at hstart; exact hstart)
  | guestSub i target mode =>
    have hstart := (Machine.works_startCall (hsub target) i m).completes
    rw [start]
    split <;> (rename_i heq; rw [heq] at hstart; exact hstart)
  | method b name invocant positional named =>
    have hstart := Machine.completes_startAcross (tallied_method b name)
      ((argumentClosed_works b.interpreter).prepareMethod invocant positional named) (hmethod name) m
    rw [start]
    split <;> (rename_i heq; rw [heq] at hstart; exact hstart)
  | sub b target mode positional named =>
    have hstart := Machine.completes_startAcross (tallied_sub b target)
      ((argumentClosed_works b.interpreter).prepareSub positional named) (hsub target) m
    rw [start]
    split <;> (rename_i heq; rw [heq] at hstart; exact hstart)

theorem completes_finish (c : Call) (l : Landing) (outcome : Except Fault (List Handle))
    (m : Machine Code) :
    Completes (c.completion? (c.finish l outcome m).1) m.world (c.finish l outcome m).2.world := by
  cases c with
  | guestMethod i name mode => exact (m.works_endCall i mode l outcome).completes
  | guestSub i target mode => exact (m.works_endCall i mode l outcome).completes
  | method b name => exact Machine.completes_endAcross (tallied_method b name) .list l outcome m
  | sub b target mode => exact Machine.completes_endAcross (tallied_sub b target) mode l outcome m

end Call

/-! ## Steps -/

/-- A step that writes to no collector past all bridges works, and then reports what it completes.
-/
theorem State.completes_step {s t : State} (hstep : s.step = some t) (hwrites : s.writes? = none) :
    World.Completes s.completed? s.machine.world t.machine.world := by
  obtain ⟨r, frames, m⟩ := s
  cases r with
  | finish outcome =>
    cases frames with
    | nil => cases hstep
    | cons f frames =>
      cases hstep
      exact f.call.completes_finish f.landing outcome m
  | act o next =>
    cases hstep
    exact o.completes_perform hwrites m.world
  | look next =>
    cases hstep
    exact (World.Works.refl m.world).completes
  | call c next =>
    cases hstep
    rw [machine_enter]
    exact c.completes_start m
  | closure captured code next =>
    cases hstep
    exact (World.hostClosed_works.newClosure m.world m.code.size captured).completes

/-- The log goes on with every step of a run. -/
theorem State.advances_step {s t : State} (hstep : s.step = some t) :
    World.Advances s.machine.world t.machine.world := by
  cases hwrites : s.writes? with
  | none => exact (completes_step hstep hwrites).advances
  | some c =>
    obtain ⟨r, frames, m⟩ := s
    cases r with
    | act o next =>
      cases hstep
      exact o.advances_perform m.world
    | _ => cases hwrites

end GuestBridge
