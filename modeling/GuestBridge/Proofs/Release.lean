import GuestBridge.Proofs.Cascade.Unwinding
import GuestBridge.Proofs.Ledger.Heap
import GuestBridge.World.Objects

/-!
# What a release leaves alone

Letting go takes things away and changes nothing that stays: a scalar keeps its body and an object
its content, and no stack is touched. `Recedes` says so from one heap or world to another, and it
holds along any release, whatever is let go of.

A release reaches what its steps name, and what that names in turn. If all these names lie below a
bound, objects from the bound on are not even looked at (`holding?_release`). So what has just been
made, and is not named yet, outlives the release.
-/

namespace GuestBridge

/-! ## Heaps -/

namespace Heap

variable {hp hp₁ hp₂ : Heap} {h k : Handle} {c : Cell}

/-- A scalar that is there was there before with the same body, and a body that is parked was parked
before or was that of a scalar. -/
structure Recedes (hp hp₁ : Heap) : Prop where
  cell : ∀ k c₁, hp₁.cell? k = some c₁ → ∃ c, hp.cell? k = some c ∧ c.body = c₁.body
  freed : ∀ body ∈ hp₁.freed.toList,
    body ∈ hp.freed.toList ∨ ∃ k c, hp.cell? k = some c ∧ c.body = body

theorem Recedes.refl (hp : Heap) : Recedes hp hp where
  cell := fun _ c hc => ⟨c, hc, rfl⟩
  freed := fun _ hmem => .inl hmem

theorem Recedes.trans (hfirst : Recedes hp hp₁) (hnext : Recedes hp₁ hp₂) : Recedes hp hp₂ where
  cell := by
    intro k c₂ hc₂
    obtain ⟨c₁, hc₁, hbody₁⟩ := hnext.cell k c₂ hc₂
    obtain ⟨c, hc, hbody⟩ := hfirst.cell k c₁ hc₁
    exact ⟨c, hc, hbody.trans hbody₁⟩
  freed := by
    intro body hmem
    rcases hnext.freed body hmem with hmem | ⟨k, c₁, hc₁, rfl⟩
    · exact hfirst.freed body hmem
    · obtain ⟨c, hc, hbody⟩ := hfirst.cell k c₁ hc₁
      exact .inr ⟨k, c, hc, hbody⟩

theorem recedes_setCell (hc : hp.cell? h = some c) {c' : Cell} (hbody : c'.body = c.body) :
    Recedes hp (hp.setCell h c') where
  cell := by
    intro k d hd
    rw [cell?_setCell hc] at hd
    split at hd
    · rename_i hk
      rw [← Option.some.inj hd]
      exact ⟨c, hk ▸ hc, hbody.symm⟩
    · exact ⟨d, hd, rfl⟩
  freed := fun _ hmem => .inl hmem

theorem recedes_vacate (hc : hp.cell? h = some c) : Recedes hp (hp.vacate h c.body) where
  cell := by
    intro k d hd
    rw [cell?_vacate_eq hc] at hd
    split at hd
    · simp at hd
    · exact ⟨d, hd, rfl⟩
  freed := by
    intro body hmem
    rw [show (hp.vacate h c.body).freed = hp.freed.push c.body from rfl, Array.toList_push,
      List.mem_append, List.mem_singleton] at hmem
    rcases hmem with hmem | rfl
    · exact .inl hmem
    · exact .inr ⟨h, c, hc, rfl⟩

theorem recedes_cascade (pending : List Handle) (hp : Heap) :
    Recedes hp (cascade pending hp).2 := by
  fun_induction Heap.cascade pending hp with
  | case1 hp => exact .refl hp
  | case2 hp => exact .refl hp
  | case3 hp h rest c hc hleft ih => exact (recedes_vacate hc).trans ih
  | case4 hp h rest c hc hleft ih =>
    have hset : Recedes hp (hp.setCell h { c with shares := c.shares - 1 }) :=
      recedes_setCell hc rfl
    exact hset.trans ih

theorem recedes_unshare (hp : Heap) (h : Handle) : Recedes hp (hp.unshare h).2 := by
  rw [unshare_snd]
  exact recedes_cascade [h] hp

theorem recedes_unshareEach (hs : List Handle) : ∀ hp : Heap, Recedes hp (hp.unshareEach hs).2 := by
  induction hs with
  | nil => exact fun hp => .refl hp
  | cons h rest ih =>
    intro hp
    rw [unshareEach_cons_snd]
    exact (hp.recedes_unshare h).trans (ih _)

theorem recedes_share (hp : Heap) (h : Handle) : Recedes hp (hp.share h).2 := by
  cases hc : hp.cell? h with
  | none =>
    rw [share_eq_of_none hc]
    exact .refl hp
  | some c =>
    rw [share_eq_of_cell? hc]
    exact recedes_setCell hc rfl

theorem recedes_clear (hp : Heap) : Recedes hp hp.clear := by
  unfold clear
  generalize hp.handles = hs
  induction hs generalizing hp with
  | nil => exact .refl hp
  | cons h rest ih =>
    refine Recedes.trans ?_ (ih (hp.discard h))
    unfold discard
    split
    · rename_i c hc
      exact recedes_vacate hc
    · exact .refl hp

theorem recedes_takeFreed (hp : Heap) : Recedes hp hp.takeFreed.2 where
  cell := fun _ c hc => ⟨c, hc, rfl⟩
  freed := by
    intro body hmem
    exact absurd hmem List.not_mem_nil

end Heap

/-! ## Stores -/

theorem Store.holding?_put {st : Store} {id : ObjectId} {h : Holding}
    (hh : st.holding? id = some h) (o : Option Holding) (j : ObjectId) :
    (st.put id o).holding? j = if j = id then o else st.holding? j := by
  obtain ⟨hlt, -⟩ := Array.getElem?_eq_some_iff.1 (getElem?_of_holding? hh)
  by_cases hj : j = id
  · subst hj
    simp [holding?, put, Array.getElem?_setIfInBounds_self_of_lt hlt]
  · have hne : id.number ≠ j.number := fun hn => hj (by cases id; cases j; simp_all)
    rw [if_neg hj, holding?, put, Array.getElem?_setIfInBounds_ne hne, holding?]

theorem Store.holding?_add (st : Store) (o : HostObject) (id : ObjectId) :
    (st.add o).2.holding? id =
      if id.number = st.holdings.size then some { holders := 1, object := o }
      else st.holding? id := by
  rw [holding?, add, Array.getElem?_push]
  split
  · rfl
  · rw [holding?]

theorem Store.get?_add (st : Store) (o : HostObject) (id : ObjectId) :
    (st.add o).2.get? id = if id.number = st.holdings.size then some o else st.get? id := by
  rw [get?, holding?_add]
  split <;> rfl

/-! ## Worlds -/

namespace World

variable {w w₁ w₂ : World} {i : InterpreterId} {it : Interpreter} {steps more : List ReleaseStep}

/-- No stack has changed. What is there was there before: a scalar with the same body, a closure of
a sub, an object with the same content. -/
structure Recedes (w w₁ : World) : Prop where
  heap : ∀ i, Heap.Recedes (w.interpreter i).heap (w₁.interpreter i).heap
  stack : ∀ i, (w₁.interpreter i).stack = (w.interpreter i).stack
  closures : ∀ i, ∀ id ∈ (w₁.interpreter i).packages.closures,
    id ∈ (w.interpreter i).packages.closures
  object : ∀ id h₁, w₁.store.holding? id = some h₁ →
    ∃ h, w.store.holding? id = some h ∧ h.object = h₁.object
  size : w₁.store.holdings.size = w.store.holdings.size

theorem Recedes.refl (w : World) : Recedes w w where
  heap := fun _ => .refl _
  stack := fun _ => rfl
  closures := fun _ _ hmem => hmem
  object := fun _ h hh => ⟨h, hh, rfl⟩
  size := rfl

theorem Recedes.trans (hfirst : Recedes w w₁) (hnext : Recedes w₁ w₂) : Recedes w w₂ where
  heap := fun i => (hfirst.heap i).trans (hnext.heap i)
  stack := fun i => (hnext.stack i).trans (hfirst.stack i)
  closures := fun i id hmem => hfirst.closures i id (hnext.closures i id hmem)
  object := by
    intro id h₂ hh₂
    obtain ⟨h₁, hh₁, hobject₁⟩ := hnext.object id h₂ hh₂
    obtain ⟨h, hh, hobject⟩ := hfirst.object id h₁ hh₁
    exact ⟨h, hh, hobject.trans hobject₁⟩
  size := hnext.size.trans hfirst.size

theorem recedes_setInterpreter (w : World)
    (hheap : Heap.Recedes (w.interpreter i).heap it.heap)
    (hstack : it.stack = (w.interpreter i).stack)
    (hclosures : ∀ id ∈ it.packages.closures, id ∈ (w.interpreter i).packages.closures) :
    Recedes w (w.setInterpreter i it) where
  heap := by
    intro j
    rw [interpreter_setInterpreter]
    split
    · rename_i hij
      exact hij ▸ hheap
    · exact .refl _
  stack := by
    intro j
    rw [interpreter_setInterpreter]
    split
    · rename_i hij
      exact hij ▸ hstack
    · rfl
  closures := by
    intro j id hmem
    rw [interpreter_setInterpreter] at hmem
    split at hmem
    · rename_i hij
      exact hij ▸ hclosures id hmem
    · exact hmem
  object := fun _ h hh => ⟨h, hh, rfl⟩
  size := rfl

/-- An object goes, or has fewer holders. -/
theorem recedes_put {id : ObjectId} {h : Holding} (hh : w.store.holding? id = some h)
    {o : Option Holding} (ho : ∀ h', o = some h' → h'.object = h.object) :
    Recedes w { w with store := w.store.put id o } where
  heap := fun _ => .refl _
  stack := fun _ => rfl
  closures := fun _ _ hmem => hmem
  object := by
    intro j h₁ hh₁
    dsimp only at hh₁
    rw [Store.holding?_put hh] at hh₁
    split at hh₁
    · rename_i hj
      exact ⟨h, hj ▸ hh, (ho h₁ hh₁).symm⟩
    · exact ⟨h₁, hh₁, rfl⟩
  size := by
    simp [Store.put]

theorem recedes_takeFreed (w : World) (i : InterpreterId) : Recedes w (w.takeFreed i).2 := by
  rw [takeFreed, onInterpreter_eq]
  exact w.recedes_setInterpreter (Heap.recedes_takeFreed _) rfl fun _ hmem => hmem

theorem recedes_unshare (w : World) (i : InterpreterId) (h : Handle) :
    Recedes w (w.onInterpreter i (·.unshare h)).2 := by
  rw [onInterpreter_eq]
  exact w.recedes_setInterpreter (Heap.recedes_unshare _ h) rfl fun _ hmem => hmem

theorem dropBoundary_snd (w : World) (owner : InterpreterId) (handle : Handle) :
    (w.dropBoundary owner handle).2
      = ((w.onInterpreter owner (·.unshare handle)).2.takeFreed owner).2 := by
  unfold dropBoundary
  dsimp only
  split <;> rfl

theorem recedes_dismantle (w : World) (o : HostObject) : Recedes w (w.dismantle o).2 := by
  cases o with
  | boundary owner handle =>
    rw [dismantle, dropBoundary_snd]
    exact (w.recedes_unshare owner handle).trans (recedes_takeFreed _ owner)
  | array | hash | object | closure => exact .refl w

theorem recedes_endInterpreter (w : World) (i : InterpreterId) :
    Recedes w (w.endInterpreter i).2 := by
  have hclear : Recedes w (w.setInterpreter i (w.interpreter i).clear) :=
    w.recedes_setInterpreter (Heap.recedes_clear _) rfl fun id hmem => absurd hmem List.not_mem_nil
  exact hclear.trans (recedes_takeFreed _ i)

end World

/-! ## Releases -/

/-- Objects go and are not changed, and scalars go and are not changed. -/
theorem Unwinding.Step.recedes {u u' : Unwinding} (hstep : Step u u') :
    World.Recedes u.world u'.world := by
  cases hstep with
  | report =>
    exact ⟨fun _ => .refl _, fun _ => rfl, fun _ _ h => h, fun _ h hh => ⟨h, hh, rfl⟩, rfl⟩
  | held | absent => exact .refl _
  | ends => exact World.recedes_endInterpreter _ _
  | last hh => exact (World.recedes_put hh (by simp)).trans (World.recedes_dismantle _ _)
  | fewer hh => exact World.recedes_put hh fun h' hh' => by rw [← Option.some.inj hh']

theorem Unwinds.recedes {u : Unwinding} {us : List Unwinding} {w : World}
    (hrun : Unwinds u us w) : World.Recedes u.world w :=
  (hrun.induct (P := fun x => World.Recedes u.world x.world) (.refl _)
    fun _ _ hbefore hstep => hbefore.trans hstep.recedes).2

namespace World

variable {w w₁ w₂ : World} {i : InterpreterId} {it : Interpreter} {steps more : List ReleaseStep}

theorem recedes_release (steps : List ReleaseStep) (w : World) : Recedes w (w.release steps) :=
  release_rel Recedes.refl Recedes.trans Unwinding.Step.recedes steps w

theorem recedes_settleFreed (w : World) (i : InterpreterId) : Recedes w (w.settleFreed i) :=
  (w.recedes_takeFreed i).trans (recedes_release _ _)

/-- An operation on one interpreter, and what is let go of after it. -/
theorem recedes_guest (w : World) (i : InterpreterId) (f : Interpreter → α × Interpreter) :
    Recedes (w.setInterpreter i (f (w.interpreter i)).2) (w.guest i f).2 := by
  rw [guest, onInterpreter_eq]
  exact recedes_settleFreed _ i

/-- What the operation leaves on the heap only recedes after it. -/
theorem heap_guest (w : World) (i : InterpreterId) (f : Interpreter → α × Interpreter) :
    Heap.Recedes (f (w.interpreter i)).2.heap ((w.guest i f).2.interpreter i).heap := by
  have hheap := (w.recedes_guest i f).heap i
  rw [interpreter_setInterpreter, if_pos rfl] at hheap
  exact hheap

/-- The stack of the interpreter is what the operation makes it. -/
theorem stack_guest (w : World) (i : InterpreterId) (f : Interpreter → α × Interpreter) :
    ((w.guest i f).2.interpreter i).stack = (f (w.interpreter i)).2.stack := by
  rw [(w.recedes_guest i f).stack, interpreter_setInterpreter, if_pos rfl]

/-! ## What is named -/

/-- All that the world names lies below a bound: the parts of objects below it, and the closures of
scalars, of parked bodies and of subs. -/
structure NamesBelow (n : Nat) (w : World) : Prop where
  parts : ∀ id h, id.number < n → w.store.holding? id = some h →
    ∀ v ∈ h.object.parts, ∀ x, v.shared? = some x → x.number < n
  bodies : ∀ i k c, (w.interpreter i).heap.cell? k = some c →
    ∀ x, c.body.closure? = some x → x.number < n
  freed : ∀ i, ∀ body ∈ (w.interpreter i).heap.freed.toList,
    ∀ x, body.closure? = some x → x.number < n
  subs : ∀ i, ∀ x ∈ (w.interpreter i).packages.closures, x.number < n

variable {n : Nat}

/-- Does the identifier, if there is one, lie below the bound? -/
def isBelow (n : Nat) (id : Option ObjectId) : Bool := id.all (·.number < n)

/-- Does all that the world names lie below a bound? -/
def namesBelow (n : Nat) (w : World) : Bool :=
  w.store.holdings.all (·.all (·.object.parts.all (isBelow n ·.shared?))) &&
    w.interpreters.entries.all fun it =>
      it.heap.slots.all (·.cell.all (isBelow n ·.body.closure?)) &&
        it.heap.freed.all (isBelow n ·.closure?) && it.packages.closures.all (·.number < n)

/-- An interpreter is an entry of the table, or it is empty. -/
theorem namesBelow_sound (hcheck : w.namesBelow n = true) : NamesBelow n w := by
  simp only [namesBelow, isBelow, Bool.and_eq_true, Array.all_eq_true', List.all_eq_true,
    Option.all_eq_true, decide_eq_true_eq] at hcheck
  obtain ⟨hparts, hinterpreters⟩ := hcheck
  have hcases : ∀ i, w.interpreter i ∈ w.interpreters.entries ∨ w.interpreter i = {} := by
    intro i
    rw [interpreter, Table.get, Array.getD_eq_getD_getElem?]
    cases hi : w.interpreters.entries[i.number]? with
    | none => exact .inr rfl
    | some it => exact .inl (Array.mem_of_getElem? hi)
  refine ⟨?_, ?_, ?_, ?_⟩
  · intro id h _ hh v hv x hx
    exact hparts _ (Array.mem_of_getElem? (Store.getElem?_of_holding? hh)) h rfl v hv x hx
  · intro i k c hc x hx
    rcases hcases i with hmem | hempty
    · have hslot := Array.mem_of_getElem? (Heap.getElem?_of_cell? hc)
      exact (hinterpreters _ hmem).1.1 _ hslot c rfl x hx
    · rw [hempty] at hc
      simp [Heap.cell?] at hc
  · intro i body hbody x hx
    rcases hcases i with hmem | hempty
    · exact (hinterpreters _ hmem).1.2 body (Array.mem_toList_iff.1 hbody) x hx
    · rw [hempty] at hbody
      simp at hbody
  · intro i x hx
    rcases hcases i with hmem | hempty
    · exact (hinterpreters _ hmem).2 x hx
    · rw [hempty] at hx
      simp [Packages.closures] at hx

theorem NamesBelow.recedes (hnames : NamesBelow n w) (hrec : Recedes w w₁) : NamesBelow n w₁ where
  parts := by
    intro id h₁ hid hh₁
    obtain ⟨h, hh, hobject⟩ := hrec.object id h₁ hh₁
    rw [← hobject]
    exact hnames.parts id h hid hh
  bodies := by
    intro i k c₁ hc₁
    obtain ⟨c, hc, hbody⟩ := (hrec.heap i).cell k c₁ hc₁
    rw [← hbody]
    exact hnames.bodies i k c hc
  freed := by
    intro i body hmem
    rcases (hrec.heap i).freed body hmem with hmem | ⟨k, c, hc, rfl⟩
    · exact hnames.freed i body hmem
    · exact hnames.bodies i k c hc
  subs := fun i x hmem => hnames.subs i x (hrec.closures i x hmem)

/-- An interpreter is replaced, and what its scalars and parked bodies name lies below the bound. -/
theorem NamesBelow.setInterpreter (hnames : NamesBelow n w)
    (hbodies : ∀ k c, it.heap.cell? k = some c → ∀ x, c.body.closure? = some x → x.number < n)
    (hfreed : ∀ body ∈ it.heap.freed.toList, ∀ x, body.closure? = some x → x.number < n)
    (hsubs : it.packages = (w.interpreter i).packages) : NamesBelow n (w.setInterpreter i it) where
  parts := hnames.parts
  bodies := by
    intro j k c hc
    rw [interpreter_setInterpreter] at hc
    split at hc
    · exact hbodies k c hc
    · exact hnames.bodies j k c hc
  freed := by
    intro j body hmem
    rw [interpreter_setInterpreter] at hmem
    split at hmem
    · exact hfreed body hmem
    · exact hnames.freed j body hmem
  subs := by
    intro j x hmem
    rw [interpreter_setInterpreter] at hmem
    split at hmem
    · rw [hsubs] at hmem
      exact hnames.subs i x hmem
    · exact hnames.subs j x hmem

/-- The stack may change as it likes. -/
theorem NamesBelow.setInterpreter_recedes (hnames : NamesBelow n w)
    (hheap : Heap.Recedes (w.interpreter i).heap it.heap)
    (hsubs : it.packages = (w.interpreter i).packages) :
    NamesBelow n (w.setInterpreter i it) := by
  refine hnames.setInterpreter ?_ ?_ hsubs
  · intro k c₁ hc₁
    obtain ⟨c, hc, hbody⟩ := hheap.cell k c₁ hc₁
    rw [← hbody]
    exact hnames.bodies i k c hc
  · intro body hmem
    rcases hheap.freed body hmem with hmem | ⟨k, c, hc, rfl⟩
    · exact hnames.freed i body hmem
    · exact hnames.bodies i k c hc

/-- A new scalar without a closure names nothing. -/
theorem NamesBelow.setInterpreter_allocate {body : Body} (hnames : NamesBelow n w)
    (hwf : (w.interpreter i).heap.WellFormed) (hbody : body.closure? = none)
    (hheap : it.heap = ((w.interpreter i).heap.allocate body).2)
    (hsubs : it.packages = (w.interpreter i).packages) :
    NamesBelow n (w.setInterpreter i it) := by
  refine hnames.setInterpreter ?_ ?_ hsubs
  · intro k c hc x hx
    rw [hheap, hwf.cell?_allocate] at hc
    split at hc
    · rw [← Option.some.inj hc, hbody] at hx
      simp at hx
    · exact hnames.bodies i k c hc x hx
  · intro body hmem
    rw [hheap, Heap.freed_allocate] at hmem
    exact hnames.freed i body hmem

/-- The steps name objects below the bound. -/
def StepsBelow (n : Nat) (steps : List ReleaseStep) : Prop :=
  ∀ id, ReleaseStep.holder id ∈ steps → id.number < n

theorem StepsBelow.append (hsteps : StepsBelow n steps) (hmore : StepsBelow n more) :
    StepsBelow n (steps ++ more) := by
  intro id hmem
  rcases List.mem_append.1 hmem with hmem | hmem
  · exact hsteps id hmem
  · exact hmore id hmem

theorem StepsBelow.tail {step : ReleaseStep} (hsteps : StepsBelow n (step :: steps)) :
    StepsBelow n steps := fun id hmem => hsteps id (List.mem_cons_of_mem _ hmem)

theorem stepsBelow_holders {ids : List ObjectId} (hids : ∀ id ∈ ids, id.number < n) :
    StepsBelow n (ids.map .holder) := by
  intro id hmem
  obtain ⟨id', hmem', heq⟩ := List.mem_map.1 hmem
  cases heq
  exact hids id hmem'

theorem NamesBelow.takeFreed (hnames : NamesBelow n w) (i : InterpreterId) :
    StepsBelow n (w.takeFreed i).1 := by
  rw [World.takeFreed, onInterpreter_eq]
  refine stepsBelow_holders ?_
  intro id hmem
  obtain ⟨body, hbody, hid⟩ := List.mem_filterMap.1 hmem
  exact hnames.freed i body hbody id hid

theorem NamesBelow.endInterpreter (hnames : NamesBelow n w) (i : InterpreterId) :
    StepsBelow n (w.endInterpreter i).1 := by
  have hclear : Recedes w (w.setInterpreter i (w.interpreter i).clear) :=
    w.recedes_setInterpreter (Heap.recedes_clear _) rfl fun id hmem => absurd hmem List.not_mem_nil
  exact ((hnames.recedes hclear).takeFreed i).append (stepsBelow_holders (hnames.subs i))

theorem NamesBelow.dropBoundary (hnames : NamesBelow n w) (owner : InterpreterId)
    (handle : Handle) : StepsBelow n (w.dropBoundary owner handle).1 := by
  have htaken := (hnames.recedes (w.recedes_unshare owner handle)).takeFreed owner
  unfold World.dropBoundary
  dsimp only
  split
  · exact htaken.append (by simp [StepsBelow])
  · exact htaken.append (by simp [StepsBelow])

/-- What an object below the bound lets go of lies below it. -/
theorem NamesBelow.dismantle (hnames : NamesBelow n w) {id : ObjectId} {h : Holding}
    (hid : id.number < n) (hh : w.store.holding? id = some h) :
    StepsBelow n (World.dismantle { w with store := w.store.put id none } h.object).1 := by
  have hparts := hnames.parts id h hid hh
  have hother : StepsBelow n h.object.releaseSteps := by
    intro x hmem
    obtain ⟨v, hv, hstep⟩ := List.mem_flatMap.1 hmem
    obtain ⟨x', hx', heq⟩ := List.mem_map.1 hstep
    cases heq
    exact hparts v hv x (Option.mem_toList.1 hx')
  cases hobject : h.object with
  | boundary owner handle =>
    exact (hnames.recedes (recedes_put hh (o := none) (by simp))).dropBoundary owner handle
  | array | hash | object | closure =>
    rw [hobject] at hother
    exact hother

theorem store_dismantle (w : World) (o : HostObject) : (w.dismantle o).2.store = w.store := by
  cases o with
  | boundary owner handle =>
    rw [dismantle, dropBoundary_snd, takeFreed, onInterpreter_eq, onInterpreter_eq]
    rfl
  | array | hash | object | closure => rfl

theorem store_endInterpreter (w : World) (i : InterpreterId) :
    (w.endInterpreter i).2.store = w.store := by
  rw [endInterpreter, takeFreed, onInterpreter_eq]
  rfl

/-- The steps that a step leaves to be done name objects below the bound, and objects from the
bound on stay as they are. -/
theorem NamesBelow.step {u u' : Unwinding} (hnames : NamesBelow n u.world)
    (hsteps : StepsBelow n u.steps) (hstep : Unwinding.Step u u') :
    StepsBelow n u'.steps ∧ ∀ id : ObjectId, n ≤ id.number →
      u'.world.store.holding? id = u.world.store.holding? id := by
  have hput : ∀ {x : ObjectId} {h : Holding} {o : Option Holding} {st : Store},
      x.number < n → st.holding? x = some h →
      ∀ id : ObjectId, n ≤ id.number → (st.put x o).holding? id = st.holding? id := by
    intro x h o st hx hh id hid
    have hne : id ≠ x := fun he => absurd (he ▸ hx) (Nat.not_lt.2 hid)
    rw [Store.holding?_put hh, if_neg hne]
  cases hstep with
  | report | held | absent => exact ⟨hsteps.tail, fun _ _ => rfl⟩
  | @ends i rest w =>
    exact ⟨(hnames.endInterpreter i).append hsteps.tail,
      fun id _ => by rw [store_endInterpreter]⟩
  | @last x h rest w hh =>
    -- what the object lets go of has been made before, as the object has
    have hx := hsteps x List.mem_cons_self
    exact ⟨(hnames.dismantle hx hh).append hsteps.tail,
      fun id hid => by rw [store_dismantle, hput hx hh id hid]⟩
  | @fewer x h rest w hh =>
    exact ⟨hsteps.tail, hput (hsteps x List.mem_cons_self) hh⟩

/-- A release does not touch an object that neither its steps nor the world name. -/
theorem holding?_release (hnames : NamesBelow n w) (hsteps : StepsBelow n steps) {id : ObjectId}
    (hid : n ≤ id.number) : (w.release steps).store.holding? id = w.store.holding? id := by
  refine (release_induct (P := fun u => NamesBelow n u.world ∧ StepsBelow n u.steps ∧
    u.world.store.holding? id = w.store.holding? id) ⟨hnames, hsteps, rfl⟩ ?_).2.2
  rintro u u' ⟨hnames, hsteps, hsame⟩ hstep
  obtain ⟨hsteps', hsame'⟩ := hnames.step hsteps hstep
  exact ⟨hnames.recedes hstep.recedes, hsteps', (hsame' id hid).trans hsame⟩

theorem NamesBelow.holding?_settleFreed (hnames : NamesBelow n w) (i : InterpreterId)
    {id : ObjectId} (hid : n ≤ id.number) :
    (w.settleFreed i).store.holding? id = w.store.holding? id := by
  rw [settleFreed]
  dsimp only
  rw [holding?_release (hnames.recedes (w.recedes_takeFreed i)) (hnames.takeFreed i) hid,
    World.takeFreed, onInterpreter_eq]
  rfl

end World

end GuestBridge
