import GuestBridge.Proofs.Cascade.Handover

/-!
# The last holder

A host object is kept by whatever names it: a part of an object, the closure of a code scalar or of
a parked code body, a sub of a package table. Each of these has one hold on it, and so has each name
in the hands of host code and of running calls. `World.Counted` says that the number of its holders
counts these and nothing else.

A hold that is about to be let go of is a name in a step of the release. When an object goes, the
names of its parts come to these steps, and so do the closures of the bodies handed over, so the
count is right in every situation of a release (`Unwinds.counted`). An object that goes has
therefore no hold left besides the one that is let go of just then (`Unwinding.alone`).
-/

namespace GuestBridge

open Value (namesOf)

/-! ## Heaps -/

/-- How often a body keeps an object. -/
def Body.keepers (body : Body) (id : ObjectId) : Nat := body.closure?.toList.count id

theorem Body.count_closures (body : Body) (id : ObjectId) :
    ([body].filterMap closure?).count id = body.keepers id := by
  rw [List.filterMap_cons, List.filterMap_nil, keepers]
  cases body.closure? <;> rfl

namespace Heap

variable {hp : Heap} {h : Handle} {c : Cell} {id : ObjectId}

/-- How often the scalars and the parked bodies of a heap keep an object. -/
def keepers (hp : Heap) (id : ObjectId) : Nat :=
  total (fun s => s.cell.elim 0 (·.body.keepers id)) hp.slots
    + (hp.freed.toList.filterMap Body.closure?).count id

theorem keepers_setCell (hc : hp.cell? h = some c) {c' : Cell}
    (hbody : c'.body.keepers id = c.body.keepers id) :
    (hp.setCell h c').keepers id = hp.keepers id := by
  have htotal := total_setIfInBounds_of_cell? hc (fun s => s.cell.elim 0 (·.body.keepers id))
    { generation := h.generation, cell := some c' }
  simp only [Option.elim_some, hbody] at htotal
  simp only [keepers, setCell]
  omega

/-- A scalar that goes leaves its body parked. -/
theorem keepers_vacate (hc : hp.cell? h = some c) (id : ObjectId) :
    (hp.vacate h c.body).keepers id = hp.keepers id := by
  have htotal := total_setIfInBounds_of_cell? hc (fun s => s.cell.elim 0 (·.body.keepers id))
    { generation := h.generation + 1 }
  simp only [Option.elim_some, Option.elim_none] at htotal
  simp only [keepers, vacate, Array.toList_push, List.filterMap_append, List.count_append,
    Body.count_closures]
  omega

theorem keepers_cascade (pending : List Handle) (hp : Heap) (id : ObjectId) :
    (cascade pending hp).2.keepers id = hp.keepers id := by
  fun_induction Heap.cascade pending hp with
  | case1 => rfl
  | case2 => rfl
  | case3 hp h rest c hc hleft ih => rw [ih, keepers_vacate hc]
  | case4 hp h rest c hc hleft ih =>
    rw [ih]
    exact keepers_setCell hc rfl

theorem keepers_unshare (hp : Heap) (h : Handle) (id : ObjectId) :
    (hp.unshare h).2.keepers id = hp.keepers id := by
  rw [unshare_snd, keepers_cascade]

theorem keepers_unshareEach (hs : List Handle) (hp : Heap) (id : ObjectId) :
    (hp.unshareEach hs).2.keepers id = hp.keepers id := by
  induction hs generalizing hp with
  | nil => rfl
  | cons h rest ih => rw [unshareEach_cons_snd, ih, keepers_unshare]

theorem keepers_clear (hp : Heap) (id : ObjectId) : hp.clear.keepers id = hp.keepers id := by
  unfold clear
  generalize hp.handles = hs
  induction hs generalizing hp with
  | nil => rfl
  | cons h rest ih =>
    refine (ih (hp.discard h)).trans ?_
    unfold discard
    split
    · rename_i c hc
      exact keepers_vacate hc id
    · rfl

/-- The closures of the parked bodies are loose when they are handed over. -/
theorem keepers_takeFreed (hp : Heap) (id : ObjectId) :
    hp.takeFreed.2.keepers id + (hp.freed.toList.filterMap Body.closure?).count id
      = hp.keepers id := by
  simp [keepers, takeFreed]

theorem WellFormed.keepers_allocate (hwf : hp.WellFormed) (body : Body) (id : ObjectId) :
    (hp.allocate body).2.keepers id = hp.keepers id + body.keepers id := by
  have htotal := hwf.total_allocate body (fun s => s.cell.elim 0 (·.body.keepers id))
    (·.body.keepers id) fun _ => rfl
  rw [keepers, htotal, keepers, freed_allocate]
  dsimp only
  omega

end Heap

/-! ## Stores and worlds -/

/-- How often the code and the subs of an interpreter keep an object. -/
def Interpreter.keepers (it : Interpreter) (id : ObjectId) : Nat :=
  it.heap.keepers id + it.packages.closures.count id

theorem Interpreter.keepers_rested (it : Interpreter) (id : ObjectId) :
    it.rested.keepers id + it.orphans.count id = it.keepers id := by
  have htake := it.heap.keepers_takeFreed id
  simp only [keepers, rested, orphans]
  omega

theorem Interpreter.keepers_unshare (it : Interpreter) (h : Handle) (id : ObjectId) :
    (it.unshare h).2.keepers id = it.keepers id :=
  congrArg (· + it.packages.closures.count id) (it.heap.keepers_unshare h id)

/-- The subs of an interpreter that ends keep nothing any more. -/
theorem Interpreter.keepers_clear (it : Interpreter) (id : ObjectId) :
    it.clear.keepers id + it.packages.closures.count id = it.keepers id := by
  have hclear := it.heap.keepers_clear id
  simp only [keepers, clear, hclear]
  rfl

namespace Store

variable {st : Store} {id x : ObjectId} {h : Holding}

/-- How often the parts of the objects keep an object. -/
def keepers (st : Store) (id : ObjectId) : Nat :=
  total (fun o => o.elim 0 fun h => (namesOf h.object.parts).count id) st.holdings

/-- Number of holders; an object that is gone has none. -/
def holders (st : Store) (id : ObjectId) : Nat := (st.holding? id).elim 0 (·.holders)

theorem keepers_put (hh : st.holding? x = some h) (o : Option Holding) (id : ObjectId) :
    (st.put x o).keepers id + (namesOf h.object.parts).count id
      = st.keepers id + o.elim 0 fun h => (namesOf h.object.parts).count id :=
  total_setIfInBounds (fun o => o.elim 0 fun h => (namesOf h.object.parts).count id)
    (getElem?_of_holding? hh) o

theorem holders_put (hh : st.holding? x = some h) (o : Option Holding) (id : ObjectId) :
    (st.put x o).holders id = if id = x then o.elim 0 (·.holders) else st.holders id := by
  rw [holders, holding?_put hh]
  split <;> rfl

theorem holders_of_holding? (hh : st.holding? id = some h) : st.holders id = h.holders := by
  rw [holders, hh, Option.elim_some]

end Store

namespace World

variable {w w' : World} {i : InterpreterId} {it : Interpreter} {loose loose' : List ObjectId}

/-- How often a world keeps an object. -/
def keepers (w : World) (id : ObjectId) : Nat :=
  w.store.keepers id + w.interpreters.total (·.keepers id)

/-- Each object has one holder for each place in the world that keeps it and for each loose hold,
and an object without a holder is gone. -/
structure Counted (loose : List ObjectId) (w : World) : Prop where
  eq : ∀ id, w.store.holders id = loose.count id + w.keepers id
  pos : ∀ id h, w.store.holding? id = some h → 0 < h.holders

theorem keepers_setInterpreter (w : World) (i : InterpreterId) (it : Interpreter) (id : ObjectId) :
    (w.setInterpreter i it).keepers id + (w.interpreter i).keepers id
      = w.keepers id + it.keepers id := by
  have htotal := Table.total_set (f := (Interpreter.keepers · id)) rfl w.interpreters i.number it
  simp only [keepers, setInterpreter, interpreter]
  omega

/-- Holds move between the world and loose hands. -/
theorem Counted.move (hcount : Counted loose w) (hstore : w'.store = w.store)
    (hmoved : ∀ id, loose'.count id + w'.keepers id = loose.count id + w.keepers id) :
    Counted loose' w' where
  eq := fun id => by rw [hstore, hmoved, hcount.eq]
  pos := fun id h hh => hcount.pos id h (hstore ▸ hh)

/-- An interpreter frees scalars, which give up their closures when they are handed over, and may
forget subs. -/
theorem Counted.takeFreed {subs : List ObjectId} (hcount : Counted loose w)
    (hit : ∀ id, it.keepers id + subs.count id = (w.interpreter i).keepers id) :
    Counted (it.orphans ++ subs ++ loose) (w.setInterpreter i it.rested) := by
  refine hcount.move rfl fun id => ?_
  have hset := w.keepers_setInterpreter i it.rested id
  have hrested := it.keepers_rested id
  have hsame := hit id
  rw [List.count_append, List.count_append]
  omega

/-- A loose hold that is not the last one ends. -/
theorem Counted.fewer {id : ObjectId} {h : Holding} (hcount : Counted (id :: loose) w)
    (hh : w.store.holding? id = some h) (hleft : ¬ h.holders - 1 = 0) :
    Counted loose
      { w with store := w.store.put id (some { h with holders := h.holders - 1 }) } where
  eq := by
    intro x
    have hx := hcount.eq x
    have hput := Store.keepers_put hh (some { h with holders := h.holders - 1 }) x
    rw [Option.elim_some] at hput
    dsimp only [keepers] at hx hput ⊢
    rw [Store.holders_put hh]
    split
    · rename_i hxid
      subst hxid
      rw [Store.holders_of_holding? hh, List.count_cons_self] at hx
      simp only [Option.elim_some]
      omega
    · rename_i hxid
      rw [List.count_cons_of_ne (Ne.symm hxid)] at hx
      omega
  pos := by
    intro x h' hh'
    dsimp only at hh'
    rw [Store.holding?_put hh] at hh'
    split at hh'
    · rw [← Option.some.inj hh']
      dsimp only
      omega
    · exact hcount.pos x h' hh'

/-- A loose hold that is the last one has nothing besides it. -/
theorem Counted.alone {id : ObjectId} {h : Holding} (hcount : Counted (id :: loose) w)
    (hh : w.store.holding? id = some h) (hlast : h.holders - 1 = 0) :
    loose.count id = 0 ∧ w.keepers id = 0 := by
  have hid := hcount.eq id
  rw [Store.holders_of_holding? hh, List.count_cons_self] at hid
  have hpos := hcount.pos id h hh
  omega

/-- When the last hold ends the object goes, and what its parts name is loose. -/
theorem Counted.last {id : ObjectId} {h : Holding} (hcount : Counted (id :: loose) w)
    (hh : w.store.holding? id = some h) (hlast : h.holders - 1 = 0) :
    Counted (namesOf h.object.parts ++ loose) { w with store := w.store.put id none } where
  eq := by
    intro x
    have hx := hcount.eq x
    have hput := Store.keepers_put hh none x
    rw [Option.elim_none] at hput
    dsimp only [keepers] at hx ⊢
    rw [Store.holders_put hh, List.count_append]
    split
    · rename_i hxid
      subst hxid
      obtain ⟨hloose, hnone⟩ := hcount.alone hh hlast
      rw [keepers] at hnone
      rw [Option.elim_none]
      omega
    · rename_i hxid
      rw [List.count_cons_of_ne (Ne.symm hxid)] at hx
      omega
  pos := by
    intro x h' hh'
    dsimp only at hh'
    rw [Store.holding?_put hh] at hh'
    split at hh'
    · cases hh'
    · exact hcount.pos x h' hh'

end World

/-! ## Releases -/

/-- The object that a step lets go of. -/
def ReleaseStep.name? : ReleaseStep → Option ObjectId
  | holder id => some id
  | interpreter _ | report _ => none

theorem ReleaseStep.names_holders (ids : List ObjectId) :
    (ids.map holder).filterMap name? = ids := by
  rw [List.filterMap_map]
  exact List.filterMap_some

theorem World.names_dropBoundary (w : World) (owner : InterpreterId) (handle : Handle) :
    (w.dropBoundary owner handle).1.filterMap ReleaseStep.name?
      = ((w.interpreter owner).unshare handle).2.orphans := by
  unfold dropBoundary
  rw [onInterpreter_eq]
  dsimp only
  rw [takeFreed_setInterpreter]
  split <;> rw [List.filterMap_append, ReleaseStep.names_holders] <;> exact List.append_nil _

namespace Unwinding

variable {u u' : Unwinding} {outside : List ObjectId}

/-- The objects that the steps to come let go of, once per step. -/
def names (u : Unwinding) : List ObjectId := u.steps.filterMap ReleaseStep.name?

/-- What is let go of was loose, and what comes loose will be let go of. -/
theorem Step.counted (hstep : Step u u') (hcount : u.world.Counted (u.names ++ outside)) :
    u'.world.Counted (u'.names ++ outside) := by
  cases hstep with
  | report => exact hcount.move rfl fun _ => rfl
  | held => exact hcount
  | @ends i rest w =>
    have hended := World.Counted.takeFreed hcount (w.interpreter i).keepers_clear
    rw [World.endInterpreter, World.takeFreed_setInterpreter, names]
    dsimp only
    rw [List.filterMap_append, List.filterMap_append, ReleaseStep.names_holders,
      ReleaseStep.names_holders, List.append_assoc _ _ outside]
    exact hended
  | @absent id rest w hh =>
    have hid := hcount.eq id
    rw [Store.holders, hh] at hid
    have hpos : 0 < (names ⟨.holder id :: rest, w⟩ ++ outside).count id :=
      List.count_pos_iff.2 List.mem_cons_self
    rw [Option.elim_none] at hid
    omega
  | @last id h rest w hh hlast =>
    have hgone := World.Counted.last hcount hh hlast
    rw [names, List.filterMap_append, List.append_assoc]
    by_cases hplain : ∀ owner handle, h.object ≠ .boundary owner handle
    · rw [World.dismantle_of_plain _ hplain]
      dsimp only
      rw [ReleaseStep.names_holders]
      exact hgone
    · obtain ⟨owner, handle, hobject⟩ : ∃ owner handle, h.object = .boundary owner handle := by
        simpa using hplain
      rw [hobject] at hgone ⊢
      have hdropped := @World.Counted.takeFreed _ owner _ _ [] hgone
        (Interpreter.keepers_unshare (w.interpreter owner) handle)
      rw [World.dismantle, World.names_dropBoundary, World.dropBoundary_snd,
        World.onInterpreter_eq, World.takeFreed_setInterpreter]
      rw [List.append_nil] at hdropped
      exact hdropped
  | fewer hh hleft => exact World.Counted.fewer hcount hh hleft

/-- A boundary object drops its share when its last hold ends. -/
theorem alone (hcount : u.world.Counted (u.names ++ outside)) {id : ObjectId}
    (hid : id ∈ u.dropped) : (u.names ++ outside).count id = 1 ∧ u.world.keepers id = 0 := by
  obtain ⟨steps, w⟩ := u
  unfold dropped at hid
  split at hid
  · rename_i x rest w heq
    obtain ⟨rfl, rfl⟩ := Unwinding.mk.inj heq
    split at hid
    · rename_i holders owner handle hh
      split at hid
      · rename_i hlast
        obtain rfl := List.mem_singleton.1 hid
        obtain ⟨hloose, hnone⟩ := World.Counted.alone hcount hh hlast
        refine ⟨?_, hnone⟩
        rw [names, List.filterMap_cons]
        exact (List.count_cons_self ..).trans (congrArg (· + 1) hloose)
      · cases hid
    · cases hid
  · cases hid

end Unwinding

/-- The holds are counted in every situation of a release. -/
theorem Unwinds.counted {u : Unwinding} {us : List Unwinding} {w : World} {outside : List ObjectId}
    (hrun : Unwinds u us w) (hcount : u.world.Counted (u.names ++ outside)) :
    (∀ x ∈ us, x.world.Counted (x.names ++ outside)) ∧ w.Counted outside :=
  hrun.induct hcount fun _ _ hbefore hstep => hstep.counted hbefore

end GuestBridge
