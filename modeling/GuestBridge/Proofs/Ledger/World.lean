import GuestBridge.Proofs.Calls.Primitives
import GuestBridge.Proofs.Cascade.Unwinding
import GuestBridge.Proofs.Ledger.Interpreter

/-!
# The share ledger of the world

Callers and boundary objects own the shares that no scalar and no list of temporaries owns. A world
is balanced for `held`, the shares in the hands of callers, if every interpreter that something
holds on to is balanced for `held` together with the boundary objects over its scalars. An
interpreter that has not been created is empty, and one that nothing holds any more has no scalars.

The statements also say what an operation does besides: `Balanced held w₀ w` relates the world to an
earlier one, with the same holds of host code, the same interpreters, and the same journal. So a
world that stays balanced has reported nothing.

* `Ledger` is the part of this that holds in the middle of a release as well, when an interpreter
  that has lost its last holder is still to end; `Closed` says which ones these are.
* `Ledger.release` is where owners are host objects. A boundary object that goes has a share to
  drop, so the drop succeeds, and whatever closures it frees are let go of in the same way.
-/

namespace GuestBridge

/-! ## Boundary objects of the store -/

theorem total_pos_iff (f : α → Nat) (xs : Array α) :
    0 < total f xs ↔ ∃ a ∈ xs, 0 < f a := by
  rw [total, ← xs.toArray_toList]
  simp only [List.mem_toArray]
  induction xs.toList with
  | nil => simp [totalOfList]
  | cons x rest ih =>
    simp only [totalOfList, List.mem_cons, exists_eq_or_imp, ← ih]
    omega

/-- Does the object own a share of the scalar? Counted as 1 or 0. -/
def HostObject.wraps (o : HostObject) (i : InterpreterId) (k : Handle) : Nat :=
  if o = .boundary i k then 1 else 0

@[simp] theorem HostObject.wraps_withItems (items : List Value) (o : HostObject)
    (i : InterpreterId) (k : Handle) : (o.withItems items).wraps i k = o.wraps i k := by
  cases o <;> simp [withItems, wraps]

@[simp] theorem HostObject.wraps_withEntries (entries : List (String × Value)) (o : HostObject)
    (i : InterpreterId) (k : Handle) : (o.withEntries entries).wraps i k = o.wraps i k := by
  cases o <;> simp [withEntries, wraps]

namespace Store

variable {st : Store} {id : ObjectId} {h : Holding} {i : InterpreterId} {k : Handle}

/-- Number of live boundary objects over a scalar. -/
def wrappers (st : Store) (i : InterpreterId) (k : Handle) : Nat :=
  total (fun o => o.elim 0 (·.object.wraps i k)) st.holdings

theorem wrappers_put (hh : st.holding? id = some h) (o : Option Holding) (i : InterpreterId)
    (k : Handle) : (st.put id o).wrappers i k + h.object.wraps i k
      = st.wrappers i k + o.elim 0 (·.object.wraps i k) :=
  total_setIfInBounds (fun o => o.elim 0 (·.object.wraps i k)) (getElem?_of_holding? hh) o

theorem wrappers_modify (id : ObjectId) {f : HostObject → HostObject}
    (hf : ∀ o, (f o).wraps i k = o.wraps i k) :
    (st.modify id f).wrappers i k = st.wrappers i k := by
  unfold modify
  split
  · rename_i h hh
    have hput := wrappers_put hh (some { h with object := f h.object }) i k
    simp only [Option.elim_some, hf] at hput
    omega
  · rfl

theorem wrappers_retain (id : ObjectId) : (st.retain id).wrappers i k = st.wrappers i k := by
  unfold retain
  split
  · rename_i h hh
    have hput := wrappers_put hh (some { h with holders := h.holders + 1 }) i k
    simp only [Option.elim_some] at hput
    omega
  · rfl

theorem wrappers_retainValue (v : Value) : (st.retainValue v).wrappers i k = st.wrappers i k := by
  unfold retainValue
  split
  · exact wrappers_retain _
  · rfl

theorem wrappers_retainValues (vs : List Value) :
    ∀ {st : Store}, (st.retainValues vs).wrappers i k = st.wrappers i k := by
  induction vs with
  | nil => exact rfl
  | cons v rest ih => exact ih.trans (wrappers_retainValue v)

theorem wrappers_add (st : Store) (o : HostObject) (i : InterpreterId) (k : Handle) :
    (st.add o).2.wrappers i k = st.wrappers i k + o.wraps i k :=
  total_push _ _ _

/-- An interpreter is held by the store as long as a boundary object over one of its scalars is
there. -/
theorem holds_iff : st.holds i = true ↔ ∃ k, 0 < st.wrappers i k := by
  unfold holds wrappers
  rw [Array.any_eq_true']
  simp only [total_pos_iff]
  constructor
  · rintro ⟨o, hmem, ho⟩
    split at ho
    · rename_i owner handle
      rw [beq_iff_eq] at ho
      exact ⟨handle, _, hmem, by simp [HostObject.wraps, ho]⟩
    · simp at ho
  · rintro ⟨k, o, hmem, ho⟩
    refine ⟨o, hmem, ?_⟩
    cases o with
    | none => simp at ho
    | some h =>
      obtain ⟨holders, object⟩ := h
      simp only [Option.elim_some, HostObject.wraps] at ho
      split at ho
      · rename_i hobject
        subst hobject
        simp
      · omega

end Store

/-! ## The ledger -/

/-- Shares in the hands of callers. -/
abbrev Held := List (InterpreterId × Handle)

/-- Shares of scalars of one interpreter, in the hands of callers. -/
def Held.of (i : InterpreterId) (hs : List Handle) : Held := hs.map (i, ·)

theorem Held.count_of (i j : InterpreterId) (hs : List Handle) (k : Handle) :
    (Held.of i hs).count (j, k) = if i = j then hs.count k else 0 := by
  unfold Held.of
  induction hs with
  | nil => simp
  | cons h rest ih =>
    rw [List.map_cons, List.count_cons, ih, List.count_cons]
    by_cases hij : i = j
    · subst hij
      by_cases hk : h = k <;> simp [hk]
    · simp [hij]

theorem Held.count_append_self (i : InterpreterId) (hs : List Handle) (held : Held) (k : Handle) :
    (Held.of i hs ++ held).count (i, k) = held.count (i, k) + hs.count k := by
  rw [List.count_append, Held.count_of, if_pos rfl, Nat.add_comm]

theorem Held.count_append_of_ne {i j : InterpreterId} (hij : i ≠ j) (hs : List Handle)
    (held : Held) (k : Handle) : (Held.of i hs ++ held).count (j, k) = held.count (j, k) := by
  rw [List.count_append, Held.count_of, if_neg hij, Nat.zero_add]

/-- A boundary object owns one share, as a caller with one share does. -/
theorem HostObject.wraps_boundary (owner j : InterpreterId) (handle k : Handle) :
    (HostObject.boundary owner handle).wraps j k = (Held.of owner [handle]).count (j, k) := by
  rw [Held.count_of, List.count_singleton, wraps]
  by_cases hj : owner = j <;> by_cases hk : handle = k <;> simp [hj, hk]

namespace World

/-- Every interpreter that something holds on to is balanced for the shares of callers and of
boundary objects. Seen from an earlier world, no hold of host code, no interpreter and no entry of
the journal has come or gone. -/
structure Ledger (held : Held) (w₀ w : World) : Prop where
  ledger : ∀ i, w.isHeld i = true →
    (w.interpreter i).Balanced fun k => held.count (i, k) + w.store.wrappers i k
  fresh : ∀ i, w.interpreterCount < i.number →
    w.interpreter i = {} ∧ w.isHeld i = false ∧ ∀ k, held.count (i, k) = 0
  holds_eq : w.holds = w₀.holds
  count_eq : w.interpreterCount = w₀.interpreterCount
  journal_eq : w.journal = w₀.journal

variable {held : Held} {w₀ w : World} {i : InterpreterId} {give get : List Handle}

theorem isHeld_iff : w.isHeld i = true ↔
    w.holds.get i.number ≠ 0 ∨ ∃ k, 0 < w.store.wrappers i k := by
  rw [isHeld, Bool.or_eq_true, bne_iff_ne, Store.holds_iff]

/-- The owners of a scalar: callers and subs, scalars that have it as a child, temporaries, and
boundary objects. -/
def owners (held : Held) (w : World) (i : InterpreterId) (h : Handle) : Nat :=
  held.count (i, h) + (w.interpreter i).heap.asChild h + (w.interpreter i).stack.tempCount h
    + w.store.wrappers i h

/-- A scalar of an interpreter that is held has as many shares as it has owners. -/
theorem Ledger.shareCount_eq (hbal : Ledger held w₀ w) (hi : w.isHeld i = true) (h : Handle) :
    (w.interpreter i).heap.shareCount h = w.owners held i h := by
  have hcount := (hbal.ledger i hi).count_eq h
  dsimp only at hcount
  rw [hcount, owners]
  omega

/-- A scalar of an interpreter that is held is there if and only if it has an owner. -/
theorem Ledger.contains_iff_owned (hbal : Ledger held w₀ w) (hi : w.isHeld i = true) (h : Handle) :
    (w.interpreter i).heap.contains h = true ↔ 0 < w.owners held i h := by
  rw [← hbal.shareCount_eq hi, Heap.contains_iff]
  cases hc : (w.interpreter i).heap.cell? h with
  | none => simp [Heap.shareCount_of_none hc]
  | some c =>
    have hpos := (hbal.ledger i hi).wellFormed.shares_pos h c hc
    simp [Heap.shareCount_of_cell? hc, hpos]

/-- An interpreter that is held has been created. -/
theorem Ledger.le_count (hbal : Ledger held w₀ w) (hi : w.isHeld i = true) :
    i.number ≤ w.interpreterCount := by
  refine Nat.le_of_not_lt ?_
  intro hlt
  have hfresh := (hbal.fresh i hlt).2.1
  rw [hi] at hfresh
  simp at hfresh

theorem isHeld_eq_of_wrappers {w' : World} (hholds : w'.holds = w.holds)
    (hst : ∀ i k, w'.store.wrappers i k = w.store.wrappers i k) (i : InterpreterId) :
    w'.isHeld i = w.isHeld i := by
  rw [Bool.eq_iff_iff, isHeld_iff, isHeld_iff, hholds]
  simp only [hst]

/-- The ledger of a later world, in which nothing is held that was not held before. -/
theorem Ledger.of_isHeld {held' : Held} {w' : World} (hbal : Ledger held w₀ w)
    (hheld : ∀ j, w'.isHeld j = true → w.isHeld j = true)
    (hledger : ∀ j, w.isHeld j = true →
      (w'.interpreter j).Balanced fun k => held'.count (j, k) + w'.store.wrappers j k)
    (hnew : ∀ j, w.interpreterCount < j.number →
      w'.interpreter j = {} ∧ ∀ k, held'.count (j, k) = 0)
    (hholds : w'.holds = w.holds) (hcount : w'.interpreterCount = w.interpreterCount)
    (hjournal : w'.journal = w.journal) : Ledger held' w₀ w' where
  ledger := fun j hj => hledger j (hheld j hj)
  fresh := fun j hlt => by
    rw [hcount] at hlt
    refine ⟨(hnew j hlt).1, Bool.eq_false_iff.2 ?_, (hnew j hlt).2⟩
    intro hj
    exact absurd (hbal.le_count (hheld j hj)) (Nat.not_le.2 hlt)
  holds_eq := hholds.trans hbal.holds_eq
  count_eq := hcount.trans hbal.count_eq
  journal_eq := hjournal.trans hbal.journal_eq

/-- Only the boundary objects of the store count. -/
theorem Ledger.onStore (hbal : Ledger held w₀ w) {f : Store → Store}
    (hf : ∀ i k, (f w.store).wrappers i k = w.store.wrappers i k) :
    Ledger held w₀ (w.onStore f) := by
  refine hbal.of_isHeld ?_ ?_ ?_ rfl rfl rfl
  · intro j hj
    rw [isHeld_iff] at hj ⊢
    exact hj.imp_right fun ⟨k, hk⟩ => ⟨k, (hf j k) ▸ hk⟩
  · intro j hj
    exact (hbal.ledger j hj).congr fun k => by rw [World.onStore, hf]
  · intro j hlt
    exact ⟨(hbal.fresh j hlt).1, (hbal.fresh j hlt).2.2⟩

/-- Replaces an interpreter by one that is balanced for the shares in the hands of callers from
then on. -/
theorem Ledger.setInterpreter {held' : Held} {it : Interpreter} (hbal : Ledger held w₀ w)
    (hit : w.isHeld i = true →
      it.Balanced fun k => held'.count (i, k) + w.store.wrappers i k)
    (hnew : w.interpreterCount < i.number → it = {} ∧ ∀ k, held'.count (i, k) = 0)
    (hoff : ∀ j, i ≠ j → ∀ k, held'.count (j, k) = held.count (j, k)) :
    Ledger held' w₀ (w.setInterpreter i it) := by
  refine hbal.of_isHeld (fun j hj => hj) ?_ ?_ rfl rfl rfl
  · intro j hj
    rw [interpreter_setInterpreter]
    split
    · rename_i hij
      subst hij
      exact hit hj
    · rename_i hij
      exact (hbal.ledger j hj).congr fun k => by rw [hoff j hij]; rfl
  · intro j hlt
    rw [interpreter_setInterpreter]
    split
    · rename_i hij
      subst hij
      exact hnew hlt
    · rename_i hij
      obtain ⟨hempty, -, hnone⟩ := hbal.fresh j hlt
      exact ⟨hempty, fun k => by rw [hoff j hij, hnone]⟩

/-! ## Letting go -/

/-- The steps report nothing. -/
def Quiet (steps : List ReleaseStep) : Prop := ∀ e, ReleaseStep.report e ∉ steps

theorem quiet_holders (ids : List ObjectId) : Quiet (ids.map .holder) := by
  intro e hmem
  obtain ⟨id, -, hid⟩ := List.mem_map.1 hmem
  simp at hid

theorem Quiet.append {steps more : List ReleaseStep} (hsteps : Quiet steps) (hmore : Quiet more) :
    Quiet (steps ++ more) := fun e hmem =>
  (List.mem_append.1 hmem).elim (hsteps e) (hmore e)

theorem quiet_releaseSteps (v : Value) : Quiet v.releaseSteps := quiet_holders _

theorem quiet_flatMap_releaseSteps (vs : List Value) : Quiet (vs.flatMap Value.releaseSteps) := by
  intro e hmem
  obtain ⟨v, -, hv⟩ := List.mem_flatMap.1 hmem
  exact quiet_releaseSteps v e hv

theorem quiet_takeFreed (w : World) (i : InterpreterId) : Quiet (w.takeFreed i).1 := by
  rw [World.takeFreed, onInterpreter_eq]
  exact quiet_holders _

theorem Ledger.takeFreed (hbal : Ledger held w₀ w) (i : InterpreterId) :
    Ledger held w₀ (w.takeFreed i).2 := by
  rw [World.takeFreed, onInterpreter_eq]
  refine hbal.setInterpreter ?_ ?_ fun _ _ _ => rfl
  · intro hi
    exact Heap.Balanced.takeFreed (hbal.ledger i hi)
  · intro hlt
    obtain ⟨hempty, -, hnone⟩ := hbal.fresh i hlt
    rw [hempty]
    exact ⟨rfl, hnone⟩

/-- Ending an interpreter that nothing holds touches no ledger. -/
theorem Ledger.endInterpreter (hbal : Ledger held w₀ w) (hi : w.isHeld i = false) :
    Quiet (w.endInterpreter i).1 ∧ Ledger held w₀ (w.endInterpreter i).2 := by
  refine ⟨(quiet_takeFreed _ i).append (quiet_holders _), Ledger.takeFreed ?_ i⟩
  refine hbal.setInterpreter ?_ ?_ fun _ _ _ => rfl
  · intro hheld
    rw [hi] at hheld
    simp at hheld
  · intro hlt
    obtain ⟨hempty, -, hnone⟩ := hbal.fresh i hlt
    rw [hempty]
    exact ⟨rfl, hnone⟩

/-- A boundary object that goes takes one owner out of the ledger. -/
theorem wrappers_put_boundary {id : ObjectId} {h : Holding} {owner : InterpreterId}
    {handle : Handle} (hh : w.store.holding? id = some h)
    (hobject : h.object = .boundary owner handle) (j : InterpreterId) (k : Handle) :
    (w.store.put id none).wrappers j k + (Held.of owner [handle]).count (j, k)
      = w.store.wrappers j k := by
  have hput := Store.wrappers_put hh none j k
  rw [hobject, HostObject.wraps_boundary, Option.elim_none] at hput
  omega

/-- A boundary object that goes gives up its share, and there is one to drop. -/
theorem Ledger.dropBoundary {id : ObjectId} {h : Holding} {owner : InterpreterId}
    {handle : Handle} (hbal : Ledger held w₀ w) (hh : w.store.holding? id = some h)
    (hobject : h.object = .boundary owner handle) :
    Quiet (World.dropBoundary { w with store := w.store.put id none } owner handle).1 ∧
      Ledger held w₀
        (World.dropBoundary { w with store := w.store.put id none } owner handle).2 := by
  have hwraps := wrappers_put_boundary hh hobject
  have howner : w.isHeld owner = true := by
    refine isHeld_iff.2 (.inr ⟨handle, ?_⟩)
    rw [← hwraps, Held.count_of, if_pos rfl, List.count_singleton_self]
    omega
  have hledger : (w.interpreter owner).Balanced fun k =>
      (held.count (owner, k) + (w.store.put id none).wrappers owner k) + [handle].count k :=
    (hbal.ledger owner howner).congr fun k => by
      rw [← hwraps, Held.count_of, if_pos rfl, Nat.add_assoc]
  -- the share is there, so the drop meets no fault and has nothing to report
  obtain ⟨⟨n, hok⟩, hdrop⟩ := hledger.unshare
  have hafter : Ledger held w₀
      (World.setInterpreter { w with store := w.store.put id none } owner
        ((w.interpreter owner).unshare handle).2) := by
    refine hbal.of_isHeld ?_ ?_ ?_ rfl rfl rfl
    · intro j hj
      rw [isHeld_iff] at hj ⊢
      refine hj.imp_right fun ⟨k, hk⟩ => ⟨k, ?_⟩
      rw [← hwraps]
      exact Nat.lt_of_lt_of_le hk (Nat.le_add_right _ _)
    · intro j hj
      rw [interpreter_setInterpreter]
      split
      · rename_i hij
        subst hij
        exact hdrop
      · rename_i hij
        refine (hbal.ledger j hj).congr ?_
        intro k
        rw [← hwraps, Held.count_of, if_neg hij]
        rfl
    · intro j hlt
      obtain ⟨hempty, -, hnone⟩ := hbal.fresh j hlt
      have hij : owner ≠ j := fun hij =>
        absurd (hij ▸ hbal.le_count howner) (Nat.not_le.2 hlt)
      rw [interpreter_setInterpreter, if_neg hij]
      exact ⟨hempty, hnone⟩
  have htaken := hafter.takeFreed owner
  have hquiet := quiet_takeFreed (World.setInterpreter { w with store := w.store.put id none } owner
        ((w.interpreter owner).unshare handle).2) owner
  unfold World.dropBoundary
  rw [onInterpreter_eq]
  dsimp only
  split
  · refine ⟨hquiet.append ?_, htaken⟩
    simp [Quiet]
  · rename_i heq
    rw [show (World.interpreter { w with store := w.store.put id none } owner)
      = w.interpreter owner from rfl, hok] at heq
    simp at heq

/-- What a host object that goes lets go of. -/
theorem Ledger.dismantle {id : ObjectId} {h : Holding} (hbal : Ledger held w₀ w)
    (hh : w.store.holding? id = some h) :
    Quiet (World.dismantle { w with store := w.store.put id none } h.object).1 ∧
      Ledger held w₀ (World.dismantle { w with store := w.store.put id none } h.object).2 := by
  have hother : (∀ j k, h.object.wraps j k = 0) →
      Ledger held w₀ { w with store := w.store.put id none } := fun hwraps =>
    hbal.onStore (f := (·.put id none)) fun j k => by
      have hput := Store.wrappers_put hh none j k
      rw [hwraps, Option.elim_none] at hput
      omega
  cases hobject : h.object with
  | boundary owner handle => exact hbal.dropBoundary hh hobject
  | array | hash | object | closure =>
    refine ⟨quiet_flatMap_releaseSteps _, hother ?_⟩
    intro j k
    simp [hobject, HostObject.wraps]

/-! ## Balanced worlds -/

/-- An interpreter that nothing holds has no scalars, unless a pending step is still to end it. -/
def Closed (steps : List ReleaseStep) (w : World) : Prop :=
  ∀ j, w.isHeld j = false → ReleaseStep.interpreter j ∉ steps →
    ∀ k, (w.interpreter j).heap.cell? k = none

/-- The ledger of a world that is at rest: no interpreter that has to end is still there. -/
structure Balanced (held : Held) (w₀ w : World) : Prop extends Ledger held w₀ w where
  closed : Closed [] w

variable {steps more : List ReleaseStep}

theorem cell?_takeFreed (w : World) (i j : InterpreterId) (k : Handle) :
    ((w.takeFreed i).2.interpreter j).heap.cell? k = (w.interpreter j).heap.cell? k := by
  rw [World.takeFreed, onInterpreter_eq, interpreter_setInterpreter]
  split
  · rename_i hij
    rw [← hij]
    rfl
  · rfl

/-- What is left closed by fewer steps is left closed by more. -/
theorem Closed.mono {steps' : List ReleaseStep} (hclosed : Closed steps w)
    (hsub : ∀ j, ReleaseStep.interpreter j ∈ steps → ReleaseStep.interpreter j ∈ steps') :
    Closed steps' w := fun j hj hnot k => hclosed j hj (fun hmem => hnot (hsub j hmem)) k

/-- A step that leaves the boundary objects and the interpreters as they are. -/
theorem Closed.of_wrappers {w' : World} (hclosed : Closed steps w) (hholds : w'.holds = w.holds)
    (hst : ∀ i k, w'.store.wrappers i k = w.store.wrappers i k)
    (hinterpreters : w'.interpreters = w.interpreters) : Closed steps w' := by
  intro j hj hnot k
  rw [isHeld_eq_of_wrappers hholds hst] at hj
  rw [interpreter, hinterpreters]
  exact hclosed j hj hnot k

theorem Closed.endInterpreter (hclosed : Closed (.interpreter i :: steps) w) :
    Closed steps (w.endInterpreter i).2 := by
  intro j hj hnot k
  have hj' : w.isHeld j = false := hj
  rw [World.endInterpreter]
  dsimp only
  rw [cell?_takeFreed, interpreter_setInterpreter]
  split
  · exact Heap.cell?_clear _ k
  · rename_i hij
    refine hclosed j hj' ?_ k
    simp [hnot, Ne.symm hij]

/-- A boundary object that goes leaves a step that may end its interpreter. -/
theorem Closed.dropBoundary {id : ObjectId} {h : Holding} {owner : InterpreterId}
    {handle : Handle} (hclosed : Closed (.holder id :: steps) w)
    (hh : w.store.holding? id = some h) (hobject : h.object = .boundary owner handle) :
    Closed ((World.dropBoundary { w with store := w.store.put id none } owner handle).1 ++ steps)
      (World.dropBoundary { w with store := w.store.put id none } owner handle).2 := by
  have hwraps := wrappers_put_boundary hh hobject
  have hstep : ReleaseStep.interpreter owner ∈
      (World.dropBoundary { w with store := w.store.put id none } owner handle).1 := by
    unfold World.dropBoundary
    dsimp only
    split <;> simp
  have hheld : ∀ j,
      (World.dropBoundary { w with store := w.store.put id none } owner handle).2.isHeld
      j = World.isHeld { w with store := w.store.put id none } j := by
    intro j
    unfold World.dropBoundary
    rw [onInterpreter_eq]
    dsimp only
    split <;> rfl
  have hcell : ∀ j k, owner ≠ j → ((World.dropBoundary
      { w with store := w.store.put id none } owner handle).2.interpreter j).heap.cell? k
        = (w.interpreter j).heap.cell? k := by
    intro j k hij
    unfold World.dropBoundary
    rw [onInterpreter_eq]
    dsimp only
    split <;> (dsimp only; rw [cell?_takeFreed, interpreter_setInterpreter, if_neg hij]; rfl)
  -- only the interpreter of the boundary object can have lost its last holder
  intro j hj hnot k
  have hij : owner ≠ j := fun hij => hnot (List.mem_append_left _ (hij ▸ hstep))
  rw [hcell j k hij]
  refine hclosed j (Bool.eq_false_iff.2 ?_) ?_ k
  · intro hbefore
    rw [hheld, Bool.eq_false_iff] at hj
    refine hj (isHeld_iff.2 ((isHeld_iff.1 hbefore).imp_right fun ⟨k, hk⟩ => ⟨k, ?_⟩))
    rw [← hwraps, Held.count_of, if_neg hij] at hk
    exact hk
  · intro hmem
    exact hnot (List.mem_append_right _ (by simpa using hmem))

theorem Closed.dismantle {id : ObjectId} {h : Holding} (hclosed : Closed (.holder id :: steps) w)
    (hh : w.store.holding? id = some h) :
    Closed ((World.dismantle { w with store := w.store.put id none } h.object).1 ++ steps)
      (World.dismantle { w with store := w.store.put id none } h.object).2 := by
  have hother : (∀ j k, h.object.wraps j k = 0) →
      Closed (h.object.releaseSteps ++ steps) { w with store := w.store.put id none } :=
    fun hwraps => (hclosed.mono fun j hj =>
      List.mem_append_right _ (by simpa using hj)).of_wrappers rfl (fun j k => by
        have hput := Store.wrappers_put hh none j k
        rw [hwraps, Option.elim_none] at hput
        dsimp only
        omega) rfl
  cases hobject : h.object with
  | boundary owner handle => exact hclosed.dropBoundary hh hobject
  | array | hash | object | closure =>
    rw [hobject] at hother
    exact hother fun j k => by simp [HostObject.wraps]

/-- A step of a release that reports nothing keeps the ledger, and the steps after it report
nothing either. -/
theorem Ledger.step {u u' : Unwinding} (hbal : Ledger held w₀ u.world)
    (hclosed : Closed u.steps u.world) (hquiet : Quiet u.steps) (hstep : Unwinding.Step u u') :
    Ledger held w₀ u'.world ∧ Closed u'.steps u'.world ∧ Quiet u'.steps := by
  have hlater : ∀ {step rest}, u.steps = step :: rest → Quiet rest :=
    fun hsteps e he => hquiet e (hsteps ▸ List.mem_cons_of_mem _ he)
  cases hstep with
  | report => exact absurd List.mem_cons_self (hquiet _)
  | @held i rest w hheld =>
    refine ⟨hbal, ?_, hlater rfl⟩
    intro j hj hnot k
    refine hclosed j hj ?_ k
    intro hmem
    -- the step that is passed over is that of an interpreter that is held, or a later one ends it
    rcases List.mem_cons.1 hmem with hij | hmem
    · rw [ReleaseStep.interpreter.injEq] at hij
      simp_all
    · exact hnot hmem
  | @ends i rest w hheld =>
    rw [Bool.or_eq_true, not_or, Bool.not_eq_true] at hheld
    obtain ⟨hmore, hended⟩ := hbal.endInterpreter hheld.1
    exact ⟨hended, hclosed.endInterpreter.mono fun j hj => List.mem_append_right _ hj,
      hmore.append (hlater rfl)⟩
  | absent => exact ⟨hbal, hclosed.mono fun j hj => by simpa using hj, hlater rfl⟩
  | last hh =>
    obtain ⟨hmore, hgone⟩ := hbal.dismantle hh
    exact ⟨hgone, hclosed.dismantle hh, hmore.append (hlater rfl)⟩
  | @fewer id h rest w hh =>
    have hwraps : ∀ j k, (w.store.put id (some { h with holders := h.holders - 1 })).wrappers j k
        = w.store.wrappers j k := fun j k => by
      have hput := Store.wrappers_put hh (some { h with holders := h.holders - 1 }) j k
      simp only [Option.elim_some] at hput
      omega
    exact ⟨hbal.onStore (f := (·.put id (some { h with holders := h.holders - 1 }))) hwraps,
      (hclosed.mono fun j hj => by simpa using hj).of_wrappers rfl hwraps rfl, hlater rfl⟩

/-- Letting go of host objects keeps the ledger and reports nothing. What nothing holds in the end
has ended. -/
theorem Ledger.release (hbal : Ledger held w₀ w) (hclosed : Closed steps w) (hquiet : Quiet steps) :
    Balanced held w₀ (w.release steps) := by
  obtain ⟨hbal', hclosed', -⟩ := release_induct
    (P := fun u => Ledger held w₀ u.world ∧ Closed u.steps u.world ∧ Quiet u.steps)
    ⟨hbal, hclosed, hquiet⟩ fun _ _ ⟨hbal, hclosed, hquiet⟩ hstep => hbal.step hclosed hquiet hstep
  exact ⟨hbal', hclosed'⟩

theorem Balanced.release (hbal : Balanced held w₀ w) (hquiet : Quiet steps) :
    Balanced held w₀ (w.release steps) :=
  hbal.toLedger.release (hbal.closed.mono fun _ hj => by simp at hj) hquiet

theorem Balanced.drop (hbal : Balanced held w₀ w) (v : Value) : Balanced held w₀ (w.drop v) :=
  hbal.release (quiet_releaseSteps v)

theorem Balanced.dropEach (hbal : Balanced held w₀ w) (vs : List Value) :
    Balanced held w₀ (w.dropEach vs) :=
  hbal.release (quiet_flatMap_releaseSteps vs)

theorem Balanced.dropObjects (hbal : Balanced held w₀ w) (ids : List ObjectId) :
    Balanced held w₀ (w.dropObjects ids) :=
  hbal.release (quiet_holders ids)

/-! ## Operations on one interpreter -/

/-- Replaces an interpreter that is held by one that is balanced for the shares in the hands of
callers from then on. -/
theorem Balanced.setHeld {held' : Held} {it : Interpreter} (hbal : Balanced held w₀ w)
    (hi : w.isHeld i = true)
    (hit : it.Balanced fun k => held'.count (i, k) + w.store.wrappers i k)
    (hoff : ∀ j, i ≠ j → ∀ k, held'.count (j, k) = held.count (j, k)) :
    Balanced held' w₀ (w.setInterpreter i it) where
  toLedger := by
    have hle := hbal.le_count hi
    exact hbal.setInterpreter (fun _ => hit) (fun hlt => by omega) hoff
  closed := by
    intro j hj hnot k
    have hij : i ≠ j := fun hij => by
      rw [← hij] at hj
      exact absurd hi (Bool.eq_false_iff.1 hj)
    rw [interpreter_setInterpreter, if_neg hij]
    exact hbal.closed j hj hnot k

/-- An operation on an interpreter trades shares in the hands of callers. -/
theorem Balanced.onInterpreter {f : Interpreter → α × Interpreter}
    (hbal : Balanced (Held.of i give ++ held) w₀ w) (hi : w.isHeld i = true)
    (hf : (w.interpreter i).Trades f give get) :
    Balanced (Held.of i get ++ held) w₀ (w.onInterpreter i f).2 := by
  rw [onInterpreter_eq]
  refine hbal.setHeld hi ?_ ?_
  · have hbefore : (w.interpreter i).Balanced fun k =>
        (held.count (i, k) + w.store.wrappers i k) + give.count k :=
      (hbal.ledger i hi).congr fun k => by
        rw [Held.count_append_self, Nat.add_right_comm]
    exact (hf _ hbefore).congr fun k => by rw [Held.count_append_self, Nat.add_right_comm]
  · intro j hij k
    rw [Held.count_append_of_ne hij, Held.count_append_of_ne hij]

theorem Balanced.settleFreed (hbal : Balanced held w₀ w) (i : InterpreterId) :
    Balanced held w₀ (w.settleFreed i) := by
  refine (hbal.takeFreed i).release ?_ (quiet_takeFreed w i)
  intro j hj hnot k
  rw [cell?_takeFreed]
  exact hbal.closed j hj (by simp) k

/-- An operation on an interpreter trades shares in the hands of callers, and what it frees is let
go of. -/
theorem Balanced.guest {f : Interpreter → α × Interpreter}
    (hbal : Balanced (Held.of i give ++ held) w₀ w) (hi : w.isHeld i = true)
    (hf : (w.interpreter i).Trades f give get) :
    Balanced (Held.of i get ++ held) w₀ (w.guest i f).2 :=
  (hbal.onInterpreter hi hf).settleFreed i

/-- An operation that spends no share of a caller. -/
theorem Balanced.guestGain {f : Interpreter → α × Interpreter} (hbal : Balanced held w₀ w)
    (hi : w.isHeld i = true) (hf : (w.interpreter i).Trades f [] get) :
    Balanced (Held.of i get ++ held) w₀ (w.guest i f).2 := by
  have hgive : Balanced (Held.of i [] ++ held) w₀ w := hbal
  exact hgive.guest hi hf

/-- An operation that hands out no share. -/
theorem Balanced.guestSpend {f : Interpreter → α × Interpreter}
    (hbal : Balanced (Held.of i give ++ held) w₀ w) (hi : w.isHeld i = true)
    (hf : (w.interpreter i).Trades f give []) : Balanced held w₀ (w.guest i f).2 := by
  have hget : Balanced (Held.of i [] ++ held) w₀ (w.guest i f).2 := hbal.guest hi hf
  exact hget

/-- An operation that moves no share of a caller. -/
theorem Balanced.guestKeeping {f : Interpreter → α × Interpreter} (hbal : Balanced held w₀ w)
    (hi : w.isHeld i = true) (hf : (w.interpreter i).Trades f [] []) :
    Balanced held w₀ (w.guest i f).2 := by
  have hget : Balanced (Held.of i [] ++ held) w₀ (w.guest i f).2 := hbal.guestGain hi hf
  exact hget

/-- What the operation answers is what it answers on the interpreter alone. -/
theorem guest_fst (w : World) (i : InterpreterId) (f : Interpreter → α × Interpreter) :
    (w.guest i f).1 = (f (w.interpreter i)).1 := by
  rw [World.guest, onInterpreter_eq]

/-- Closing scopes meets no temporary that is gone already. -/
theorem Balanced.closeScope (hbal : Balanced held w₀ w) (hi : w.isHeld i = true) (depth : Nat) :
    Balanced held w₀ (w.closeScope i depth) := by
  obtain ⟨hfaults, hclosed⟩ := (hbal.ledger i hi).closeScope depth
  unfold World.closeScope
  rw [onInterpreter_eq]
  dsimp only
  rw [hfaults]
  exact Balanced.settleFreed (hbal.setHeld hi hclosed fun _ _ _ => rfl) i

/-! ## Host objects and collectors -/

/-- Only the boundary objects of the store count. -/
theorem Balanced.onStore (hbal : Balanced held w₀ w) (f : Store → Store)
    (hf : ∀ i k, (f w.store).wrappers i k = w.store.wrappers i k) :
    Balanced held w₀ (w.onStore f) where
  toLedger := hbal.toLedger.onStore hf
  closed := hbal.closed.of_wrappers rfl hf rfl

theorem Balanced.addObject (hbal : Balanced held w₀ w) {o : HostObject}
    (ho : ∀ j k, o.wraps j k = 0) : Balanced held w₀ (w.addObject o).2 :=
  hbal.onStore (fun st => (st.add o).2) fun j k => by rw [Store.wrappers_add, ho]; rfl

/-- A boundary object takes over a share from a caller. -/
theorem Balanced.newBoundary {handle : Handle}
    (hbal : Balanced (Held.of i [handle] ++ held) w₀ w) (hi : w.isHeld i = true) :
    Balanced held w₀ (w.newBoundary i handle).2 := by
  have hwraps : ∀ j k, (w.newBoundary i handle).2.store.wrappers j k
      = w.store.wrappers j k + (Held.of i [handle]).count (j, k) := fun j k => by
    rw [← HostObject.wraps_boundary]
    exact Store.wrappers_add _ _ _ _
  refine ⟨hbal.of_isHeld ?_ ?_ ?_ rfl rfl rfl,
    fun j hj hnot k => hbal.closed j (Bool.eq_false_iff.2 ?_) hnot k⟩
  · intro j hj
    rw [isHeld_iff] at hj
    rcases hj with hholds | ⟨k, hk⟩
    · exact isHeld_iff.2 (.inl hholds)
    · by_cases hij : i = j
      · exact hij ▸ hi
      · rw [hwraps, Held.count_of, if_neg hij] at hk
        exact isHeld_iff.2 (.inr ⟨k, hk⟩)
  · intro j hj
    exact (hbal.ledger j hj).congr fun k => by rw [hwraps, List.count_append]; omega
  · intro j hlt
    obtain ⟨hempty, -, hnone⟩ := hbal.fresh j hlt
    refine ⟨hempty, ?_⟩
    intro k
    have hk := hnone k
    rw [List.count_append] at hk
    omega
  · intro hbefore
    refine Bool.eq_false_iff.1 hj (isHeld_iff.2 ((isHeld_iff.1 hbefore).imp_right ?_))
    rintro ⟨k, hk⟩
    exact ⟨k, by rw [hwraps]; omega⟩

theorem Balanced.retainObject (hbal : Balanced held w₀ w) (id : ObjectId) :
    Balanced held w₀ (w.retainObject id) :=
  hbal.onStore (·.retain id) fun _ _ => Store.wrappers_retain id

theorem Balanced.retain (hbal : Balanced held w₀ w) (v : Value) :
    Balanced held w₀ (w.retain v) :=
  hbal.onStore (·.retainValue v) fun _ _ => Store.wrappers_retainValue v

theorem Balanced.setItems (hbal : Balanced held w₀ w) (id : ObjectId) (items : List Value) :
    Balanced held w₀ (w.setItems id items) :=
  hbal.onStore (·.modify id (·.withItems items)) fun _ _ =>
    Store.wrappers_modify id (HostObject.wraps_withItems items · _ _)

theorem Balanced.setEntries (hbal : Balanced held w₀ w) (id : ObjectId)
    (entries : List (String × Value)) : Balanced held w₀ (w.setEntries id entries) :=
  hbal.onStore (·.modify id (·.withEntries entries)) fun _ _ =>
    Store.wrappers_modify id (HostObject.wraps_withEntries entries · _ _)

/-- Handling host objects keeps a world balanced. -/
theorem hostClosed_balanced (held : Held) (w₀ : World) :
    HostClosed fun w w' => Balanced held w₀ w → Balanced held w₀ w' where
  refl := fun _ hbal => hbal
  trans := fun hfirst hnext hbal => hnext (hfirst hbal)
  dropObjects := fun _ ids hbal => hbal.dropObjects ids
  retainValues := fun _ vs hbal => hbal.onStore _ fun _ _ => Store.wrappers_retainValues vs
  setItems := fun _ id items hbal => hbal.setItems id items
  setEntries := fun _ id entries hbal => hbal.setEntries id entries
  addObject := fun _ _ ho hbal => hbal.addObject fun j k => if_neg (ho j k)

theorem Balanced.newArray (hbal : Balanced held w₀ w) (items : List Value) :
    Balanced held w₀ (w.newArray items).2 := (hostClosed_balanced held w₀).newArray w items hbal

theorem Balanced.newHash (hbal : Balanced held w₀ w) (pairs : List (String × Value)) :
    Balanced held w₀ (w.newHash pairs).2 := (hostClosed_balanced held w₀).newHash w pairs hbal

theorem Balanced.newClosure (hbal : Balanced held w₀ w) (code : Nat) (captured : List Value) :
    Balanced held w₀ (w.newClosure code captured).2 :=
  (hostClosed_balanced held w₀).newClosure w code captured hbal

/-- Telemetry is no part of the ledger. -/
theorem Balanced.onTelemetry (hbal : Balanced held w₀ w) (c : CollectorId)
    (f : Telemetry → Telemetry) : Balanced held w₀ (w.onTelemetry c f) where
  closed := hbal.closed
  ledger := hbal.ledger
  fresh := hbal.fresh
  holds_eq := hbal.holds_eq
  count_eq := hbal.count_eq
  journal_eq := hbal.journal_eq

/-! ## Holds of host code -/

theorem Balanced.isHeld_of_holds (hbal : Balanced held w₀ w) (hhost : w₀.holds.get i.number ≠ 0) :
    w.isHeld i = true :=
  isHeld_iff.2 (.inl (by rw [hbal.holds_eq]; exact hhost))

/-- Nothing holds anything in the empty world. -/
theorem isHeld_empty (i : InterpreterId) : World.isHeld {} i = false := by
  simp [isHeld, Store.holds]

theorem balanced_empty : Balanced [] {} {} where
  ledger := fun i hi => by simp [isHeld_empty] at hi
  fresh := fun i hlt => ⟨Table.get_empty i.number, isHeld_empty i, fun k => rfl⟩
  holds_eq := rfl
  count_eq := rfl
  journal_eq := rfl
  closed := fun j _ _ k => by rw [interpreter, Table.get_empty]; rfl

/-- Shares in the hands of callers are counted, so their order is of no matter. -/
theorem Balanced.perm {held' : Held} (hbal : Balanced held w₀ w) (hperm : held.Perm held') :
    Balanced held' w₀ w where
  ledger := fun i hi => (hbal.ledger i hi).congr fun k => by rw [hperm.count_eq]
  fresh := fun i hlt => by
    obtain ⟨hempty, hnot, hnone⟩ := hbal.fresh i hlt
    exact ⟨hempty, hnot, fun k => by rw [← hperm.count_eq, hnone]⟩
  holds_eq := hbal.holds_eq
  count_eq := hbal.count_eq
  journal_eq := hbal.journal_eq
  closed := hbal.closed

/-- A balanced world is balanced seen from itself. -/
theorem Balanced.rebase (hbal : Balanced held w₀ w) : Balanced held w w where
  closed := hbal.closed
  ledger := hbal.ledger
  fresh := hbal.fresh
  holds_eq := rfl
  count_eq := rfl
  journal_eq := rfl

end World

end GuestBridge
