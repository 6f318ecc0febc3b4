import GuestBridge.Proofs.Calls.GivenUp
import GuestBridge.Proofs.Conversion.Fidelity

/-!
# What is freed is handed over once

A heap that loses scalars parks their bodies, and they are handed over before anything is let go of.
`Heap.Loses` and `World.Loses` list the scalars that are gone, each once and with its body, and say
that no other scalar is gone. A run of a release hands over the bodies of the scalars that it frees
and nothing else (`Unwinds.hands`); no body is parked in any of its situations.

In the same way a run drops the shares of the boundary objects that go on it, each once, and of no
others (`Unwinds.drops`).
-/

namespace GuestBridge

/-- What goes on the way from one state to a later one goes before or after a state in between, if
nothing comes back. -/
theorem gone_iff {before between after : Option α} (hfirst : between.isSome → before.isSome)
    (hnext : after.isSome → between.isSome) :
    (before.isSome ∧ between = none ∨ between.isSome ∧ after = none) ↔
      before.isSome ∧ after = none := by
  cases before <;> cases between <;> cases after <;> simp_all

/-! ## Heaps -/

namespace Heap

variable {hp hp₁ hp₂ : Heap} {h k : Handle} {c : Cell} {gone gone' : List (Handle × Body)}

/-- The scalars in a list are gone, each of them listed once with its body, and their bodies are
parked in this order. All others are there, with their bodies. -/
structure Loses (hp hp₁ : Heap) (gone : List (Handle × Body)) : Prop where
  nodup : (gone.map (·.1)).Nodup
  body : ∀ g ∈ gone, hp.body g.1 = .ok g.2
  mem : ∀ k, k ∈ gone.map (·.1) ↔ (hp.cell? k).isSome ∧ hp₁.cell? k = none
  freed : hp₁.freed.toList = hp.freed.toList ++ gone.map (·.2)
  recedes : Recedes hp hp₁

theorem Recedes.body (hrec : Recedes hp hp₁) {body : Body} (hk : hp₁.body k = .ok body) :
    hp.body k = .ok body := by
  obtain ⟨c₁, hc₁, rfl⟩ := body_eq_ok_iff.1 hk
  obtain ⟨c, hc, hbody⟩ := hrec.cell k c₁ hc₁
  exact body_eq_ok_iff.2 ⟨c, hc, hbody⟩

theorem Recedes.isSome (hrec : Recedes hp hp₁) (hk : (hp₁.cell? k).isSome) :
    (hp.cell? k).isSome := by
  obtain ⟨c₁, hc₁⟩ := Option.isSome_iff_exists.1 hk
  obtain ⟨c, hc, -⟩ := hrec.cell k c₁ hc₁
  exact Option.isSome_of_eq_some hc

theorem Loses.refl (hp : Heap) : Loses hp hp [] where
  nodup := List.nodup_nil
  body := by simp
  mem := fun k => by cases hp.cell? k <;> simp
  freed := (List.append_nil _).symm
  recedes := .refl hp

/-- What is gone later was there in between. -/
theorem Loses.trans (hfirst : Loses hp hp₁ gone) (hnext : Loses hp₁ hp₂ gone') :
    Loses hp hp₂ (gone ++ gone') where
  nodup := by
    rw [List.map_append, List.nodup_append]
    refine ⟨hfirst.nodup, hnext.nodup, ?_⟩
    rintro k hk _ hk' rfl
    have hthere := ((hnext.mem k).1 hk').1
    rw [((hfirst.mem k).1 hk).2] at hthere
    cases hthere
  body := by
    intro g hg
    rcases List.mem_append.1 hg with hg | hg
    · exact hfirst.body g hg
    · exact hfirst.recedes.body (hnext.body g hg)
  mem := by
    intro k
    rw [List.map_append, List.mem_append, hfirst.mem, hnext.mem]
    exact gone_iff hfirst.recedes.isSome hnext.recedes.isSome
  freed := by rw [hnext.freed, hfirst.freed, List.map_append, List.append_assoc]
  recedes := hfirst.recedes.trans hnext.recedes

theorem loses_setCell (hc : hp.cell? h = some c) {c' : Cell} (hbody : c'.body = c.body) :
    Loses hp (hp.setCell h c') [] where
  nodup := List.nodup_nil
  body := by simp
  mem := by
    intro k
    rw [cell?_setCell hc]
    by_cases hk : k = h
    · simp [hk, hc]
    · cases hp.cell? k <;> simp [hk]
  freed := (List.append_nil _).symm
  recedes := recedes_setCell hc hbody

theorem loses_vacate (hc : hp.cell? h = some c) : Loses hp (hp.vacate h c.body) [(h, c.body)] where
  nodup := by simp
  body := by
    intro g hg
    obtain rfl := List.mem_singleton.1 hg
    exact body_eq_ok_iff.2 ⟨c, hc, rfl⟩
  mem := by
    intro k
    rw [cell?_vacate_eq hc]
    by_cases hk : k = h
    · simp [hk, hc]
    · cases hp.cell? k <;> simp [hk]
  freed := Array.toList_push
  recedes := recedes_vacate hc

theorem loses_cascade (pending : List Handle) (hp : Heap) :
    ∃ gone, Loses hp (cascade pending hp).2 gone := by
  fun_induction Heap.cascade pending hp with
  | case1 hp => exact ⟨[], .refl hp⟩
  | case2 hp => exact ⟨[], .refl hp⟩
  | case3 hp h rest c hc hleft ih =>
    obtain ⟨gone, hgone⟩ := ih
    exact ⟨_, (loses_vacate hc).trans hgone⟩
  | case4 hp h rest c hc hleft ih =>
    obtain ⟨gone, hgone⟩ := ih
    have hset : Loses hp (hp.setCell h { c with shares := c.shares - 1 }) [] := loses_setCell hc rfl
    exact ⟨_, hset.trans hgone⟩

theorem loses_unshare (hp : Heap) (h : Handle) : ∃ gone, Loses hp (hp.unshare h).2 gone := by
  rw [unshare_snd]
  exact loses_cascade [h] hp

theorem loses_unshareEach (hs : List Handle) (hp : Heap) :
    ∃ gone, Loses hp (hp.unshareEach hs).2 gone := by
  induction hs generalizing hp with
  | nil => exact ⟨[], .refl hp⟩
  | cons h rest ih =>
    obtain ⟨first, hfirst⟩ := hp.loses_unshare h
    obtain ⟨others, hothers⟩ := ih (hp.unshare h).2
    rw [unshareEach_cons_snd]
    exact ⟨_, hfirst.trans hothers⟩

theorem loses_clear (hp : Heap) : ∃ gone, Loses hp hp.clear gone := by
  unfold clear
  generalize hp.handles = hs
  induction hs generalizing hp with
  | nil => exact ⟨[], .refl hp⟩
  | cons h rest ih =>
    obtain ⟨others, hothers⟩ := ih (hp.discard h)
    suffices hfirst : ∃ gone, Loses hp (hp.discard h) gone by
      obtain ⟨first, hfirst⟩ := hfirst
      exact ⟨_, hfirst.trans hothers⟩
    unfold discard
    split
    · rename_i c hc
      exact ⟨_, loses_vacate hc⟩
    · exact ⟨[], .refl hp⟩

theorem WellFormed.clear (hwf : hp.WellFormed) : hp.clear.WellFormed := by
  unfold Heap.clear
  generalize hp.handles = hs
  induction hs generalizing hp with
  | nil => exact hwf
  | cons h rest ih =>
    refine ih ?_
    unfold discard
    split
    · rename_i c hc
      exact hwf.vacate hc c.body
    · exact hwf

end Heap

/-! ## Worlds -/

/-- Parked bodies are taken. -/
def Interpreter.rested (it : Interpreter) : Interpreter := { it with heap := it.heap.takeFreed.2 }

/-- The closures of the parked bodies. -/
def Interpreter.orphans (it : Interpreter) : List ObjectId :=
  it.heap.freed.toList.filterMap Body.closure?

namespace World

variable {w w₁ w₂ : World} {i : InterpreterId} {it : Interpreter}
variable {gone gone' : List (InterpreterId × Handle × Body)}

/-- The heap of every interpreter is at rest. -/
def AtRest (w : World) : Prop := ∀ i, (w.interpreter i).heap.AtRest

/-- The scalars in a list are gone, each of them listed once with its interpreter and its body. All
others are there, with their bodies. -/
structure Loses (w w₁ : World) (gone : List (InterpreterId × Handle × Body)) : Prop where
  nodup : (gone.map fun g => (g.1, g.2.1)).Nodup
  body : ∀ g ∈ gone, (w.interpreter g.1).heap.body g.2.1 = .ok g.2.2
  mem : ∀ i k, (i, k) ∈ gone.map (fun g => (g.1, g.2.1)) ↔
    ((w.interpreter i).heap.cell? k).isSome ∧ (w₁.interpreter i).heap.cell? k = none
  recedes : ∀ i, Heap.Recedes (w.interpreter i).heap (w₁.interpreter i).heap

theorem loses_of_heaps (hheap : ∀ i, (w₁.interpreter i).heap = (w.interpreter i).heap) :
    Loses w w₁ [] where
  nodup := List.nodup_nil
  body := by simp
  mem := by
    intro i k
    rw [hheap]
    cases (w.interpreter i).heap.cell? k <;> simp
  recedes := fun i => hheap i ▸ .refl _

theorem Loses.trans (hfirst : Loses w w₁ gone) (hnext : Loses w₁ w₂ gone') :
    Loses w w₂ (gone ++ gone') where
  nodup := by
    rw [List.map_append, List.nodup_append]
    refine ⟨hfirst.nodup, hnext.nodup, ?_⟩
    rintro ⟨i, k⟩ hk _ hk' rfl
    have hthere := ((hnext.mem i k).1 hk').1
    rw [((hfirst.mem i k).1 hk).2] at hthere
    cases hthere
  body := by
    intro g hg
    rcases List.mem_append.1 hg with hg | hg
    · exact hfirst.body g hg
    · exact (hfirst.recedes g.1).body (hnext.body g hg)
  mem := by
    intro i k
    rw [List.map_append, List.mem_append, hfirst.mem, hnext.mem]
    exact gone_iff (hfirst.recedes i).isSome (hnext.recedes i).isSome
  recedes := fun i => (hfirst.recedes i).trans (hnext.recedes i)

theorem takeFreed_eq (w : World) (i : InterpreterId) :
    w.takeFreed i = ((w.interpreter i).orphans.map .holder,
      w.setInterpreter i (w.interpreter i).rested) := by
  rw [takeFreed, onInterpreter_eq]
  rfl

theorem setInterpreter_setInterpreter (w : World) (i : InterpreterId) (it it' : Interpreter) :
    (w.setInterpreter i it).setInterpreter i it' = w.setInterpreter i it' := by
  simp only [setInterpreter, Table.set_set]

/-- An interpreter does something, and what it has freed is taken. -/
theorem takeFreed_setInterpreter (w : World) (i : InterpreterId) (it : Interpreter) :
    (w.setInterpreter i it).takeFreed i
      = (it.orphans.map .holder, w.setInterpreter i it.rested) := by
  rw [takeFreed_eq, setInterpreter_setInterpreter, interpreter_setInterpreter, if_pos rfl]

theorem interpreter_dropBoundary (w : World) (owner : InterpreterId) (handle : Handle)
    (j : InterpreterId) :
    (w.dismantle (.boundary owner handle)).2.interpreter j =
      if owner = j then ((w.interpreter owner).unshare handle).2.rested else w.interpreter j := by
  rw [dismantle, dropBoundary_snd, onInterpreter_eq, takeFreed_setInterpreter,
    interpreter_setInterpreter]

theorem AtRest.setInterpreter (hrest : w.AtRest) (hwf : it.heap.WellFormed) :
    (w.setInterpreter i it.rested).AtRest := by
  intro j
  rw [interpreter_setInterpreter]
  split
  · exact hwf.atRest
  · exact hrest j

/-- What an interpreter loses, the world loses. -/
theorem loses_setInterpreter {lost : List (Handle × Body)}
    (hlost : Heap.Loses (w.interpreter i).heap it.heap lost) :
    Loses w (w.setInterpreter i it.rested) (lost.map (i, ·)) where
  nodup := by
    rw [List.map_map]
    exact (List.nodup_map_iff_inj_on (List.Nodup.of_map _ hlost.nodup)).2
      fun g hg g' hg' heq => List.inj_on_of_nodup_map hlost.nodup hg hg' (Prod.mk.inj heq).2
  body := by
    intro g hg
    obtain ⟨g', hg', rfl⟩ := List.mem_map.1 hg
    exact hlost.body g' hg'
  mem := by
    intro j k
    rw [interpreter_setInterpreter]
    by_cases hij : i = j
    · subst hij
      have hmem := hlost.mem k
      rw [if_pos rfl]
      refine Iff.trans ?_ hmem
      simp
    · rw [if_neg hij]
      have hnone : (j, k) ∉ (lost.map (i, ·)).map (fun g => (g.1, g.2.1)) := by
        simp [hij]
      refine iff_of_false hnone fun ⟨hthere, hgone⟩ => ?_
      rw [hgone] at hthere
      cases hthere
  recedes := by
    intro j
    rw [interpreter_setInterpreter]
    split
    · rename_i hij
      exact hij ▸ hlost.recedes.trans (Heap.recedes_takeFreed _)
    · exact .refl _

/-- The bodies of the scalars that an interpreter loses are parked. -/
theorem parked_of_loses {lost : List (Handle × Body)}
    (hlost : Heap.Loses (w.interpreter i).heap it.heap lost) (hrest : w.AtRest) :
    it.parked i = (lost.map (i, ·)).map fun g => (g.1, g.2.2) := by
  rw [Interpreter.parked, hlost.freed, (hrest i).freed_eq, Array.toList_empty, List.nil_append,
    List.map_map, List.map_map]
  rfl

end World

/-! ## Boundary objects -/

/-- Owner and handle of the scalar an object stands for. -/
def HostObject.scalar? : HostObject → Option (InterpreterId × Handle)
  | boundary owner handle => some (owner, handle)
  | _ => none

namespace Store

variable {st : Store} {id x : ObjectId} {h : Holding}

theorem boundary?_eq (st : Store) (id : ObjectId) :
    st.boundary? id = (st.get? id).bind HostObject.scalar? := by
  unfold boundary?
  split
  · rename_i hget
    rw [hget]
    rfl
  · rename_i hother
    cases hget : st.get? id with
    | none => rfl
    | some o =>
      cases o with
      | boundary owner handle => exact absurd hget (hother owner handle)
      | array | hash | object | closure => rfl

theorem boundary?_of_holding? (hh : st.holding? id = some h) :
    st.boundary? id = h.object.scalar? := by
  rw [boundary?_eq, get?_of_holding? hh]
  rfl

theorem boundary?_put (hh : st.holding? x = some h) (o : Option Holding) (id : ObjectId) :
    (st.put x o).boundary? id
      = if id = x then o.bind (·.object.scalar?) else st.boundary? id := by
  rw [boundary?_eq, get?_put hh, boundary?_eq]
  split
  · cases o <;> rfl
  · rfl

end Store

theorem World.Recedes.isSome_boundary? {w w₁ : World} {id : ObjectId} (hrec : Recedes w w₁)
    (hid : (w₁.store.boundary? id).isSome) : (w.store.boundary? id).isSome := by
  cases hh₁ : w₁.store.holding? id with
  | none => simp [Store.boundary?, Store.get?, hh₁, Functor.map] at hid
  | some h₁ =>
    obtain ⟨h, hh, hobject⟩ := hrec.object id h₁ hh₁
    rw [Store.boundary?_of_holding? hh₁, ← hobject] at hid
    rwa [Store.boundary?_of_holding? hh]

/-! ## Steps and runs -/

namespace Unwinding

variable {u u' : Unwinding}

theorem dropped_holder {id : ObjectId} {rest : List ReleaseStep} {w : World} {h : Holding}
    (hh : w.store.holding? id = some h) :
    dropped ⟨.holder id :: rest, w⟩
      = if h.object.scalar?.isSome ∧ h.holders - 1 = 0 then [id] else [] := by
  obtain ⟨holders, o⟩ := h
  cases o <;> simp [dropped, hh, HostObject.scalar?]

/-- What one step does to the interpreters: nothing at all; or one that nothing holds ends; or a
boundary object drops its share, which is one primitive of its interpreter. What an interpreter
frees is handed over in the same step. -/
inductive Effect (u u' : Unwinding) : Prop
  | still : u.dropped = [] → u.handed = [] →
      (∀ j, u'.world.interpreter j = u.world.interpreter j) → Effect u u'
  | ends (i : InterpreterId) : u.world.isHeld i = false → u.dropped = [] →
      u.handed = (u.world.interpreter i).clear.parked i →
      (∀ j, u'.world.interpreter j =
        if i = j then (u.world.interpreter i).clear.rested else u.world.interpreter j) → Effect u u'
  | drops (id : ObjectId) (owner : InterpreterId) (handle : Handle) : u.dropped = [id] →
      u.world.store.boundary? id = some (owner, handle) →
      u.handed = ((u.world.interpreter owner).unshare handle).2.parked owner →
      (∀ j, u'.world.interpreter j =
        if owner = j then ((u.world.interpreter owner).unshare handle).2.rested
        else u.world.interpreter j) → Effect u u'

theorem Step.effect (hstep : Step u u') : Effect u u' := by
  cases hstep with
  | report => exact .still rfl rfl fun _ => rfl
  | held hheld => exact .still rfl (if_pos hheld) fun _ => rfl
  | @ends i rest w hheld =>
    have hworld : (w.endInterpreter i).2 = w.setInterpreter i (w.interpreter i).clear.rested :=
      congrArg Prod.snd (w.takeFreed_setInterpreter i _)
    have hnot : w.isHeld i = false :=
      Bool.eq_false_iff.2 fun hi => hheld (by rw [hi, Bool.true_or])
    refine .ends i hnot rfl (if_neg hheld) fun j => ?_
    rw [hworld, World.interpreter_setInterpreter]
  | absent hh => exact .still (by simp [dropped, hh]) (by simp [handed, hh]) fun _ => rfl
  | @last id h rest w hh hlast =>
    have hdropped := @dropped_holder id rest w h hh
    obtain ⟨holders, o⟩ := h
    cases o with
    | boundary owner handle =>
      refine .drops id owner handle (hdropped.trans (if_pos ⟨rfl, hlast⟩)) ?_ ?_ fun j => ?_
      · exact Store.boundary?_of_holding? hh
      · simp only [handed, hh]
        exact if_pos hlast
      · exact World.interpreter_dropBoundary { w with store := w.store.put id none } owner handle j
    | array | hash | object | closure =>
      exact .still (hdropped.trans (if_neg nofun)) (by simp [handed, hh]) fun _ => rfl
  | @fewer id h rest w hh hlast =>
    have hdropped := @dropped_holder id rest w h hh
    refine .still (hdropped.trans (if_neg fun hboth => hlast hboth.2)) ?_ fun _ => rfl
    obtain ⟨holders, o⟩ := h
    cases o with
    | boundary owner handle =>
      simp only [handed, hh]
      exact if_neg hlast
    | array | hash | object | closure => simp [handed, hh]

/-- An interpreter has freed scalars, and their bodies are handed over. -/
theorem hands_of_loses {i : InterpreterId} {it : Interpreter}
    {lost : List (Handle × Body)} (hrest : u.world.AtRest) (hwf : it.heap.WellFormed)
    (hlost : Heap.Loses (u.world.interpreter i).heap it.heap lost)
    (hhanded : u.handed = it.parked i)
    (hworld : ∀ j, u'.world.interpreter j =
      if i = j then it.rested else u.world.interpreter j) :
    u'.world.AtRest ∧ ∃ gone, World.Loses u.world u'.world gone ∧
      u.handed = gone.map fun g => (g.1, g.2.2) := by
  have hsame : ∀ j, u'.world.interpreter j = (u.world.setInterpreter i it.rested).interpreter j :=
    fun j => (hworld j).trans (World.interpreter_setInterpreter _ _ _ _).symm
  have hset := World.loses_setInterpreter hlost
  refine ⟨fun j => ?_, _, ⟨hset.nodup, hset.body, fun j k => ?_, fun j => ?_⟩,
    hhanded.trans (World.parked_of_loses hlost hrest)⟩
  · rw [hsame]
    exact hrest.setInterpreter hwf j
  · rw [hsame]
    exact hset.mem j k
  · rw [hsame]
    exact hset.recedes j

/-- The next step hands over the bodies of the scalars that it frees, and leaves all heaps at
rest. -/
theorem Effect.hands (heffect : Effect u u') (hrest : u.world.AtRest) :
    u'.world.AtRest ∧ ∃ gone, World.Loses u.world u'.world gone ∧
      u.handed = gone.map fun g => (g.1, g.2.2) := by
  cases heffect with
  | still _ hhanded hworld =>
    have hheap : ∀ j, (u'.world.interpreter j).heap = (u.world.interpreter j).heap :=
      fun j => congrArg Interpreter.heap (hworld j)
    exact ⟨fun j => hheap j ▸ hrest j, [], World.loses_of_heaps hheap, hhanded⟩
  | ends i _ _ hhanded hworld =>
    obtain ⟨lost, hlost⟩ := Heap.loses_clear (u.world.interpreter i).heap
    exact hands_of_loses hrest (hrest i).toWellFormed.clear hlost hhanded hworld
  | drops id owner handle _ _ hhanded hworld =>
    obtain ⟨lost, hlost⟩ := Heap.loses_unshare (u.world.interpreter owner).heap handle
    exact hands_of_loses hrest ((hrest owner).toWellFormed.unshare handle) hlost hhanded hworld

theorem nodup_dropped (u : Unwinding) : u.dropped.Nodup := by
  unfold dropped
  split
  · split
    · split
      · exact List.nodup_singleton _
      · exact List.nodup_nil
    · exact List.nodup_nil
  · exact List.nodup_nil

/-- The boundary object that drops its share in the next step is the one that goes. -/
theorem Step.mem_dropped (hstep : Step u u') (id : ObjectId) :
    id ∈ u.dropped ↔
      (u.world.store.boundary? id).isSome ∧ u'.world.store.boundary? id = none := by
  have hstays : ∀ {w w' : World}, w'.store.boundary? id = w.store.boundary? id →
      ¬ ((w.store.boundary? id).isSome ∧ w'.store.boundary? id = none) := by
    rintro w w' hsame ⟨hsome, hnone⟩
    rw [← hsame, hnone] at hsome
    cases hsome
  cases hstep with
  | report | held => exact iff_of_false List.not_mem_nil (hstays rfl)
  | absent hh =>
    refine iff_of_false ?_ (hstays rfl)
    simp [dropped, hh]
  | ends => exact iff_of_false List.not_mem_nil (hstays (by rw [World.store_endInterpreter]))
  | @last x h rest w hh hlast =>
    rw [dropped_holder hh, World.store_dismantle, Store.boundary?_put hh]
    by_cases hid : id = x
    · -- whatever the object is, it goes
      subst hid
      simp [Store.boundary?_of_holding? hh, hlast]
    · rw [if_neg hid]
      exact iff_of_false (by split <;> simp [hid]) (hstays rfl)
  | @fewer x h rest w hh hlast =>
    rw [dropped_holder hh, if_neg fun hboth => hlast hboth.2]
    refine iff_of_false List.not_mem_nil (hstays ?_)
    rw [Store.boundary?_put hh]
    split
    · rename_i hid
      rw [hid, Store.boundary?_of_holding? hh]
      rfl
    · rfl

end Unwinding

/-! ## Runs -/

variable {u : Unwinding} {us : List Unwinding} {w : World}

/-- A release hands over the bodies of the scalars that it frees, each of them once. All heaps are
at rest before each of its steps and at its end. -/
theorem Unwinds.hands (hrun : Unwinds u us w) (hrest : u.world.AtRest) :
    (∀ x ∈ us, x.world.AtRest) ∧ w.AtRest ∧
      ∃ gone, World.Loses u.world w gone ∧
        us.flatMap Unwinding.handed = gone.map fun g => (g.1, g.2.2) := by
  induction hrun with
  | done => exact ⟨by simp, hrest, [], World.loses_of_heaps fun _ => rfl, rfl⟩
  | step hstep _ ih =>
    obtain ⟨hnext, first, hfirst, hhanded⟩ := hstep.effect.hands hrest
    obtain ⟨hall, hend, others, hothers, hflat⟩ := ih hnext
    refine ⟨List.forall_mem_cons.2 ⟨hrest, hall⟩, hend, _, hfirst.trans hothers, ?_⟩
    rw [List.flatMap_cons, hhanded, hflat, List.map_append]

/-- The steps of a release follow one another. -/
theorem Unwinds.effects (hrun : Unwinds u us w) :
    (us ++ [Unwinding.mk [] w]).IsChain Unwinding.Effect ∧
      (us ++ [Unwinding.mk [] w]).head? = some u := by
  induction hrun with
  | done => exact ⟨.singleton _, rfl⟩
  | step hstep hrest ih =>
    obtain ⟨hchain, hhead⟩ := ih
    refine ⟨?_, rfl⟩
    rw [List.cons_append, List.isChain_cons]
    refine ⟨fun u' hu' => ?_, hchain⟩
    rw [hhead, Option.mem_some_iff] at hu'
    exact hu' ▸ hstep.effect

/-- A release drops the shares of the boundary objects that go, each of them once. -/
theorem Unwinds.drops (hrun : Unwinds u us w) :
    (us.flatMap Unwinding.dropped).Nodup ∧
      ∀ id, id ∈ us.flatMap Unwinding.dropped ↔
        (u.world.store.boundary? id).isSome ∧ w.store.boundary? id = none := by
  induction hrun with
  | done =>
    refine ⟨List.nodup_nil, fun id => iff_of_false List.not_mem_nil ?_⟩
    rintro ⟨hsome, hnone⟩
    rw [hnone] at hsome
    cases hsome
  | @step u u' us w hstep hrest ih =>
    obtain ⟨hnodup, hmem⟩ := ih
    rw [List.flatMap_cons]
    refine ⟨List.nodup_append.2 ⟨u.nodup_dropped, hnodup, ?_⟩, fun id => ?_⟩
    · rintro id hid _ hid' rfl
      have hthere := ((hmem id).1 hid').1
      rw [((hstep.mem_dropped id).1 hid).2] at hthere
      cases hthere
    · rw [List.mem_append, hstep.mem_dropped, hmem]
      exact gone_iff hstep.recedes.isSome_boundary? hrest.recedes.isSome_boundary?

end GuestBridge
