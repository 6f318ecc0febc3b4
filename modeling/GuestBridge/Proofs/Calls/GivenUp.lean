import GuestBridge.Proofs.Release
import GuestBridge.World.Objects
import Mathlib.Data.List.Basic

/-!
# Objects that are given up

The collections of a call are given up to it. Their elements are taken out and let go of one after
the other, and so is whatever only they hold. That stays a matter of the host as long as no boundary
object goes with them.

`Store.GivesUp given loose` says so: the objects `given` may all go while the holds `loose` are let
go of. There is no boundary object among them, and whatever else they name has a holder elsewhere.
An object that goes turns its parts into loose holds, so the number of holds on what stays is the
same before and after.

* `discards_release` — letting go of loose holds changes the store and nothing else
* `discards_arrayDrain`, `discards_hashDrain` — what is taken out of a collection is loose
-/

namespace GuestBridge

/-! ## What is named -/

/-- The objects that some values name, once per occurrence. -/
def Value.namesOf (vs : List Value) : List ObjectId := vs.filterMap Value.shared?

namespace Value

theorem namesOf_append (vs more : List Value) :
    namesOf (vs ++ more) = namesOf vs ++ namesOf more := List.filterMap_append

theorem flatMap_releaseSteps (vs : List Value) :
    vs.flatMap releaseSteps = (namesOf vs).map .holder := by
  induction vs with
  | nil => rfl
  | cons v rest ih =>
    rw [List.flatMap_cons, ih, releaseSteps, namesOf, namesOf, List.filterMap_cons]
    cases v.shared? <;> rfl

theorem releaseSteps_eq (v : Value) : v.releaseSteps = (namesOf [v]).map .holder := by
  rw [← flatMap_releaseSteps, List.flatMap_singleton]

end Value

open Value (namesOf)

/-- Lists collected over distinct objects, of which one contributes another list. -/
theorem count_flatMap_of_eq {f g : ObjectId → List ObjectId} {ids : List ObjectId} {id : ObjectId}
    (hnodup : ids.Nodup) (hid : id ∈ ids) (hsame : ∀ j, j ≠ id → g j = f j) (k : ObjectId) :
    (ids.flatMap g).count k + (f id).count k = (ids.flatMap f).count k + (g id).count k := by
  induction ids with
  | nil => simp at hid
  | cons j rest ih =>
    obtain ⟨hj, hrest⟩ := List.nodup_cons.1 hnodup
    simp only [List.flatMap_cons, List.count_append]
    rcases List.mem_cons.1 hid with rfl | hmem
    · have hothers : rest.flatMap g = rest.flatMap f :=
        List.flatMap_congr fun x hx => hsame x fun hxj => hj (hxj ▸ hx)
      rw [hothers]
      omega
    · have hne : j ≠ id := fun hji => hj (hji ▸ hmem)
      rw [hsame j hne]
      have := ih hrest hmem
      omega

namespace Store

variable {st st' : Store} {given loose loose' : List ObjectId} {id j : ObjectId} {h : Holding}

/-- What the parts of an object name. -/
def namedBy (st : Store) (id : ObjectId) : List ObjectId :=
  (st.get? id).elim [] fun o => namesOf o.parts

/-- What the parts of some objects name. -/
def named (st : Store) (ids : List ObjectId) : List ObjectId := ids.flatMap st.namedBy

theorem get?_put (hh : st.holding? id = some h) (o : Option Holding) (j : ObjectId) :
    (st.put id o).get? j = if j = id then o.map (·.object) else st.get? j := by
  rw [get?, holding?_put hh]
  split <;> rfl

theorem get?_of_holding? (hh : st.holding? id = some h) : st.get? id = some h.object := by
  rw [get?, hh]
  rfl

theorem boundary?_eq_none_iff :
    st.boundary? id = none ↔ ∀ owner handle, st.get? id ≠ some (.boundary owner handle) := by
  unfold boundary?
  split
  · rename_i owner handle hget
    simp [hget]
  · rename_i hget
    exact ⟨fun _ => hget, fun _ => rfl⟩

theorem namedBy_of_holding? (hh : st.holding? id = some h) :
    st.namedBy id = namesOf h.object.parts := by
  rw [namedBy, get?_of_holding? hh]
  rfl

/-! ## Giving up -/

/-- The objects `given` may go, and the holds `loose` with them: no boundary object is among them,
and an object that is not among them has more holders than they and the loose holds account for. -/
structure GivesUp (st : Store) (given loose : List ObjectId) : Prop where
  nodup : given.Nodup
  plain : ∀ id ∈ given, st.boundary? id = none
  elsewhere : ∀ id h, id ∉ given → st.holding? id = some h → id ∈ loose ++ st.named given →
    (loose ++ st.named given).count id < h.holders

/-- An object that stays loses as many holders as there are holds less to come. -/
theorem GivesUp.of_count (hgives : st.GivesUp given loose)
    (hplain : ∀ id ∈ given, st'.boundary? id = none)
    (hcount : ∀ id h', id ∉ given → st'.holding? id = some h' →
      ∃ h, st.holding? id = some h ∧
        (loose' ++ st'.named given).count id ≤ (loose ++ st.named given).count id ∧
        (loose' ++ st'.named given).count id + h.holders
          ≤ (loose ++ st.named given).count id + h'.holders) :
    st'.GivesUp given loose' where
  nodup := hgives.nodup
  plain := hplain
  elsewhere := by
    intro id h' hid hh' hmem
    obtain ⟨h, hh, hle, hsum⟩ := hcount id h' hid hh'
    have hpos := List.count_pos_iff.2 hmem
    have hlt := hgives.elsewhere id h hid hh (List.count_pos_iff.1 (by omega))
    omega

/-- Holds on what may go do not count. -/
theorem GivesUp.append (hgives : st.GivesUp given loose) {ids : List ObjectId}
    (hids : ∀ id ∈ ids, id ∈ given) : st.GivesUp given (ids ++ loose) := by
  refine hgives.of_count hgives.plain ?_
  intro id h hid hh
  have hnone : ids.count id = 0 := List.count_eq_zero.2 fun hmem => hid (hids id hmem)
  refine ⟨h, hh, ?_⟩
  simp only [List.count_append]
  omega

/-- A hold on an object that is gone, or that may go, does not count any more. -/
theorem GivesUp.skip (hgives : st.GivesUp given (id :: loose))
    (hskip : ∀ h, st.holding? id = some h → id ∈ given) : st.GivesUp given loose := by
  refine hgives.of_count hgives.plain ?_
  intro j h hj hh
  have hne : id ≠ j := by
    rintro rfl
    exact hj (hskip h hh)
  refine ⟨h, hh, ?_⟩
  simp only [List.count_append, List.count_cons_of_ne hne]
  omega

/-- A hold less on an object that stays in the store. -/
theorem GivesUp.lose (hgives : st.GivesUp given (id :: loose)) (hh : st.holding? id = some h) :
    (st.put id (some { h with holders := h.holders - 1 })).GivesUp given loose := by
  have hget : ∀ j, (st.put id (some { h with holders := h.holders - 1 })).get? j = st.get? j := by
    intro j
    rw [get?_put hh]
    split
    · rename_i hj
      rw [hj, get?_of_holding? hh]
      rfl
    · rfl
  have hnamed : (st.put id (some { h with holders := h.holders - 1 })).named given
      = st.named given := List.flatMap_congr fun j _ => by rw [namedBy, hget]; rfl
  refine hgives.of_count (fun j hj => ?_) ?_
  · rw [boundary?, hget]
    exact hgives.plain j hj
  · intro j h' hj hh'
    rw [hnamed]
    rw [holding?_put hh] at hh'
    simp only [List.count_append]
    split at hh'
    · rename_i hji
      subst hji
      obtain rfl := Option.some.inj hh'
      refine ⟨h, hh, ?_⟩
      rw [List.count_cons_self]
      dsimp only
      omega
    · rename_i hji
      refine ⟨h', hh', ?_⟩
      rw [List.count_cons_of_ne (Ne.symm hji)]
      omega

/-- An object that may go is overwritten or taken away. What it does not name any more is loose. -/
theorem GivesUp.put {o : Option Holding} {taken : List ObjectId} (hgives : st.GivesUp given loose)
    (hh : st.holding? id = some h) (hid : id ∈ given)
    (hplain : ∀ owner handle, o.map (·.object) = some (.boundary owner handle) →
      h.object = .boundary owner handle)
    (hnames : namesOf h.object.parts = taken ++ o.elim [] fun h' => namesOf h'.object.parts) :
    (st.put id o).GivesUp given (taken ++ loose) := by
  have hget := get?_put hh o
  refine hgives.of_count (fun j hj => ?_) ?_
  · rw [boundary?_eq_none_iff, hget]
    split
    · intro owner handle hafter
      have hbefore := boundary?_eq_none_iff.1 (hgives.plain id hid) owner handle
      rw [get?_of_holding? hh, hplain owner handle hafter] at hbefore
      exact hbefore rfl
    · exact boundary?_eq_none_iff.1 (hgives.plain j hj)
  · intro j h' hj hh'
    have hne : j ≠ id := fun hji => hj (hji ▸ hid)
    rw [holding?_put hh, if_neg hne] at hh'
    refine ⟨h', hh', ?_⟩
    have hmoved := count_flatMap_of_eq (f := st.namedBy) (g := (st.put id o).namedBy)
      hgives.nodup hid (fun x hx => by rw [namedBy, hget, if_neg hx]; rfl) j
    have hafter : (st.put id o).namedBy id = o.elim [] fun h' => namesOf h'.object.parts := by
      rw [namedBy, hget, if_pos rfl]
      cases o <;> rfl
    rw [hafter, namedBy_of_holding? hh, hnames, List.count_append] at hmoved
    simp only [List.count_append, named]
    omega

/-- An object that goes turns its parts into loose holds. -/
theorem GivesUp.dismantle (hgives : st.GivesUp given (id :: loose))
    (hh : st.holding? id = some h) (hid : id ∈ given) :
    (st.put id none).GivesUp given (namesOf h.object.parts ++ loose) :=
  (hgives.skip fun _ _ => hid).put hh hid (fun _ _ hnone => by cases hnone)
    (List.append_nil _).symm

/-- An object that may go is written to. -/
theorem GivesUp.modify {f : HostObject → HostObject} {taken : List ObjectId}
    (hgives : st.GivesUp given loose) (hid : id ∈ given)
    (hplain : ∀ o owner handle, f o = .boundary owner handle → o = .boundary owner handle)
    (hnames : ∀ o, st.get? id = some o → namesOf o.parts = taken ++ namesOf (f o).parts)
    (hnone : st.get? id = none → taken = []) :
    (st.modify id f).GivesUp given (taken ++ loose) := by
  unfold Store.modify
  cases hh : st.holding? id with
  | none =>
    rw [hnone (by rw [get?, hh]; rfl)]
    exact hgives
  | some h =>
    exact hgives.put hh hid
      (fun owner handle hafter => hplain h.object owner handle (Option.some.inj hafter))
      (hnames h.object (get?_of_holding? hh))

/-- The boundary objects that are there were there before, over the same scalars. -/
def Fades (st st' : Store) : Prop :=
  ∀ id b, st'.boundary? id = some b → st.boundary? id = some b

theorem Fades.refl (st : Store) : st.Fades st := fun _ _ hb => hb

theorem Fades.trans {st'' : Store} (hfirst : st.Fades st') (hnext : st'.Fades st'') :
    st.Fades st'' := fun id b hb => hfirst id b (hnext id b hb)

theorem fades_of_get? (hget : ∀ id owner handle, st'.get? id = some (.boundary owner handle) →
    st.get? id = some (.boundary owner handle)) : st.Fades st' := by
  rintro id ⟨owner, handle⟩ hb
  unfold boundary? at hb ⊢
  split at hb
  · rename_i hafter
    cases hb
    rw [hget id owner handle hafter]
  · cases hb

theorem fades_modify (st : Store) (id : ObjectId) {f : HostObject → HostObject}
    (hplain : ∀ o owner handle, f o = .boundary owner handle → o = .boundary owner handle) :
    st.Fades (st.modify id f) := by
  refine fades_of_get? ?_
  intro j owner handle hafter
  unfold Store.modify at hafter
  split at hafter
  · rename_i h hh
    rw [get?_put hh] at hafter
    split at hafter
    · rename_i hj
      rw [hj, get?_of_holding? hh, hplain h.object owner handle (Option.some.inj hafter)]
    · exact hafter
  · exact hafter

end Store

theorem HostObject.eq_boundary_of_withItems {items : List Value} {o : HostObject}
    {owner : InterpreterId} {handle : Handle} (ho : o.withItems items = .boundary owner handle) :
    o = .boundary owner handle := by
  cases o <;> simp_all [withItems]

theorem HostObject.eq_boundary_of_withEntries {entries : List (String × Value)} {o : HostObject}
    {owner : InterpreterId} {handle : Handle} (ho : o.withEntries entries = .boundary owner handle) :
    o = .boundary owner handle := by
  cases o <;> simp_all [withEntries]

/-! ## Letting go of it -/

namespace World

variable {w w₁ : World} {given loose ids : List ObjectId} {id : ObjectId}

/-- An object that is not a boundary object goes without a trace in the guest. -/
theorem dismantle_of_plain (w : World) {o : HostObject}
    (ho : ∀ owner handle, o ≠ .boundary owner handle) :
    w.dismantle o = ((namesOf o.parts).map .holder, w) := by
  have hsteps : o.releaseSteps = (namesOf o.parts).map .holder := Value.flatMap_releaseSteps _
  rw [dismantle.eq_2 w o ho, hsteps]

/-- A loose hold ends. If its object goes, the parts of the object are loose from then on. -/
theorem givesUp_step {u u' : Unwinding} (hsteps : u.steps = ids.map .holder)
    (hgives : u.world.store.GivesUp given (ids ++ loose)) (hstep : Unwinding.Step u u') :
    ∃ ids', u'.steps = ids'.map .holder ∧ u'.world = { u.world with store := u'.world.store } ∧
      u'.world.store.GivesUp given (ids' ++ loose) := by
  cases hstep with
  | report | held | ends => obtain ⟨_, _, _, ⟨⟩, _⟩ := List.map_eq_cons_iff.1 hsteps.symm
  | absent hh =>
    obtain ⟨_, ids, rfl, ⟨⟩, rfl⟩ := List.map_eq_cons_iff.1 hsteps.symm
    exact ⟨ids, rfl, rfl, hgives.skip fun h hh' => by rw [hh] at hh'; cases hh'⟩
  | @last id h rest w hh hlast =>
    obtain ⟨_, ids, rfl, ⟨⟩, rfl⟩ := List.map_eq_cons_iff.1 hsteps.symm
    -- an object that is not given up has a holder besides this one
    have hid : id ∈ given := by
      by_contra hid
      have hmem : id ∈ (id :: ids ++ loose) ++ w.store.named given := by simp
      have hlt : 1 < h.holders := Nat.lt_of_le_of_lt (List.count_pos_iff.2 hmem)
        (hgives.elsewhere id h hid hh hmem)
      omega
    have hplain : ∀ owner handle, h.object ≠ .boundary owner handle := by
      intro owner handle hobject
      have hget := Store.get?_of_holding? hh
      rw [hobject] at hget
      exact Store.boundary?_eq_none_iff.1 (hgives.plain id hid) owner handle hget
    rw [dismantle_of_plain _ hplain]
    refine ⟨namesOf h.object.parts ++ ids, List.map_append.symm, rfl, ?_⟩
    rw [List.append_assoc]
    exact hgives.dismantle hh hid
  | fewer hh =>
    obtain ⟨_, ids, rfl, ⟨⟩, rfl⟩ := List.map_eq_cons_iff.1 hsteps.symm
    exact ⟨ids, rfl, rfl, hgives.lose hh⟩

/-- The loose holds end one after the other, and each object that goes has loose parts. -/
theorem release_of_givesUp (hgives : w.store.GivesUp given (ids ++ loose)) :
    ∃ st, w.release (ids.map .holder) = { w with store := st } ∧ st.GivesUp given loose := by
  obtain ⟨ids', hnone, hworld, hgives'⟩ := release_induct
    (P := fun u => ∃ ids, u.steps = ids.map .holder ∧
      u.world = { w with store := u.world.store } ∧ u.world.store.GivesUp given (ids ++ loose))
    ⟨ids, rfl, rfl, hgives⟩ <| by
      rintro u u' ⟨ids, hsteps, hworld, hgives⟩ hstep
      obtain ⟨ids', hsteps', hworld', hgives'⟩ := givesUp_step hsteps hgives hstep
      exact ⟨ids', hsteps', by rw [hworld', hworld], hgives'⟩
  obtain rfl : ids' = [] := by simpa using hnone.symm
  exact ⟨_, hworld, hgives'⟩

/-- From one world to another only the store has changed, and what is given up may still go. -/
structure Discards (given loose : List ObjectId) (w w₁ : World) : Prop where
  eq : w₁ = { w with store := w₁.store }
  fades : w.store.Fades w₁.store
  gives : w₁.store.GivesUp given loose

/-- Letting go of loose holds is a matter of the store alone. -/
theorem discards_release (hgives : w.store.GivesUp given (ids ++ loose)) :
    Discards given loose w (w.release (ids.map .holder)) := by
  obtain ⟨st, heq, hgives'⟩ := release_of_givesUp hgives
  have hrec := recedes_release (ids.map .holder) w
  rw [heq] at hrec ⊢
  refine ⟨rfl, Store.fades_of_get? ?_, hgives'⟩
  intro j owner handle hafter
  obtain ⟨h₁, hh₁, hobject₁⟩ := Option.map_eq_some_iff.1 hafter
  obtain ⟨h, hh, hobject⟩ := hrec.object j h₁ hh₁
  rw [Store.get?_of_holding? hh, hobject, hobject₁]

theorem discards_dropEach {vs : List Value} (hgives : w.store.GivesUp given (namesOf vs ++ loose)) :
    Discards given loose w (w.dropEach vs) := by
  rw [dropEach, Value.flatMap_releaseSteps]
  exact discards_release hgives

theorem discards_drop {v : Value} (hgives : w.store.GivesUp given (namesOf [v] ++ loose)) :
    Discards given loose w (w.drop v) := by
  rw [drop, Value.releaseSteps_eq]
  exact discards_release hgives

theorem discards_dropObjects (hgives : w.store.GivesUp given loose) (hids : ∀ id ∈ ids, id ∈ given) :
    Discards given loose w (w.dropObjects ids) :=
  discards_release (hgives.append hids)

/-! ## Taking values out of a collection -/

theorem discards_setItems {taken items : List Value} (hgives : w.store.GivesUp given loose)
    (hid : id ∈ given) (hitems : w.store.items id = taken ++ items) :
    Discards given (namesOf taken ++ loose) w (w.setItems id items) := by
  have hplain : ∀ (o : HostObject) owner handle, o.withItems items = .boundary owner handle →
      o = .boundary owner handle := fun _ _ _ => HostObject.eq_boundary_of_withItems
  refine ⟨rfl, w.store.fades_modify id hplain, hgives.modify hid hplain ?_ ?_⟩
  · intro o ho
    unfold Store.items at hitems
    rw [ho] at hitems
    cases o with
    | array before =>
      obtain rfl : before = taken ++ items := hitems
      exact Value.namesOf_append taken items
    | hash | boundary | object | closure =>
      obtain ⟨rfl, -⟩ := List.append_eq_nil_iff.1 hitems.symm
      rfl
  · intro hnone
    unfold Store.items at hitems
    rw [hnone] at hitems
    obtain ⟨rfl, -⟩ := List.append_eq_nil_iff.1 hitems.symm
    rfl

theorem discards_arrayDrain (hgives : w.store.GivesUp given loose) (hid : id ∈ given) :
    Discards given (namesOf (w.arrayDrain id).1 ++ loose) w (w.arrayDrain id).2 :=
  discards_setItems hgives hid (List.append_nil _).symm

theorem discards_hashDrain (hgives : w.store.GivesUp given loose) (hid : id ∈ given) :
    Discards given (namesOf ((w.hashDrain id).1.map (·.2)) ++ loose) w (w.hashDrain id).2 := by
  have hplain : ∀ (o : HostObject) owner handle, o.withEntries [] = .boundary owner handle →
      o = .boundary owner handle := fun _ _ _ => HostObject.eq_boundary_of_withEntries
  refine ⟨rfl, w.store.fades_modify id hplain, hgives.modify hid hplain ?_ ?_⟩
  · intro o ho
    rw [hashDrain, Store.entries, ho]
    cases o with
    | hash entries => exact (List.append_nil _).symm
    | array | boundary | object | closure => rfl
  · intro hnone
    rw [hashDrain, Store.entries, hnone]
    rfl

end World

end GuestBridge
