import GuestBridge.Proofs.Cascade.Holders

/-!
# What is held is there

Host code that goes on holding an object finds it again, with the content that it had, whatever else
is let go of in the meantime; and so it finds whatever that object names. `World.Counted` carries
this through the operations: each keeps the count for the holds that host code has then.
-/

namespace GuestBridge

open Value (namesOf)

/-! ## Totals over the scalars of a heap -/

namespace Heap

variable {hp hp₁ : Heap}

/-- A total over the slots goes over the scalars. -/
theorem total_slots_eq (hp : Heap) (f : Cell → Nat) :
    total (fun s => s.cell.elim 0 f) hp.slots
      = (hp.handles.map fun k => (hp.cell? k).elim 0 f).sum := by
  have hcells : hp.handles.map (fun k => (hp.cell? k).elim 0 f)
      = hp.slots.toList.zipIdx.filterMap fun entry => entry.1.cell.map f := by
    rw [handles, List.map_filterMap]
    refine List.filterMap_congr fun entry hmem => ?_
    obtain ⟨slot, i⟩ := entry
    rw [List.mem_zipIdx_iff_getElem?, Array.getElem?_toList] at hmem
    cases hcell : slot.cell with
    | none => simp [hcell]
    | some c => simp [cell?, hmem, hcell]
  suffices hslots : ∀ (slots : List Slot) (n : Nat),
      totalOfList (fun s => s.cell.elim 0 f) slots
        = ((slots.zipIdx n).filterMap fun entry => entry.1.cell.map f).sum by
    rw [hcells]
    exact hslots hp.slots.toList 0
  intro slots
  induction slots with
  | nil => exact fun _ => rfl
  | cons slot rest ih =>
    intro n
    rw [List.zipIdx_cons, List.filterMap_cons, totalOfList, ih (n + 1)]
    cases slot.cell <;> simp

/-- New scalars without closures keep nothing. -/
theorem Grown.keepers {ns ls : List Handle} (hgrown : Grown hp hp₁ ns ls)
    (hnew : ∀ k ∈ ns, ∀ c, hp₁.cell? k = some c → c.body.closure? = none) (id : ObjectId) :
    hp₁.keepers id = hp.keepers id := by
  have hperm : hp₁.handles.Perm (ns ++ hp.handles) := by
    refine (List.perm_ext_iff_of_nodup hp₁.nodup_handles ?_).2 fun k => ?_
    · refine List.nodup_append.2 ⟨hgrown.nodup, hp.nodup_handles, ?_⟩
      rintro k hk _ hk' rfl
      obtain ⟨c, hc⟩ := mem_handles_iff.1 hk'
      rw [hgrown.fresh k hk] at hc
      cases hc
    · rw [List.mem_append, mem_handles_iff, mem_handles_iff]
      by_cases hk : k ∈ ns
      · exact iff_of_true (hgrown.there k hk) (.inl hk)
      · rw [hgrown.cell?_eq k hk]
        cases hp.cell? k <;> simp [hk]
  have hnone : (ns.map fun k => (hp₁.cell? k).elim 0 (·.body.keepers id)).sum = 0 := by
    refine List.sum_eq_zero fun n hn => ?_
    obtain ⟨k, hk, rfl⟩ := List.mem_map.1 hn
    obtain ⟨c, hc⟩ := hgrown.there k hk
    rw [hc, Option.elim_some, Body.keepers, hnew k hk c hc]
    rfl
  have hothers : hp.handles.map (fun k => (hp₁.cell? k).elim 0 (·.body.keepers id))
      = hp.handles.map fun k => (hp.cell? k).elim 0 (·.body.keepers id) := by
    refine List.map_congr_left fun k hk => ?_
    obtain ⟨c, hc⟩ := mem_handles_iff.1 hk
    rw [hgrown.exists_cell hc, hc]
    rfl
  have hfreed : hp₁.freed.toList.filterMap Body.closure?
      = hp.freed.toList.filterMap Body.closure? := by
    obtain ⟨gone, hgone, hclosure, -⟩ := hgrown.parks
    rw [hgone, List.filterMap_append, List.filterMap_eq_nil_iff.2 hclosure, List.append_nil]
  rw [Heap.keepers, Heap.keepers, total_slots_eq, total_slots_eq, hfreed, (hperm.map _).sum_eq,
    List.map_append, List.sum_append, hnone, hothers, Nat.zero_add]

/-- What a conversion builds keeps nothing. -/
theorem Built.keepers {live : Handle → Bool} {hs ns : List Handle} {ts : List Tree}
    (hbuilt : Built live hp hp₁ hs ts ns) (id : ObjectId) : hp₁.keepers id = hp.keepers id := by
  refine hbuilt.grown.keepers (fun k hk c hc => ?_) id
  obtain ⟨body, hclosure, hbody⟩ := hbuilt.reads.exists_cell hk
  exact Option.some.inj (hbody.symm.trans hc) ▸ hclosure

/-- So a conversion keeps what the heap kept before. -/
theorem keepers_marshal {p : Passage} {live : Handle → Bool} {v : Value} (hwf : hp.WellFormed)
    (hserves : Serves live hp)
    (hspared : p.Spared live ((p.marshal v hp).2.freed.size - hp.freed.size) hp) (id : ObjectId) :
    (p.marshal v hp).2.keepers id = hp.keepers id := by
  rcases hrun : p.marshal v hp with ⟨result, hp₁⟩
  rw [hrun] at hspared
  cases Passage.convert_faithful p live _ hrun hwf hserves hspared with
  | made _ _ hbuilt => exact hbuilt.keepers id
  | failed _ hgrown => exact hgrown.keepers (fun k hk => absurd hk List.not_mem_nil) id

end Heap

/-! ## Worlds at rest -/

namespace World

variable {w w₁ : World} {i : InterpreterId} {loose : List ObjectId}

theorem AtRest.release (hrest : w.AtRest) (steps : List ReleaseStep) :
    (w.release steps).AtRest := by
  obtain ⟨us, hrun⟩ := unwinds_release steps w
  exact (hrun.hands hrest).2.1

theorem guest_snd (w : World) (i : InterpreterId) (f : Interpreter → α × Interpreter) :
    (w.guest i f).2 = (w.setInterpreter i (f (w.interpreter i)).2.rested).release
      ((f (w.interpreter i)).2.orphans.map .holder) := by
  rw [guest, onInterpreter_eq]
  dsimp only
  rw [settleFreed, takeFreed_setInterpreter]

theorem AtRest.guest {f : Interpreter → α × Interpreter} (hrest : w.AtRest)
    (hwf : (f (w.interpreter i)).2.heap.WellFormed) : (w.guest i f).2.AtRest := by
  rw [guest_snd]
  exact (hrest.setInterpreter hwf).release _

/-! ## Holds through operations -/

/-- Loose holds are let go of. -/
theorem Counted.release {ids : List ObjectId} (hcount : w.Counted (ids ++ loose)) :
    (w.release (ids.map .holder)).Counted loose := by
  obtain ⟨us, hrun⟩ := unwinds_release (ids.map .holder) w
  refine (hrun.counted ?_).2
  rw [Unwinding.names, ReleaseStep.names_holders]
  exact hcount

theorem Counted.drop {v : Value} (hcount : w.Counted (namesOf [v] ++ loose)) :
    (w.drop v).Counted loose := by
  rw [World.drop, Value.releaseSteps_eq]
  exact hcount.release

/-- An operation on an interpreter that keeps what the interpreter keeps. -/
theorem Counted.guest {f : Interpreter → α × Interpreter} (hcount : w.Counted loose)
    (hkeepers : ∀ id, (f (w.interpreter i)).2.keepers id = (w.interpreter i).keepers id) :
    (w.guest i f).2.Counted loose := by
  rw [guest_snd]
  have htaken := @Counted.takeFreed w i (f (w.interpreter i)).2 loose [] hcount hkeepers
  rw [List.append_nil] at htaken
  exact htaken.release

/-- A conversion keeps what its interpreter keeps. -/
theorem Counted.convert {config : Config} {v : Value} (hcount : w.Counted loose)
    (hrest : (w.interpreter i).heap.AtRest)
    (hspared : (w.passage i config).Spared (w.interpreter i).heap.contains (w.frees i config v)
      (w.interpreter i).heap) : (w.convert i config v).2.Counted loose := by
  refine hcount.guest fun id => ?_
  have hfrees : (w.frees i config v) = ((w.passage i config).marshal v
      (w.interpreter i).heap).2.freed.size - (w.interpreter i).heap.freed.size := by
    rw [hrest.freed_eq]
    rfl
  exact congrArg (· + _) (Heap.keepers_marshal hrest.toWellFormed
    (fun k hk => Heap.contains_iff.1 hk) (hfrees ▸ hspared) id)

/-- The content of an object is taken out of it. -/
theorem Counted.modify {id : ObjectId} {o : HostObject} {f : HostObject → HostObject}
    {taken : List ObjectId} (hcount : w.Counted loose) (ho : w.store.get? id = some o)
    (htaken : namesOf o.parts = taken ++ namesOf (f o).parts) :
    (w.onStore (·.modify id f)).Counted (taken ++ loose) := by
  obtain ⟨h, hh, rfl⟩ := Option.map_eq_some_iff.1 ho
  have hput := Store.keepers_put hh (some { h with object := f h.object })
  have hstore : (w.onStore (·.modify id f)).store
      = w.store.put id (some { h with object := f h.object }) := by
    rw [onStore, Store.modify, hh]
  refine ⟨fun x => ?_, fun x h' hh' => ?_⟩
  · have hx := hcount.eq x
    have hmoved := hput x
    rw [htaken, List.count_append, Option.elim_some] at hmoved
    dsimp only at hmoved
    rw [keepers] at hx
    rw [keepers, hstore, Store.holders_put hh, List.count_append]
    have hholders : (if x = id then (some { h with object := f h.object }).elim 0 (·.holders)
        else w.store.holders x) = w.store.holders x := by
      split
      · rename_i hxid
        rw [hxid, Store.holders_of_holding? hh]
        rfl
      · rfl
    rw [hholders]
    dsimp only [onStore]
    omega
  · rw [hstore, Store.holding?_put hh] at hh'
    split at hh'
    · rw [← Option.some.inj hh']
      exact hcount.pos id h hh
    · exact hcount.pos x h' hh'

theorem Counted.setItems {id : ObjectId} {vs : List Value} (hcount : w.Counted loose)
    (hvs : w.store.get? id = some (.array vs)) :
    (w.setItems id []).Counted (namesOf vs ++ loose) :=
  hcount.modify hvs (List.append_nil _).symm

theorem Counted.setEntries {id : ObjectId} {es : List (String × Value)} (hcount : w.Counted loose)
    (hes : w.store.get? id = some (.hash es)) :
    (w.setEntries id []).Counted (namesOf (es.map (·.2)) ++ loose) :=
  hcount.modify hes (List.append_nil _).symm

/-! ## What is there -/

theorem Counted.exists_of_pos {id : ObjectId} (hcount : w.Counted loose)
    (hpos : 0 < loose.count id + w.keepers id) : ∃ o, w.store.get? id = some o := by
  have hid := hcount.eq id
  cases hh : w.store.holding? id with
  | none =>
    rw [Store.holders, hh, Option.elim_none] at hid
    omega
  | some h => exact ⟨h.object, Store.get?_of_holding? hh⟩

/-- What is held is there. -/
theorem Counted.exists_of_mem {id : ObjectId} (hcount : w.Counted loose) (hid : id ∈ loose) :
    ∃ o, w.store.get? id = some o := by
  have hpos := List.count_pos_iff.2 hid
  exact hcount.exists_of_pos (by omega)

/-- What an object names is there. -/
theorem Counted.exists_of_part {id x : ObjectId} {o : HostObject} (hcount : w.Counted loose)
    (ho : w.store.get? id = some o) (hx : x ∈ namesOf o.parts) :
    ∃ o', w.store.get? x = some o' := by
  obtain ⟨h, hh, rfl⟩ := Option.map_eq_some_iff.1 ho
  have hput := Store.keepers_put hh none x
  have hpos := List.count_pos_iff.2 hx
  rw [Option.elim_none] at hput
  refine hcount.exists_of_pos ?_
  rw [keepers]
  omega

end World

end GuestBridge
