import GuestBridge.Scalar.Containers

/-!
# The invariant of the heap

What every heap operation keeps true by itself, whatever shares are added and dropped: the free
list names the empty slots, each once, and a scalar that is there has a share.

Allocation relies on it. The slot that it takes is empty, so the new handle fitted nothing before,
and no other handle sees the new scalar.
-/

namespace GuestBridge.Heap

/-- The free list names the empty slots, each once; scalars are counted, and each has a share. -/
structure WellFormed (hp : Heap) : Prop where
  free_nodup : hp.free.Nodup
  mem_free : ∀ i, i ∈ hp.free ↔ ∃ slot, hp.slots[i]? = some slot ∧ slot.cell = none
  live_eq : hp.live = hp.occupied
  shares_pos : ∀ h c, hp.cell? h = some c → 0 < c.shares

variable {hp : Heap} {h k : Handle} {c c' : Cell} {body : Body}

theorem wellFormed_empty : ({} : Heap).WellFormed where
  free_nodup := List.nodup_nil
  mem_free := fun i => by simp
  live_eq := rfl
  shares_pos := fun h c hc => by simp [cell?] at hc

theorem lt_size_of_cell? (hc : hp.cell? h = some c) : h.index < hp.slots.size :=
  (Array.getElem?_eq_some_iff.1 (getElem?_of_cell? hc)).1

/-- The slot of a scalar does not wait for use. -/
theorem WellFormed.not_mem_free (hwf : hp.WellFormed) (hc : hp.cell? h = some c) :
    h.index ∉ hp.free := by
  intro hmem
  obtain ⟨slot, hslot, hnone⟩ := (hwf.mem_free _).1 hmem
  rw [getElem?_of_cell? hc, Option.some.injEq] at hslot
  rw [← hslot] at hnone
  simp at hnone

/-- What is parked says nothing about the cells. -/
theorem WellFormed.setFreed (hwf : hp.WellFormed) (freed : Array Body) :
    WellFormed { hp with freed } where
  free_nodup := hwf.free_nodup
  mem_free := hwf.mem_free
  live_eq := hwf.live_eq
  shares_pos := hwf.shares_pos

/-! ## Writing one cell -/

theorem occupied_setCell (hc : hp.cell? h = some c) (c' : Cell) :
    (hp.setCell h c').occupied = hp.occupied := by
  have htotal := total_setIfInBounds_of_cell? hc (fun s => s.cell.elim 0 fun _ => 1)
    { generation := h.generation, cell := some c' }
  simp only [Option.elim_some, Nat.add_right_cancel_iff] at htotal
  exact htotal

theorem WellFormed.setCell (hwf : hp.WellFormed) (hc : hp.cell? h = some c)
    (hpos : 0 < c'.shares) : (hp.setCell h c').WellFormed where
  free_nodup := hwf.free_nodup
  mem_free := by
    intro i
    rw [show (hp.setCell h c').free = hp.free from rfl]
    by_cases hi : h.index = i
    · subst hi
      constructor
      · intro hmem
        exact absurd hmem (hwf.not_mem_free hc)
      · rintro ⟨slot, hslot, hnone⟩
        rw [Heap.setCell, Array.getElem?_setIfInBounds_self_of_lt (lt_size_of_cell? hc),
          Option.some.injEq] at hslot
        rw [← hslot] at hnone
        simp at hnone
    · rw [hwf.mem_free, Heap.setCell, Array.getElem?_setIfInBounds_ne hi]
  live_eq := by
    rw [occupied_setCell hc]
    exact hwf.live_eq
  shares_pos := by
    intro k d hd
    rw [cell?_setCell hc] at hd
    split at hd
    · rw [← Option.some.inj hd]
      exact hpos
    · exact hwf.shares_pos k d hd

/-! ## Emptying a slot -/

theorem occupied_vacate (hc : hp.cell? h = some c) (body : Body) :
    (hp.vacate h body).occupied + 1 = hp.occupied := by
  have htotal := total_setIfInBounds_of_cell? hc (fun s => s.cell.elim 0 fun _ => 1)
    { generation := h.generation + 1 }
  simp only [Option.elim_some, Option.elim_none, Nat.add_zero] at htotal
  exact htotal

/-- Only the handle of the scalar that goes loses sight of something. -/
theorem cell?_vacate_eq (hc : hp.cell? h = some c) (body : Body) (k : Handle) :
    (hp.vacate h body).cell? k = if k = h then none else hp.cell? k := by
  rw [cell?_vacate hc]
  by_cases hk : k = h
  · simp [hk]
  · rw [if_neg hk]
    split
    · rename_i hi
      symm
      rw [cell?, hi, getElem?_of_cell? hc]
      have hgen : h.generation ≠ k.generation := fun hgen => hk (by cases k; cases h; simp_all)
      simp [hgen]
    · rfl

theorem WellFormed.vacate (hwf : hp.WellFormed) (hc : hp.cell? h = some c) (body : Body) :
    (hp.vacate h body).WellFormed where
  free_nodup := List.nodup_cons.2 ⟨hwf.not_mem_free hc, hwf.free_nodup⟩
  mem_free := by
    intro i
    rw [show (hp.vacate h body).free = h.index :: hp.free from rfl, List.mem_cons]
    by_cases hi : h.index = i
    · subst hi
      rw [Heap.vacate, Array.getElem?_setIfInBounds_self_of_lt (lt_size_of_cell? hc)]
      simp
    · rw [Heap.vacate, Array.getElem?_setIfInBounds_ne hi, hwf.mem_free]
      simp [Ne.symm hi]
  live_eq := by
    have hlive := hwf.live_eq
    have hocc := occupied_vacate hc body
    rw [show (hp.vacate h body).live = hp.live - 1 from rfl]
    omega
  shares_pos := by
    intro k d hd
    rw [cell?_vacate_eq hc] at hd
    split at hd
    · simp at hd
    · exact hwf.shares_pos k d hd

/-! ## Allocation -/

theorem freed_allocate (hp : Heap) (body : Body) : (hp.allocate body).2.freed = hp.freed := by
  unfold allocate
  split <;> rfl

/-- An emptied slot is taken with its generation, or a slot is added with generation 0. -/
theorem WellFormed.allocate_cases (hwf : hp.WellFormed) (body : Body) :
    (∃ i free slot, hp.free = i :: free ∧ hp.slots[i]? = some slot ∧ slot.cell = none ∧
      hp.allocate body = (⟨i, slot.generation⟩,
        { hp with
          slots := hp.slots.setIfInBounds i
            { generation := slot.generation, cell := some { shares := 1, body } }
          free
          live := hp.live + 1 })) ∨
    (hp.free = [] ∧ hp.allocate body = (⟨hp.slots.size, 0⟩,
      { hp with
        slots := hp.slots.push { cell := some { shares := 1, body } }
        live := hp.live + 1 })) := by
  unfold Heap.allocate
  cases hfree : hp.free with
  | nil => exact .inr ⟨rfl, by simp only⟩
  | cons i free =>
    obtain ⟨slot, hslot, hnone⟩ := (hwf.mem_free i).1 (by rw [hfree]; exact List.mem_cons_self)
    exact .inl ⟨i, free, slot, rfl, hslot, hnone, by simp only [hslot]⟩

/-- The handle of a new scalar fitted nothing before. -/
theorem WellFormed.cell?_allocate_fst (hwf : hp.WellFormed) (body : Body) :
    hp.cell? (hp.allocate body).1 = none := by
  rcases hwf.allocate_cases body with ⟨i, free, slot, -, hslot, hnone, heq⟩ | ⟨-, heq⟩
  · rw [heq, cell?, hslot]
    simp [hnone]
  · rw [heq, cell?]
    simp

/-- The new scalar is seen through its own handle only, and all else is seen as before. -/
theorem WellFormed.cell?_allocate (hwf : hp.WellFormed) (body : Body) (k : Handle) :
    (hp.allocate body).2.cell? k =
      if k = (hp.allocate body).1 then some { shares := 1, body } else hp.cell? k := by
  rcases hwf.allocate_cases body with ⟨i, free, slot, -, hslot, hnone, heq⟩ | ⟨-, heq⟩
  · have hlt : i < hp.slots.size := (Array.getElem?_eq_some_iff.1 hslot).1
    rw [heq]
    by_cases hi : i = k.index
    · subst hi
      have hk : k = ⟨k.index, slot.generation⟩ ↔ slot.generation = k.generation :=
        ⟨fun e => by rw [e], fun e => by rw [e]⟩
      simp only [cell?, hslot, Array.getElem?_setIfInBounds_self_of_lt hlt, hnone, hk, ite_self]
    · have hk : k ≠ ⟨i, slot.generation⟩ := fun e => hi (by rw [e])
      simp only [cell?, Array.getElem?_setIfInBounds_ne hi, if_neg hk]
  · rw [heq]
    by_cases hi : k.index = hp.slots.size
    · have hk : k = ⟨hp.slots.size, 0⟩ ↔ 0 = k.generation :=
        ⟨fun e => by rw [e], fun e => by cases k; simp_all⟩
      simp only [cell?, hi, Array.getElem?_push_size, hk,
        Array.getElem?_eq_none (Nat.le_refl hp.slots.size)]
    · have hk : k ≠ ⟨hp.slots.size, 0⟩ := fun e => hi (by rw [e])
      simp only [cell?, Array.getElem?_push, if_neg hi, if_neg hk]

/-- What a new scalar does to a total over the slots for which an empty slot counts nothing. -/
theorem WellFormed.total_allocate (hwf : hp.WellFormed) (body : Body) (f : Slot → Nat)
    (g : Cell → Nat) (hf : ∀ slot, f slot = slot.cell.elim 0 g) :
    total f (hp.allocate body).2.slots = total f hp.slots + g { shares := 1, body } := by
  rcases hwf.allocate_cases body with ⟨i, free, slot, -, hslot, hnone, heq⟩ | ⟨-, heq⟩
  · have htotal := total_setIfInBounds f hslot
      { generation := slot.generation, cell := some { shares := 1, body } }
    rw [hf slot, hnone, hf, Option.elim_some, Option.elim_none, Nat.add_zero] at htotal
    rw [heq]
    exact htotal
  · rw [heq, total_push, hf]
    rfl

theorem WellFormed.allocate (hwf : hp.WellFormed) (body : Body) :
    (hp.allocate body).2.WellFormed where
  free_nodup := by
    have hnodup := hwf.free_nodup
    rcases hwf.allocate_cases body with ⟨i, free, slot, hfree, -, -, heq⟩ | ⟨-, heq⟩
    · rw [hfree] at hnodup
      rw [heq]
      exact (List.nodup_cons.1 hnodup).2
    · rw [heq]
      exact hnodup
  mem_free := by
    intro j
    have hmem := hwf.mem_free j
    have hnodup := hwf.free_nodup
    rcases hwf.allocate_cases body with ⟨i, free, slot, hfree, hslot, hnone, heq⟩ | ⟨hfree, heq⟩
    · -- the slot that is used again leaves the free list as it is filled
      have hlt : i < hp.slots.size := (Array.getElem?_eq_some_iff.1 hslot).1
      rw [hfree] at hmem hnodup
      rw [heq]
      by_cases hj : i = j
      · subst hj
        simp only [Array.getElem?_setIfInBounds_self_of_lt hlt]
        constructor
        · intro hi
          exact absurd hi (List.nodup_cons.1 hnodup).1
        · rintro ⟨slot', hslot', hnone'⟩
          rw [← Option.some.inj hslot'] at hnone'
          simp at hnone'
      · simp only [Array.getElem?_setIfInBounds_ne hj, ← hmem, List.mem_cons, Ne.symm hj, false_or]
    · rw [heq]
      rw [hfree] at hmem ⊢
      by_cases hj : j = hp.slots.size
      · subst hj
        simp
      · rw [hmem]
        simp only [Array.getElem?_push, if_neg hj]
  live_eq := by
    have hlive : (hp.allocate body).2.live = hp.live + 1 := by
      rcases hwf.allocate_cases body with ⟨i, free, slot, -, -, -, heq⟩ | ⟨-, heq⟩ <;> rw [heq]
    rw [hlive, hwf.live_eq]
    exact (hwf.total_allocate body _ (fun _ => 1) fun _ => rfl).symm
  shares_pos := by
    intro k d hd
    rw [hwf.cell?_allocate] at hd
    split at hd
    · rw [← Option.some.inj hd]
      exact Nat.one_pos
    · exact hwf.shares_pos k d hd

/-! ## Shares and bodies -/

theorem share_eq_of_cell? (hc : hp.cell? h = some c) :
    hp.share h = (.ok (c.shares + 1), hp.setCell h { c with shares := c.shares + 1 }) := by
  simp only [share, hc]

theorem share_eq_of_none (hc : hp.cell? h = none) : hp.share h = (.error h.stale, hp) := by
  simp only [share, hc]

theorem setBody_eq_of_cell? (hc : hp.cell? h = some c) (body : Body) :
    hp.setBody h body = (.ok (), hp.setCell h { c with body }) := by
  simp only [setBody, update, hc]

theorem body_eq_ok_iff : hp.body h = .ok body ↔ ∃ c, hp.cell? h = some c ∧ c.body = body := by
  unfold Heap.body cell
  cases hp.cell? h with
  | none => simp [Functor.map, Except.map]
  | some c => simp [Functor.map, Except.map]

theorem contains_iff : hp.contains h = true ↔ ∃ c, hp.cell? h = some c := by
  rw [contains, Option.isSome_iff_exists]

theorem contains_eq_false_iff : hp.contains h = false ↔ hp.cell? h = none := by
  rw [contains, Option.isSome_eq_false_iff, Option.isNone_iff_eq_none]

theorem WellFormed.share (hwf : hp.WellFormed) (h : Handle) : (hp.share h).2.WellFormed := by
  cases hc : hp.cell? h with
  | none => rwa [share_eq_of_none hc]
  | some c =>
    rw [share_eq_of_cell? hc]
    exact hwf.setCell hc (Nat.succ_pos _)

theorem WellFormed.setBody (hwf : hp.WellFormed) (h : Handle) (body : Body) :
    (hp.setBody h body).2.WellFormed := by
  cases hc : hp.cell? h with
  | none => rwa [Heap.setBody, update, hc]
  | some c =>
    rw [setBody_eq_of_cell? hc]
    exact hwf.setCell hc (hwf.shares_pos h c hc)

theorem WellFormed.body_allocate_fst (hwf : hp.WellFormed) (body : Body) :
    (hp.allocate body).2.body (hp.allocate body).1 = .ok body :=
  body_eq_ok_iff.2 ⟨{ shares := 1, body }, by rw [hwf.cell?_allocate, if_pos rfl], rfl⟩

/-- A new scalar changes no body. -/
theorem WellFormed.body_allocate (hwf : hp.WellFormed) {k : Handle} {body : Body}
    (hk : hp.body k = .ok body) (new : Body) : (hp.allocate new).2.body k = .ok body := by
  obtain ⟨c, hc, rfl⟩ := body_eq_ok_iff.1 hk
  have hne : k ≠ (hp.allocate new).1 := fun he => by
    rw [he, hwf.cell?_allocate_fst] at hc
    simp at hc
  exact body_eq_ok_iff.2 ⟨c, by rw [hwf.cell?_allocate, if_neg hne, hc], rfl⟩

/-- Nor does one more share. -/
theorem body_share {k : Handle} {body : Body} (hk : hp.body k = .ok body) (h : Handle) :
    (hp.share h).2.body k = .ok body := by
  cases hc : hp.cell? h with
  | none =>
    rw [share_eq_of_none hc]
    exact hk
  | some c =>
    obtain ⟨d, hd, rfl⟩ := body_eq_ok_iff.1 hk
    rw [share_eq_of_cell? hc]
    by_cases he : k = h
    · subst he
      rw [hc, Option.some.injEq] at hd
      exact body_eq_ok_iff.2 ⟨_, by rw [cell?_setCell hc, if_pos rfl], by rw [hd]⟩
    · exact body_eq_ok_iff.2 ⟨d, by rw [cell?_setCell hc, if_neg he, hd], rfl⟩

/-! ## Dropping shares -/

theorem cascade_nil (hp : Heap) : cascade [] hp = (.ok (), hp) := by
  rw [cascade]

theorem cascade_of_none (hc : hp.cell? h = none) (rest : List Handle) :
    cascade (h :: rest) hp = (.error h.stale, hp) := by
  rw [cascade]
  split
  · rfl
  · simp_all

theorem cascade_of_last (hc : hp.cell? h = some c) (hleft : c.shares - 1 = 0)
    (rest : List Handle) :
    cascade (h :: rest) hp
      = cascade (c.body.children.reverse ++ rest) (hp.vacate h c.body) := by
  rw [cascade]
  split
  · simp_all
  · rename_i d hd
    rw [hc, Option.some.injEq] at hd
    subst hd
    rw [if_pos hleft]

theorem cascade_of_left (hc : hp.cell? h = some c) (hleft : c.shares - 1 ≠ 0)
    (rest : List Handle) :
    cascade (h :: rest) hp
      = cascade rest (hp.setCell h { c with shares := c.shares - 1 }) := by
  rw [cascade]
  split
  · simp_all
  · rename_i d hd
    rw [hc, Option.some.injEq] at hd
    subst hd
    rw [if_neg hleft]

/-- Dropping a share is the cascade that starts from one pending drop. -/
theorem unshare_eq (hp : Heap) (h : Handle) :
    hp.unshare h = ((cascade [h] hp).1.map fun _ => (hp.cell? h).elim 0 (·.shares - 1),
      (cascade [h] hp).2) := by
  unfold unshare
  cases hc : hp.cell? h with
  | none =>
    rw [cascade_of_none hc]
    rfl
  | some c =>
    dsimp only
    by_cases hleft : c.shares - 1 = 0
    · rw [if_pos hleft, cascade_of_last hc hleft, List.append_nil]
      rcases cascade c.body.children.reverse (hp.vacate h c.body) with ⟨_ | _, _⟩ <;> rfl
    · rw [if_neg hleft, cascade_of_left hc hleft, cascade_nil]
      rfl

theorem unshare_snd (hp : Heap) (h : Handle) : (hp.unshare h).2 = (cascade [h] hp).2 := by
  rw [unshare_eq]

theorem WellFormed.cascade (hwf : hp.WellFormed) (pending : List Handle) :
    (cascade pending hp).2.WellFormed := by
  fun_induction Heap.cascade pending hp with
  | case1 => exact hwf
  | case2 => exact hwf
  | case3 _ _ _ _ hc _ ih => exact ih (hwf.vacate hc _)
  | case4 _ _ _ c hc hleft ih =>
    exact ih (hwf.setCell hc (by dsimp only; omega))

theorem WellFormed.unshare (hwf : hp.WellFormed) (h : Handle) : (hp.unshare h).2.WellFormed := by
  rw [unshare_snd]
  exact hwf.cascade [h]

/-- What is there after a cascade was there before, with the same body and blessing. -/
theorem exists_cell?_of_cascade {pending : List Handle}
    (hc : (Heap.cascade pending hp).2.cell? k = some c) :
    ∃ c', hp.cell? k = some c' ∧ c'.body = c.body ∧ c'.blessed = c.blessed := by
  fun_induction Heap.cascade pending hp with
  | case1 => exact ⟨c, hc, rfl, rfl⟩
  | case2 => exact ⟨c, hc, rfl, rfl⟩
  | case3 hp h rest d hd hleft ih =>
    obtain ⟨c', hc', hsame⟩ := ih hc
    rw [cell?_vacate_eq hd] at hc'
    split at hc'
    · simp at hc'
    · exact ⟨c', hc', hsame⟩
  | case4 hp h rest d hd hleft ih =>
    obtain ⟨c', hc', hsame⟩ := ih hc
    rw [cell?_setCell hd] at hc'
    split at hc'
    · rename_i hk
      rw [← Option.some.inj hc'] at hsame
      exact ⟨d, by rw [hk, hd], hsame⟩
    · exact ⟨c', hc', hsame⟩

/-- Dropping a share brings nothing back. -/
theorem contains_of_contains_unshare (hk : (hp.unshare h).2.contains k = true) :
    hp.contains k = true := by
  obtain ⟨c, hc⟩ := contains_iff.1 hk
  rw [unshare_snd] at hc
  obtain ⟨c', hc', -⟩ := exists_cell?_of_cascade hc
  exact contains_iff.2 ⟨c', hc'⟩

/-! ## Counting scalars -/

theorem mem_handles_iff : k ∈ hp.handles ↔ ∃ c, hp.cell? k = some c := by
  constructor
  · intro hk
    rw [handles, List.mem_filterMap] at hk
    obtain ⟨⟨slot, i⟩, hmem, hslot⟩ := hk
    rw [List.mem_zipIdx_iff_getElem?, Array.getElem?_toList] at hmem
    obtain ⟨c, hc, rfl⟩ := Option.map_eq_some_iff.1 hslot
    exact ⟨c, by simp only [cell?, hmem, if_true, hc]⟩
  · rintro ⟨c, hc⟩
    exact mem_handles hc

/-- A slot has one handle at a time. -/
theorem nodup_handles (hp : Heap) : hp.handles.Nodup := by
  have hindex : hp.slots.toList.zipIdx.Pairwise fun a b => a.2 ≠ b.2 :=
    List.pairwise_map.1 (by rw [List.zipIdx_map_snd]; exact List.nodup_range')
  refine hindex.filterMap _ ?_
  rintro a a' hne h hh k hk rfl
  obtain ⟨-, -, rfl⟩ := Option.map_eq_some_iff.1 hh
  obtain ⟨-, -, heq⟩ := Option.map_eq_some_iff.1 hk
  exact hne (Handle.mk.inj heq).1.symm

theorem length_handles (hp : Heap) : hp.handles.length = hp.occupied := by
  suffices hslots : ∀ (slots : List Slot) (n : Nat),
      ((slots.zipIdx n).filterMap fun entry =>
        entry.1.cell.map fun _ => (⟨entry.2, entry.1.generation⟩ : Handle)).length
        = totalOfList (fun s => s.cell.elim 0 fun _ => 1) slots from hslots hp.slots.toList 0
  intro slots
  induction slots with
  | nil => exact fun _ => rfl
  | cons slot rest ih =>
    intro n
    cases hcell : slot.cell with
    | none => simp [totalOfList, hcell, ih]
    | some c =>
      simp [totalOfList, hcell, ih]
      omega

/-- Heaps in which each handle sees the same have as many scalars. -/
theorem WellFormed.live_congr {hp₁ : Heap} (hwf : hp.WellFormed) (hwf₁ : hp₁.WellFormed)
    (hcell : ∀ k, hp₁.cell? k = hp.cell? k) : hp₁.live = hp.live := by
  have hperm : hp₁.handles.Perm hp.handles := by
    refine (List.perm_ext_iff_of_nodup hp₁.nodup_handles hp.nodup_handles).2 ?_
    intro k
    rw [mem_handles_iff, mem_handles_iff, hcell]
  rw [hwf.live_eq, hwf₁.live_eq, ← length_handles, ← length_handles]
  exact hperm.length_eq

end GuestBridge.Heap
