import GuestBridge.Proofs.Heap.Shedding

/-!
# Dropping one share to the end

Cycles and repeated children are allowed, so a scalar may come up many times in one cascade. The
scalars that are freed are still told apart by their share counts alone: each of them has just the
shares that the drop and the bodies freed with it take away (`Unshared`).

1. What a drop that meets no stale handle has done, `Unshared`, follows from the account of its
   cascade (`Sheds.unshared`).
2. A list of scalars absorbs the pending drops if it accounts for all of them: the scalars in it
   have no further share, and the others have one. Then the cascade ends well and frees only
   scalars of the list (`Absorbs.cascade`). What it frees absorbs the drops in its turn
   (`Sheds.absorbs`), so it is the least such list.
3. Absorbing does not look at the order of the children. So neither the reply nor what is freed
   depends on the order in which hashes enumerate their entries (`WellFormed.unshare_exact`).
-/

namespace GuestBridge

/-! ## Order of entries -/

/-- Bodies that differ at most in the order in which a hash enumerates its entries. -/
inductive Body.Reordered : Body → Body → Prop
  | same (body : Body) : Reordered body body
  | hash {entries entries' : List (Bytes × Handle)} :
    entries.Perm entries' → Reordered (.hash entries) (.hash entries')

theorem Body.Reordered.symm {body body' : Body} (hre : body.Reordered body') :
    body'.Reordered body := by
  cases hre with
  | same => exact .same _
  | hash hperm => exact .hash hperm.symm

theorem Body.Reordered.children {body body' : Body} (hre : body.Reordered body') :
    body.children.Perm body'.children := by
  cases hre with
  | same => exact .refl _
  | hash hperm => exact hperm.map _

namespace Heap

/-- Each handle sees a scalar in both heaps or in none, with the same shares, the same blessing and
the same body up to the order of entries. -/
def Reordered (hp hp' : Heap) : Prop :=
  ∀ k, match hp.cell? k, hp'.cell? k with
    | some c, some c' => c.shares = c'.shares ∧ c.blessed = c'.blessed ∧ c.body.Reordered c'.body
    | none, none => True
    | _, _ => False

/-- The children of a scalar. A stale handle has none. -/
def childrenOf (hp : Heap) (k : Handle) : List Handle := (hp.cell? k).elim [] (·.body.children)

/-- How often the scalars in a list name a handle as a child. -/
def childCount (hp : Heap) (lost : List Handle) (k : Handle) : Nat :=
  (lost.flatMap hp.childrenOf).count k

variable {hp hp' hp₁ : Heap} {h k : Handle} {c : Cell}
variable {gone gone' : List (Handle × Body)} {dropped dropped' lost rest pending : List Handle}

theorem Reordered.symm (hre : Reordered hp hp') : Reordered hp' hp := by
  intro k
  have hk := hre k
  cases hc : hp.cell? k <;> cases hc' : hp'.cell? k <;> simp only [hc, hc'] at hk ⊢
  exact ⟨hk.1.symm, hk.2.1.symm, hk.2.2.symm⟩

theorem Reordered.exists_cell? (hre : Reordered hp hp') (hc : hp.cell? k = some c) :
    ∃ c', hp'.cell? k = some c' ∧ c.shares = c'.shares ∧ c.blessed = c'.blessed ∧
      c.body.Reordered c'.body := by
  have hk := hre k
  rw [hc] at hk
  cases hc' : hp'.cell? k with
  | none => rw [hc'] at hk; exact hk.elim
  | some c' => rw [hc'] at hk; exact ⟨c', rfl, hk⟩

theorem Reordered.cell?_eq_none (hre : Reordered hp hp') (hc : hp.cell? k = none) :
    hp'.cell? k = none := by
  cases hc' : hp'.cell? k with
  | none => rfl
  | some c' =>
    obtain ⟨c, hc₁, -⟩ := hre.symm.exists_cell? hc'
    rw [hc] at hc₁
    cases hc₁

theorem Reordered.shareCount (hre : Reordered hp hp') (k : Handle) :
    hp.shareCount k = hp'.shareCount k := by
  cases hc : hp.cell? k with
  | none => rw [shareCount_of_none hc, shareCount_of_none (hre.cell?_eq_none hc)]
  | some c =>
    obtain ⟨c', hc', hshares, -⟩ := hre.exists_cell? hc
    rw [shareCount_of_cell? hc, shareCount_of_cell? hc', hshares]

theorem Reordered.childrenOf (hre : Reordered hp hp') (k : Handle) :
    (hp.childrenOf k).Perm (hp'.childrenOf k) := by
  rw [Heap.childrenOf, Heap.childrenOf]
  cases hc : hp.cell? k with
  | none => rw [hre.cell?_eq_none hc]
  | some c =>
    obtain ⟨c', hc', -, -, hbody⟩ := hre.exists_cell? hc
    rw [hc']
    exact hbody.children

theorem Reordered.childCount (hre : Reordered hp hp') (lost : List Handle) (k : Handle) :
    hp.childCount lost k = hp'.childCount lost k :=
  (List.Perm.flatMap_left lost fun k _ => hre.childrenOf k).count_eq k

theorem childCount_cons (hp : Heap) (h : Handle) (lost : List Handle) (k : Handle) :
    hp.childCount (h :: lost) k = (hp.childrenOf h).count k + hp.childCount lost k := by
  rw [childCount, List.flatMap_cons, List.count_append]
  rfl

theorem childCount_perm {lost lost' : List Handle} (hperm : lost.Perm lost') (k : Handle) :
    hp.childCount lost k = hp.childCount lost' k :=
  (hperm.flatMap_right _).count_eq k

theorem childCount_congr (hsame : ∀ k ∈ lost, hp.childrenOf k = hp'.childrenOf k) (k : Handle) :
    hp.childCount lost k = hp'.childCount lost k := by
  rw [childCount, childCount, List.flatMap_congr hsame]

theorem childrenOf_of_cell? (hc : hp.cell? h = some c) : hp.childrenOf h = c.body.children := by
  rw [childrenOf, hc, Option.elim_some]

/-- The children of the scalars that are gone, read off the heap or off the list. -/
theorem Loses.childCount_eq (hloses : Loses hp hp₁ gone) (k : Handle) :
    hp.childCount (gone.map (·.1)) k = occurrences gone k := by
  have hchildren : ∀ g ∈ gone, hp.childrenOf g.1 = g.2.children := by
    intro g hg
    obtain ⟨c, hc, hbody⟩ := body_eq_ok_iff.1 (hloses.body g hg)
    rw [childrenOf_of_cell? hc, hbody]
  rw [childCount, occurrences, List.flatMap_map, List.flatMap_congr hchildren]

/-! ## What a drop has done -/

/-- One share of `h` has been dropped, and the scalars in a list have been freed by it. None are
unless the share was the only one. Those that are had just the shares that the drop and the freed
bodies take away, and any other scalar has lost just these and has one left. The slots of the freed
ones are empty and one generation on; no other slot has moved on. -/
structure Unshared (hp hp₁ : Heap) (h : Handle) (gone : List (Handle × Body)) : Prop
    extends Loses hp hp₁ gone where
  last : gone ≠ [] → hp.shareCount h = 1
  lost_eq : ∀ g ∈ gone,
    hp.shareCount g.1 = occurrences gone g.1 + if g.1 = h then 1 else 0
  kept : ∀ k c₁, hp₁.cell? k = some c₁ → 1 ≤ c₁.shares ∧ hp.cell? k = some
    { c₁ with shares := c₁.shares + (occurrences gone k + if k = h then 1 else 0) }
  once : (gone.map (·.1.index)).Nodup
  emptied : ∀ g ∈ gone, hp₁.slots[g.1.index]? = some { generation := g.1.generation + 1 }
  others : ∀ i, i ∉ gone.map (·.1.index) → hp₁.generation? i = hp.generation? i
  live_eq : hp₁.live + gone.length = hp.live

/-- A slot has one handle at a time. -/
theorem eq_of_index_eq {k' : Handle} (hk : (hp.cell? k).isSome) (hk' : (hp.cell? k').isSome)
    (hindex : k.index = k'.index) : k = k' := by
  obtain ⟨c, hc⟩ := Option.isSome_iff_exists.1 hk
  obtain ⟨c', hc'⟩ := Option.isSome_iff_exists.1 hk'
  have hslot := getElem?_of_cell? hc
  rw [hindex, getElem?_of_cell? hc'] at hslot
  cases k
  cases k'
  simp_all

theorem Loses.isSome (hloses : Loses hp hp₁ gone) {g : Handle × Body} (hg : g ∈ gone) :
    (hp.cell? g.1).isSome :=
  ((hloses.mem g.1).1 (List.mem_map_of_mem hg)).1

theorem Loses.nodup_index (hloses : Loses hp hp₁ gone) : (gone.map (·.1.index)).Nodup := by
  have hinj : ∀ k ∈ gone.map (·.1), ∀ k' ∈ gone.map (·.1), k.index = k'.index → k = k' :=
    fun k hk k' hk' => eq_of_index_eq ((hloses.mem k).1 hk).1 ((hloses.mem k').1 hk').1
  have hindex := (List.nodup_map_iff_inj_on hloses.nodup).2 hinj
  rwa [List.map_map] at hindex

/-- The slot of a scalar that is gone is empty, and its generation is the next one. -/
theorem Sheds.emptied (hsheds : Sheds hp hp₁ gone dropped) {g : Handle × Body} (hg : g ∈ gone) :
    hp₁.slots[g.1.index]? = some { generation := g.1.generation + 1 } := by
  obtain ⟨c, hc⟩ := Option.isSome_iff_exists.1 (hsheds.isSome hg)
  have hgen := hsheds.generation_eq g.1.index
  rw [List.count_eq_one_of_mem hsheds.nodup_index (List.mem_map_of_mem hg), generation?,
    generation?, getElem?_of_cell? hc] at hgen
  obtain ⟨⟨generation, cell⟩, hslot, hnext⟩ := Option.map_eq_some_iff.1 hgen
  obtain rfl : generation = g.1.generation + 1 := hnext
  cases cell with
  | none => exact hslot
  | some c₁ =>
    -- a scalar there would have been there before, in a slot whose generation has not moved
    have hc₁ : hp₁.cell? ⟨g.1.index, g.1.generation + 1⟩ = some c₁ := by
      rw [cell?, hslot]
      exact if_pos rfl
    obtain ⟨c', hc', -⟩ := hsheds.recedes.cell _ _ hc₁
    have hsame := eq_of_index_eq (Option.isSome_of_eq_some hc') (hsheds.isSome hg) rfl
    have hgeneration : g.1.generation + 1 = g.1.generation := congrArg Handle.generation hsame
    simp at hgeneration

/-- The dropped share is missing afterwards. -/
theorem shareCount_unshare_self (hc : hp.cell? h = some c) :
    (hp.unshare h).2.shareCount h = c.shares - 1 := by
  by_cases hleft : c.shares - 1 = 0
  · rw [shareCount_of_none (cell?_unshare_of_last hc hleft), hleft]
  · rw [unshare_snd, cascade_of_left hc hleft, cascade_nil, shareCount_setCell hc, if_pos rfl]

/-- A drop of one of several shares frees nothing. -/
theorem Loses.shareCount_eq_one (hwf : hp.WellFormed) (hc : hp.cell? h = some c)
    (hloses : Loses hp (hp.unshare h).2 gone) (hgone : gone ≠ []) : hp.shareCount h = 1 := by
  rw [shareCount_of_cell? hc]
  by_cases hleft : c.shares - 1 = 0
  · have hpos := hwf.shares_pos h c hc
    omega
  · obtain ⟨g, hg⟩ := List.exists_mem_of_ne_nil gone hgone
    have hmem := (hloses.mem g.1).1 (List.mem_map_of_mem hg)
    rw [unshare_snd, cascade_of_left hc hleft, cascade_nil, cell?_setCell hc] at hmem
    obtain ⟨hthere, hnot⟩ := hmem
    split at hnot
    · cases hnot
    · rw [hnot] at hthere
      cases hthere

/-- A drop whose cascade has come to its end. -/
theorem Sheds.unshared (hwf : hp.WellFormed) (hc : hp.cell? h = some c)
    (hsheds : Sheds hp (hp.unshare h).2 gone dropped)
    (hcount : ∀ k, dropped.count k = [h].count k + occurrences gone k) :
    Unshared hp (hp.unshare h).2 h gone where
  toLoses := hsheds.toLoses
  last := hsheds.shareCount_eq_one hwf hc
  lost_eq := by
    intro g hg
    have hnone := ((hsheds.mem g.1).1 (List.mem_map_of_mem hg)).2
    rw [hsheds.count_eq, shareCount_of_none hnone, hcount, count_one]
    omega
  kept := by
    intro k c₁ hc₁
    obtain ⟨d, hd, hbody, hblessed⟩ := exists_cell?_of_cascade (unshare_snd hp h ▸ hc₁)
    have hshares := hsheds.count_eq k
    rw [shareCount_of_cell? hd, shareCount_of_cell? hc₁, hcount, count_one] at hshares
    refine ⟨(hwf.unshare h).shares_pos k c₁ hc₁, ?_⟩
    rw [hd, ← hbody, ← hblessed, Nat.add_comm (occurrences gone k), ← hshares]
  once := hsheds.nodup_index
  emptied := fun g hg => hsheds.emptied hg
  others := by
    intro i hi
    rw [hsheds.generation_eq, List.count_eq_zero_of_not_mem hi]
    cases hp.generation? i <;> simp
  live_eq := hsheds.live_eq

/-! ## What is freed -/

/-- A list of scalars accounts for all pending drops: those in the list have no share that is not
dropped in all, by what is pending or by a scalar of the list, and any other scalar that is dropped
on has one. -/
structure Absorbs (hp : Heap) (pending lost : List Handle) : Prop where
  nodup : lost.Nodup
  lost_eq : ∀ k ∈ lost, hp.shareCount k = pending.count k + hp.childCount lost k
  kept_lt : ∀ k, k ∉ lost → 0 < pending.count k + hp.childCount lost k →
    pending.count k + hp.childCount lost k < hp.shareCount k

/-- What is dropped on is there. -/
theorem Absorbs.exists_cell? (habs : Absorbs hp (h :: rest) lost) : ∃ c, hp.cell? h = some c := by
  cases hc : hp.cell? h with
  | some c => exact ⟨c, rfl⟩
  | none =>
    by_cases hmem : h ∈ lost
    · have hlost := habs.lost_eq h hmem
      rw [shareCount_of_none hc, List.count_cons_self] at hlost
      omega
    · have hkept := habs.kept_lt h hmem (by rw [List.count_cons_self]; omega)
      rw [shareCount_of_none hc] at hkept
      omega

/-- What loses its last share is in the list. -/
theorem Absorbs.mem_of_last (habs : Absorbs hp (h :: rest) lost) (hc : hp.cell? h = some c)
    (hleft : c.shares - 1 = 0) : h ∈ lost := by
  by_contra hmem
  have hkept := habs.kept_lt h hmem (by rw [List.count_cons_self]; omega)
  rw [shareCount_of_cell? hc, List.count_cons_self] at hkept
  omega

theorem childrenOf_vacate (hc : hp.cell? h = some c) (body : Body) (hk : k ≠ h) :
    (hp.vacate h body).childrenOf k = hp.childrenOf k := by
  rw [childrenOf, childrenOf, cell?_vacate_eq hc, if_neg hk]

theorem childrenOf_setCell (hc : hp.cell? h = some c) (c' : Cell) (hbody : c'.body = c.body)
    (k : Handle) : (hp.setCell h c').childrenOf k = hp.childrenOf k := by
  rw [childrenOf, childrenOf, cell?_setCell hc]
  split
  · rename_i hk
    rw [hk, hc, Option.elim_some, Option.elim_some, hbody]
  · rfl

/-- A scalar of the list is freed: its children are pending, and the rest of the list accounts for
them. -/
theorem Absorbs.vacate (habs : Absorbs hp (h :: rest) lost) (hc : hp.cell? h = some c)
    (hleft : c.shares - 1 = 0) :
    Absorbs (hp.vacate h c.body) (c.body.children.reverse ++ rest) (lost.erase h) := by
  have hmem := habs.mem_of_last hc hleft
  have hcount : ∀ k, (c.body.children.reverse ++ rest).count k
      + (hp.vacate h c.body).childCount (lost.erase h) k
        = rest.count k + hp.childCount lost k := by
    intro k
    have hsame : ∀ x ∈ lost.erase h, (hp.vacate h c.body).childrenOf x = hp.childrenOf x :=
      fun x hx => childrenOf_vacate hc c.body (habs.nodup.mem_erase_iff.1 hx).1
    rw [childCount_congr hsame, childCount_perm (List.perm_cons_erase hmem), childCount_cons,
      childrenOf_of_cell? hc, List.count_append, List.count_reverse]
    omega
  refine ⟨habs.nodup.erase h, ?_, ?_⟩
  · intro k hk
    obtain ⟨hne, hk⟩ := habs.nodup.mem_erase_iff.1 hk
    have hlost := habs.lost_eq k hk
    rw [hcount, shareCount_vacate hc, if_neg hne, hlost, List.count_cons_of_ne (Ne.symm hne)]
  · intro k hk hpos
    rw [hcount] at hpos ⊢
    rw [shareCount_vacate hc]
    by_cases hne : k = h
    · -- the drop just carried out was the one that its count was waiting for
      subst hne
      have hlost := habs.lost_eq k hmem
      rw [shareCount_of_cell? hc, List.count_cons_self] at hlost
      omega
    · have hkept := habs.kept_lt k (fun hk' => hk (habs.nodup.mem_erase_iff.2 ⟨hne, hk'⟩))
      rw [List.count_cons_of_ne (Ne.symm hne)] at hkept
      rw [if_neg hne]
      exact hkept hpos

/-- A scalar loses one of several shares: the list accounts for the other drops as before. -/
theorem Absorbs.setCell (habs : Absorbs hp (h :: rest) lost) (hc : hp.cell? h = some c) :
    Absorbs (hp.setCell h { c with shares := c.shares - 1 }) rest lost := by
  have hcount : ∀ k, (hp.setCell h { c with shares := c.shares - 1 }).childCount lost k
      = hp.childCount lost k :=
    childCount_congr fun x _ => childrenOf_setCell hc { c with shares := c.shares - 1 } rfl x
  refine ⟨habs.nodup, ?_, ?_⟩
  · intro k hk
    have hlost := habs.lost_eq k hk
    rw [hcount, shareCount_setCell hc]
    by_cases hne : k = h
    · subst hne
      rw [shareCount_of_cell? hc, List.count_cons_self] at hlost
      rw [if_pos rfl]
      dsimp only
      omega
    · rw [if_neg hne, hlost, List.count_cons_of_ne (Ne.symm hne)]
  · intro k hk hpos
    have hkept := habs.kept_lt k hk
    rw [hcount] at hpos ⊢
    rw [shareCount_setCell hc]
    by_cases hne : k = h
    · subst hne
      rw [shareCount_of_cell? hc, List.count_cons_self] at hkept
      rw [if_pos rfl]
      dsimp only
      omega
    · rw [List.count_cons_of_ne (Ne.symm hne)] at hkept
      rw [if_neg hne]
      exact hkept hpos

/-- Drops that a list absorbs are carried out to the last one and free scalars of the list only. -/
theorem Absorbs.cascade (habs : Absorbs hp pending lost) :
    (cascade pending hp).1 = .ok () ∧
      ∀ k, (hp.cell? k).isSome → (Heap.cascade pending hp).2.cell? k = none → k ∈ lost := by
  fun_induction Heap.cascade pending hp generalizing lost with
  | case1 hp =>
    refine ⟨rfl, fun k hthere hnone => ?_⟩
    rw [hnone] at hthere
    cases hthere
  | case2 hp h rest hc =>
    obtain ⟨c, hc'⟩ := habs.exists_cell?
    rw [hc] at hc'
    cases hc'
  | case3 hp h rest c hc hleft ih =>
    obtain ⟨hok, hlost⟩ := ih (habs.vacate hc hleft)
    refine ⟨hok, fun k hthere hnone => ?_⟩
    by_cases hk : k = h
    · exact hk ▸ habs.mem_of_last hc hleft
    · refine List.mem_of_mem_erase (hlost k ?_ hnone)
      rwa [cell?_vacate_eq hc, if_neg hk]
  | case4 hp h rest c hc hleft ih =>
    obtain ⟨hok, hlost⟩ := ih (habs.setCell hc)
    refine ⟨hok, fun k hthere hnone => hlost k ?_ hnone⟩
    rw [cell?_setCell hc]
    split
    · rfl
    · exact hthere

/-- What a drop frees absorbs it. -/
theorem Sheds.absorbs (hsheds : Sheds hp hp₁ gone dropped) (hwf₁ : hp₁.WellFormed)
    (hcount : ∀ k, dropped.count k = [h].count k + occurrences gone k) :
    Absorbs hp [h] (gone.map (·.1)) where
  nodup := hsheds.nodup
  lost_eq := by
    intro k hk
    have hnone := ((hsheds.mem k).1 hk).2
    rw [hsheds.count_eq, shareCount_of_none hnone, hcount, hsheds.childCount_eq, Nat.zero_add]
  kept_lt := by
    intro k hk hpos
    have hshares := hsheds.count_eq k
    rw [hsheds.childCount_eq, ← hcount] at hpos ⊢
    cases hc : hp.cell? k with
    | none =>
      rw [shareCount_of_none hc] at hshares
      omega
    | some c =>
      cases hc₁ : hp₁.cell? k with
      | none => exact absurd ((hsheds.mem k).2 ⟨Option.isSome_of_eq_some hc, hc₁⟩) hk
      | some c₁ =>
        have hleft := hwf₁.shares_pos k c₁ hc₁
        rw [shareCount_of_cell? hc₁] at hshares
        omega

/-! ## The order of entries -/

theorem Reordered.absorbs (hre : Reordered hp hp') (habs : Absorbs hp pending lost) :
    Absorbs hp' pending lost where
  nodup := habs.nodup
  lost_eq := by
    intro k hk
    rw [← hre.shareCount, ← hre.childCount]
    exact habs.lost_eq k hk
  kept_lt := by
    intro k hk
    rw [← hre.shareCount, ← hre.childCount]
    exact habs.kept_lt k hk

/-- A drop that a list absorbs comes to its end. -/
theorem Absorbs.unshare (habs : Absorbs hp [h] lost) : ∃ n, (hp.unshare h).1 = .ok n := by
  rw [unshare_eq, habs.cascade.1]
  exact ⟨_, rfl⟩

/-- The account of a drop that has come to its end. -/
theorem WellFormed.sheds_of_ok (hwf : hp.WellFormed) {n : Nat} (hok : (hp.unshare h).1 = .ok n) :
    n = hp.shareCount h - 1 ∧ ∃ gone dropped, Sheds hp (hp.unshare h).2 gone dropped ∧
      ∀ k, dropped.count k = [h].count k + occurrences gone k := by
  obtain ⟨gone, dropped, left, hsheds, hcount, ⟨hreply, rfl⟩ | ⟨k, rest, -, herror, -⟩⟩ :=
    hwf.sheds_unshare h
  · rw [hok, Except.ok.injEq] at hreply
    exact ⟨hreply, gone, dropped, hsheds, hcount⟩
  · rw [hok] at herror
    cases herror

/-- What is there after a drop was there before. -/
theorem Sheds.exists_cell? (hsheds : Sheds hp (hp.unshare h).2 gone dropped) {c₁ : Cell}
    (hc₁ : (hp.unshare h).2.cell? k = some c₁) :
    ∃ c, hp.cell? k = some c ∧ c.body = c₁.body ∧ c.blessed = c₁.blessed ∧
      c.shares = c₁.shares + dropped.count k := by
  obtain ⟨c, hc, hbody, hblessed⟩ := exists_cell?_of_cascade (unshare_snd hp h ▸ hc₁)
  have hshares := hsheds.count_eq k
  rw [shareCount_of_cell? hc, shareCount_of_cell? hc₁] at hshares
  exact ⟨c, hc, hbody, hblessed, hshares⟩

/-- What a drop frees is in every list that absorbs it. -/
theorem Sheds.subset (hsheds : Sheds hp (hp.unshare h).2 gone dropped) (habs : Absorbs hp [h] lost) :
    ∀ k ∈ gone.map (·.1), k ∈ lost := by
  intro k hk
  obtain ⟨hthere, hnone⟩ := (hsheds.mem k).1 hk
  rw [unshare_snd] at hnone
  exact habs.cascade.2 k hthere hnone

/-- What is not there after a drop in one order of entries is not there after it in another one, if
that frees as much. -/
theorem Reordered.cell?_unshare_eq_none (hre : Reordered hp hp')
    (hsheds : Sheds hp (hp.unshare h).2 gone dropped)
    (hsheds' : Sheds hp' (hp'.unshare h).2 gone' dropped')
    (hsub : ∀ k ∈ gone.map (·.1), k ∈ gone'.map (·.1))
    (hnone : (hp.unshare h).2.cell? k = none) : (hp'.unshare h).2.cell? k = none := by
  cases hc₁' : (hp'.unshare h).2.cell? k with
  | none => rfl
  | some c₁' =>
    obtain ⟨c', hc', -⟩ := hsheds'.exists_cell? hc₁'
    obtain ⟨c, hc, -⟩ := hre.symm.exists_cell? hc'
    have hgone := hsub k ((hsheds.mem k).2 ⟨Option.isSome_of_eq_some hc, hnone⟩)
    rw [((hsheds'.mem k).1 hgone).2] at hc₁'
    cases hc₁'

/-- A drop that comes to its end in one order of entries does so in any other. It answers the same
number and leaves the same scalars with the same shares. -/
theorem Reordered.unshare (hre : Reordered hp hp') (hwf : hp.WellFormed) (hwf' : hp'.WellFormed)
    {n : Nat} (hok : (hp.unshare h).1 = .ok n) :
    (hp'.unshare h).1 = .ok n ∧ Reordered (hp.unshare h).2 (hp'.unshare h).2 := by
  obtain ⟨rfl, gone, dropped, hsheds, hcount⟩ := hwf.sheds_of_ok hok
  have habs := hre.absorbs (hsheds.absorbs (hwf.unshare h) hcount)
  obtain ⟨n', hok'⟩ := habs.unshare
  obtain ⟨rfl, gone', dropped', hsheds', hcount'⟩ := hwf'.sheds_of_ok hok'
  have habs' := hre.symm.absorbs (hsheds'.absorbs (hwf'.unshare h) hcount')
  -- each of the two sets freed is the least one, so they are the same
  have hsub := hsheds.subset habs'
  have hsub' := hsheds'.subset habs
  have hperm : (gone.map (·.1)).Perm (gone'.map (·.1)) :=
    (List.perm_ext_iff_of_nodup hsheds.nodup hsheds'.nodup).2 fun k => ⟨hsub k, hsub' k⟩
  have hdropped : ∀ k, dropped.count k = dropped'.count k := by
    intro k
    rw [hcount, hcount', ← hsheds.childCount_eq, ← hsheds'.childCount_eq, childCount_perm hperm,
      hre.childCount]
  refine ⟨by rw [hok', hre.shareCount], ?_⟩
  intro k
  cases hc₁ : (hp.unshare h).2.cell? k with
  | none =>
    rw [hre.cell?_unshare_eq_none hsheds hsheds' hsub hc₁]
    trivial
  | some c₁ =>
    cases hc₁' : (hp'.unshare h).2.cell? k with
    | none =>
      rw [hre.symm.cell?_unshare_eq_none hsheds' hsheds hsub' hc₁'] at hc₁
      cases hc₁
    | some c₁' =>
      obtain ⟨c, hc, hbody, hblessed, hshares⟩ := hsheds.exists_cell? hc₁
      obtain ⟨c', hc', hbody', hblessed', hshares'⟩ := hsheds'.exists_cell? hc₁'
      obtain ⟨d, hd, hsame⟩ := hre.exists_cell? hc
      rw [hc', Option.some.injEq] at hd
      subst hd
      rw [hdropped] at hshares
      refine ⟨by omega, ?_, ?_⟩
      · rw [← hblessed, ← hblessed', hsame.2.1]
      · rw [← hbody, ← hbody']
        exact hsame.2.2

/-! ## The exact effect -/

/-- Dropping a share of a scalar that is there ends, with the number of shares left or at a child
that is stale. In the first case it has freed what `Unshared` says and answers how many shares the
scalar has left, none if it is gone. The order in which hashes enumerate their entries decides
neither which case it is nor what is freed and with how many shares the others are left. -/
theorem WellFormed.unshare_exact (hwf : hp.WellFormed) (hc : hp.cell? h = some c) :
    ((hp.unshare h).1 = .ok (c.shares - 1) ∨ ∃ k : Handle, (hp.unshare h).1 = .error k.stale) ∧
      (∀ n, (hp.unshare h).1 = .ok n →
        n = (hp.unshare h).2.shareCount h ∧ ∃ gone, Unshared hp (hp.unshare h).2 h gone) ∧
      ∀ hp', hp'.WellFormed → Reordered hp hp' →
        ((∃ n, (hp'.unshare h).1 = .ok n) ↔ ∃ n, (hp.unshare h).1 = .ok n) ∧
        ∀ n, (hp.unshare h).1 = .ok n →
          (hp'.unshare h).1 = .ok n ∧ Reordered (hp.unshare h).2 (hp'.unshare h).2 := by
  refine ⟨?_, ?_, ?_⟩
  · obtain ⟨-, -, -, -, -, ⟨hok, -⟩ | ⟨k, -, -, herror, -⟩⟩ := hwf.sheds_unshare h
    · exact .inl (by rw [hok, shareCount_of_cell? hc])
    · exact .inr ⟨k, herror⟩
  · intro n hok
    obtain ⟨rfl, gone, dropped, hsheds, hcount⟩ := hwf.sheds_of_ok hok
    refine ⟨?_, gone, hsheds.unshared hwf hc hcount⟩
    rw [shareCount_unshare_self hc, shareCount_of_cell? hc]
  · intro hp' hwf' hre
    refine ⟨⟨?_, ?_⟩, fun n hok => hre.unshare hwf hwf' hok⟩
    · rintro ⟨n, hok⟩
      exact ⟨n, (hre.symm.unshare hwf' hwf hok).1⟩
    · rintro ⟨n, hok⟩
      exact ⟨n, (hre.unshare hwf hwf' hok).1⟩

/-- The handle of a new scalar does not depend on what it holds. -/
theorem allocate_fst (hp : Heap) (body body' : Body) :
    (hp.allocate body).1 = (hp.allocate body').1 := by
  unfold allocate
  split <;> rfl

theorem reordered_allocate (hwf : hp.WellFormed) {body body' : Body} (hre : body.Reordered body') :
    Reordered (hp.allocate body).2 (hp.allocate body').2 := by
  intro k
  rw [hwf.cell?_allocate, hwf.cell?_allocate, hp.allocate_fst body' body]
  by_cases hk : k = (hp.allocate body).1
  · rw [if_pos hk, if_pos hk]
    exact ⟨rfl, rfl, hre⟩
  · rw [if_neg hk, if_neg hk]
    cases hp.cell? k with
    | none => trivial
    | some c => exact ⟨rfl, rfl, .same _⟩

/-- A number of two shares and a reference to it. -/
def referred : Heap :=
  ((({} : Heap).allocate (.int 1)).2.share ⟨0, 0⟩).2.allocate (.ref ⟨0, 0⟩) |>.2

/-- A hash with these entries beside them. -/
def hashOf (entries : List (Bytes × Handle)) : Heap := (referred.allocate (.hash entries)).2

theorem wellFormed_referred : referred.WellFormed :=
  ((wellFormed_empty.allocate (.int 1)).share ⟨0, 0⟩).allocate (.ref ⟨0, 0⟩)

/-- The number has two owners, and both are freed with the hash, whichever entry comes first. -/
theorem unshare_hashOf :
    (∃ gone, Unshared (hashOf [([107], ⟨0, 0⟩), ([108], ⟨1, 0⟩)])
      ((hashOf [([107], ⟨0, 0⟩), ([108], ⟨1, 0⟩)]).unshare ⟨2, 0⟩).2 ⟨2, 0⟩ gone) ∧
    ((hashOf [([108], ⟨1, 0⟩), ([107], ⟨0, 0⟩)]).unshare ⟨2, 0⟩).1 = .ok 0 ∧
    Reordered ((hashOf [([107], ⟨0, 0⟩), ([108], ⟨1, 0⟩)]).unshare ⟨2, 0⟩).2
      ((hashOf [([108], ⟨1, 0⟩), ([107], ⟨0, 0⟩)]).unshare ⟨2, 0⟩).2 := by
  have hok : ((hashOf [([107], ⟨0, 0⟩), ([108], ⟨1, 0⟩)]).unshare ⟨2, 0⟩).1 = .ok 0 := by cbv
  obtain ⟨-, heffect, horder⟩ :=
    (wellFormed_referred.allocate (.hash [([107], ⟨0, 0⟩), ([108], ⟨1, 0⟩)])).unshare_exact
      (h := ⟨2, 0⟩) rfl
  have hre := reordered_allocate wellFormed_referred
    (.hash (List.Perm.swap ([108], ⟨1, 0⟩) ([107], ⟨0, 0⟩) []))
  exact ⟨(heffect 0 hok).2, (horder _ (wellFormed_referred.allocate _) hre).2 0 hok⟩

end Heap

end GuestBridge
