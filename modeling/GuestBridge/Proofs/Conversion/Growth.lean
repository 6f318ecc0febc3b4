import GuestBridge.Proofs.Conversion.Graph
import GuestBridge.Proofs.Ledger.Heap

/-!
# Growing a heap and taking it back

`Heap.Grown` compares a heap to an earlier one that has grown by some nodes and has gained some
shares: nothing else of it has changed. A conversion that succeeds leaves a heap grown by what it
made. `Heap.Released` goes the other way. What a conversion made comes off again without a trace,
because each node has one share and each scalar that was shared has a share besides (`Reads.frees`).

Slots are used again, so a handle that is stale may come to fit a new scalar. It does so only after
its slot has been emptied often enough for the generation to come around, and `Heap.Retired` counts
how often that is.
-/

namespace GuestBridge

/-- A cell with more shares. -/
def Cell.gain (c : Cell) (n : Nat) : Cell := { c with shares := c.shares + n }

/-- A cell with fewer shares. -/
def Cell.lose (c : Cell) (n : Nat) : Cell := { c with shares := c.shares - n }

@[simp] theorem Cell.gain_zero (c : Cell) : c.gain 0 = c := rfl

theorem Cell.gain_gain (c : Cell) (a b : Nat) : (c.gain a).gain b = c.gain (a + b) := by
  simp [gain, Nat.add_assoc]

theorem Cell.lose_lose (c : Cell) (a b : Nat) : (c.lose a).lose b = c.lose (a + b) := by
  simp [lose, Nat.sub_sub]

theorem Cell.lose_gain (c : Cell) (a b : Nat) : (c.gain (a + b)).lose b = c.gain a := by
  simp only [gain, lose, mk.injEq, and_self, and_true]
  omega

namespace Heap

variable {hp hp₁ hp₂ hp₃ : Heap} {h k : Handle} {c : Cell} {body : Body} {n : Nat}
variable {hs ns ns' ls ls' : List Handle} {ts : List Tree}

/-! ## Retired handles -/

/-- A stale handle that fits again only after its slot has been emptied more than `n` times. -/
def Retired (hp : Heap) (n : Nat) (h : Handle) : Prop :=
  ∃ slot, hp.slots[h.index]? = some slot ∧ n < (h.generation - slot.generation).toNat

theorem Retired.cell?_eq_none (hretired : hp.Retired n h) : hp.cell? h = none := by
  obtain ⟨slot, hslot, hlt⟩ := hretired
  have hgen : slot.generation ≠ h.generation := fun hgen => by simp [hgen] at hlt
  simp [cell?, hslot, hgen]

/-- Emptying a slot brings the handles of that slot one generation closer. -/
theorem generation_sub_succ {a b : UInt32} (hlt : n + 1 < (a - b).toNat) :
    n < (a - (b + 1)).toNat := by
  have ha := a.toNat_lt
  have hb := b.toNat_lt
  rw [UInt32.toNat_sub] at hlt ⊢
  rw [UInt32.toNat_add]
  simp only [UInt32.reduceToNat] at *
  omega

/-- From one heap to another some bodies are parked, and none of them has a closure. A handle that
was retired is closer to fitting again by as many generations at most. -/
def Parks (hp hp₁ : Heap) : Prop :=
  ∃ gone : List Body, hp₁.freed.toList = hp.freed.toList ++ gone ∧
    (∀ body ∈ gone, body.closure? = none) ∧
    ∀ n k, hp.Retired (n + gone.length) k → hp₁.Retired n k

theorem Parks.refl (hp : Heap) : Parks hp hp := ⟨[], by simp, by simp, fun _ _ hk => hk⟩

theorem Parks.trans (hfirst : Parks hp hp₁) (hnext : Parks hp₁ hp₂) : Parks hp hp₂ := by
  obtain ⟨gone, hfreed, hclosure, hretired⟩ := hfirst
  obtain ⟨gone', hfreed', hclosure', hretired'⟩ := hnext
  refine ⟨gone ++ gone', by rw [hfreed', hfreed, List.append_assoc], ?_,
    fun n k hk => hretired' n k (hretired _ k ?_)⟩
  · intro body hmem
    rcases List.mem_append.1 hmem with hmem | hmem
    · exact hclosure body hmem
    · exact hclosure' body hmem
  · rwa [List.length_append, Nat.add_comm gone.length, ← Nat.add_assoc] at hk

theorem Parks.size_le (hparks : Parks hp hp₁) : hp.freed.size ≤ hp₁.freed.size := by
  obtain ⟨gone, hfreed, -, -⟩ := hparks
  have hlen := congrArg List.length hfreed
  simp only [Array.length_toList, List.length_append] at hlen
  omega

/-- Nothing is parked, and no slot changes its generation. -/
theorem Parks.of_generation (hfreed : hp₁.freed = hp.freed)
    (hgen : ∀ (i : Nat) (slot : Slot), hp.slots[i]? = some slot →
      ∃ slot' : Slot, hp₁.slots[i]? = some slot' ∧ slot'.generation = slot.generation) :
    Parks hp hp₁ := by
  refine ⟨[], by simp [hfreed], by simp, ?_⟩
  intro n k hk
  obtain ⟨slot, hslot, hlt⟩ := hk
  obtain ⟨slot', hslot', heq⟩ := hgen _ _ hslot
  exact ⟨slot', hslot', by rw [heq]; exact hlt⟩

theorem parks_setCell (hc : hp.cell? h = some c) (c' : Cell) : Parks hp (hp.setCell h c') := by
  refine .of_generation rfl ?_
  intro i slot hslot
  by_cases hi : h.index = i
  · subst hi
    rw [getElem?_of_cell? hc, Option.some.injEq] at hslot
    subst hslot
    exact ⟨_, Array.getElem?_setIfInBounds_self_of_lt (lt_size_of_cell? hc), rfl⟩
  · exact ⟨slot, by rw [setCell, Array.getElem?_setIfInBounds_ne hi, hslot], rfl⟩

theorem WellFormed.parks_allocate (hwf : hp.WellFormed) (body : Body) :
    Parks hp (hp.allocate body).2 := by
  rcases hwf.allocate_cases body with ⟨i, free, slot, -, hslot, -, heq⟩ | ⟨-, heq⟩
  · refine .of_generation (by rw [heq]) ?_
    intro j slot' hslot'
    rw [heq]
    by_cases hj : i = j
    · subst hj
      rw [hslot, Option.some.injEq] at hslot'
      subst hslot'
      exact ⟨_, Array.getElem?_setIfInBounds_self_of_lt (Array.getElem?_eq_some_iff.1 hslot).1, rfl⟩
    · exact ⟨slot', by rw [Array.getElem?_setIfInBounds_ne hj, hslot'], rfl⟩
  · refine .of_generation (by rw [heq]) ?_
    intro j slot' hslot'
    rw [heq]
    obtain ⟨hlt, -⟩ := Array.getElem?_eq_some_iff.1 hslot'
    exact ⟨slot', by rw [Array.getElem?_push_lt hlt, ← hslot', Array.getElem?_eq_getElem hlt], rfl⟩

theorem parks_vacate (hc : hp.cell? h = some c) (hbody : body.closure? = none) :
    Parks hp (hp.vacate h body) := by
  refine ⟨[body], by simp [vacate], by simp [hbody], ?_⟩
  intro n k hk
  obtain ⟨slot, hslot, hlt⟩ := hk
  by_cases hi : h.index = k.index
  · rw [← hi, getElem?_of_cell? hc, Option.some.injEq] at hslot
    subst hslot
    refine ⟨{ generation := h.generation + 1 }, ?_, generation_sub_succ hlt⟩
    rw [vacate, ← hi, Array.getElem?_setIfInBounds_self_of_lt (lt_size_of_cell? hc)]
  · refine ⟨slot, by rw [vacate, Array.getElem?_setIfInBounds_ne hi, hslot], ?_⟩
    exact Nat.lt_of_le_of_lt (Nat.le_add_right n _) hlt

/-! ## Growing -/

/-- A heap with new scalars `ns`, in which each scalar has gained a share for each time it occurs in
`ls`. All else is as it was. -/
structure Grown (hp hp₁ : Heap) (ns ls : List Handle) : Prop where
  wellFormed : hp₁.WellFormed
  nodup : ns.Nodup
  fresh : ∀ k ∈ ns, hp.cell? k = none
  there : ∀ k ∈ ns, ∃ c, hp₁.cell? k = some c
  live : ∀ k ∈ ls, ∃ c, hp.cell? k = some c
  cell?_eq : ∀ k, k ∉ ns → hp₁.cell? k = (hp.cell? k).map (·.gain (ls.count k))
  parks : Parks hp hp₁

theorem Grown.refl (hwf : hp.WellFormed) : Grown hp hp [] [] where
  wellFormed := hwf
  nodup := List.nodup_nil
  fresh := by simp
  there := by simp
  live := by simp
  cell?_eq := fun k _ => by cases hp.cell? k <;> rfl
  parks := .refl hp

/-- What is there before is there after. -/
theorem Grown.exists_cell (hgrown : Grown hp hp₁ ns ls) (hc : hp.cell? k = some c) :
    hp₁.cell? k = some (c.gain (ls.count k)) := by
  have hk : k ∉ ns := fun hk => by simp [hgrown.fresh k hk] at hc
  rw [hgrown.cell?_eq k hk, hc, Option.map_some]

/-- A scalar that gains shares is not new. -/
theorem Grown.not_mem (hgrown : Grown hp hp₁ ns ls) (hk : k ∈ ls) : k ∉ ns := by
  intro hmem
  obtain ⟨c, hc⟩ := hgrown.live k hk
  simp [hgrown.fresh k hmem] at hc

theorem Grown.count_eq_zero (hgrown : Grown hp hp₁ ns ls) (hk : k ∈ ns) : ls.count k = 0 :=
  List.count_eq_zero.2 fun hmem => hgrown.not_mem hmem hk

/-- Two stages of growth, the second of which shares scalars that were there before the first. -/
theorem Grown.trans (hfirst : Grown hp hp₁ ns ls) (hnext : Grown hp₁ hp₂ ns' ls')
    (hlive : ∀ k ∈ ls', ∃ c, hp.cell? k = some c) : Grown hp hp₂ (ns ++ ns') (ls ++ ls') where
  wellFormed := hnext.wellFormed
  nodup := by
    refine List.nodup_append.2 ⟨hfirst.nodup, hnext.nodup, ?_⟩
    intro a ha b hb hab
    subst hab
    obtain ⟨c, hc⟩ := hfirst.there a ha
    simp [hnext.fresh a hb] at hc
  fresh := by
    intro k hk
    rcases List.mem_append.1 hk with hk | hk
    · exact hfirst.fresh k hk
    · cases hc : hp.cell? k with
      | none => rfl
      | some c =>
        have hnone := hnext.fresh k hk
        rw [hfirst.exists_cell hc] at hnone
        simp at hnone
  there := by
    intro k hk
    rcases List.mem_append.1 hk with hk | hk
    · obtain ⟨c, hc⟩ := hfirst.there k hk
      exact ⟨_, hnext.exists_cell hc⟩
    · exact hnext.there k hk
  live := by
    intro k hk
    rcases List.mem_append.1 hk with hk | hk
    · exact hfirst.live k hk
    · exact hlive k hk
  cell?_eq := by
    intro k hk
    obtain ⟨hk, hk'⟩ := not_or.1 (mt List.mem_append.2 hk)
    rw [hnext.cell?_eq k hk', hfirst.cell?_eq k hk, List.count_append]
    cases hp.cell? k with
    | none => rfl
    | some c => simp [Cell.gain_gain]
  parks := hfirst.parks.trans hnext.parks

/-- Only the number of times that a handle is listed counts. -/
theorem Grown.congr (hgrown : Grown hp hp₁ ns ls) (hns : ns.Perm ns')
    (hls : ∀ k, ls.count k = ls'.count k) : Grown hp hp₁ ns' ls' where
  wellFormed := hgrown.wellFormed
  nodup := hns.nodup_iff.1 hgrown.nodup
  fresh := fun k hk => hgrown.fresh k (hns.mem_iff.2 hk)
  there := fun k hk => hgrown.there k (hns.mem_iff.2 hk)
  live := fun k hk => hgrown.live k
    (List.count_pos_iff.1 (by rw [hls]; exact List.count_pos_iff.2 hk))
  cell?_eq := fun k hk => by rw [hgrown.cell?_eq k (mt hns.mem_iff.1 hk), hls]
  parks := hgrown.parks

theorem Grown.allocate (hwf : hp.WellFormed) (body : Body) :
    Grown hp (hp.allocate body).2 [(hp.allocate body).1] [] where
  wellFormed := hwf.allocate body
  nodup := by simp
  fresh := fun k hk => by
    rw [List.mem_singleton.1 hk]
    exact hwf.cell?_allocate_fst body
  there := fun k hk => ⟨_, by rw [hwf.cell?_allocate, if_pos (List.mem_singleton.1 hk)]⟩
  live := by simp
  cell?_eq := fun k hk => by
    rw [hwf.cell?_allocate, if_neg (by simpa using hk)]
    cases hp.cell? k <;> rfl
  parks := hwf.parks_allocate body

theorem Grown.share (hwf : hp.WellFormed) (hc : hp.cell? h = some c) :
    Grown hp (hp.share h).2 [] [h] where
  wellFormed := hwf.share h
  nodup := List.nodup_nil
  fresh := by simp
  there := by simp
  live := fun k hk => ⟨c, by rw [List.mem_singleton.1 hk, hc]⟩
  cell?_eq := fun k _ => by
    rw [share_eq_of_cell? hc, cell?_setCell hc, List.count_singleton]
    by_cases hk : k = h
    · subst hk
      simp [hc, Cell.gain]
    · rw [if_neg hk, beq_eq_false_iff_ne.2 (Ne.symm hk)]
      cases hp.cell? k <;> rfl
  parks := by
    rw [share_eq_of_cell? hc]
    exact parks_setCell hc _

/-- What is new may be written to. -/
theorem Grown.setBody (hgrown : Grown hp hp₁ ns ls) (hmem : h ∈ ns) (hc : hp₁.cell? h = some c)
    (body : Body) : Grown hp (hp₁.setBody h body).2 ns ls where
  wellFormed := hgrown.wellFormed.setBody h body
  nodup := hgrown.nodup
  fresh := hgrown.fresh
  there := fun k hk => by
    rw [setBody_eq_of_cell? hc, cell?_setCell hc]
    split
    · exact ⟨_, rfl⟩
    · exact hgrown.there k hk
  live := hgrown.live
  cell?_eq := fun k hk => by
    have hne : k ≠ h := fun he => hk (he ▸ hmem)
    rw [setBody_eq_of_cell? hc, cell?_setCell hc, if_neg hne, hgrown.cell?_eq k hk]
  parks := by
    rw [setBody_eq_of_cell? hc]
    exact hgrown.parks.trans (parks_setCell hc _)

/-- Growth since the parked bodies were taken, with those bodies put back in front. -/
theorem Grown.after_taken (hgrown : Grown { hp with freed := #[] } hp₁ ns ls) :
    Grown hp { hp₁ with freed := hp.freed ++ hp₁.freed } ns ls where
  wellFormed := hgrown.wellFormed.setFreed _
  nodup := hgrown.nodup
  fresh := hgrown.fresh
  there := hgrown.there
  live := hgrown.live
  cell?_eq := hgrown.cell?_eq
  parks := by
    obtain ⟨gone, hfreed, hclosure, hretired⟩ := hgrown.parks
    refine ⟨gone, ?_, hclosure, hretired⟩
    rw [Array.toList_append, hfreed]
    rfl

/-! ## Taking it back -/

/-- A heap from which the scalars `ns` have been freed, and in which each scalar has lost a share
for each time it occurs in `ls`. -/
structure Released (hp hp₁ : Heap) (ns ls : List Handle) : Prop where
  wellFormed : hp₁.WellFormed
  cell?_eq : ∀ k, hp₁.cell? k =
    if k ∈ ns then none else (hp.cell? k).map (·.lose (ls.count k))
  parks : Parks hp hp₁

theorem Released.refl (hwf : hp.WellFormed) : Released hp hp [] [] where
  wellFormed := hwf
  cell?_eq := fun k => by cases hp.cell? k <;> rfl
  parks := .refl hp

theorem Released.trans (hfirst : Released hp hp₁ ns ls) (hnext : Released hp₁ hp₂ ns' ls') :
    Released hp hp₂ (ns ++ ns') (ls ++ ls') where
  wellFormed := hnext.wellFormed
  cell?_eq := by
    intro k
    rw [hnext.cell?_eq, hfirst.cell?_eq, List.count_append]
    by_cases hk : k ∈ ns
    · simp [hk]
    · by_cases hk' : k ∈ ns'
      · simp [hk']
      · cases hp.cell? k with
        | none => simp [hk, hk']
        | some c => simp [hk, hk', Cell.lose_lose]
  parks := hfirst.parks.trans hnext.parks

theorem Released.congr (hreleased : Released hp hp₁ ns ls) (hns : ∀ k, k ∈ ns ↔ k ∈ ns')
    (hls : ∀ k, ls.count k = ls'.count k) : Released hp hp₁ ns' ls' where
  wellFormed := hreleased.wellFormed
  cell?_eq := fun k => by simp only [hreleased.cell?_eq, hns, hls]
  parks := hreleased.parks

/-- Growth of which a part has been taken back. -/
theorem Grown.release (hgrown : Grown hp hp₁ (ns ++ ns') (ls ++ ls'))
    (hreleased : Released hp₁ hp₂ ns' ls') : Grown hp hp₂ ns ls := by
  obtain ⟨hnodup, -, hdisjoint⟩ := List.nodup_append.1 hgrown.nodup
  have hcount : ∀ k ∈ ns, ls'.count k = 0 := fun k hk =>
    List.count_eq_zero.2 fun hmem =>
      hgrown.not_mem (List.mem_append_right _ hmem) (List.mem_append_left _ hk)
  exact
    { wellFormed := hreleased.wellFormed
      nodup := hnodup
      fresh := fun k hk => hgrown.fresh k (List.mem_append_left _ hk)
      there := fun k hk => by
        obtain ⟨c, hc⟩ := hgrown.there k (List.mem_append_left _ hk)
        have hk' : k ∉ ns' := fun hk' => hdisjoint k hk k hk' rfl
        exact ⟨_, by rw [hreleased.cell?_eq, if_neg hk', hc]; rfl⟩
      live := fun k hk => hgrown.live k (List.mem_append_left _ hk)
      cell?_eq := fun k hk => by
        rw [hreleased.cell?_eq]
        by_cases hk' : k ∈ ns'
        · rw [if_pos hk', hgrown.fresh k (List.mem_append_right _ hk')]
          rfl
        · rw [if_neg hk', hgrown.cell?_eq k (by simp [hk, hk']), List.count_append]
          cases hp.cell? k with
          | none => rfl
          | some c => simp [Cell.lose_gain]
      parks := hgrown.parks.trans hreleased.parks }

theorem Released.cell?_of_not_mem (hreleased : Released hp hp₁ ns ls) (hns : k ∉ ns)
    (hls : k ∉ ls) : hp₁.cell? k = hp.cell? k := by
  rw [hreleased.cell?_eq, if_neg hns, List.count_eq_zero.2 hls]
  cases hp.cell? k <;> rfl

theorem Released.shareCount_eq (hreleased : Released hp hp₁ ns ls) (hns : k ∉ ns) :
    hp₁.shareCount k = hp.shareCount k - ls.count k := by
  simp only [shareCount, hreleased.cell?_eq, if_neg hns]
  cases hp.cell? k with
  | none => simp
  | some c => rfl

/-- What is not taken back reads as before. -/
theorem Reads.of_released (hreads : Reads hp hs ts ns) (hreleased : Released hp hp₁ ns' ls')
    (hns : ∀ k ∈ ns, k ∉ ns') (hls : ∀ k ∈ ns, k ∉ ls') : Reads hp₁ hs ts ns := by
  exact hreads.congr fun k hk => hreleased.cell?_of_not_mem (hns k hk) (hls k hk)

/-! ## Dropping what was read -/

/-- What a reading made can come off: its nodes are used once, and the scalars it shares keep a
share when it is gone. -/
structure Loose (hp : Heap) (ns ls : List Handle) : Prop where
  nodup : ns.Nodup
  apart : ∀ k ∈ ls, k ∉ ns
  spare : ∀ k ∈ ls, ls.count k < hp.shareCount k

/-- What has grown can come off. -/
theorem Grown.loose (hgrown : Grown hp hp₁ ns ls) (hwf : hp.WellFormed) : Loose hp₁ ns ls where
  nodup := hgrown.nodup
  apart := fun k hk => hgrown.not_mem hk
  spare := by
    intro k hk
    obtain ⟨c, hc⟩ := hgrown.live k hk
    have hpos := hwf.shares_pos k c hc
    rw [shareCount_of_cell? (hgrown.exists_cell hc)]
    show ls.count k < c.shares + ls.count k
    omega

theorem Loose.comm (hloose : Loose hp (ns ++ ns') (ls ++ ls')) :
    Loose hp (ns' ++ ns) (ls' ++ ls) where
  nodup := List.perm_append_comm.nodup_iff.1 hloose.nodup
  apart := by
    intro k hk
    rw [List.perm_append_comm.mem_iff] at hk ⊢
    exact hloose.apart k hk
  spare := by
    intro k hk
    rw [List.perm_append_comm.count_eq]
    exact hloose.spare k (List.perm_append_comm.mem_iff.1 hk)

theorem Loose.left (hloose : Loose hp (ns ++ ns') (ls ++ ls')) : Loose hp ns ls where
  nodup := (List.nodup_append.1 hloose.nodup).1
  apart := fun k hk hmem =>
    hloose.apart k (List.mem_append_left _ hk) (List.mem_append_left _ hmem)
  spare := by
    intro k hk
    have hspare := hloose.spare k (List.mem_append_left _ hk)
    rw [List.count_append] at hspare
    omega

/-- When the left part has come off, the right part still can. -/
theorem Loose.right_of_released (hloose : Loose hp (ns ++ ns') (ls ++ ls'))
    (hreleased : Released hp hp₁ ns ls) : Loose hp₁ ns' ls' where
  nodup := (List.nodup_append.1 hloose.nodup).2.1
  apart := fun k hk hmem =>
    hloose.apart k (List.mem_append_right _ hk) (List.mem_append_right _ hmem)
  spare := by
    intro k hk
    have hns : k ∉ ns := fun hmem =>
      hloose.apart k (List.mem_append_right _ hk) (List.mem_append_left _ hmem)
    have hspare := hloose.spare k (List.mem_append_right _ hk)
    rw [List.count_append] at hspare
    rw [hreleased.shareCount_eq hns]
    omega

/-- Dropping one share of each handle, the last one first as a freed body does with its children,
frees the scalars `ns`, takes back the shares `ls` and never fails, in every heap that has the cells
`ns` of this one and from which they can come off. -/
def Frees (hp : Heap) (hs ns ls : List Handle) : Prop :=
  ∀ hp₁ : Heap, hp₁.WellFormed → (∀ k ∈ ns, hp₁.cell? k = hp.cell? k) → Loose hp₁ ns ls →
    ∀ rest, ∃ hp₂, cascade (hs.reverse ++ rest) hp₁ = cascade rest hp₂ ∧ Released hp₁ hp₂ ns ls

theorem frees_nil (hp : Heap) : hp.Frees [] [] [] :=
  fun _ hwf _ _ _ => ⟨_, rfl, .refl hwf⟩

/-- The tail goes first, and leaves the head as it was. -/
theorem Frees.cons (hhead : hp.Frees [h] ns ls) (htail : hp.Frees hs ns' ls') :
    hp.Frees (h :: hs) (ns ++ ns') (ls ++ ls') := by
  intro hp₁ hwf hsame hloose rest
  obtain ⟨hp₂, hrun, hreleased⟩ := htail hp₁ hwf
    (fun k hk => hsame k (List.mem_append_right _ hk)) hloose.comm.left (h :: rest)
  have hsame₂ : ∀ k ∈ ns, hp₂.cell? k = hp.cell? k := by
    intro k hk
    have hns : k ∉ ns' := fun hk' => (List.nodup_append.1 hloose.nodup).2.2 k hk k hk' rfl
    have hls : k ∉ ls' := fun hk' =>
      hloose.apart k (List.mem_append_right _ hk') (List.mem_append_left _ hk)
    rw [hreleased.cell?_of_not_mem hns hls, hsame k (List.mem_append_left _ hk)]
  obtain ⟨hp₃, hrun', hreleased'⟩ := hhead hp₂ hreleased.wellFormed hsame₂
    (hloose.comm.right_of_released hreleased) rest
  refine ⟨hp₃, ?_, (hreleased.trans hreleased').congr ?_ ?_⟩
  · rw [List.reverse_cons, List.append_assoc]
    exact hrun.trans hrun'
  · intro k
    exact List.perm_append_comm.mem_iff
  · intro k
    exact List.perm_append_comm.count_eq k

/-- A scalar that is shared stays. -/
theorem frees_shared (hp : Heap) (h : Handle) : hp.Frees [h] [] [h] := by
  intro hp₁ hwf _ hloose rest
  have hspare := hloose.spare h List.mem_cons_self
  rw [List.count_singleton_self] at hspare
  cases hc : hp₁.cell? h with
  | none => simp [shareCount_of_none hc] at hspare
  | some c =>
    rw [shareCount_of_cell? hc] at hspare
    refine ⟨_, cascade_of_left hc (by omega) rest, ?_⟩
    constructor
    · exact hwf.setCell hc (show 0 < c.shares - 1 by omega)
    · intro k
      rw [if_neg List.not_mem_nil, cell?_setCell hc, List.count_singleton]
      by_cases hk : k = h
      · subst hk
        simp [hc, Cell.lose]
      · rw [if_neg hk, beq_eq_false_iff_ne.2 (Ne.symm hk)]
        cases hp₁.cell? k <;> rfl
    · exact parks_setCell hc _

/-- A node goes, and its children after it. -/
theorem Frees.node (hc : hp.cell? h = some { shares := 1, body }) (hclosure : body.closure? = none)
    (hchildren : hp.Frees body.children ns ls) : hp.Frees [h] (h :: ns) ls := by
  intro hp₁ hwf hsame hloose rest
  have hc₁ : hp₁.cell? h = some { shares := 1, body } := by rw [hsame h List.mem_cons_self, hc]
  have hvacated : Released hp₁ (hp₁.vacate h body) [h] [] := by
    constructor
    · exact hwf.vacate hc₁ body
    · intro k
      simp only [cell?_vacate_eq hc₁, List.mem_singleton]
      by_cases hk : k = h
      · rw [if_pos hk, if_pos hk]
      · rw [if_neg hk, if_neg hk]
        cases hp₁.cell? k <;> rfl
    · exact parks_vacate hc₁ hclosure
  have hfresh : h ∉ ns := (List.nodup_cons.1 hloose.nodup).1
  have hsame₂ : ∀ k ∈ ns, (hp₁.vacate h body).cell? k = hp.cell? k := by
    intro k hk
    have hne : k ≠ h := fun he => hfresh (he ▸ hk)
    rw [cell?_vacate_eq hc₁, if_neg hne, hsame k (List.mem_cons_of_mem _ hk)]
  have hloose' : Loose hp₁ ([h] ++ ns) ([] ++ ls) := hloose
  obtain ⟨hp₂, hrun, hreleased⟩ := hchildren _ hvacated.wellFormed hsame₂
    (hloose'.right_of_released hvacated) rest
  refine ⟨hp₂, ?_, hvacated.trans hreleased⟩
  rw [← hrun]
  exact cascade_of_last hc₁ rfl rest

/-- What a heap reads as comes off: the nodes go, and each scalar loses a share. -/
theorem Reads.frees (hreads : Reads hp hs ts ns) : hp.Frees hs ns (Tree.scalarsOfItems ts) := by
  induction hreads with
  | nil => exact frees_nil hp
  | scalar _ ih => exact (frees_shared hp _).cons ih
  | int hc _ ih => exact ((frees_nil hp).node hc rfl).cons ih
  | num hc _ ih => exact ((frees_nil hp).node hc rfl).cons ih
  | str hc _ ih => exact ((frees_nil hp).node hc rfl).cons ih
  | array hc ha _ _ ihin ih =>
    have harray := ihin.node ha rfl
    exact (harray.node hc rfl).cons ih
  | hash hc ha _ _ _ ihin ih =>
    have hhash := ihin.node ha rfl
    rw [← Tree.scalarsOfEntries_eq] at hhash
    exact (hhash.node hc rfl).cons ih

/-- Dropping the only share of what was read. -/
theorem Frees.unshare (hfrees : hp.Frees [h] ns ls) (hwf : hp.WellFormed)
    (hloose : Loose hp ns ls) :
    ∃ left hp₁, hp.unshare h = (.ok left, hp₁) ∧ Released hp hp₁ ns ls := by
  obtain ⟨hp₁, hrun, hreleased⟩ := hfrees hp hwf (fun _ _ => rfl) hloose []
  rw [cascade_nil] at hrun
  have hrun' : Heap.cascade [h] hp = (.ok (), hp₁) := hrun
  exact ⟨_, hp₁, by rw [unshare_eq, hrun']; rfl, hreleased⟩

/-- Drops that succeed are followed by the rest. -/
theorem cascade_append (pending more : List Handle) (hp : Heap) :
    cascade (pending ++ more) hp =
      match cascade pending hp with
      | (.ok (), hp₁) => cascade more hp₁
      | (.error fault, hp₁) => (.error fault, hp₁) := by
  fun_induction cascade pending hp with
  | case1 hp => rfl
  | case2 hp h rest hc => rw [List.cons_append, cascade_of_none hc]
  | case3 hp h rest c hc hleft ih =>
    rw [List.cons_append, cascade_of_last hc hleft, ← ih, List.append_assoc]
  | case4 hp h rest c hc hleft ih =>
    rw [List.cons_append, cascade_of_left hc hleft, ih]

/-- Drops that all succeed in a row do so one by one. -/
theorem unshareEach_of_cascade (hs : List Handle) :
    ∀ {hp hp₁ : Heap}, cascade hs hp = (.ok (), hp₁) → hp.unshareEach hs = ([], hp₁) := by
  induction hs with
  | nil =>
    intro hp hp₁ hrun
    rw [cascade_nil] at hrun
    cases hrun
    rfl
  | cons h rest ih =>
    intro hp hp₁ hrun
    have hsplit := cascade_append [h] rest hp
    rw [List.singleton_append, hrun] at hsplit
    rw [unshareEach, unshare_eq]
    rcases hfirst : cascade [h] hp with ⟨fault | _, hp₂⟩
    · rw [hfirst] at hsplit
      cases hsplit
    · rw [hfirst] at hsplit
      exact ih hsplit.symm

/-- Dropping one share of each handle that was read, the last one first. -/
theorem Frees.unshareEach (hfrees : hp.Frees hs ns ls) (hwf : hp₁.WellFormed)
    (hsame : ∀ k ∈ ns, hp₁.cell? k = hp.cell? k) (hloose : Loose hp₁ ns ls) :
    ∃ hp₂, hp₁.unshareEach hs.reverse = ([], hp₂) ∧ Released hp₁ hp₂ ns ls := by
  obtain ⟨hp₂, hrun, hreleased⟩ := hfrees hp₁ hwf hsame hloose []
  rw [cascade_nil, List.append_nil] at hrun
  exact ⟨hp₂, unshareEach_of_cascade _ hrun, hreleased⟩

end Heap

end GuestBridge
