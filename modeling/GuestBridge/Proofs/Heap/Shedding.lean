import GuestBridge.Proofs.Cascade.Handover

/-!
# What dropping shares takes away

Dropping the pending shares takes one share for each drop that is carried out, and nothing else:
a scalar whose last share goes is freed, and its children become pending in their turn.
`Sheds` says what has come of a heap when the drops in a list have been carried out.

1. The two steps of a cascade, `sheds_setCell` and `sheds_vacate`, carry out one drop each.
2. A cascade is a run of such steps (`WellFormed.sheds_cascade`). What was pending, and every child
   of every scalar freed on the way, has either been dropped or is left. Something is left only if
   the first of it is a stale handle, which is reported.
3. So a cascade that meets no stale handle drops the share of every child. One that meets a stale
   handle leaves the shares of what is still pending to nobody (`WellFormed.unshare_until_stale`).
-/

namespace GuestBridge.Heap

variable {hp hp₁ hp₂ : Heap} {h k : Handle} {c : Cell}
variable {gone gone' : List (Handle × Body)} {dropped dropped' : List Handle}

/-- How often the bodies in a list name a handle as a child. -/
def occurrences (gone : List (Handle × Body)) (k : Handle) : Nat :=
  (gone.flatMap (·.2.children)).count k

/-- The generation of a slot. -/
def generation? (hp : Heap) (i : Nat) : Option UInt32 := hp.slots[i]?.map (·.generation)

/-- The drops in a list have been carried out: each has taken one share, and the scalars in the
other list are the ones that went with it. Their slots have moved on and wait for use, the last one
emptied first, and the children of their bodies have lost an owner. -/
structure Sheds (hp hp₁ : Heap) (gone : List (Handle × Body)) (dropped : List Handle) : Prop
    extends Loses hp hp₁ gone where
  count_eq : ∀ k, hp.shareCount k = hp₁.shareCount k + dropped.count k
  asChild_eq : ∀ k, hp.asChild k = hp₁.asChild k + occurrences gone k
  generation_eq : ∀ i, hp₁.generation? i
    = (hp.generation? i).map (· + UInt32.ofNat ((gone.map (·.1.index)).count i))
  free_eq : hp₁.free = (gone.map (·.1.index)).reverse ++ hp.free
  live_eq : hp₁.live + gone.length = hp.live

theorem count_one (h k : Handle) : [h].count k = if k = h then 1 else 0 := by
  rw [List.count_singleton]
  simp only [beq_iff_eq]
  exact if_congr eq_comm rfl rfl

theorem occurrences_append (gone gone' : List (Handle × Body)) (k : Handle) :
    occurrences (gone ++ gone') k = occurrences gone k + occurrences gone' k := by
  rw [occurrences, List.flatMap_append, List.count_append]
  rfl

theorem occurrences_singleton (h : Handle) (body : Body) (k : Handle) :
    occurrences [(h, body)] k = body.children.count k := by
  simp [occurrences]

theorem Sheds.refl (hp : Heap) : Sheds hp hp [] [] where
  toLoses := .refl hp
  count_eq := fun _ => rfl
  asChild_eq := fun _ => rfl
  generation_eq := fun i => by cases hp.generation? i <;> simp
  free_eq := rfl
  live_eq := rfl

theorem Sheds.trans (hfirst : Sheds hp hp₁ gone dropped) (hnext : Sheds hp₁ hp₂ gone' dropped') :
    Sheds hp hp₂ (gone ++ gone') (dropped ++ dropped') where
  toLoses := hfirst.toLoses.trans hnext.toLoses
  count_eq := by
    intro k
    rw [hfirst.count_eq, hnext.count_eq, List.count_append]
    omega
  asChild_eq := by
    intro k
    rw [hfirst.asChild_eq, hnext.asChild_eq, occurrences_append]
    omega
  generation_eq := by
    intro i
    rw [hnext.generation_eq, hfirst.generation_eq, Option.map_map, List.map_append,
      List.count_append, UInt32.ofNat_add]
    cases hp.generation? i with
    | none => rfl
    | some generation => simp
  free_eq := by
    rw [hnext.free_eq, hfirst.free_eq, List.map_append, List.reverse_append, List.append_assoc]
  live_eq := by
    have hone := hfirst.live_eq
    have htwo := hnext.live_eq
    rw [List.length_append]
    omega

/-! ## One drop -/

theorem generation?_setCell (hc : hp.cell? h = some c) (c' : Cell) (i : Nat) :
    (hp.setCell h c').generation? i = hp.generation? i := by
  rw [generation?, generation?, setCell]
  by_cases hi : h.index = i
  · subst hi
    rw [Array.getElem?_setIfInBounds_self_of_lt (lt_size_of_cell? hc), getElem?_of_cell? hc]
    rfl
  · rw [Array.getElem?_setIfInBounds_ne hi]

theorem generation?_vacate (hc : hp.cell? h = some c) (body : Body) (i : Nat) :
    (hp.vacate h body).generation? i
      = (hp.generation? i).map (· + UInt32.ofNat ([h.index].count i)) := by
  rw [generation?, generation?, vacate, List.count_singleton]
  by_cases hi : h.index = i
  · subst hi
    rw [Array.getElem?_setIfInBounds_self_of_lt (lt_size_of_cell? hc), getElem?_of_cell? hc]
    simp
  · rw [Array.getElem?_setIfInBounds_ne hi, if_neg (by simpa using hi)]
    cases hp.slots[i]? <;> simp

/-- A drop that leaves other shares. -/
theorem sheds_setCell (hc : hp.cell? h = some c) (hleft : c.shares - 1 ≠ 0) :
    Sheds hp (hp.setCell h { c with shares := c.shares - 1 }) [] [h] where
  toLoses := loses_setCell hc rfl
  count_eq := by
    intro k
    rw [shareCount_setCell hc, count_one]
    split
    · rename_i hk
      rw [hk, shareCount_of_cell? hc]
      dsimp only
      omega
    · rfl
  asChild_eq := fun k =>
    (Nat.add_right_cancel (asChild_setCell hc { c with shares := c.shares - 1 } k)).symm
  generation_eq := by
    intro i
    rw [generation?_setCell hc]
    cases hp.generation? i <;> simp
  free_eq := rfl
  live_eq := rfl

/-- A drop that takes the last share. -/
theorem WellFormed.sheds_vacate (hwf : hp.WellFormed) (hc : hp.cell? h = some c)
    (hleft : c.shares - 1 = 0) : Sheds hp (hp.vacate h c.body) [(h, c.body)] [h] where
  toLoses := loses_vacate hc
  count_eq := by
    intro k
    rw [shareCount_vacate hc, count_one]
    split
    · rename_i hk
      have hpos := hwf.shares_pos h c hc
      rw [hk, shareCount_of_cell? hc]
      omega
    · rfl
  asChild_eq := by
    intro k
    rw [occurrences_singleton, asChild_vacate hc]
  generation_eq := generation?_vacate hc c.body
  free_eq := rfl
  live_eq := by
    have hocc := occupied_vacate hc c.body
    have hlive := hwf.live_eq
    show hp.live - 1 + 1 = hp.live
    omega

/-! ## The whole cascade -/

/-- What was pending, and each child of what is freed on the way, has either lost its share or is
left. The first of what is left is a stale handle, and it is reported. -/
theorem WellFormed.sheds_cascade (hwf : hp.WellFormed) (pending : List Handle) :
    ∃ gone dropped left, Sheds hp (Heap.cascade pending hp).2 gone dropped ∧
      (∀ k, dropped.count k + left.count k = pending.count k + occurrences gone k) ∧
      ((Heap.cascade pending hp).1 = .ok () ∧ left = [] ∨
        ∃ k rest, left = k :: rest ∧ (Heap.cascade pending hp).1 = .error k.stale ∧
          (Heap.cascade pending hp).2.cell? k = none) := by
  fun_induction Heap.cascade pending hp with
  | case1 hp => exact ⟨[], [], [], .refl hp, fun _ => rfl, .inl ⟨rfl, rfl⟩⟩
  | case2 hp h rest hc =>
    refine ⟨[], [], h :: rest, .refl hp, ?_, .inr ⟨h, rest, rfl, rfl, hc⟩⟩
    intro k
    rw [List.count_nil, Nat.zero_add]
    rfl
  | case3 hp h rest c hc hleft ih =>
    obtain ⟨gone, dropped, left, hsheds, hcount, hend⟩ := ih (hwf.vacate hc c.body)
    refine ⟨_, _, left, (hwf.sheds_vacate hc hleft).trans hsheds, ?_, hend⟩
    intro k
    have hk := hcount k
    rw [List.count_append, List.count_reverse] at hk
    rw [occurrences_append, occurrences_singleton, List.count_append, List.count_singleton,
      List.count_cons]
    omega
  | case4 hp h rest c hc hleft ih =>
    obtain ⟨gone, dropped, left, hsheds, hcount, hend⟩ :=
      ih (hwf.setCell hc (Nat.pos_of_ne_zero hleft))
    refine ⟨_, _, left, (sheds_setCell hc hleft).trans hsheds, ?_, hend⟩
    intro k
    have hk := hcount k
    rw [List.nil_append, List.count_append, List.count_singleton, List.count_cons]
    omega

theorem WellFormed.sheds_unshare (hwf : hp.WellFormed) (h : Handle) :
    ∃ gone dropped left, Sheds hp (hp.unshare h).2 gone dropped ∧
      (∀ k, dropped.count k + left.count k = [h].count k + occurrences gone k) ∧
      ((hp.unshare h).1 = .ok (hp.shareCount h - 1) ∧ left = [] ∨
        ∃ k rest, left = k :: rest ∧ (hp.unshare h).1 = .error k.stale ∧
          (hp.unshare h).2.cell? k = none) := by
  obtain ⟨gone, dropped, left, hsheds, hcount, hend⟩ := hwf.sheds_cascade [h]
  rw [unshare_eq]
  refine ⟨gone, dropped, left, hsheds, hcount, ?_⟩
  rcases hend with ⟨hok, hleft⟩ | ⟨k, rest, hleft, herror, hk⟩
  · refine .inl ⟨?_, hleft⟩
    rw [hok, shareCount]
    cases hp.cell? h <;> rfl
  · exact .inr ⟨k, rest, hleft, by rw [herror]; rfl, hk⟩

/-- A scalar whose last share is dropped is gone, however the cascade ends. -/
theorem cell?_unshare_of_last (hc : hp.cell? h = some c) (hleft : c.shares - 1 = 0) :
    (hp.unshare h).2.cell? h = none := by
  rw [unshare_snd, cascade_of_last hc hleft]
  cases hc' : (cascade (c.body.children.reverse ++ []) (hp.vacate h c.body)).2.cell? h with
  | none => rfl
  | some c' =>
    obtain ⟨d, hd, -⟩ := exists_cell?_of_cascade hc'
    rw [cell?_vacate_eq hc, if_pos rfl] at hd
    cases hd

/-- Where the scalars have as many shares as owners, of which the caller gives one up, a scalar that
is still there has its owners' shares afterwards, and one for each drop that is left. -/
theorem Sheds.shares_eq {left : List Handle} {owed : Handle → Nat}
    (hsheds : Sheds hp hp₁ gone dropped)
    (hcount : ∀ k, dropped.count k + left.count k = [h].count k + occurrences gone k)
    (howned : ∀ k c, hp.cell? k = some c → c.shares = hp.asChild k + owed k + [h].count k)
    {c₁ : Cell} (hc₁ : hp₁.cell? k = some c₁) :
    c₁.shares = hp₁.asChild k + owed k + left.count k := by
  obtain ⟨c, hc, -⟩ := hsheds.recedes.cell k c₁ hc₁
  have hbefore := howned k c hc
  have hshares := hsheds.count_eq k
  have hchild := hsheds.asChild_eq k
  have hk := hcount k
  rw [shareCount_of_cell? hc, shareCount_of_cell? hc₁] at hshares
  omega

/-- Dropping the last share of a scalar takes one share for each child of each body freed, up to the
first child that is stale when its turn comes. If there is none, nothing is left, and every scalar
that is still there has as many shares as owners. If there is one, it is reported, and what is left
keeps a share each that nobody owns. -/
theorem WellFormed.unshare_until_stale (hwf : hp.WellFormed) (hc : hp.cell? h = some c)
    (hlast : c.shares = 1) :
    ∃ gone dropped left, Sheds hp (hp.unshare h).2 gone dropped ∧ h ∈ gone.map (·.1) ∧
      (dropped ++ left).Perm (h :: gone.flatMap (·.2.children)) ∧
      ((hp.unshare h).1 = .ok 0 ∧ left = [] ∨
        ∃ k rest, left = k :: rest ∧ (hp.unshare h).1 = .error k.stale ∧
          (hp.unshare h).2.cell? k = none) ∧
      ∀ owed : Handle → Nat,
        (∀ k c, hp.cell? k = some c → c.shares = hp.asChild k + owed k + [h].count k) →
        ∀ k c₁, (hp.unshare h).2.cell? k = some c₁ →
          c₁.shares = (hp.unshare h).2.asChild k + owed k + left.count k := by
  obtain ⟨gone, dropped, left, hsheds, hcount, hend⟩ := hwf.sheds_unshare h
  refine ⟨gone, dropped, left, hsheds, ?_, ?_, ?_, ?_⟩
  · rw [hsheds.mem, hc]
    exact ⟨rfl, cell?_unshare_of_last hc (by omega)⟩
  · rw [List.perm_iff_count]
    intro k
    rw [List.count_append, hcount, List.count_cons (l := gone.flatMap _), List.count_singleton,
      Nat.add_comm]
    rfl
  · rwa [shareCount_of_cell? hc, hlast] at hend
  · intro owed howned k c₁ hc₁
    exact hsheds.shares_eq hcount howned hc₁

/-- An array of a scalar and of one that is gone. The array is in the slot of the latter. -/
def halfStale : Heap :=
  (((({} : Heap).allocate (.int 1)).2.allocate (.int 2)).2.vacate ⟨0, 0⟩ (.int 1)).allocate
    (.array [⟨1, 0⟩, ⟨0, 0⟩]) |>.2

theorem wellFormed_halfStale : halfStale.WellFormed := by
  have htwo := (wellFormed_empty.allocate (.int 1)).allocate (.int 2)
  exact (htwo.vacate (h := ⟨0, 0⟩) (c := { shares := 1, body := .int 1 }) rfl (.int 1)).allocate _

theorem cell?_halfStale :
    halfStale.cell? ⟨0, 1⟩ = some { shares := 1, body := .array [⟨1, 0⟩, ⟨0, 0⟩] } := rfl

/-- The array is freed, and the scalar behind the stale one is left. -/
theorem unshare_halfStale :
    ∃ gone dropped left, Sheds halfStale (halfStale.unshare ⟨0, 1⟩).2 gone dropped ∧
      ⟨0, 1⟩ ∈ gone.map (·.1) ∧
      (dropped ++ left).Perm (⟨0, 1⟩ :: gone.flatMap (·.2.children)) ∧
      ((halfStale.unshare ⟨0, 1⟩).1 = .ok 0 ∧ left = [] ∨
        ∃ k rest, left = k :: rest ∧ (halfStale.unshare ⟨0, 1⟩).1 = .error k.stale ∧
          (halfStale.unshare ⟨0, 1⟩).2.cell? k = none) ∧
      ∀ owed : Handle → Nat,
        (∀ k c, halfStale.cell? k = some c →
          c.shares = halfStale.asChild k + owed k + [(⟨0, 1⟩ : Handle)].count k) →
        ∀ k c₁, (halfStale.unshare ⟨0, 1⟩).2.cell? k = some c₁ →
          c₁.shares = (halfStale.unshare ⟨0, 1⟩).2.asChild k + owed k + left.count k :=
  wellFormed_halfStale.unshare_until_stale cell?_halfStale rfl

/-- The scalar that only the freed array owned is left with its share and without an owner. -/
theorem halfStale_keeps_sibling :
    halfStale.WellFormed ∧ halfStale.shareCount ⟨0, 1⟩ = 1 ∧
      halfStale.shareCount ⟨1, 0⟩ = 1 ∧ halfStale.asChild ⟨1, 0⟩ = 1 ∧
      (halfStale.unshare ⟨0, 1⟩).1 = .error (Handle.stale ⟨0, 0⟩) ∧
      (halfStale.unshare ⟨0, 1⟩).2.contains ⟨0, 1⟩ = false ∧
      (halfStale.unshare ⟨0, 1⟩).2.shareCount ⟨1, 0⟩ = 1 ∧
      (halfStale.unshare ⟨0, 1⟩).2.asChild ⟨1, 0⟩ = 0 := by
  have hcascade : cascade [⟨0, 1⟩] halfStale
      = (.error (Handle.stale ⟨0, 0⟩),
        halfStale.vacate ⟨0, 1⟩ (.array [⟨1, 0⟩, ⟨0, 0⟩])) := by
    rw [cascade_of_last cell?_halfStale rfl]
    exact cascade_of_none rfl _
  rw [unshare_eq, hcascade]
  exact ⟨wellFormed_halfStale, rfl, rfl, rfl, rfl, rfl, rfl, rfl⟩

end GuestBridge.Heap
