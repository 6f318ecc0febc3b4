import GuestBridge.Proofs.HeapInvariant

/-!
# The share ledger of a heap

A heap is balanced for `owed` if each scalar has as many shares as it has owners: once for each
occurrence as a child of a scalar, and `owed` times for owners outside the heap. A stale handle has
no shares, so it has no owner either.

* A drop that is still pending in `Heap.cascade` is an owner outside the heap. With it counted, the
  balance carries the cascade: no handle it meets is stale, and it ends with nothing pending.
* Each operation that puts one scalar into another turns an owner outside into one inside.
-/

namespace GuestBridge.Heap

/-- How often the scalars of the heap name a handle as a child. -/
def asChild (hp : Heap) (k : Handle) : Nat :=
  total (fun s => s.cell.elim 0 fun c => c.body.children.count k) hp.slots

/-- Number of shares; a stale handle has none. -/
def shareCount (hp : Heap) (k : Handle) : Nat := (hp.cell? k).elim 0 (·.shares)

/-- Each scalar has a share for each occurrence as a child and for each owner outside. -/
structure Balanced (hp : Heap) (owed : Handle → Nat) : Prop where
  wellFormed : hp.WellFormed
  count_eq : ∀ k, hp.shareCount k = hp.asChild k + owed k

variable {hp : Heap} {h k : Handle} {c c' : Cell} {body : Body} {owed : Handle → Nat}

theorem balanced_empty : ({} : Heap).Balanced fun _ => 0 where
  wellFormed := wellFormed_empty
  count_eq := fun _ => rfl

theorem Balanced.congr {owed' : Handle → Nat} (hbal : hp.Balanced owed)
    (howed : ∀ k, owed k = owed' k) : hp.Balanced owed' where
  wellFormed := hbal.wellFormed
  count_eq := fun k => by rw [hbal.count_eq, howed]

theorem shareCount_of_cell? (hc : hp.cell? h = some c) : hp.shareCount h = c.shares := by
  rw [shareCount, hc, Option.elim_some]

theorem shareCount_of_none (hc : hp.cell? h = none) : hp.shareCount h = 0 := by
  rw [shareCount, hc, Option.elim_none]

/-- What has an owner is there. -/
theorem Balanced.exists_cell (hbal : hp.Balanced owed) (hpos : 0 < hp.asChild k + owed k) :
    ∃ c, hp.cell? k = some c := by
  cases hc : hp.cell? k with
  | none =>
    have hcount := hbal.count_eq k
    rw [shareCount_of_none hc] at hcount
    omega
  | some c => exact ⟨c, rfl⟩

/-! ## Occurrences as a child -/

theorem asChild_setCell (hc : hp.cell? h = some c) (c' : Cell) (k : Handle) :
    (hp.setCell h c').asChild k + c.body.children.count k
      = hp.asChild k + c'.body.children.count k :=
  total_setIfInBounds_of_cell? hc (fun s => s.cell.elim 0 fun c => c.body.children.count k)
    { generation := h.generation, cell := some c' }

theorem asChild_vacate (hc : hp.cell? h = some c) (body : Body) (k : Handle) :
    (hp.vacate h body).asChild k + c.body.children.count k = hp.asChild k :=
  total_setIfInBounds_of_cell? hc (fun s => s.cell.elim 0 fun c => c.body.children.count k)
    { generation := h.generation + 1 }

theorem WellFormed.asChild_allocate (hwf : hp.WellFormed) (body : Body) (k : Handle) :
    (hp.allocate body).2.asChild k = hp.asChild k + body.children.count k :=
  hwf.total_allocate body _ (fun c => c.body.children.count k) fun _ => rfl

/-! ## Shares -/

theorem shareCount_setCell (hc : hp.cell? h = some c) (c' : Cell) (k : Handle) :
    (hp.setCell h c').shareCount k = if k = h then c'.shares else hp.shareCount k := by
  rw [shareCount, cell?_setCell hc]
  split <;> rfl

theorem shareCount_vacate (hc : hp.cell? h = some c) (body : Body) (k : Handle) :
    (hp.vacate h body).shareCount k = if k = h then 0 else hp.shareCount k := by
  rw [shareCount, cell?_vacate_eq hc]
  split <;> rfl

theorem WellFormed.shareCount_allocate (hwf : hp.WellFormed) (body : Body) (k : Handle) :
    (hp.allocate body).2.shareCount k
      = if k = (hp.allocate body).1 then 1 else hp.shareCount k := by
  rw [shareCount, hwf.cell?_allocate]
  split <;> rfl

/-! ## Operations -/

/-- A new scalar takes over the shares of its children, and the caller owns it. -/
theorem Balanced.allocate (hbal : hp.Balanced fun k => owed k + body.children.count k) :
    (hp.allocate body).2.Balanced fun k => owed k + [(hp.allocate body).1].count k where
  wellFormed := hbal.wellFormed.allocate body
  count_eq := by
    intro k
    have hcount := hbal.count_eq k
    rw [hbal.wellFormed.shareCount_allocate, hbal.wellFormed.asChild_allocate,
      List.count_singleton]
    by_cases hk : k = (hp.allocate body).1
    · rw [hk, shareCount_of_none (hbal.wellFormed.cell?_allocate_fst body)] at hcount
      subst hk
      simp only [if_true, beq_self_eq_true]
      omega
    · rw [if_neg hk, if_neg (by simpa using Ne.symm hk)]
      omega

/-- What a write to one scalar does to the owners outside: they make up for the shares that come or
go, and for the children that the old and the new body own. -/
theorem Balanced.setCell {owed' : Handle → Nat} (hbal : hp.Balanced owed)
    (hc : hp.cell? h = some c) (hpos : 0 < c'.shares)
    (howed : ∀ k, owed k + (if k = h then c'.shares else 0) + c.body.children.count k
      = owed' k + (if k = h then c.shares else 0) + c'.body.children.count k) :
    (hp.setCell h c').Balanced owed' where
  wellFormed := hbal.wellFormed.setCell hc hpos
  count_eq := by
    intro k
    have hcount := hbal.count_eq k
    have hchild := asChild_setCell hc c' k
    have hk := howed k
    rw [shareCount_setCell hc]
    split at hk
    · rename_i he
      subst he
      rw [shareCount_of_cell? hc] at hcount
      rw [if_pos rfl]
      omega
    · rename_i hne
      rw [if_neg hne]
      omega

/-- One more share has one more owner. -/
theorem Balanced.share (hbal : hp.Balanced owed) (hc : hp.cell? h = some c) :
    (hp.share h).2.Balanced fun k => owed k + [h].count k := by
  rw [share_eq_of_cell? hc]
  refine hbal.setCell hc (Nat.succ_pos _) ?_
  intro k
  rw [List.count_singleton]
  by_cases hk : k = h
  · subst hk
    simp only [if_true, beq_self_eq_true]
    omega
  · simp only [if_neg hk, beq_eq_false_iff_ne.2 (Ne.symm hk), Bool.false_eq_true, if_false]

/-- Replacing a body gives the shares of the old children to the caller and takes those of the new
ones. -/
theorem Balanced.setBody {owed' : Handle → Nat} (hbal : hp.Balanced owed)
    (hc : hp.cell? h = some c)
    (howed : ∀ k, owed k + c.body.children.count k = owed' k + body.children.count k) :
    (hp.setBody h body).2.Balanced owed' := by
  rw [setBody_eq_of_cell? hc]
  refine hbal.setCell hc (hbal.wellFormed.shares_pos h c hc) ?_
  intro k
  have hk := howed k
  dsimp only
  omega

/-- Blessing moves no share. -/
theorem Balanced.bless (hbal : hp.Balanced owed) (h : Handle) (package : String) :
    (hp.bless h package).2.Balanced owed := by
  unfold Heap.bless Heap.update
  split
  · rename_i c hc
    exact hbal.setCell hc (hbal.wellFormed.shares_pos h c hc) fun k => rfl
  · exact hbal

/-! ## Dropping shares -/

/-- A scalar that loses its last share has no other owner, so it goes with the children it owned. -/
theorem Balanced.vacate {rest : List Handle}
    (hbal : hp.Balanced fun k => owed k + (h :: rest).count k) (hc : hp.cell? h = some c)
    (hleft : c.shares - 1 = 0) :
    (hp.vacate h c.body).Balanced fun k =>
      owed k + (c.body.children.reverse ++ rest).count k where
  wellFormed := hbal.wellFormed.vacate hc c.body
  count_eq := by
    intro k
    have hcount := hbal.count_eq k
    have hchild := asChild_vacate hc c.body k
    rw [shareCount_vacate hc, List.count_append, List.count_reverse]
    by_cases hk : k = h
    · subst hk
      rw [shareCount_of_cell? hc, List.count_cons_self] at hcount
      rw [if_pos rfl]
      omega
    · rw [List.count_cons_of_ne (Ne.symm hk)] at hcount
      rw [if_neg hk]
      omega

theorem Balanced.dropOne {rest : List Handle}
    (hbal : hp.Balanced fun k => owed k + (h :: rest).count k) (hc : hp.cell? h = some c)
    (hleft : c.shares - 1 ≠ 0) :
    (hp.setCell h { c with shares := c.shares - 1 }).Balanced fun k => owed k + rest.count k := by
  refine hbal.setCell hc (Nat.pos_of_ne_zero hleft) ?_
  intro k
  by_cases hk : k = h
  · subst hk
    simp only [if_true, List.count_cons_self]
    omega
  · simp only [if_neg hk, List.count_cons_of_ne (Ne.symm hk)]

/-- In a balanced heap the pending drops are carried out to the last one. -/
theorem Balanced.cascade {pending : List Handle}
    (hbal : hp.Balanced fun k => owed k + pending.count k) :
    (cascade pending hp).1 = .ok () ∧ (cascade pending hp).2.Balanced owed := by
  fun_induction Heap.cascade pending hp with
  | case1 => exact ⟨rfl, hbal.congr fun k => by simp⟩
  | case2 _ h rest hc =>
    obtain ⟨c, hc'⟩ := hbal.exists_cell (k := h) (by rw [List.count_cons_self]; omega)
    rw [hc] at hc'
    simp at hc'
  | case3 _ _ _ _ hc hleft ih => exact ih (hbal.vacate hc hleft)
  | case4 _ _ _ _ hc hleft ih => exact ih (hbal.dropOne hc hleft)

/-- A share that an owner outside has can be dropped. -/
theorem Balanced.unshare (hbal : hp.Balanced fun k => owed k + [h].count k) :
    (∃ n, (hp.unshare h).1 = .ok n) ∧ (hp.unshare h).2.Balanced owed := by
  obtain ⟨hok, hbal'⟩ := hbal.cascade
  rw [unshare_eq, hok]
  exact ⟨⟨_, rfl⟩, hbal'⟩

theorem unshareEach_cons_snd (h : Handle) (rest : List Handle) (hp : Heap) :
    (hp.unshareEach (h :: rest)).2 = ((hp.unshare h).2.unshareEach rest).2 := by
  rw [unshareEach]
  rcases hp.unshare h with ⟨_ | _, _⟩ <;> rfl

/-- The first of a list of drops takes a share if its scalar is there, and is a fault if it is
stale. The others can be carried out, or are stale, as before. -/
theorem Balanced.unshare_filter {hs : List Handle} {p : Handle → Bool}
    (hbal : hp.Balanced fun k => owed k + ((h :: hs).filter p).count k)
    (hstale : ∀ k ∈ h :: hs, p k = false → hp.contains k = false) :
    (p h = true ∧ (∃ n, (hp.unshare h).1 = .ok n) ∨
        p h = false ∧ (hp.unshare h).1 = .error h.stale) ∧
      ((hp.unshare h).2.Balanced fun k => owed k + (hs.filter p).count k) ∧
      ∀ k ∈ hs, p k = false → (hp.unshare h).2.contains k = false := by
  have hrest : ∀ k ∈ hs, p k = false → (hp.unshare h).2.contains k = false := by
    intro k hk hpk
    have hgone := hstale k (List.mem_cons_of_mem h hk) hpk
    cases hc : (hp.unshare h).2.contains k with
    | false => rfl
    | true => rw [contains_of_contains_unshare hc] at hgone; exact hgone
  cases hph : p h with
  | true =>
    have hfirst : hp.Balanced fun k => (owed k + (hs.filter p).count k) + [h].count k := by
      refine hbal.congr ?_
      intro k
      rw [List.filter_cons_of_pos hph, List.count_cons, List.count_singleton]
      omega
    exact ⟨.inl ⟨rfl, hfirst.unshare.1⟩, hfirst.unshare.2, hrest⟩
  | false =>
    -- dropping a stale handle is a fault, and changes nothing
    have hnone := contains_eq_false_iff.1 (hstale h List.mem_cons_self hph)
    have hfault : hp.unshare h = (.error h.stale, hp) := by
      rw [unshare_eq, cascade_of_none hnone]
      rfl
    rw [List.filter_cons_of_neg (by simp [hph])] at hbal
    rw [hfault] at hrest ⊢
    exact ⟨.inr ⟨rfl, rfl⟩, hbal, hrest⟩

/-- Stale handles in a list of drops are passed over; the others each lose a share. -/
theorem Balanced.unshareEach_filter {hs : List Handle} {p : Handle → Bool} :
    ∀ {hp : Heap}, (hp.Balanced fun k => owed k + (hs.filter p).count k) →
      (∀ k ∈ hs, p k = false → hp.contains k = false) →
      (hp.unshareEach hs).2.Balanced owed := by
  induction hs with
  | nil => exact fun hbal _ => hbal.congr fun k => by simp
  | cons h rest ih =>
    intro hp hbal hstale
    obtain ⟨-, hnext, hrest⟩ := hbal.unshare_filter hstale
    rw [unshareEach_cons_snd]
    exact ih hnext hrest

/-- The faults of a list of drops are its stale handles, in order. -/
theorem Balanced.unshareEach_faults {hs : List Handle} {p : Handle → Bool} :
    ∀ {hp : Heap}, (hp.Balanced fun k => owed k + (hs.filter p).count k) →
      (∀ k ∈ hs, p k = false → hp.contains k = false) →
      (hp.unshareEach hs).1 = (hs.filter fun k => !p k).map Handle.stale := by
  induction hs with
  | nil => exact fun _ _ => rfl
  | cons h rest ih =>
    intro hp hbal hstale
    obtain ⟨hfirst, hnext, hrest⟩ := hbal.unshare_filter hstale
    rw [unshareEach]
    rcases hunshare : hp.unshare h with ⟨fault | n, hp₁⟩
    · rw [hunshare] at hfirst hnext hrest
      rcases hfirst with ⟨-, n, hok⟩ | ⟨hph, herror⟩
      · cases hok
      · cases herror
        rw [List.filter_cons_of_pos (by simp [hph]), List.map_cons]
        exact congrArg _ (ih hnext hrest)
    · rw [hunshare] at hfirst hnext hrest
      rcases hfirst with ⟨hph, -⟩ | ⟨-, herror⟩
      · rw [List.filter_cons_of_neg (by simp [hph])]
        exact ih hnext hrest
      · cases herror

/-- A list of drops brings nothing back. -/
theorem contains_of_contains_unshareEach {hs : List Handle} :
    ∀ {hp : Heap}, (hp.unshareEach hs).2.contains k = true → hp.contains k = true := by
  induction hs with
  | nil => exact fun hk => hk
  | cons h rest ih =>
    intro hp hk
    rw [unshareEach_cons_snd] at hk
    exact contains_of_contains_unshare (ih hk)

/-- A list of drops by owners outside meets no stale handle. -/
theorem Balanced.unshareEach {hs : List Handle} :
    ∀ {hp : Heap}, (hp.Balanced fun k => owed k + hs.count k) →
      (hp.unshareEach hs).1 = [] ∧ (hp.unshareEach hs).2.Balanced owed := by
  induction hs with
  | nil => exact fun hbal => ⟨rfl, hbal.congr fun k => by simp⟩
  | cons h rest ih =>
    intro hp hbal
    have hfirst : hp.Balanced fun k => (owed k + rest.count k) + [h].count k :=
      hbal.congr fun k => by
        rw [List.count_cons, List.count_singleton]
        omega
    obtain ⟨⟨n, hok⟩, hbal'⟩ := hfirst.unshare
    rw [Heap.unshareEach]
    split
    · rename_i heq
      rw [heq] at hbal'
      exact ih hbal'
    · rename_i heq
      rw [heq] at hok
      simp at hok

/-! ## References, arrays and hashes -/

theorem referTaking_of_contains (hc : hp.contains h = true) :
    hp.referTaking h = (.ok (hp.allocate (.ref h)).1, (hp.allocate (.ref h)).2) := by
  rw [referTaking, if_pos hc]

theorem referTaking_of_stale (hc : hp.contains h = false) :
    hp.referTaking h = (.error h.stale, hp) := by
  rw [referTaking, if_neg (by simp [hc])]

theorem referSharing_of_cell? (hc : hp.cell? h = some c) :
    hp.referSharing h = (.ok ((hp.share h).2.allocate (.ref h)).1,
      ((hp.share h).2.allocate (.ref h)).2) := by
  simp only [referSharing, share_eq_of_cell? hc]

theorem referSharing_of_none (hc : hp.cell? h = none) :
    hp.referSharing h = (.error h.stale, hp) := by
  simp only [referSharing, share_eq_of_none hc]

theorem Balanced.blessTarget (hbal : hp.Balanced owed) (h : Handle) (package : String) :
    (hp.blessTarget h package).2.Balanced owed := by
  unfold Heap.blessTarget
  split
  · exact hbal.bless _ _
  · exact hbal
  · exact hbal

/-- Does a handle name an array? -/
def isArray (hp : Heap) (h : Handle) : Bool :=
  match hp.body h with
  | .ok (.array _) => true
  | _ => false

/-- Does a handle name a hash? -/
def isHash (hp : Heap) (h : Handle) : Bool :=
  match hp.body h with
  | .ok (.hash _) => true
  | _ => false

theorem Balanced.arrayPush {array item : Handle} (harray : hp.isArray array = true)
    (hbal : hp.Balanced fun k => owed k + [item].count k) :
    (hp.arrayPush array item).1 = .ok () ∧ (hp.arrayPush array item).2.Balanced owed := by
  unfold isArray at harray
  unfold Heap.arrayPush
  split at harray
  · rename_i items hbody
    obtain ⟨c, hc, hitems⟩ := body_eq_ok_iff.1 hbody
    simp only [hbody]
    refine ⟨by rw [setBody_eq_of_cell? hc], hbal.setBody hc ?_⟩
    intro k
    simp only [hitems, Body.children, List.count_append]
    omega
  · simp at harray

theorem arrayPush_of_not_isArray {array : Handle} (harray : hp.isArray array = false)
    (item : Handle) : (∃ fault, (hp.arrayPush array item).1 = .error fault) ∧
      (hp.arrayPush array item).2 = hp := by
  unfold isArray at harray
  unfold arrayPush
  split at harray
  · simp at harray
  · split
    · simp_all
    · exact ⟨⟨_, rfl⟩, rfl⟩
    · exact ⟨⟨_, rfl⟩, rfl⟩

/-- Storing under a key puts the new value in and takes the one it displaces out. -/
theorem count_values_insert (key : Bytes) (value : Handle) (entries : List (Bytes × Handle))
    (k : Handle) :
    ((Entries.insert key value entries).map (·.2)).count k
        + (Entries.find? key entries).toList.count k
      = (entries.map (·.2)).count k + [value].count k := by
  induction entries with
  | nil => simp [Entries.insert, Entries.find?]
  | cons e rest ih =>
    obtain ⟨key', old⟩ := e
    by_cases hkey : key' = key
    · subst hkey
      simp only [Entries.insert, Entries.find?, if_true, List.map_cons, List.count_cons,
        List.count_nil, Option.toList_some]
      omega
    · simp only [Entries.insert, Entries.find?, if_neg hkey, List.map_cons, List.count_cons] at ih ⊢
      omega

theorem hashStore_of_new {hash value : Handle} {key : Bytes} {entries : List (Bytes × Handle)}
    (hbody : hp.body hash = .ok (.hash entries)) (hnew : Entries.find? key entries = none) :
    hp.hashStore hash key value
      = (.ok (), (hp.setBody hash (.hash (Entries.insert key value entries))).2) := by
  simp only [hashStore, hbody, hnew]

theorem hashStore_of_old {hash value old : Handle} {key : Bytes}
    {entries : List (Bytes × Handle)} (hbody : hp.body hash = .ok (.hash entries))
    (hold : Entries.find? key entries = some old) :
    hp.hashStore hash key value
      = (((hp.setBody hash (.hash (Entries.insert key value entries))).2.unshare old).1.map
          fun _ => (),
        ((hp.setBody hash (.hash (Entries.insert key value entries))).2.unshare old).2) := by
  simp only [hashStore, hbody, hold]
  split <;> simp_all [Except.map]

theorem Balanced.hashStore {hash value : Handle} (hhash : hp.isHash hash = true) (key : Bytes)
    (hbal : hp.Balanced fun k => owed k + [value].count k) :
    (hp.hashStore hash key value).1 = .ok () ∧
      (hp.hashStore hash key value).2.Balanced owed := by
  unfold isHash at hhash
  split at hhash
  · rename_i entries hbody
    obtain ⟨c, hc, hentries⟩ := body_eq_ok_iff.1 hbody
    -- what the hash displaces is the caller's until it is dropped
    have hset : (hp.setBody hash (.hash (Entries.insert key value entries))).2.Balanced fun k =>
        owed k + (Entries.find? key entries).toList.count k := by
      refine hbal.setBody hc ?_
      intro k
      have hcount := count_values_insert key value entries k
      simp only [hentries, Body.children]
      omega
    cases hold : Entries.find? key entries with
    | none =>
      rw [hashStore_of_new hbody hold]
      rw [hold] at hset
      exact ⟨rfl, hset⟩
    | some old =>
      rw [hashStore_of_old hbody hold]
      rw [hold] at hset
      obtain ⟨⟨n, hok⟩, hbal'⟩ := Balanced.unshare hset
      exact ⟨by rw [hok]; rfl, hbal'⟩
  · simp at hhash

theorem hashStore_of_not_isHash {hash : Handle} (hhash : hp.isHash hash = false) (key : Bytes)
    (value : Handle) : (∃ fault, (hp.hashStore hash key value).1 = .error fault) ∧
      (hp.hashStore hash key value).2 = hp := by
  unfold isHash at hhash
  unfold hashStore
  split at hhash
  · simp at hhash
  · split
    · simp_all
    · exact ⟨⟨_, rfl⟩, rfl⟩
    · exact ⟨⟨_, rfl⟩, rfl⟩

/-- Handing over the freed bodies moves no share. -/
theorem Balanced.takeFreed (hbal : hp.Balanced owed) : hp.takeFreed.2.Balanced owed where
  wellFormed :=
    { free_nodup := hbal.wellFormed.free_nodup
      mem_free := hbal.wellFormed.mem_free
      live_eq := hbal.wellFormed.live_eq
      shares_pos := hbal.wellFormed.shares_pos }
  count_eq := hbal.count_eq

end GuestBridge.Heap
