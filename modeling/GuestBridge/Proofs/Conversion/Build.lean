import GuestBridge.Proofs.Conversion.Growth
import GuestBridge.Proofs.Conversion.Primitives

/-!
# What a conversion builds

A conversion that succeeds has built the tree that its value unfolds to, out of new scalars that are
used once, and has taken a share of each scalar that it found among the leaves. A conversion that
fails has built nothing in the end, and its error is that of the first element that cannot be
converted.

`Built` is what holds after some elements, `Outcome` what holds after a whole value. Both are
relative to the heap in which the work began, so that what was built before stays intact while the
next element is converted. A boundary object may be stale, and then its handle must not come to fit
a new scalar of this very conversion; `Spared` says that no generation comes around so soon.
-/

namespace GuestBridge

/-! ## The number of parked bodies -/

namespace Heap

theorem freed_share (hp : Heap) (h : Handle) : (hp.share h).2.freed = hp.freed := by
  unfold share
  split <;> rfl

theorem freed_setBody (hp : Heap) (h : Handle) (body : Body) :
    (hp.setBody h body).2.freed = hp.freed := by
  unfold setBody update
  split <;> rfl

theorem size_freed_cascade (pending : List Handle) (hp : Heap) :
    hp.freed.size ≤ (cascade pending hp).2.freed.size := by
  fun_induction cascade pending hp with
  | case1 => exact Nat.le_refl _
  | case2 => exact Nat.le_refl _
  | case3 hp h rest c hc hleft ih =>
    refine Nat.le_trans ?_ ih
    rw [show (hp.vacate h c.body).freed = hp.freed.push c.body from rfl, Array.size_push]
    exact Nat.le_succ _
  | case4 hp h rest c hc hleft ih => exact ih

theorem size_freed_unshare (hp : Heap) (h : Handle) :
    hp.freed.size ≤ (hp.unshare h).2.freed.size := by
  rw [unshare_snd]
  exact size_freed_cascade [h] hp

/-- A conversion parks bodies and takes none away. -/
theorem closed_size_freed : Closed fun hp hp₁ => hp.freed.size ≤ hp₁.freed.size where
  refl := fun _ => Nat.le_refl _
  trans := Nat.le_trans
  allocate := fun hp body => Nat.le_of_eq (by rw [hp.freed_allocate])
  share := fun hp h => Nat.le_of_eq (by rw [hp.freed_share])
  setBody := fun hp h body => Nat.le_of_eq (by rw [hp.freed_setBody])
  unshare := size_freed_unshare

/-! ## What some elements have built -/

variable {live : Handle → Bool} {hp hp₁ hp₂ : Heap} {h old : Handle} {t : Tree} {key : Bytes}
variable {hs hs' ns ns' ls ls' : List Handle} {ts ts' : List Tree}
variable {entries : List (Bytes × Handle)} {trees : List (Bytes × Tree)}

/-- A heap that has grown by what it reads as from some handles. The scalars that gained a share are
among the `live` ones. -/
structure Built (live : Handle → Bool) (hp hp₁ : Heap) (hs : List Handle) (ts : List Tree)
    (ns : List Handle) : Prop where
  grown : Grown hp hp₁ ns (Tree.scalarsOfItems ts)
  reads : Reads hp₁ hs ts ns
  live : ∀ k ∈ Tree.scalarsOfItems ts, live k = true

/-- The live scalars are there. -/
def Serves (live : Handle → Bool) (hp : Heap) : Prop :=
  ∀ k, live k = true → ∃ c, hp.cell? k = some c

theorem Serves.grown (hserves : Serves live hp) (hgrown : Grown hp hp₁ ns ls) :
    Serves live hp₁ := by
  intro k hk
  obtain ⟨c, hc⟩ := hserves k hk
  exact ⟨_, hgrown.exists_cell hc⟩

theorem Built.nil (live : Handle → Bool) (hwf : hp.WellFormed) : Built live hp hp [] [] [] where
  grown := .refl hwf
  reads := .nil
  live := by simp [Tree.scalarsOfItems]

/-- What was new after a first stage of growth is left alone by a second one that shares only
scalars from before both. -/
theorem Grown.cell?_of_mem (hfirst : Grown hp hp₁ ns ls) (hnext : Grown hp₁ hp₂ ns' ls')
    (hlive : ∀ k ∈ ls', ∃ c, hp.cell? k = some c) {k : Handle} (hk : k ∈ ns) :
    hp₂.cell? k = hp₁.cell? k := by
  obtain ⟨c, hc⟩ := hfirst.there k hk
  have hls : ls'.count k = 0 := by
    refine List.count_eq_zero.2 ?_
    intro hmem
    obtain ⟨c', hc'⟩ := hlive k hmem
    rw [hfirst.fresh k hk] at hc'
    simp at hc'
  rw [hnext.exists_cell hc, hls, hc, Cell.gain_zero]

/-- What the next elements build comes after what was built, which stays intact. -/
theorem Built.append (hserves : Serves live hp) (hfirst : Built live hp hp₁ hs ts ns)
    (hnext : Built live hp₁ hp₂ hs' ts' ns') :
    Built live hp hp₂ (hs ++ hs') (ts ++ ts') (ns ++ ns') := by
  have hlive : ∀ k ∈ Tree.scalarsOfItems ts', ∃ c, hp.cell? k = some c :=
    fun k hk => hserves k (hnext.live k hk)
  have hsame : ∀ k ∈ ns, hp₂.cell? k = hp₁.cell? k :=
    fun k hk => hfirst.grown.cell?_of_mem hnext.grown hlive hk
  constructor
  · rw [Tree.scalarsOfItems_append]
    exact hfirst.grown.trans hnext.grown hlive
  · exact (hfirst.reads.congr hsame).append hnext.reads
  · intro k hk
    rw [Tree.scalarsOfItems_append] at hk
    rcases List.mem_append.1 hk with hk | hk
    · exact hfirst.live k hk
    · exact hnext.live k hk

/-- A new element goes in under a key. What it displaces is read from nodes of its own, which are
still there, as are the shares it took. -/
theorem Built.insert (hserves : Serves live hp)
    (hfirst : Built live hp hp₁ (entries.map (·.2)) (trees.map (·.2)) ns)
    (hkeys : entries.map (·.1) = trees.map (·.1)) (hnext : Built live hp₁ hp₂ [h] [t] ns')
    (key : Bytes) :
    ∃ inside outside,
      Grown hp hp₂ (inside ++ outside)
        (Tree.scalarsOfItems ((Entries.insert key t trees).map (·.2)) ++
          Tree.scalarsOfItems (Entries.find? key trees).toList) ∧
      Reads hp₂ ((Entries.insert key h entries).map (·.2))
        ((Entries.insert key t trees).map (·.2)) inside ∧
      Reads hp₂ (Entries.find? key entries).toList (Entries.find? key trees).toList outside ∧
      (Entries.insert key h entries).map (·.1) = (Entries.insert key t trees).map (·.1) ∧
      ∀ k ∈ Tree.scalarsOfItems ((Entries.insert key t trees).map (·.2)), live k = true := by
  have hboth := hfirst.append hserves hnext
  have hlive : ∀ k ∈ Tree.scalarsOfItems [t], ∃ c, hp.cell? k = some c :=
    fun k hk => hserves k (hnext.live k hk)
  have hreads : Reads hp₂ (entries.map (·.2)) (trees.map (·.2)) ns :=
    hfirst.reads.congr fun k hk => hfirst.grown.cell?_of_mem hnext.grown hlive hk
  obtain ⟨inside, outside, hin, hout, hkeys', hperm⟩ := hnext.reads.insert entries hkeys hreads
  -- the displaced tree keeps the shares that it took until it is released
  have hcount : ∀ k, (Tree.scalarsOfItems (trees.map (·.2) ++ [t])).count k =
      (Tree.scalarsOfItems ((Entries.insert key t trees).map (·.2)) ++
        Tree.scalarsOfItems (Entries.find? key trees).toList).count k := by
    intro k
    have hk := Tree.count_scalars_insert key t trees k
    simp only [Tree.scalarsOfItems_append, Tree.scalarsOfItems, List.append_nil, List.count_append]
    omega
  refine ⟨inside, outside, hboth.grown.congr hperm hcount, hin, hout, hkeys', ?_⟩
  intro k hk
  refine hboth.live k (List.count_pos_iff.1 ?_)
  rw [hcount, List.count_append]
  have := List.count_pos_iff.2 hk
  omega

/-- Nothing is displaced by a new key. -/
theorem Built.insert_new (hserves : Serves live hp)
    (hfirst : Built live hp hp₁ (entries.map (·.2)) (trees.map (·.2)) ns)
    (hkeys : entries.map (·.1) = trees.map (·.1)) (hnext : Built live hp₁ hp₂ [h] [t] ns')
    (hnew : Entries.find? key entries = none) :
    ∃ inside, Built live hp hp₂ ((Entries.insert key h entries).map (·.2))
        ((Entries.insert key t trees).map (·.2)) inside ∧
      (Entries.insert key h entries).map (·.1) = (Entries.insert key t trees).map (·.1) := by
  obtain ⟨inside, outside, hgrown, hin, hout, hkeys', hlive⟩ :=
    hfirst.insert hserves hkeys hnext key
  rw [hnew, Option.toList_none] at hout
  generalize hold : (Entries.find? key trees).toList = told at hgrown hout
  cases hout
  rw [List.append_nil, show Tree.scalarsOfItems [] = [] from rfl, List.append_nil] at hgrown
  exact ⟨inside, ⟨hgrown, hin, hlive⟩, hkeys'⟩

/-- What is displaced is taken back. -/
theorem Built.insert_old (hwf : hp.WellFormed) (hserves : Serves live hp)
    (hfirst : Built live hp hp₁ (entries.map (·.2)) (trees.map (·.2)) ns)
    (hkeys : entries.map (·.1) = trees.map (·.1)) (hnext : Built live hp₁ hp₂ [h] [t] ns')
    (hold : Entries.find? key entries = some old) :
    ∃ left hp₃ inside, hp₂.unshare old = (.ok left, hp₃) ∧
      Built live hp hp₃ ((Entries.insert key h entries).map (·.2))
        ((Entries.insert key t trees).map (·.2)) inside ∧
      (Entries.insert key h entries).map (·.1) = (Entries.insert key t trees).map (·.1) := by
  obtain ⟨inside, outside, hgrown, hin, hout, hkeys', hlive⟩ :=
    hfirst.insert hserves hkeys hnext key
  rw [hold, Option.toList_some] at hout
  have hloose := hgrown.loose hwf
  obtain ⟨left, hp₃, hrun, hreleased⟩ := hout.frees.unshare hgrown.wellFormed hloose.comm.left
  have hapart : ∀ k ∈ inside, k ∉ outside := fun k hk hk' =>
    (List.nodup_append.1 hgrown.nodup).2.2 k hk k hk' rfl
  have hapart' : ∀ k ∈ inside,
      k ∉ Tree.scalarsOfItems (Entries.find? key trees).toList := fun k hk hk' =>
    hgrown.not_mem (List.mem_append_right _ hk') (List.mem_append_left _ hk)
  exact ⟨left, hp₃, inside, hrun,
    ⟨hgrown.release hreleased, hin.of_released hreleased hapart hapart', hlive⟩, hkeys'⟩

/-- What has been built since the parked bodies were taken, with those bodies put back in front. -/
theorem Built.after_taken (hbuilt : Built live { hp with freed := #[] } hp₁ hs ts ns) :
    Built live hp { hp₁ with freed := hp.freed ++ hp₁.freed } hs ts ns where
  grown := hbuilt.grown.after_taken
  reads := hbuilt.reads.congr fun _ _ => rfl
  live := hbuilt.live

/-- What was built comes off again, whatever is parked by then, and each cell is what it was. -/
theorem Built.undone (hbuilt : Built live hp hp₁ hs ts ns) (hwf : hp.WellFormed) :
    ∃ hp₂, unshareEach { hp₁ with freed := #[] } hs.reverse = ([], hp₂) ∧ hp₂.WellFormed ∧
      (∀ k, hp₂.cell? k = hp.cell? k) ∧ ∀ body ∈ hp₂.freed.toList, body.closure? = none := by
  obtain ⟨hnodup, hapart, hspare⟩ := hbuilt.grown.loose hwf
  obtain ⟨hp₂, hrun, hreleased⟩ := hbuilt.reads.frees.unshareEach
    (hbuilt.grown.wellFormed.setFreed #[]) (fun _ _ => rfl) ⟨hnodup, hapart, hspare⟩
  refine ⟨hp₂, hrun, hreleased.wellFormed, ?_, ?_⟩
  · intro k
    rw [hreleased.cell?_eq]
    split
    · rename_i hk
      exact (hbuilt.grown.fresh k hk).symm
    · rename_i hk
      -- what a scalar has gained is what it loses
      refine (congrArg (Option.map _) (hbuilt.grown.cell?_eq k hk)).trans ?_
      cases hp.cell? k with
      | none => rfl
      | some c => simp [Cell.gain, Cell.lose]
  · obtain ⟨gone, hfreed, hclosure, -⟩ := hreleased.parks
    rw [hfreed]
    exact hclosure

end Heap

/-! ## What a value has built -/

namespace Passage

open Heap (Built Grown Serves)

variable {p : Passage} {live : Handle → Bool} {room n m : Nat} {hp hp₁ hp₂ : Heap} {body : Body}
variable {ns : List Handle} {ts : List Tree}

/-- A boundary object over a scalar of the target that is gone names a slot that must be emptied
more than `n` times before the handle fits again. -/
def Spared (p : Passage) (live : Handle → Bool) (n : Nat) (hp : Heap) : Prop :=
  ∀ id k, p.own? id = some k → live k = false → hp.Retired n k

theorem Spared.mono (hspared : p.Spared live n hp) (hle : m ≤ n) :
    p.Spared live m hp := by
  intro id k hown hk
  obtain ⟨slot, hslot, hlt⟩ := hspared id k hown hk
  exact ⟨slot, hslot, Nat.lt_of_le_of_lt hle hlt⟩

/-- Each body parked brings a stale handle one generation closer at most. -/
theorem Spared.parks (hspared : p.Spared live n hp) (hparks : Heap.Parks hp hp₁)
    (hsize : hp₁.freed.size + m ≤ hp.freed.size + n) : p.Spared live m hp₁ := by
  intro id k hown hk
  obtain ⟨gone, hfreed, -, hretired⟩ := hparks
  have hlen : hp₁.freed.size = hp.freed.size + gone.length := by
    have h := congrArg List.length hfreed
    simpa using h
  exact hretired m k (hspared.mono (by omega) id k hown hk)

/-- How a conversion ends. It has built the tree of the value behind one handle, or it has built
nothing and answers the error of the first element that cannot be converted. -/
inductive Outcome (p : Passage) (live : Handle → Bool) (room : Nat) (v : Value) (hp : Heap) :
    Except CrossingError Handle × Heap → Prop where
  | made {h hp' t ns} : p.unfold room v = some t → p.firstError live room v = none →
      Built live hp hp' [h] [t] ns → Outcome p live room v hp (.ok h, hp')
  | failed {e hp'} : p.firstError live room v = some e → Grown hp hp' [] [] →
      Outcome p live room v hp (.error e, hp')

/-- The conversions of values with so many levels of nesting left end so. -/
def Faithful (p : Passage) (live : Handle → Bool) (room : Nat) : Prop :=
  ∀ {v hp result hp'}, p.convert room v hp = (result, hp') → hp.WellFormed → Serves live hp →
    p.Spared live (hp'.freed.size - hp.freed.size) hp →
    p.Outcome live room v hp (result, hp')

theorem shareBoundary_outcome (hwf : hp.WellFormed) (hserves : Serves live hp)
    (hspared : p.Spared live n hp) (id : ObjectId) :
    p.Outcome live (room + 1) (.boundary id) hp (p.shareBoundary id hp) := by
  have herror : p.firstError live (room + 1) (.boundary id) = p.boundaryError live id := rfl
  have hunfold : p.unfold (room + 1) (.boundary id) = (p.own? id).map .scalar := rfl
  unfold shareBoundary
  unfold boundaryError at herror
  unfold own? at hunfold
  cases hid : p.store.boundary? id with
  | none =>
    rw [hid] at herror
    exact .failed herror (.refl hwf)
  | some boundary =>
    obtain ⟨owner, handle⟩ := boundary
    rw [hid] at herror hunfold
    dsimp only at herror hunfold ⊢
    by_cases howner : owner = p.target
    · rw [if_pos howner] at herror hunfold ⊢
      cases hlive : live handle with
      | true =>
        obtain ⟨c, hc⟩ := hserves handle hlive
        have hgrown := Grown.share hwf hc
        rw [Heap.share_eq_of_cell? hc] at hgrown ⊢
        rw [hlive] at herror
        refine .made hunfold herror ⟨hgrown, .scalar .nil, ?_⟩
        intro k hk
        rw [Tree.scalarsOfItems, Tree.scalars, Tree.scalarsOfItems, List.append_nil,
          List.mem_singleton] at hk
        rw [hk, hlive]
      | false =>
        have hown : p.own? id = some handle := by
          rw [own?, hid]
          exact if_pos howner
        -- a retired handle fits no slot, whatever has been built so far
        have hretired := hspared id handle hown hlive
        rw [Heap.share_eq_of_none hretired.cell?_eq_none]
        rw [hlive] at herror
        exact .failed herror (.refl hwf)
    · rw [if_neg howner] at herror ⊢
      exact .failed herror (.refl hwf)

/-- A scalar without children. -/
theorem allocate_outcome {v : Value} {t : Tree} (hwf : hp.WellFormed)
    (hunfold : p.unfold room v = some t) (herror : p.firstError live room v = none)
    (hscalars : t.scalars = [])
    (hreads : ∀ {hp' h}, Heap.cell? hp' h = some { shares := 1, body } →
      Heap.Reads hp' [h] [t] [h]) :
    p.Outcome live room v hp (.ok (hp.allocate body).1, (hp.allocate body).2) := by
  have hnone : Tree.scalarsOfItems [t] = [] := by simp [Tree.scalarsOfItems, hscalars]
  refine .made hunfold herror ⟨?_, hreads ?_, ?_⟩
  · rw [hnone]
    exact .allocate hwf body
  · rw [hwf.cell?_allocate, if_pos rfl]
  · simp [hnone]

/-- Up to the first value that fails, one tree after the other is built. -/
theorem convertItems_built (hf : p.Faithful live room) (vs : List Value) :
    ∀ {hp hp' : Heap} {items ended}, convertItems (p.convert room) vs hp = (items, ended, hp') →
      hp.WellFormed → Serves live hp → p.Spared live (hp'.freed.size - hp.freed.size) hp →
      ∃ ts ns, Built live hp hp' items ts ns ∧
        (ended = .ok () →
          vs.mapM (p.unfold room) = some ts ∧ vs.findSome? (p.firstError live room) = none) ∧
        ∀ e, ended = .error e → vs.findSome? (p.firstError live room) = some e := by
  induction vs with
  | nil =>
    rintro hp hp' items ended ⟨⟩ hwf - -
    refine ⟨[], [], .nil live hwf, fun _ => ⟨rfl, rfl⟩, ?_⟩
    intro e he
    cases he
  | cons v rest ih =>
    intro hp hp' items ended hrun hwf hserves hspared
    rcases hv : p.convert room v hp with ⟨e | h, hp₁⟩
    · rw [convertItems_of_error hv] at hrun
      cases hrun
      cases hf hv hwf hserves hspared with
      | failed herror hgrown =>
        refine ⟨[], [], ⟨hgrown, .nil, by simp [Tree.scalarsOfItems]⟩, ?_, ?_⟩
        · intro hok
          cases hok
        · rintro e' ⟨⟩
          rw [List.findSome?_cons, herror]
    · rcases hrest : convertItems (p.convert room) rest hp₁ with ⟨items', ended', hp₂⟩
      rw [convertItems_of_ok hv, hrest] at hrun
      cases hrun
      have hsize := Heap.closed_size_freed.convert p room v hp
      have hsize' := Heap.closed_size_freed.convertItems
        (Heap.closed_size_freed.convert p room) rest hp₁
      rw [hv] at hsize
      rw [hrest] at hsize'
      dsimp only at hsize hsize'
      -- what this value frees and what the others free is spared together
      cases hf hv hwf hserves (hspared.mono (by omega)) with
      | @made _ _ t ns hunfold herror hbuilt =>
        obtain ⟨ts, ns', hbuilt', hok, hfail⟩ := ih hrest hbuilt.grown.wellFormed
          (hserves.grown hbuilt.grown) (hspared.parks hbuilt.grown.parks (by omega))
        refine ⟨t :: ts, ns ++ ns', hbuilt.append hserves hbuilt', ?_, ?_⟩
        · intro hdone
          obtain ⟨hunfold', herror'⟩ := hok hdone
          rw [List.mapM_cons, hunfold, hunfold', List.findSome?_cons, herror]
          exact ⟨rfl, herror'⟩
        · intro e he
          rw [List.findSome?_cons, herror]
          exact hfail e he

/-- An element that has been built is stored, and what it displaces is gone again. -/
theorem convertEntries_stored {hp₀ : Heap} (hwf₀ : hp₀.WellFormed) (hserves : Serves live hp₀)
    {entries : List (Bytes × Handle)} {trees : List (Bytes × Tree)} {v : Value} {h : Handle}
    {t : Tree} {ns' : List Handle}
    (hbuilt : Built live hp₀ hp (entries.map (·.2)) (trees.map (·.2)) ns)
    (hkeys : entries.map (·.1) = trees.map (·.1)) (hv : p.convert room v hp = (.ok h, hp₁))
    (hnext : Built live hp hp₁ [h] [t] ns') (key : String) (rest : List (String × Value)) :
    ∃ hp₂ inside,
      p.convertEntries (p.convert room) ((key, v) :: rest) entries hp
        = p.convertEntries (p.convert room) rest (Entries.insert (p.bytesOf key) h entries) hp₂ ∧
      Built live hp₀ hp₂ ((Entries.insert (p.bytesOf key) h entries).map (·.2))
        ((Entries.insert (p.bytesOf key) t trees).map (·.2)) inside ∧
      (Entries.insert (p.bytesOf key) h entries).map (·.1)
        = (Entries.insert (p.bytesOf key) t trees).map (·.1) := by
  cases hfind : Entries.find? (p.bytesOf key) entries with
  | none =>
    obtain ⟨inside, hbuilt', hkeys'⟩ := hbuilt.insert_new hserves hkeys hnext hfind
    exact ⟨hp₁, inside, convertEntries_of_new hv hfind rest, hbuilt', hkeys'⟩
  | some old =>
    obtain ⟨left, hp₂, inside, hdrop, hbuilt', hkeys'⟩ :=
      hbuilt.insert_old hwf₀ hserves hkeys hnext hfind
    exact ⟨hp₂, inside, convertEntries_of_old hv hfind hdrop rest, hbuilt', hkeys'⟩

/-- The same of an entry list. The trees so far are stored under the images of their keys, as the
scalars are. -/
theorem convertEntries_built (hf : p.Faithful live room) {hp₀ : Heap} (hwf₀ : hp₀.WellFormed)
    (hserves : Serves live hp₀) (pairs : List (String × Value)) :
    ∀ {hp hp' : Heap} {entries entries' ended} {trees : List (Bytes × Tree)} {ns : List Handle},
      p.convertEntries (p.convert room) pairs entries hp = (entries', ended, hp') →
      Built live hp₀ hp (entries.map (·.2)) (trees.map (·.2)) ns →
      entries.map (·.1) = trees.map (·.1) →
      p.Spared live (hp'.freed.size - hp₀.freed.size) hp₀ →
      ∃ (trees' : List (Bytes × Tree)) (ns' : List Handle),
        Built live hp₀ hp' (entries'.map (·.2)) (trees'.map (·.2)) ns' ∧
        entries'.map (·.1) = trees'.map (·.1) ∧
        (ended = .ok () →
          (∃ made, (pairs.mapM fun e => (p.unfold room e.2).map ((p.bytesOf e.1, ·))) = some made ∧
            trees' = made.foldl (fun trees e => Entries.insert e.1 e.2 trees) trees) ∧
          (pairs.findSome? fun e => p.firstError live room e.2) = none) ∧
        ∀ e, ended = .error e → (pairs.findSome? fun e => p.firstError live room e.2) = some e := by
  induction pairs with
  | nil =>
    rintro hp hp' entries entries' ended trees ns ⟨⟩ hbuilt hkeys -
    refine ⟨trees, ns, hbuilt, hkeys, fun _ => ⟨⟨[], rfl, rfl⟩, rfl⟩, ?_⟩
    intro e he
    cases he
  | cons pair rest ih =>
    intro hp hp' entries entries' ended trees ns hrun hbuilt hkeys hspared
    obtain ⟨key, v⟩ := pair
    have hwf := hbuilt.grown.wellFormed
    have hserves₁ := hserves.grown hbuilt.grown
    have hentries := Heap.closed_size_freed.convertEntries (p := p)
      (Heap.closed_size_freed.convert p room)
    have hsize₀ := hbuilt.grown.parks.size_le
    have hsize := hentries ((key, v) :: rest) entries hp
    rw [hrun] at hsize
    dsimp only at hsize
    have hspared₁ : p.Spared live (hp'.freed.size - hp.freed.size) hp :=
      hspared.parks hbuilt.grown.parks (by omega)
    rcases hv : p.convert room v hp with ⟨e | h, hp₁⟩
    · rw [convertEntries_of_error hv] at hrun
      cases hrun
      cases hf hv hwf hserves₁ hspared₁ with
      | failed herror hgrown =>
        -- nothing was built, so the entries so far are all there is
        have hsame := hbuilt.append hserves ⟨hgrown, .nil, by simp [Tree.scalarsOfItems]⟩
        simp only [List.append_nil] at hsame
        refine ⟨trees, ns, hsame, hkeys, ?_, ?_⟩
        · intro hok
          cases hok
        · rintro e' ⟨⟩
          rw [List.findSome?_cons, herror]
    · have hsize₁ := Heap.closed_size_freed.stored (hentries rest) hv key entries
      rw [hrun] at hsize₁
      dsimp only at hsize₁
      cases hf hv hwf hserves₁ (hspared₁.mono (by omega)) with
      | @made _ _ t ns₁ hunfold herror hnext =>
        obtain ⟨hp₂, inside, hstep, hbuilt', hkeys'⟩ :=
          convertEntries_stored hwf₀ hserves hbuilt hkeys hv hnext key rest
        rw [hstep] at hrun
        obtain ⟨trees', ns', hbuilt'', hkeys'', hok, hfail⟩ := ih hrun hbuilt' hkeys' hspared
        refine ⟨trees', ns', hbuilt'', hkeys'', ?_, ?_⟩
        · intro hdone
          obtain ⟨⟨made, hmade, rfl⟩, herror'⟩ := hok hdone
          rw [List.mapM_cons, hunfold, hmade, List.findSome?_cons, herror]
          exact ⟨⟨_, rfl, rfl⟩, herror'⟩
        · intro e he
          rw [List.findSome?_cons, herror]
          exact hfail e he

/-- The container of what was built, once it is filled. -/
theorem Built.fill {empty : Body} (hwf : hp.WellFormed) (hserves : Serves live hp)
    (hbuilt : Built live (hp.allocate empty).2 hp₁ body.children ts ns) :
    Grown hp (hp₁.setBody (hp.allocate empty).1 body).2 ((hp.allocate empty).1 :: ns)
        (Tree.scalarsOfItems ts) ∧
      (hp₁.setBody (hp.allocate empty).1 body).2.cell? (hp.allocate empty).1
        = some { shares := 1, body } ∧
      Heap.Reads (hp₁.setBody (hp.allocate empty).1 body).2 body.children ts ns := by
  have hnew := Grown.allocate hwf empty
  have hlive : ∀ k ∈ Tree.scalarsOfItems ts, ∃ c, hp.cell? k = some c :=
    fun k hk => hserves k (hbuilt.live k hk)
  have hgrown := hnew.trans hbuilt.grown hlive
  have hc : hp₁.cell? (hp.allocate empty).1 = some { shares := 1, body := empty } := by
    rw [hnew.cell?_of_mem hbuilt.grown hlive List.mem_cons_self, hwf.cell?_allocate, if_pos rfl]
  have hfresh : (hp.allocate empty).1 ∉ ns := (List.nodup_cons.1 hgrown.nodup).1
  refine ⟨hgrown.setBody List.mem_cons_self hc body, ?_, hbuilt.reads.congr ?_⟩
  · rw [Heap.setBody_eq_of_cell? hc, Heap.cell?_setCell hc, if_pos rfl]
  · intro k hk
    have hne : k ≠ (hp.allocate empty).1 := fun he => hfresh (he ▸ hk)
    rw [Heap.setBody_eq_of_cell? hc, Heap.cell?_setCell hc, if_neg hne]

/-- A container whose elements are all there is handed out behind a reference. -/
theorem complete_made {empty : Body} (hwf : hp.WellFormed) (hserves : Serves live hp)
    (hbuilt : Built live (hp.allocate empty).2 hp₁ body.children ts ns) :
    ∃ h hp₂, complete (hp.allocate empty).1 body (.ok ()) hp₁ = (.ok h, hp₂) ∧
      Grown hp hp₂ (h :: (hp.allocate empty).1 :: ns) (Tree.scalarsOfItems ts) ∧
      hp₂.cell? h = some { shares := 1, body := .ref (hp.allocate empty).1 } ∧
      hp₂.cell? (hp.allocate empty).1 = some { shares := 1, body } ∧
      Heap.Reads hp₂ body.children ts ns := by
  obtain ⟨hgrown, hc, hreads⟩ := Built.fill hwf hserves hbuilt
  unfold complete
  generalize (hp.allocate empty).1 = a at *
  generalize (hp₁.setBody a body).2 = hp₂ at *
  have hrefer := Grown.allocate hgrown.wellFormed (.ref a)
  have hboth := hgrown.trans hrefer (by simp)
  rw [List.append_nil] at hboth
  have hsame : ∀ k ∈ a :: ns, (hp₂.allocate (.ref a)).2.cell? k = hp₂.cell? k :=
    fun k hk => hgrown.cell?_of_mem hrefer (by simp) hk
  dsimp only
  rw [Heap.referTaking_of_contains (Heap.contains_iff.2 ⟨_, hc⟩)]
  refine ⟨_, _, rfl, hboth.congr List.perm_append_comm fun k => rfl, ?_, ?_, ?_⟩
  · rw [hgrown.wellFormed.cell?_allocate, if_pos rfl]
  · rw [hsame a List.mem_cons_self, hc]
  · exact hreads.congr fun k hk => hsame k (List.mem_cons_of_mem a hk)

/-- A container whose elements are not all there goes, and all that was built for it. -/
theorem complete_failed {empty : Body} (hwf : hp.WellFormed) (hserves : Serves live hp)
    (hclosure : body.closure? = none)
    (hbuilt : Built live (hp.allocate empty).2 hp₁ body.children ts ns) (e : CrossingError) :
    ∃ hp₂, complete (hp.allocate empty).1 body (.error e) hp₁ = (.error e, hp₂) ∧
      Grown hp hp₂ [] [] := by
  obtain ⟨hgrown, hc, hreads⟩ := Built.fill hwf hserves hbuilt
  have hfrees := hreads.frees.node hc hclosure
  obtain ⟨left, hp₂, hdrop, hreleased⟩ := hfrees.unshare hgrown.wellFormed (hgrown.loose hwf)
  have hnone : Grown hp hp₂ [] [] := Heap.Grown.release hgrown hreleased
  refine ⟨hp₂, ?_, hnone⟩
  unfold complete
  dsimp only
  rw [hdrop]

/-- An array or a hash, once its elements are converted as far as they can be. -/
theorem container_outcome {empty : Body} {v : Value} {ended : Except CrossingError Unit}
    (hwf : hp.WellFormed) (hserves : Serves live hp) (hclosure : body.closure? = none)
    (hbuilt : Built live (hp.allocate empty).2 hp₁ body.children ts ns)
    (hok : ended = .ok () → p.firstError live room v = none ∧
      ∃ t, p.unfold room v = some t ∧ t.scalars = Tree.scalarsOfItems ts ∧
        ∀ {hp' h a}, Heap.cell? hp' h = some { shares := 1, body := .ref a } →
          hp'.cell? a = some { shares := 1, body } → Heap.Reads hp' body.children ts ns →
          Heap.Reads hp' [h] [t] (h :: a :: ns))
    (hfail : ∀ e, ended = .error e → p.firstError live room v = some e) :
    p.Outcome live room v hp (complete (hp.allocate empty).1 body ended hp₁) := by
  cases ended with
  | ok =>
    obtain ⟨herror, t, hunfold, hscalars, hread⟩ := hok rfl
    obtain ⟨h, hp₂, hdone, hgrown, hc, hbody, hreads⟩ := complete_made hwf hserves hbuilt
    have hsame : Tree.scalarsOfItems [t] = Tree.scalarsOfItems ts := by
      simp [Tree.scalarsOfItems, hscalars]
    rw [hdone]
    refine .made hunfold herror ⟨?_, hread hc hbody hreads, ?_⟩
    · rw [hsame]
      exact hgrown
    · rw [hsame]
      exact hbuilt.live
  | error e =>
    obtain ⟨hp₂, hdone, hgrown⟩ := complete_failed hwf hserves hclosure hbuilt e
    rw [hdone]
    exact .failed (hfail e rfl) hgrown

theorem convert_array_outcome (hf : p.Faithful live room) {id : ObjectId} {hp' : Heap}
    {result : Except CrossingError Handle}
    (hrun : p.convert (room + 1) (.array id) hp = (result, hp'))
    (hwf : hp.WellFormed) (hserves : Serves live hp)
    (hspared : p.Spared live (hp'.freed.size - hp.freed.size) hp) :
    p.Outcome live (room + 1) (.array id) hp (result, hp') := by
  have hnew := Grown.allocate hwf (.array [])
  rcases hitems : convertItems (p.convert room) (p.store.items id) (hp.allocate (.array [])).2
    with ⟨items, ended, hp₁⟩
  have hend : complete (hp.allocate (.array [])).1 (.array items) ended hp₁ = (result, hp') := by
    rw [← hrun, convert]
    simp only [hitems]
  have hsize := Heap.closed_size_freed.complete (hp.allocate (.array [])).1 (.array items) ended hp₁
  rw [hend] at hsize
  dsimp only at hsize
  obtain ⟨ts, ns, hbuilt, hok, hfail⟩ := convertItems_built hf (p.store.items id) hitems
    hnew.wellFormed (hserves.grown hnew)
    (hspared.parks hnew.parks (by rw [hp.freed_allocate]; omega))
  rw [← hend]
  refine container_outcome hwf hserves rfl hbuilt ?_ hfail
  intro hdone
  obtain ⟨hunfold, herror⟩ := hok hdone
  refine ⟨herror, .array ts, ?_, rfl, ?_⟩
  · rw [unfold, hunfold]
    rfl
  · intro hp₂ h a hc ha hreads
    have hread := Heap.Reads.array hc ha hreads .nil
    rwa [List.append_nil] at hread

theorem convert_hash_outcome (hf : p.Faithful live room) {id : ObjectId} {hp' : Heap}
    {result : Except CrossingError Handle}
    (hrun : p.convert (room + 1) (.hash id) hp = (result, hp'))
    (hwf : hp.WellFormed) (hserves : Serves live hp)
    (hspared : p.Spared live (hp'.freed.size - hp.freed.size) hp) :
    p.Outcome live (room + 1) (.hash id) hp (result, hp') := by
  have hnew := Grown.allocate hwf (.hash [])
  rcases hentries : p.convertEntries (p.convert room) (p.store.entries id) []
    (hp.allocate (.hash [])).2 with ⟨entries, ended, hp₁⟩
  have hend : complete (hp.allocate (.hash [])).1 (.hash entries) ended hp₁ = (result, hp') := by
    rw [← hrun, convert]
    simp only [hentries]
  have hsize := Heap.closed_size_freed.complete (hp.allocate (.hash [])).1 (.hash entries) ended hp₁
  rw [hend] at hsize
  dsimp only at hsize
  have hnil : Built live (hp.allocate (.hash [])).2 (hp.allocate (.hash [])).2
      (([] : List (Bytes × Handle)).map (·.2)) (([] : List (Bytes × Tree)).map (·.2)) [] :=
    .nil live hnew.wellFormed
  obtain ⟨trees, ns, hbuilt, hkeys, hok, hfail⟩ := convertEntries_built hf hnew.wellFormed
    (hserves.grown hnew) (p.store.entries id) hentries hnil rfl
    (hspared.parks hnew.parks (by rw [hp.freed_allocate]; omega))
  have hfilled : Built live (hp.allocate (.hash [])).2 hp₁ (Body.hash entries).children
      (trees.map (·.2)) ns := hbuilt
  rw [← hend]
  refine container_outcome hwf hserves rfl hfilled ?_ hfail
  intro hdone
  obtain ⟨⟨made, hmade, rfl⟩, herror⟩ := hok hdone
  refine ⟨herror, .hash (Entries.ofList made), ?_, Tree.scalarsOfEntries_eq _, ?_⟩
  · rw [unfold, hmade]
    rfl
  · intro hp₂ h a hc ha hreads
    have hread := Heap.Reads.hash hc ha hkeys hreads .nil
    rwa [List.append_nil] at hread

/-- A conversion builds its value or nothing. -/
theorem convert_faithful (p : Passage) (live : Handle → Bool) (room : Nat) :
    p.Faithful live room := by
  induction room with
  | zero =>
    rintro v hp result hp' ⟨⟩ hwf - -
    exact .failed rfl (.refl hwf)
  | succ room ih =>
    intro v hp result hp' hrun hwf hserves hspared
    cases v with
    | boundary id =>
      have hrun' : p.shareBoundary id hp = (result, hp') := hrun
      rw [← hrun']
      exact shareBoundary_outcome hwf hserves hspared id
    | integer n =>
      cases hrun
      exact allocate_outcome hwf rfl rfl rfl fun hc => .int hc .nil
    | float x =>
      cases hrun
      exact allocate_outcome hwf rfl rfl rfl fun hc => .num hc .nil
    | text s =>
      cases hrun
      exact allocate_outcome hwf rfl rfl rfl fun hc => .str hc .nil
    | array id => exact convert_array_outcome ih hrun hwf hserves hspared
    | hash id => exact convert_hash_outcome ih hrun hwf hserves hspared
    | undef =>
      cases hrun
      exact .failed rfl (.refl hwf)
    | object id =>
      cases hrun
      exact .failed rfl (.refl hwf)

end Passage

end GuestBridge
