import GuestBridge.Proofs.Heap.Changes

/-!
# Runs of a heap

A request is one of the operations that a heap offers, and a run of a heap is any number of them in
a row, starting from the empty heap. Nothing is assumed about their arguments: a handle may be
stale or made up, and a body may name stale handles, one scalar many times, or the scalar that it is
the body of.

* `run_invariant` — the invariant of the heap holds after every run, and no change on the way writes
  outside of the slots, over a scalar, or below zero
* `handle_lifetime` — a handle fits from its allocation until its slot is emptied; then it is
  refused until the slot has been emptied `2 ^ 32` times, and no allocation answers it before that
-/

namespace GuestBridge.Heap

/-! ## Requests -/

/-- An operation of a heap. -/
inductive Request where
  | allocate (body : Body)
  | contains (h : Handle)
  | body (h : Handle)
  | setBody (h : Handle) (body : Body)
  | shares (h : Handle)
  | share (h : Handle)
  | unshare (h : Handle)
  | bless (h : Handle) (package : String)
  | blessed (h : Handle)
  | takeFreed
  | live

namespace Request

/-- The type of what a request is answered with. -/
def Reply : Request → Type
  | allocate _ => Handle
  | contains _ => Bool
  | body _ => Except Fault Body
  | setBody .. | bless .. => Except Fault Unit
  | shares _ | share _ | unshare _ => Except Fault Nat
  | blessed _ => Except Fault (Option String)
  | takeFreed => List Body
  | live => Nat

/-- What a request does. -/
def perform : (r : Request) → Heap → r.Reply × Heap
  | allocate new, hp => hp.allocate new
  | contains h, hp => (hp.contains h, hp)
  | body h, hp => (hp.body h, hp)
  | setBody h new, hp => hp.setBody h new
  | shares h, hp => (hp.shares h, hp)
  | share h, hp => hp.share h
  | unshare h, hp => hp.unshare h
  | bless h package, hp => hp.bless h package
  | blessed h, hp => (hp.blessed h, hp)
  | takeFreed, hp => hp.takeFreed
  | live, hp => (hp.live, hp)

/-- The changes by which a request does it. One that is refused makes none. -/
def changes : Request → Heap → List Change
  | allocate new, _ => [.fill new]
  | setBody h new, hp => (hp.cell? h).elim [] fun c => [.write h { c with body := new }]
  | share h, hp => (hp.cell? h).elim [] fun c => [.write h { c with shares := c.shares + 1 }]
  | unshare h, hp => hp.drops [h]
  | bless h package, hp =>
    (hp.cell? h).elim [] fun c => [.write h { c with blessed := some package }]
  | takeFreed, _ => [.collect]
  | contains _, _ | body _, _ | shares _, _ | blessed _, _ | live, _ => []

end Request

/-- The heap after requests, first to last. -/
def run : List Request → Heap → Heap
  | [], hp => hp
  | r :: rest, hp => run rest (r.perform hp).2

/-- The changes made by requests, first to last. -/
def changesAlong : List Request → Heap → List Change
  | [], _ => []
  | r :: rest, hp => r.changes hp ++ changesAlong rest (r.perform hp).2

variable {hp : Heap} {h : Handle} {c : Cell} {body : Body} {r : Request} {n : Nat}

theorem run_append (rs more : List Request) (hp : Heap) :
    run (rs ++ more) hp = run more (run rs hp) := by
  induction rs generalizing hp with
  | nil => rfl
  | cons r rest ih => exact ih _

theorem changesAlong_append (rs more : List Request) (hp : Heap) :
    changesAlong (rs ++ more) hp = changesAlong rs hp ++ changesAlong more (run rs hp) := by
  induction rs generalizing hp with
  | nil => rfl
  | cons r rest ih =>
    rw [List.cons_append, changesAlong, ih, changesAlong, List.append_assoc]
    rfl

/-! ## One request -/

theorem bless_eq_of_cell? (hc : hp.cell? h = some c) (package : String) :
    hp.bless h package = (.ok (), hp.setCell h { c with blessed := some package }) := by
  simp only [bless, update, hc]

theorem update_snd (hp : Heap) (h : Handle) (f : Cell → Cell) :
    (hp.update h f).2 = replay ((hp.cell? h).elim [] fun c => [.write h (f c)]) hp := by
  unfold update
  cases hp.cell? h <;> rfl

/-- The heap after a request is what its changes come to. -/
theorem Request.perform_snd (r : Request) (hp : Heap) :
    (r.perform hp).2 = replay (r.changes hp) hp := by
  cases r with
  | unshare h =>
    rw [changes, replay_drops]
    exact unshare_snd hp h
  | share h =>
    rw [changes]
    show (hp.share h).2 = _
    unfold Heap.share
    cases hp.cell? h <;> rfl
  | setBody h new => exact update_snd hp h _
  | bless h package => exact update_snd hp h _
  | allocate | contains | body | shares | blessed | takeFreed | live => rfl

/-- All of them are sound. -/
theorem WellFormed.sounds_changes (hwf : hp.WellFormed) (r : Request) :
    Sounds (r.changes hp) hp := by
  have hwrite : ∀ (h : Handle) (f : Cell → Cell), (∀ c, c.shares ≤ (f c).shares) →
      Sounds ((hp.cell? h).elim [] fun c => [.write h (f c)]) hp := by
    intro h f hf
    cases hc : hp.cell? h with
    | none => trivial
    | some c => exact ⟨sound_write hc (hf c), trivial⟩
  cases r with
  | allocate body => exact ⟨hwf.sound_fill body, trivial⟩
  | setBody h body => exact hwrite h _ fun _ => Nat.le_refl _
  | share h => exact hwrite h _ fun _ => Nat.le_succ _
  | bless h package => exact hwrite h _ fun _ => Nat.le_refl _
  | unshare h => exact hwf.sounds_drops [h]
  | takeFreed => exact ⟨trivial, trivial⟩
  | contains | body | shares | blessed | live => trivial

/-- A request keeps the invariant, whether it is refused or not. -/
theorem WellFormed.perform (hwf : hp.WellFormed) (r : Request) : (r.perform hp).2.WellFormed := by
  rw [r.perform_snd]
  exact hwf.replay (hwf.sounds_changes r)

/-! ## Runs -/

theorem run_eq_replay (rs : List Request) (hp : Heap) :
    run rs hp = replay (changesAlong rs hp) hp := by
  induction rs generalizing hp with
  | nil => rfl
  | cons r rest ih => rw [run, changesAlong, replay_append, ← r.perform_snd, ih]

theorem WellFormed.sounds_changesAlong (hwf : hp.WellFormed) (rs : List Request) :
    Sounds (changesAlong rs hp) hp := by
  induction rs generalizing hp with
  | nil => trivial
  | cons r rest ih =>
    rw [changesAlong, sounds_append, ← r.perform_snd]
    exact ⟨hwf.sounds_changes r, ih (hwf.perform r)⟩

theorem WellFormed.run (hwf : hp.WellFormed) (rs : List Request) : (run rs hp).WellFormed := by
  rw [run_eq_replay]
  exact hwf.replay (hwf.sounds_changesAlong rs)

/-- Whatever run follows, a handle gets older by as many times as its slot has been emptied. -/
theorem Aged.run (haged : hp.Aged h n) (hwf : hp.WellFormed) (rs : List Request) :
    (run rs hp).Aged h (n + timesEmptied h.index (changesAlong rs hp)) := by
  rw [run_eq_replay]
  exact haged.replay hwf (hwf.sounds_changesAlong rs)

/-- After any run from the empty heap the free list names the empty slots, each once; the scalars
are counted; and each of them has a share. The run has consisted of changes that were sound where
they were made. So the next allocation answers a handle that no scalar has, puts the new scalar
there, and leaves all others as they are. -/
theorem run_invariant (rs : List Request) :
    (run rs {}).WellFormed ∧
      run rs {} = replay (changesAlong rs {}) {} ∧ Sounds (changesAlong rs {}) {} ∧
      ∀ body, (Change.fill body).Sound (run rs {}) ∧
        ((run rs {}).allocate body).2.cell? ((run rs {}).allocate body).1
          = some { shares := 1, body } ∧
        ∀ k c, (run rs {}).cell? k = some c →
          k ≠ ((run rs {}).allocate body).1 ∧ ((run rs {}).allocate body).2.cell? k = some c := by
  have hwf := wellFormed_empty.run rs
  refine ⟨hwf, run_eq_replay rs {}, wellFormed_empty.sounds_changesAlong rs, ?_⟩
  intro body
  refine ⟨hwf.sound_fill body, by rw [hwf.cell?_allocate, if_pos rfl], ?_⟩
  intro k c hc
  have hne : k ≠ ((run rs {}).allocate body).1 := by
    rintro rfl
    rw [hwf.cell?_allocate_fst] at hc
    cases hc
  exact ⟨hne, by rw [hwf.cell?_allocate, if_neg hne, hc]⟩

/-! ## Handles that fit and handles that do not -/

/-- Every operation works on the scalar of a handle. The one that drops its last share empties the
slot; if it reports a fault then, it is that of a child whose share could not be dropped in turn. -/
structure Accepts (hp : Heap) (h : Handle) (c : Cell) : Prop where
  contains : hp.contains h = true
  body : hp.body h = .ok c.body
  setBody : ∀ body, hp.setBody h body = (.ok (), hp.setCell h { c with body })
  shares : hp.shares h = .ok c.shares
  share : hp.share h = (.ok (c.shares + 1), hp.setCell h { c with shares := c.shares + 1 })
  unshare_of_left : 1 < c.shares →
    hp.unshare h = (.ok (c.shares - 1), hp.setCell h { c with shares := c.shares - 1 })
  unshare_of_last : c.shares = 1 →
    hp.unshare h = ((cascade c.body.children.reverse (hp.vacate h c.body)).1.map fun _ => 0,
      (cascade c.body.children.reverse (hp.vacate h c.body)).2)
  bless : ∀ package, hp.bless h package = (.ok (), hp.setCell h { c with blessed := some package })
  blessed : hp.blessed h = .ok c.blessed

/-- Every operation refuses a handle, with a fault that names the handle, and changes nothing. -/
structure Rejects (hp : Heap) (h : Handle) : Prop where
  contains : hp.contains h = false
  body : hp.body h = .error h.stale
  setBody : ∀ body, hp.setBody h body = (.error h.stale, hp)
  shares : hp.shares h = .error h.stale
  share : hp.share h = (.error h.stale, hp)
  unshare : hp.unshare h = (.error h.stale, hp)
  bless : ∀ package, hp.bless h package = (.error h.stale, hp)
  blessed : hp.blessed h = .error h.stale

theorem accepts_of_cell? (hc : hp.cell? h = some c) : hp.Accepts h c where
  contains := contains_iff.2 ⟨c, hc⟩
  body := body_eq_ok_iff.2 ⟨c, hc, rfl⟩
  setBody := setBody_eq_of_cell? hc
  shares := by simp [shares, cell, hc, Functor.map, Except.map]
  share := share_eq_of_cell? hc
  unshare_of_left := by
    intro hlt
    have hleft : c.shares - 1 ≠ 0 := by omega
    rw [unshare_eq, cascade_of_left hc hleft, cascade_nil, hc]
    rfl
  unshare_of_last := by
    intro hlast
    have hleft : c.shares - 1 = 0 := by omega
    rw [unshare_eq, cascade_of_last hc hleft, List.append_nil, hc, Option.elim_some, hleft]
  bless := bless_eq_of_cell? hc
  blessed := by simp [blessed, cell, hc, Functor.map, Except.map]

-- the child whose share could not be dropped may be the scalar itself, which is gone by then
example : ((run [.allocate (.array []), .setBody ⟨0, 0⟩ (.array [⟨0, 0⟩])] {}).unshare ⟨0, 0⟩).1
    = .error (.staleHandle 0 0) := by cbv

theorem rejects_of_none (hc : hp.cell? h = none) : hp.Rejects h where
  contains := contains_eq_false_iff.2 hc
  body := by simp [Heap.body, cell, hc, Functor.map, Except.map]
  setBody := fun body => by simp only [setBody, update, hc]
  shares := by simp [shares, cell, hc, Functor.map, Except.map]
  share := share_eq_of_none hc
  unshare := by
    rw [unshare_eq, cascade_of_none hc]
    rfl
  bless := fun package => by simp only [bless, update, hc]
  blessed := by simp [blessed, cell, hc, Functor.map, Except.map]

/-! ## Emptying a slot many times -/

/-- A scalar without children goes by itself. -/
theorem unshare_leaf (hc : hp.cell? h = some c) (hlast : c.shares = 1)
    (hleaf : c.body.children = []) :
    (hp.unshare h).2 = hp.vacate h c.body ∧ hp.drops [h] = [.empty h] := by
  have hleft : c.shares - 1 = 0 := by omega
  constructor
  · rw [unshare_snd, cascade_of_last hc hleft, hleaf]
    exact congrArg Prod.snd (cascade_nil _)
  · rw [drops]
    split
    · simp_all
    · rename_i d hd
      rw [hc, Option.some.injEq] at hd
      rw [← hd, if_pos hleft, hleaf, List.reverse_nil, List.nil_append, drops]

theorem index_allocate {i : Nat} {free : List Nat} (hfree : hp.free = i :: free) (body : Body) :
    (hp.allocate body).1.index = i := by
  rw [Heap.allocate]
  split
  · rename_i j _ heq
    exact (List.cons.inj (heq.symm.trans hfree)).1
  · rename_i heq
    exact absurd (heq.symm.trans hfree) (List.cons_ne_nil _ _).symm

/-- Requests that empty the slot of a handle, and then `n` more times with a new scalar in it. -/
def recycle (h : Handle) : Nat → List Request
  | 0 => [.setBody h .undef, .unshare h]
  | n + 1 => recycle h n ++
      [.allocate .undef, .unshare ⟨h.index, h.generation + UInt32.ofNat (n + 1)⟩]

/-- After that the slot is the next one to be used. -/
theorem WellFormed.run_recycle (hwf : hp.WellFormed) (hc : hp.cell? h = some c)
    (hlast : c.shares = 1) (n : Nat) :
    (∃ free, (Heap.run (recycle h n) hp).free = h.index :: free) ∧
      timesEmptied h.index (changesAlong (recycle h n) hp) = n + 1 := by
  induction n with
  | zero =>
    have hset := setBody_eq_of_cell? hc .undef
    have hc₁ : (hp.setCell h { c with body := .undef }).cell? h
        = some { c with body := .undef } := by
      rw [cell?_setCell hc, if_pos rfl]
    obtain ⟨hgone, hdrops⟩ := unshare_leaf hc₁ hlast rfl
    constructor
    · refine ⟨hp.free, ?_⟩
      simp only [recycle, Heap.run, Request.perform, hset, hgone]
      rfl
    · simp only [recycle, changesAlong, Request.changes, Request.perform, hset, hc, hdrops]
      simp [timesEmptied, Change.empties]
  | succ n ih =>
    obtain ⟨⟨free, hfree⟩, htimes⟩ := ih
    have haged := (aged_of_cell? hc).run hwf (recycle h n)
    rw [htimes, Nat.zero_add] at haged
    have hwf₁ := hwf.run (recycle h n)
    -- the new scalar takes the slot with the generation that it has come to
    have hnew : ((Heap.run (recycle h n) hp).allocate .undef).1
        = ⟨h.index, h.generation + UInt32.ofNat (n + 1)⟩ := by
      have hi := index_allocate hfree .undef
      have hgen := haged.generation_allocate hwf₁ hi
      rw [← hi, ← hgen]
    have hc₁ := hwf₁.cell?_allocate .undef ⟨h.index, h.generation + UInt32.ofNat (n + 1)⟩
    rw [if_pos hnew.symm] at hc₁
    obtain ⟨hgone, hdrops⟩ := unshare_leaf hc₁ rfl rfl
    constructor
    · rw [recycle, run_append]
      simp only [Heap.run, Request.perform, hgone]
      exact ⟨_, rfl⟩
    · rw [recycle, changesAlong_append, timesEmptied_append, htimes]
      simp only [changesAlong, Request.changes, Request.perform, hdrops]
      simp [timesEmptied, Change.empties]

/-- So a handle can come back: `2 ^ 32` times can be had. -/
theorem WellFormed.exists_allocate_eq (hwf : hp.WellFormed) (hc : hp.cell? h = some c)
    (hlast : c.shares = 1) :
    ∃ rs, timesEmptied h.index (changesAlong rs hp) = 2 ^ 32 ∧
      ∀ new, ((Heap.run rs hp).allocate new).1 = h := by
  obtain ⟨⟨free, hfree⟩, htimes⟩ := hwf.run_recycle hc hlast (2 ^ 32 - 1)
  rw [show 2 ^ 32 - 1 + 1 = 2 ^ 32 from rfl] at htimes
  have haged := (aged_of_cell? hc).run hwf (recycle h (2 ^ 32 - 1))
  rw [htimes, Nat.zero_add] at haged
  exact ⟨_, htimes, fun new => haged.allocate_eq (hwf.run _) (index_allocate hfree new)⟩

/-! ## The lifetime of a handle -/

/-- A handle from its allocation on, whatever was requested before and is requested after it. Let
the slot have been emptied `n` times since.

* As long as it has not, every operation accepts the handle.
* Between the first and the last of `2 ^ 32` times every operation refuses it, however often the
  slot has been used again, and up to then no allocation answers it.
* After exactly `2 ^ 32` times an allocation in this slot answers it again, and this happens. -/
theorem handle_lifetime (before after : List Request) (body : Body) :
    let (h, hp₀) := (run before {}).allocate body
    let hp := run after hp₀
    let n := timesEmptied h.index (changesAlong after hp₀)
    (n = 0 → ∃ c, hp.Accepts h c) ∧
      (0 < n → n < 2 ^ 32 → hp.Rejects h) ∧
      (n < 2 ^ 32 → ∀ new, (hp.allocate new).1 ≠ h) ∧
      (n = 2 ^ 32 → ∀ new, (hp.allocate new).1.index = h.index → (hp.allocate new).1 = h) ∧
      ∃ rs, timesEmptied h.index (changesAlong rs hp₀) = 2 ^ 32 ∧
        ∀ new, ((run rs hp₀).allocate new).1 = h := by
  have hwf := wellFormed_empty.run before
  rcases hissued : (run before {}).allocate body with ⟨h, hp₀⟩
  have hissue : (run before {}).allocate body = (h, hp₀) := hissued
  have hwf₀ : hp₀.WellFormed := by
    have hnext := hwf.allocate body
    rwa [hissue] at hnext
  have hc : hp₀.cell? h = some { shares := 1, body } := by
    have hnew := hwf.cell?_allocate body h
    rwa [hissue, if_pos rfl] at hnew
  have haged := (aged_of_cell? hc).run hwf₀ after
  rw [Nat.zero_add] at haged
  have hwf₁ := hwf₀.run after
  dsimp only
  refine ⟨?_, ?_, ?_, ?_, hwf₀.exists_allocate_eq hc rfl⟩
  · intro hn
    obtain ⟨c, hc₁⟩ := haged.cell hn
    exact ⟨c, accepts_of_cell? hc₁⟩
  · intro hpos hlt
    exact rejects_of_none (haged.cell?_eq_none hpos hlt)
  · intro hlt new
    exact haged.allocate_ne hwf₁ hlt new
  · intro hn new hi
    rw [hn] at haged
    exact haged.allocate_eq hwf₁ hi

end GuestBridge.Heap
