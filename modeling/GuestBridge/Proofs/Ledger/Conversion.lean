import GuestBridge.Crossing.Conversion
import GuestBridge.Proofs.Ledger.Heap

/-!
# The share ledger of a conversion

A conversion adds the share that it hands out to the ledger of the heap, and a conversion that fails
adds none: whatever was made for the elements is owned by the container, or by the caller in
between, and the container is released with it.

While the elements are converted, their container is owned and empty. What is owned keeps its body,
so the container is still empty when it is filled, and the ledger of that one write is exact.
-/

namespace GuestBridge

/-- The share that an outcome hands out. -/
def handed : Except ε Handle → List Handle
  | .ok h => [h]
  | .error _ => []

namespace Heap

/-- What is owed keeps its body from one heap to another. -/
def Kept (owed : Handle → Nat) (hp hp' : Heap) : Prop :=
  ∀ k c, 0 < owed k → hp.cell? k = some c → ∃ c', hp'.cell? k = some c' ∧ c'.body = c.body

/-- From one heap to another, `get` is handed out besides what is owed, and what is owed keeps its
body. -/
structure Yields (owed : Handle → Nat) (hp hp' : Heap) (get : List Handle) : Prop where
  balanced : hp'.Balanced fun k => owed k + get.count k
  kept : Kept owed hp hp'

variable {hp hp₁ hp₂ : Heap} {h : Handle} {c : Cell} {body : Body} {owed owed₁ : Handle → Nat}
variable {get get₁ : List Handle}

theorem Kept.refl (owed : Handle → Nat) (hp : Heap) : Kept owed hp hp :=
  fun _ c _ hc => ⟨c, hc, rfl⟩

theorem Kept.trans (hfirst : Kept owed hp hp₁) (hnext : Kept owed hp₁ hp₂) :
    Kept owed hp hp₂ := by
  intro k c hpos hc
  obtain ⟨c₁, hc₁, hbody₁⟩ := hfirst k c hpos hc
  obtain ⟨c₂, hc₂, hbody₂⟩ := hnext k c₁ hpos hc₁
  exact ⟨c₂, hc₂, hbody₂.trans hbody₁⟩

/-- What is owed by fewer is kept as well. -/
theorem Kept.mono (hkept : Kept owed₁ hp hp₁) (hle : ∀ k, owed k ≤ owed₁ k) : Kept owed hp hp₁ :=
  fun k c hpos hc => hkept k c (Nat.lt_of_lt_of_le hpos (hle k)) hc

theorem Yields.nothing (hbal : hp.Balanced owed) : Yields owed hp hp [] where
  balanced := hbal.congr fun k => by simp
  kept := .refl owed hp

/-- A further step hands out what the two steps together do. -/
theorem Yields.trans (hfirst : Yields owed hp hp₁ get)
    (hnext : Yields (fun k => owed k + get.count k) hp₁ hp₂ get₁) :
    Yields owed hp hp₂ (get ++ get₁) where
  balanced := hnext.balanced.congr fun k => by rw [List.count_append, Nat.add_assoc]
  kept := hfirst.kept.trans (hnext.kept.mono fun k => Nat.le_add_right _ _)

/-- What is owed is there at the end, so it keeps its body if the survivors do. -/
theorem Yields.of_survivors (hbal : hp₁.Balanced fun k => owed k + get.count k)
    (hsame : ∀ k c c', hp.cell? k = some c → hp₁.cell? k = some c' → c'.body = c.body) :
    Yields owed hp hp₁ get where
  balanced := hbal
  kept := by
    intro k c hpos hc
    obtain ⟨c', hc'⟩ := hbal.exists_cell (k := k) (by omega)
    exact ⟨c', hc', hsame k c c' hc hc'⟩

theorem Yields.share (hbal : hp.Balanced owed) (hc : hp.cell? h = some c) :
    Yields owed hp (hp.share h).2 [h] := by
  refine .of_survivors (hbal.share hc) ?_
  intro k d d' hd hd'
  rw [share_eq_of_cell? hc, cell?_setCell hc] at hd'
  split at hd'
  · rename_i hk
    rw [hk, hc, Option.some.injEq] at hd
    rw [← Option.some.inj hd', ← hd]
  · rw [hd, Option.some.injEq] at hd'
    rw [hd']

theorem Yields.allocate (hbal : hp.Balanced fun k => owed k + body.children.count k) :
    Yields owed hp (hp.allocate body).2 [(hp.allocate body).1] := by
  refine .of_survivors hbal.allocate ?_
  intro k d d' hd hd'
  rw [hbal.wellFormed.cell?_allocate] at hd'
  split at hd'
  · rename_i hk
    rw [hk, hbal.wellFormed.cell?_allocate_fst] at hd
    simp at hd
  · rw [hd, Option.some.injEq] at hd'
    rw [hd']

theorem Yields.unshare (hbal : hp.Balanced fun k => owed k + [h].count k) :
    Yields owed hp (hp.unshare h).2 [] := by
  refine .of_survivors (hbal.unshare.2.congr fun k => by simp) ?_
  intro k d d' hd hd'
  rw [unshare_snd] at hd'
  obtain ⟨d'', hd'', hbody, -⟩ := exists_cell?_of_cascade hd'
  rw [hd, Option.some.injEq] at hd''
  rw [← hbody, hd'']

end Heap

namespace Passage

/-- A conversion that hands out the share of what it answers. -/
def KeepsLedger (f : Value → Heap → Except CrossingError Handle × Heap) : Prop :=
  ∀ v hp owed, Heap.Balanced hp owed → Heap.Yields owed hp (f v hp).2 (handed (f v hp).1)

variable {p : Passage} {hp : Heap} {owed : Handle → Nat}
variable {f : Value → Heap → Except CrossingError Handle × Heap}

theorem shareBoundary_yields (hbal : hp.Balanced owed) (id : ObjectId) :
    Heap.Yields owed hp (p.shareBoundary id hp).2 (handed (p.shareBoundary id hp).1) := by
  unfold shareBoundary
  split
  · exact .nothing hbal
  · rename_i owner handle _
    split
    · cases hc : hp.cell? handle with
      | none =>
        rw [Heap.share_eq_of_none hc]
        exact .nothing hbal
      | some c =>
        have hshare := Heap.Yields.share hbal hc
        rw [Heap.share_eq_of_cell? hc] at hshare ⊢
        exact hshare
    · exact .nothing hbal

/-- The scalars made for a list of values are the caller's, also when a later value fails. -/
theorem convertItems_yields (hf : KeepsLedger f) (vs : List Value) :
    ∀ {hp owed}, Heap.Balanced hp owed →
      Heap.Yields owed hp (convertItems f vs hp).2.2 (convertItems f vs hp).1 := by
  induction vs with
  | nil => exact fun hbal => .nothing hbal
  | cons v rest ih =>
    intro hp owed hbal
    have hv := hf v hp owed hbal
    unfold convertItems
    split
    · rename_i heq
      rw [heq] at hv
      exact hv
    · rename_i heq
      rw [heq] at hv
      exact hv.trans (ih hv.balanced)

/-- The same of an entry list: what it displaces has lost its share. -/
theorem convertEntries_yields (hf : KeepsLedger f) (pairs : List (String × Value)) :
    ∀ {hp : Heap} (entries : List (Bytes × Handle)),
      (hp.Balanced fun k => owed k + (entries.map (·.2)).count k) →
      ((p.convertEntries f pairs entries hp).2.2.Balanced fun k =>
        owed k + ((p.convertEntries f pairs entries hp).1.map (·.2)).count k) ∧
      Heap.Kept owed hp (p.convertEntries f pairs entries hp).2.2 := by
  induction pairs with
  | nil => exact fun entries hbal => ⟨hbal, .refl owed _⟩
  | cons pair rest ih =>
    intro hp entries hbal
    obtain ⟨key, v⟩ := pair
    have hv := hf v hp _ hbal
    have hkept : Heap.Kept owed hp (f v hp).2 := hv.kept.mono fun k => Nat.le_add_right _ _
    unfold convertEntries
    split
    · rename_i heq
      rw [heq] at hv hkept
      exact ⟨hv.balanced.congr fun k => by simp [handed], hkept⟩
    · rename_i h hp₁ heq
      rw [heq] at hv hkept
      have hcount := Heap.count_values_insert (p.bytesOf key) h entries
      -- after the insertion the caller owns what it displaced
      have hins : hp₁.Balanced fun k =>
          (owed k + ((Entries.insert (p.bytesOf key) h entries).map (·.2)).count k)
            + (Entries.find? (p.bytesOf key) entries).toList.count k :=
        hv.balanced.congr fun k => by
          have hk := hcount k
          simp only [handed]
          omega
      dsimp only
      split
      · rename_i hnew
        rw [hnew] at hins
        obtain ⟨hbal₂, hkept₂⟩ := ih _ hins
        exact ⟨hbal₂, hkept.trans hkept₂⟩
      · rename_i old hold
        rw [hold] at hins
        have hdrop := Heap.Yields.unshare hins
        obtain ⟨⟨n, hok⟩, -⟩ := hins.unshare
        split
        · rename_i heq₂
          rw [heq₂] at hdrop
          obtain ⟨hbal₃, hkept₃⟩ := ih _ hdrop.balanced
          exact ⟨hbal₃, (hkept.trans
            (hdrop.kept.mono fun k => Nat.le_add_right _ _)).trans hkept₃⟩
        · rename_i heq₂
          rw [heq₂] at hok
          simp at hok

/-- A container that is filled takes over the shares of its elements; then the reference takes over
the share of the container, or the container is released. -/
theorem complete_yields {container : Handle} {c : Cell} {body : Body}
    (hbal : hp.Balanced fun k => (owed k + [container].count k) + body.children.count k)
    (hc : hp.cell? container = some c) (hempty : c.body.children = [])
    (hnot : owed container = 0) (ended : Except CrossingError Unit) :
    Heap.Yields owed hp (complete container body ended hp).2
      (handed (complete container body ended hp).1) := by
  have hset : (hp.setBody container body).2.Balanced fun k => owed k + [container].count k :=
    hbal.setBody hc fun k => by
      rw [hempty, List.count_nil]
      omega
  have hkept : Heap.Kept owed hp (hp.setBody container body).2 := by
    intro k d hpos hd
    have hk : k ≠ container := fun hk => absurd (hk ▸ hpos) (by omega)
    rw [Heap.setBody_eq_of_cell? hc, Heap.cell?_setCell hc, if_neg hk]
    exact ⟨d, hd, rfl⟩
  unfold complete
  cases ended with
  | ok =>
    obtain ⟨c', hc'⟩ := hset.exists_cell (k := container)
      (by rw [List.count_singleton_self]; omega)
    have hrefer := @Heap.Yields.allocate _ (.ref container) owed hset
    dsimp only
    rw [Heap.referTaking_of_contains (Heap.contains_iff.2 ⟨c', hc'⟩)]
    exact ⟨hrefer.balanced, hkept.trans hrefer.kept⟩
  | error e =>
    obtain ⟨⟨n, hok⟩, -⟩ := hset.unshare
    have hdrop := Heap.Yields.unshare hset
    dsimp only
    split
    · rename_i heq
      rw [heq] at hdrop
      exact ⟨hdrop.balanced, hkept.trans hdrop.kept⟩
    · rename_i heq
      rw [heq] at hok
      simp at hok

/-- An array or a hash: the container is empty and owned while its elements are converted. -/
theorem container_yields {body : Body} {hp₁ : Heap} (hbal : hp.Balanced owed) (empty : Body)
    (hempty : empty.children = [])
    (hfill : (hp.allocate empty).2.Balanced
        (fun k => owed k + [(hp.allocate empty).1].count k) →
      (hp₁.Balanced fun k =>
        (owed k + [(hp.allocate empty).1].count k) + body.children.count k) ∧
      Heap.Kept (fun k => owed k + [(hp.allocate empty).1].count k) (hp.allocate empty).2 hp₁)
    (ended : Except CrossingError Unit) :
    Heap.Yields owed hp (complete (hp.allocate empty).1 body ended hp₁).2
      (handed (complete (hp.allocate empty).1 body ended hp₁).1) := by
  have hnew : Heap.Yields owed hp (hp.allocate empty).2 [(hp.allocate empty).1] :=
    .allocate (hbal.congr fun k => by simp [hempty])
  obtain ⟨hbal₁, hkept₁⟩ := hfill hnew.balanced
  -- nobody owned the handle before it was made
  have hnot : owed (hp.allocate empty).1 = 0 := by
    have hcount := hbal.count_eq (hp.allocate empty).1
    rw [Heap.shareCount_of_none (hbal.wellFormed.cell?_allocate_fst empty)] at hcount
    omega
  obtain ⟨c, hc, hbody⟩ := hkept₁ (hp.allocate empty).1 { shares := 1, body := empty }
    (by simp only [List.count_singleton_self]; omega)
    (by rw [hbal.wellFormed.cell?_allocate, if_pos rfl])
  have hdone := complete_yields hbal₁ hc (by rw [hbody, hempty]) hnot ended
  exact ⟨hdone.balanced, (hnew.kept.trans
    (hkept₁.mono fun k => Nat.le_add_right _ _)).trans hdone.kept⟩

/-- A conversion adds the share that it hands out to the ledger, and nothing if it fails. -/
theorem convert_keepsLedger (p : Passage) (room : Nat) : KeepsLedger (p.convert room) := by
  induction room with
  | zero => exact fun v hp owed hbal => .nothing hbal
  | succ room ih =>
    intro v hp owed hbal
    have hplain : ∀ body : Body, body.children = [] →
        Heap.Yields owed hp (hp.allocate body).2 [(hp.allocate body).1] :=
      fun body hbody => .allocate (hbal.congr fun k => by simp [hbody])
    cases v with
    | boundary id => exact shareBoundary_yields hbal id
    | integer n => exact hplain (.int n) rfl
    | float x => exact hplain (.num x) rfl
    | text s => exact hplain (.str (p.bytesOf s)) rfl
    | array id =>
      refine container_yields hbal (.array []) rfl ?_ _
      intro hbal₁
      have hitems := convertItems_yields ih (p.store.items id) hbal₁
      exact ⟨hitems.balanced, hitems.kept⟩
    | hash id =>
      refine container_yields hbal (.hash []) rfl ?_ _
      intro hbal₁
      exact convertEntries_yields ih (p.store.entries id) [] (hbal₁.congr fun k => by simp)
    | undef => exact .nothing hbal
    | object id => exact .nothing hbal

end Passage

end GuestBridge
