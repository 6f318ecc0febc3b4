import GuestBridge.Proofs.Calls.GivenUp
import GuestBridge.Proofs.Conversion.Unfolding

/-!
# What a value shows, before and after

A value unfolds to what the objects show that it leads to, so two stores that agree on these unfold
it to the same tree (`Passage.unfold_congr`). A write to one object changes the trees of the values
that lead to it and no others (`Passage.unfold_setItems`, `Passage.unfold_setEntries`).

On the side of the guest, `Heap.Shows` says that guest code which follows the references from a
scalar finds a tree. It goes by the bodies and not by the shares, so it stays true while shares come
and go, as long as the scalar is there (`Heap.Shows.kept`).
-/

namespace GuestBridge

open Value (namesOf)

/-! ## Leading from object to object -/

namespace Store

variable {st : Store} {id x y : ObjectId} {o : HostObject}

/-- An object leads to itself, and to whatever the parts of an object that it leads to name. -/
inductive Leads (st : Store) (id : ObjectId) : ObjectId → Prop where
  | here : Leads st id id
  | part {x y : ObjectId} {o : HostObject} : Leads st id x → st.get? x = some o →
      y ∈ namesOf o.parts → Leads st id y

/-- What the parts of an object name leads on to what the object leads to. -/
theorem Leads.of_part (hy : st.Leads y x) (ho : st.get? id = some o) (hpart : y ∈ namesOf o.parts) :
    st.Leads id x := by
  induction hy with
  | here => exact .part .here ho hpart
  | part _ ho' hx ih => exact .part ih ho' hx

/-- A value leads to an object. -/
def LeadsFrom (st : Store) (v : Value) (id : ObjectId) : Prop := ∃ x ∈ namesOf [v], st.Leads x id

theorem exists_of_mem_items {v : Value} (hv : v ∈ st.items id) :
    ∃ o, st.get? id = some o ∧ v ∈ o.parts := by
  unfold items at hv
  split at hv
  · rename_i vs hvs
    exact ⟨_, hvs, hv⟩
  · cases hv

theorem exists_of_mem_entries {e : String × Value} (he : e ∈ st.entries id) :
    ∃ o, st.get? id = some o ∧ e.2 ∈ o.parts := by
  unfold entries at he
  split at he
  · rename_i es hes
    exact ⟨_, hes, List.mem_map_of_mem he⟩
  · cases he

end Store

theorem Value.namesOf_subset {vs : List Value} {v : Value} (hv : v ∈ vs) {id : ObjectId}
    (hid : id ∈ namesOf [v]) : id ∈ namesOf vs := by
  obtain ⟨a, ha, hshared⟩ := List.mem_filterMap.1 hid
  rw [List.mem_singleton] at ha
  exact List.mem_filterMap.2 ⟨v, hv, ha ▸ hshared⟩

/-! ## Unfolding in two stores -/

theorem findSome?_congr {α β : Type} {f g : α → Option β} {l : List α}
    (hfg : ∀ a ∈ l, f a = g a) : l.findSome? f = l.findSome? g := by
  induction l with
  | nil => rfl
  | cons a rest ih =>
    rw [List.findSome?_cons, List.findSome?_cons, hfg a List.mem_cons_self,
      ih fun a' ha' => hfg a' (List.mem_cons_of_mem a ha')]

namespace Passage

variable {p p' : Passage} {inside : ObjectId → Prop}

/-- Two stores that agree on some objects, from which no part leads to others, unfold what names
these objects alike. -/
theorem unfold_congr (hconfig : p'.config = p.config) (htarget : p'.target = p.target)
    (hsame : ∀ id, inside id → p'.store.get? id = p.store.get? id)
    (hparts : ∀ id o, inside id → p.store.get? id = some o → ∀ x ∈ namesOf o.parts, inside x)
    (room : Nat) {v : Value} (hv : ∀ id ∈ namesOf [v], inside id) :
    p'.unfold room v = p.unfold room v := by
  induction room generalizing v with
  | zero => rfl
  | succ room ih =>
    cases v with
    | undef | integer | float | object => rfl
    | text s => simp only [unfold, bytesOf, hconfig]
    | boundary id =>
      have hid := hsame id (hv id List.mem_cons_self)
      simp only [unfold, own?, Store.boundary?, hid, htarget]
    | array id =>
      have hin := hv id List.mem_cons_self
      have hitems : p'.store.items id = p.store.items id := by
        rw [Store.items, hsame id hin, Store.items]
      rw [unfold, unfold, hitems]
      refine congrArg _ (mapM_congr fun a ha => ih fun x hx => ?_)
      obtain ⟨o, ho, hmem⟩ := Store.exists_of_mem_items ha
      exact hparts id o hin ho x (Value.namesOf_subset hmem hx)
    | hash id =>
      have hin := hv id List.mem_cons_self
      have hentries : p'.store.entries id = p.store.entries id := by
        rw [Store.entries, hsame id hin, Store.entries]
      rw [unfold, unfold, hentries]
      refine congrArg _ (mapM_congr fun e he => ?_)
      obtain ⟨o, ho, hmem⟩ := Store.exists_of_mem_entries he
      rw [bytesOf, hconfig, ih fun x hx => hparts id o hin ho x (Value.namesOf_subset hmem hx)]
      rfl

/-- They find the same element that cannot be converted. -/
theorem firstError_congr (hconfig : p'.config = p.config) (htarget : p'.target = p.target)
    (hsame : ∀ id, inside id → p'.store.get? id = p.store.get? id)
    (hparts : ∀ id o, inside id → p.store.get? id = some o → ∀ x ∈ namesOf o.parts, inside x)
    (live : Handle → Bool) (room : Nat) {v : Value} (hv : ∀ id ∈ namesOf [v], inside id) :
    p'.firstError live room v = p.firstError live room v := by
  induction room generalizing v with
  | zero => rw [firstError, firstError, hconfig]
  | succ room ih =>
    cases v with
    | undef | integer | float | text => rfl
    | object id =>
      have hid := hsame id (hv id List.mem_cons_self)
      simp only [firstError, Store.typeName, Store.className, hid]
    | boundary id =>
      have hid := hsame id (hv id List.mem_cons_self)
      simp only [firstError, boundaryError, Store.boundary?, hid, htarget]
    | array id =>
      have hin := hv id List.mem_cons_self
      have hitems : p'.store.items id = p.store.items id := by
        rw [Store.items, hsame id hin, Store.items]
      rw [firstError, firstError, hitems]
      refine findSome?_congr fun a ha => ih fun x hx => ?_
      obtain ⟨o, ho, hmem⟩ := Store.exists_of_mem_items ha
      exact hparts id o hin ho x (Value.namesOf_subset hmem hx)
    | hash id =>
      have hin := hv id List.mem_cons_self
      have hentries : p'.store.entries id = p.store.entries id := by
        rw [Store.entries, hsame id hin, Store.entries]
      rw [firstError, firstError, hentries]
      refine findSome?_congr fun e he => ih fun x hx => ?_
      obtain ⟨o, ho, hmem⟩ := Store.exists_of_mem_entries he
      exact hparts id o hin ho x (Value.namesOf_subset hmem hx)

/-- A change to one object is not seen by a value that does not lead to it. -/
theorem unfold_of_not_leads (hconfig : p'.config = p.config) (htarget : p'.target = p.target)
    {changed : List ObjectId}
    (hsame : ∀ id, id ∉ changed → p'.store.get? id = p.store.get? id) (room : Nat) {v : Value}
    (hv : ∀ id ∈ changed, ¬ p.store.LeadsFrom v id) : p'.unfold room v = p.unfold room v := by
  refine @unfold_congr p p' (fun x => ∀ id ∈ changed, ¬ p.store.Leads x id) hconfig htarget
    (fun x hx => hsame x fun hmem => hx x hmem .here) (fun x o hx ho y hy id hid hleads => ?_)
    room v fun x hx id hid hleads => hv id hid ⟨x, hx, hleads⟩
  exact hx id hid (hleads.of_part ho hy)

end Passage

/-! ## Following references -/

namespace Heap

variable {hp hp₁ : Heap} {hs hs' ns : List Handle} {ts ts' : List Tree}

/-- From each handle of a list guest code finds a tree. A leaf that is a scalar is not looked into.
-/
inductive Shows (hp : Heap) : List Handle → List Tree → Prop where
  | nil : Shows hp [] []
  | scalar {h hs ts} : Shows hp hs ts → Shows hp (h :: hs) (.scalar h :: ts)
  | int {h n hs ts} : hp.body h = .ok (.int n) → Shows hp hs ts →
      Shows hp (h :: hs) (.int n :: ts)
  | num {h x hs ts} : hp.body h = .ok (.num x) → Shows hp hs ts →
      Shows hp (h :: hs) (.num x :: ts)
  | str {h bytes hs ts} : hp.body h = .ok (.str bytes) → Shows hp hs ts →
      Shows hp (h :: hs) (.str bytes :: ts)
  | array {h a items trees hs ts} : hp.body h = .ok (.ref a) → hp.body a = .ok (.array items) →
      Shows hp items trees → Shows hp hs ts → Shows hp (h :: hs) (.array trees :: ts)
  | hash {h a entries trees hs ts} : hp.body h = .ok (.ref a) → hp.body a = .ok (.hash entries) →
      entries.map (·.1) = trees.map (·.1) → Shows hp (entries.map (·.2)) (trees.map (·.2)) →
      Shows hp hs ts → Shows hp (h :: hs) (.hash trees :: ts)

/-- What is read is shown. -/
theorem Reads.shows (hreads : Reads hp hs ts ns) : Shows hp hs ts := by
  have hbody : ∀ {k c}, hp.cell? k = some c → hp.body k = .ok c.body := fun hc =>
    body_eq_ok_iff.2 ⟨_, hc, rfl⟩
  induction hreads with
  | nil => exact .nil
  | scalar _ ih => exact .scalar ih
  | int hc _ ih => exact .int (hbody hc) ih
  | num hc _ ih => exact .num (hbody hc) ih
  | str hc _ ih => exact .str (hbody hc) ih
  | array hc ha _ _ ihin ih => exact .array (hbody hc) (hbody ha) ihin ih
  | hash hc ha hkeys _ _ ihin ih => exact .hash (hbody hc) (hbody ha) hkeys ihin ih

theorem Shows.append (hshows : Shows hp hs ts) (hmore : Shows hp hs' ts') :
    Shows hp (hs ++ hs') (ts ++ ts') := by
  induction hshows with
  | nil => exact hmore
  | scalar _ ih => exact .scalar ih
  | int hc _ ih => exact .int hc ih
  | num hc _ ih => exact .num hc ih
  | str hc _ ih => exact .str hc ih
  | array hc ha hin _ _ ih => exact .array hc ha hin ih
  | hash hc ha hkeys hin _ _ ih => exact .hash hc ha hkeys hin ih

/-- A scalar that was there, and is there, has the body that it had. -/
def Keeps (hp hp₁ : Heap) : Prop :=
  ∀ k body, hp.body k = .ok body → hp₁.contains k = true → hp₁.body k = .ok body

/-- The children of the scalars are there. -/
def Rooted (hp : Heap) : Prop :=
  ∀ k body, hp.body k = .ok body → ∀ c ∈ body.children, hp.contains c = true

theorem Recedes.keeps (hrec : Recedes hp hp₁) : Keeps hp hp₁ := by
  intro k body hbody hk
  obtain ⟨c₁, hc₁⟩ := contains_iff.1 hk
  obtain ⟨c, hc, hsame⟩ := hrec.cell k c₁ hc₁
  obtain ⟨c', hc', rfl⟩ := body_eq_ok_iff.1 hbody
  obtain rfl := Option.some.inj (hc.symm.trans hc')
  exact body_eq_ok_iff.2 ⟨c₁, hc₁, hsame.symm⟩

/-- A tree is shown as long as the scalars at its top are there. -/
theorem Shows.kept (hshows : Shows hp hs ts) (hkeeps : Keeps hp hp₁) (hrooted : Rooted hp₁)
    (hthere : ∀ k ∈ hs, hp₁.contains k = true) : Shows hp₁ hs ts := by
  induction hshows with
  | nil => exact .nil
  | scalar _ ih => exact .scalar (ih fun k hk => hthere k (.tail _ hk))
  | int hc _ ih =>
    exact .int (hkeeps _ _ hc (hthere _ List.mem_cons_self)) (ih fun k hk => hthere k (.tail _ hk))
  | num hc _ ih =>
    exact .num (hkeeps _ _ hc (hthere _ List.mem_cons_self)) (ih fun k hk => hthere k (.tail _ hk))
  | str hc _ ih =>
    exact .str (hkeeps _ _ hc (hthere _ List.mem_cons_self)) (ih fun k hk => hthere k (.tail _ hk))
  | array hc ha _ _ ihin ih =>
    have hc₁ := hkeeps _ _ hc (hthere _ List.mem_cons_self)
    have ha₁ := hkeeps _ _ ha (hrooted _ _ hc₁ _ List.mem_cons_self)
    exact .array hc₁ ha₁ (ihin (hrooted _ _ ha₁)) (ih fun k hk => hthere k (.tail _ hk))
  | hash hc ha hkeys _ _ ihin ih =>
    have hc₁ := hkeeps _ _ hc (hthere _ List.mem_cons_self)
    have ha₁ := hkeeps _ _ ha (hrooted _ _ hc₁ _ List.mem_cons_self)
    exact .hash hc₁ ha₁ hkeys (ihin (hrooted _ _ ha₁)) (ih fun k hk => hthere k (.tail _ hk))

end Heap

end GuestBridge
