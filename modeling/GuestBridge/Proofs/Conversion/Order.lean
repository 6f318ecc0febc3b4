import GuestBridge.Proofs.Conversion.Encoding
import GuestBridge.Proofs.Conversion.Positions

/-!
# Conversion and the order of hashes

Two values are the same but for the order in which their hashes enumerate entries if
`Store.Reordered` says so to every depth. Then either both can be converted or neither
(`Passage.SameSettings.firstError_eq_none`).

What they are converted to is another matter. Where the settings cut text at the first NUL, several
keys of a hash can have one image, and the entry that is enumerated last counts. So the trees are
the same, as maps, if keys with one image stand for values that are the same but for the order again
(`Passage.Unambiguous`, `convert_reordered`), and need not be otherwise (`last_entry_counts`). Where
all of a text is kept, different keys have different images and nothing is to be asked for
(`Passage.unambiguous_of_preserve`).
-/

namespace GuestBridge

/-! ## The same but for the order -/

/-- What is found in one container is related to what is found in another. -/
theorem exists_of_rel {α β : Type} {R : α → β → Prop} {o : Option α} {o' : Option β} {a : α}
    (hrel : Option.Rel R o o') (ha : o = some a) : ∃ b, o' = some b ∧ R a b := by
  subst ha
  cases hrel with
  | some hab => exact ⟨_, rfl, hab⟩

theorem exists_of_rel_right {α β : Type} {R : α → β → Prop} {o : Option α} {o' : Option β} {b : β}
    (hrel : Option.Rel R o o') (hb : o' = some b) : ∃ a, o = some a ∧ R a b := by
  subst hb
  cases hrel with
  | some hab => exact ⟨_, rfl, hab⟩

theorem rel_bind {α β γ δ : Type} {R : α → β → Prop} {S : γ → δ → Prop} {o : Option α}
    {o' : Option β} {f : α → Option γ} {g : β → Option δ} (hrel : Option.Rel R o o')
    (hfg : ∀ a b, o = some a → o' = some b → R a b → Option.Rel S (f a) (g b)) :
    Option.Rel S (o.bind f) (o'.bind g) := by
  cases hrel with
  | some hab => exact hfg _ _ rfl rfl hab
  | none => exact .none

namespace Entries

variable {κ α : Type} [DecidableEq κ] {key : κ} {a : α} {entries : List (κ × α)}

/-- Where each key is enumerated once, an entry is what is found under its key. -/
theorem find?_eq_some_iff (hkeys : (entries.map (·.1)).Nodup) :
    find? key entries = some a ↔ (key, a) ∈ entries := by
  induction entries with
  | nil => simp
  | cons e rest ih =>
    obtain ⟨k, b⟩ := e
    rw [List.map_cons, List.nodup_cons] at hkeys
    by_cases hk : k = key
    · subst hk
      have hnot : (k, a) ∉ rest := fun h => hkeys.1 (List.mem_map.2 ⟨_, h, rfl⟩)
      simp [find?, hnot, eq_comm]
    · simp [find?, hk, ih hkeys.2, Ne.symm hk]

end Entries

namespace Store

variable {st st' st'' : Store} {n : Nat} {v v' v'' : Value}

/-- Down to a depth two values are the same, but for the order in which their hashes enumerate
entries: arrays have such values at the same positions, and hashes, which enumerate each key once,
have them under the same keys. -/
def Reordered (st st' : Store) : Nat → Value → Value → Prop
  | 0, _, _ => True
  | n + 1, .array id, .array id' =>
    ∀ k : Nat, Option.Rel (Reordered st st' n) (st.items id)[k]? (st'.items id')[k]?
  | n + 1, .hash id, .hash id' =>
    ((st.entries id).map (·.1)).Nodup ∧ ((st'.entries id').map (·.1)).Nodup ∧
      ∀ key, Option.Rel (Reordered st st' n) (Entries.find? key (st.entries id))
        (Entries.find? key (st'.entries id'))
  | _ + 1, .boundary id, .boundary id' => st.boundary? id = st'.boundary? id'
  | _ + 1, .object id, .object id' => st.className id = st'.className id'
  | _ + 1, v, v' => v = v'

theorem Reordered.symm (hlike : st.Reordered st' n v v') : st'.Reordered st n v' v := by
  induction n generalizing v v' with
  | zero => trivial
  | succ n ih =>
    have hflip : ∀ o o' : Option Value, Option.Rel (st.Reordered st' n) o o' →
        Option.Rel (st'.Reordered st n) o' o := by
      rintro _ _ (h | _)
      · exact .some (ih h)
      · exact .none
    cases v with
    | array id =>
      cases v' with
      | array id' => exact fun k => hflip _ _ (hlike k)
      | _ => cases hlike
    | hash id =>
      cases v' with
      | hash id' => exact ⟨hlike.2.1, hlike.1, fun key => hflip _ _ (hlike.2.2 key)⟩
      | _ => cases hlike
    | boundary id | object id => cases v' <;> first | cases hlike | exact Eq.symm hlike
    | undef | integer | float | text => cases v' <;> exact Eq.symm hlike

theorem Reordered.trans (hfirst : st.Reordered st' n v v') (hnext : st'.Reordered st'' n v' v'') :
    st.Reordered st'' n v v'' := by
  induction n generalizing v v' v'' with
  | zero => trivial
  | succ n ih =>
    have hboth : ∀ o o' o'' : Option Value, Option.Rel (st.Reordered st' n) o o' →
        Option.Rel (st'.Reordered st'' n) o' o'' → Option.Rel (st.Reordered st'' n) o o'' := by
      rintro _ _ _ (h | _) h'
      · obtain ⟨_, rfl, hnext⟩ := exists_of_rel h' rfl
        exact .some (ih h hnext)
      · cases h'
        exact .none
    cases v with
    | array id =>
      cases v' with
      | array id' =>
        cases v'' with
        | array id'' => exact fun k => hboth _ _ _ (hfirst k) (hnext k)
        | _ => cases hnext
      | _ => cases hfirst
    | hash id =>
      cases v' with
      | hash id' =>
        cases v'' with
        | hash id'' =>
          exact ⟨hfirst.1, hnext.2.1, fun key => hboth _ _ _ (hfirst.2.2 key) (hnext.2.2 key)⟩
        | _ => cases hnext
      | _ => cases hfirst
    | boundary id =>
      cases v' with
      | boundary id' =>
        cases v'' with
        | boundary id'' => exact Eq.trans hfirst hnext
        | _ => cases hnext
      | _ => cases hfirst
    | object id =>
      cases v' with
      | object id' =>
        cases v'' with
        | object id'' => exact Eq.trans hfirst hnext
        | _ => cases hnext
      | _ => cases hfirst
    | undef | integer | float | text =>
      cases v' <;> cases hfirst
      exact hnext

/-- The first of two such values is the same as itself. -/
theorem Reordered.left (hlike : st.Reordered st' n v v') : st.Reordered st n v v :=
  hlike.trans hlike.symm

/-- Hashes with the same entries in different orders are such values. -/
theorem reordered_of_perm {id id' : ObjectId} (hkeys : ((st.entries id).map (·.1)).Nodup)
    (hperm : (st.entries id).Perm (st'.entries id'))
    (hvalues : ∀ e ∈ st.entries id, st.Reordered st' n e.2 e.2) :
    st.Reordered st' (n + 1) (.hash id) (.hash id') := by
  have hkeys' : ((st'.entries id').map (·.1)).Nodup := (hperm.map (·.1)).nodup hkeys
  refine ⟨hkeys, hkeys', fun key => ?_⟩
  have hfind : Entries.find? key (st'.entries id') = Entries.find? key (st.entries id) := by
    ext v
    rw [Entries.find?_eq_some_iff hkeys', Entries.find?_eq_some_iff hkeys, hperm.mem_iff]
  rw [hfind]
  cases hv : Entries.find? key (st.entries id) with
  | none => exact .none
  | some v => exact .some (hvalues _ ((Entries.find?_eq_some_iff hkeys).1 hv))

/-- Each element of one of them is the same as an element of the other. -/
theorem Reordered.exists_element {x : Value} (hlike : st.Reordered st' (n + 1) v v')
    (hx : x ∈ st.elementsOf v) : ∃ x' ∈ st'.elementsOf v', st.Reordered st' n x x' := by
  cases v with
  | array id =>
    cases v' with
    | array id' =>
      obtain ⟨k, hk⟩ := List.mem_iff_getElem?.1 hx
      obtain ⟨x', hk', hxx'⟩ := exists_of_rel (hlike k) hk
      exact ⟨x', List.mem_of_getElem? hk', hxx'⟩
    | _ => cases hlike
  | hash id =>
    cases v' with
    | hash id' =>
      obtain ⟨hkeys, hkeys', hfind⟩ := hlike
      obtain ⟨⟨key, y⟩, he, rfl⟩ := List.mem_map.1 hx
      obtain ⟨x', hx', hxx'⟩ :=
        exists_of_rel (hfind key) ((Entries.find?_eq_some_iff hkeys).2 he)
      exact ⟨x', List.mem_map.2 ⟨_, (Entries.find?_eq_some_iff hkeys').1 hx', rfl⟩, hxx'⟩
    | _ => cases hlike
  | _ => cases hx

end Store

/-! ## Whether they can be converted -/

namespace Passage

variable {p p' : Passage} {live : Handle → Bool} {n : Nat} {v v' : Value}

/-- Two conversions differ at most in the objects of the host. -/
structure SameSettings (p p' : Passage) : Prop where
  config : p'.config = p.config
  target : p'.target = p.target

theorem SameSettings.symm (hsame : SameSettings p p') : SameSettings p' p :=
  ⟨hsame.config.symm, hsame.target.symm⟩

theorem SameSettings.bytesOf (hsame : SameSettings p p') (s : String) :
    p'.bytesOf s = p.bytesOf s := by
  rw [Passage.bytesOf, Passage.bytesOf, hsame.config]

theorem SameSettings.valueError (hsame : SameSettings p p')
    (hlike : p.store.Reordered p'.store (n + 1) v v') :
    p'.valueError live v' = p.valueError live v := by
  cases v with
  | boundary id =>
    cases v' with
    | boundary id' =>
      have hid : p.store.boundary? id = p'.store.boundary? id' := hlike
      rw [Passage.valueError, Passage.valueError, boundaryError, boundaryError, ← hid, hsame.target]
    | _ => cases hlike
  | object id =>
    cases v' with
    | object id' =>
      have hid : p.store.className id = p'.store.className id' := hlike
      rw [Passage.valueError, Passage.valueError, Store.typeName, Store.typeName, hid]
    | _ => cases hlike
  | _ => cases v' <;> first | rfl | cases hlike

/-- If one of them can be converted, so can the other. -/
theorem SameSettings.firstError_eq_none (hsame : SameSettings p p')
    (hlike : p.store.Reordered p'.store n v v') (hnone : p.firstError live n v = none) :
    p'.firstError live n v' = none := by
  induction n generalizing v v' with
  | zero => cases hnone
  | succ n ih =>
    rw [firstError_succ, Option.or_eq_none_iff] at hnone ⊢
    refine ⟨(hsame.valueError hlike).trans hnone.1, List.findSome?_eq_none_iff.2 fun x' hx' => ?_⟩
    obtain ⟨x, hx, hlike'⟩ := hlike.symm.exists_element hx'
    exact ih hlike'.symm (List.findSome?_eq_none_iff.1 hnone.2 x hx)

end Passage

/-! ## What they are converted to -/

/-- The same tree, if hashes are read as maps. -/
inductive Tree.Same : Tree → Tree → Prop
  | int {n} : Same (.int n) (.int n)
  | num {x} : Same (.num x) (.num x)
  | str {bytes} : Same (.str bytes) (.str bytes)
  | scalar {h} : Same (.scalar h) (.scalar h)
  | array {items items' : List Tree} : (∀ k : Nat, Option.Rel Same items[k]? items'[k]?) →
      Same (.array items) (.array items')
  | hash {entries entries' : List (Bytes × Tree)} :
      (∀ key, Option.Rel Same (Entries.find? key entries) (Entries.find? key entries')) →
      Same (.hash entries) (.hash entries')

theorem getElem?_of_mapM {α β : Type} {f : α → Option β} {l : List α} {bs : List β}
    (hbs : l.mapM f = some bs) (k : Nat) : bs[k]? = l[k]?.bind f := by
  induction l generalizing bs k with
  | nil =>
    cases hbs
    rfl
  | cons a rest ih =>
    obtain ⟨b, bs', ha, hrest, rfl⟩ := mapM_cons_eq_some_iff.1 hbs
    cases k with
    | zero => exact ha.symm
    | succ k => exact ih hrest k

namespace Passage

variable {p p' : Passage} {n : Nat} {v v' : Value} {t t' : Tree}

/-- Down to a depth, the keys of a hash that have one image stand for values that are the same but
for the order of their own hashes. -/
def Unambiguous (p : Passage) : Nat → Value → Prop
  | n + 1, .array id => ∀ v ∈ p.store.items id, p.Unambiguous n v
  | n + 1, .hash id => ∀ e ∈ p.store.entries id, p.Unambiguous n e.2 ∧
      ∀ e' ∈ p.store.entries id, p.bytesOf e.1 = p.bytesOf e'.1 →
        p.store.Reordered p.store n e.2 e'.2
  | _, _ => True

/-- Where all of a text is kept, different keys have different images. -/
theorem unambiguous_of_preserve (hpolicy : p.config.stringPolicy = .preserve)
    (hlike : p.store.Reordered p.store n v v) : p.Unambiguous n v := by
  induction n generalizing v with
  | zero => cases v <;> trivial
  | succ n ih =>
    cases v with
    | array id =>
      intro x hx
      obtain ⟨x', -, hxx'⟩ := hlike.exists_element hx
      exact ih hxx'.left
    | hash id =>
      intro e he
      obtain ⟨x', -, hxx'⟩ := hlike.exists_element (List.mem_map.2 ⟨e, he, rfl⟩)
      refine ⟨ih hxx'.left, fun e' he' hbytes => ?_⟩
      have hkey : e.1 = e'.1 := by
        rw [bytesOf, bytesOf, hpolicy] at hbytes
        exact Utf8.encode_injective hbytes
      rw [← List.inj_on_of_nodup_map hlike.1 he he' hkey]
      exact hxx'.left
    | _ => trivial

/-- What a hash has under a key is what its last entry with that image stands for; there is one
unless no entry has that image. -/
theorem last_cases (p : Passage) (entries : List (String × Value)) (key : Bytes) :
    (entries.reverse.find? (fun e => p.bytesOf e.1 = key) = none ∧
        ∀ e ∈ entries, p.bytesOf e.1 ≠ key) ∨
      ∃ e ∈ entries, p.bytesOf e.1 = key ∧
        entries.reverse.find? (fun e => p.bytesOf e.1 = key) = some e := by
  cases hlast : entries.reverse.find? fun e => p.bytesOf e.1 = key with
  | none =>
    refine .inl ⟨rfl, fun e he => ?_⟩
    have hne := List.find?_eq_none.1 hlast e (List.mem_reverse.2 he)
    exact fun hkey => hne (decide_eq_true hkey)
  | some e =>
    exact .inr ⟨e, List.mem_reverse.1 (List.mem_of_find?_eq_some hlast),
      by simpa using List.find?_some hlast, rfl⟩

/-- The last entries of two such hashes with one image of their keys stand for values that are the
same but for the order again. -/
theorem SameSettings.last_same (hsame : SameSettings p p') {id id' : ObjectId}
    (hlike : p.store.Reordered p'.store (n + 1) (.hash id) (.hash id'))
    (hclear : p.Unambiguous (n + 1) (.hash id)) (key : Bytes) :
    Option.Rel (fun e e' : String × Value => e ∈ p.store.entries id ∧ e' ∈ p'.store.entries id' ∧
        p.store.Reordered p'.store n e.2 e'.2)
      ((p.store.entries id).reverse.find? fun e => p.bytesOf e.1 = key)
      ((p'.store.entries id').reverse.find? fun e => p'.bytesOf e.1 = key) := by
  obtain ⟨hkeys, hkeys', hfind⟩ := hlike
  have hsettings : (fun e : String × Value => decide (p'.bytesOf e.1 = key))
      = fun e => decide (p.bytesOf e.1 = key) := by
    funext e
    rw [hsame.bytesOf]
  rw [hsettings]
  rcases p.last_cases (p.store.entries id) key with ⟨hnone, hno⟩ | ⟨e, he, hkey, hlast⟩ <;>
    rcases p.last_cases (p'.store.entries id') key with ⟨hnone', hno'⟩ | ⟨e', he', hkey', hlast'⟩
  · rw [hnone, hnone']
    exact .none
  -- each key of one hash is a key of the other
  · obtain ⟨x, hx, -⟩ :=
      exists_of_rel_right (hfind e'.1) ((Entries.find?_eq_some_iff hkeys').2 he')
    exact (hno (e'.1, x) ((Entries.find?_eq_some_iff hkeys).1 hx) hkey').elim
  · obtain ⟨x', hx', -⟩ :=
      exists_of_rel (hfind e.1) ((Entries.find?_eq_some_iff hkeys).2 he)
    exact (hno' (e.1, x') ((Entries.find?_eq_some_iff hkeys').1 hx') hkey).elim
  -- the last entries may have different keys, but then these have one image
  · obtain ⟨x, hx, hxe'⟩ :=
      exists_of_rel_right (hfind e'.1) ((Entries.find?_eq_some_iff hkeys').2 he')
    have hmem := (Entries.find?_eq_some_iff hkeys).1 hx
    have hex := (hclear e he).2 _ hmem (hkey.trans hkey'.symm)
    rw [hlast, hlast']
    exact .some ⟨he, he', hex.trans hxe'⟩

/-- What two such values unfold to is the same, if it is clear what the keys of their hashes stand
for. -/
theorem SameSettings.unfold_same (hsame : SameSettings p p')
    (hlike : p.store.Reordered p'.store n v v') (hclear : p.Unambiguous n v)
    (ht : p.unfold n v = some t) (ht' : p'.unfold n v' = some t') : t.Same t' := by
  induction n generalizing v v' t t' with
  | zero => cases ht
  | succ n ih =>
    cases v with
    | array id =>
      cases v' with
      | array id' =>
        rw [unfold, Option.map_eq_some_iff] at ht ht'
        obtain ⟨ts, hts, rfl⟩ := ht
        obtain ⟨ts', hts', rfl⟩ := ht'
        refine .array fun k => ?_
        rw [getElem?_of_mapM hts, getElem?_of_mapM hts']
        refine rel_bind (hlike k) fun x x' hk hk' hxx' => ?_
        obtain ⟨u, hu⟩ := exists_of_mapM hts (List.mem_of_getElem? hk)
        obtain ⟨u', hu'⟩ := exists_of_mapM hts' (List.mem_of_getElem? hk')
        rw [hu, hu']
        exact .some (ih hxx' (hclear x (List.mem_of_getElem? hk)) hu hu')
      | _ => cases hlike
    | hash id =>
      cases v' with
      | hash id' =>
        obtain ⟨pairs, hpairs, heq⟩ := Option.map_eq_some_iff.1 ht
        obtain ⟨pairs', hpairs', heq'⟩ := Option.map_eq_some_iff.1 ht'
        subst heq heq'
        refine .hash fun key => ?_
        rw [find?_unfold_hash ht, find?_unfold_hash ht']
        refine rel_bind (hsame.last_same hlike hclear key) ?_
        rintro e e' - - ⟨he, he', hee'⟩
        obtain ⟨b, hb⟩ := exists_of_mapM hpairs he
        obtain ⟨b', hb'⟩ := exists_of_mapM hpairs' he'
        obtain ⟨u, hu, -⟩ := Option.map_eq_some_iff.1 hb
        obtain ⟨u', hu', -⟩ := Option.map_eq_some_iff.1 hb'
        rw [hu, hu']
        exact .some (ih hee' (hclear e he).1 hu hu')
      | _ => cases hlike
    | boundary id =>
      cases v' with
      | boundary id' =>
        have hid : p.store.boundary? id = p'.store.boundary? id' := hlike
        rw [unfold, own?] at ht ht'
        rw [← hid, hsame.target, ht] at ht'
        cases ht'
        obtain ⟨h, -, rfl⟩ := Option.map_eq_some_iff.1 ht
        exact .scalar
      | _ => cases hlike
    | text s =>
      cases v' <;> cases hlike
      cases ht
      cases ht'
      rw [hsame.bytesOf]
      exact .str
    | integer | float =>
      cases v' <;> cases hlike
      cases ht
      cases ht'
      constructor
    | undef | object => cases ht

end Passage

/-! ## Two conversions -/

section

variable {w w' : World} {i : InterpreterId} {config : Config} {v v' : Value}

namespace World

/-- A conversion succeeds if there is no element that cannot be converted. -/
theorem convert_ok_iff (hrest : (w.interpreter i).heap.AtRest)
    (hspared : (w.passage i config).Spared (w.interpreter i).heap.contains (w.frees i config v)
      (w.interpreter i).heap) :
    (∃ h, (w.convert i config v).1 = .ok h) ↔
      (w.passage i config).firstError (w.interpreter i).heap.contains (config.maxDepth + 1) v
        = none := by
  obtain ⟨hp, houtcome, -⟩ := convert_outcome config v hrest hspared
  generalize (w.convert i config v).1 = result at houtcome ⊢
  cases houtcome with
  | made _ hnone _ => simp [hnone]
  | failed hsome _ => simp [hsome]

end World

/-- The order in which hashes enumerate their entries does not decide whether a value can be
converted. If moreover it is clear what the keys of its hashes stand for, which is to be asked for
only where text is cut, then the trees read back are the same as maps.

The heap is at rest, as it is between two operations, and in neither conversion does a stale handle
in a boundary object come to fit a new scalar because its slot has been emptied too often on the
way. In a run this cannot happen before a slot has been emptied `2 ^ 32` times
(`World.Logged.spared`). -/
theorem convert_reordered (hsame : w'.interpreter i = w.interpreter i)
    (hrest : (w.interpreter i).heap.AtRest)
    (hspared : (w.passage i config).Spared (w.interpreter i).heap.contains (w.frees i config v)
      (w.interpreter i).heap)
    (hspared' : (w'.passage i config).Spared (w.interpreter i).heap.contains
      (w'.frees i config v') (w.interpreter i).heap)
    (hlike : w.store.Reordered w'.store (config.maxDepth + 1) v v') :
    ((∃ h, (w.convert i config v).1 = .ok h) ↔ ∃ h', (w'.convert i config v').1 = .ok h') ∧
      ((config.stringPolicy = .truncateAtNul →
          (w.passage i config).Unambiguous (config.maxDepth + 1) v) →
        ∀ h h', (w.convert i config v).1 = .ok h → (w'.convert i config v').1 = .ok h' →
          ∃ t t' ns ns', ((w.convert i config v).2.interpreter i).heap.Reads [h] [t] ns ∧
            ((w'.convert i config v').2.interpreter i).heap.Reads [h'] [t'] ns' ∧ t.Same t') := by
  have hsettings : (w.passage i config).SameSettings (w'.passage i config) := ⟨rfl, rfl⟩
  have hrest' : (w'.interpreter i).heap.AtRest := hsame ▸ hrest
  rw [← hsame] at hspared'
  refine ⟨?_, fun hclear h h' hok hok' => ?_⟩
  · rw [World.convert_ok_iff hrest hspared, World.convert_ok_iff hrest' hspared', hsame]
    exact ⟨hsettings.firstError_eq_none hlike, hsettings.symm.firstError_eq_none hlike.symm⟩
  · obtain ⟨t, ns, hmade⟩ := World.converted hrest hspared (Prod.ext hok rfl)
    obtain ⟨t', ns', hmade'⟩ := World.converted hrest' hspared' (Prod.ext hok' rfl)
    have hunambiguous : (w.passage i config).Unambiguous (config.maxDepth + 1) v := by
      cases hpolicy : config.stringPolicy with
      | preserve => exact Passage.unambiguous_of_preserve hpolicy hlike.left
      | truncateAtNul => exact hclear hpolicy
    exact ⟨t, t', ns, ns', hmade.reads, hmade'.reads, hsettings.unfold_same hlike hunambiguous
      (hmade.unfold_eq _ (Nat.lt_succ_self _)) (hmade'.unfold_eq _ (Nat.lt_succ_self _))⟩

/-- Two hashes with the same entries in different orders; two of the keys have one image when text
is cut. What these keys stand for is the same in the first two hashes and different in the others.
-/
def enumerations : World where
  store := {
    holdings := #[
      some ⟨1, .hash [("a\x00x", .integer 1), ("a\x00y", .integer 1), ("b", .integer 2)]⟩,
      some ⟨1, .hash [("b", .integer 2), ("a\x00y", .integer 1), ("a\x00x", .integer 1)]⟩,
      some ⟨1, .hash [("a\x00x", .integer 1), ("a\x00y", .integer 2)]⟩,
      some ⟨1, .hash [("a\x00y", .integer 2), ("a\x00x", .integer 1)]⟩] }

theorem spared_enumerations (config : Config) (v : Value) :
    (enumerations.passage ⟨1⟩ config).Spared (enumerations.interpreter ⟨1⟩).heap.contains
      (enumerations.frees ⟨1⟩ config v) (enumerations.interpreter ⟨1⟩).heap := by
  rintro ⟨_ | _ | _ | _ | n⟩ k hown <;> cases hown

theorem reordered_integer (n : Nat) (m : Int64) :
    enumerations.store.Reordered enumerations.store n (.integer m) (.integer m) := by
  cases n with
  | zero => trivial
  | succ n => rfl

/-- The first two are converted to the same tree. -/
theorem convert_reordered_enumerations : ∃ h h' t t' ns ns',
    (enumerations.convert ⟨1⟩ { stringPolicy := .truncateAtNul } (.hash ⟨0⟩)).1 = .ok h ∧
      (enumerations.convert ⟨1⟩ { stringPolicy := .truncateAtNul } (.hash ⟨1⟩)).1 = .ok h' ∧
      ((enumerations.convert ⟨1⟩ { stringPolicy := .truncateAtNul } (.hash ⟨0⟩)).2.interpreter
        ⟨1⟩).heap.Reads [h] [t] ns ∧
      ((enumerations.convert ⟨1⟩ { stringPolicy := .truncateAtNul } (.hash ⟨1⟩)).2.interpreter
        ⟨1⟩).heap.Reads [h'] [t'] ns' ∧ t.Same t' := by
  have hlike : enumerations.store.Reordered enumerations.store 513 (.hash ⟨0⟩) (.hash ⟨1⟩) := by
    refine Store.reordered_of_perm (by decide) (by decide) fun e he => ?_
    fin_cases he <;> exact reordered_integer _ _
  have hclear : (enumerations.passage ⟨1⟩ { stringPolicy := .truncateAtNul }).Unambiguous 513
      (.hash ⟨0⟩) := by
    intro e he
    refine ⟨?_, fun e' he' hkeys => ?_⟩
    · fin_cases he <;> trivial
    · fin_cases he <;> fin_cases he' <;>
        first | exact reordered_integer _ _ | exact absurd hkeys (by decide)
  have hrest : (enumerations.interpreter ⟨1⟩).heap.AtRest := ⟨Heap.wellFormed_empty, rfl⟩
  obtain ⟨-, htrees⟩ := convert_reordered rfl hrest
    (spared_enumerations { stringPolicy := .truncateAtNul } _) (spared_enumerations _ _) hlike
  have hok : (enumerations.convert ⟨1⟩ { stringPolicy := .truncateAtNul } (.hash ⟨0⟩)).1
      = .ok ⟨3, 0⟩ := by cbv
  have hok' : (enumerations.convert ⟨1⟩ { stringPolicy := .truncateAtNul } (.hash ⟨1⟩)).1
      = .ok ⟨2, 1⟩ := by cbv
  obtain ⟨t, t', ns, ns', hreads, hreads', hsame⟩ := htrees (fun _ => hclear) _ _ hok hok'
  exact ⟨_, _, t, t', ns, ns', hok, hok', hreads, hreads', hsame⟩

theorem reads_single {hp : Heap} {h a k : Handle} {key : Bytes} {n : Int64}
    (hh : hp.cell? h = some { shares := 1, body := .ref a })
    (ha : hp.cell? a = some { shares := 1, body := .hash [(key, k)] })
    (hk : hp.cell? k = some { shares := 1, body := .int n }) :
    hp.Reads [h] [.hash [(key, .int n)]] [h, a, k] := by
  have hinside : hp.Reads ([(key, k)].map (·.2)) ([(key, Tree.int n)].map (·.2)) [k] :=
    .int hk .nil
  exact .hash hh ha rfl hinside .nil

/-- The others are not, although they are the same but for the order: the entry that is enumerated
last counts. -/
theorem last_entry_counts : ∃ h₁ h₂ ns₁ ns₂,
    (∀ n, enumerations.store.Reordered enumerations.store n (.hash ⟨2⟩) (.hash ⟨3⟩)) ∧
      (enumerations.convert ⟨1⟩ { stringPolicy := .truncateAtNul } (.hash ⟨2⟩)).1 = .ok h₁ ∧
      (enumerations.convert ⟨1⟩ { stringPolicy := .truncateAtNul } (.hash ⟨3⟩)).1 = .ok h₂ ∧
      ((enumerations.convert ⟨1⟩ { stringPolicy := .truncateAtNul } (.hash ⟨2⟩)).2.interpreter
        ⟨1⟩).heap.Reads [h₁] [.hash [([97], .int 2)]] ns₁ ∧
      ((enumerations.convert ⟨1⟩ { stringPolicy := .truncateAtNul } (.hash ⟨3⟩)).2.interpreter
        ⟨1⟩).heap.Reads [h₂] [.hash [([97], .int 1)]] ns₂ ∧
      ¬ (Tree.hash [([97], .int 2)]).Same (.hash [([97], .int 1)]) := by
  refine ⟨⟨1, 1⟩, ⟨1, 1⟩, [⟨1, 1⟩, ⟨0, 0⟩, ⟨2, 0⟩], [⟨1, 1⟩, ⟨0, 0⟩, ⟨2, 0⟩], ?_, by cbv, by cbv,
    ?_, ?_, ?_⟩
  · intro n
    cases n with
    | zero => trivial
    | succ n =>
      refine Store.reordered_of_perm (by decide) (by decide) fun e he => ?_
      fin_cases he <;> exact reordered_integer _ _
  · exact reads_single (by decide +kernel) (by decide +kernel) (by decide +kernel)
  · exact reads_single (by decide +kernel) (by decide +kernel) (by decide +kernel)
  · rintro (_ | _ | _ | _ | _ | hsame)
    rcases hsame [97] with hint | _
    cases hint

end

end GuestBridge
