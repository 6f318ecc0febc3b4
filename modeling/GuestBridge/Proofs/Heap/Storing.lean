import GuestBridge.Proofs.Calls.Undone
import GuestBridge.Proofs.Heap.Dropping

/-!
# Storing in a guest hash

A scalar is stored in a hash first, and then the scalar that it displaces is dropped. There are four
ways for this to end (`Heap.Storing`).

* There is no hash to store in. An error is answered, and nothing has changed.
* The key is new. It is stored, and no share changes.
* A scalar is displaced and its share dropped, down to the end of what that frees.
* The scalar that is displaced is stale, or its release comes to something stale. An error is
  answered here too, but the scalar has been stored all the same
  (`hashStore_stale_stores`).

So an error does not say whether the hash has changed. An answer without one does
(`World.hashStore_settles`).
-/

namespace GuestBridge

namespace Heap

variable {hp hp₁ hp₂ : Heap} {h hash value old : Handle} {key : Bytes} {c : Cell}
variable {entries : List (Bytes × Handle)} {gone : List (Handle × Body)}

/-- The heap in which a hash with some entries has got another one. A scalar that is displaced by it
has not been dropped. -/
def withEntry (hp : Heap) (hash : Handle) (entries : List (Bytes × Handle)) (key : Bytes)
    (value : Handle) : Heap :=
  (hp.setBody hash (.hash (Entries.insert key value entries))).2

theorem withEntry_eq (hc : hp.cell? hash = some c) (entries : List (Bytes × Handle)) (key : Bytes)
    (value : Handle) :
    hp.withEntry hash entries key value
      = hp.setCell hash { c with body := .hash (Entries.insert key value entries) } := by
  rw [withEntry, setBody_eq_of_cell? hc]

/-- No share changes when an entry is written. -/
theorem shareCount_withEntry (hc : hp.cell? hash = some c) (k : Handle) :
    (hp.withEntry hash entries key value).shareCount k = hp.shareCount k := by
  rw [withEntry_eq hc, shareCount_setCell hc]
  split
  · rename_i hk
    rw [hk, shareCount_of_cell? hc]
  · rfl

theorem contains_withEntry (hc : hp.cell? hash = some c) (k : Handle) :
    (hp.withEntry hash entries key value).contains k = hp.contains k := by
  rw [contains, withEntry_eq hc, cell?_setCell hc]
  split
  · rename_i hk
    rw [hk, contains, hc]
    rfl
  · rfl

/-- The scalar that has been dropped has lost just one share. -/
theorem Unshared.shareCount_self (hdone : Unshared hp hp₁ h gone) (hthere : hp.contains h = true) :
    hp.shareCount h = hp₁.shareCount h + 1 := by
  cases hc₁ : hp₁.cell? h with
  | some c₁ =>
    obtain ⟨hpos, hc⟩ := hdone.kept h c₁ hc₁
    have hshares := shareCount_of_cell? hc
    dsimp only at hshares
    rw [if_pos rfl] at hshares
    have hgone : gone = [] := by
      by_contra hgone
      have hlast := hdone.last hgone
      omega
    rw [hshares, shareCount_of_cell? hc₁, hgone]
    rfl
  | none =>
    have hmem : h ∈ gone.map (·.1) := (hdone.mem h).2 ⟨hthere, hc₁⟩
    rw [shareCount_of_none hc₁, hdone.last (List.ne_nil_of_mem (List.mem_map.1 hmem).choose_spec.1)]

/-- It has not lost more when what was freed has let go of its closures. -/
theorem Unshared.shareCount_settled (hdone : Unshared hp hp₁ h gone)
    (hthere : hp.contains h = true) (hrecedes : Recedes hp₁ hp₂) (hquiet : gone = [] → hp₂ = hp₁) :
    hp.shareCount h = hp₂.shareCount h + 1 := by
  have hself := hdone.shareCount_self hthere
  by_cases hgone : gone = []
  · rw [hquiet hgone, hself]
  · have hlast := hdone.last hgone
    cases hc₂ : hp₂.cell? h with
    | none => rw [shareCount_of_none hc₂, hlast]
    | some c₂ =>
      obtain ⟨c₁, hc₁, -⟩ := hrecedes.cell h c₂ hc₂
      have hpos := (hdone.kept h c₁ hc₁).1
      rw [shareCount_of_cell? hc₁] at hself
      omega

/-- What storing a scalar comes to: the answer, and the heap after it. -/
inductive Storing (hp : Heap) (hash : Handle) (key : Bytes) (value : Handle) :
    Except Fault Unit → Heap → Prop where
  /-- There is no hash, and nothing happens. -/
  | refused (fault : Fault) : hp.isHash hash = false → Storing hp hash key value (.error fault) hp
  /-- The key is new. -/
  | added {entries : List (Bytes × Handle)} : hp.body hash = .ok (.hash entries) →
    Entries.find? key entries = none →
    Storing hp hash key value (.ok ()) (hp.withEntry hash entries key value)
  /-- The displaced scalar has lost one share, and so has all that this frees. -/
  | replaced {entries : List (Bytes × Handle)} {old : Handle} {gone : List (Handle × Body)}
      {hp₁ : Heap} : hp.body hash = .ok (.hash entries) → Entries.find? key entries = some old →
    hp.contains old = true → Unshared (hp.withEntry hash entries key value) hp₁ old gone →
    Storing hp hash key value (.ok ()) hp₁
  /-- The scalar has been stored, and drops have been carried out up to a stale handle. -/
  | interrupted {entries : List (Bytes × Handle)} {old k : Handle} {gone : List (Handle × Body)}
      {dropped rest : List Handle} {hp₁ : Heap} :
    hp.body hash = .ok (.hash entries) → Entries.find? key entries = some old →
    Sheds (hp.withEntry hash entries key value) hp₁ gone dropped →
    (dropped ++ k :: rest).Perm (old :: gone.flatMap (·.2.children)) → hp₁.cell? k = none →
    Storing hp hash key value (.error k.stale) hp₁

/-- Storing comes to one of these. -/
theorem WellFormed.storing (hwf : hp.WellFormed) (hash : Handle) (key : Bytes) (value : Handle) :
    Storing hp hash key value (hp.hashStore hash key value).1 (hp.hashStore hash key value).2 := by
  cases hhash : hp.isHash hash with
  | false =>
    obtain ⟨⟨fault, herror⟩, hsame⟩ := hashStore_of_not_isHash hhash key value
    rw [herror, hsame]
    exact .refused fault hhash
  | true =>
    obtain ⟨entries, hbody⟩ : ∃ entries, hp.body hash = .ok (.hash entries) := by
      unfold isHash at hhash
      split at hhash
      · exact ⟨_, by assumption⟩
      · cases hhash
    cases hold : Entries.find? key entries with
    | none =>
      rw [hashStore_of_new hbody hold]
      exact .added hbody hold
    | some old =>
      have hput : (hp.withEntry hash entries key value).WellFormed := hwf.setBody hash _
      obtain ⟨gone, dropped, left, hsheds, hcount, hend⟩ := hput.sheds_unshare old
      rw [hashStore_of_old hbody hold]
      rcases hend with ⟨hok, rfl⟩ | ⟨k, rest, rfl, herror, hk⟩
      · cases hc : (hp.withEntry hash entries key value).cell? old with
        | none =>
          rw [unshare_eq, cascade_of_none hc] at hok
          cases hok
        | some c =>
          have hdone := hsheds.unshared hput hc hcount
          show Storing hp hash key value (((hp.withEntry hash entries key value).unshare old).1.map
            fun _ => ()) _
          rw [hok]
          have hthere : hp.contains old = true := by
            obtain ⟨_, hhash, -⟩ := body_eq_ok_iff.1 hbody
            rw [← contains_withEntry hhash old]
            exact contains_iff.2 ⟨c, hc⟩
          exact .replaced hbody hold hthere hdone
      · show Storing hp hash key value (((hp.withEntry hash entries key value).unshare old).1.map
          fun _ => ()) _
        have hperm : (dropped ++ k :: rest).Perm (old :: gone.flatMap (·.2.children)) := by
          rw [List.perm_iff_count]
          intro j
          rw [List.count_append, hcount, List.count_cons (l := gone.flatMap _),
            List.count_singleton, Nat.add_comm]
          rfl
        rw [herror]
        exact .interrupted hbody hold hsheds hperm hk

namespace Storing

variable {result : Except Fault Unit}

/-- Nothing changes unless there is a hash. -/
theorem of_not_isHash (hstoring : Storing hp hash key value result hp₁)
    (hhash : hp.isHash hash = false) : (∃ fault, result = .error fault) ∧ hp₁ = hp := by
  have hnot {entries} (hbody : hp.body hash = .ok (.hash entries)) : False := by
    simp [isHash, hbody] at hhash
  cases hstoring with
  | refused fault => exact ⟨⟨fault, rfl⟩, rfl⟩
  | added hbody | replaced hbody | interrupted hbody => exact (hnot hbody).elim

/-- If there is one the scalar has been stored, whatever the answer. -/
theorem recedes (hstoring : Storing hp hash key value result hp₁)
    (hbody : hp.body hash = .ok (.hash entries)) :
    Recedes (hp.withEntry hash entries key value) hp₁ := by
  have hsame {entries'} (hbody' : hp.body hash = .ok (.hash entries')) : entries' = entries := by
    rw [hbody] at hbody'
    cases hbody'
    rfl
  cases hstoring with
  | refused fault hhash => simp [isHash, hbody] at hhash
  | added hbody' =>
    rw [hsame hbody']
    exact .refl _
  | replaced hbody' _ _ hdone =>
    rw [← hsame hbody']
    exact hdone.recedes
  | interrupted hbody' _ hsheds =>
    rw [← hsame hbody']
    exact hsheds.recedes

/-- Without an error, what is displaced has been dropped. -/
theorem unshared (hstoring : Storing hp hash key value (.ok ()) hp₁)
    (hbody : hp.body hash = .ok (.hash entries)) (hold : Entries.find? key entries = some old) :
    hp.contains old = true ∧
      ∃ gone, Unshared (hp.withEntry hash entries key value) hp₁ old gone := by
  cases hstoring with
  | added hbody' hnew =>
    rw [hbody] at hbody'
    cases hbody'
    rw [hold] at hnew
    cases hnew
  | replaced hbody' hold' hthere hdone =>
    rw [hbody] at hbody'
    cases hbody'
    rw [hold] at hold'
    cases hold'
    exact ⟨hthere, _, hdone⟩

/-- If the hash is still there when what has been freed has let go of its closures, it maps the key
to the scalar, and its other entries are the same. -/
theorem entries_after {body : Body} (hstoring : Storing hp hash key value result hp₁)
    (hbody : hp.body hash = .ok (.hash entries)) (hrecedes : Heap.Recedes hp₁ hp₂)
    (hafter : hp₂.body hash = .ok body) :
    ∃ entries', body = .hash entries' ∧ Entries.find? key entries' = some value ∧
      ∀ other, other ≠ key → Entries.find? other entries' = Entries.find? other entries := by
  obtain ⟨c, hc, -⟩ := body_eq_ok_iff.1 hbody
  obtain ⟨c', hc', rfl⟩ := body_eq_ok_iff.1 hafter
  obtain ⟨d, hd, hsame⟩ := ((hstoring.recedes hbody).trans hrecedes).cell hash c' hc'
  rw [withEntry_eq hc, cell?_setCell hc, if_pos rfl] at hd
  refine ⟨Entries.insert key value entries, ?_, Entries.find?_insert_self _ _ _,
    fun other hne => Entries.find?_insert_of_ne hne _ _⟩
  rw [← hsame, ← Option.some.inj hd]

/-- Without an error, what is displaced has lost just one share, also when what has been freed has
let go of its closures. -/
theorem shareCount_displaced (hstoring : Storing hp hash key value (.ok ()) hp₁)
    (hbody : hp.body hash = .ok (.hash entries)) (hold : Entries.find? key entries = some old)
    (hrecedes : Heap.Recedes hp₁ hp₂) (hquiet : hp₁.freed = hp.freed → hp₂ = hp₁) :
    hp.shareCount old = hp₂.shareCount old + 1 := by
  obtain ⟨c, hc, -⟩ := body_eq_ok_iff.1 hbody
  obtain ⟨hthere, gone, hdone⟩ := hstoring.unshared hbody hold
  rw [← contains_withEntry hc old] at hthere
  rw [← shareCount_withEntry hc old]
  refine hdone.shareCount_settled hthere hrecedes fun hgone => hquiet ?_
  have hnone := hdone.freed
  rw [hgone, List.map_nil, List.append_nil, withEntry, freed_setBody] at hnone
  exact Array.toList_inj.1 hnone

end Storing

end Heap

namespace World

variable {w : World} {i : InterpreterId} {hash value old : Handle} {key : Bytes}
variable {entries : List (Bytes × Handle)}

/-- An interpreter that has parked nothing has nothing to settle. -/
theorem guest_of_atRest {α : Type} {f : Interpreter → α × Interpreter} {hp : Heap}
    (hf : (f (w.interpreter i)).2 = { w.interpreter i with heap := hp }) (hfreed : hp.freed = #[]) :
    (w.guest i f).2 = w.setInterpreter i { w.interpreter i with heap := hp } := by
  rw [guest_of_parked hf (by simp [hfreed]), ← hfreed]

/-- Storing a scalar in a hash ends in one of four ways, and then what has been freed lets go of its
closures.

If there is no hash, nothing changes. If there is one, and it is still there afterwards, it maps the
key to the scalar, and its other entries are the same. If no error is answered, the scalar that is
displaced has lost just one share. -/
theorem hashStore_settles (hrest : (w.interpreter i).heap.AtRest) (hash : Handle) (key : Bytes)
    (value : Handle) :
    let result := (w.guest i (·.hashStore hash key value)).1
    let w' := (w.guest i (·.hashStore hash key value)).2
    (∃ hp, Heap.Storing (w.interpreter i).heap hash key value result hp ∧
      w' = (w.setInterpreter i { w.interpreter i with heap := hp }).settleFreed i) ∧
    ((w.interpreter i).heap.isHash hash = false →
      (∃ fault, result = .error fault) ∧ w' = w.setInterpreter i (w.interpreter i)) ∧
    ∀ entries, (w.interpreter i).heap.body hash = .ok (.hash entries) →
      (∀ body, (w'.interpreter i).heap.body hash = .ok body →
        ∃ entries', body = .hash entries' ∧ Entries.find? key entries' = some value ∧
          ∀ other, other ≠ key → Entries.find? other entries' = Entries.find? other entries) ∧
      ∀ old, Entries.find? key entries = some old → result = .ok () →
        (w.interpreter i).heap.shareCount old = (w'.interpreter i).heap.shareCount old + 1 := by
  intro result w'
  have hstoring := hrest.toWellFormed.storing hash key value
  have hact : ((w.interpreter i).hashStore hash key value).2
      = { w.interpreter i with heap := ((w.interpreter i).heap.hashStore hash key value).2 } := rfl
  have hresult : result = ((w.interpreter i).heap.hashStore hash key value).1 := rfl
  have hsettled : Heap.Recedes ((w.interpreter i).heap.hashStore hash key value).2
      (w'.interpreter i).heap := w.heap_guest i (·.hashStore hash key value)
  rw [← hresult] at hstoring
  refine ⟨⟨_, hstoring, ?_⟩, fun hhash => ?_, fun entries hbody =>
    ⟨fun body hafter => hstoring.entries_after hbody hsettled hafter, fun old hold hok => ?_⟩⟩
  · show (w.guest i _).2 = _
    rw [guest, onInterpreter_eq, hact]
  · obtain ⟨herror, hsame⟩ := hstoring.of_not_isHash hhash
    refine ⟨herror, ?_⟩
    rw [hsame] at hact
    exact guest_of_atRest hact hrest.freed_eq
  · rw [hok] at hstoring
    refine hstoring.shareCount_displaced hbody hold hsettled fun hfreed => ?_
    show ((w.guest i _).2.interpreter i).heap = _
    rw [guest_of_atRest hact (hfreed.trans hrest.freed_eq), interpreter_setInterpreter, if_pos rfl]

/-- A hash with one scalar under `k` that is still there and one under `l` that is gone, in whose
slot a third scalar lives. -/
def halfStaleHash : World where
  interpreters :=
    { entries := #[{
        heap := ((((({} : Heap).allocate (.hash [([0x6b], ⟨1, 0⟩), ([0x6c], ⟨2, 0⟩)])).2.allocate
          (.int 1)).2.allocate (.int 2)).2.vacate ⟨2, 0⟩ (.int 2)).takeFreed.2.allocate
            (.int 3) |>.2 }] }

theorem atRest_halfStaleHash : (halfStaleHash.interpreter ⟨0⟩).heap.AtRest := by
  have hthree := ((Heap.wellFormed_empty.allocate
    (.hash [([0x6b], ⟨1, 0⟩), ([0x6c], ⟨2, 0⟩)])).allocate (.int 1)).allocate (.int 2)
  have htwo := hthree.vacate (h := ⟨2, 0⟩) (c := { shares := 1, body := .int 2 }) rfl (.int 2)
  exact ⟨htwo.atRest.toWellFormed.allocate (.int 3), rfl⟩

/-- Under `k` the scalar that is there loses its share. -/
theorem hashStore_settles_halfStaleHash :
    let w' := (halfStaleHash.guest ⟨0⟩ (·.hashStore ⟨0, 0⟩ [0x6b] ⟨2, 1⟩)).2
    (halfStaleHash.interpreter ⟨0⟩).heap.AtRest ∧
      (∀ body, (w'.interpreter ⟨0⟩).heap.body ⟨0, 0⟩ = .ok body →
        ∃ entries', body = .hash entries' ∧ Entries.find? [0x6b] entries' = some ⟨2, 1⟩ ∧
          ∀ other, other ≠ [0x6b] → Entries.find? other entries' =
            Entries.find? other [([0x6b], ⟨1, 0⟩), ([0x6c], ⟨2, 0⟩)]) ∧
      (w'.interpreter ⟨0⟩).heap.shareCount ⟨1, 0⟩ = 0 := by
  intro w'
  obtain ⟨-, -, hstored⟩ := hashStore_settles atRest_halfStaleHash ⟨0, 0⟩ [0x6b] ⟨2, 1⟩
  obtain ⟨hentries, hshares⟩ := hstored _ rfl
  have hok : ((halfStaleHash.interpreter ⟨0⟩).heap.hashStore ⟨0, 0⟩ [0x6b] ⟨2, 1⟩).1 = .ok () := by
    rw [Heap.hashStore_of_old rfl rfl, Heap.unshare_eq, Heap.cascade_of_last rfl rfl]
    exact congrArg (fun r : Except Fault Unit × Heap => (r.1.map fun _ => 0).map fun _ => ())
      (Heap.cascade_nil _)
  have hlost : 1 = (w'.interpreter ⟨0⟩).heap.shareCount ⟨1, 0⟩ + 1 := hshares ⟨1, 0⟩ rfl hok
  exact ⟨atRest_halfStaleHash, hentries, by omega⟩

/-- Under `l` an error is answered, and the third scalar has been stored all the same. -/
theorem hashStore_stale_stores :
    (halfStaleHash.interpreter ⟨0⟩).heap.AtRest ∧
      (halfStaleHash.interpreter ⟨0⟩).heap.body ⟨0, 0⟩
        = .ok (.hash [([0x6b], ⟨1, 0⟩), ([0x6c], ⟨2, 0⟩)]) ∧
      (halfStaleHash.interpreter ⟨0⟩).heap.contains ⟨2, 1⟩ = true ∧
      (halfStaleHash.guest ⟨0⟩ (·.hashStore ⟨0, 0⟩ [0x6c] ⟨2, 1⟩)).1
        = .error (Handle.stale ⟨2, 0⟩) ∧
      ((halfStaleHash.guest ⟨0⟩ (·.hashStore ⟨0, 0⟩ [0x6c] ⟨2, 1⟩)).2.interpreter ⟨0⟩).heap.body
          ⟨0, 0⟩
        = .ok (.hash [([0x6b], ⟨1, 0⟩), ([0x6c], ⟨2, 1⟩)]) := by
  have hstore : (halfStaleHash.interpreter ⟨0⟩).heap.hashStore ⟨0, 0⟩ [0x6c] ⟨2, 1⟩
      = (.error (Handle.stale ⟨2, 0⟩), (halfStaleHash.interpreter ⟨0⟩).heap.withEntry ⟨0, 0⟩
          [([0x6b], ⟨1, 0⟩), ([0x6c], ⟨2, 0⟩)] [0x6c] ⟨2, 1⟩) := by
    rw [Heap.hashStore_of_old rfl rfl, Heap.unshare_eq, Heap.cascade_of_none rfl]
    rfl
  have hact : ((halfStaleHash.interpreter ⟨0⟩).hashStore ⟨0, 0⟩ [0x6c] ⟨2, 1⟩).2
      = { halfStaleHash.interpreter ⟨0⟩ with
          heap := (halfStaleHash.interpreter ⟨0⟩).heap.withEntry ⟨0, 0⟩
            [([0x6b], ⟨1, 0⟩), ([0x6c], ⟨2, 0⟩)] [0x6c] ⟨2, 1⟩ } :=
    congrArg ({ halfStaleHash.interpreter ⟨0⟩ with heap := ·.2 }) hstore
  refine ⟨atRest_halfStaleHash, rfl, rfl, congrArg Prod.fst hstore, ?_⟩
  rw [guest_of_atRest hact rfl, interpreter_setInterpreter, if_pos rfl]
  rfl

end World

end GuestBridge
