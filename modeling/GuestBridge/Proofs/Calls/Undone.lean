import GuestBridge.Proofs.Calls.Dispatch
import GuestBridge.Proofs.Calls.GivenUp
import GuestBridge.Proofs.Conversion.Fidelity

/-!
# Calls that end before guest code runs

A call across a bridge may end before its sub is found, after any part of its arguments has been
pushed. Then it has done nothing to the guest: the scalars, the stacks and the packages are those
from before the call, and nothing has been reported (`call_undone`).

1. While the arguments are pushed, the heap has grown by what the scalars on the stack read as, and
   by nothing else. `Underway` is this invariant. Each step converts one value, or puts one scalar
   on the stack, or lets go of a value whose scalar is there.
2. Letting go of values stays out of the guest if no boundary object goes with them, which is what
   `Store.GivesUp` is for.
3. Taking the arguments off the stack leaves the temporaries there, so when the scope is closed it
   drops a share of each scalar that was pushed, the last one first. That takes back what has been
   built (`Built.undone`).
-/

namespace GuestBridge

open Value (namesOf)
open Heap (Built Serves)

/-! ## What goes on the way -/

namespace World

/-- The number of scalars freed while positional arguments are pushed. -/
def freesPositional (i : InterpreterId) (config : Config) : List Value → World → Nat
  | [], _ => 0
  | v :: rest, w =>
    w.frees i config v +
      match w.pushConverted i config v with
      | (.error _, _) => 0
      | (.ok (), w) => freesPositional i config rest (w.drop v)

/-- The number of scalars freed while named arguments are pushed. -/
def freesNamed (i : InterpreterId) (config : Config) : List (String × Value) → World → Nat
  | [], _ => 0
  | (key, v) :: rest, w =>
    match w.pushKey i config key with
    | (.error _, _) => 0
    | (.ok (), w) =>
      w.frees i config v +
        match w.pushConverted i config v with
        | (.error _, _) => 0
        | (.ok (), w) => freesNamed i config rest (w.drop v)

/-- The number of scalars freed while a positional array and a named hash are pushed. -/
def freesAll (w : World) (i : InterpreterId) (config : Config) (positional named : ObjectId) :
    Nat :=
  let (items, w) := w.arrayDrain positional
  freesPositional i config items w +
    match pushPositional i config items w with
    | (.error _, _) => 0
    | (.ok _, w) =>
      let (entries, w) := w.hashDrain named
      freesNamed i config entries w

end World

/-- The number of scalars that are freed again while the arguments of a call are prepared. -/
def Callee.frees (b : Bridge) (positional named : ObjectId) (w : World) : Callee → Nat
  | .method _ invocant =>
    match w.pushInvocant b.interpreter b.config invocant with
    | (.error _, _) => 0
    | (.ok (), w) =>
      match w.takeInvocantSlot b.config positional with
      | (.error _, _) => 0
      | (.ok (), w) => w.freesAll b.interpreter b.config positional named
  | .sub _ _ => w.freesAll b.interpreter b.config positional named

/-! ## Operations that come to rest -/

namespace World

variable {w w₀ w₁ : World} {i : InterpreterId} {it : Interpreter}

/-- An operation that has parked no code leaves a heap at rest, and nothing else. -/
theorem guest_of_parked {f : Interpreter → α × Interpreter} (hf : (f (w.interpreter i)).2 = it)
    (hclosure : ∀ body ∈ it.heap.freed.toList, body.closure? = none) :
    (w.guest i f).2 = w.setInterpreter i { it with heap := { it.heap with freed := #[] } } := by
  have hit : (w.setInterpreter i it).interpreter i = it := by simp [interpreter_setInterpreter]
  rw [guest, onInterpreter_eq, hf]
  dsimp only
  rw [settleFreed_eq (by rwa [hit]), hit]
  simp [setInterpreter, Table.set_set]

/-- So does closing a scope whose temporaries are all there. -/
theorem closeScope_of_parked {depth : Nat} (hclose : (w.interpreter i).closeScope depth = ([], it))
    (hclosure : ∀ body ∈ it.heap.freed.toList, body.closure? = none) :
    w.closeScope i depth = w.setInterpreter i { it with heap := { it.heap with freed := #[] } } := by
  have hit : (w.setInterpreter i it).interpreter i = it := by simp [interpreter_setInterpreter]
  rw [closeScope, onInterpreter_eq, hclose]
  show (w.setInterpreter i it).settleFreed i = _
  rw [settleFreed_eq (by rwa [hit]), hit]
  simp [setInterpreter, Table.set_set]

/-! ## Arguments on their way -/

/-- A call is being prepared. From the world `w₀`, in which its scope has been opened, the heap has
grown by what the scalars `hs` read as, and `passed` have been pushed. At most `n` scalars have gone
again on the way. The holds `loose` are still to be let go of. -/
structure Underway (i : InterpreterId) (given : List ObjectId) (w₀ : World) (loose : List ObjectId)
    (n : Nat) (hs passed : List Handle) (w : World) : Prop where
  heap : ∃ hp ts ns, Built (w₀.interpreter i).heap.contains (w₀.interpreter i).heap hp hs ts ns ∧
    hp.freed.size ≤ n ∧ (w.interpreter i).heap = { hp with freed := #[] }
  stack : (w.interpreter i).stack = (w₀.interpreter i).stack.pass passed
  packages : (w.interpreter i).packages = (w₀.interpreter i).packages
  others : ∀ j, j ≠ i → w.interpreter j = w₀.interpreter j
  journal : w.journal = w₀.journal
  fades : w₀.store.Fades w.store
  gives : w.store.GivesUp given loose

variable {given loose loose' : List ObjectId} {n : Nat} {hs hs' passed more ns : List Handle}
variable {ts : List Tree} {h : Handle} {config : Config} {v : Value}

theorem Underway.start (hrest : (w₀.interpreter i).heap.AtRest)
    (hgives : w₀.store.GivesUp given loose) : Underway i given w₀ loose 0 [] [] w₀ where
  heap := by
    refine ⟨_, [], [], .nil _ hrest.toWellFormed, ?_, ?_⟩
    · simp [hrest.freed_eq]
    · exact hrest.setFreed_eq.symm
  stack := by simp
  packages := rfl
  others := fun _ _ => rfl
  journal := rfl
  fades := .refl _
  gives := hgives

/-- The heap is at rest between two steps. -/
theorem Underway.atRest (hunder : Underway i given w₀ loose n hs passed w) :
    (w.interpreter i).heap.AtRest := by
  obtain ⟨hp, ts, ns, hbuilt, -, hheap⟩ := hunder.heap
  rw [hheap]
  exact hbuilt.grown.wellFormed.atRest

/-- What was there is there. -/
theorem Underway.serves (hunder : Underway i given w₀ loose n hs passed w) :
    Serves (w₀.interpreter i).heap.contains (w.interpreter i).heap := by
  obtain ⟨hp, ts, ns, hbuilt, -, hheap⟩ := hunder.heap
  have hserves : Serves (w₀.interpreter i).heap.contains hp :=
    Serves.grown (fun k hk => Heap.contains_iff.1 hk) hbuilt.grown
  rw [hheap]
  exact hserves

/-- No code is among what goes on the way. -/
theorem closure?_of_built {hp hp₁ : Heap} {live : Handle → Bool} (hrest : hp.AtRest)
    (hbuilt : Built live hp hp₁ hs ts ns) : ∀ body ∈ hp₁.freed.toList, body.closure? = none := by
  obtain ⟨gone, hfreed, hgone, -⟩ := hbuilt.grown.parks
  rw [hrest.freed_eq] at hfreed
  rwa [hfreed]

/-- A step that acts on the interpreter: what it builds comes after what has been built, and what it
pushes on top of what has been pushed. -/
theorem Underway.guest {f : Interpreter → α × Interpreter}
    (hunder : Underway i given w₀ loose n hs passed w) (hf : (f (w.interpreter i)).2 = it)
    (hbuilt : Built (w₀.interpreter i).heap.contains (w.interpreter i).heap it.heap hs' ts ns)
    (hstack : it.stack = (w.interpreter i).stack.pass more)
    (hpackages : it.packages = (w.interpreter i).packages) :
    Underway i given w₀ loose (n + it.heap.freed.size) (hs ++ hs') (passed ++ more)
      (w.guest i f).2 := by
  obtain ⟨hp, ts₀, ns₀, hfirst, hsize, hheap⟩ := hunder.heap
  have hclosure := closure?_of_built hunder.atRest hbuilt
  rw [hheap] at hbuilt
  have hboth := hfirst.append (fun k hk => Heap.contains_iff.1 hk) hbuilt.after_taken
  rw [guest_of_parked hf hclosure]
  refine ⟨⟨_, _, _, hboth, ?_, ?_⟩, ?_, ?_, ?_, hunder.journal, hunder.fades, hunder.gives⟩
  · simp only [Array.size_append]
    omega
  · simp [interpreter_setInterpreter]
  · simp [interpreter_setInterpreter, hstack, hunder.stack, ArgumentStack.pass_pass]
  · simp [interpreter_setInterpreter, hpackages, hunder.packages]
  · intro j hj
    rw [interpreter_setInterpreter, if_neg (Ne.symm hj)]
    exact hunder.others j hj

/-- A step that acts on the store. -/
theorem Underway.discards (hunder : Underway i given w₀ loose n hs passed w)
    (hdiscards : Discards given loose' w w₁) : Underway i given w₀ loose' n hs passed w₁ := by
  have hsame : ∀ j, w₁.interpreter j = w.interpreter j := fun j => by rw [hdiscards.eq]; rfl
  have hjournal : w₁.journal = w.journal := by rw [hdiscards.eq]
  constructor
  · rw [hsame]
    exact hunder.heap
  · rw [hsame, hunder.stack]
  · rw [hsame, hunder.packages]
  · intro j hj
    rw [hsame, hunder.others j hj]
  · rw [hjournal, hunder.journal]
  · exact hunder.fades.trans hdiscards.fades
  · exact hdiscards.gives

/-- What a value has built is there. -/
theorem exists_cell_of_built {hp hp₁ : Heap} {live : Handle → Bool} {t : Tree}
    (hserves : Serves live hp) (hbuilt : Built live hp hp₁ [h] [t] ns) :
    ∃ c, hp₁.cell? h = some c := by
  cases hbuilt.reads with
  | scalar _ =>
    obtain ⟨c, hc⟩ := hserves h (hbuilt.live h (by simp [Tree.scalarsOfItems, Tree.scalars]))
    exact ⟨_, hbuilt.grown.exists_cell hc⟩
  | int hc | num hc | str hc | array hc | hash hc => exact ⟨_, hc⟩

/-- A scalar that is there gets onto the stack. -/
theorem Underway.pushTemporary (hunder : Underway i given w₀ loose n hs passed w)
    (hc : ∃ c, (w.interpreter i).heap.cell? h = some c) :
    Underway i given w₀ loose n hs (passed ++ [h]) (w.pushTemporary i h).2 := by
  have hpush : ((w.interpreter i).pushTemporary h).2
      = { w.interpreter i with stack := (w.interpreter i).stack.pass [h] } := by
    rw [Interpreter.pushTemporary, Interpreter.ifLive, if_pos (Heap.contains_iff.2 hc),
      ArgumentStack.push_addTemporary]
  have hnext := hunder.guest (f := (·.pushTemporary h)) hpush
    (.nil _ hunder.atRest.toWellFormed) rfl rfl
  dsimp only at hnext
  rw [hunder.atRest.freed_eq, List.append_nil] at hnext
  rw [pushTemporary_snd]
  exact hnext

/-- What a step has built behind one handle is pushed. -/
theorem Underway.guest_push {f : Interpreter → α × Interpreter} {hp : Heap} {t : Tree}
    (hunder : Underway i given w₀ loose n hs hs w)
    (hf : (f (w.interpreter i)).2 = { w.interpreter i with heap := hp })
    (hbuilt : Built (w₀.interpreter i).heap.contains (w.interpreter i).heap hp [h] [t] ns) :
    Underway i given w₀ loose (n + hp.freed.size) (hs ++ [h]) (hs ++ [h])
      ((w.guest i f).2.pushTemporary i h).2 := by
  have hnext := hunder.guest hf hbuilt (ArgumentStack.pass_nil _).symm rfl
  rw [List.append_nil] at hnext
  refine hnext.pushTemporary ?_
  obtain ⟨c, hc⟩ := exists_cell_of_built hunder.serves hbuilt
  rw [guest_of_parked hf (closure?_of_built hunder.atRest hbuilt), interpreter_setInterpreter,
    if_pos rfl]
  exact ⟨c, hc⟩

/-- A conversion ends in one of two ways while arguments are on their way as well. -/
theorem Underway.convert (hunder : Underway i given w₀ loose n hs hs w)
    (hspared : (w₀.passage i config).Spared (w₀.interpreter i).heap.contains
      (n + w.frees i config v) (w₀.interpreter i).heap) :
    ∃ hp, (w.passage i config).marshal v (w.interpreter i).heap = ((w.convert i config v).1, hp) ∧
      hp.freed.size = w.frees i config v ∧
      (w.passage i config).Outcome (w₀.interpreter i).heap.contains (config.maxDepth + 1) v
        (w.interpreter i).heap ((w.convert i config v).1, hp) := by
  rcases hrun : (w.passage i config).marshal v (w.interpreter i).heap with ⟨result, hp₁⟩
  have hsize : w.frees i config v = hp₁.freed.size := by rw [frees, hrun]
  have hfst : (w.convert i config v).1 = result := by
    rw [World.convert, guest_fst]
    exact congrArg Prod.fst hrun
  have hlater : (w.passage i config).Spared (w₀.interpreter i).heap.contains hp₁.freed.size
      (w.interpreter i).heap := by
    obtain ⟨hp, ts, ns, hbuilt, hle, hheap⟩ := hunder.heap
    intro id k hown hk
    rw [hheap]
    refine hspared.parks hbuilt.grown.parks (by omega) id k ?_ hk
    -- a boundary object that is there was there when the call was made
    unfold Passage.own? at hown ⊢
    split at hown
    · rename_i owner handle hboundary
      rw [show (w₀.passage i config).store.boundary? id = _ from hunder.fades id _ hboundary]
      exact hown
    · cases hown
  rw [hfst]
  exact ⟨hp₁, rfl, hsize.symm, Passage.convert_faithful _ _ _ hrun hunder.atRest.toWellFormed
    hunder.serves (hlater.mono (Nat.sub_le _ _))⟩

/-- A value is converted and its scalar pushed, or its conversion fails and builds nothing. -/
theorem Underway.pushConverted (hunder : Underway i given w₀ loose n hs hs w) (config : Config)
    (v : Value) (hspared : (w₀.passage i config).Spared (w₀.interpreter i).heap.contains
      (n + w.frees i config v) (w₀.interpreter i).heap) :
    ∃ hs', Underway i given w₀ loose (n + w.frees i config v) hs' hs'
      (w.pushConverted i config v).2 := by
  obtain ⟨hp, hrun, hsize, houtcome⟩ := hunder.convert hspared
  have hf : ((w.interpreter i).onHeap ((w.passage i config).marshal v)).2
      = { w.interpreter i with heap := hp } := by rw [Interpreter.onHeap, hrun]
  rw [← hsize]
  rcases hconvert : w.convert i config v with ⟨e | h, w₁⟩
  · have hw₁ : (w.guest i (·.onHeap ((w.passage i config).marshal v))).2 = w₁ :=
      congrArg Prod.snd hconvert
    rw [hconvert] at houtcome
    cases houtcome with
    | failed _ hgrown =>
      have hnothing : Built (w₀.interpreter i).heap.contains (w.interpreter i).heap hp [] [] [] :=
        ⟨hgrown, .nil, by simp [Tree.scalarsOfItems]⟩
      have hnext := hunder.guest (f := (·.onHeap ((w.passage i config).marshal v))) hf hnothing
        (ArgumentStack.pass_nil _).symm rfl
      rw [List.append_nil, hw₁] at hnext
      refine ⟨hs, ?_⟩
      rw [World.pushConverted, hconvert]
      exact hnext
  · have hw₁ : (w.guest i (·.onHeap ((w.passage i config).marshal v))).2 = w₁ :=
      congrArg Prod.snd hconvert
    rw [hconvert] at houtcome
    cases houtcome with
    | made _ _ hbuilt =>
      have hnext := hunder.guest_push (f := (·.onHeap ((w.passage i config).marshal v))) hf hbuilt
      rw [hw₁] at hnext
      refine ⟨hs ++ [h], ?_⟩
      rw [World.pushConverted, hconvert]
      exact hnext

/-- A new string is built by itself. -/
theorem built_str {hp : Heap} (hwf : hp.WellFormed) (live : Handle → Bool) (bytes : Bytes) :
    Built live hp (hp.allocate (.str bytes)).2 [(hp.allocate (.str bytes)).1] [.str bytes]
      [(hp.allocate (.str bytes)).1] := by
  refine ⟨.allocate hwf _, .str ?_ .nil, by simp [Tree.scalarsOfItems, Tree.scalars]⟩
  rw [hwf.cell?_allocate, if_pos rfl]

/-- A new string is pushed. -/
theorem Underway.guest_push_str {f : Interpreter → α × Interpreter} {bytes : Bytes}
    (hunder : Underway i given w₀ loose n hs hs w)
    (hf : (f (w.interpreter i)).2
      = { w.interpreter i with heap := ((w.interpreter i).heap.allocate (.str bytes)).2 }) :
    ∃ hs', Underway i given w₀ loose n hs' hs'
      ((w.guest i f).2.pushTemporary i ((w.interpreter i).heap.allocate (.str bytes)).1).2 := by
  have hnext := hunder.guest_push hf (built_str hunder.atRest.toWellFormed _ bytes)
  rw [Heap.freed_allocate, hunder.atRest.freed_eq] at hnext
  exact ⟨_, hnext⟩

theorem Underway.pushKey (hunder : Underway i given w₀ loose n hs hs w) (config : Config)
    (key : String) : ∃ hs', Underway i given w₀ loose n hs' hs' (w.pushKey i config key).2 := by
  rw [World.pushKey]
  dsimp only
  rw [guest_fst]
  exact hunder.guest_push_str rfl

/-- The name of a package is converted without a look at boundary objects. -/
theorem Underway.pushName (hunder : Underway i given w₀ loose n hs hs w) (config : Config)
    (name : String) :
    ∃ hs', Underway i given w₀ loose n hs' hs' (w.pushConverted i config (.text name)).2 := by
  have hconvert : w.convert i config (.text name) =
      (.ok ((w.interpreter i).heap.allocate
          (.str ((w.passage i config).bytesOf name))).1,
        (w.guest i (·.onHeap ((w.passage i config).marshal (.text name)))).2) :=
    Prod.ext (w.guest_fst i _) rfl
  rw [World.pushConverted, hconvert]
  exact hunder.guest_push_str rfl

theorem Underway.pushPositional (vs : List Value)
    (hunder : Underway i given w₀ (namesOf vs ++ loose) n hs hs w)
    (hspared : (w₀.passage i config).Spared (w₀.interpreter i).heap.contains
      (n + freesPositional i config vs w) (w₀.interpreter i).heap) :
    ∃ hs', Underway i given w₀ loose (n + freesPositional i config vs w) hs' hs'
      (World.pushPositional i config vs w).2 := by
  induction vs generalizing w n hs with
  | nil => exact ⟨hs, hunder⟩
  | cons v rest ih =>
    rw [freesPositional] at hspared ⊢
    rw [World.pushPositional]
    obtain ⟨hs₁, hfirst⟩ := hunder.pushConverted config v (hspared.mono (by omega))
    rcases hrun : w.pushConverted i config v with ⟨e | ⟨⟩, w₁⟩
    · rw [hrun] at hfirst
      exact ⟨hs₁, hfirst.discards (discards_dropEach hfirst.gives)⟩
    · rw [hrun] at hfirst hspared
      dsimp only at hfirst hspared ⊢
      have hdropped := hfirst.discards (discards_drop (by
        rw [← List.append_assoc, ← Value.namesOf_append]
        exact hfirst.gives))
      rw [← Nat.add_assoc] at hspared ⊢
      obtain ⟨hs₂, hnext⟩ := ih hdropped hspared
      refine ⟨hs₂, ?_⟩
      split <;> (rename_i heq; rw [heq] at hnext; exact hnext)

theorem Underway.pushNamed (pairs : List (String × Value))
    (hunder : Underway i given w₀ (namesOf (pairs.map (·.2)) ++ loose) n hs hs w)
    (hspared : (w₀.passage i config).Spared (w₀.interpreter i).heap.contains
      (n + freesNamed i config pairs w) (w₀.interpreter i).heap) :
    ∃ hs', Underway i given w₀ loose (n + freesNamed i config pairs w) hs' hs'
      (World.pushNamed i config pairs w).2 := by
  induction pairs generalizing w n hs with
  | nil => exact ⟨hs, hunder⟩
  | cons pair rest ih =>
    obtain ⟨key, v⟩ := pair
    rw [freesNamed] at hspared ⊢
    rw [World.pushNamed]
    obtain ⟨hs₁, hkey⟩ := hunder.pushKey config key
    rcases hrun : w.pushKey i config key with ⟨e | ⟨⟩, w₁⟩
    · rw [hrun] at hkey
      exact ⟨hs₁, hkey.discards (discards_dropEach hkey.gives)⟩
    · rw [hrun] at hkey hspared
      dsimp only at hkey hspared ⊢
      obtain ⟨hs₂, hvalue⟩ := hkey.pushConverted config v (hspared.mono (by omega))
      rcases hrun' : w₁.pushConverted i config v with ⟨e | ⟨⟩, w₂⟩
      · rw [hrun'] at hvalue
        exact ⟨hs₂, hvalue.discards (discards_dropEach hvalue.gives)⟩
      · rw [hrun'] at hvalue hspared
        dsimp only at hvalue hspared ⊢
        have hdropped := hvalue.discards (discards_drop (by
          rw [← List.append_assoc, ← Value.namesOf_append]
          exact hvalue.gives))
        rw [← Nat.add_assoc] at hspared ⊢
        obtain ⟨hs₃, hnext⟩ := ih hdropped hspared
        refine ⟨hs₃, ?_⟩
        split <;> (rename_i heq; rw [heq] at hnext; exact hnext)

variable {positional named : ObjectId}

/-- Both collections are emptied and let go of. -/
theorem Underway.pushAll (hunder : Underway i given w₀ [] n hs hs w)
    (hpositional : positional ∈ given) (hnamed : named ∈ given)
    (hspared : (w₀.passage i config).Spared (w₀.interpreter i).heap.contains
      (n + w.freesAll i config positional named) (w₀.interpreter i).heap) :
    ∃ hs', Underway i given w₀ [] (n + w.freesAll i config positional named) hs' hs'
      (w.pushAll i config positional named).2 := by
  have hids : ∀ id ∈ [named, positional], id ∈ given := by
    simp [hpositional, hnamed]
  have hitems := hunder.discards (discards_arrayDrain hunder.gives hpositional)
  unfold freesAll at hspared ⊢
  unfold World.pushAll
  dsimp only at hspared ⊢
  obtain ⟨hs₁, hfirst⟩ := hitems.pushPositional _ (hspared.mono (by omega))
  rcases hrun : World.pushPositional i config (w.arrayDrain positional).1
    (w.arrayDrain positional).2 with ⟨e | count, w₁⟩
  · rw [hrun] at hfirst
    exact ⟨hs₁, hfirst.discards (discards_dropObjects hfirst.gives hids)⟩
  · rw [hrun] at hfirst hspared
    dsimp only at hfirst hspared ⊢
    have hentries := hfirst.discards (discards_hashDrain hfirst.gives hnamed)
    rw [← Nat.add_assoc] at hspared ⊢
    obtain ⟨hs₂, hnext⟩ := hentries.pushNamed _ hspared
    refine ⟨hs₂, ?_⟩
    split <;>
      (rename_i heq
       rw [heq] at hnext
       exact hnext.discards (discards_dropObjects hnext.gives hids))

/-- A scalar that is there is built out of nothing but a share. -/
theorem built_share {hp : Heap} {c : Cell} (hwf : hp.WellFormed) (hc : hp.cell? h = some c) :
    Built hp.contains hp (hp.share h).2 [h] [.scalar h] [] := by
  refine ⟨.share hwf hc, .scalar .nil, ?_⟩
  intro k hk
  obtain rfl : k = h := by simpa [Tree.scalarsOfItems, Tree.scalars] using hk
  exact Heap.contains_iff.2 ⟨c, hc⟩

/-- The receiver comes first, so its scalar was there when the call was made or is new. -/
theorem Underway.pushInvocant (hrest : (w₀.interpreter i).heap.AtRest)
    (hgives : w₀.store.GivesUp given []) (config : Config) (invocant : Invocant) :
    ∃ hs', Underway i given w₀ [] 0 hs' hs' (w₀.pushInvocant i config invocant).2 := by
  have hstart := Underway.start hrest hgives
  match invocant with
  | .namespace name => exact hstart.pushName config name
  | .scalar h =>
    rw [World.pushInvocant]
    cases hc : (w₀.interpreter i).heap.cell? h with
    | none =>
      have hstale : (w₀.interpreter i).share h = (.error h.stale, w₀.interpreter i) := by
        rw [Interpreter.share, Interpreter.onHeap, Heap.share_eq_of_none hc]
      have hnext := hstart.guest (f := (·.share h)) (congrArg Prod.snd hstale)
        (.nil _ hrest.toWellFormed) (ArgumentStack.pass_nil _).symm rfl
      have hrun : w₀.guest i (·.share h) = (.error h.stale, (w₀.guest i (·.share h)).2) :=
        Prod.ext (by rw [guest_fst, hstale]) rfl
      rw [hrest.freed_eq] at hnext
      rw [hrun]
      exact ⟨[], hnext⟩
    | some c =>
      have hshare : ((w₀.interpreter i).share h).2
          = { w₀.interpreter i with heap := ((w₀.interpreter i).heap.share h).2 } := rfl
      have hnext := hstart.guest_push (f := (·.share h)) hshare
        (built_share hrest.toWellFormed hc)
      have hrun : w₀.guest i (·.share h) = (.ok (c.shares + 1), (w₀.guest i (·.share h)).2) := by
        refine Prod.ext ?_ rfl
        rw [guest_fst, Interpreter.share, Interpreter.onHeap, Heap.share_eq_of_cell? hc]
      rw [Heap.freed_share, hrest.freed_eq] at hnext
      rw [hrun]
      exact ⟨_, hnext⟩

/-- The slot of the receiver is let go of. -/
theorem Underway.takeInvocantSlot (hunder : Underway i given w₀ [] n hs hs w)
    (hpositional : positional ∈ given) (config : Config) :
    Underway i given w₀ [] n hs hs (w.takeInvocantSlot config positional).2 := by
  unfold World.takeInvocantSlot arrayShift
  cases hitems : w.store.items positional with
  | nil => exact hunder
  | cons v rest =>
    have htaken := hunder.discards (discards_setItems hunder.gives hpositional
      (show _ = [v] ++ rest from hitems))
    exact htaken.discards (discards_drop htaken.gives)

/-! ## Taking it back -/

/-- The guest is as it was: each scalar with its body, its shares and its blessing, each stack with
its values, marks, temporaries and scopes, and the packages. Nothing has been reported. -/
structure SameGuest (w w₁ : World) : Prop where
  cell?_eq : ∀ i k, (w₁.interpreter i).heap.cell? k = (w.interpreter i).heap.cell? k
  stack_eq : ∀ i, (w₁.interpreter i).stack = (w.interpreter i).stack
  packages_eq : ∀ i, (w₁.interpreter i).packages = (w.interpreter i).packages
  journal_eq : w₁.journal = w.journal

theorem SameGuest.discards {w₂ : World} (hsame : SameGuest w w₁)
    (hdiscards : Discards given loose w₁ w₂) : SameGuest w w₂ := by
  rw [hdiscards.eq]
  exact ⟨hsame.cell?_eq, hsame.stack_eq, hsame.packages_eq, hsame.journal_eq⟩

theorem SameGuest.tally (hsame : SameGuest w w₁) (b : Bridge) (kind : EventKind)
    (detail : String) (result : Except CrossingError α) :
    SameGuest w (w₁.tally b kind detail result) := by
  cases result <;> exact ⟨hsame.cell?_eq, hsame.stack_eq, hsame.packages_eq, hsame.journal_eq⟩

/-- One interpreter is put back, and the others have not changed. -/
theorem sameGuest_setInterpreter (hothers : ∀ j, j ≠ i → w₁.interpreter j = w.interpreter j)
    (hcell : ∀ k, it.heap.cell? k = (w.interpreter i).heap.cell? k)
    (hstack : it.stack = (w.interpreter i).stack)
    (hpackages : it.packages = (w.interpreter i).packages) (hjournal : w₁.journal = w.journal) :
    SameGuest w (w₁.setInterpreter i it) := by
  have hsplit : ∀ j, i = j ∧ (w₁.setInterpreter i it).interpreter j = it ∨
      (w₁.setInterpreter i it).interpreter j = w.interpreter j := by
    intro j
    rw [interpreter_setInterpreter]
    split
    · rename_i hij
      exact .inl ⟨hij, rfl⟩
    · rename_i hij
      exact .inr (hothers j (Ne.symm hij))
  refine ⟨fun j k => ?_, fun j => ?_, fun j => ?_, hjournal⟩
  · obtain ⟨rfl, hj⟩ | hj := hsplit j
    · rw [hj, hcell]
    · rw [hj]
  · obtain ⟨rfl, hj⟩ | hj := hsplit j
    · rw [hj, hstack]
    · rw [hj]
  · obtain ⟨rfl, hj⟩ | hj := hsplit j
    · rw [hj, hpackages]
    · rw [hj]

/-- Opening the scope of a call touches the stack alone. -/
theorem opened_eq (hrest : (w.interpreter i).heap.AtRest) :
    w.opened i = w.setInterpreter i
      { w.interpreter i with stack := (w.interpreter i).stack.openScope.mark } := by
  have hclosure : ∀ body ∈ (w.interpreter i).heap.freed.toList, body.closure? = none := by
    simp [hrest.freed_eq]
  have hopen : (w.guest i (·.openScope)).2 = w.setInterpreter i
      { w.interpreter i with stack := (w.interpreter i).stack.openScope } := by
    rw [guest_of_parked (f := (·.openScope)) rfl hclosure]
    simp only [Interpreter.openScope, hrest.setFreed_eq]
  have hit : (w.setInterpreter i
      { w.interpreter i with stack := (w.interpreter i).stack.openScope }).interpreter i
        = { w.interpreter i with stack := (w.interpreter i).stack.openScope } := by
    simp [interpreter_setInterpreter]
  rw [World.opened, hopen, guest_of_parked (f := fun it => ((), it.mark)) rfl (by rwa [hit]), hit]
  simp only [Interpreter.mark, hrest.setFreed_eq, setInterpreter, Table.set_set]

/-- Once the arguments are on the stack, or have been taken off it again, the scope is closed. Then
the guest is as it was before the call. -/
theorem Underway.closeScope {s : ArgumentStack} (hrest : (w₀.interpreter i).heap.AtRest)
    (hunder : Underway i given (w₀.opened i) [] n hs hs w)
    (hw₁ : w₁.interpreter i = { w.interpreter i with stack := s })
    (hothers : ∀ j, j ≠ i → w₁.interpreter j = w.interpreter j)
    (hjournal : w₁.journal = w.journal)
    (hclose : s.closeScope ((w₀.interpreter i).stack.scopes.length + 1)
      = (hs.reverse, (w₀.interpreter i).stack)) :
    SameGuest w₀ (w₁.closeScope i ((w₀.interpreter i).stack.scopes.length + 1)) ∧
      (w₁.closeScope i ((w₀.interpreter i).stack.scopes.length + 1)).store = w₁.store := by
  have hopened := opened_eq hrest
  have hbefore : ((w₀.opened i).interpreter i).heap = (w₀.interpreter i).heap := by
    rw [hopened, interpreter_setInterpreter, if_pos rfl]
  have houtside : ∀ j, j ≠ i → w₁.interpreter j = w₀.interpreter j := by
    intro j hj
    rw [hothers j hj, hunder.others j hj, hopened, interpreter_setInterpreter,
      if_neg (Ne.symm hj)]
  have hpackages : (w.interpreter i).packages = (w₀.interpreter i).packages := by
    rw [hunder.packages, hopened, interpreter_setInterpreter, if_pos rfl]
  obtain ⟨hp, ts, ns, hbuilt, -, hheap⟩ := hunder.heap
  rw [hbefore] at hbuilt
  obtain ⟨hp₁, hdrop, hwf, hsame, hclosure⟩ := hbuilt.undone hrest.toWellFormed
  rw [← hheap] at hdrop
  have hrun : (w₁.interpreter i).closeScope ((w₀.interpreter i).stack.scopes.length + 1)
      = ([], { w.interpreter i with heap := hp₁, stack := (w₀.interpreter i).stack }) := by
    simp only [hw₁, Interpreter.closeScope, hclose, hdrop]
  rw [closeScope_of_parked hrun hclosure]
  refine ⟨sameGuest_setInterpreter houtside hsame rfl hpackages ?_, rfl⟩
  rw [hjournal, hunder.journal, hopened]
  rfl

end World

/-! ## Calls that end early -/

section

variable {κ : Type} {m m' : Machine κ} {b : Bridge} {positional named : ObjectId} {x : Callee}
variable {given held : List ObjectId} {w : World} {i : InterpreterId}
variable {e : CrossingError} {result : Except CrossingError ObjectId}

open World (Underway SameGuest)

/-- The arguments of a call are on the stack, as far as it came. Collections that were not pushed
are still the caller's. -/
theorem Callee.underway (hrest : (w.interpreter b.interpreter).heap.AtRest)
    (hgives : w.store.GivesUp given []) (hpositional : positional ∈ given) (hnamed : named ∈ given)
    (hspared : (w.passage b.interpreter b.config).Spared
      (w.interpreter b.interpreter).heap.contains (x.frees b positional named w)
      (w.interpreter b.interpreter).heap) :
    ∃ n hs, Underway b.interpreter given w [] n hs hs (x.prepare b positional named w).2 ∧
      ∀ id ∈ (x.prepare b positional named w).1.2, id ∈ given := by
  have hids : ∀ id ∈ [named, positional], id ∈ given := by simp [hpositional, hnamed]
  cases x with
  | sub target mode =>
    have hstart := Underway.start hrest hgives
    obtain ⟨hs, hpushed⟩ := hstart.pushAll hpositional hnamed (by rwa [Nat.zero_add])
    exact ⟨_, hs, hpushed, by simp [prepare, World.prepareSub]⟩
  | method name invocant =>
    obtain ⟨hs, hfirst⟩ := Underway.pushInvocant hrest hgives b.config invocant
    rw [frees] at hspared
    rw [prepare, World.prepareMethod]
    rcases hrun : w.pushInvocant b.interpreter b.config invocant with ⟨e | ⟨⟩, w₁⟩
    · rw [hrun] at hfirst
      exact ⟨0, hs, hfirst, hids⟩
    · rw [hrun] at hfirst hspared
      dsimp only at hfirst hspared ⊢
      have hslot := hfirst.takeInvocantSlot hpositional b.config
      rcases hrun' : w₁.takeInvocantSlot b.config positional with ⟨e | ⟨⟩, w₂⟩
      · rw [hrun'] at hslot
        exact ⟨0, hs, hslot, hids⟩
      · rw [hrun'] at hslot hspared
        dsimp only at hslot hspared ⊢
        obtain ⟨hs', hpushed⟩ := hslot.pushAll hpositional hnamed (by rwa [Nat.zero_add])
        exact ⟨_, hs', hpushed, by simp [World.prepareSub]⟩

/-- The same in the scope that a call opens. -/
theorem Callee.underway_opened (hrest : (w.interpreter b.interpreter).heap.AtRest)
    (hgives : w.store.GivesUp given []) (hpositional : positional ∈ given) (hnamed : named ∈ given)
    (hspared : (w.passage b.interpreter b.config).Spared
      (w.interpreter b.interpreter).heap.contains
      (x.frees b positional named (w.opened b.interpreter)) (w.interpreter b.interpreter).heap) :
    ∃ n hs, Underway b.interpreter given (w.opened b.interpreter) [] n hs hs
        (x.prepare b positional named (w.opened b.interpreter)).2 ∧
      ((x.prepare b positional named (w.opened b.interpreter)).2.interpreter b.interpreter).stack
        = (w.interpreter b.interpreter).stack.openScope.mark.pass hs ∧
      ∀ id ∈ (x.prepare b positional named (w.opened b.interpreter)).1.2, id ∈ given := by
  have hopened := World.opened_eq hrest
  have hinterpreter : (w.opened b.interpreter).interpreter b.interpreter
      = { w.interpreter b.interpreter with
          stack := (w.interpreter b.interpreter).stack.openScope.mark } := by
    rw [hopened, World.interpreter_setInterpreter, if_pos rfl]
  have hstore : (w.opened b.interpreter).store = w.store := by
    rw [hopened]
    rfl
  have hpassage : (w.opened b.interpreter).passage b.interpreter b.config
      = w.passage b.interpreter b.config := by
    rw [World.passage, hstore, World.passage]
  obtain ⟨n, hs, hunder, hheld⟩ := Callee.underway (w := w.opened b.interpreter)
    (by rwa [hinterpreter]) (by rwa [hstore]) hpositional hnamed (by rwa [hpassage, hinterpreter])
  refine ⟨n, hs, hunder, ?_, hheld⟩
  rw [hunder.stack, hinterpreter]

/-- Looking for the sub takes the arguments off the stack, whether there is a sub or not. -/
theorem Callee.guest_take (x : Callee) (hrest : (w.interpreter i).heap.AtRest) :
    (w.guest i x.take).2 = w.setInterpreter i
      { w.interpreter i with stack := (w.interpreter i).stack.takeArguments.2 } := by
  have htake : (x.take (w.interpreter i)).2
      = { w.interpreter i with stack := (w.interpreter i).stack.takeArguments.2 } := by
    cases x with
    | method name _ => exact (w.interpreter i).takeMethodCall_snd name
    | sub target _ => exact (w.interpreter i).takeSubCall_snd target
  rw [World.guest_of_parked htake (by simp [hrest.freed_eq])]
  simp only [hrest.setFreed_eq]

/-- The end of a call that ended early. -/
theorem Machine.sameGuest_closeAcross {depth : Nat} {detail : String}
    (hclosed : SameGuest w (m.world.closeScope b.interpreter depth) ∧
      (m.world.closeScope b.interpreter depth).store = m.world.store)
    (hgives : m.world.store.GivesUp given []) (hheld : ∀ id ∈ held, id ∈ given) :
    SameGuest w (m.closeAcross b detail depth held result).world := by
  obtain ⟨hsame, hstore⟩ := hclosed
  rw [← hstore] at hgives
  exact (hsame.discards (World.discards_dropObjects hgives hheld)).tally b .call detail result

/-- Whatever ends a call before its sub is found, the guest is as it was. -/
theorem Callee.sameGuest_startAcross
    (hrest : (m.world.interpreter b.interpreter).heap.AtRest)
    (hgives : m.world.store.GivesUp given []) (hpositional : positional ∈ given)
    (hnamed : named ∈ given)
    (hspared : (m.world.passage b.interpreter b.config).Spared
      (m.world.interpreter b.interpreter).heap.contains
      (x.frees b positional named (m.world.opened b.interpreter))
      (m.world.interpreter b.interpreter).heap)
    (hstart : m.startAcross b (x.prepare b positional named) x.take x.detail = (.error e, m')) :
    SameGuest m.world m'.world := by
  obtain ⟨n, hs, hunder, hstack, hheld⟩ := x.underway_opened hrest hgives hpositional hnamed hspared
  rcases hprepare : x.prepare b positional named (m.world.opened b.interpreter) with
    ⟨⟨ready, held⟩, w⟩
  rw [hprepare] at hunder hstack hheld
  rw [Machine.startAcross, Machine.openAcross_eq hprepare] at hstart
  cases ready with
  | error e' =>
    -- the arguments are on the stack, as far as it came
    obtain ⟨-, rfl⟩ := Prod.mk.inj hstart
    have hclose := (m.world.interpreter b.interpreter).stack.closeScope_pass hs
    rw [← hstack] at hclose
    exact Machine.sameGuest_closeAcross
      (hunder.closeScope hrest rfl (fun _ _ => rfl) rfl hclose) hunder.gives hheld
  | ok ready =>
    -- they have been taken off again, and the temporaries are still there
    have hclose := (m.world.interpreter b.interpreter).stack.closeScope_takeArguments hs
    rw [← hstack] at hclose
    have hguest := x.guest_take hunder.atRest
    dsimp only at hstart hguest
    rcases hrun : w.guest b.interpreter x.take with ⟨fault | ⟨found, args⟩, w₁⟩
    · rw [hrun] at hguest
      have hw₁ : w₁.interpreter b.interpreter = { w.interpreter b.interpreter with
          stack := (w.interpreter b.interpreter).stack.takeArguments.2 } := by
        rw [show w₁ = _ from hguest, World.interpreter_setInterpreter, if_pos rfl]
      have hothers : ∀ j, j ≠ b.interpreter → w₁.interpreter j = w.interpreter j := by
        intro j hj
        rw [show w₁ = _ from hguest, World.interpreter_setInterpreter, if_neg (Ne.symm hj)]
      have hgives₁ : w₁.store.GivesUp given [] := by
        rw [show w₁ = _ from hguest]
        exact hunder.gives
      simp only [Machine.startCall, Machine.onWorld, hrun] at hstart
      obtain ⟨-, rfl⟩ := Prod.mk.inj hstart
      exact Machine.sameGuest_closeAcross
        (hunder.closeScope hrest hw₁ hothers (by rw [show w₁ = _ from hguest]; rfl) hclose)
        hgives₁ hheld
    · simp only [Machine.startCall, Machine.onWorld, hrun] at hstart
      cases (Prod.mk.inj hstart).1

/-- A call ends without guest code just when its arguments cannot be prepared or its sub cannot be
found. -/
theorem Callee.ends_early_iff :
    (∃ ended, x.perform (fun _ _ _ _ => none) b positional named m = some ended) ↔
      (∃ e, (x.prepare b positional named (m.world.opened b.interpreter)).1.1 = .error e) ∨
      ∃ fault, (x.take ((x.prepare b positional named
        (m.world.opened b.interpreter)).2.interpreter b.interpreter)).1 = .error fault := by
  rcases hprepare : x.prepare b positional named (m.world.opened b.interpreter) with
    ⟨⟨e | ready, held⟩, w⟩
  · rw [Callee.perform_eq, Machine.callAcross_eq, Machine.startAcross,
      Machine.openAcross_eq hprepare]
    simp
  · rw [Callee.perform_eq, Machine.callAcross_eq, Machine.startAcross,
      Machine.openAcross_eq hprepare]
    have hfst := w.guest_fst b.interpreter x.take
    rcases hrun : w.guest b.interpreter x.take with ⟨fault | ⟨found, args⟩, w₁⟩
    · rw [hrun] at hfst
      simp [Machine.startCall, Machine.onWorld, hrun, ← hfst]
    · rw [hrun] at hfst
      simp [Machine.startCall, Machine.onWorld, hrun, ← hfst]

/-- How a call ends for which no guest code has been run: it fails, whatever runs guest code, and it
has changed nothing in the guest. -/
structure Callee.Undone (x : Callee) (b : Bridge) (positional named : ObjectId) (m : Machine κ)
    (result : Except CrossingError ObjectId) (m' : Machine κ) : Prop where
  failed : ∃ e, result = .error e
  ends : ∀ invoke : Invoke κ, x.perform invoke b positional named m = some (result, m')
  same : SameGuest m.world m'.world

theorem Callee.undone
    (hrest : (m.world.interpreter b.interpreter).heap.AtRest)
    (hgives : m.world.store.GivesUp given []) (hpositional : positional ∈ given)
    (hnamed : named ∈ given)
    (hspared : (m.world.passage b.interpreter b.config).Spared
      (m.world.interpreter b.interpreter).heap.contains
      (x.frees b positional named (m.world.opened b.interpreter))
      (m.world.interpreter b.interpreter).heap)
    (hrun : x.perform (fun _ _ _ _ => none) b positional named m = some (result, m')) :
    x.Undone b positional named m result m' := by
  rw [Callee.perform_eq, Machine.callAcross_eq] at hrun
  rcases hstart : m.startAcross b (x.prepare b positional named) x.take x.detail with
    ⟨e | ⟨l, args⟩, m₁⟩
  · rw [hstart] at hrun
    obtain ⟨rfl, rfl⟩ := Prod.mk.inj (Option.some.inj hrun)
    refine ⟨⟨e, rfl⟩, ?_, Callee.sameGuest_startAcross hrest hgives hpositional hnamed hspared
      hstart⟩
    intro invoke
    rw [Callee.perform_eq, Machine.callAcross_eq, hstart]
  · rw [hstart] at hrun
    cases hrun

/-- A call that ends although no guest code can be run ends the same way whatever runs guest code,
and it fails. Then it has changed nothing in the guest.

The heap is at rest, as it is between two operations. `given` lists the collections of arguments
and what else may go with them, no boundary object among them: each of those has a holder that is
not in the list. No stale handle in a boundary object comes to fit a new scalar because its slot has
been emptied too often on the way; an array could take a share of itself then, and outlive the
call. In a run this cannot happen before a slot has been emptied `2 ^ 32` times
(`World.Logged.spared`). -/
theorem call_undone
    (hrest : (m.world.interpreter b.interpreter).heap.AtRest)
    (hgives : m.world.store.GivesUp given []) (hpositional : positional ∈ given)
    (hnamed : named ∈ given)
    (hspared : (m.world.passage b.interpreter b.config).Spared
      (m.world.interpreter b.interpreter).heap.contains
      (x.frees b positional named (m.world.opened b.interpreter))
      (m.world.interpreter b.interpreter).heap)
    (hrun : x.perform (fun _ _ _ _ => none) b positional named m = some (result, m')) :
    (∃ e, result = .error e) ∧
      (∀ invoke : Invoke κ, x.perform invoke b positional named m = some (result, m')) ∧
      SameGuest m.world m'.world := by
  have hundone := Callee.undone hrest hgives hpositional hnamed hspared hrun
  exact ⟨hundone.failed, hundone.ends, hundone.same⟩

/-- A scalar with a boundary object over it, which is an element of an array, of an array in that
array and of a hash, and has a holder elsewhere. -/
def halfway : World where
  interpreters := ({} : Table Interpreter).set 1 { heap := (({} : Heap).allocate (.int 7)).2 }
  store := {
    holdings := #[some ⟨4, .boundary ⟨1⟩ ⟨0, 0⟩⟩,
      some ⟨1, .array [.text "a", .boundary ⟨0⟩]⟩,
      some ⟨1, .array [.text "slot", .boundary ⟨0⟩, .array ⟨1⟩, .undef]⟩,
      some ⟨1, .hash [("k", .boundary ⟨0⟩)]⟩] }

/-- A method call on the scalar. -/
def refused : Callee := .method "m" (.scalar ⟨0, 0⟩)

/-- The receiver, the first argument and the array were on the stack when the call failed. -/
theorem call_undone_halfway :
    ∃ m', refused.perform (fun _ _ _ _ => none) greetingBridge ⟨2⟩ ⟨3⟩
        ({ world := halfway } : Machine Unit)
          = some (.error (.unsupportedConversion "Undef"), m') ∧
      SameGuest halfway m'.world := by
  have hrest : (halfway.interpreter greetingBridge.interpreter).heap.AtRest :=
    ⟨Heap.wellFormed_empty.allocate (.int 7), rfl⟩
  have hgives : halfway.store.GivesUp [⟨1⟩, ⟨2⟩, ⟨3⟩] [] := by
    refine ⟨by decide, by decide +kernel, ?_⟩
    rintro ⟨_ | _ | _ | _ | n⟩ h hid hh -
    · cases hh
      decide +kernel
    · simp at hid
    · simp at hid
    · simp at hid
    · cases hh
  have hspared : (halfway.passage greetingBridge.interpreter greetingBridge.config).Spared
      (halfway.interpreter greetingBridge.interpreter).heap.contains
      (refused.frees greetingBridge ⟨2⟩ ⟨3⟩ (halfway.opened greetingBridge.interpreter))
      (halfway.interpreter greetingBridge.interpreter).heap := by
    rintro ⟨_ | _ | _ | _ | n⟩ k hown hk
    · cases hown
      exact absurd hk (by decide +kernel)
    all_goals cases hown
  have hended : (refused.perform (fun _ _ _ _ => none) greetingBridge ⟨2⟩ ⟨3⟩
      ({ world := halfway } : Machine Unit)).map (·.1)
        = some (.error (.unsupportedConversion "Undef")) := by decide +kernel
  obtain ⟨⟨result, m'⟩, hrun, rfl⟩ := Option.map_eq_some_iff.1 hended
  obtain ⟨-, -, hsame⟩ := call_undone (m := ({ world := halfway } : Machine Unit))
    (b := greetingBridge) (x := refused) hrest hgives (by decide) (by decide) hspared hrun
  exact ⟨m', hrun, hsame⟩

end

end GuestBridge
