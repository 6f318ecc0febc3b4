import GuestBridge.Proofs.Calls.Temporaries
import GuestBridge.Proofs.Calls.Undone
import GuestBridge.Proofs.Cascade.Freeing

/-!
# Leaving a scope with a frame in it

The arguments of a call are temporaries of the innermost scope, on top of whatever temporaries there
were. Closing a scope drops a share of each of its temporaries, newest first.

1. So the arguments come first, and those drops take back what the arguments have built
   (`Heap.Built.undone`).
2. The heap need not be the one from before then: slots have been filled and emptied again, and
   their generations have gone on. But the scalars are the same, and that is all that the drops of
   the other temporaries look at (`Heap.unshareEach_congr`).

Closing any open scope comes to the same as without the arguments (`Interpreter.closeScope_built`).
-/

namespace GuestBridge

/-! ## Heaps with the same scalars -/

namespace Heap

variable {hp hp' hp₁ : Heap} {live : Handle → Bool} {hs ns : List Handle} {ts : List Tree}

/-- Drops look at nothing but scalars. -/
theorem cascade_congr (pending : List Handle) (hp : Heap) :
    ∀ {hp' : Heap}, (∀ k, hp'.cell? k = hp.cell? k) →
      (cascade pending hp').1 = (cascade pending hp).1 ∧
        ∀ k, (cascade pending hp').2.cell? k = (cascade pending hp).2.cell? k := by
  fun_induction cascade pending hp with
  | case1 hp =>
    intro hp' hsame
    rw [cascade_nil]
    exact ⟨rfl, hsame⟩
  | case2 hp h rest hc =>
    intro hp' hsame
    rw [cascade_of_none ((hsame h).trans hc)]
    exact ⟨rfl, hsame⟩
  | case3 hp h rest c hc hleft ih =>
    intro hp' hsame
    have hc' := (hsame h).trans hc
    rw [cascade_of_last hc' hleft]
    refine ih fun k => ?_
    rw [cell?_vacate_eq hc', cell?_vacate_eq hc, hsame]
  | case4 hp h rest c hc hleft ih =>
    intro hp' hsame
    have hc' := (hsame h).trans hc
    rw [cascade_of_left hc' hleft]
    refine ih fun k => ?_
    rw [cell?_setCell hc', cell?_setCell hc, hsame]

theorem unshare_congr (hsame : ∀ k, hp'.cell? k = hp.cell? k) (h : Handle) :
    (hp'.unshare h).1 = (hp.unshare h).1 ∧
      ∀ k, (hp'.unshare h).2.cell? k = (hp.unshare h).2.cell? k := by
  obtain ⟨hresult, hcell⟩ := cascade_congr [h] hp hsame
  rw [unshare_eq, unshare_eq, hresult, hsame]
  exact ⟨rfl, hcell⟩

theorem unshareEach_congr (hsame : ∀ k, hp'.cell? k = hp.cell? k) (hs : List Handle) :
    (hp'.unshareEach hs).1 = (hp.unshareEach hs).1 ∧
      ∀ k, (hp'.unshareEach hs).2.cell? k = (hp.unshareEach hs).2.cell? k := by
  induction hs generalizing hp hp' with
  | nil => exact ⟨rfl, hsame⟩
  | cons h rest ih =>
    obtain ⟨hresult, hcell⟩ := unshare_congr hsame h
    rw [unshareEach, unshareEach]
    rcases hrun : hp.unshare h with ⟨result, hp₁⟩
    rcases hrun' : hp'.unshare h with ⟨result', hp₁'⟩
    rw [hrun, hrun'] at hresult hcell
    obtain rfl : result' = result := hresult
    obtain ⟨hfaults, hcells⟩ := ih hcell
    cases result' with
    | ok n => exact ⟨hfaults, hcells⟩
    | error fault => exact ⟨congrArg (fault :: ·) hfaults, hcells⟩

theorem unshareEach_append (hp : Heap) (hs more : List Handle) :
    hp.unshareEach (hs ++ more)
      = ((hp.unshareEach hs).1 ++ ((hp.unshareEach hs).2.unshareEach more).1,
        ((hp.unshareEach hs).2.unshareEach more).2) := by
  induction hs generalizing hp with
  | nil => rfl
  | cons h rest ih =>
    rw [List.cons_append, unshareEach, unshareEach]
    rcases hp.unshare h with ⟨result, hp₁⟩
    cases result with
    | ok n => exact ih hp₁
    | error fault =>
      dsimp only
      rw [ih hp₁]
      rfl

/-- After what was built has come off again, further drops go as they would have gone before. -/
theorem Built.unshareEach_append (hbuilt : Built live hp hp₁ hs ts ns) (hwf : hp.WellFormed)
    (more : List Handle) :
    (unshareEach { hp₁ with freed := #[] } (hs.reverse ++ more)).1 = (hp.unshareEach more).1 ∧
      ∀ k, (unshareEach { hp₁ with freed := #[] } (hs.reverse ++ more)).2.cell? k
        = (hp.unshareEach more).2.cell? k := by
  obtain ⟨hp₂, hrun, -, hcell, -⟩ := hbuilt.undone hwf
  rw [Heap.unshareEach_append, hrun]
  exact unshareEach_congr hcell more

end Heap

/-! ## Stacks with the same temporaries -/

namespace ArgumentStack

variable {s s' : ArgumentStack} {d : Nat}

/-- Which temporaries are answered, which are left, and which scopes, does not depend on values and
marks. -/
theorem closeDownTo_congr (d : Nat) (floors : List Floor) (htemps : s'.temps = s.temps) :
    (closeDownTo d floors s').1 = (closeDownTo d floors s).1 ∧
      (closeDownTo d floors s').2.temps = (closeDownTo d floors s).2.temps ∧
      (closeDownTo d floors s').2.scopes = (closeDownTo d floors s).2.scopes := by
  induction floors generalizing s s' with
  | nil => exact ⟨rfl, htemps, rfl⟩
  | cons floor outer ih =>
    rw [closeDownTo, closeDownTo]
    split
    · have hcut : (s'.cutTo floor).temps = (s.cutTo floor).temps :=
        congrArg (·.shrink floor.temps) htemps
      obtain ⟨hfst, hrest⟩ := ih hcut
      dsimp only
      rw [hfst, htemps]
      exact ⟨rfl, hrest⟩
    · exact ⟨rfl, htemps, rfl⟩

/-- What has been passed since the innermost scope was opened comes out first, newest first, when
any open scope is closed. -/
theorem closeScope_of_pass (hfloors : ∀ f ∈ s.scopes, f.temps ≤ s.temps.size) (hd : 0 < d)
    (hopen : d ≤ s.depth) (hs : List Handle) :
    ((s.pass hs).closeScope d).1 = hs.reverse ++ (s.closeScope d).1 ∧
      ((s.pass hs).closeScope d).2.temps = (s.closeScope d).2.temps ∧
      ((s.pass hs).closeScope d).2.scopes = (s.closeScope d).2.scopes := by
  rw [closeScope, closeScope, show (s.pass hs).scopes = s.scopes from rfl]
  rw [depth] at hopen
  cases hscopes : s.scopes with
  | nil =>
    rw [hscopes, List.length_nil] at hopen
    omega
  | cons floor outer =>
    rw [hscopes, List.length_cons] at hopen
    have hfloor : floor.temps ≤ s.temps.size := hfloors floor (hscopes ▸ List.mem_cons_self)
    have hhere : ((s.pass hs).temps.extract floor.temps).toList
        = (s.temps.extract floor.temps).toList ++ hs := by
      rw [extract_temps, extract_temps, pass, Array.toList_append]
      exact List.drop_append_of_le_length hfloor
    have hcut : ((s.pass hs).cutTo floor).temps = (s.cutTo floor).temps := by
      refine Array.toList_inj.1 ?_
      rw [cutTo, cutTo, pass, Array.toList_shrink, Array.toList_shrink, Array.toList_append]
      exact List.take_append_of_le_length hfloor
    obtain ⟨hfst, hrest⟩ := closeDownTo_congr d outer hcut
    rw [closeDownTo, closeDownTo, if_pos hopen, if_pos hopen]
    dsimp only
    rw [hfst, hhere, List.reverse_append, List.append_assoc]
    exact ⟨rfl, hrest⟩

end ArgumentStack

/-! ## Leaving -/

section

variable {w : World} {i : InterpreterId} {it it₁ : Interpreter} {hp : Heap} {d : Nat}
variable {live : Handle → Bool} {hs ns : List Handle} {ts : List Tree}

/-- Closing an open scope after arguments have been pushed comes to the same as before: the drops
that fail are the same, and so are the scalars, the temporaries and the scopes that are left. -/
theorem Interpreter.closeScope_built (hwf : it.heap.WellFormed)
    (hbuilt : Heap.Built live it.heap hp hs ts ns) (hheap : it₁.heap = { hp with freed := #[] })
    (hstack : it₁.stack = it.stack.pass hs)
    (hfloors : ∀ f ∈ it.stack.scopes, f.temps ≤ it.stack.temps.size) (hd : 0 < d)
    (hopen : d ≤ it.stack.depth) :
    (it₁.closeScope d).1 = (it.closeScope d).1 ∧
      (∀ k, (it₁.closeScope d).2.heap.cell? k = (it.closeScope d).2.heap.cell? k) ∧
      (it₁.closeScope d).2.stack.temps = (it.closeScope d).2.stack.temps ∧
      (it₁.closeScope d).2.stack.scopes = (it.closeScope d).2.stack.scopes := by
  obtain ⟨htaken, htemps, hscopes⟩ := ArgumentStack.closeScope_of_pass hfloors hd hopen hs
  obtain ⟨hfaults, hcell⟩ := hbuilt.unshareEach_append hwf (it.stack.closeScope d).1
  rw [← htaken, ← hheap, ← hstack] at hfaults hcell
  rw [← hstack] at htemps hscopes
  exact ⟨hfaults, hcell, htemps, hscopes⟩

theorem Interpreter.recedes_closeScope (it : Interpreter) (d : Nat) :
    Heap.Recedes it.heap (it.closeScope d).2.heap := it.heap.recedes_unshareEach _

/-- What is there when a scope has been closed only recedes when freed code lets go of its closures.
-/
theorem World.heap_closeScope (w : World) (i : InterpreterId) (d : Nat) :
    Heap.Recedes ((w.interpreter i).closeScope d).2.heap
      ((w.closeScope i d).interpreter i).heap := by
  obtain ⟨journal, hreported⟩ := Freeing.reportEach_eq
    (((w.interpreter i).closeScope d).1.map Fault.alreadyReleased)
    (w.setInterpreter i ((w.interpreter i).closeScope d).2)
  have hsettled := (recedes_settleFreed
    { w.setInterpreter i ((w.interpreter i).closeScope d).2 with journal } i).heap i
  have hit : ({ w.setInterpreter i ((w.interpreter i).closeScope d).2 with
      journal } : World).interpreter i = ((w.interpreter i).closeScope d).2 :=
    (interpreter_setInterpreter w i i _).trans (if_pos rfl)
  rw [hit] at hsettled
  rw [closeScope, onInterpreter_eq]
  dsimp only
  rw [hreported]
  exact hsettled

/-- What the arguments have built is gone then. -/
theorem World.closeScope_built (hwf : it.heap.WellFormed)
    (hbuilt : Heap.Built live it.heap hp hs ts ns)
    (hheap : (w.interpreter i).heap = { hp with freed := #[] })
    (hstack : (w.interpreter i).stack = it.stack.pass hs)
    (hfloors : ∀ f ∈ it.stack.scopes, f.temps ≤ it.stack.temps.size) (hd : 0 < d)
    (hopen : d ≤ it.stack.depth) {k : Handle} (hk : k ∈ ns) :
    ((w.closeScope i d).interpreter i).heap.contains k = false := by
  obtain ⟨-, hcell, -⟩ := Interpreter.closeScope_built hwf hbuilt hheap hstack hfloors hd hopen
  rw [Heap.contains_eq_false_iff, Option.eq_none_iff_forall_ne_some]
  intro c hc
  obtain ⟨c₁, hc₁, -⟩ := (w.heap_closeScope i d).cell k c hc
  rw [hcell] at hc₁
  obtain ⟨c₀, hc₀, -⟩ := (it.recedes_closeScope d).cell k c₁ hc₁
  rw [hbuilt.grown.fresh k hk] at hc₀
  cases hc₀

end

end GuestBridge
