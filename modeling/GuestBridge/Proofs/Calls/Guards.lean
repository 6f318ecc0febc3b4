import GuestBridge.Proofs.Calls.Temporaries
import GuestBridge.Proofs.Heap.Shedding
import Mathlib.Data.List.Induction

/-!
# Guards of scopes

The guard of a scope is the depth at which the scope was opened, and dropping it closes down to that
depth, whatever lies there by then. Guards may be dropped in any order. While its scope is open a
guard closes this scope, with the scopes inside it, and nothing else (`leavesOwn_of_open`). Once the
scope has been closed along with an outer one, there are two cases.

* Fewer scopes are open than the guard's depth. Then dropping it changes nothing
  (`closeScope_of_depth_lt`).
* Other scopes have been opened since and lie at that depth again. Then the guard closes the one
  that has taken the place of its own, and releases what this one still needs (`exists_successor`,
  `late_drop_releases`).
-/

namespace GuestBridge

namespace ArgumentStack

variable {s : ArgumentStack} {acts : List Act} {d : Nat}

/-! ## How many scopes are open -/

theorem depth_closeDownTo (d : Nat) (floors : List Floor) (s : ArgumentStack) :
    (closeDownTo d floors s).2.depth = min floors.length (d - 1) := by
  induction floors generalizing s with
  | nil => simp [closeDownTo, depth]
  | cons floor outer ih =>
    rw [closeDownTo, List.length_cons]
    split
    · rw [ih]
      omega
    · rw [depth, List.length_cons]
      omega

theorem depth_closeScope (s : ArgumentStack) (d : Nat) :
    (s.closeScope d).2.depth = min s.depth (d - 1) := depth_closeDownTo d s.scopes s

/-- Only opening a scope makes a stack deeper. -/
theorem depth_act_le (s : ArgumentStack) {a : Act} (ha : a ≠ .openScope) :
    (s.act a).depth ≤ s.depth := by
  cases a with
  | push h | mark | addTemporary h => exact Nat.le_refl _
  | pop => exact Nat.le_of_eq (congrArg List.length s.scopes_pop)
  | takeArguments => exact Nat.le_of_eq (congrArg List.length s.scopes_takeArguments)
  | openScope => exact absurd rfl ha
  | closeScope d =>
    rw [act, depth_closeScope]
    exact Nat.min_le_left _ _

/-- Closing a scope that is not open does nothing. -/
theorem closeScope_of_depth_lt (hd : s.depth < d) : s.closeScope d = ([], s) :=
  closeDownTo_of_lt hd s

/-- If the scope at some depth has been closed, then it is not open now, or another scope has been
opened at this depth that has not been closed since. -/
theorem exists_successor (hd : 0 < d) {e : Nat} (hclosed : .closeScope e ∈ acts) (he : e ≤ d) :
    (s.after acts).depth < d ∨
      ∃ before later, acts = before ++ .openScope :: later ∧
        (∃ e, .closeScope e ∈ before ∧ e ≤ d) ∧
        (s.after before).openScope.depth = d ∧ ∀ e, .closeScope e ∈ later → d < e := by
  -- by induction on the acts from the last one on
  induction acts using List.reverseRecOn generalizing e with
  | nil => cases hclosed
  | append_singleton acts a ih =>
    have hafter : s.after (acts ++ [a]) = (s.after acts).act a := s.after_append acts [a]
    rw [hafter]
    by_cases ha : ∃ e, a = .closeScope e ∧ e ≤ d
    · obtain ⟨e, rfl, he⟩ := ha
      refine .inl ?_
      rw [act, depth_closeScope]
      omega
    · have hearlier : .closeScope e ∈ acts := by
        rcases List.mem_append.1 hclosed with hmem | hmem
        · exact hmem
        · exact absurd ⟨e, (List.mem_singleton.1 hmem).symm, he⟩ ha
      rcases ih hearlier he with hlt | ⟨before, later, rfl, hbefore, hdepth, hlater⟩
      · by_cases hopen : a = .openScope
        · subst hopen
          have hdeeper : ((s.after acts).act .openScope).depth = (s.after acts).depth + 1 := rfl
          rw [hdeeper]
          by_cases hreached : (s.after acts).depth + 1 = d
          · exact .inr ⟨acts, [], rfl, ⟨e, hearlier, he⟩, hreached, by simp⟩
          · exact .inl (by omega)
        · exact .inl (Nat.lt_of_le_of_lt ((s.after acts).depth_act_le hopen) hlt)
      · refine .inr ⟨before, later ++ [a], by simp, hbefore, hdepth, fun e he => ?_⟩
        rcases List.mem_append.1 he with hmem | hmem
        · exact hlater e hmem
        · exact Nat.lt_of_not_le fun hle => ha ⟨e, (List.mem_singleton.1 hmem).symm, hle⟩

end ArgumentStack

open ArgumentStack (Act Clears Bases)

/-! ## Dropping a guard -/

/-- After some acts the guard of the scope opened on a stack `s` closes that scope with those inside
it, and nothing else: scopes and temporaries are those of `s`, values and marks have been cut but
not changed, and shares are dropped for the temporaries handed over since and still there, newest
first. -/
def ArgumentStack.LeavesOwn (s : ArgumentStack) (acts : List Act) : Prop :=
  ∀ it : Interpreter, it.stack = s.openScope.after acts →
    ∃ stack, s.Clears stack ∧ stack.Bases it.stack ∧
      it.closeScope s.openScope.depth =
        ((it.heap.unshareEach (s.openScope.keptBy acts).reverse).1,
          { it with heap := (it.heap.unshareEach (s.openScope.keptBy acts).reverse).2, stack })

namespace Interpreter

variable {s : ArgumentStack} {acts : List Act} {d : Nat}

/-- A guard whose scope is open closes this one. -/
theorem leavesOwn_of_open (hopen : ∀ d, .closeScope d ∈ acts → s.openScope.depth < d) :
    s.LeavesOwn acts := by
  intro it hstack
  refine ⟨(it.stack.closeScope s.openScope.depth).2, ?_, ?_, ?_⟩
  · rw [hstack]
    exact ((ArgumentStack.Underlies.refl s.openScope).after hopen).clears
  · exact ArgumentStack.bases_closeDownTo _ _ _
  · have hreleased := ArgumentStack.closeScope_fst_after hopen
    rw [← hstack] at hreleased
    rw [← hreleased]
    rfl

/-- A guard whose depth is not reached does nothing. -/
theorem closeScope_of_depth_lt {it : Interpreter} (hd : it.stack.depth < d) :
    it.closeScope d = ([], it) := by
  unfold closeScope
  rw [ArgumentStack.closeScope_of_depth_lt hd]
  rfl

/-- A guard closes its own scope with those inside it as long as the scope is open, whatever else
has been opened and closed in whatever order. If its scope has been closed, it does nothing as long
as its depth is not reached. If the depth is reached again, it closes a scope that has been opened
after that. -/
theorem guard_drop (s : ArgumentStack) (acts : List Act) :
    ((∀ d, .closeScope d ∈ acts → s.openScope.depth < d) → s.LeavesOwn acts) ∧
    ∀ d, .closeScope d ∈ acts → d ≤ s.openScope.depth →
      ((s.openScope.after acts).depth < s.openScope.depth →
        ∀ it : Interpreter, it.stack = s.openScope.after acts →
          it.closeScope s.openScope.depth = ([], it)) ∧
      (s.openScope.depth ≤ (s.openScope.after acts).depth →
        ∃ before later, acts = before ++ .openScope :: later ∧
          (∃ e, .closeScope e ∈ before ∧ e ≤ s.openScope.depth) ∧
          (s.openScope.after before).openScope.depth = s.openScope.depth ∧
          (s.openScope.after before).LeavesOwn later) := by
  refine ⟨leavesOwn_of_open, fun d hclosed hd => ⟨fun hlt it hstack => ?_, fun hle => ?_⟩⟩
  · exact closeScope_of_depth_lt (hstack ▸ hlt)
  · rcases ArgumentStack.exists_successor (Nat.succ_pos _) hclosed hd with hlt | hopened
    · exact absurd hlt (Nat.not_lt.2 hle)
    · obtain ⟨before, later, hacts, hbefore, hdepth, hlater⟩ := hopened
      exact ⟨before, later, hacts, hbefore, hdepth, leavesOwn_of_open (hdepth.symm ▸ hlater)⟩

/-- A guard inside another scope: with an inner scope left open, with the outer scope closed, and
with two other scopes opened after that. -/
theorem guard_drop_nested :
    let s : ArgumentStack := ArgumentStack.openScope {}
    let acts : List Act := [.addTemporary ⟨0, 0⟩, .openScope, .addTemporary ⟨1, 0⟩]
    let late : List Act := [.closeScope 1, .openScope, .openScope, .addTemporary ⟨0, 0⟩]
    s.LeavesOwn acts ∧
      (∀ it : Interpreter, it.stack = s.openScope.after [.closeScope 1] →
        it.closeScope 2 = ([], it)) ∧
      ∃ before later, late = before ++ .openScope :: later ∧
        (∃ e, .closeScope e ∈ before ∧ e ≤ 2) ∧
        (s.openScope.after before).openScope.depth = 2 ∧
        (s.openScope.after before).LeavesOwn later := by
  intro s acts late
  have hopen : ∀ d, .closeScope d ∈ acts → s.openScope.depth < d := by simp [acts]
  exact ⟨(guard_drop s acts).1 hopen,
    ((guard_drop s [.closeScope 1]).2 1 (by decide) (by decide)).1 (by decide),
    ((guard_drop s late).2 1 (by decide) (by decide)).2 (by decide)⟩

/-- Two scopes, both closed with the guard of the outer one, then two others, the inner one with a
temporary. -/
def reopened : Interpreter :=
  let it := (({} : Interpreter).openScope.2.openScope.2.closeScope 1).2
  let (h, it) := it.openScope.2.openScope.2.create (.int 7)
  (it.addTemporary h).2

/-- The guard of the second scope is still there. Its scope has been closed, but dropping it closes
the fourth scope and frees the temporary in it. -/
theorem late_drop_releases :
    let s : ArgumentStack := ArgumentStack.openScope {}
    let acts : List Act := [.closeScope 1, .openScope, .openScope, .addTemporary ⟨0, 0⟩]
    reopened.stack = s.openScope.after acts ∧ s.openScope.depth = 2 ∧
      reopened.closeScope 2 ≠ ([], reopened) ∧
      reopened.heap.contains ⟨0, 0⟩ = true ∧
      (reopened.closeScope 2).2.heap.contains ⟨0, 0⟩ = false ∧
      (reopened.closeScope 2).2.stack.depth = 1 := by
  have hheap : (reopened.closeScope 2).2.heap = (reopened.heap.unshareEach [⟨0, 0⟩]).2 := rfl
  have hdepth : (reopened.closeScope 2).2.stack.depth = 1 := rfl
  refine ⟨by decide, rfl, fun hsame => ?_, by decide, ?_, hdepth⟩
  · have hopen : (([] : List Fault), reopened).2.stack.depth = 2 := rfl
    rw [hsame, hopen] at hdepth
    cases hdepth
  · rw [hheap, Heap.unshareEach_cons_snd, Heap.contains_eq_false_iff]
    exact Heap.cell?_unshare_of_last rfl rfl

end Interpreter

end GuestBridge
