import GuestBridge.Proofs.Calls.Scope

/-!
# Marks and the height of the stack

A mark is set at the height of the stack, and nothing below the innermost mark is taken off. But a
scope that is closed cuts values and marks back separately, each to the length at which the scope
was opened. Inside the scope a mark from outside can have been taken and another one set in its
place, higher up; the scope keeps that one and cuts the stack back below it
(`mark_above_of_replaced`, `closing_leaves_mark_above`).

If no mark is set in such a place, the marks are in order and none is above the stack, in every
state of a run (`Orderly.after`), and so collecting the results of a sub never runs out of values
(`Orderly.endAcross_ne_underflow`).
-/

namespace GuestBridge

open ArgumentStack (Act)

/-! ## Order -/

namespace ArgumentStack

variable {s : ArgumentStack} {acts : List Act}

/-- The marks are in order, and none is above the stack, nor will be when a scope is closed: of the
marks that the scope keeps none is above the height to which it cuts the stack back. -/
structure Orderly (s : ArgumentStack) : Prop where
  sorted : s.marks.toList.Pairwise (· ≤ ·)
  below : ∀ mark ∈ s.marks.toList, mark ≤ s.height
  floors : ∀ floor ∈ s.scopes, ∀ mark ∈ s.marks.toList.take floor.marks, mark ≤ floor.values

theorem Orderly.empty : Orderly {} := ⟨.nil, by simp, by simp⟩

/-- All marks are at most as high as the innermost one. -/
theorem Orderly.le_back {mark : Nat} (hs : s.Orderly) (hmark : s.marks.back? = some mark) :
    ∀ m ∈ s.marks.toList, m ≤ mark := by
  obtain ⟨below, hmarks⟩ := Array.back?_eq_some_iff.1 hmark
  have hsorted := hs.sorted
  rw [hmarks, Array.toList_push, List.pairwise_append] at hsorted
  intro m hmem
  rw [hmarks, Array.toList_push, List.mem_append, List.mem_singleton] at hmem
  rcases hmem with hmem | rfl
  · exact hsorted.2.2 m hmem mark (List.mem_singleton_self mark)
  · exact Nat.le_refl m

theorem Orderly.back_le (hs : s.Orderly) : s.marks.back?.getD 0 ≤ s.height := by
  cases hmark : s.marks.back? with
  | none => exact Nat.zero_le _
  | some mark => exact hs.below mark (Array.mem_toList_iff.2 (Array.mem_of_back? hmark))

/-- Fewer marks, on a stack that is still as high as they are. -/
theorem Orderly.of_marks {s₁ : ArgumentStack} (hs : s.Orderly)
    (hmarks : s₁.marks.toList <+: s.marks.toList) (hscopes : s₁.scopes ⊆ s.scopes)
    (hbelow : ∀ mark ∈ s₁.marks.toList, mark ≤ s₁.height) : s₁.Orderly where
  sorted := hs.sorted.sublist hmarks.sublist
  below := hbelow
  floors := fun floor hmem mark hmark =>
    hs.floors floor (hscopes hmem) mark ((hmarks.take _).subset hmark)

/-! ## Acts -/

/-- No open scope finds a mark that is set now among those it keeps and above the height to which
it cuts the stack back. -/
def MayMark (s : ArgumentStack) : Prop :=
  ∀ floor ∈ s.scopes, s.marks.size < floor.marks → s.height ≤ floor.values

/-- During some acts no mark is set where a scope would leave it above the stack. -/
def MarksWell : ArgumentStack → List Act → Prop
  | _, [] => True
  | s, a :: rest => (a = .mark → s.MayMark) ∧ MarksWell (s.act a) rest

instance (s : ArgumentStack) : Decidable s.MayMark := inferInstanceAs (Decidable (∀ _ ∈ _, _ → _))

instance MarksWell.decide : (s : ArgumentStack) → (acts : List Act) → Decidable (s.MarksWell acts)
  | _, [] => inferInstanceAs (Decidable True)
  | s, a :: rest =>
    have := MarksWell.decide (s.act a) rest
    inferInstanceAs (Decidable (_ ∧ _))

theorem Orderly.push (hs : s.Orderly) (h : Handle) : (s.push h).Orderly := by
  refine hs.of_marks List.prefix_rfl (List.Subset.refl _) fun mark hmem => ?_
  have hle := hs.below mark hmem
  rw [height, ArgumentStack.push, Array.size_push]
  exact Nat.le_succ_of_le hle

/-- What is taken off lies above the innermost mark. -/
theorem Orderly.pop (hs : s.Orderly) : s.pop.2.Orderly := by
  unfold ArgumentStack.pop
  split
  · split
    · exact hs
    · rename_i habove
      refine hs.of_marks List.prefix_rfl (List.Subset.refl _) fun mark hmem => ?_
      cases hback : s.marks.back? with
      | none => simp_all [Array.back?_eq_none_iff]
      | some top =>
        have hle := hs.le_back hback mark hmem
        rw [hback, Option.getD_some] at habove
        rw [height] at habove ⊢
        rw [Array.size_pop]
        omega
  · exact hs

theorem Orderly.mark (hs : s.Orderly) (hmay : s.MayMark) : s.mark.Orderly where
  sorted := by
    rw [ArgumentStack.mark, Array.toList_push, List.pairwise_append]
    refine ⟨hs.sorted, List.pairwise_singleton _ _, fun m hmem top htop => ?_⟩
    rw [List.mem_singleton] at htop
    exact htop ▸ hs.below m hmem
  below := by
    intro m hmem
    rw [ArgumentStack.mark, Array.toList_push, List.mem_append, List.mem_singleton] at hmem
    rcases hmem with hmem | rfl
    · exact hs.below m hmem
    · exact Nat.le_refl _
  floors := by
    intro floor hfloor m hmem
    rw [ArgumentStack.mark, Array.toList_push, List.take_append, List.mem_append] at hmem
    rcases hmem with hmem | hmem
    · exact hs.floors floor hfloor m hmem
    -- the scope keeps the new mark only if it has kept one in its place
    · have hsize : s.marks.size < floor.marks := by
        have hpos := List.length_pos_of_mem hmem
        rw [List.length_take, Array.length_toList] at hpos
        omega
      obtain rfl := List.mem_singleton.1 (List.take_subset _ _ hmem)
      exact hmay floor hfloor hsize

theorem Orderly.takeArguments (hs : s.Orderly) : s.takeArguments.2.Orderly := by
  have hmarks : s.marks.pop.toList <+: s.marks.toList := by
    rw [Array.toList_pop]
    exact List.dropLast_prefix _
  unfold ArgumentStack.takeArguments
  split
  · exact hs
  · rename_i top hback
    split
    · exact hs.of_marks hmarks (List.Subset.refl _) fun m hmem => hs.below m (hmarks.subset hmem)
    · refine hs.of_marks hmarks (List.Subset.refl _) fun m hmem => ?_
      have hle := hs.le_back hback m (hmarks.subset hmem)
      have htop := hs.below top (Array.mem_toList_iff.2 (Array.mem_of_back? hback))
      rw [height] at htop ⊢
      rw [Array.size_shrink]
      omega

/-- A scope that is opened keeps marks that are below the height at which it is opened. -/
theorem Orderly.openScope (hs : s.Orderly) : s.openScope.Orderly where
  sorted := hs.sorted
  below := hs.below
  floors := by
    intro floor hfloor m hmem
    rcases List.mem_cons.1 hfloor with rfl | hfloor
    · exact hs.below m (List.take_subset _ _ hmem)
    · exact hs.floors floor hfloor m hmem

theorem Orderly.cutTo {floor : Floor} {outer : List Floor}
    (hs : { s with scopes := floor :: outer }.Orderly) :
    { s.cutTo floor with scopes := outer }.Orderly := by
  have hmarks : (s.marks.shrink floor.marks).toList = s.marks.toList.take floor.marks :=
    Array.toList_shrink
  refine hs.of_marks ?_ (List.subset_cons_self floor outer) fun m hmem => ?_
  · rw [ArgumentStack.cutTo, hmarks]
    exact List.take_prefix _ _
  · rw [ArgumentStack.cutTo, hmarks] at hmem
    have hle := hs.floors floor List.mem_cons_self m hmem
    have hheight : m ≤ s.height := hs.below m (List.take_subset _ _ hmem)
    rw [height] at hheight
    rw [height, ArgumentStack.cutTo, Array.size_shrink]
    omega

theorem Orderly.closeDownTo (depth : Nat) (floors : List Floor) {s : ArgumentStack}
    (hs : { s with scopes := floors }.Orderly) :
    (ArgumentStack.closeDownTo depth floors s).2.Orderly := by
  induction floors generalizing s with
  | nil => exact hs
  | cons floor outer ih =>
    rw [ArgumentStack.closeDownTo]
    split
    · exact ih (Orderly.cutTo hs)
    · exact hs

/-- An act keeps the marks in order, if it sets none where it may not. -/
theorem Orderly.act {a : Act} (hs : s.Orderly) (hmay : a = .mark → s.MayMark) :
    (s.act a).Orderly := by
  cases a with
  | push h => exact hs.push h
  | pop => exact hs.pop
  | mark => exact hs.mark (hmay rfl)
  | takeArguments => exact hs.takeArguments
  | addTemporary h => exact ⟨hs.sorted, hs.below, hs.floors⟩
  | openScope => exact hs.openScope
  | closeScope depth => exact Orderly.closeDownTo depth s.scopes hs

/-- So does a whole run. -/
theorem Orderly.after (hs : s.Orderly) (hmarks : s.MarksWell acts) : (s.after acts).Orderly := by
  induction acts generalizing s with
  | nil => exact hs
  | cons a rest ih => exact ih (hs.act hmarks.1) hmarks.2

/-! ## Taking values off -/

/-- An argument list is refused only when there is no mark. -/
theorem Orderly.takeArguments_error_iff (hs : s.Orderly) :
    (∃ fault, s.takeArguments.1 = .error fault) ↔ s.marks = #[] := by
  unfold ArgumentStack.takeArguments
  cases hback : s.marks.back? with
  | none => simpa using Array.back?_eq_none_iff.1 hback
  | some top =>
    have htop := hs.below top (Array.mem_toList_iff.2 (Array.mem_of_back? hback))
    have hne : s.marks ≠ #[] := fun he => by simp [he] at hback
    simp [hne, Nat.not_lt.2 htop]

/-- A value that has just been pushed can be popped. -/
theorem Orderly.pop_push (hs : s.Orderly) (h : Handle) : (s.push h).pop = (.ok h, s) := by
  have hpop := pop_raise hs.back_le [] h
  rw [raise_nil] at hpop
  exact hpop

/-- A mark that is set in the place of one that the innermost scope keeps, and above the height to
which it cuts the stack back, is above the stack when the scope is closed. -/
theorem mark_above_of_replaced {floor : Floor} {outer : List Floor}
    (hscopes : s.scopes = floor :: outer) (hreplaced : s.marks.size < floor.marks)
    (habove : floor.values < s.height) :
    s.height ∈ (s.mark.closeScope s.depth).2.marks ∧
      (s.mark.closeScope s.depth).2.height < s.height := by
  have hclosed : (s.mark.closeScope s.depth).2 = { s.mark.cutTo floor with scopes := outer } := by
    rw [closeScope, depth, show s.mark.scopes = s.scopes from rfl, hscopes]
    exact closeDownTo_floor floor outer s.mark
  rw [hclosed]
  constructor
  · have hmarks : (s.marks.push s.height).shrink floor.marks = s.marks.push s.height := by
      rw [Array.shrink_eq_take, Array.take_eq_extract, Array.extract_eq_self_of_le]
      rw [Array.size_push]
      omega
    show s.height ∈ (s.marks.push s.height).shrink floor.marks
    rw [hmarks]
    exact Array.mem_push_self
  · show (s.values.shrink floor.values).size < s.height
    rw [Array.size_shrink]
    omega

end ArgumentStack

/-! ## Collecting results -/

/-- A share is not dropped only if a scalar is gone. -/
theorem Heap.cascade_error {pending : List Handle} {hp : Heap} {fault : Fault}
    (hfault : (cascade pending hp).1 = .error fault) : ∃ k : Handle, fault = k.stale := by
  fun_induction cascade pending hp with
  | case1 => cases hfault
  | case2 hp h => exact ⟨h, (Except.error.inj hfault).symm⟩
  | case3 _ _ _ _ _ _ ih => exact ih hfault
  | case4 _ _ _ _ _ _ ih => exact ih hfault

theorem Heap.unshare_error {hp : Heap} {h : Handle} {fault : Fault}
    (hfault : (hp.unshare h).1 = .error fault) : ∃ k : Handle, fault = k.stale := by
  unfold unshare at hfault
  split at hfault
  · exact ⟨h, (Except.error.inj hfault).symm⟩
  · rename_i c _
    dsimp only at hfault
    split at hfault
    · split at hfault
      · cases hfault
      · rename_i heq
        obtain rfl := Except.error.inj hfault
        exact cascade_error (congrArg Prod.fst heq)
    · cases hfault

theorem Heap.unshareEach_faults (hp : Heap) (hs : List Handle) :
    ∀ fault ∈ (hp.unshareEach hs).1, ∃ k : Handle, fault = k.stale := by
  induction hs generalizing hp with
  | nil => simp [unshareEach]
  | cons h rest ih =>
    intro fault hmem
    rw [unshareEach] at hmem
    split at hmem
    · exact ih _ fault hmem
    · rename_i heq
      rcases List.mem_cons.1 hmem with rfl | hmem
      · exact unshare_error (congrArg Prod.fst heq)
      · exact ih _ fault hmem

namespace Interpreter

theorem keepEach_of_live {it : Interpreter} {h : Handle} (hlive : it.heap.contains h = true)
    (rest : List Handle) :
    keepEach (h :: rest) it = keepEach rest { it with stack := it.stack.pass [h] } := by
  rw [keepEach, pushTemporary, ifLive, if_pos hlive, ArgumentStack.push_addTemporary]

theorem keepEach_of_stale {it : Interpreter} {h : Handle} (hstale : ¬ it.heap.contains h = true)
    (rest : List Handle) :
    keepEach (h :: rest) it = (h.stale :: (keepEach rest it).1, (keepEach rest it).2) := by
  rw [keepEach, pushTemporary, ifLive, if_neg hstale]

/-- A result is not kept only if it is gone. -/
theorem keepEach_faults (hs : List Handle) (it : Interpreter) :
    ∀ fault ∈ (keepEach hs it).1, ∃ k : Handle, fault = k.stale := by
  induction hs generalizing it with
  | nil => simp [keepEach]
  | cons h rest ih =>
    intro fault hmem
    by_cases hlive : it.heap.contains h = true
    · rw [keepEach_of_live hlive] at hmem
      exact ih _ fault hmem
    · rw [keepEach_of_stale hlive] at hmem
      rcases List.mem_cons.1 hmem with rfl | hmem
      · exact ⟨h, rfl⟩
      · exact ih it fault hmem

/-- If no fault is answered, all results that are kept have been pushed. -/
theorem stack_keepEach_of_nil {hs : List Handle} {it : Interpreter}
    (hnone : (keepEach hs it).1 = []) : (keepEach hs it).2.stack = it.stack.pass hs := by
  induction hs generalizing it with
  | nil => exact it.stack.pass_nil.symm
  | cons h rest ih =>
    by_cases hlive : it.heap.contains h = true
    · rw [keepEach_of_live hlive] at hnone ⊢
      rw [ih hnone, ArgumentStack.pass_pass, List.singleton_append]
    · rw [keepEach_of_stale hlive] at hnone
      cases hnone

/-- Settling drops some results and keeps others, and reports the first fault. -/
theorem settle_eq_split (it : Interpreter) (mode : Mode) (results : List Handle) :
    ∃ (given kept : List Handle) (it₁ : Interpreter), it₁.stack = it.stack ∧
      it.settle mode results =
        match (it₁.heap.unshareEach given).1
            ++ (keepEach kept (it₁.onHeap (·.unshareEach given)).2).1 with
        | fault :: _ => (.error fault, (keepEach kept (it₁.onHeap (·.unshareEach given)).2).2)
        | [] => (.ok kept.length, (keepEach kept (it₁.onHeap (·.unshareEach given)).2).2) := by
  cases mode with
  | scalar =>
    cases results with
    | nil => exact ⟨[], [(it.create .undef).1], (it.create .undef).2, rfl, rfl⟩
    | cons r rest => exact ⟨(r :: rest).dropLast, (r :: rest).getLast?.toList, it, rfl, rfl⟩
  | void => exact ⟨results, [], it, rfl, rfl⟩
  | list => exact ⟨[], results, it, rfl, rfl⟩

/-- Results are not settled only if a scalar is gone. -/
theorem settle_error {it : Interpreter} {mode : Mode} {results : List Handle} {fault : Fault}
    (hfault : (it.settle mode results).1 = .error fault) : ∃ k : Handle, fault = k.stale := by
  obtain ⟨given, kept, it₁, -, hsettle⟩ := it.settle_eq_split mode results
  rw [hsettle] at hfault
  split at hfault
  · rename_i first rest hfaults
    obtain rfl : first = fault := Except.error.inj hfault
    have hmem : first ∈ first :: rest := List.mem_cons_self
    rw [← hfaults, List.mem_append] at hmem
    rcases hmem with hmem | hmem
    · exact Heap.unshareEach_faults _ _ first hmem
    · exact keepEach_faults _ _ first hmem
  · cases hfault

/-- Results that have been settled are on top of the stack, as many as answered. -/
theorem stack_settle_of_ok {it : Interpreter} {mode : Mode} {results : List Handle} {n : Nat}
    (hok : (it.settle mode results).1 = .ok n) :
    ∃ kept : List Handle, kept.length = n ∧
      (it.settle mode results).2.stack = it.stack.pass kept := by
  obtain ⟨given, kept, it₁, hstack, hsettle⟩ := it.settle_eq_split mode results
  rw [hsettle] at hok ⊢
  split at hok
  · cases hok
  · rename_i hnone
    refine ⟨kept, Except.ok.inj hok, ?_⟩
    dsimp only
    rw [stack_keepEach_of_nil (List.append_eq_nil_iff.1 hnone).2, ← hstack]
    rfl

end Interpreter

namespace World

variable {w : World} {i : InterpreterId} {s : ArgumentStack}

/-- A scalar is not wrapped only if it is gone. -/
theorem wrapScalar_error {h : Handle} {e : CrossingError}
    (he : (w.wrapScalar i h).1 = .error e) : e = .guest h.stale := by
  have hshare := w.guest_fst i (·.share h)
  unfold wrapScalar at he
  split at he
  · cases he
  · rename_i fault w₁ heq
    rw [heq] at hshare
    cases hc : (w.interpreter i).heap.cell? h with
    | none =>
      rw [Interpreter.share, Interpreter.onHeap, Heap.share_eq_of_none hc] at hshare
      cases hshare
      exact (Except.error.inj he).symm
    | some c =>
      rw [Interpreter.share, Interpreter.onHeap, Heap.share_eq_of_cell? hc] at hshare
      cases hshare

/-- As many values as lie above the innermost mark can be popped. -/
theorem popResults_ne_underflow (hmark : s.marks.back?.getD 0 ≤ s.height) {ks : List Handle}
    {n : Nat} (hlength : ks.length = n) (wrapped : List Value)
    (hstack : (w.interpreter i).stack = s.raise ks) :
    (popResults i n wrapped w).1 ≠ .error (.guest .stackUnderflow) := by
  induction n generalizing ks w wrapped with
  | zero => simp [popResults]
  | succ n ih =>
    rcases List.eq_nil_or_concat ks with rfl | ⟨rest, k, rfl⟩
    · simp at hlength
    rw [List.concat_eq_append] at hlength hstack
    have hpop : (w.interpreter i).pop.1 = .ok k := by
      rw [Interpreter.pop, Interpreter.onStack, hstack, ArgumentStack.pop_raise hmark]
    have hpopped : ((w.guest i (·.pop)).2.interpreter i).stack = s.raise rest := by
      rw [stack_guest, Interpreter.pop, Interpreter.onStack, hstack,
        ArgumentStack.pop_raise hmark]
    have hanswer := w.guest_fst i (·.pop)
    rw [hpop] at hanswer
    rw [popResults]
    rcases hguest : w.guest i (·.pop) with ⟨_ | k', w₁⟩
    · rw [hguest] at hanswer
      cases hanswer
    · rw [hguest] at hpopped
      dsimp only
      have hsame := w₁.sameStacks_wrapScalar i k'
      rcases hwrap : w₁.wrapScalar i k' with ⟨e | v, w₂⟩
      · obtain rfl := wrapScalar_error (congrArg Prod.fst hwrap)
        intro he
        cases he
      · rw [hwrap] at hsame
        exact ih (by simpa using hlength) (v :: wrapped) ((hsame i).trans hpopped)

theorem boxResults_ne_underflow (hmark : s.marks.back?.getD 0 ≤ s.height) {ks : List Handle}
    (hstack : (w.interpreter i).stack = s.raise ks) :
    (w.boxResults i ks.length).1 ≠ .error (.guest .stackUnderflow) := by
  have hpop := popResults_ne_underflow hmark rfl [] hstack
  unfold boxResults
  rcases hpopped : popResults i ks.length [] w with ⟨e | results, w₁⟩
  · rw [hpopped] at hpop
    exact fun he => hpop (congrArg _ (Except.error.inj he))
  · exact fun he => nomatch he

end World

/-- When the sub of a call has succeeded and has left the marks in order, its results are collected
without running out of values. -/
theorem ArgumentStack.Orderly.endAcross_ne_underflow {κ : Type} {m : Machine κ} {b : Bridge}
    (hs : (m.world.interpreter b.interpreter).stack.Orderly) (mode : Mode) (detail : String)
    (l : Landing) (results : List Handle) :
    (m.endAcross b mode detail l (.ok results)).1 ≠ .error (.guest .stackUnderflow) := by
  have hanswer := m.world.guest_fst b.interpreter (·.settle mode results)
  have hstack := m.world.stack_guest b.interpreter (·.settle mode results)
  unfold Machine.endAcross Machine.endCall Machine.settleOutcome Machine.onWorld
  dsimp only
  rcases hsettled : m.world.guest b.interpreter (·.settle mode results) with ⟨fault | n, w₁⟩
  · rw [hsettled] at hanswer
    obtain ⟨k, rfl⟩ := Interpreter.settle_error hanswer.symm
    intro he
    cases he
  · rw [hsettled] at hanswer hstack
    obtain ⟨kept, rfl, hkept⟩ := Interpreter.stack_settle_of_ok hanswer.symm
    have hdropped : ((w₁.dropObjects [l.closure]).interpreter b.interpreter).stack
        = (m.world.interpreter b.interpreter).stack.pass kept :=
      (World.sameStacks_release _ w₁ b.interpreter).trans (hstack.trans hkept)
    rw [ArgumentStack.pass_eq_raise] at hdropped
    have hmark : { (m.world.interpreter b.interpreter).stack with
        temps := (m.world.interpreter b.interpreter).stack.temps ++ kept.toArray }.marks.back?.getD 0
          ≤ (m.world.interpreter b.interpreter).stack.height := hs.back_le
    exact World.boxResults_ne_underflow hmark hdropped

/-! ## Runs -/

/-- A run keeps the marks of an interpreter in order. -/
theorem State.orderly_reaches {s t : State} {n : Nat} {i : InterpreterId} (hreach : Reaches n s t)
    (hs : (s.machine.world.interpreter i).stack.Orderly)
    (hmarks : (s.machine.world.interpreter i).stack.MarksWell (s.actsAlong i n)) :
    (t.machine.world.interpreter i).stack.Orderly := by
  rw [stack_reaches hreach i]
  exact hs.after hmarks

/-- If no mark is set where a scope that is open would leave it above the stack, then in every state
of a run the marks are in order and none is above the stack. So an argument list is refused only
when there is no mark, a value that has just been pushed can be popped, and a call whose sub has
succeeded does not run out of values when its results are collected. -/
theorem marks_in_order {acts : List Act} (hmarks : ({} : ArgumentStack).MarksWell acts)
    {s : ArgumentStack} (hs : s = ({} : ArgumentStack).after acts) :
    s.marks.toList.Pairwise (· ≤ ·) ∧ (∀ mark ∈ s.marks, mark ≤ s.height) ∧
      ((∃ fault, s.takeArguments.1 = .error fault) ↔ s.marks = #[]) ∧
      (∀ h, (s.push h).pop = (.ok h, s)) ∧
      ∀ (m : Machine Code) (b : Bridge) (mode : Mode) (detail : String) (l : Landing)
        (results : List Handle), (m.world.interpreter b.interpreter).stack = s →
          (m.endAcross b mode detail l (.ok results)).1 ≠ .error (.guest .stackUnderflow) := by
  have horderly : s.Orderly := hs ▸ ArgumentStack.Orderly.empty.after hmarks
  refine ⟨horderly.sorted, fun mark hmem => horderly.below mark (Array.mem_toList_iff.2 hmem),
    horderly.takeArguments_error_iff, horderly.pop_push, ?_⟩
  rintro m b mode detail l results rfl
  exact horderly.endAcross_ne_underflow mode detail l results

/-- A scope in which a call takes its arguments, inside of one in which they were marked. -/
def nested : List Act :=
  [.push ⟨0, 0⟩, .mark, .openScope, .push ⟨1, 0⟩, .mark, .push ⟨2, 0⟩, .takeArguments, .pop,
    .closeScope 1]

theorem marks_in_order_nested :
    (({} : ArgumentStack).after nested).marks = #[1] ∧
      ((({} : ArgumentStack).after nested).push ⟨2, 0⟩).pop.1 = .ok ⟨2, 0⟩ := by
  have hmarks : ({} : ArgumentStack).MarksWell nested := by decide
  obtain ⟨-, -, -, hpop, -⟩ := marks_in_order hmarks rfl
  exact ⟨by decide, congrArg Prod.fst (hpop ⟨2, 0⟩)⟩

/-! ## A mark in the place of another -/

/-- Inside a scope the mark from outside is taken, and another one is set above a value. -/
def replacing : List Act :=
  [.mark, .openScope, .takeArguments, .push ⟨0, 0⟩, .mark, .closeScope 1]

/-- A sub that does the same to a mark of its own, and returns a new scalar. -/
def replacingMark : Code := fun i _ =>
  .act (.mark i) fun _ => .act (.openScope i) fun depth =>
    .call (.guestSub i (.name "missing") .void) fun _ => .act (.create i (.int 5)) fun h =>
      .act (.push i h) fun _ => .act (.mark i) fun _ => .act (.closeScope i depth) fun _ =>
        .finish (.ok [h])

/-- The mark is left above the stack. It cannot be taken, a value that has just been pushed cannot
be popped, and a call of the sub runs out of values although the sub has succeeded. -/
theorem closing_leaves_mark_above :
    (({} : ArgumentStack).after replacing).marks = #[1] ∧
      (({} : ArgumentStack).after replacing).height = 0 ∧
      (({} : ArgumentStack).after replacing).takeArguments.1 = .error .stackUnderflow ∧
      ((({} : ArgumentStack).after replacing).push ⟨0, 0⟩).pop.1 = .error .stackUnderflow ∧
      ∃ m, callSub.perform (Machine.invoke 1) (oneSub replacingMark)
        = some (.error (.guest .stackUnderflow), m) := by
  have hanswer : (callSub.perform (Machine.invoke 1) (oneSub replacingMark)).map
      (fun ended => (ended.1 : Except CrossingError ObjectId))
        = some (.error (.guest .stackUnderflow)) := by
    decide +kernel
  obtain ⟨⟨reply, m⟩, hrun, hreply⟩ := Option.map_eq_some_iff.1 hanswer
  refine ⟨by decide, by decide, by decide, by decide, m, ?_⟩
  rw [hrun]
  exact congrArg (fun reply => some (reply, m)) hreply

end GuestBridge
