import GuestBridge.Proofs.Ledger.Interpreter

/-!
# The argument stack during a call

A call across a bridge opens a scope, marks the stack and passes its arguments as temporaries of
the scope. `takeArguments_pass` says that they all come off again, and nothing else.

Then the sub has the stack. What it does there are `Uses` of the stack: it may do anything but close
scopes that it has not opened. Such uses leave what is below alone (`Uses.underlies`): the scopes
that were open are open, and their temporaries are there. So if the sub puts values and marks back
(`Resumes`), closing the scope of the call leaves nothing of it behind.
-/

namespace GuestBridge.ArgumentStack

variable {s s₁ s₂ : ArgumentStack}

/-! ## Passing -/

/-- Pushes scalars, first to last, as temporaries of the innermost scope. -/
def pass (s : ArgumentStack) (hs : List Handle) : ArgumentStack :=
  { s with values := s.values ++ hs.toArray, temps := s.temps ++ hs.toArray }

@[simp] theorem pass_nil (s : ArgumentStack) : s.pass [] = s := by
  simp [pass]

theorem pass_pass (s : ArgumentStack) (hs hs' : List Handle) :
    (s.pass hs).pass hs' = s.pass (hs ++ hs') := by
  simp [pass]

theorem push_addTemporary (s : ArgumentStack) (h : Handle) :
    (s.addTemporary h).push h = s.pass [h] := by
  simp [pass, push, addTemporary]

/-- The arguments are what lies above the mark. -/
theorem takeArguments_pass (s : ArgumentStack) (hs : List Handle) :
    (s.mark.pass hs).takeArguments = (.ok hs, { s with temps := s.temps ++ hs.toArray }) := by
  simp [takeArguments, pass, mark, height]

/-- Scalars on top of a stack. -/
def raise (s : ArgumentStack) (hs : List Handle) : ArgumentStack :=
  { s with values := s.values ++ hs.toArray }

@[simp] theorem raise_nil (s : ArgumentStack) : s.raise [] = s := by
  simp [raise]

theorem pass_eq_raise (s : ArgumentStack) (hs : List Handle) :
    s.pass hs = { s with temps := s.temps ++ hs.toArray }.raise hs := rfl

/-- What lies above the innermost mark can be popped. -/
theorem pop_raise (hmark : s.marks.back?.getD 0 ≤ s.height) (hs : List Handle) (k : Handle) :
    (s.raise (hs ++ [k])).pop = (.ok k, s.raise hs) := by
  have hvalues : (s.raise (hs ++ [k])).values = (s.raise hs).values.push k := by
    simp [raise]
  have hheight : ¬ (s.raise (hs ++ [k])).height ≤ s.marks.back?.getD 0 := by
    rw [height, hvalues, Array.size_push, raise, Array.size_append]
    rw [height] at hmark
    omega
  unfold pop
  rw [hvalues, Array.back?_push]
  dsimp only
  rw [show (s.raise (hs ++ [k])).marks = s.marks from rfl, if_neg hheight, Array.pop_push]
  rfl

/-! ## Uses of the stack -/

/-- One use of the stack that closes no scope down to a depth. -/
inductive Use (depth : Nat) (s : ArgumentStack) : ArgumentStack → Prop where
  | push (h : Handle) : Use depth s (s.push h)
  | pop : Use depth s s.pop.2
  | mark : Use depth s s.mark
  | takeArguments : Use depth s s.takeArguments.2
  | addTemporary (h : Handle) : Use depth s (s.addTemporary h)
  | openScope : Use depth s s.openScope
  | closeScope {d : Nat} : depth < d → Use depth s (s.closeScope d).2

/-- Any number of such uses. -/
inductive Uses (depth : Nat) (s : ArgumentStack) : ArgumentStack → Prop where
  | refl : Uses depth s s
  | step {s₁ s₂ : ArgumentStack} : Uses depth s s₁ → Use depth s₁ s₂ → Uses depth s s₂

/-- The scopes of a stack are open on another one, and their temporaries are there. Further scopes
lie above. -/
structure Underlies (s s₁ : ArgumentStack) : Prop where
  temps : ∃ more, s₁.temps = s.temps ++ more
  scopes : ∃ inner, s₁.scopes = inner ++ s.scopes ∧ ∀ floor ∈ inner, s.temps.size ≤ floor.temps

theorem Underlies.refl (s : ArgumentStack) : s.Underlies s where
  temps := ⟨#[], by simp⟩
  scopes := ⟨[], rfl, by simp⟩

/-- Values and marks are of no matter. -/
theorem Underlies.of_eq (hunder : s.Underlies s₁) (htemps : s₂.temps = s₁.temps)
    (hscopes : s₂.scopes = s₁.scopes) : s.Underlies s₂ where
  temps := htemps ▸ hunder.temps
  scopes := hscopes ▸ hunder.scopes

theorem Underlies.addTemporary (hunder : s.Underlies s₁) (h : Handle) :
    s.Underlies (s₁.addTemporary h) where
  temps := by
    obtain ⟨more, hmore⟩ := hunder.temps
    exact ⟨more.push h, by rw [ArgumentStack.addTemporary, hmore, Array.push_append]⟩
  scopes := hunder.scopes

/-- A scope that is opened lies above the temporaries that are there. -/
theorem Underlies.openScope (hunder : s.Underlies s₁) : s.Underlies s₁.openScope where
  temps := hunder.temps
  scopes := by
    obtain ⟨more, hmore⟩ := hunder.temps
    obtain ⟨inner, hinner, habove⟩ := hunder.scopes
    refine ⟨⟨s₁.height, s₁.temps.size, s₁.marks.size⟩ :: inner, ?_, ?_⟩
    · rw [ArgumentStack.openScope, hinner, List.cons_append]
    · intro floor hmem
      rcases List.mem_cons.1 hmem with rfl | hmem
      · dsimp only
        rw [hmore, Array.size_append]
        omega
      · exact habove floor hmem

theorem closeDownTo_of_lt {d : Nat} {outer : List Floor} (hd : outer.length < d)
    (s : ArgumentStack) : closeDownTo d outer s = ([], { s with scopes := outer }) := by
  cases outer with
  | nil => rfl
  | cons floor outer =>
    rw [List.length_cons] at hd
    rw [closeDownTo, if_neg (by omega)]

/-- Closing scopes cuts back to the floor of one of those that are closed. -/
theorem underlies_closeDownTo {d : Nat} (hd : s.depth < d) (inner : List Floor)
    (habove : ∀ floor ∈ inner, s.temps.size ≤ floor.temps) {s₁ : ArgumentStack}
    (htemps : ∃ more, s₁.temps = s.temps ++ more) :
    s.Underlies (closeDownTo d (inner ++ s.scopes) s₁).2 := by
  induction inner generalizing s₁ with
  | nil =>
    rw [List.nil_append, closeDownTo_of_lt hd]
    exact ⟨htemps, [], rfl, by simp⟩
  | cons f inner ih =>
    rw [List.cons_append, closeDownTo]
    split
    · refine ih (fun g hg => habove g (List.mem_cons_of_mem f hg)) ?_
      obtain ⟨more, hmore⟩ := htemps
      have hf := habove f List.mem_cons_self
      refine ⟨more.extract 0 (f.temps - s.temps.size), ?_⟩
      show s₁.temps.shrink f.temps = _
      rw [hmore, Array.shrink_eq_take, Array.take_eq_extract, Array.extract_append,
        Array.extract_eq_self_of_le hf, Nat.zero_sub]
    · exact ⟨htemps, f :: inner, rfl, habove⟩

theorem scopes_pop (s : ArgumentStack) : s.pop.2.scopes = s.scopes := by
  unfold pop
  split
  · split <;> rfl
  · rfl

theorem scopes_takeArguments (s : ArgumentStack) : s.takeArguments.2.scopes = s.scopes := by
  unfold takeArguments
  split
  · rfl
  · split <;> rfl

/-- A use of the stack that closes none of its scopes leaves them and their temporaries alone. -/
theorem Use.underlies (huse : Use s.depth s₁ s₂) (hunder : s.Underlies s₁) : s.Underlies s₂ := by
  cases huse with
  | push h => exact hunder.of_eq rfl rfl
  | pop => exact hunder.of_eq s₁.temps_pop s₁.scopes_pop
  | mark => exact hunder.of_eq rfl rfl
  | takeArguments => exact hunder.of_eq s₁.temps_takeArguments s₁.scopes_takeArguments
  | addTemporary h => exact hunder.addTemporary h
  | openScope => exact hunder.openScope
  | closeScope hd =>
    obtain ⟨inner, hinner, habove⟩ := hunder.scopes
    rw [ArgumentStack.closeScope, hinner]
    exact underlies_closeDownTo hd inner habove hunder.temps

theorem Uses.underlies (huses : s.Uses s.depth s₁) : s.Underlies s₁ := by
  induction huses with
  | refl => exact .refl s
  | step _ huse ih => exact huse.underlies ih

/-! ## Coming back from the sub -/

/-- A sub that has used the stack, and closed no scope but its own, returns with the values and
marks that it has found. -/
structure Resumes (s s₁ : ArgumentStack) : Prop where
  uses : s.Uses s.depth s₁
  values : s₁.values = s.values
  marks : s₁.marks = s.marks

theorem Resumes.refl (s : ArgumentStack) : s.Resumes s := ⟨.refl, rfl, rfl⟩

theorem closeDownTo_floor (floor : Floor) (outer : List Floor) (s : ArgumentStack) :
    (closeDownTo (outer.length + 1) (floor :: outer) s).2
      = { s.cutTo floor with scopes := outer } := by
  rw [closeDownTo, if_pos (Nat.le_refl _)]
  dsimp only
  rw [closeDownTo_of_lt (Nat.lt_succ_self _)]

/-- Closing a scope takes back what was put on top of the stack since, and answers the temporaries,
the last one first. -/
theorem closeScope_of_append {hs : List Handle} (hvalues : ∃ more, s₁.values = s.values ++ more)
    (hmarks : ∃ more, s₁.marks = s.marks ++ more) (htemps : s₁.temps = s.temps ++ hs.toArray)
    (hscopes : s₁.scopes = s.openScope.scopes) :
    s₁.closeScope (s.scopes.length + 1) = (hs.reverse, s) := by
  obtain ⟨values, hvalues⟩ := hvalues
  obtain ⟨marks, hmarks⟩ := hmarks
  rw [ArgumentStack.closeScope, hscopes, openScope]
  dsimp only
  rw [closeDownTo, if_pos (Nat.le_refl _)]
  dsimp only
  rw [closeDownTo_of_lt (Nat.lt_succ_self _)]
  simp [cutTo, height, hvalues, hmarks, htemps, Array.shrink_eq_take]

/-- Closing the scope of a call takes its arguments back. -/
theorem closeScope_pass (s : ArgumentStack) (hs : List Handle) :
    (s.openScope.mark.pass hs).closeScope (s.scopes.length + 1) = (hs.reverse, s) :=
  closeScope_of_append ⟨_, rfl⟩ ⟨#[_], Array.push_eq_append⟩ rfl rfl

/-- It does so as well when they have been taken off the stack. -/
theorem closeScope_takeArguments (s : ArgumentStack) (hs : List Handle) :
    (s.openScope.mark.pass hs).takeArguments.2.closeScope (s.scopes.length + 1)
      = (hs.reverse, s) := by
  rw [takeArguments_pass]
  exact closeScope_of_append ⟨#[], Array.append_empty.symm⟩ ⟨#[], Array.append_empty.symm⟩ rfl rfl

/-- Closing a scope closes the ones inside as well. Their temporaries lie above its own. The heights
that values and marks are cut back to do not depend on what is on the stack. -/
theorem closeDownTo_cut (floor : Floor) (outer inner : List Floor)
    (hinner : ∀ f ∈ inner, floor.temps ≤ f.temps) :
    ∃ n k, n ≤ floor.values ∧ ∀ s : ArgumentStack,
      (closeDownTo (outer.length + 1) (inner ++ floor :: outer) s).2 =
        { values := s.values.shrink n
          marks := s.marks.shrink k
          temps := s.temps.shrink floor.temps
          scopes := outer } := by
  induction inner with
  | nil =>
    refine ⟨floor.values, floor.marks, Nat.le_refl _, fun s => ?_⟩
    rw [List.nil_append, closeDownTo_floor]
    rfl
  | cons f inner ih =>
    obtain ⟨n, k, hn, hcut⟩ := ih fun g hg => hinner g (List.mem_cons_of_mem _ hg)
    have htemps := hinner f List.mem_cons_self
    refine ⟨min n f.values, min k f.marks, by omega, fun s => ?_⟩
    rw [List.cons_append, closeDownTo, if_pos (by simp; omega)]
    dsimp only
    rw [hcut, cutTo]
    simp [Array.shrink_eq_take, Nat.min_eq_left htemps]

theorem closeDownTo_inner (floor : Floor) (outer inner : List Floor)
    (hinner : ∀ f ∈ inner, floor.temps ≤ f.temps) (s : ArgumentStack) :
    (closeDownTo (outer.length + 1) (inner ++ floor :: outer) s).2.temps
        = s.temps.shrink floor.temps ∧
      (closeDownTo (outer.length + 1) (inner ++ floor :: outer) s).2.scopes = outer := by
  obtain ⟨n, k, -, hcut⟩ := closeDownTo_cut floor outer inner hinner
  rw [hcut]
  exact ⟨rfl, rfl⟩

variable {args : Array Handle}

/-- When the scope of a call is closed, its temporaries are gone, and so are the results that were
kept as temporaries. -/
theorem Resumes.closeScope
    (hresumes : Resumes { s.openScope with temps := s.temps ++ args } s₁) (kept : Array Handle) :
    ({ s₁ with temps := s₁.temps ++ kept }.closeScope (s.scopes.length + 1)).2.temps = s.temps ∧
      ({ s₁ with temps := s₁.temps ++ kept }.closeScope (s.scopes.length + 1)).2.scopes
        = s.scopes := by
  obtain ⟨more, hmore⟩ := hresumes.uses.underlies.temps
  obtain ⟨inner, hinner, habove⟩ := hresumes.uses.underlies.scopes
  have hfloors : ∀ f ∈ inner, s.temps.size ≤ f.temps := by
    intro f hf
    have hf := habove f hf
    dsimp only at hf
    rw [Array.size_append] at hf
    omega
  have hopen : s₁.scopes = inner ++ ⟨s.height, s.temps.size, s.marks.size⟩ :: s.scopes := hinner
  have hclosed := closeDownTo_inner ⟨s.height, s.temps.size, s.marks.size⟩ s.scopes inner hfloors
    { s₁ with temps := s₁.temps ++ kept }
  rw [← hopen] at hclosed
  refine ⟨hclosed.1.trans ?_, hclosed.2⟩
  simp [hmore, Array.shrink_eq_take]

/-- If the sub has left no scope open, the stack is the one from before the call. -/
theorem Resumes.closeScope_eq
    (hresumes : Resumes { s.openScope with temps := s.temps ++ args } s₁)
    (hdepth : s₁.depth = s.depth + 1) (kept : Array Handle) :
    ({ s₁ with temps := s₁.temps ++ kept }.closeScope (s.scopes.length + 1)).2 = s := by
  obtain ⟨more, hmore⟩ := hresumes.uses.underlies.temps
  obtain ⟨inner, hinner, -⟩ := hresumes.uses.underlies.scopes
  have hnone : inner = [] := by
    have hlength := congrArg List.length hinner
    rw [List.length_append] at hlength
    simp only [depth, openScope, List.length_cons] at hdepth hlength
    exact List.length_eq_zero_iff.1 (by omega)
  have hclose : { s₁ with temps := s₁.temps ++ kept }.closeScope (s.scopes.length + 1)
      = ((args ++ more ++ kept).toList.reverse, s) := by
    refine closeScope_of_append ⟨#[], ?_⟩ ⟨#[], ?_⟩ ?_ ?_
    · rw [Array.append_empty]
      exact hresumes.values
    · rw [Array.append_empty]
      exact hresumes.marks
    · simp only [hmore, Array.toArray_toList, Array.append_assoc]
    · rw [hinner, hnone]
      rfl
  rw [hclose]

end GuestBridge.ArgumentStack
