import GuestBridge.Proofs.Calls.Stack

/-!
# Acts on the argument stack

Whatever happens to an argument stack is a list of acts. `after` is the stack that they lead to,
`madeBy` lists the temporaries that they hand over to scopes, and `takenBy` those that they take
out to be released.

* `perm_made_taken` — a temporary is taken out once for each time it was handed over, or is still
  there
* `Underlies.after`, `Underlies.clears` — acts that close only scopes of their own leave what is
  below alone, so that closing a scope leaves nothing behind of what was done inside
* `Bases.after` — acts that never go below a height leave the values and marks below it alone
-/

namespace GuestBridge.ArgumentStack

variable {s s₁ s₂ : ArgumentStack}

/-! ## Acts -/

/-- One thing done to a stack. -/
inductive Act where
  | push (h : Handle)
  | pop
  | mark
  | takeArguments
  | addTemporary (h : Handle)
  | openScope
  | closeScope (depth : Nat)
  deriving DecidableEq, Repr

/-- The stack after an act. -/
def act (s : ArgumentStack) : Act → ArgumentStack
  | .push h => s.push h
  | .pop => s.pop.2
  | .mark => s.mark
  | .takeArguments => s.takeArguments.2
  | .addTemporary h => s.addTemporary h
  | .openScope => s.openScope
  | .closeScope depth => (s.closeScope depth).2

/-- The stack after some acts, first to last. -/
def after (s : ArgumentStack) (acts : List Act) : ArgumentStack := acts.foldl act s

@[simp] theorem after_nil (s : ArgumentStack) : s.after [] = s := rfl

@[simp] theorem after_cons (s : ArgumentStack) (a : Act) (acts : List Act) :
    s.after (a :: acts) = (s.act a).after acts := rfl

theorem after_append (s : ArgumentStack) (acts more : List Act) :
    s.after (acts ++ more) = (s.after acts).after more := List.foldl_append

/-- The acts that push scalars, first to last, as temporaries of the innermost scope. -/
def passing (hs : List Handle) : List Act := hs.flatMap fun h => [.addTemporary h, .push h]

theorem after_passing (s : ArgumentStack) (hs : List Handle) : s.after (passing hs) = s.pass hs := by
  induction hs generalizing s with
  | nil => exact s.pass_nil.symm
  | cons h rest ih =>
    have hfirst : s.after (passing (h :: rest)) = ((s.addTemporary h).push h).after (passing rest) :=
      rfl
    rw [hfirst, ih, push_addTemporary, pass_pass, List.singleton_append]

@[simp] theorem closeScope_not_mem_passing (d : Nat) (hs : List Handle) :
    Act.closeScope d ∉ passing hs := by
  simp [passing]

/-- What has been passed can be told from the temporaries. -/
theorem extract_temps_pass (s : ArgumentStack) (hs : List Handle) :
    ((s.pass hs).temps.extract s.temps.size).toList = hs := by
  simp [pass]

/-! ## Temporaries -/

/-- The temporaries that acts hand over to scopes. -/
def madeBy (acts : List Act) : List Handle :=
  acts.flatMap fun
    | .addTemporary h => [h]
    | _ => []

/-- The temporaries that acts take out to be released. -/
def takenBy (s : ArgumentStack) : List Act → List Handle
  | [] => []
  | .closeScope depth :: rest => (s.closeScope depth).1 ++ (s.closeScope depth).2.takenBy rest
  | a :: rest => (s.act a).takenBy rest

theorem count_made_taken (acts : List Act) (k : Handle) : ∀ s : ArgumentStack,
    s.tempCount k + (madeBy acts).count k = (s.takenBy acts).count k + (s.after acts).tempCount k := by
  induction acts with
  | nil => simp [madeBy, takenBy]
  | cons a rest ih =>
    intro s
    have hrest := ih (s.act a)
    -- only two kinds of act have to do with temporaries
    cases a with
    | push h | mark | openScope => exact hrest
    | pop =>
      rw [tempCount, act, s.temps_pop] at hrest
      exact hrest
    | takeArguments =>
      rw [tempCount, act, s.temps_takeArguments] at hrest
      exact hrest
    | addTemporary h =>
      have hmade : madeBy (.addTemporary h :: rest) = h :: madeBy rest := rfl
      have hcount : (s.addTemporary h).tempCount k = s.tempCount k + [h].count k := by
        simp [tempCount, addTemporary]
      have htaken : s.takenBy (.addTemporary h :: rest) = (s.addTemporary h).takenBy rest := rfl
      rw [act, hcount] at hrest
      rw [hmade, htaken, after_cons, act, ← List.singleton_append, List.count_append]
      omega
    | closeScope depth =>
      have hclosed := s.count_closeScope depth k
      have hmade : madeBy (.closeScope depth :: rest) = madeBy rest := rfl
      rw [act] at hrest
      rw [hmade, takenBy, after_cons, act, List.count_append]
      omega

/-- If the temporaries are in the end what they were, each one that was handed over on the way has
been taken out, as often as it was handed over. -/
theorem perm_made_taken {acts : List Act} (htemps : (s.after acts).temps = s.temps) :
    (madeBy acts).Perm (s.takenBy acts) := by
  refine List.perm_iff_count.2 fun k => ?_
  have hcount := count_made_taken acts k s
  rw [tempCount, tempCount, htemps] at hcount
  omega

/-! ## What lies below -/

theorem Underlies.trans (hfirst : s.Underlies s₁) (hnext : s₁.Underlies s₂) : s.Underlies s₂ where
  temps := by
    obtain ⟨more, hmore⟩ := hfirst.temps
    obtain ⟨more', hmore'⟩ := hnext.temps
    exact ⟨more ++ more', by rw [hmore', hmore, Array.append_assoc]⟩
  scopes := by
    obtain ⟨more, hmore⟩ := hfirst.temps
    obtain ⟨inner, hinner, habove⟩ := hfirst.scopes
    obtain ⟨inner', hinner', habove'⟩ := hnext.scopes
    refine ⟨inner' ++ inner, by rw [hinner', hinner, List.append_assoc], ?_⟩
    intro floor hmem
    rcases List.mem_append.1 hmem with hmem | hmem
    · have hle := habove' floor hmem
      rw [hmore, Array.size_append] at hle
      omega
    · exact habove floor hmem

theorem Underlies.depth_le (hunder : s.Underlies s₁) : s.depth ≤ s₁.depth := by
  obtain ⟨inner, hinner, -⟩ := hunder.scopes
  rw [depth, depth, hinner, List.length_append]
  omega

/-- Acts that close none of the scopes below leave them and their temporaries alone. -/
theorem Underlies.after {acts : List Act} (hunder : s.Underlies s₁)
    (hclose : ∀ d, .closeScope d ∈ acts → s.depth < d) : s.Underlies (s₁.after acts) := by
  induction acts generalizing s₁ with
  | nil => exact hunder
  | cons a rest ih =>
    have huse : Use s.depth s₁ (s₁.act a) := by
      cases a with
      | push h => exact .push h
      | pop => exact .pop
      | mark => exact .mark
      | takeArguments => exact .takeArguments
      | addTemporary h => exact .addTemporary h
      | openScope => exact .openScope
      | closeScope d => exact .closeScope (hclose d List.mem_cons_self)
    exact ih (huse.underlies hunder) fun d hd => hclose d (List.mem_cons_of_mem a hd)

/-- Nothing has been left on a stack, but something may have been taken away: the scopes and the
temporaries are the same, and there are no more values or marks. -/
structure Clears (s s₁ : ArgumentStack) : Prop where
  temps : s₁.temps = s.temps
  scopes : s₁.scopes = s.scopes
  values : s₁.height ≤ s.height
  marks : s₁.marks.size ≤ s.marks.size

theorem Clears.refl (s : ArgumentStack) : s.Clears s := ⟨rfl, rfl, Nat.le_refl _, Nat.le_refl _⟩

/-- Closing scopes cuts values and marks back to the outermost floor at least. -/
theorem size_closeDownTo (floor : Floor) (outer inner : List Floor) (s : ArgumentStack) :
    (closeDownTo (outer.length + 1) (inner ++ floor :: outer) s).2.height ≤ floor.values ∧
      (closeDownTo (outer.length + 1) (inner ++ floor :: outer) s).2.marks.size ≤ floor.marks := by
  induction inner generalizing s with
  | nil =>
    rw [List.nil_append, closeDownTo_floor]
    simp only [height, cutTo, Array.size_shrink]
    exact ⟨Nat.min_le_left _ _, Nat.min_le_left _ _⟩
  | cons f inner ih =>
    rw [List.cons_append, closeDownTo, if_pos (by simp; omega)]
    exact ih (s.cutTo f)

/-- When a scope is closed, whatever was done inside, nothing of it is left. -/
theorem Underlies.clears (hunder : s.openScope.Underlies s₁) :
    s.Clears (s₁.closeScope (s.depth + 1)).2 := by
  obtain ⟨more, hmore⟩ := hunder.temps
  obtain ⟨inner, hinner, habove⟩ := hunder.scopes
  have hopen : s₁.scopes = inner ++ ⟨s.height, s.temps.size, s.marks.size⟩ :: s.scopes := hinner
  have hclosed := closeDownTo_inner ⟨s.height, s.temps.size, s.marks.size⟩ s.scopes inner habove s₁
  have hsize := size_closeDownTo ⟨s.height, s.temps.size, s.marks.size⟩ s.scopes inner s₁
  rw [← hopen] at hclosed hsize
  refine ⟨hclosed.1.trans ?_, hclosed.2, hsize.1, hsize.2⟩
  have htemps : s₁.temps = s.temps ++ more := hmore
  simp [htemps, Array.shrink_eq_take]

/-! ## Values and marks below a height -/

/-- The values and marks of one stack are the oldest ones of another. -/
structure Bases (s s₁ : ArgumentStack) : Prop where
  values : s.values.toList <+: s₁.values.toList
  marks : s.marks.toList <+: s₁.marks.toList

theorem Bases.refl (s : ArgumentStack) : s.Bases s := ⟨List.prefix_rfl, List.prefix_rfl⟩

theorem Bases.trans (hfirst : s.Bases s₁) (hnext : s₁.Bases s₂) : s.Bases s₂ :=
  ⟨hfirst.values.trans hnext.values, hfirst.marks.trans hnext.marks⟩

/-- A stack that is cut, but not below another one, keeps what it has from there. -/
theorem Bases.of_cut (hbase : s.Bases s₁) (hcut : s₂.Bases s₁) (hheight : s.height ≤ s₂.height)
    (hmarks : s.marks.size ≤ s₂.marks.size) : s.Bases s₂ where
  values := List.prefix_of_prefix_length_le hbase.values hcut.values hheight
  marks := List.prefix_of_prefix_length_le hbase.marks hcut.marks hmarks

theorem bases_pop (s : ArgumentStack) : s.pop.2.Bases s := by
  unfold pop
  split
  · split
    · exact .refl s
    · refine ⟨?_, List.prefix_rfl⟩
      rw [Array.toList_pop]
      exact List.dropLast_prefix _
  · exact .refl s

theorem bases_takeArguments (s : ArgumentStack) : s.takeArguments.2.Bases s := by
  have hmarks : s.marks.pop.toList <+: s.marks.toList := by
    rw [Array.toList_pop]
    exact List.dropLast_prefix _
  unfold takeArguments
  split
  · exact .refl s
  · split
    · exact ⟨List.prefix_rfl, hmarks⟩
    · refine ⟨?_, hmarks⟩
      rw [Array.toList_shrink]
      exact List.take_prefix _ _

theorem bases_closeDownTo (d : Nat) (floors : List Floor) (s : ArgumentStack) :
    (closeDownTo d floors s).2.Bases s := by
  induction floors generalizing s with
  | nil => exact ⟨List.prefix_rfl, List.prefix_rfl⟩
  | cons floor outer ih =>
    rw [closeDownTo]
    split
    · refine (ih (s.cutTo floor)).trans ⟨?_, ?_⟩
      · rw [cutTo, Array.toList_shrink]
        exact List.take_prefix _ _
      · rw [cutTo, Array.toList_shrink]
        exact List.take_prefix _ _
    · exact ⟨List.prefix_rfl, List.prefix_rfl⟩

/-- An act changes values and marks at the top only. -/
theorem Bases.act {a : Act} (hbase : s.Bases s₁) (hheight : s.height ≤ (s₁.act a).height)
    (hmarks : s.marks.size ≤ (s₁.act a).marks.size) : s.Bases (s₁.act a) := by
  cases a with
  | push h =>
    refine ⟨hbase.values.trans ?_, hbase.marks⟩
    rw [ArgumentStack.act, ArgumentStack.push, Array.toList_push]
    exact List.prefix_append _ _
  | mark =>
    refine ⟨hbase.values, hbase.marks.trans ?_⟩
    rw [ArgumentStack.act, ArgumentStack.mark, Array.toList_push]
    exact List.prefix_append _ _
  | addTemporary h | openScope => exact ⟨hbase.values, hbase.marks⟩
  | pop => exact hbase.of_cut s₁.bases_pop hheight hmarks
  | takeArguments => exact hbase.of_cut s₁.bases_takeArguments hheight hmarks
  | closeScope d => exact hbase.of_cut (bases_closeDownTo d s₁.scopes s₁) hheight hmarks

/-- A stack has as many values and marks as another one, and never has fewer during some acts. -/
def StaysAbove (s : ArgumentStack) : ArgumentStack → List Act → Prop
  | s₁, [] => s.height ≤ s₁.height ∧ s.marks.size ≤ s₁.marks.size
  | s₁, a :: rest =>
    (s.height ≤ s₁.height ∧ s.marks.size ≤ s₁.marks.size) ∧ s.StaysAbove (s₁.act a) rest

instance StaysAbove.decide (s : ArgumentStack) :
    (s₁ : ArgumentStack) → (acts : List Act) → Decidable (s.StaysAbove s₁ acts)
  | _, [] => inferInstanceAs (Decidable (_ ∧ _))
  | s₁, a :: rest =>
    have := StaysAbove.decide s (s₁.act a) rest
    inferInstanceAs (Decidable ((_ ∧ _) ∧ _))

theorem StaysAbove.head {acts : List Act} (habove : s.StaysAbove s₁ acts) :
    s.height ≤ s₁.height ∧ s.marks.size ≤ s₁.marks.size := by
  cases acts with
  | nil => exact habove
  | cons a rest => exact habove.1

theorem Bases.after {acts : List Act} (hbase : s.Bases s₁) (habove : s.StaysAbove s₁ acts) :
    s.Bases (s₁.after acts) := by
  induction acts generalizing s₁ with
  | nil => exact hbase
  | cons a rest ih =>
    have hfirst := habove.2.head
    exact ih (hbase.act hfirst.1 hfirst.2) habove.2

/-- If nothing has been left and nothing been taken away, the stack is the same. -/
theorem Clears.eq (hclears : s.Clears s₁) (hbase : s.Bases s₁) : s₁ = s := by
  have hvalues := Array.toList_inj.1 (hbase.values.eq_of_length_le hclears.values)
  have hmarks := Array.toList_inj.1 (hbase.marks.eq_of_length_le hclears.marks)
  cases s
  cases s₁
  cases hclears.temps
  cases hclears.scopes
  cases hvalues
  cases hmarks
  rfl

end GuestBridge.ArgumentStack
