import GuestBridge.Guest.Interpreter
import GuestBridge.Proofs.Ledger.Heap

/-!
# The share ledger of one interpreter

The temporaries of the argument stack own a share for each time they are listed. An interpreter is
balanced for `owed` if its heap is, with the temporaries counted besides: what is left for `owed` is
what callers and boundary objects own.

Stack values and marks own nothing, so the operations on them leave the ledger alone. Closing a
scope drops exactly the shares of the temporaries it takes off the list.
-/

namespace GuestBridge

namespace ArgumentStack

variable (s : ArgumentStack)

/-- How often a handle is listed as a temporary. -/
def tempCount (s : ArgumentStack) (k : Handle) : Nat := s.temps.toList.count k

theorem tempCount_eq (k : Handle) : s.tempCount k = s.temps.toList.count k := rfl

theorem temps_pop : s.pop.2.temps = s.temps := by
  unfold pop
  split
  · split <;> rfl
  · rfl

theorem temps_takeArguments : s.takeArguments.2.temps = s.temps := by
  unfold takeArguments
  split
  · rfl
  · split <;> rfl

/-- The temporaries of the scopes that are closed leave the list, and no others. -/
theorem count_closeDownTo (depth : Nat) (k : Handle) : ∀ (floors : List Floor) (s : ArgumentStack),
    (closeDownTo depth floors s).1.count k + (closeDownTo depth floors s).2.tempCount k
      = s.tempCount k
  | [], s => by simp [closeDownTo, tempCount]
  | floor :: outer, s => by
    rw [closeDownTo]
    split
    · have ih := count_closeDownTo depth k outer (s.cutTo floor)
      have hcut : (s.cutTo floor).tempCount k = (s.temps.toList.take floor.temps).count k := by
        rw [tempCount, cutTo, Array.toList_shrink]
      have hhere : (s.temps.extract floor.temps).toList = s.temps.toList.drop floor.temps := by
        rw [Array.toList_extract, List.extract_eq_take_drop]
        exact List.take_of_length_le (by simp)
      have hsplit := congrArg (List.count k) (List.take_append_drop floor.temps s.temps.toList)
      rw [List.count_append, ← hcut, ← ih] at hsplit
      dsimp only
      rw [List.count_append, List.count_reverse, hhere, s.tempCount_eq, ← hsplit]
      omega
    · simp [tempCount]

theorem count_closeScope (depth : Nat) (k : Handle) :
    (s.closeScope depth).1.count k + (s.closeScope depth).2.tempCount k = s.tempCount k :=
  count_closeDownTo depth k s.scopes s

end ArgumentStack

theorem Mode.split_append (mode : Mode) (results : List Handle) :
    (mode.split results).1 ++ (mode.split results).2 = results := by
  cases mode with
  | void => simp [Mode.split]
  | scalar =>
    rcases List.eq_nil_or_concat results with rfl | ⟨init, last, rfl⟩
    · rfl
    · simp [Mode.split]
  | list => simp [Mode.split]

namespace Interpreter

/-- The heap is balanced for `owed` together with the temporaries. -/
def Balanced (it : Interpreter) (owed : Handle → Nat) : Prop :=
  it.heap.Balanced fun k => owed k + it.stack.tempCount k

/-- An operation turns shares `give`, owned outside, into shares `get`, whatever else is owned
there. -/
def Trades (it : Interpreter) (f : Interpreter → α × Interpreter) (give get : List Handle) : Prop :=
  ∀ owed : Handle → Nat, (it.Balanced fun k => owed k + give.count k) →
    (f it).2.Balanced fun k => owed k + get.count k

variable {it : Interpreter} {h : Handle} {owed : Handle → Nat} {give get : List Handle}

theorem balanced_empty : ({} : Interpreter).Balanced fun _ => 0 := Heap.balanced_empty

theorem Balanced.congr {owed' : Handle → Nat} (hbal : it.Balanced owed)
    (howed : ∀ k, owed k = owed' k) : it.Balanced owed' :=
  Heap.Balanced.congr hbal fun k => by rw [howed]

/-- What has an owner outside is there. -/
theorem Balanced.exists_cell (hbal : it.Balanced owed) (hpos : 0 < owed h) :
    ∃ c, it.heap.cell? h = some c :=
  Heap.Balanced.exists_cell hbal (by omega)

/-! ## Operations on the heap alone -/

theorem trades_onHeap {f : Heap → α × Heap}
    (hf : ∀ owed : Handle → Nat, (it.heap.Balanced fun k => owed k + give.count k) →
      (f it.heap).2.Balanced fun k => owed k + get.count k) :
    it.Trades (·.onHeap f) give get := by
  intro owed hbal
  have hheap := hf (fun k => owed k + it.stack.tempCount k)
    (Heap.Balanced.congr hbal fun k => Nat.add_right_comm _ _ _)
  exact Heap.Balanced.congr hheap fun k => Nat.add_right_comm _ _ _

theorem trades_create (body : Body) :
    it.Trades (·.create body) body.children [(it.create body).1] :=
  trades_onHeap fun _ hbal => hbal.allocate

theorem trades_referTaking (hc : it.heap.contains h = true) :
    it.Trades (·.referTaking h) [h] [(it.heap.allocate (.ref h)).1] :=
  trades_onHeap fun owed hbal => by
    rw [Heap.referTaking_of_contains hc]
    exact @Heap.Balanced.allocate _ (.ref h) _ hbal

theorem trades_referSharing {c : Cell} (hc : it.heap.cell? h = some c) :
    it.Trades (·.referSharing h) [] [((it.heap.share h).2.allocate (.ref h)).1] :=
  trades_onHeap fun owed hbal => by
    rw [Heap.referSharing_of_cell? hc]
    exact @Heap.Balanced.allocate _ (.ref h) _ ((hbal.congr fun k => rfl).share hc)

theorem trades_arrayPush {array item : Handle} (harray : it.heap.isArray array = true) :
    it.Trades (·.arrayPush array item) [item] [] :=
  trades_onHeap fun _ hbal => (hbal.arrayPush harray).2

theorem trades_hashStore {hash value : Handle} (hhash : it.heap.isHash hash = true)
    (key : Bytes) : it.Trades (·.hashStore hash key value) [value] [] :=
  trades_onHeap fun _ hbal => (hbal.hashStore hhash key).2

theorem trades_bless (h : Handle) (package : String) : it.Trades (·.bless h package) [] [] :=
  trades_onHeap fun _ hbal => hbal.blessTarget h package

theorem trades_share {c : Cell} (hc : it.heap.cell? h = some c) :
    it.Trades (·.share h) [] [h] :=
  trades_onHeap fun _ hbal => hbal.share hc

theorem trades_unshare (h : Handle) : it.Trades (·.unshare h) [h] [] :=
  trades_onHeap fun _ hbal => hbal.unshare.2

/-- A share that an owner outside has can be dropped. -/
theorem Balanced.unshare (hbal : it.Balanced fun k => owed k + [h].count k) :
    (∃ n, (it.unshare h).1 = .ok n) ∧ (it.unshare h).2.Balanced owed := by
  have hheap : it.heap.Balanced fun k => (owed k + it.stack.tempCount k) + [h].count k :=
    Heap.Balanced.congr hbal fun k => Nat.add_right_comm _ _ _
  exact hheap.unshare

/-! ## Operations on the stack alone -/

/-- A stack operation that keeps the temporaries leaves the ledger alone. -/
theorem trades_of_temps {f : Interpreter → α × Interpreter} (hheap : (f it).2.heap = it.heap)
    (htemps : (f it).2.stack.temps = it.stack.temps) : it.Trades f [] [] := by
  intro owed hbal
  have hcount : ∀ k, (f it).2.stack.tempCount k = it.stack.tempCount k := fun k => by
    rw [ArgumentStack.tempCount_eq, htemps, ArgumentStack.tempCount_eq]
  unfold Balanced
  rw [hheap]
  exact Heap.Balanced.congr hbal fun k => by rw [hcount]

theorem trades_push (h : Handle) : it.Trades (·.push h) [] [] := by
  refine trades_of_temps ?_ ?_ <;> (unfold push ifLive; split <;> rfl)

theorem trades_pop : it.Trades (·.pop) [] [] :=
  trades_of_temps rfl it.stack.temps_pop

theorem trades_mark : it.Trades (fun it => ((), it.mark)) [] [] := trades_of_temps rfl rfl

theorem trades_openScope : it.Trades (·.openScope) [] [] := trades_of_temps rfl rfl

/-- A share that becomes a temporary changes its owner. -/
theorem balanced_addTemporary {stack : ArgumentStack}
    (htemps : stack.temps = it.stack.temps.push h)
    (hbal : it.Balanced fun k => owed k + [h].count k) :
    Balanced { it with stack } owed := by
  refine Heap.Balanced.congr hbal ?_
  intro k
  have hcount : stack.tempCount k = it.stack.tempCount k + [h].count k := by
    rw [ArgumentStack.tempCount, htemps, Array.toList_push, List.count_append]
    rfl
  dsimp only
  rw [hcount]
  omega

theorem trades_addTemporary (hc : it.heap.contains h = true) :
    it.Trades (·.addTemporary h) [h] [] := by
  intro owed hbal
  simp only [addTemporary, ifLive, if_pos hc]
  exact balanced_addTemporary rfl hbal

theorem trades_pushTemporary (hc : it.heap.contains h = true) :
    it.Trades (·.pushTemporary h) [h] [] := by
  intro owed hbal
  simp only [pushTemporary, ifLive, if_pos hc]
  exact balanced_addTemporary rfl hbal

/-- Closing scopes drops the shares of their temporaries, and none of these is stale. -/
theorem Balanced.closeScope (hbal : it.Balanced owed) (depth : Nat) :
    (it.closeScope depth).1 = [] ∧ (it.closeScope depth).2.Balanced owed := by
  have hheap : it.heap.Balanced fun k =>
      (owed k + (it.stack.closeScope depth).2.tempCount k)
        + (it.stack.closeScope depth).1.count k :=
    Heap.Balanced.congr hbal fun k => by
      have hcount := it.stack.count_closeScope depth k
      omega
  exact hheap.unshareEach

/-! ## Calls -/

/-- Whatever the method is, only the arguments are taken off. -/
theorem takeMethodCall_snd (it : Interpreter) (name : String) :
    (it.takeMethodCall name).2 = (it.onStack (·.takeArguments)).2 := by
  unfold takeMethodCall
  split
  · rename_i heq
    rw [heq]
  · rename_i heq
    rw [heq]
  · rename_i heq
    rw [heq]
    split
    · rfl
    · split <;> rfl

theorem takeSubCall_snd (it : Interpreter) (target : Target) :
    (it.takeSubCall target).2 = (it.onStack (·.takeArguments)).2 := by
  unfold takeSubCall
  split
  · rename_i heq
    rw [heq]
  · rename_i heq
    rw [heq]
    split <;> rfl

theorem trades_takeMethodCall (name : String) : it.Trades (·.takeMethodCall name) [] [] :=
  trades_of_temps (by rw [takeMethodCall_snd]; rfl)
    (by rw [takeMethodCall_snd]; exact it.stack.temps_takeArguments)

theorem trades_takeSubCall (target : Target) : it.Trades (·.takeSubCall target) [] [] :=
  trades_of_temps (by rw [takeSubCall_snd]; rfl)
    (by rw [takeSubCall_snd]; exact it.stack.temps_takeArguments)

theorem keepEach_cons_snd (h : Handle) (rest : List Handle) (it : Interpreter) :
    (keepEach (h :: rest) it).2 = (keepEach rest (it.pushTemporary h).2).2 := by
  rw [keepEach]
  rcases it.pushTemporary h with ⟨_ | _, _⟩ <;> rfl

/-- The results kept become temporaries, those that are stale excepted. -/
theorem Balanced.keepEach {hs : List Handle} {p : Handle → Bool} :
    ∀ {it : Interpreter}, (it.Balanced fun k => owed k + (hs.filter p).count k) →
      (∀ k ∈ hs, it.heap.contains k = p k) → (it.keepEach hs).2.Balanced owed := by
  induction hs with
  | nil => exact fun hbal _ => hbal.congr fun k => by simp
  | cons h rest ih =>
    intro it hbal hlive
    have hh := hlive h List.mem_cons_self
    have hrest : ∀ k ∈ rest, (it.pushTemporary h).2.heap.contains k = p k := by
      intro k hk
      rw [← hlive k (List.mem_cons_of_mem h hk), pushTemporary, ifLive]
      split <;> rfl
    have hnext : (it.pushTemporary h).2.Balanced fun k => owed k + (rest.filter p).count k := by
      cases hp : p h with
      | true =>
        refine trades_pushTemporary (hh.trans hp) (fun k => owed k + (rest.filter p).count k)
          (hbal.congr ?_)
        intro k
        rw [List.filter_cons_of_pos hp, List.count_cons, List.count_singleton]
        omega
      | false =>
        rw [List.filter_cons_of_neg (by simp [hp])] at hbal
        rw [pushTemporary, ifLive, if_neg (by simp [hh, hp])]
        exact hbal
    rw [keepEach_cons_snd]
    exact ih hnext hrest

/-- The results given up lose their shares. Those kept are there afterwards, or are stale, as
before: a result that is kept as well as given up has another share. -/
theorem Balanced.dropGiven {given kept : List Handle} {p : Handle → Bool}
    (hbal : it.Balanced fun k => owed k + ((given ++ kept).filter p).count k)
    (hlive : ∀ k ∈ given ++ kept, it.heap.contains k = p k) :
    (it.heap.unshareEach given).1 = (given.filter fun k => !p k).map Handle.stale ∧
      ((it.onHeap (·.unshareEach given)).2.Balanced fun k =>
        owed k + (kept.filter p).count k) ∧
      ∀ k ∈ kept, (it.onHeap (·.unshareEach given)).2.heap.contains k = p k := by
  have hheap : it.heap.Balanced fun k =>
      (owed k + (kept.filter p).count k + it.stack.tempCount k) + (given.filter p).count k :=
    Heap.Balanced.congr hbal fun k => by
      simp only [List.filter_append, List.count_append]
      omega
  have hstale : ∀ k ∈ given, p k = false → it.heap.contains k = false := fun k hk hpk => by
    rw [hlive k (List.mem_append_left kept hk), hpk]
  have hdrop : (it.onHeap (·.unshareEach given)).2.Balanced fun k =>
      owed k + (kept.filter p).count k := hheap.unshareEach_filter hstale
  refine ⟨hheap.unshareEach_faults hstale, hdrop, ?_⟩
  intro k hk
  have hbefore := hlive k (List.mem_append_right given hk)
  cases hpk : p k with
  | true =>
    have hmem : k ∈ kept.filter p := List.mem_filter.2 ⟨hk, hpk⟩
    obtain ⟨c, hc⟩ := hdrop.exists_cell (h := k) (by
      have hpos := List.count_pos_iff.2 hmem
      omega)
    exact Heap.contains_iff.2 ⟨c, hc⟩
  | false =>
    cases hc : (it.onHeap (·.unshareEach given)).2.heap.contains k with
    | false => rfl
    | true => rw [Heap.contains_of_contains_unshareEach hc, hpk] at hbefore; exact hbefore

/-- The results given up lose their shares and those kept become temporaries, whichever are
stale. -/
theorem Balanced.settleSplit {given kept : List Handle} {p : Handle → Bool}
    (hbal : it.Balanced fun k => owed k + ((given ++ kept).filter p).count k)
    (hlive : ∀ k ∈ given ++ kept, it.heap.contains k = p k) :
    (Interpreter.keepEach kept (it.onHeap (·.unshareEach given)).2).2.Balanced owed := by
  obtain ⟨-, hdrop, hkept⟩ := hbal.dropGiven hlive
  exact hdrop.keepEach hkept

/-- What is settled: the results, or a new undefined value where one is wanted and none is there. -/
theorem settle_snd (it : Interpreter) (mode : Mode) (results : List Handle) :
    (it.settle mode results).2 =
      if mode = .scalar ∧ results = [] then
        (keepEach [(it.create .undef).1] (it.create .undef).2).2
      else
        (keepEach (mode.split results).2
          (it.onHeap (·.unshareEach (mode.split results).1)).2).2 := by
  unfold settle
  cases mode with
  | scalar =>
    cases results with
    | nil =>
      rw [if_pos ⟨rfl, rfl⟩]
      dsimp only [Mode.split, List.dropLast, List.getLast?, Option.toList, onHeap, Heap.unshareEach]
      split <;> rfl
    | cons r rest =>
      rw [if_neg (by simp)]
      dsimp only
      split <;> rfl
  | void | list =>
    rw [if_neg (by simp)]
    dsimp only
    split <;> rfl

/-- Settling the results of a sub spends the shares of those that are there. -/
theorem trades_settle (mode : Mode) (results : List Handle) :
    it.Trades (·.settle mode results) (results.filter it.heap.contains) [] := by
  intro owed hbal
  dsimp only
  rw [settle_snd]
  split
  · rename_i hempty
    rw [hempty.2] at hbal
    have hnew := trades_create .undef owed hbal
    obtain ⟨c, hc⟩ := hnew.exists_cell (h := (it.create .undef).1)
      (by rw [List.count_singleton_self]; omega)
    rw [keepEach_cons_snd]
    exact trades_pushTemporary (Heap.contains_iff.2 ⟨c, hc⟩) owed hnew
  · rw [← mode.split_append results] at hbal
    exact Balanced.settleSplit hbal fun _ _ => rfl

end Interpreter

end GuestBridge
