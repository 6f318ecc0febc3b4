import GuestBridge.Proofs.Calls.Arguments
import GuestBridge.Proofs.Steps

/-!
# Taking back the results of a call

The results that a mode keeps become temporaries on top of the stack and are popped again, the last
one first. Each is wrapped while it is still a temporary, so it is there, and so the wrapper has a
share of its own by the time that the scope of the call drops the one that the sub handed over.

The wrappers and their array are not named by anything yet. All else that the world names lies below
the bound `n` at which they start, so what is let go of in the meantime does not reach them
(`Boxes.kept`).
-/

namespace GuestBridge

/-! ## Settling -/

namespace Interpreter

variable {it : Interpreter} {owed : Handle → Nat} {results given kept : List Handle}

/-- The results that a mode keeps. In scalar mode a new undefined value stands for none. -/
def keeps (it : Interpreter) (mode : Mode) (results : List Handle) : List Handle :=
  match mode, results with
  | .scalar, [] => [(it.create .undef).1]
  | mode, results => (mode.split results).2

/-- Results that are there are all pushed. -/
theorem keepEach_eq {hs : List Handle} (hlive : ∀ h ∈ hs, it.heap.contains h = true) :
    keepEach hs it = ([], { it with stack := it.stack.pass hs }) := by
  induction hs generalizing it with
  | nil => rw [keepEach, ArgumentStack.pass_nil]
  | cons h rest ih =>
    have hpush : it.pushTemporary h = (.ok (), { it with stack := it.stack.pass [h] }) := by
      rw [pushTemporary, ifLive, if_pos (hlive h List.mem_cons_self),
        ArgumentStack.push_addTemporary]
    rw [keepEach, hpush]
    dsimp only
    have hrest : keepEach rest { it with stack := it.stack.pass [h] }
        = ([], { it with stack := (it.stack.pass [h]).pass rest }) :=
      ih fun k hk => hlive k (List.mem_cons_of_mem h hk)
    rw [hrest, ArgumentStack.pass_pass]
    rfl

/-- Results with a share each can be dropped, and those kept are there afterwards. -/
theorem Balanced.settleSplit_eq (hbal : it.Balanced fun k => owed k + (given ++ kept).count k) :
    (it.heap.unshareEach given).1 = [] ∧
      Interpreter.keepEach kept { it with heap := (it.heap.unshareEach given).2 } =
        ([], { it with heap := (it.heap.unshareEach given).2, stack := it.stack.pass kept }) := by
  have hheap : it.heap.Balanced fun k =>
      (owed k + kept.count k + it.stack.tempCount k) + given.count k :=
    Heap.Balanced.congr hbal fun k => by
      dsimp only
      rw [List.count_append]
      omega
  obtain ⟨hfaults, hleft⟩ := hheap.unshareEach
  refine ⟨hfaults, keepEach_eq ?_⟩
  intro k hk
  obtain ⟨c, hc⟩ := hleft.exists_cell (k := k) (by
    have hpos := List.count_pos_iff.2 hk
    omega)
  exact Heap.contains_iff.2 ⟨c, hc⟩

/-- Results with a share each are there. -/
theorem Balanced.filter_contains (hbal : it.Balanced fun k => owed k + results.count k) :
    results.filter it.heap.contains = results := by
  refine List.filter_eq_self.2 ?_
  intro k hk
  have hpos := List.count_pos_iff.2 hk
  obtain ⟨c, hc⟩ := hbal.exists_cell (h := k) (by omega)
  exact Heap.contains_iff.2 ⟨c, hc⟩

/-- Settling results that have a share each meets no fault. -/
theorem Balanced.settle_eq (hbal : it.Balanced fun k => owed k + results.count k) (mode : Mode) :
    it.settle mode results = (.ok (it.keeps mode results).length,
      { it with
        heap := (it.settle mode results).2.heap
        stack := it.stack.pass (it.keeps mode results) }) := by
  by_cases hempty : mode = .scalar ∧ results = []
  · -- a new undefined value stands in for the result that is wanted
    obtain ⟨rfl, rfl⟩ := hempty
    have hnew : (it.create .undef).2.Balanced fun k => owed k + [(it.create .undef).1].count k :=
      trades_create .undef owed hbal
    obtain ⟨c, hc⟩ := hnew.exists_cell (h := (it.create .undef).1)
      (by rw [List.count_singleton_self]; omega)
    have hlive : ∀ k ∈ [(it.create .undef).1], (it.create .undef).2.heap.contains k = true :=
      fun k hk => Heap.contains_iff.2 (List.mem_singleton.1 hk ▸ ⟨c, hc⟩)
    have hkeep := keepEach_eq hlive
    simp only [settle, Mode.split, List.dropLast, onHeap, Heap.unshareEach, List.getLast?_singleton,
      Option.toList_some, keeps]
    rw [hkeep]
    rfl
  · have hbal' : it.Balanced fun k =>
        owed k + ((mode.split results).1 ++ (mode.split results).2).count k := by
      rw [mode.split_append]
      exact hbal
    obtain ⟨hfaults, hkeep⟩ := hbal'.settleSplit_eq
    have hkept : it.keeps mode results = (mode.split results).2 := by
      unfold keeps
      split
      · exact absurd ⟨rfl, rfl⟩ hempty
      · rfl
    have hsettle : it.settle mode results = (.ok (mode.split results).2.length,
        { it with
          heap := (it.heap.unshareEach (mode.split results).1).2
          stack := it.stack.pass (mode.split results).2 }) := by
      unfold settle
      split
      rename_i heq
      split at heq
      · exact absurd ⟨rfl, rfl⟩ hempty
      · obtain ⟨rfl, rfl⟩ := Prod.mk.inj heq
        simp only [onHeap, hfaults, hkeep, List.append_nil]
    rw [hkept, hsettle]

theorem heap_ifLive (it : Interpreter) (h : Handle) (f : ArgumentStack → ArgumentStack) :
    (it.ifLive h f).2.heap = it.heap := by
  unfold ifLive
  split <;> rfl

theorem heap_keepEach (hs : List Handle) (it : Interpreter) :
    (keepEach hs it).2.heap = it.heap := by
  induction hs generalizing it with
  | nil => rfl
  | cons h rest ih =>
    rw [keepEach_cons_snd, ih]
    exact it.heap_ifLive h _

/-- Settling drops shares, unless it makes an undefined value. -/
theorem heap_settle (it : Interpreter) (mode : Mode) (results : List Handle) :
    (it.settle mode results).2.heap =
      if mode = .scalar ∧ results = [] then (it.create .undef).2.heap
      else (it.heap.unshareEach (mode.split results).1).2 := by
  rw [settle_snd]
  split
  · exact heap_keepEach _ _
  · exact heap_keepEach _ _

/-- The results that a mode keeps, from the interpreter on which the sub returned to the one after
the call. -/
inductive Keeps (it it₁ : Interpreter) : Mode → List Handle → List Handle → Prop where
  | void {rs : List Handle} : Keeps it it₁ .void rs []
  | last {rs : List Handle} {r : Handle} : Keeps it it₁ .scalar (rs ++ [r]) [r]
  | undef {u : Handle} : it.heap.contains u = false → it₁.heap.body u = .ok .undef →
      Keeps it it₁ .scalar [] [u]
  | list {rs : List Handle} : Keeps it it₁ .list rs rs

/-- What is kept is as it was when it was settled, as long as it is there. -/
theorem keeps_of_recedes {it₁ : Interpreter} {mode : Mode} (hwf : it.heap.WellFormed)
    (hheap : Heap.Recedes (it.settle mode results).2.heap it₁.heap)
    (hlive : ∀ k ∈ it.keeps mode results, it₁.heap.contains k = true) :
    Keeps it it₁ mode results (it.keeps mode results) := by
  cases mode with
  | void => exact .void
  | list => exact .list
  | scalar =>
    rcases List.eq_nil_or_concat results with rfl | ⟨init, r, rfl⟩
    · rw [heap_settle, if_pos ⟨rfl, rfl⟩] at hheap
      obtain ⟨c₁, hc₁⟩ := Heap.contains_iff.1 (hlive _ (List.mem_singleton_self _))
      obtain ⟨c, hc, hbody⟩ := hheap.cell _ c₁ hc₁
      rw [show (it.create .undef).2.heap = (it.heap.allocate .undef).2 from rfl,
        show (it.create .undef).1 = (it.heap.allocate .undef).1 from rfl,
        hwf.cell?_allocate, if_pos rfl] at hc
      obtain rfl := Option.some.inj hc
      refine .undef ?_ (Heap.body_eq_ok_iff.2 ⟨c₁, hc₁, hbody.symm⟩)
      exact Heap.contains_eq_false_iff.2 (hwf.cell?_allocate_fst .undef)
    · have hkeeps : it.keeps .scalar (init ++ [r]) = [r] := by
        unfold keeps
        split
        · simp_all
        · rw [Mode.split, List.getLast?_concat, Option.toList_some]
      rw [List.concat_eq_append, hkeeps]
      exact .last

end Interpreter

namespace World

variable {held : Held} {w₀ w : World} {i : InterpreterId} {n : Nat} {results : List Handle}

/-- Settling makes no name, since an undefined value has none. -/
theorem NamesBelow.settle (hnames : NamesBelow n w)
    (hwf : (w.interpreter i).heap.WellFormed) {mode : Mode}
    (hsubs : ((w.interpreter i).settle mode results).2.packages = (w.interpreter i).packages) :
    NamesBelow n (w.setInterpreter i ((w.interpreter i).settle mode results).2) := by
  have hheap := (w.interpreter i).heap_settle mode results
  split at hheap
  · exact hnames.setInterpreter_allocate hwf rfl hheap hsubs
  · refine hnames.setInterpreter_recedes ?_ hsubs
    rw [hheap]
    exact Heap.recedes_unshareEach _ _

/-- Results with a share each are settled, and those kept are temporaries on top of the stack. -/
theorem Balanced.settles (hbal : Balanced (Held.of i results ++ held) w₀ w)
    (hhost : w₀.holds.get i.number ≠ 0) (hnames : NamesBelow n w) (mode : Mode) :
    ∃ w₁, w.guest i (·.settle mode results)
        = (.ok ((w.interpreter i).keeps mode results).length, w₁) ∧ Balanced held w₀ w₁ ∧
      (w₁.interpreter i).stack
        = (w.interpreter i).stack.pass ((w.interpreter i).keeps mode results) ∧
      Heap.Recedes ((w.interpreter i).settle mode results).2.heap (w₁.interpreter i).heap ∧
      NamesBelow n w₁ ∧ w₁.store.holdings.size = w.store.holdings.size := by
  have hi := hbal.isHeld_of_holds hhost
  have hledger : (w.interpreter i).Balanced fun k =>
      (held.count (i, k) + w.store.wrappers i k) + results.count k :=
    (hbal.ledger i hi).congr fun k => by
      rw [Held.count_append_self]
      omega
  have hsettle := hledger.settle_eq mode
  have hsubs := congrArg (·.2.packages) hsettle
  have htrades : (w.interpreter i).Trades (·.settle mode results)
      (results.filter (w.interpreter i).heap.contains) [] := Interpreter.trades_settle mode results
  rw [hledger.filter_contains] at htrades
  have hrec := w.recedes_guest i (·.settle mode results)
  refine ⟨(w.guest i (·.settle mode results)).2, Prod.ext ?_ rfl, hbal.guestSpend hi htrades, ?_,
    w.heap_guest i (·.settle mode results), (hnames.settle hledger.wellFormed hsubs).recedes hrec,
    hrec.size⟩
  · rw [guest_fst, hsettle]
  · rw [stack_guest, hsettle]

end World

/-! ## New objects -/

namespace World

variable {held : Held} {w₀ w w₁ w₂ : World} {i : InterpreterId} {n : Nat}
variable {s : ArgumentStack} {ks ks' : List Handle} {ids ids' : List ObjectId}

/-- Scalars have been wrapped, each in a boundary object of its own, and nothing below the bound
names these objects. Objects from the bound on stay as they are. -/
structure Boxes (n : Nat) (i : InterpreterId) (ks : List Handle) (ids : List ObjectId)
    (w w₁ : World) : Prop where
  names : NamesBelow n w₁
  heap : Heap.Recedes (w.interpreter i).heap (w₁.interpreter i).heap
  holdings : ids.map w₁.store.holding? =
    ks.map fun k => some { holders := 1, object := .boundary i k }
  fresh : ∀ id ∈ ids, w.store.holdings.size ≤ id.number ∧ id.number < w₁.store.holdings.size
  nodup : ids.Nodup
  size : w.store.holdings.size ≤ w₁.store.holdings.size
  kept : ∀ id, n ≤ id.number → id.number < w.store.holdings.size →
    w₁.store.holding? id = w.store.holding? id

theorem Boxes.refl (hnames : NamesBelow n w) : Boxes n i [] [] w w where
  names := hnames
  heap := .refl _
  holdings := rfl
  fresh := by simp
  nodup := List.nodup_nil
  size := Nat.le_refl _
  kept := fun _ _ _ => rfl

/-- What is wrapped later goes in front. -/
theorem Boxes.trans (hfirst : Boxes n i ks ids w w₁) (hnext : Boxes n i ks' ids' w₁ w₂)
    (hn : n ≤ w.store.holdings.size) : Boxes n i (ks' ++ ks) (ids' ++ ids) w w₂ where
  names := hnext.names
  heap := hfirst.heap.trans hnext.heap
  holdings := by
    have hsame : ids.map w₂.store.holding? = ids.map w₁.store.holding? := by
      refine List.map_congr_left ?_
      intro id hid
      obtain ⟨hle, hlt⟩ := hfirst.fresh id hid
      exact hnext.kept id (Nat.le_trans hn hle) hlt
    rw [List.map_append, List.map_append, hnext.holdings, hsame, hfirst.holdings]
  fresh := by
    intro id hid
    have hsize := hfirst.size
    have hsize' := hnext.size
    rcases List.mem_append.1 hid with hid | hid
    · have hfresh := hnext.fresh id hid
      omega
    · have hfresh := hfirst.fresh id hid
      omega
  nodup := by
    refine List.nodup_append.2 ⟨hnext.nodup, hfirst.nodup, ?_⟩
    intro id hid id' hid' he
    have hnew := (hnext.fresh id hid).1
    have hold := (hfirst.fresh id' hid').2
    rw [he] at hnew
    omega
  size := Nat.le_trans hfirst.size hnext.size
  kept := by
    intro id hid hlt
    rw [hnext.kept id hid (Nat.lt_of_lt_of_le hlt hfirst.size), hfirst.kept id hid hlt]

/-- An operation on the interpreter that makes no scalar. -/
theorem boxes_guest {f : Interpreter → α × Interpreter} (hnames : NamesBelow n w)
    (hheap : Heap.Recedes (w.interpreter i).heap (f (w.interpreter i)).2.heap)
    (hsubs : (f (w.interpreter i)).2.packages = (w.interpreter i).packages) :
    Boxes n i [] [] w (w.guest i f).2 := by
  have hset := hnames.setInterpreter_recedes hheap hsubs
  have hrec := w.recedes_guest i f
  refine ⟨hset.recedes hrec, hheap.trans (w.heap_guest i f), rfl, by simp, List.nodup_nil,
    Nat.le_of_eq hrec.size.symm, ?_⟩
  intro id hid _
  rw [guest, onInterpreter_eq]
  exact hset.holding?_settleFreed i hid

/-- A new object comes with a number of its own. -/
theorem Boxes.addObject (hboxes : Boxes n i ks ids w w₁) (hn : n ≤ w.store.holdings.size)
    (o : HostObject) : Boxes n i ks ids w (w₁.addObject o).2 ∧
      (w₁.addObject o).2.store.holding? ⟨w₁.store.holdings.size⟩
        = some { holders := 1, object := o } := by
  have hsize := hboxes.size
  have hold : ∀ id : ObjectId, id.number < w₁.store.holdings.size →
      (w₁.addObject o).2.store.holding? id = w₁.store.holding? id := fun id hid =>
    (Store.holding?_add _ _ _).trans (if_neg (Nat.ne_of_lt hid))
  have hgrown : (w₁.addObject o).2.store.holdings.size = w₁.store.holdings.size + 1 :=
    Array.size_push _
  refine ⟨⟨⟨?_, hboxes.names.bodies, hboxes.names.freed, hboxes.names.subs⟩, hboxes.heap, ?_, ?_,
    hboxes.nodup, by omega, ?_⟩, (Store.holding?_add _ _ _).trans (if_pos rfl)⟩
  · intro id h hid hh
    rw [hold id (by omega)] at hh
    exact hboxes.names.parts id h hid hh
  · refine (List.map_congr_left ?_).trans hboxes.holdings
    intro id hid
    exact hold id (hboxes.fresh id hid).2
  · intro id hid
    have hfresh := hboxes.fresh id hid
    omega
  · intro id hid hlt
    rw [hold id (by omega), hboxes.kept id hid hlt]

/-- A boundary object over one more scalar. -/
theorem Boxes.newBoundary (hboxes : Boxes n i [] [] w w₁) (hn : n ≤ w.store.holdings.size)
    (k : Handle) :
    Boxes n i [k] [⟨w₁.store.holdings.size⟩] w (w₁.newBoundary i k).2 := by
  obtain ⟨hadded, hholding⟩ := hboxes.addObject hn (.boundary i k)
  refine { hadded with holdings := ?_, fresh := ?_, nodup := by simp }
  · rw [List.map_singleton, List.map_singleton]
    exact congrArg (fun o => [o]) hholding
  · intro id hid
    rw [List.mem_singleton] at hid
    subst hid
    have hgrown : (w₁.newBoundary i k).2.store.holdings.size = w₁.store.holdings.size + 1 :=
      Array.size_push _
    have hsize := hboxes.size
    exact ⟨hsize, by rw [hgrown]; exact Nat.lt_succ_self _⟩

/-! ## Wrapping -/

/-- The scalar on top of the stack is popped. -/
theorem Balanced.boxes_pop {k : Handle} (hbal : Balanced held w₀ w)
    (hhost : w₀.holds.get i.number ≠ 0) (hnames : NamesBelow n w)
    (hstack : (w.interpreter i).stack = s.raise (ks ++ [k]))
    (hmark : s.marks.back?.getD 0 ≤ s.height) :
    ∃ w₁, w.guest i (·.pop) = (.ok k, w₁) ∧ Balanced held w₀ w₁ ∧
      (w₁.interpreter i).stack = s.raise ks ∧ Boxes n i [] [] w w₁ := by
  have hpop : (w.interpreter i).stack.pop = (.ok k, s.raise ks) := by
    rw [hstack, ArgumentStack.pop_raise hmark]
  refine ⟨(w.guest i (·.pop)).2, Prod.ext ?_ rfl, ?_, ?_, ?_⟩
  · rw [guest_fst, Interpreter.pop, Interpreter.onStack, hpop]
  · exact hbal.guestKeeping (hbal.isHeld_of_holds hhost) (Interpreter.trades_pop)
  · rw [stack_guest, Interpreter.pop, Interpreter.onStack, hpop]
  · exact boxes_guest hnames (.refl _) rfl

/-- A temporary is wrapped. -/
theorem Balanced.boxes_wrapScalar {k : Handle} (hbal : Balanced held w₀ w)
    (hhost : w₀.holds.get i.number ≠ 0) (hnames : NamesBelow n w)
    (hn : n ≤ w.store.holdings.size) (hmem : k ∈ (w.interpreter i).stack.temps.toList) :
    ∃ id w₁, w.wrapScalar i k = (.ok (.boundary id), w₁) ∧ Balanced held w₀ w₁ ∧
      (w₁.interpreter i).stack = (w.interpreter i).stack ∧ Boxes n i [k] [id] w w₁ := by
  obtain ⟨c, hc⟩ := hbal.exists_temporary (hbal.isHeld_of_holds hhost) hmem
  obtain ⟨m, w₁, hshare, hshared⟩ := hbal.passed_share hhost (Heap.contains_iff.2 ⟨c, hc⟩)
  have hboxes : Boxes n i [] [] w (w.guest i (·.share k)).2 :=
    boxes_guest hnames (Heap.recedes_share _ k) rfl
  rw [hshare] at hboxes
  have howned := hshared.balanced
  refine ⟨⟨w₁.store.holdings.size⟩, (w₁.newBoundary i k).2, ?_,
    howned.newBoundary (howned.isHeld_of_holds hhost), ?_, hboxes.newBoundary hn k⟩
  · rw [World.wrapScalar, hshare]
    rfl
  · rw [← ArgumentStack.pass_nil (w.interpreter i).stack, ← hshared.stack]
    rfl

/-- Results on top of the stack are popped and wrapped, and the list of wrappers is in their
order. -/
theorem Balanced.boxes_popResults (hhost : w₀.holds.get i.number ≠ 0)
    (hmark : s.marks.back?.getD 0 ≤ s.height) (count : Nat) (ks : List Handle)
    (hcount : ks.length = count) (hmem : ∀ k ∈ ks, k ∈ s.temps.toList) {w : World}
    (wrapped : List Value) (hbal : Balanced held w₀ w) (hnames : NamesBelow n w)
    (hn : n ≤ w.store.holdings.size) (hstack : (w.interpreter i).stack = s.raise ks) :
    ∃ ids w₁, World.popResults i count wrapped w = (.ok (ids.map .boundary ++ wrapped), w₁) ∧
      Balanced held w₀ w₁ ∧ (w₁.interpreter i).stack = s ∧ Boxes n i ks ids w w₁ := by
  induction count generalizing ks w wrapped with
  | zero =>
    obtain rfl := List.length_eq_zero_iff.1 hcount
    refine ⟨[], w, rfl, hbal, ?_, .refl hnames⟩
    rw [hstack]
    simp [ArgumentStack.raise]
  | succ count ih =>
    rcases List.eq_nil_or_concat ks with rfl | ⟨rest, k, rfl⟩
    · simp at hcount
    -- the last result is on top, and its wrapper goes in front of those that are there
    rw [List.concat_eq_append] at hcount hmem hstack ⊢
    obtain ⟨w₁, hpop, hbal₁, hstack₁, hboxes₁⟩ := hbal.boxes_pop hhost hnames hstack hmark
    have hn₁ := Nat.le_trans hn hboxes₁.size
    have hk : k ∈ (w₁.interpreter i).stack.temps.toList := by
      rw [hstack₁]
      exact hmem k (List.mem_append_right rest (List.mem_singleton_self k))
    obtain ⟨id, w₂, hwrap, hbal₂, hstack₂, hboxes₂⟩ :=
      hbal₁.boxes_wrapScalar hhost hboxes₁.names hn₁ hk
    obtain ⟨ids, w₃, hrest, hbal₃, hstack₃, hboxes₃⟩ := ih rest (by simpa using hcount)
      (fun j hj => hmem j (List.mem_append_left _ hj)) (.boundary id :: wrapped) hbal₂
      hboxes₂.names (Nat.le_trans hn₁ hboxes₂.size) (hstack₂.trans hstack₁)
    refine ⟨ids ++ [id], w₃, ?_, hbal₃, hstack₃, ?_⟩
    · rw [World.popResults, hpop]
      dsimp only
      rw [hwrap]
      dsimp only
      rw [hrest, List.map_append, List.append_assoc]
      rfl
    · have hall := hboxes₁.trans (hboxes₂.trans hboxes₃ hn₁) hn
      rw [List.append_nil, List.append_nil] at hall
      exact hall

/-- The results of a call come as a new array of wrappers. -/
theorem Balanced.boxes_boxResults (hbal : Balanced held w₀ w)
    (hhost : w₀.holds.get i.number ≠ 0) (hmark : s.marks.back?.getD 0 ≤ s.height)
    (hmem : ∀ k ∈ ks, k ∈ s.temps.toList) (hnames : NamesBelow n w)
    (hn : n ≤ w.store.holdings.size) (hstack : (w.interpreter i).stack = s.raise ks) :
    ∃ id ids w₁, w.boxResults i ks.length = (.ok id, w₁) ∧ Balanced held w₀ w₁ ∧
      (w₁.interpreter i).stack = s ∧ Boxes n i ks ids w w₁ ∧
      w₁.store.holding? id = some { holders := 1, object := .array (ids.map .boundary) } ∧
      w.store.holdings.size ≤ id.number ∧ id.number < w₁.store.holdings.size ∧ id ∉ ids := by
  obtain ⟨ids, w₁, hpop, hbal₁, hstack₁, hboxes⟩ :=
    Balanced.boxes_popResults hhost hmark ks.length ks rfl hmem [] hbal hnames hn hstack
  obtain ⟨hadded, hholding⟩ := hboxes.addObject hn (.array (ids.map .boundary))
  refine ⟨⟨w₁.store.holdings.size⟩, ids, (w₁.newArray (ids.map .boundary)).2, ?_,
    hbal₁.newArray _, hstack₁, hadded, hholding, hboxes.size, ?_, ?_⟩
  · rw [World.boxResults, hpop, List.append_nil]
    rfl
  · have hgrown : (w₁.newArray (ids.map .boundary)).2.store.holdings.size
        = w₁.store.holdings.size + 1 := Array.size_push _
    rw [hgrown]
    exact Nat.lt_succ_self _
  · intro hmem
    exact absurd (hboxes.fresh _ hmem).2 (Nat.lt_irrefl _)

/-! ## The scope -/

/-- In a balanced world closing a scope is like any other operation on the interpreter. -/
theorem Balanced.closeScope_eq (hbal : Balanced held w₀ w) (hhost : w₀.holds.get i.number ≠ 0)
    (depth : Nat) : w.closeScope i depth = (w.guest i (·.closeScope depth)).2 := by
  obtain ⟨hfaults, -⟩ := (hbal.ledger i (hbal.isHeld_of_holds hhost)).closeScope depth
  rw [World.closeScope, World.guest, onInterpreter_eq]
  dsimp only
  rw [hfaults]
  rfl

theorem Balanced.boxes_closeScope (hbal : Balanced held w₀ w)
    (hhost : w₀.holds.get i.number ≠ 0) (hnames : NamesBelow n w) (depth : Nat) :
    ((w.closeScope i depth).interpreter i).stack = ((w.interpreter i).stack.closeScope depth).2 ∧
      Boxes n i [] [] w (w.closeScope i depth) := by
  rw [hbal.closeScope_eq hhost]
  refine ⟨?_, boxes_guest hnames ?_ rfl⟩
  · rw [stack_guest]
    rfl
  · exact Heap.recedes_unshareEach _ _

end World

end GuestBridge
