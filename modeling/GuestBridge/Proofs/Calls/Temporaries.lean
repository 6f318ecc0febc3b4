import GuestBridge.Proofs.Calls.Acts

/-!
# Temporaries and the scopes they belong to

A temporary belongs to the scope that was innermost when it was handed over. The stack keeps no
record of that: it lists all temporaries in one row, and every scope knows how long the row was
when it was opened. What makes this enough is that the scopes lie in layers (`Layers`): each of
them was opened on the temporaries of the scopes outside it, so that cutting the row back to a
scope takes out the temporaries of that scope and of those inside, and no others.

1. Whatever the floors are, closing scopes takes out the end of the row, newest first
   (`temps_closeScope`).
2. Layers stay layers under every act that closes none of the scopes below (`Layers.after`), and
   what is left of the row are the temporaries whose scope has not been closed (`keptBy`).
3. So a scope that is closed puts the stack back and answers what was handed over since, but for
   what inner scopes have answered already (`scope_undone`).
-/

namespace GuestBridge.ArgumentStack

variable {low s s₁ : ArgumentStack} {acts : List Act}

/-! ## The row of temporaries -/

theorem extract_temps (s : ArgumentStack) (n : Nat) :
    (s.temps.extract n).toList = s.temps.toList.drop n := by
  rw [Array.toList_extract, List.extract_eq_take_drop]
  exact List.take_of_length_le (by simp)

theorem temps_closeDownTo (d : Nat) (floors : List Floor) (s : ArgumentStack) :
    s.temps.toList
      = (closeDownTo d floors s).2.temps.toList ++ (closeDownTo d floors s).1.reverse := by
  induction floors generalizing s with
  | nil => simp [closeDownTo]
  | cons floor outer ih =>
    rw [closeDownTo]
    split
    · have hcut : (s.cutTo floor).temps.toList = s.temps.toList.take floor.temps := by
        rw [cutTo, Array.toList_shrink]
      have hbelow := ih (s.cutTo floor)
      dsimp only
      rw [List.reverse_append, List.reverse_reverse, ← List.append_assoc, ← hbelow, hcut,
        extract_temps, List.take_append_drop]
    · simp

/-- What is closed takes the end of the row of temporaries with it, newest first. -/
theorem temps_closeScope (s : ArgumentStack) (d : Nat) :
    s.temps.toList = (s.closeScope d).2.temps.toList ++ (s.closeScope d).1.reverse :=
  temps_closeDownTo d s.scopes s

/-- Depth 0 is as good as depth 1. -/
theorem closeDownTo_of_lt_max {d : Nat} {outer : List Floor} (hd : outer.length < max d 1)
    (s : ArgumentStack) : closeDownTo d outer s = ([], { s with scopes := outer }) := by
  cases outer with
  | nil => rfl
  | cons floor outer =>
    rw [List.length_cons] at hd
    exact closeDownTo_of_lt (by rw [List.length_cons]; omega) s

/-! ## Layers -/

/-- Scopes above those of a stack `s`, each one opened on the temporaries below it and on no fewer
values and marks than `low` has. The temporaries that `s` does not have are listed with the depth
of the scope that they belong to. -/
inductive Layers (low s : ArgumentStack) :
    List Floor → List Handle → List (Nat × Handle) → Prop where
  | base (hs : List Handle) :
    Layers low s s.scopes (s.temps.toList ++ hs) (hs.map fun h => (s.depth, h))
  | scope {floor : Floor} {outer : List Floor} {below : List Handle} {owned : List (Nat × Handle)}
      (hs : List Handle) :
    Layers low s outer below owned → floor.temps = below.length →
      low.height ≤ floor.values → low.marks.size ≤ floor.marks →
      Layers low s (floor :: outer) (below ++ hs) (owned ++ hs.map fun h => (outer.length + 1, h))

namespace Layers

variable {floors : List Floor} {row : List Handle} {owned : List (Nat × Handle)}

theorem refl (low s : ArgumentStack) : Layers low s s.scopes s.temps.toList [] := by
  have hbase : Layers low s s.scopes (s.temps.toList ++ []) [] := .base []
  rwa [List.append_nil] at hbase

theorem row_eq (hlayers : Layers low s floors row owned) :
    row = s.temps.toList ++ owned.map (·.2) := by
  induction hlayers with
  | base hs => simp [Function.comp_def]
  | scope hs _ _ _ _ ih => simp [ih, Function.comp_def]

theorem owner_le (hlayers : Layers low s floors row owned) : ∀ p ∈ owned, p.1 ≤ floors.length := by
  induction hlayers with
  | base hs =>
    intro p hp
    obtain ⟨h, -, rfl⟩ := List.mem_map.1 hp
    exact Nat.le_refl _
  | scope hs _ _ _ _ ih =>
    intro p hp
    rw [List.length_cons]
    rcases List.mem_append.1 hp with hp | hp
    · exact Nat.le_succ_of_le (ih p hp)
    · obtain ⟨h, -, rfl⟩ := List.mem_map.1 hp
      exact Nat.le_refl _

/-- No scope was opened on more temporaries than there are. -/
theorem floor_le (hlayers : Layers low s floors row owned)
    (hbase : ∀ f ∈ s.scopes, f.temps ≤ s.temps.size) : ∀ f ∈ floors, f.temps ≤ row.length := by
  induction hlayers with
  | base hs =>
    intro f hf
    have hle := hbase f hf
    rw [List.length_append, Array.length_toList]
    omega
  | scope hs _ htemps _ _ ih =>
    intro f hf
    rw [List.length_append]
    rcases List.mem_cons.1 hf with rfl | hf
    · omega
    · have hle := ih f hf
      omega

/-- What is handed over now belongs to the innermost scope. -/
theorem add (hlayers : Layers low s floors row owned) (h : Handle) :
    Layers low s floors (row ++ [h]) (owned ++ [(floors.length, h)]) := by
  cases hlayers with
  | base hs =>
    have hbase : Layers low s s.scopes (s.temps.toList ++ (hs ++ [h])) _ := .base (hs ++ [h])
    rwa [← List.append_assoc, List.map_append] at hbase
  | scope hs hbelow htemps hvalues hmarks =>
    have hscope := Layers.scope (hs ++ [h]) hbelow htemps hvalues hmarks
    rwa [← List.append_assoc, List.map_append, ← List.append_assoc] at hscope

theorem opened (hlayers : Layers low s s₁.scopes s₁.temps.toList owned)
    (habove : low.height ≤ s₁.height ∧ low.marks.size ≤ s₁.marks.size) :
    Layers low s s₁.openScope.scopes s₁.openScope.temps.toList owned := by
  have hscope : Layers low s s₁.openScope.scopes (s₁.temps.toList ++ []) (owned ++ []) :=
    .scope [] hlayers Array.length_toList.symm habove.1 habove.2
  rwa [List.append_nil, List.append_nil] at hscope

/-- Closing scopes that are not below takes out the temporaries of those that are closed. -/
theorem closed (hlayers : Layers low s floors row owned) {d : Nat} (hd : s.depth < max d 1)
    (hrow : s₁.temps.toList = row)
    (habove : low.height ≤ s₁.height ∧ low.marks.size ≤ s₁.marks.size) :
    Layers low s (closeDownTo d floors s₁).2.scopes (closeDownTo d floors s₁).2.temps.toList
        (owned.filter fun p => p.1 < max d 1) ∧
      low.height ≤ (closeDownTo d floors s₁).2.height ∧
      low.marks.size ≤ (closeDownTo d floors s₁).2.marks.size := by
  induction hlayers generalizing s₁ with
  | base hs =>
    have hall : ∀ p ∈ hs.map fun h => (s.depth, h), decide (p.1 < max d 1) = true := by
      intro p hp
      obtain ⟨h, -, rfl⟩ := List.mem_map.1 hp
      exact decide_eq_true hd
    rw [closeDownTo_of_lt_max hd, List.filter_eq_self.2 hall]
    dsimp only
    rw [hrow]
    exact ⟨.base hs, habove⟩
  | @scope floor outer below owned hs hbelow htemps hvalues hmarks ih =>
    by_cases hopen : max d 1 ≤ outer.length + 1
    -- the innermost scope is closed, and its temporaries go
    · have hnone :
          (hs.map fun h => (outer.length + 1, h)).filter (fun p => p.1 < max d 1) = [] := by
        rw [List.filter_eq_nil_iff]
        intro p hp
        obtain ⟨h, -, rfl⟩ := List.mem_map.1 hp
        simp only [decide_eq_true_eq]
        omega
      have hcut : (s₁.cutTo floor).temps.toList = below := by
        rw [cutTo, Array.toList_shrink, hrow, htemps, List.take_left']
        rfl
      rw [closeDownTo, if_pos (by omega), List.filter_append, hnone, List.append_nil]
      refine ih hcut ?_
      simp only [height, cutTo, Array.size_shrink]
      exact ⟨Nat.le_min.2 ⟨hvalues, habove.1⟩, Nat.le_min.2 ⟨hmarks, habove.2⟩⟩
    -- nothing is closed
    · have hall : ∀ p ∈ owned ++ hs.map fun h => (outer.length + 1, h),
          decide (p.1 < max d 1) = true := by
        intro p hp
        have hle := (Layers.scope hs hbelow htemps hvalues hmarks).owner_le p hp
        rw [List.length_cons] at hle
        exact decide_eq_true (by omega)
      rw [closeDownTo_of_lt_max (by rw [List.length_cons]; omega), List.filter_eq_self.2 hall]
      dsimp only
      rw [hrow]
      exact ⟨.scope hs hbelow htemps hvalues hmarks, habove⟩

end Layers

/-! ## What is kept -/

/-- Some act closes the scope at a depth. -/
def closes (depth : Nat) (acts : List Act) : Bool :=
  acts.any fun
    | .closeScope d => max d 1 ≤ depth
    | _ => false

/-- The temporaries that acts hand over, first to last, without those whose scope is closed by a
later one of the acts. -/
def keptBy : ArgumentStack → List Act → List Handle
  | _, [] => []
  | s, .addTemporary h :: rest =>
    (if closes s.depth rest then [] else [h]) ++ (s.addTemporary h).keptBy rest
  | s, a :: rest => (s.act a).keptBy rest

theorem closes_closeScope (depth d : Nat) (rest : List Act) :
    closes depth (.closeScope d :: rest) = (decide (max d 1 ≤ depth) || closes depth rest) :=
  rfl

theorem keptBy_sublist (s : ArgumentStack) (acts : List Act) :
    (s.keptBy acts).Sublist (madeBy acts) := by
  induction acts generalizing s with
  | nil => exact .slnil
  | cons a rest ih =>
    cases a with
    | addTemporary h =>
      have hmade : madeBy (.addTemporary h :: rest) = [h] ++ madeBy rest := rfl
      rw [keptBy, hmade]
      refine List.Sublist.append ?_ (ih _)
      split
      · exact List.nil_sublist _
      · exact List.Sublist.refl _
    | push h | pop | mark | takeArguments | openScope | closeScope d => exact ih _

/-- An act that closes none of the scopes below leads from layers to layers, and of the temporaries
some are kept by whatever follows. -/
theorem Layers.act {owned : List (Nat × Handle)} {a : Act}
    (hlayers : Layers low s s₁.scopes s₁.temps.toList owned)
    (hclose : ∀ d, a = .closeScope d → s.depth < max d 1)
    (habove : low.height ≤ s₁.height ∧ low.marks.size ≤ s₁.marks.size) :
    ∃ owned', Layers low s (s₁.act a).scopes (s₁.act a).temps.toList owned' ∧
      ∀ rest, (owned'.filter fun p => !closes p.1 rest).map (·.2) ++ (s₁.act a).keptBy rest
        = (owned.filter fun p => !closes p.1 (a :: rest)).map (·.2) ++ s₁.keptBy (a :: rest) := by
  cases a with
  | push h | mark => exact ⟨owned, hlayers, fun _ => rfl⟩
  | pop =>
    refine ⟨owned, ?_, fun _ => rfl⟩
    rw [ArgumentStack.act, s₁.temps_pop, s₁.scopes_pop]
    exact hlayers
  | takeArguments =>
    refine ⟨owned, ?_, fun _ => rfl⟩
    rw [ArgumentStack.act, s₁.temps_takeArguments, s₁.scopes_takeArguments]
    exact hlayers
  | openScope => exact ⟨owned, hlayers.opened habove, fun _ => rfl⟩
  | addTemporary h =>
    refine ⟨owned ++ [(s₁.depth, h)], ?_, fun rest => ?_⟩
    · rw [ArgumentStack.act, ArgumentStack.addTemporary, Array.toList_push]
      exact hlayers.add h
    · have hsame (depth : Nat) : closes depth (.addTemporary h :: rest) = closes depth rest := rfl
      simp only [hsame]
      rw [keptBy, List.filter_append, List.map_append, List.append_assoc]
      cases hclosed : closes s₁.depth rest <;> simp [hclosed, ArgumentStack.act]
  | closeScope d =>
    refine ⟨_, (hlayers.closed (hclose d rfl) rfl habove).1, fun rest => ?_⟩
    have hfilter : (fun p : Nat × Handle => !closes p.1 rest && decide (p.1 < max d 1))
        = fun p => !closes p.1 (.closeScope d :: rest) := by
      funext p
      rw [closes_closeScope]
      by_cases hp : p.1 < max d 1
      · rw [decide_eq_true hp, decide_eq_false (Nat.not_le.2 hp), Bool.and_true, Bool.false_or]
      · rw [decide_eq_false hp, decide_eq_true (Nat.not_lt.1 hp), Bool.and_false, Bool.true_or,
          Bool.not_true]
    rw [List.filter_filter, hfilter]
    rfl

/-- So do any number of such acts. What is left of the temporaries that were there belongs to
scopes that have not been closed, and what has been added is what the acts have kept. -/
theorem Layers.after {owned : List (Nat × Handle)}
    (hlayers : Layers low s s₁.scopes s₁.temps.toList owned)
    (hclose : ∀ d, .closeScope d ∈ acts → s.depth < max d 1) (habove : low.StaysAbove s₁ acts) :
    ∃ owned', Layers low s (s₁.after acts).scopes (s₁.after acts).temps.toList owned' ∧
      owned'.map (·.2)
        = (owned.filter fun p => !closes p.1 acts).map (·.2) ++ s₁.keptBy acts := by
  induction acts generalizing s₁ owned with
  | nil =>
    have hall : (owned.filter fun p => !closes p.1 []) = owned :=
      List.filter_eq_self.2 fun _ _ => rfl
    exact ⟨owned, hlayers, by rw [hall, keptBy, List.append_nil]⟩
  | cons a rest ih =>
    obtain ⟨owned₁, hact, hkept⟩ :=
      hlayers.act (fun d hd => hclose d (hd ▸ List.mem_cons_self)) habove.1
    obtain ⟨owned', hafter, howned⟩ :=
      ih hact (fun d hd => hclose d (List.mem_cons_of_mem a hd)) habove.2
    exact ⟨owned', hafter, howned.trans (hkept rest)⟩

/-- Every stack is above the empty one. -/
theorem staysAbove_empty (s₁ : ArgumentStack) (acts : List Act) : StaysAbove {} s₁ acts := by
  induction acts generalizing s₁ with
  | nil => exact ⟨Nat.zero_le _, Nat.zero_le _⟩
  | cons a rest ih => exact ⟨⟨Nat.zero_le _, Nat.zero_le _⟩, ih _⟩

/-- In every state of a run no open scope reaches above the temporaries. -/
theorem floor_le_of_run (run : List Act) :
    ∀ f ∈ (after {} run).scopes, f.temps ≤ (after {} run).temps.size := by
  have hclose (d : Nat) (_ : Act.closeScope d ∈ run) : depth {} < max d 1 := by
    show 0 < max d 1
    omega
  obtain ⟨owned, hlayers, -⟩ := (Layers.refl {} {}).after hclose (staysAbove_empty {} run)
  intro f hf
  have hle := hlayers.floor_le (by simp) f hf
  rwa [Array.length_toList] at hle

/-! ## Closing a scope -/

/-- Acts that keep a scope open pile layers on the stack that it was opened on, and the temporaries
in them are those that they keep. -/
theorem layers_openScope (hclose : ∀ d, .closeScope d ∈ acts → s.openScope.depth < d)
    (habove : low.StaysAbove s.openScope acts) :
    ∃ owned, Layers low s (s.openScope.after acts).scopes (s.openScope.after acts).temps.toList
      owned ∧ owned.map (·.2) = s.openScope.keptBy acts := by
  have hbelow (d : Nat) (hd : Act.closeScope d ∈ acts) : s.depth < max d 1 := by
    have hlt : s.depth + 1 < d := hclose d hd
    omega
  obtain ⟨owned, hlayers, howned⟩ := ((Layers.refl low s).opened habove.head).after hbelow habove
  rw [List.filter_nil, List.map_nil, List.nil_append] at howned
  exact ⟨owned, hlayers, howned⟩

/-- When a scope is closed that some acts have kept open, what comes out, newest first, are the
temporaries that were handed over since and not taken out by inner scopes. -/
theorem closeScope_fst_after (hclose : ∀ d, .closeScope d ∈ acts → s.openScope.depth < d) :
    ((s.openScope.after acts).closeScope s.openScope.depth).1
      = (s.openScope.keptBy acts).reverse := by
  obtain ⟨owned, hlayers, howned⟩ := layers_openScope hclose (staysAbove_empty s.openScope acts)
  have hclears : s.Clears ((s.openScope.after acts).closeScope (s.depth + 1)).2 :=
    ((Underlies.refl s.openScope).after hclose).clears
  have hrow := (s.openScope.after acts).temps_closeScope (s.depth + 1)
  rw [hlayers.row_eq, howned, hclears.temps] at hrow
  rw [List.append_cancel_left hrow, List.reverse_reverse]
  rfl

/-- If they never went below the values and marks that the scope was opened on, the stack is what it
was. -/
theorem closeScope_snd_after (hclose : ∀ d, .closeScope d ∈ acts → s.openScope.depth < d)
    (habove : s.StaysAbove s.openScope acts) :
    ((s.openScope.after acts).closeScope s.openScope.depth).2 = s := by
  -- nothing is left on the stack
  have hclears : s.Clears ((s.openScope.after acts).closeScope (s.depth + 1)).2 :=
    ((Underlies.refl s.openScope).after hclose).clears
  -- and nothing has been taken away
  have hentry : s.Bases s.openScope := ⟨List.prefix_rfl, List.prefix_rfl⟩
  have hbase := hentry.after habove
  obtain ⟨owned, hlayers, -⟩ := layers_openScope hclose habove
  have hcut := (hlayers.closed (d := s.depth + 1) (by omega) rfl
    ⟨hbase.values.length_le, hbase.marks.length_le⟩).2
  exact hclears.eq (hbase.of_cut (bases_closeDownTo _ _ _) hcut.1 hcut.2)

/-- A scope that is kept open, while values and marks are never fewer than when it was opened,
whatever inner scopes are closed or left open, in whatever order: closing it puts the stack back,
and answers, newest first, the temporaries handed over since that no inner scope has answered. And
over every run the temporaries that are answered, with those that are left, are those that were
handed over, each as often as it was. -/
theorem scope_undone :
    (∀ (s : ArgumentStack) (acts : List Act),
      (∀ d, .closeScope d ∈ acts → s.openScope.depth < d) → s.StaysAbove s.openScope acts →
      (s.openScope.after acts).closeScope s.openScope.depth
          = ((s.openScope.keptBy acts).reverse, s) ∧
        (s.openScope.keptBy acts).Sublist (madeBy acts) ∧
        (madeBy acts).Perm (s.openScope.takenBy acts ++ s.openScope.keptBy acts)) ∧
    ∀ run : List Act, (madeBy run).Perm (takenBy {} run ++ (after {} run).temps.toList) := by
  refine ⟨fun s acts hclose habove => ?_, fun run => ?_⟩
  · have hclosed : (s.openScope.after acts).closeScope s.openScope.depth
        = ((s.openScope.keptBy acts).reverse, s) :=
      Prod.ext (closeScope_fst_after hclose) (closeScope_snd_after hclose habove)
    refine ⟨hclosed, keptBy_sublist _ _, List.perm_iff_count.2 fun k => ?_⟩
    have hcount := count_made_taken acts k s.openScope
    have hscope := (s.openScope.after acts).count_closeScope s.openScope.depth k
    have hentry : s.openScope.tempCount k = s.tempCount k := rfl
    rw [hclosed, List.count_reverse] at hscope
    rw [List.count_append]
    dsimp only at hscope
    omega
  · refine List.perm_iff_count.2 fun k => ?_
    have hcount := count_made_taken run k {}
    rw [List.count_append, ← tempCount_eq]
    simpa [tempCount] using hcount

/-- Two scopes inside are closed at once and another two are left open, on a stack with a mark, a
value, a scope and a temporary. -/
theorem scope_undone_leftOpen :
    let s := after {} [.openScope, .addTemporary ⟨0, 0⟩, .push ⟨0, 0⟩, .mark]
    let acts : List Act :=
      [.addTemporary ⟨1, 0⟩, .openScope, .addTemporary ⟨2, 0⟩, .push ⟨2, 0⟩, .openScope,
        .addTemporary ⟨3, 0⟩, .closeScope 3, .openScope, .addTemporary ⟨1, 0⟩, .mark, .openScope]
    (s.openScope.after acts).depth = 4 ∧
      (s.openScope.after acts).closeScope 2 = ([⟨1, 0⟩, ⟨1, 0⟩], s) ∧
      s.openScope.takenBy acts = [⟨3, 0⟩, ⟨2, 0⟩] := by
  intro s acts
  have hclose : ∀ d, .closeScope d ∈ acts → s.openScope.depth < d := by
    intro d hd
    obtain rfl : d = 3 := by simpa [acts] using hd
    decide
  exact ⟨by decide, (scope_undone.1 s acts hclose (by decide)).1, by decide⟩

end GuestBridge.ArgumentStack
