import GuestBridge.Proofs.Conversion.Fidelity

/-!
# Which values can be converted

A position in a value is a path of element numbers, from the value down. `Passage.positionError`
says which positions are bad and with which error, and in which order a conversion comes to them is
the lexicographic order of the paths: a container before its elements, and its elements first to
last.

* `firstError_eq_none_iff`, `firstError_eq_some_iff` — the error that a conversion meets is that of
  the first bad position, if there is one
* `marshal_ends` — which values are converted and with which error the others fail, to which those
  belong that lead to a cycle
-/

namespace GuestBridge

/-! ## Positions -/

namespace Store

variable {st : Store} {v x y : Value}

/-- The elements of a value in the order in which they are converted: the items of an array, or the
values of a hash in the order of its keys. -/
def elementsOf (st : Store) : Value → List Value
  | .array id => st.items id
  | .hash id => (st.entries id).map (·.2)
  | _ => []

/-- The value at the end of a path of element numbers. -/
def at? (st : Store) (v : Value) : List Nat → Option Value
  | [] => some v
  | n :: path => (st.elementsOf v)[n]?.bind fun e => st.at? e path

theorem at?_append (st : Store) (v : Value) (path more : List Nat) :
    st.at? v (path ++ more) = (st.at? v path).bind fun x => st.at? x more := by
  induction path generalizing v with
  | nil => rfl
  | cons n path ih =>
    rw [List.cons_append, at?, at?, Option.bind_assoc]
    exact congrArg _ (funext ih)

/-- Whatever lies on the way of a path is there. -/
theorem at?_take {path : List Nat} (hx : st.at? v path = some x) (n : Nat) :
    ∃ y, st.at? v (path.take n) = some y := by
  rw [← List.take_append_drop n path, at?_append] at hx
  obtain ⟨y, hy, -⟩ := Option.bind_eq_some_iff.1 hx
  exact ⟨y, hy⟩

/-- A cycle can be followed any number of times. -/
theorem at?_cycle {path cycle : List Nat} (hx : st.at? v path = some x)
    (hcycle : st.at? x cycle = some x) (n : Nat) :
    st.at? v (path ++ (List.replicate n cycle).flatten) = some x := by
  induction n with
  | zero => simpa using hx
  | succ n ih =>
    rw [List.replicate_succ', List.flatten_append, List.flatten_singleton, ← List.append_assoc,
      at?_append, ih]
    exact hcycle

end Store

/-! ## Bad positions -/

namespace Passage

variable {p : Passage} {live : Handle → Bool} {room : Nat} {v x : Value} {e : CrossingError}
variable {path : List Nat}

/-- The error of a value that cannot be converted wherever it is found. -/
def valueError (p : Passage) (live : Handle → Bool) : Value → Option CrossingError
  | .boundary id => p.boundaryError live id
  | .undef => some (.unsupportedConversion (p.store.typeName .undef))
  | .object id => some (.unsupportedConversion (p.store.typeName (.object id)))
  | .integer _ | .float _ | .text _ | .array _ | .hash _ => none

/-- The error of a position with so many levels of nesting left. Where none is left, every value is
one too many; further down there are no positions. -/
def positionError (p : Passage) (live : Handle → Bool) (room : Nat) (v : Value)
    (path : List Nat) : Option CrossingError :=
  (p.store.at? v path).bind fun x =>
    if path.length < room then p.valueError live x
    else if path.length = room then some (.nestingTooDeep p.config.maxDepth)
    else none

/-- The position is bad with this error, and no position before it is. -/
structure FirstBad (p : Passage) (live : Handle → Bool) (room : Nat) (v : Value) (path : List Nat)
    (e : CrossingError) : Prop where
  error : p.positionError live room v path = some e
  before : ∀ path' < path, p.positionError live room v path' = none

/-- There is one first bad position. -/
theorem FirstBad.unique {path' : List Nat} {e' : CrossingError}
    (hfirst : p.FirstBad live room v path e) (hfirst' : p.FirstBad live room v path' e') :
    path = path' ∧ e = e' := by
  have hpath : path = path' := by
    refine List.le_antisymm (List.not_lt.1 ?_) (List.not_lt.1 ?_)
    · intro hlt
      have hnone := hfirst.before path' hlt
      rw [hfirst'.error] at hnone
      cases hnone
    · intro hlt
      have hnone := hfirst'.before path hlt
      rw [hfirst.error] at hnone
      cases hnone
  subst hpath
  exact ⟨rfl, Option.some.inj (hfirst.error.symm.trans hfirst'.error)⟩

theorem positionError_nil_succ : p.positionError live (room + 1) v [] = p.valueError live v := by
  simp [positionError, Store.at?]

theorem positionError_cons_succ (n : Nat) :
    p.positionError live (room + 1) v (n :: path) =
      (p.store.elementsOf v)[n]?.bind fun x => p.positionError live room x path := by
  simp only [positionError, Store.at?, Option.bind_assoc, List.length_cons,
    Nat.add_lt_add_iff_right, Nat.add_right_cancel_iff]

/-- A value is looked at before its elements. -/
theorem firstError_succ (p : Passage) (live : Handle → Bool) (room : Nat) (v : Value) :
    p.firstError live (room + 1) v =
      (p.valueError live v).or ((p.store.elementsOf v).findSome? (p.firstError live room)) := by
  cases v with
  | boundary id =>
    rw [firstError, valueError]
    cases p.boundaryError live id <;> rfl
  | hash id =>
    rw [firstError, valueError, Store.elementsOf, List.findSome?_map]
    rfl
  | array | integer | float | text | undef | object => rfl

/-! ## The first bad position -/

theorem positionError_of_firstError (hnone : p.firstError live room v = none) (path : List Nat) :
    p.positionError live room v path = none := by
  induction room generalizing v path with
  | zero => simp [firstError] at hnone
  | succ room ih =>
    rw [firstError_succ, Option.or_eq_none_iff] at hnone
    obtain ⟨hvalue, helements⟩ := hnone
    cases path with
    | nil => rw [positionError_nil_succ, hvalue]
    | cons n path =>
      rw [positionError_cons_succ, Option.bind_eq_none_iff]
      intro x hx
      exact ih (List.findSome?_eq_none_iff.1 helements x (List.mem_of_getElem? hx)) path

theorem exists_firstBad (herror : p.firstError live room v = some e) :
    ∃ path, p.FirstBad live room v path e := by
  induction room generalizing v with
  | zero =>
    refine ⟨[], ?_, fun path' hlt => absurd hlt (List.not_lt_nil path')⟩
    simpa [positionError, Store.at?, firstError] using herror
  | succ room ih =>
    rw [firstError_succ, Option.or_eq_some_iff] at herror
    rcases herror with hvalue | ⟨hvalue, helements⟩
    · refine ⟨[], ?_, fun path' hlt => absurd hlt (List.not_lt_nil path')⟩
      rw [positionError_nil_succ, hvalue]
    · -- the elements before the failing one have no bad positions at all
      obtain ⟨before, x, after, hsplit, hx, hbefore⟩ := List.findSome?_eq_some_iff.1 helements
      obtain ⟨path, hfirst⟩ := ih hx
      have hget : (p.store.elementsOf v)[before.length]? = some x := by
        simp [hsplit]
      refine ⟨before.length :: path, ?_, ?_⟩
      · rw [positionError_cons_succ, hget]
        exact hfirst.error
      · intro path' hlt
        cases path' with
        | nil => rw [positionError_nil_succ, hvalue]
        | cons n path' =>
          rw [positionError_cons_succ]
          rcases List.cons_lt_cons_iff.1 hlt with hn | ⟨rfl, hpath⟩
          · have hmem : (p.store.elementsOf v)[n]? = some before[n] := by
              rw [hsplit, List.getElem?_append_left hn, List.getElem?_eq_getElem hn]
            rw [hmem]
            exact positionError_of_firstError (hbefore _ (List.getElem_mem hn)) path'
          · rw [hget]
            exact hfirst.before path' hpath

theorem firstError_eq_none_iff :
    p.firstError live room v = none ↔ ∀ path, p.positionError live room v path = none := by
  refine ⟨positionError_of_firstError, fun hall => ?_⟩
  cases herror : p.firstError live room v with
  | none => rfl
  | some e =>
    obtain ⟨path, hfirst⟩ := exists_firstBad herror
    have hbad := hfirst.error
    rw [hall path] at hbad
    cases hbad

theorem firstError_eq_some_iff :
    p.firstError live room v = some e ↔ ∃ path, p.FirstBad live room v path e := by
  refine ⟨exists_firstBad, fun ⟨path, hfirst⟩ => ?_⟩
  cases herror : p.firstError live room v with
  | none =>
    have hnone := positionError_of_firstError herror path
    rw [hfirst.error] at hnone
    cases hnone
  | some e' =>
    obtain ⟨path', hfirst'⟩ := exists_firstBad herror
    rw [(hfirst.unique hfirst').2]

/-- A cycle leads below any limit. -/
theorem positionError_cycle {cycle : List Nat} (hx : p.store.at? v path = some x)
    (hcycle : p.store.at? x cycle = some x) (hne : cycle ≠ []) (live : Handle → Bool)
    (room : Nat) :
    ∃ path', p.positionError live room v path' = some (.nestingTooDeep p.config.maxDepth) := by
  have hlong := Store.at?_cycle hx hcycle room
  obtain ⟨y, hy⟩ := Store.at?_take hlong room
  refine ⟨(path ++ (List.replicate room cycle).flatten).take room, ?_⟩
  have hlength : ((path ++ (List.replicate room cycle).flatten).take room).length = room := by
    have hpos := List.length_pos_iff.2 hne
    have hmul : room ≤ room * cycle.length := Nat.le_mul_of_pos_right room hpos
    rw [List.length_take, List.length_append, List.length_flatten, List.map_replicate,
      List.sum_replicate_nat]
    omega
  rw [positionError, hy, Option.bind_some, hlength, if_neg (Nat.lt_irrefl room), if_pos rfl]

end Passage

/-! ## Conversion across a bridge -/

section

variable {w : World} {b : Bridge} {v : Value}

/-- A conversion ends with the error of the first bad position, or succeeds if there is none. -/
theorem World.marshal_fst (hrest : (w.interpreter b.interpreter).heap.AtRest)
    (hspared : (w.passage b.interpreter b.config).Spared
      (w.interpreter b.interpreter).heap.contains (w.frees b.interpreter b.config v)
      (w.interpreter b.interpreter).heap) :
    match (w.marshal b v).1 with
    | .ok _ => (w.passage b.interpreter b.config).firstError
        (w.interpreter b.interpreter).heap.contains (b.config.maxDepth + 1) v = none
    | .error e => (w.passage b.interpreter b.config).firstError
        (w.interpreter b.interpreter).heap.contains (b.config.maxDepth + 1) v = some e := by
  obtain ⟨hp, houtcome, -⟩ := World.convert_outcome b.config v hrest hspared
  have hfst : (w.marshal b v).1 = (w.convert b.interpreter b.config v).1 := rfl
  rw [hfst]
  rcases hend : (w.convert b.interpreter b.config v).1 with e | h
  · rw [hend] at houtcome
    cases houtcome with
    | failed herror _ => exact herror
  · rw [hend] at houtcome
    cases houtcome with
    | made _ herror _ => exact herror

/-- When a conversion succeeds, and which error it ends with. -/
structure World.EndsFirstBad (w : World) (b : Bridge) (v : Value) : Prop where
  ok_iff : (∃ h, (w.marshal b v).1 = .ok h) ↔
    ∀ path, (w.passage b.interpreter b.config).positionError
      (w.interpreter b.interpreter).heap.contains (b.config.maxDepth + 1) v path = none
  error_iff : ∀ e, (w.marshal b v).1 = .error e ↔
    ∃ path, (w.passage b.interpreter b.config).FirstBad
      (w.interpreter b.interpreter).heap.contains (b.config.maxDepth + 1) v path e
  /-- A value that leads to a cycle is not converted, under any limit. -/
  cycle : ∀ path cycle x, w.store.at? v path = some x → w.store.at? x cycle = some x →
    cycle ≠ [] → ∃ e, (w.marshal b v).1 = .error e

theorem World.marshal_endsFirstBad (hrest : (w.interpreter b.interpreter).heap.AtRest)
    (hspared : (w.passage b.interpreter b.config).Spared
      (w.interpreter b.interpreter).heap.contains (w.frees b.interpreter b.config v)
      (w.interpreter b.interpreter).heap) : w.EndsFirstBad b v := by
  have hfst := World.marshal_fst hrest hspared
  rcases hend : (w.marshal b v).1 with e | h
  · rw [hend] at hfst
    dsimp only at hfst
    refine ⟨?_, fun e' => ?_, fun _ _ _ _ _ _ => ⟨e, hend⟩⟩
    · rw [← Passage.firstError_eq_none_iff, hend, hfst]
      simp
    · rw [← Passage.firstError_eq_some_iff, hend, hfst]
      simp
  · rw [hend] at hfst
    dsimp only at hfst
    refine ⟨?_, fun e' => ?_, fun path cycle x hx hcycle hne => ?_⟩
    · rw [← Passage.firstError_eq_none_iff, hend, hfst]
      simp
    · rw [← Passage.firstError_eq_some_iff, hend, hfst]
      simp
    · obtain ⟨path', hbad⟩ := Passage.positionError_cycle
        (p := w.passage b.interpreter b.config) hx hcycle hne
        (w.interpreter b.interpreter).heap.contains (b.config.maxDepth + 1)
      rw [Passage.firstError_eq_none_iff.1 hfst path'] at hbad
      cases hbad

/-- A conversion succeeds if and only if no position of the value is bad, and it fails with an error
if and only if this is the error of the first bad position. So it fails for a value that leads to a
cycle, under any limit.

The heap is at rest, as it is between two operations, and no stale handle in a boundary object comes
to fit a new scalar because its slot has been emptied too often on the way. In a run this cannot
happen before a slot has been emptied `2 ^ 32` times (`World.Logged.spared`). -/
theorem marshal_ends (hrest : (w.interpreter b.interpreter).heap.AtRest)
    (hspared : (w.passage b.interpreter b.config).Spared
      (w.interpreter b.interpreter).heap.contains (w.frees b.interpreter b.config v)
      (w.interpreter b.interpreter).heap) :
    ((∃ h, (w.marshal b v).1 = .ok h) ↔
        ∀ path, (w.passage b.interpreter b.config).positionError
          (w.interpreter b.interpreter).heap.contains (b.config.maxDepth + 1) v path = none) ∧
      (∀ e, (w.marshal b v).1 = .error e ↔
        ∃ path, (w.passage b.interpreter b.config).FirstBad
          (w.interpreter b.interpreter).heap.contains (b.config.maxDepth + 1) v path e) ∧
      ∀ path cycle x, w.store.at? v path = some x → w.store.at? x cycle = some x → cycle ≠ [] →
        ∃ e, (w.marshal b v).1 = .error e := by
  have hends := World.marshal_endsFirstBad hrest hspared
  exact ⟨hends.ok_iff, hends.error_iff, hends.cycle⟩

/-- Two arrays that hold each other, the second one with an undefined value after the first. -/
def entwined : World where
  store := {
    holdings := #[some ⟨2, .array [.integer 3, .array ⟨1⟩]⟩,
      some ⟨1, .array [.array ⟨0⟩, .undef]⟩] }

/-- The position below the limit comes before that of the undefined value, which is less deep. -/
theorem marshal_ends_entwined :
    (entwined.marshal ⟨⟨1⟩, { maxDepth := 3 }, ⟨0⟩⟩ (.array ⟨0⟩)).1 = .error (.nestingTooDeep 3) ∧
      (entwined.passage ⟨1⟩ { maxDepth := 3 }).positionError
        (entwined.interpreter ⟨1⟩).heap.contains 4 (.array ⟨0⟩) [1, 1]
          = some (.unsupportedConversion "Undef") ∧
      ∃ path, (entwined.passage ⟨1⟩ { maxDepth := 3 }).FirstBad
        (entwined.interpreter ⟨1⟩).heap.contains 4 (.array ⟨0⟩) path (.nestingTooDeep 3) := by
  have hrest : (entwined.interpreter ⟨1⟩).heap.AtRest := ⟨Heap.wellFormed_empty, rfl⟩
  have hspared : (entwined.passage ⟨1⟩ { maxDepth := 3 }).Spared
      (entwined.interpreter ⟨1⟩).heap.contains
      (entwined.frees ⟨1⟩ { maxDepth := 3 } (.array ⟨0⟩)) (entwined.interpreter ⟨1⟩).heap := by
    rintro ⟨_ | _ | n⟩ k hown hk
    · cases hown
    · cases hown
    · cases hown
  have hrun : (entwined.convert ⟨1⟩ { maxDepth := 3 } (.array ⟨0⟩)).1
      = .error (.nestingTooDeep 3) := by cbv
  have hends := marshal_ends (b := ⟨⟨1⟩, { maxDepth := 3 }, ⟨0⟩⟩) hrest hspared
  exact ⟨hrun, by cbv, (hends.2.1 _).1 hrun⟩

end

end GuestBridge
