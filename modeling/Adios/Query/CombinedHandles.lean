import Adios.Query.Tree
import Mathlib.Data.List.Chain
import Mathlib.Data.Set.Basic

/-!
# Adios — combined FastBit selections

`setCombinedQueryInternal` puts the selections of two subqueries together, in the recursions of
`blockSelectionFastbitHandle` and `getHandle`. Each query keeps its handle from one evaluation to
the next, and a missing handle stands for no hits. What FastBit does with two selections is a
parameter.
-/

namespace Adios.CombinedQuery

/-- `FastBitCombineType` -/
inductive CombineType where
  | and
  | or
  deriving DecidableEq

/-- The selections of FastBit: the hits of each, and `fastbit_selection_combine`, which gives a
selection of the hits of both or of either. -/
structure FastBit (H : Type) where
  hits : H → Set Nat
  combine : H → CombineType → H → H
  hits_and : ∀ l r, hits (combine l .and r) = hits l ∩ hits r
  hits_or : ∀ l r, hits (combine l .or r) = hits l ∪ hits r

/-- `ADIOS_QUERY` with the handle of its `queryInternal`; `none` is `NULL`. -/
inductive Query (L H : Type) where
  | leaf (q : L) (handle : Option H)
  | node (combineOp : ClauseOp) (handle : Option H) (left right : Query L H)

variable {L H : Type}

namespace Query

def handle : Query L H → Option H
  | .leaf _ handle => handle
  | .node _ handle _ _ => handle

end Query

/-! ## The evaluation -/

section

variable (F : FastBit H)

/-- `setCombinedQueryInternal`: the handle of a query with two subqueries. -/
def setCombinedQueryInternal (combineOp : ClauseOp) (handle : Option H)
    (leftHandle rightHandle : Option H) : Option H :=
  match leftHandle, rightHandle with
  -- "both fastbit handles are null, do nothing"
  | none, none => handle
  | some left, none => if combineOp = .or then some left else handle
  | none, some right => if combineOp = .or then some right else handle
  | some left, some right =>
    if combineOp = .and then some (F.combine left .and right) else some (F.combine left .or right)

def Query.evaluate (atLeaf : L → Option H) : Query L H → Query L H
  | .leaf q _ => .leaf q (atLeaf q)
  | .node combineOp handle left right =>
    let left := left.evaluate atLeaf
    let right := right.evaluate atLeaf
    .node combineOp (setCombinedQueryInternal F combineOp handle left.handle right.handle) left right

/-- `blockSelectionFastbitHandle`, with `getHandleFromBlockAtLeafQuery` for the time step and the
block that the leaf selects. -/
def blockSelectionFastbitHandle (getHandleFromBlockAtLeafQuery : Int → L → Option H)
    (index : L → Int) (q : Query L H) : Query L H :=
  q.evaluate F fun leaf => getHandleFromBlockAtLeafQuery (index leaf) leaf

/-- `getHandle`: one block for all leaves. -/
def getHandle (getHandleFromBlockAtLeafQuery : Int → L → Option H) (blockIdx : Int)
    (q : Query L H) : Query L H :=
  q.evaluate F (getHandleFromBlockAtLeafQuery blockIdx)

/-! ## What a combination is for -/

def hitsOf : Option H → Set Nat
  | none => ∅
  | some h => F.hits h

def combineHits : ClauseOp → Set Nat → Set Nat → Set Nat
  | .and, l, r => l ∩ r
  | .or, l, r => l ∪ r

end

/-- A combination has hits unless both sides are without a handle, or one side of an `AND` is. -/
def combined : ClauseOp → Bool → Bool → Bool
  | .and, l, r => l && r
  | .or, l, r => l || r

namespace Query

section

variable (F : FastBit H)

/-- Every inner node of an evaluated query has the hits of its two sides put together, and has no
handle exactly if there are none by construction. -/
def Right : Query L H → Prop
  | .leaf _ _ => True
  | .node combineOp handle left right =>
    (hitsOf F handle = combineHits combineOp (hitsOf F left.handle) (hitsOf F right.handle) ∧
      handle.isSome = combined combineOp left.handle.isSome right.handle.isSome) ∧
    left.Right ∧ right.Right

def meaning (atLeaf : L → Option H) : Query L H → Set Nat
  | .leaf q _ => hitsOf F (atLeaf q)
  | .node combineOp _ left right =>
    combineHits combineOp (left.meaning atLeaf) (right.meaning atLeaf)

end

def present (atLeaf : L → Option H) : Query L H → Bool
  | .leaf q _ => (atLeaf q).isSome
  | .node combineOp _ left right =>
    combined combineOp (left.present atLeaf) (right.present atLeaf)

def Clear (atLeaf : L → Option H) : Query L H → Prop
  | .leaf _ _ => True
  | .node combineOp handle left right =>
    (combined combineOp (left.present atLeaf) (right.present atLeaf) = false → handle = none) ∧
      left.Clear atLeaf ∧ right.Clear atLeaf

end Query

section

variable {F : FastBit H} {combineOp : ClauseOp} {handle l r : Option H}

theorem setCombinedQueryInternal_cases (F : FastBit H) (combineOp : ClauseOp)
    (handle l r : Option H) :
    (combined combineOp l.isSome r.isSome = true ∧
      ∃ h, setCombinedQueryInternal F combineOp handle l r = some h ∧
        F.hits h = combineHits combineOp (hitsOf F l) (hitsOf F r)) ∨
    (combined combineOp l.isSome r.isSome = false ∧
      setCombinedQueryInternal F combineOp handle l r = handle ∧
        combineHits combineOp (hitsOf F l) (hitsOf F r) = ∅) := by
  cases combineOp with
  | and =>
    cases l with
    | none => cases r <;> exact .inr ⟨rfl, rfl, Set.empty_inter _⟩
    | some left =>
      cases r with
      | none => exact .inr ⟨rfl, rfl, Set.inter_empty _⟩
      | some right => exact .inl ⟨rfl, _, rfl, F.hits_and left right⟩
  | or =>
    cases l with
    | none =>
      cases r with
      | none => exact .inr ⟨rfl, rfl, Set.empty_union _⟩
      | some right => exact .inl ⟨rfl, right, rfl, (Set.empty_union _).symm⟩
    | some left =>
      cases r with
      | none => exact .inl ⟨rfl, left, rfl, (Set.union_empty _).symm⟩
      | some right => exact .inl ⟨rfl, _, rfl, F.hits_or left right⟩

theorem node_right_iff :
    (hitsOf F (setCombinedQueryInternal F combineOp handle l r) =
        combineHits combineOp (hitsOf F l) (hitsOf F r) ∧
      (setCombinedQueryInternal F combineOp handle l r).isSome =
        combined combineOp l.isSome r.isSome) ↔
      (combined combineOp l.isSome r.isSome = false → handle = none) := by
  rcases setCombinedQueryInternal_cases F combineOp handle l r with
    ⟨hpresent, h, hset, hhits⟩ | ⟨habsent, hset, hempty⟩
  · rw [hset, hpresent]
    exact iff_of_true ⟨hhits, rfl⟩ fun hfalse => by cases hfalse
  · rw [hset, habsent, hempty]
    cases handle with
    | none => exact iff_of_true ⟨rfl, rfl⟩ fun _ => rfl
    | some h => exact iff_of_false (fun hright => by cases hright.2) fun hnone => by cases hnone rfl

end

/-! ## One evaluation -/

namespace Query

variable {F : FastBit H} {atLeaf : L → Option H} {q : Query L H}

theorem isSome_handle_of_right (h : (q.evaluate F atLeaf).Right F) :
    (q.evaluate F atLeaf).handle.isSome = q.present atLeaf := by
  induction q with
  | leaf leaf handle => rfl
  | node combineOp handle left right ihl ihr =>
    obtain ⟨hnode, hleft, hright⟩ := h
    rw [present, ← ihl hleft, ← ihr hright]
    exact hnode.2

theorem hitsOf_handle_of_right (h : (q.evaluate F atLeaf).Right F) :
    hitsOf F (q.evaluate F atLeaf).handle = q.meaning F atLeaf := by
  induction q with
  | leaf leaf handle => rfl
  | node combineOp handle left right ihl ihr =>
    obtain ⟨hnode, hleft, hright⟩ := h
    rw [meaning, ← ihl hleft, ← ihr hright]
    exact hnode.1

theorem evaluate_right_iff (F : FastBit H) (atLeaf : L → Option H) (q : Query L H) :
    (q.evaluate F atLeaf).Right F ↔ q.Clear atLeaf := by
  induction q with
  | leaf leaf handle => exact Iff.rfl
  | node combineOp handle left right ihl ihr =>
    rw [Clear, ← ihl, ← ihr, evaluate, Right]
    -- the two sides tell which handles this node looks at
    refine and_congr_left fun ⟨hleft, hright⟩ => ?_
    rw [node_right_iff, isSome_handle_of_right hleft, isSome_handle_of_right hright]

end Query

/-- Exactly then all handles are right, with a block for each leaf or one for all. -/
theorem combined_right_iff (F : FastBit H) (getHandleFromBlockAtLeafQuery : Int → L → Option H)
    (q : Query L H) :
    (∀ index, (blockSelectionFastbitHandle F getHandleFromBlockAtLeafQuery index q).Right F ↔
      q.Clear fun leaf => getHandleFromBlockAtLeafQuery (index leaf) leaf) ∧
    ∀ blockIdx, (getHandle F getHandleFromBlockAtLeafQuery blockIdx q).Right F ↔
      q.Clear (getHandleFromBlockAtLeafQuery blockIdx) :=
  ⟨fun _ => Query.evaluate_right_iff F _ q, fun _ => Query.evaluate_right_iff F _ q⟩

def hitLists : FastBit (List Nat) where
  hits l := {x | x ∈ l}
  combine
    | l, .and, r => l.filter (· ∈ r)
    | l, .or, r => l ++ r
  hits_and l r := by
    ext x
    simp
  hits_or l r := by
    ext x
    simp

def firstInBoth : Query Nat (List Nat) :=
  (Query.node .and none (.leaf 0 none) (.leaf 1 none)).evaluate hitLists fun _ => some [0]

/-- The second evaluation finds the hit of the first. -/
theorem not_right_firstInBoth :
    ¬(getHandle hitLists (fun _ leaf => if leaf = 0 then some [0] else none) 0 firstInBoth).Right
      hitLists := by
  rintro ⟨⟨-, hpresent⟩, -⟩
  cases hpresent

/-! ## One evaluation after the other -/

namespace Query

variable {F : FastBit H} {f g : L → Option H} {q : Query L H}

def Fresh : Query L H → Prop
  | .leaf _ _ => True
  | .node _ handle left right => handle = none ∧ left.Fresh ∧ right.Fresh

def Stays (f g : L → Option H) : Query L H → Prop
  | .leaf _ _ => True
  | .node combineOp handle left right =>
    ((Query.node combineOp handle left right).present f = true →
      (Query.node combineOp handle left right).present g = true) ∧
    left.Stays f g ∧ right.Stays f g

def AllRight (F : FastBit H) : List (L → Option H) → Query L H → Prop
  | [], _ => True
  | atLeaf :: steps, q => (q.evaluate F atLeaf).Right F ∧ AllRight F steps (q.evaluate F atLeaf)

theorem clear_of_fresh (h : q.Fresh) : q.Clear f := by
  induction q with
  | leaf leaf handle => trivial
  | node combineOp handle left right ihl ihr => exact ⟨fun _ => h.1, ihl h.2.1, ihr h.2.2⟩

theorem present_evaluate (F : FastBit H) (f g : L → Option H) (q : Query L H) :
    (q.evaluate F f).present g = q.present g := by
  induction q with
  | leaf leaf handle => rfl
  | node combineOp handle left right ihl ihr => rw [evaluate, present, ihl, ihr, present]

theorem stays_evaluate {f' : L → Option H} : (q.evaluate F f').Stays f g ↔ q.Stays f g := by
  induction q with
  | leaf leaf handle => exact Iff.rfl
  | node combineOp handle left right ihl ihr =>
    rw [evaluate, Stays, Stays, ihl, ihr, present, present, present, present, present_evaluate,
      present_evaluate, present_evaluate, present_evaluate]

theorem none_of_false_iff (handle : Option H) (b : Bool) :
    (b = false → handle = none) ↔ (handle.isSome = true → b = true) := by
  cases handle <;> cases b <;> simp

theorem clear_evaluate_iff (h : (q.evaluate F f).Right F) :
    (q.evaluate F f).Clear g ↔ q.Stays f g := by
  induction q with
  | leaf leaf handle => exact Iff.rfl
  | node combineOp handle left right ihl ihr =>
    have hsome := isSome_handle_of_right h
    obtain ⟨-, hleft, hright⟩ := h
    rw [Stays, ← hsome, ← ihl hleft, ← ihr hright, present, ← present_evaluate F f g left,
      ← present_evaluate F f g right]
    exact and_congr_left' (none_of_false_iff _ _)

theorem allRight_iff (h : q.Fresh) (steps : List (L → Option H)) :
    q.AllRight F steps ↔ steps.IsChain fun f g => q.Stays f g := by
  have hrun (steps : List (L → Option H)) (f : L → Option H) (q : Query L H)
      (hright : (q.evaluate F f).Right F) :
      (q.evaluate F f).AllRight F steps ↔ (f :: steps).IsChain fun f g => q.Stays f g := by
    induction steps generalizing f q with
    | nil => exact iff_of_true trivial (.singleton f)
    | cons g steps ih =>
      rw [List.isChain_cons_cons, ← clear_evaluate_iff hright, ← evaluate_right_iff F]
      refine and_congr_right fun hnext => ?_
      rw [ih g _ hnext]
      simp only [stays_evaluate]
  cases steps with
  | nil => exact iff_of_true trivial .nil
  | cons f steps =>
    have hright := (evaluate_right_iff F f q).mpr (clear_of_fresh h)
    exact (and_iff_right hright).trans (hrun steps f q hright)

theorem meaning_evaluate (F : FastBit H) (f g : L → Option H) (q : Query L H) :
    (q.evaluate F f).meaning F g = q.meaning F g := by
  induction q with
  | leaf leaf handle => rfl
  | node combineOp handle left right ihl ihr => rw [evaluate, meaning, ihl, ihr, meaning]

theorem hitsOf_of_allRight {pre post : List (L → Option H)} (h : q.AllRight F (pre ++ f :: post)) :
    hitsOf F ((pre.foldl (fun q g => q.evaluate F g) q).evaluate F f).handle = q.meaning F f := by
  induction pre generalizing q with
  | nil => exact hitsOf_handle_of_right h.1
  | cons g pre ih =>
    rw [List.foldl_cons, ih h.2, meaning_evaluate]

/-- **A query that is evaluated at one step after the other** has the right handles at each of them
exactly if no inner node loses its hits, and then its result at a step is what it means there. -/
theorem evaluations_right_iff (h : q.Fresh) (steps : List (L → Option H)) :
    (q.AllRight F steps ↔ steps.IsChain fun f g => q.Stays f g) ∧
      (q.AllRight F steps → ∀ pre f post, steps = pre ++ f :: post →
        hitsOf F ((pre.foldl (fun q g => q.evaluate F g) q).evaluate F f).handle =
          q.meaning F f) :=
  ⟨allRight_iff h steps, fun hright _ _ _ hsteps => hitsOf_of_allRight (hsteps ▸ hright)⟩

/-- Two steps with a hit in both leaves at each. -/
theorem evaluations_right_bothLeaves :
    (Query.node ClauseOp.and none (.leaf 0 none) (.leaf 1 none)).AllRight hitLists
      [fun _ : Nat => some [0], fun leaf => some [leaf]] :=
  (evaluations_right_iff (q := .node .and none (.leaf 0 none) (.leaf 1 none))
    ⟨rfl, trivial, trivial⟩ _).1.mpr (.cons_cons ⟨fun _ => rfl, trivial, trivial⟩ (.singleton _))

end Query

end Adios.CombinedQuery
