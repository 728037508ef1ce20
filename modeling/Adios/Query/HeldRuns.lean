import Adios.Query.HeldTree
import Adios.Runs.Every

/-!
# Adios — queries after failed calls

Which calls a query tree survives. A leaf whose data slice has been freed points to it until the
size check succeeds: when that fails, the next check or the last `free` frees it again. Every other
call leaves the objects that the leaves point to and nothing else, and what the next call does
depends on no call before.
-/

namespace Adios.HeldQuery

open List Heap Runs
open PgBounds (Common computePgBounds)

/-- `adios_check_query_at_timestep` without what the leaves held before: the time step, what the
comparison sees, and the variables. -/
def checked : Tree → Int → Except Fault (Option (Int × Query × Variables))
  | .leaf q, timeStep =>
    match q.lookUp timeStep with
    | none => .ok none
    | some (timeStep, v) => do
      match ← getTotalByteSize v.extents q.sel timeStep with
      | none => return none
      | some (_, dataSize) =>
        return some (timeStep, .leaf { q.sized with rawDataSize := dataSize }, .leaf v)
  | .node op left right, timeStep => do
    let left ← checked left timeStep
    let right ← checked right timeStep
    match left, right with
    | some (leftTimeStep, left, leftVars), some (_, right, rightVars) =>
      if isCompatible left right ≠ 0 then return none
      else return some (leftTimeStep, .node op left right, .node leftVars rightVars)
    | _, _ => return none

/-! ## Calls that are survived -/

def Leaf.SizeSafe (q : Leaf) (timeStep : Int) : Prop :=
  ∀ step v, q.lookUp timeStep = some (step, v) →
    (∃ sizes, getTotalByteSize v.extents q.sel step = .ok (some sizes)) ∨
      q.dataSlice = none ∧ getTotalByteSize v.extents q.sel step = .ok none

def Tree.SizeSafe (t : Tree) (timeStep : Int) : Prop := ∀ q ∈ t.leaves, q.SizeSafe timeStep

/-- A write block for the output has no internal flag, and all variables have the same box as that
block. -/
def BoundaryFits (outputBoundary : Option OutputBoundary) (timeStep : Int) (vars : Variables) :
    Prop :=
  ∀ index isAbsoluteIndex isSubPgSelection,
    outputBoundary = some (.writeBlock index isAbsoluteIndex isSubPgSelection) →
      isAbsoluteIndex = false ∧ isSubPgSelection = false ∧
        ∃ bounds, Common (·.blockSeen index timeStep) vars.bounds bounds

section Calls

variable {σ ρ : Type} (hooks : QueryMethod → Hooks σ ρ)

def foundMethod (names : List (String × String)) : List QueryMethod → QueryMethod
  | [] => .fastbit
  | method :: methods =>
    match (hooks method).canEvaluate with
    | none => foundMethod names methods
    | some can => if can.found names then method else foundMethod names methods

/-- The methods that are asked follow `q->varinfo` only where all leaves have it. -/
def MethodSafe (t : Tree) : List QueryMethod → Prop
  | [] => True
  | method :: methods =>
    match (hooks method).canEvaluate with
    | none => MethodSafe t methods
    | some can =>
      (can.readsVarinfo = true → ∀ q ∈ t.leaves, q.varinfo ≠ none) ∧
        (can.found t.names = false → MethodSafe t methods)

def State.usedMethod (s : State σ) : QueryMethod :=
  s.method.getD (foundMethod hooks s.tree.names methods)

def Safe (s : State σ) : Call → Prop
  | .estimate timestep =>
    (s.method = none → MethodSafe hooks s.tree methods) ∧
      ((hooks (s.usedMethod hooks)).estimate.isSome = true → s.tree.SizeSafe timestep)
  | .evaluate outputBoundary timeStep _ =>
    s.tree.SizeSafe timeStep ∧
      ∀ step sized vars, checked s.tree timeStep = .ok (some (step, sized, vars)) →
        BoundaryFits outputBoundary timeStep vars
  | .advance _ => True

def start (t : Tree) (method : Option QueryMethod) (data : σ) : State σ where
  tree := t.fresh
  method := method
  memory := .empty
  data := data

def outcome {α : Type} (r : Except Fault (α × State σ)) : Except Fault (α × σ) :=
  r.map fun x => (x.1, x.2.data)

/-- The calls come to their end without a fault and all objects are freed when each node is freed;
and whatever calls have been made, an evaluation gives what it gives for a query that has just been
created. -/
structure Survives (t : Tree) (method : Option QueryMethod) (data : σ) (calls : List Call) :
    Prop where
  freedOnce : ∃ s, callAll hooks (start t method data) calls = .ok s ∧
    ∀ leaves, leaves.Perm s.tree.leaves →
      ∃ m, freeAll leaves s.memory = .ok m ∧ ∀ p, m.get p = none
  asFresh : ∀ before after, calls = before ++ after →
    ∀ s, callAll hooks (start t method data) before = .ok s →
      ∀ outputBoundary timeStep batchSize,
        outcome (evaluate hooks outputBoundary timeStep batchSize s) =
          outcome (evaluate hooks outputBoundary timeStep batchSize (start s.tree method s.data))

def step (s : State σ) (c : Call) : Except Fault (Option (State σ × Unit)) :=
  (call hooks s c).map fun s => some (s, ())

end Calls

/-! ## Memory -/

def Leaf.pointers (q : Leaf) : List Nat := q.varinfo.toList ++ q.dataSlice.toList

def Tree.pointers (t : Tree) : List Nat := t.leaves.flatMap Leaf.pointers

def Dangling (m : Memory) (leaves : List Leaf) : Prop :=
  ∃ q ∈ leaves, ∃ p, q.dataSlice = some p ∧ m.Freed p

theorem pointers_node (op : ClauseOp) (left right : Tree) :
    (Tree.node op left right).pointers = left.pointers ++ right.pointers :=
  flatMap_append

section Release

variable {m m' : Memory} {p : Option Nat} {x : Nat} {ps : List Nat}

theorem release_holds (h : Holds m (p.toList ++ ps)) :
    ∃ m', release p m = .ok m' ∧ Holds m' ps ∧ (∀ x, p = some x → m'.Freed x) ∧
      ∀ x ∈ ps, m'.get x = m.get x := by
  cases p with
  | none => exact ⟨m, rfl, h, nofun, fun _ _ => rfl⟩
  | some p =>
    obtain ⟨m', hfree, hholds, hfreed, hget⟩ := Holds.free h
    refine ⟨m', ?_, hholds, ?_, hget⟩
    · rw [release, hfree]
    · rintro x ⟨⟩
      exact hfreed

theorem freed_release (hx : m.Freed x) (h : release p m = .ok m') : m'.Freed x := by
  cases p with
  | none =>
    cases h
    exact hx
  | some p =>
    rw [release] at h
    cases hfree : m.free p with
    | none =>
      rw [hfree] at h
      cases h
    | some m₁ =>
      rw [hfree] at h
      cases h
      exact hx.free hfree

theorem release_ne_ok (hx : m.Freed x) : release (some x) m ≠ .ok m' := by
  rw [release, hx.free_self]
  nofun

end Release

/-! ## The check -/

section Check

variable {q : Leaf} {t left right : Tree} {timeStep : Int} {m m' : Memory} {ps : List Nat}

theorem freed_checkLeaf {x : Nat} {r : Int} {q' : Leaf} (hx : m.Freed x)
    (h : checkLeafAtTimestep q timeStep m = .ok (r, q', m')) : m'.Freed x := by
  rw [checkLeafAtTimestep] at h
  cases hfound : q.lookUp timeStep with
  | none =>
    rw [hfound] at h
    cases h
    exact hx
  | some found =>
    rw [hfound] at h
    obtain ⟨m₁, hm₁, h⟩ := exists_of_bind_eq_ok h
    obtain ⟨m₂, hm₂, h⟩ := exists_of_bind_eq_ok h
    obtain ⟨sizes, -, h⟩ := exists_of_bind_eq_ok h
    have hx₂ := freed_release (freed_release (hx.alloc _) hm₁) hm₂
    cases sizes with
    | none =>
      cases h
      exact hx₂
    | some sizes =>
      cases h
      exact hx₂.alloc _

theorem freed_check {x : Nat} {r : Int} {t' : Tree} (hx : m.Freed x)
    (h : checkQueryAtTimestep t timeStep m = .ok (r, t', m')) : m'.Freed x := by
  induction t generalizing m r t' m' with
  | leaf q =>
    rw [checkQueryAtTimestep] at h
    obtain ⟨⟨r₁, q₁, m₁⟩, hleaf, h⟩ := exists_of_bind_eq_ok h
    cases h
    exact freed_checkLeaf hx hleaf
  | node op left right ihLeft ihRight =>
    rw [checkQueryAtTimestep] at h
    by_cases hneg : timeStep < 0
    · rw [if_pos hneg] at h
      cases h
      exact hx
    · rw [if_neg hneg] at h
      obtain ⟨⟨leftStep, left', m₁⟩, hleft, h⟩ := exists_of_bind_eq_ok h
      obtain ⟨⟨rightStep, right', m₂⟩, hright, h⟩ := exists_of_bind_eq_ok h
      have hx₂ := ihRight (ihLeft hx hleft) hright
      dsimp only at h
      split_ifs at h <;> cases h <;> exact hx₂

theorem check_of_dangling {r : Int} {t' : Tree} (hdangling : Dangling m t.leaves)
    (h : checkQueryAtTimestep t timeStep m = .ok (r, t', m')) :
    r = -1 ∧ Dangling m' t'.leaves := by
  induction t generalizing m r t' m' with
  | leaf q =>
    obtain ⟨q', hq', x, hslice, hx⟩ := hdangling
    rw [mem_singleton.mp hq'] at hslice
    rw [checkQueryAtTimestep, checkLeafAtTimestep] at h
    cases hfound : q.lookUp timeStep with
    | none =>
      rw [hfound] at h
      cases h
      exact ⟨rfl, q, mem_singleton_self q, x, hslice, hx⟩
    | some found =>
      rw [hfound] at h
      obtain ⟨_, h, -⟩ := exists_of_bind_eq_ok h
      obtain ⟨m₁, hm₁, h⟩ := exists_of_bind_eq_ok h
      obtain ⟨m₂, hm₂, -⟩ := exists_of_bind_eq_ok h
      dsimp only at hm₂
      rw [hslice] at hm₂
      exact absurd hm₂ (release_ne_ok (freed_release (hx.alloc _) hm₁))
  | node op left right ihLeft ihRight =>
    rw [checkQueryAtTimestep] at h
    by_cases hneg : timeStep < 0
    · rw [if_pos hneg] at h
      cases h
      exact ⟨rfl, hdangling⟩
    · rw [if_neg hneg] at h
      obtain ⟨⟨leftStep, left', m₁⟩, hleft, h⟩ := exists_of_bind_eq_ok h
      obtain ⟨⟨rightStep, right', m₂⟩, hright, h⟩ := exists_of_bind_eq_ok h
      dsimp only at hright h
      have hsides : (rightStep = -1 ∨ leftStep = -1) ∧
          Dangling m₂ (left'.leaves ++ right'.leaves) := by
        obtain ⟨q, hq, x, hslice, hx⟩ := hdangling
        rcases mem_append.mp hq with hq | hq
        · obtain ⟨hstep, q', hq', x', hslice', hx'⟩ := ihLeft ⟨q, hq, x, hslice, hx⟩ hleft
          exact ⟨.inr hstep, q', mem_append_left _ hq', x', hslice', freed_check hx' hright⟩
        · obtain ⟨hstep, q', hq', hrest⟩ :=
            ihRight ⟨q, hq, x, hslice, freed_check hx hleft⟩ hright
          exact ⟨.inl hstep, q', mem_append_right _ hq', hrest⟩
      rw [if_pos hsides.1] at h
      cases h
      exact ⟨rfl, hsides.2⟩

/-- What a check without a fault leaves: `qs` are the pointers to objects. -/
structure Ran (t : Tree) (timeStep : Int) (m : Memory) (ps : List Nat) (t' : Tree) (m' : Memory)
    (qs : List Nat) : Prop where
  fresh : t'.fresh = t.fresh
  holds : Holds m' (qs ++ ps)
  frame : ∀ p ∈ ps, m'.get p = m.get p
  kept : t.SizeSafe timeStep → qs = t'.pointers
  lost : ¬t.SizeSafe timeStep → Dangling m' t'.leaves

/-- What the check of a tree comes to, with `ps` the pointers of others. -/
inductive Checks (t : Tree) (timeStep : Int) (m : Memory) (ps : List Nat) : Prop where
  | fault (e : Fault) (hpure : checked t timeStep = .error e)
      (hrun : checkQueryAtTimestep t timeStep m = .error e) (hbad : ¬t.SizeSafe timeStep)
  | refused (t' : Tree) (m' : Memory) (qs : List Nat) (hpure : checked t timeStep = .ok none)
      (hrun : checkQueryAtTimestep t timeStep m = .ok (-1, t', m'))
      (hran : Ran t timeStep m ps t' m' qs)
  | accepted (step : Int) (vars : Variables) (t' : Tree) (m' : Memory) (qs : List Nat)
      (hpure : checked t timeStep = .ok (some (step, t'.sized, vars)))
      (hrun : checkQueryAtTimestep t timeStep m = .ok (step, t', m'))
      (hran : Ran t timeStep m ps t' m' qs) (hstep : step ≠ -1) (hvars : t'.vars m' = .ok vars)
      (hsafe : t.SizeSafe timeStep)

theorem Leaf.lookUp_fst {step : Int} {v : VarInfo} (h : q.lookUp timeStep = some (step, v)) :
    0 ≤ timeStep ∧ step ≠ -1 := by
  rw [lookUp] at h
  split_ifs at h with hneg hstream hfile
  · obtain ⟨v', -, heq⟩ := Option.map_eq_some_iff.mp h
    cases heq
    omega
  · obtain ⟨v', -, heq⟩ := Option.map_eq_some_iff.mp h
    cases heq
    omega

def Leaf.moved (q : Leaf) (varinfo dataSlice : Nat) (size : UInt64) : Leaf :=
  { q with varinfo := some varinfo, dataSlice := some dataSlice, rawDataSize := size }

theorem sizeSafe_leaf : (Tree.leaf q).SizeSafe timeStep ↔ q.SizeSafe timeStep :=
  forall_mem_singleton

theorem checkLeaf_checks (h : Holds m (q.pointers ++ ps)) :
    Checks (.leaf q) timeStep m ps := by
  cases hfound : q.lookUp timeStep with
  | none =>
    have hsafe : (Tree.leaf q).SizeSafe timeStep := by
      rw [sizeSafe_leaf, Leaf.SizeSafe]
      rw [hfound]
      nofun
    refine .refused (.leaf q) m q.pointers ?_ ?_ ⟨rfl, h, fun _ _ => rfl, fun _ => ?_, ?_⟩
    · rw [checked, hfound]
    · rw [checkQueryAtTimestep, checkLeafAtTimestep, hfound]
      rfl
    · exact (flatMap_singleton ..).symm
    · exact fun hbad => absurd hsafe hbad
  | some found =>
    obtain ⟨step, v⟩ := found
    -- the old objects are freed behind the allocation of the new variable information
    have halloc := h.alloc (.varinfo v)
    rw [Leaf.pointers, append_assoc] at halloc
    obtain ⟨m₁, hm₁, hholds₁, -, hget₁⟩ := release_holds (halloc.perm perm_middle)
    obtain ⟨m₂, hm₂, hholds₂, hfreed, hget₂⟩ := release_holds (hholds₁.perm perm_middle)
    have hframe : ∀ p ∈ ps, m₂.get p = m.get p := fun p hp => by
      have hmem := mem_cons_of_mem m.next hp
      rw [hget₂ p hmem, hget₁ p (mem_cons_of_mem _ (mem_append_right _ hp)),
        Objects.get_alloc_of_lt]
      exact h.lt p (mem_append_right _ hp)
    have hvarinfo : m₂.get m.next = some (.varinfo v) := by
      rw [hget₂ _ mem_cons_self, hget₁ _ mem_cons_self, Objects.get_alloc_self]
    have hleaf : checkLeafAtTimestep q timeStep m =
        (getTotalByteSize v.extents q.sel step >>= fun sizes => sizes.elim
          (.ok (-1, { q with varinfo := some m.next }, m₂)) fun sizes =>
            .ok (step, q.moved m.next m₂.next sizes.2, m₂.alloc (.dataSlice sizes.1))) := by
      rw [checkLeafAtTimestep, hfound]
      simp only [hm₁, hm₂, ok_bind]
      refine bind_congr fun sizes => ?_
      cases sizes <;> rfl
    have hsize : (Tree.leaf q).SizeSafe timeStep ↔
        (∃ sizes, getTotalByteSize v.extents q.sel step = .ok (some sizes)) ∨
          q.dataSlice = none ∧ getTotalByteSize v.extents q.sel step = .ok none := by
      rw [sizeSafe_leaf, Leaf.SizeSafe, hfound]
      refine ⟨fun hall => hall step v rfl, fun hcases step' v' heq => ?_⟩
      cases heq
      exact hcases
    cases hsizes : getTotalByteSize v.extents q.sel step with
    | error e =>
      refine .fault e ?_ ?_ ?_
      · rw [checked, hfound]
        simp only [hsizes]
        rfl
      · rw [checkQueryAtTimestep, hleaf, hsizes]
        rfl
      · rw [hsize, hsizes]
        simp
    | ok sizes =>
      rw [hsizes] at hleaf hsize
      cases sizes with
      | none =>
        refine .refused (.leaf { q with varinfo := some m.next }) m₂ [m.next] ?_ ?_
          ⟨rfl, hholds₂, hframe, fun hsafe => ?_, fun hbad => ?_⟩
        · rw [checked, hfound]
          simp only [hsizes]
          rfl
        · rw [checkQueryAtTimestep, hleaf]
          rfl
        · have hnone : q.dataSlice = none := by simpa using hsize.mp hsafe
          rw [Tree.pointers, Tree.leaves, flatMap_singleton, Leaf.pointers, hnone]
          rfl
        · have hsome : q.dataSlice ≠ none := by simpa [hsize] using hbad
          obtain ⟨p, hp⟩ := Option.ne_none_iff_exists'.mp hsome
          exact ⟨_, mem_singleton_self _, p, hp, hfreed p hp⟩
      | some sizes =>
        have hsafe : (Tree.leaf q).SizeSafe timeStep := hsize.mpr (.inl ⟨sizes, rfl⟩)
        have hholds₃ := hholds₂.alloc (.dataSlice sizes.1)
        have hlt := hholds₂.lt
        refine .accepted step (.leaf v) (.leaf (q.moved m.next m₂.next sizes.2))
          (m₂.alloc (.dataSlice sizes.1)) [m.next, m₂.next] ?_ ?_
          ⟨rfl, hholds₃.perm (.swap ..), fun p hp => ?_, fun _ => rfl, fun hbad => ?_⟩
          (Leaf.lookUp_fst hfound).2 ?_ hsafe
        · rw [checked, hfound]
          simp only [hsizes]
          rfl
        · rw [checkQueryAtTimestep, hleaf]
          rfl
        · rw [Objects.get_alloc_of_lt _ _ (hlt p (mem_cons_of_mem _ hp))]
          exact hframe p hp
        · exact absurd hsafe hbad
        · have hget : (m₂.alloc (.dataSlice sizes.1)).get m.next = some (.varinfo v) := by
            rw [Objects.get_alloc_of_lt _ _ (hlt _ mem_cons_self)]
            exact hvarinfo
          simp only [Tree.vars, Leaf.moved, Option.bind_some, hget]

theorem checked_of_neg (t : Tree) (h : timeStep < 0) : checked t timeStep = .ok none := by
  induction t with
  | leaf q => rw [checked, Leaf.lookUp, if_pos h]
  | node op left right ihLeft ihRight =>
    rw [checked, ihLeft, ihRight]
    rfl

theorem sizeSafe_node {op : ClauseOp} :
    (Tree.node op left right).SizeSafe timeStep ↔
      left.SizeSafe timeStep ∧ right.SizeSafe timeStep :=
  forall_mem_append

theorem vars_congr (t : Tree) (h : ∀ p ∈ t.pointers, m'.get p = m.get p) :
    t.vars m' = t.vars m := by
  induction t with
  | leaf q =>
    rw [Tree.vars, Tree.vars]
    cases hp : q.varinfo with
    | none => rfl
    | some p =>
      have hmem : p ∈ (Tree.leaf q).pointers := by
        simp [Tree.pointers, Tree.leaves, Leaf.pointers, hp]
      rw [Option.bind_some, Option.bind_some, h p hmem]
  | node op left right ihLeft ihRight =>
    rw [pointers_node] at h
    rw [Tree.vars, Tree.vars, ihLeft fun p hp => h p (mem_append_left _ hp),
      ihRight fun p hp => h p (mem_append_right _ hp)]

theorem Ran.node {op : ClauseOp} {left' right' : Tree} {m₁ m₂ : Memory} {ql qr : List Nat}
    (hleft : Ran left timeStep m (right.pointers ++ ps) left' m₁ ql)
    (hright : Ran right timeStep m₁ (ql ++ ps) right' m₂ qr)
    (hfreed : ∀ x, m₁.Freed x → m₂.Freed x) :
    Ran (.node op left right) timeStep m ps (.node op left' right') m₂ (ql ++ qr) where
  fresh := congrArg₂ (Tree.node op) hleft.fresh hright.fresh
  holds := hright.holds.perm (by
    rw [← append_assoc]
    exact perm_append_comm.append_right ps)
  frame p hp := by
    rw [hright.frame p (mem_append_right _ hp), hleft.frame p (mem_append_right _ hp)]
  kept hsafe := by
    obtain ⟨hl, hr⟩ := sizeSafe_node.mp hsafe
    rw [pointers_node, hleft.kept hl, hright.kept hr]
  lost hbad := by
    rw [sizeSafe_node, not_and_or] at hbad
    rcases hbad with hl | hr
    · obtain ⟨q, hq, p, hslice, hp⟩ := hleft.lost hl
      exact ⟨q, mem_append_left _ hq, p, hslice, hfreed p hp⟩
    · obtain ⟨q, hq, hrest⟩ := hright.lost hr
      exact ⟨q, mem_append_right _ hq, hrest⟩

theorem check_checks (t : Tree) (timeStep : Int) {m : Memory} {ps : List Nat}
    (h : Holds m (t.pointers ++ ps)) : Checks t timeStep m ps := by
  induction t generalizing m ps with
  | leaf q =>
    rw [Tree.pointers, Tree.leaves, flatMap_singleton] at h
    exact checkLeaf_checks h
  | node op left right ihLeft ihRight =>
    by_cases hneg : timeStep < 0
    · have hsafe : (Tree.node op left right).SizeSafe timeStep := fun q _ step v hfound => by
        have hpos := (Leaf.lookUp_fst hfound).1
        omega
      refine .refused _ m _ (checked_of_neg _ hneg) ?_
        ⟨rfl, h, fun _ _ => rfl, fun _ => rfl, fun hbad => absurd hsafe hbad⟩
      rw [checkQueryAtTimestep, if_pos hneg]
    · rw [pointers_node, append_assoc] at h
      have hrun := checkQueryAtTimestep.eq_2 timeStep m op left right
      rw [if_neg hneg] at hrun
      have hpure := checked.eq_2 timeStep op left right
      -- the left side first, with the pointers of the right side beside it
      cases ihLeft h with
      | fault e hl hlrun hbad =>
        refine .fault e (by rw [hpure, hl]; rfl) (by rw [hrun, hlrun]; rfl) fun hsafe => ?_
        exact hbad (sizeSafe_node.mp hsafe).1
      | refused left' m₁ ql hl hlrun hleft =>
        rw [hl, ok_bind] at hpure
        rw [hlrun, ok_bind] at hrun
        dsimp only at hrun
        cases ihRight (hleft.holds.perm (perm_append_comm_assoc ..)) with
        | fault e hr hrrun hbad =>
          refine .fault e (by rw [hpure, hr]; rfl) (by rw [hrun, hrrun]; rfl) fun hsafe => ?_
          exact hbad (sizeSafe_node.mp hsafe).2
        | refused right' m₂ qr hr hrrun hright =>
          refine .refused _ m₂ _ (by rw [hpure, hr]; rfl) ?_
            (hleft.node hright fun x hx => freed_check hx hrrun)
          rw [hrun, hrrun]
          rfl
        | accepted step vars right' m₂ qr hr hrrun hright hstep hvars hsafe =>
          refine .refused _ m₂ _ (by rw [hpure, hr]; rfl) ?_
            (hleft.node hright fun x hx => freed_check hx hrrun)
          rw [hrun, hrrun]
          exact if_pos (Or.inr rfl)
      | accepted step vars left' m₁ ql hl hlrun hleft hstep hvars hsafe =>
        rw [hl, ok_bind] at hpure
        rw [hlrun, ok_bind] at hrun
        dsimp only at hrun
        cases ihRight (hleft.holds.perm (perm_append_comm_assoc ..)) with
        | fault e hr hrrun hbad =>
          refine .fault e (by rw [hpure, hr]; rfl) (by rw [hrun, hrrun]; rfl) fun hsafe => ?_
          exact hbad (sizeSafe_node.mp hsafe).2
        | refused right' m₂ qr hr hrrun hright =>
          refine .refused _ m₂ _ (by rw [hpure, hr]; rfl) ?_
            (hleft.node hright fun x hx => freed_check hx hrrun)
          rw [hrun, hrrun, ok_bind]
          exact if_pos (Or.inl rfl)
        | accepted step' vars' right' m₂ qr hr hrrun hright hstep' hvars' hsafe' =>
          have hran : Ran (.node op left right) timeStep m ps (.node op left' right') m₂
              (ql ++ qr) := hleft.node hright fun x hx => freed_check hx hrrun
          have hboth : (Tree.node op left right).SizeSafe timeStep :=
            sizeSafe_node.mpr ⟨hsafe, hsafe'⟩
          rw [hr, ok_bind] at hpure
          rw [hrrun, ok_bind] at hrun
          dsimp only at hpure hrun
          rw [if_neg (not_or.mpr ⟨hstep', hstep⟩)] at hrun
          by_cases hcompatible : isCompatible left'.sized right'.sized ≠ 0
          · rw [if_pos hcompatible] at hpure hrun
            exact .refused _ m₂ _ hpure hrun hran
          · rw [if_neg hcompatible] at hpure hrun
            refine .accepted step (.node vars vars') (.node op left' right') m₂ _ hpure hrun hran
              hstep ?_ hboth
            -- the variables of the left side are still there
            have hframe : left'.vars m₂ = left'.vars m₁ :=
              vars_congr _ fun p hp => hright.frame p (by
                rw [hleft.kept hsafe]
                exact mem_append_left _ hp)
            rw [Tree.vars, hframe, hvars, hvars']
            rfl

end Check

theorem computePgBounds_eq_some_iff {q : PgBounds.Query} {wbindex timestep : Int} :
    (∃ bounds, computePgBounds wbindex timestep q = .ok (some bounds)) ↔
      ∃ bounds, Common (·.blockSeen wbindex timestep) q bounds := by
  constructor
  · rintro ⟨bounds, hrun⟩
    obtain ⟨result, hrun', hbounds⟩ :=
      PgBounds.computePgBounds_of_seen (PgBounds.seen_of_computePgBounds hrun)
    rw [hrun] at hrun'
    cases hrun'
    exact ⟨bounds, hbounds⟩
  · rintro ⟨bounds, hcommon⟩
    obtain ⟨result, hrun, hbounds⟩ :=
      PgBounds.computePgBounds_of_seen fun v hv => ⟨bounds.2, (hcommon v hv).2⟩
    cases result with
    | none => exact absurd ⟨bounds, hcommon⟩ hbounds
    | some bounds' => exact ⟨bounds', hrun⟩

theorem convertOutputBoundary_iff (outputBoundary : Option OutputBoundary) (timeStep : Int)
    (vars : Variables) :
    (∃ b, convertOutputBoundary outputBoundary timeStep (.ok vars) = .ok b) ↔
      BoundaryFits outputBoundary timeStep vars := by
  match outputBoundary with
  | some (.writeBlock index isAbsoluteIndex isSubPgSelection) =>
    have hfits : BoundaryFits (some (.writeBlock index isAbsoluteIndex isSubPgSelection)) timeStep
        vars ↔ isAbsoluteIndex = false ∧ isSubPgSelection = false ∧
          ∃ bounds, Common (·.blockSeen index timeStep) vars.bounds bounds := by
      refine ⟨fun h => h _ _ _ rfl, fun h index' isAbsoluteIndex' isSubPgSelection' heq => ?_⟩
      cases heq
      exact h
    rw [hfits, ← computePgBounds_eq_some_iff, convertOutputBoundary]
    by_cases hflags : isAbsoluteIndex = true ∨ isSubPgSelection = true
    · rw [if_pos hflags]
      refine ⟨nofun, fun ⟨habsolute, hsub, _⟩ => ?_⟩
      rw [habsolute, hsub] at hflags
      simp at hflags
    · rw [if_neg hflags]
      simp only [not_or, Bool.not_eq_true] at hflags
      simp only [hflags, true_and, ok_bind]
      cases hrun : computePgBounds index timeStep vars.bounds with
      | error e => simp [bind, Except.bind]
      | ok result => cases result <;> simp [bind, Except.bind, pure, Except.pure]
  | none => exact iff_of_true ⟨none, rfl⟩ nofun
  | some (.boundingBox start count) => exact iff_of_true ⟨_, rfl⟩ nofun
  | some (.points npoints points) => exact iff_of_true ⟨_, rfl⟩ nofun
  | some .auto => exact iff_of_true ⟨_, rfl⟩ nofun

/-! ## Query methods -/

section Methods

variable {σ ρ α : Type} (hooks : QueryMethod → Hooks σ ρ) {t : Tree} {m : Memory} {ps : List Nat}

theorem followable_of_vars {vars : Variables} (h : t.vars m = .ok vars) : t.followable m := by
  induction t generalizing vars with
  | leaf q =>
    rw [Tree.vars] at h
    cases hget : q.varinfo.bind m.get with
    | none =>
      rw [hget] at h
      cases h
    | some object =>
      rw [Tree.followable, Tree.leaves, all_cons, hget]
      rfl
  | node op left right ihLeft ihRight =>
    obtain ⟨leftVars, hleft, h⟩ := exists_of_bind_eq_ok h
    obtain ⟨rightVars, hright, -⟩ := exists_of_bind_eq_ok h
    show (left.leaves ++ right.leaves).all _ = true
    rw [all_append]
    exact Bool.and_eq_true_iff.mpr ⟨ihLeft hleft, ihRight hright⟩

theorem followable_iff (h : Holds m (t.pointers ++ ps)) :
    t.followable m = true ↔ ∀ q ∈ t.leaves, q.varinfo ≠ none := by
  rw [Tree.followable, all_eq_true]
  refine forall₂_congr fun q hq => ?_
  cases hp : q.varinfo with
  | none => simp
  | some p =>
    have hmem : p ∈ t.pointers := mem_flatMap.mpr ⟨q, hq, by simp [Leaf.pointers, hp]⟩
    simp [h.live p (mem_append_left _ hmem)]

theorem findMethod_of_followable (h : t.followable m) (methods : List QueryMethod) :
    findMethod hooks t m methods = .ok (foundMethod hooks t.names methods) := by
  induction methods with
  | nil => rfl
  | cons method methods ih =>
    rw [findMethod, foundMethod]
    cases (hooks method).canEvaluate with
    | none => exact ih
    | some can =>
      dsimp only
      rw [if_neg fun hnot => hnot.2 h]
      split_ifs
      · rfl
      · exact ih

theorem findMethod_of_holds (h : Holds m (t.pointers ++ ps)) (methods : List QueryMethod) :
    (MethodSafe hooks t methods →
      findMethod hooks t m methods = .ok (foundMethod hooks t.names methods)) ∧
    (¬MethodSafe hooks t methods → ∃ e, findMethod hooks t m methods = .error e) := by
  induction methods with
  | nil => exact ⟨fun _ => rfl, fun hnot => absurd trivial hnot⟩
  | cons method methods ih =>
    rw [findMethod, foundMethod, MethodSafe]
    cases (hooks method).canEvaluate with
    | none => exact ih
    | some can =>
      dsimp only
      rw [← followable_iff h]
      by_cases hnull : can.readsVarinfo = true ∧ ¬t.followable m = true
      · rw [if_pos hnull]
        exact ⟨fun hsafe => absurd (hsafe.1 hnull.1) hnull.2, fun _ => ⟨_, rfl⟩⟩
      · rw [if_neg hnull]
        cases hfound : can.found t.names with
        | true =>
          refine ⟨fun _ => rfl, fun hnot => absurd ⟨?_, nofun⟩ hnot⟩
          exact fun hreads => not_not.mp fun hn => hnull ⟨hreads, hn⟩
        | false =>
          refine ⟨fun hsafe => ih.1 (hsafe.2 rfl), fun hnot => ih.2 fun hrest => hnot ⟨?_, ?_⟩⟩
          · exact fun hreads => not_not.mp fun hn => hnull ⟨hreads, hn⟩
          · exact fun _ => hrest

theorem reslice_holds (newSlice : Leaf → Option UInt64) (t : Tree) {m : Memory} {ps : List Nat}
    (h : Holds m (t.pointers ++ ps)) :
    ∃ t' m', reslice newSlice t m = .ok (t', m') ∧ t'.fresh = t.fresh ∧
      Holds m' (t'.pointers ++ ps) := by
  induction t generalizing m ps with
  | leaf q =>
    rw [reslice, resliceLeaf]
    cases newSlice q.fresh with
    | none => exact ⟨_, _, rfl, rfl, h⟩
    | some size =>
      rw [Tree.pointers, Tree.leaves, flatMap_singleton, Leaf.pointers, append_assoc] at h
      obtain ⟨m₁, hm₁, hholds, -⟩ :=
        release_holds (h.perm (perm_append_comm_assoc ..))
      refine ⟨.leaf { q with dataSlice := some m₁.next }, m₁.alloc (.dataSlice size), ?_, rfl, ?_⟩
      · simp only [hm₁, ok_bind]
        rfl
      · rw [Tree.pointers, Tree.leaves, flatMap_singleton, Leaf.pointers, append_assoc]
        exact (hholds.alloc _).perm perm_middle
  | node op left right ihLeft ihRight =>
    rw [pointers_node, append_assoc] at h
    obtain ⟨left', m₁, hleft, hfreshLeft, hholds₁⟩ := ihLeft h
    obtain ⟨right', m₂, hright, hfreshRight, hholds₂⟩ :=
      ihRight (hholds₁.perm (perm_append_comm_assoc ..))
    refine ⟨.node op left' right', m₂, ?_, congrArg₂ (Tree.node op) hfreshLeft hfreshRight, ?_⟩
    · rw [reslice, hleft, ok_bind]
      dsimp only
      rw [hright]
      rfl
    · rw [pointers_node, append_assoc]
      exact hholds₂.perm (perm_append_comm_assoc ..)

end Methods

/-! ## One call -/

section Steps

variable {σ ρ α : Type} (hooks : QueryMethod → Hooks σ ρ)

structure Good (names : List (String × String)) (method : Option QueryMethod) (s : State σ) :
    Prop where
  holds : Holds s.memory s.tree.pointers
  names_eq : s.tree.names = names
  usedMethod : s.usedMethod hooks = method.getD (foundMethod hooks names methods)

structure Steps (names : List (String × String)) (method : Option QueryMethod)
    (run : Except Fault (α × State σ)) (safe : Prop) : Prop where
  survives : safe → ∃ out s', run = .ok (out, s') ∧ Good hooks names method s'
  loses : ¬safe → ∀ out s', run = .ok (out, s') → Dangling s'.memory s'.tree.leaves

def evaluated (t : Tree) (method : Option QueryMethod) (outputBoundary : Option OutputBoundary)
    (timeStep : Int) (batchSize : UInt64) (data : σ) : Except Fault ((Int × Option ρ) × σ) := do
  match ← checked t timeStep with
  | none => return ((-1, none), data)
  | some (_, sized, vars) =>
    let outputBoundary ← convertOutputBoundary outputBoundary timeStep (.ok vars)
    match (hooks (method.getD (foundMethod hooks t.names methods))).evaluate with
    | none => return ((-1, none), data)
    | some evaluateFn =>
      let reply := evaluateFn sized vars timeStep batchSize outputBoundary data
      return (reply.result, reply.state)

variable {hooks} {t : Tree} {method : Option QueryMethod} {names : List (String × String)}
  {s s' : State σ}

theorem names_fresh (t : Tree) : t.fresh.names = t.names := by
  induction t with
  | leaf q => rfl
  | node op left right ihLeft ihRight =>
    show (left.fresh.leaves ++ right.fresh.leaves).map _ = (left.leaves ++ right.leaves).map _
    rw [map_append, map_append]
    exact congrArg₂ (· ++ ·) ihLeft ihRight

theorem checked_fresh (t : Tree) (timeStep : Int) :
    checked t.fresh timeStep = checked t timeStep := by
  induction t with
  | leaf q => rfl
  | node op left right ihLeft ihRight =>
    show checked (.node op left.fresh right.fresh) timeStep = _
    rw [checked, checked, ihLeft, ihRight]

theorem Good.start (t : Tree) (method : Option QueryMethod) (data : σ) :
    Good hooks t.names method (start t method data) where
  holds := by
    have hnil (t : Tree) : t.fresh.pointers = [] := by
      induction t with
      | leaf q => rfl
      | node op left right ihLeft ihRight =>
        have hnode := pointers_node op left.fresh right.fresh
        rw [ihLeft, ihRight] at hnode
        exact hnode
    show Holds Objects.empty t.fresh.pointers
    rw [hnil]
    exact holds_empty
  names_eq := names_fresh t
  usedMethod := by
    show method.getD (foundMethod hooks t.fresh.names methods) = _
    rw [names_fresh]

theorem Good.setMethod (hs : Good hooks names method s) :
    Good hooks names method { s with method := some (s.usedMethod hooks) } where
  holds := hs.holds
  names_eq := hs.names_eq
  usedMethod := hs.usedMethod

theorem detect_of_followable (h : s.tree.followable s.memory) :
    ∃ s', detectAndSetQueryMethod hooks s = .ok (s.usedMethod hooks, s') ∧
      s' = { s with method := some (s.usedMethod hooks) } := by
  rw [detectAndSetQueryMethod, State.usedMethod]
  cases hmethod : s.method with
  | some method => exact ⟨s, rfl, by rw [Option.getD_some, ← hmethod]⟩
  | none =>
    refine ⟨_, ?_, rfl⟩
    simp only [findMethod_of_followable hooks h, ok_bind]
    rfl

theorem Good.moved (hs : Good hooks names method s) {tree : Tree} {memory : Memory}
    (hfresh : tree.fresh = s.tree.fresh) (hholds : Holds memory tree.pointers) :
    Good hooks names method { s with tree := tree, memory := memory } where
  holds := hholds
  names_eq := by
    show tree.names = _
    rw [← names_fresh, hfresh, names_fresh, hs.names_eq]
  usedMethod := by
    show s.method.getD (foundMethod hooks tree.names methods) = _
    rw [← names_fresh, hfresh, names_fresh]
    exact hs.usedMethod

theorem Good.finish (hs : Good hooks names method s) (reply : Reply σ α) :
    ∃ s', finish s reply = .ok (reply.result, s') ∧ s'.data = reply.state ∧
      Good hooks names method s' := by
  have hholds : Holds s.memory (s.tree.pointers ++ []) := by
    rw [append_nil]
    exact hs.holds
  obtain ⟨t', m', hreslice, hfresh, hholds'⟩ := reslice_holds reply.newSlice s.tree hholds
  rw [append_nil] at hholds'
  refine ⟨{ s with tree := t', memory := m', data := reply.state }, ?_, rfl,
    hholds', (hs.moved hfresh hholds').names_eq, (hs.moved hfresh hholds').usedMethod⟩
  rw [HeldQuery.finish, hreslice]
  rfl

section

variable (hs : Good hooks names method s)

include hs

theorem Good.checks (timeStep : Int) :
    Checks s.tree timeStep s.memory [] := by
  refine check_checks s.tree timeStep ?_
  rw [append_nil]
  exact hs.holds

theorem Good.ran {timeStep : Int} {t' : Tree} {m' : Memory}
    {qs : List Nat} (hran : Ran s.tree timeStep s.memory [] t' m' qs)
    (hsafe : s.tree.SizeSafe timeStep) :
    Good hooks names method { s with tree := t', memory := m' } := by
  refine hs.moved hran.fresh ?_
  have hholds := hran.holds
  rw [append_nil, hran.kept hsafe] at hholds
  exact hholds

theorem evaluate_steps (outputBoundary : Option OutputBoundary)
    (timeStep : Int) (batchSize : UInt64) :
    Steps hooks names method (evaluate hooks outputBoundary timeStep batchSize s)
        (Safe hooks s (.evaluate outputBoundary timeStep batchSize)) ∧
      outcome (evaluate hooks outputBoundary timeStep batchSize s) =
        evaluated hooks s.tree method outputBoundary timeStep batchSize s.data := by
  rw [evaluated, hs.names_eq, evaluate]
  cases hs.checks timeStep with
  | fault e hpure hrun hbad =>
    rw [hpure, hrun]
    exact ⟨⟨fun hsafe => absurd hsafe.1 hbad, fun _ => nofun⟩, rfl⟩
  | refused t' m' qs hpure hrun hran =>
    rw [hpure, hrun]
    refine ⟨⟨fun hsafe => ⟨_, _, rfl, hs.ran hran hsafe.1⟩, fun hbad out s' heq => ?_⟩, rfl⟩
    cases heq
    refine hran.lost fun hsafe => hbad ⟨hsafe, fun step sized vars hpure' => ?_⟩
    rw [hpure] at hpure'
    cases hpure'
  | accepted step vars t' m' qs hpure hrun hran hstep hvars hsafe =>
    have hgood := hs.ran hran hsafe
    rw [hpure, hrun, ok_bind, ok_bind]
    dsimp only
    rw [if_neg hstep, hvars]
    have hiff : Safe hooks s (.evaluate outputBoundary timeStep batchSize) ↔
        ∃ b, convertOutputBoundary outputBoundary timeStep (.ok vars) = .ok b := by
      rw [convertOutputBoundary_iff]
      refine ⟨fun h => h.2 _ _ _ hpure, fun h => ⟨hsafe, fun step' sized' vars' hpure' => ?_⟩⟩
      rw [hpure] at hpure'
      cases hpure'
      exact h
    rw [hiff]
    cases hconvert : convertOutputBoundary outputBoundary timeStep (.ok vars) with
    | error e => exact ⟨⟨fun hb => absurd hb (by simp), fun _ => nofun⟩, rfl⟩
    | ok b =>
      -- the check has succeeded, so the method that is asked finds the variables
      obtain ⟨s₁, hdetect, hs₁⟩ := @detect_of_followable σ ρ hooks
        { s with tree := t', memory := m' } (followable_of_vars hvars)
      have hused := hgood.usedMethod
      have hgood₁ := hgood.setMethod
      rw [← hs₁] at hgood₁
      rw [ok_bind, hdetect, ok_bind, ok_bind, hused]
      dsimp only
      cases (hooks (method.getD (foundMethod hooks names methods))).evaluate with
      | none =>
        refine ⟨⟨fun _ => ⟨_, _, rfl, hgood₁⟩, fun hnot => absurd ⟨b, rfl⟩ hnot⟩, ?_⟩
        rw [hs₁]
        rfl
      | some evaluateFn =>
        have hvars₁ : s₁.tree.vars s₁.memory = .ok vars := by
          rw [hs₁]
          exact hvars
        dsimp only
        rw [hvars₁, ok_bind]
        obtain ⟨s₂, hfinish, hdata, hgood₂⟩ :=
          hgood₁.finish (evaluateFn s₁.tree.sized vars timeStep batchSize b s₁.data)
        rw [hfinish]
        refine ⟨⟨fun _ => ⟨_, _, rfl, hgood₂⟩, fun hnot => absurd ⟨b, rfl⟩ hnot⟩, ?_⟩
        show Except.ok (_, s₂.data) = _
        rw [hdata, hs₁]
        rfl

theorem Good.detect :
    ((s.method = none → MethodSafe hooks s.tree methods) →
      ∃ s', detectAndSetQueryMethod hooks s = .ok (s.usedMethod hooks, s') ∧
        s' = { s with method := some (s.usedMethod hooks) }) ∧
    (¬(s.method = none → MethodSafe hooks s.tree methods) →
      ∃ e, detectAndSetQueryMethod hooks s = .error e) := by
  have hholds : Holds s.memory (s.tree.pointers ++ []) := by
    rw [append_nil]
    exact hs.holds
  obtain ⟨hfound, hfault⟩ := findMethod_of_holds hooks hholds methods
  rw [detectAndSetQueryMethod, State.usedMethod]
  cases hmethod : s.method with
  | some method =>
    refine ⟨fun _ => ⟨s, rfl, by rw [Option.getD_some, ← hmethod]⟩, fun hnot => ?_⟩
    exact absurd nofun hnot
  | none =>
    refine ⟨fun hsafe => ⟨_, ?_, rfl⟩, fun hnot => ?_⟩
    · simp only [hfound (hsafe rfl), ok_bind]
      rfl
    · obtain ⟨e, he⟩ := hfault fun hsafe => hnot fun _ => hsafe
      exact ⟨e, by simp only [he]; rfl⟩

theorem estimate_steps (timestep : Int) :
    Steps hooks names method (estimate hooks timestep s) (Safe hooks s (.estimate timestep)) := by
  rw [estimate, Safe]
  by_cases hmethod : s.method = none → MethodSafe hooks s.tree methods
  · obtain ⟨s₁, hdetect, hs₁⟩ := hs.detect.1 hmethod
    have hgood₁ := hs.setMethod
    rw [← hs₁] at hgood₁
    rw [hdetect, ok_bind]
    dsimp only
    cases hestimate : (hooks (s.usedMethod hooks)).estimate with
    | none => exact ⟨fun _ => ⟨_, _, rfl, hgood₁⟩, fun hnot => absurd ⟨hmethod, nofun⟩ hnot⟩
    | some estimateFn =>
      have htree : s₁.tree = s.tree := by rw [hs₁]
      have hiff : ((s.method = none → MethodSafe hooks s.tree methods) ∧
          ((some estimateFn).isSome = true → s.tree.SizeSafe timestep)) ↔
            s₁.tree.SizeSafe timestep := by
        rw [htree]
        exact ⟨fun h => h.2 rfl, fun h => ⟨hmethod, fun _ => h⟩⟩
      rw [hiff]
      cases hgood₁.checks timestep with
      | fault e hpure hrun hbad =>
        rw [hrun]
        exact ⟨fun hsafe => absurd hsafe hbad, fun _ => nofun⟩
      | refused t' m' qs hpure hrun hran =>
        rw [hrun]
        refine ⟨fun hsafe => ⟨_, _, rfl, hgood₁.ran hran hsafe⟩, fun hbad out s' heq => ?_⟩
        cases heq
        exact hran.lost hbad
      | accepted step vars t' m' qs hpure hrun hran hstep hvars hsafe =>
        refine ⟨fun _ => ?_, fun hbad => absurd hsafe hbad⟩
        obtain ⟨s₂, hfinish, -, hgood₂⟩ := (hgood₁.ran hran hsafe).finish
          (estimateFn t'.sized vars timestep s₁.data)
        refine ⟨(estimateFn t'.sized vars timestep s₁.data).result, s₂, ?_, hgood₂⟩
        rw [hrun]
        dsimp only
        rw [ok_bind, if_neg hstep, hvars, ok_bind]
        exact hfinish
  · obtain ⟨e, he⟩ := hs.detect.2 hmethod
    rw [he]
    exact ⟨fun hsafe => absurd hsafe.1 hmethod, fun _ => nofun⟩

end

theorem leaves_mapLeaves (f : Leaf → Leaf) (t : Tree) :
    (t.mapLeaves f).leaves = t.leaves.map f := by
  induction t with
  | leaf q => rfl
  | node op left right ihLeft ihRight =>
    show (left.mapLeaves f).leaves ++ (right.mapLeaves f).leaves = _
    rw [ihLeft, ihRight, ← map_append]
    rfl

section

variable (next : String → Nat × List (String × VarInfo))

include next

theorem Leaf.advance_keeps (q : Leaf) :
    (q.advance next).pointers = q.pointers ∧ (q.advance next).dataSlice = q.dataSlice ∧
      (q.advance next).file.path = q.file.path ∧ (q.advance next).varName = q.varName := by
  rw [advance]
  split_ifs <;> exact ⟨rfl, rfl, rfl, rfl⟩

theorem pointers_advance (t : Tree) :
    (t.mapLeaves (Leaf.advance next)).pointers = t.pointers := by
  rw [Tree.pointers, leaves_mapLeaves, flatMap_map]
  exact flatMap_congr fun q _ => (Leaf.advance_keeps next q).1

theorem names_advance (t : Tree) :
    (t.mapLeaves (Leaf.advance next)).names = t.names := by
  rw [Tree.names, leaves_mapLeaves, map_map]
  refine map_congr_left fun q _ => ?_
  obtain ⟨-, -, hpath, hname⟩ := Leaf.advance_keeps next q
  exact Prod.ext hpath hname

end

theorem call_steps (hs : Good hooks names method s) (c : Call) :
    (Safe hooks s c → ∃ s', call hooks s c = .ok s' ∧ Good hooks names method s') ∧
      (¬Safe hooks s c → ∀ s', call hooks s c = .ok s' → Dangling s'.memory s'.tree.leaves) := by
  cases c with
  | estimate timestep =>
    have hsteps := estimate_steps hs timestep
    rw [call]
    constructor
    · intro hsafe
      obtain ⟨out, s', hrun, hgood⟩ := hsteps.survives hsafe
      exact ⟨s', by rw [hrun]; rfl, hgood⟩
    · intro hbad s' hrun
      obtain ⟨⟨out, s''⟩, hrun', heq⟩ := exists_of_bind_eq_ok hrun
      cases heq
      exact hsteps.loses hbad out s' hrun'
  | evaluate outputBoundary timeStep batchSize =>
    have hsteps := (evaluate_steps hs outputBoundary timeStep batchSize).1
    rw [call]
    constructor
    · intro hsafe
      obtain ⟨out, s', hrun, hgood⟩ := hsteps.survives hsafe
      exact ⟨s', by rw [hrun]; rfl, hgood⟩
    · intro hbad s' hrun
      obtain ⟨⟨out, s''⟩, hrun', heq⟩ := exists_of_bind_eq_ok hrun
      cases heq
      exact hsteps.loses hbad out s' hrun'
  | advance next =>
    refine ⟨fun _ => ⟨_, rfl, ?_⟩, fun hbad => absurd trivial hbad⟩
    have hnames := names_advance next s.tree
    refine ⟨?_, hnames.trans hs.names_eq, ?_⟩
    · show Holds s.memory (s.tree.mapLeaves (Leaf.advance next)).pointers
      rw [pointers_advance]
      exact hs.holds
    · show s.method.getD (foundMethod hooks _ methods) = _
      rw [hnames]
      exact hs.usedMethod

theorem call_of_dangling {c : Call} (hs : Dangling s.memory s.tree.leaves)
    (h : call hooks s c = .ok s') : Dangling s'.memory s'.tree.leaves := by
  cases c with
  | estimate timestep =>
    obtain ⟨⟨out, s''⟩, h, heq⟩ := exists_of_bind_eq_ok h
    cases heq
    obtain ⟨⟨used, s₁⟩, hdetect, h⟩ := exists_of_bind_eq_ok h
    have htree : s₁.tree = s.tree ∧ s₁.memory = s.memory := by
      rw [detectAndSetQueryMethod] at hdetect
      cases hmethod : s.method with
      | some method =>
        rw [hmethod] at hdetect
        cases hdetect
        exact ⟨rfl, rfl⟩
      | none =>
        rw [hmethod] at hdetect
        obtain ⟨found, -, hdetect⟩ := exists_of_bind_eq_ok hdetect
        cases hdetect
        exact ⟨rfl, rfl⟩
    dsimp only at h
    rw [htree.1, htree.2] at h
    cases hestimate : (hooks used).estimate with
    | none =>
      rw [hestimate] at h
      cases h
      rw [htree.1, htree.2]
      exact hs
    | some estimateFn =>
      rw [hestimate] at h
      obtain ⟨⟨r, t', m'⟩, hrun, h⟩ := exists_of_bind_eq_ok h
      obtain ⟨hr, hdangling⟩ := check_of_dangling hs hrun
      dsimp only at h
      rw [if_pos hr] at h
      cases h
      exact hdangling
  | evaluate outputBoundary timeStep batchSize =>
    obtain ⟨⟨out, s''⟩, h, heq⟩ := exists_of_bind_eq_ok h
    cases heq
    obtain ⟨⟨r, t', m'⟩, hrun, h⟩ := exists_of_bind_eq_ok h
    obtain ⟨hr, hdangling⟩ := check_of_dangling hs hrun
    dsimp only at h
    rw [if_pos hr] at h
    cases h
    exact hdangling
  | advance next =>
    cases h
    obtain ⟨q, hq, p, hslice, hp⟩ := hs
    refine ⟨q.advance next, ?_, p, (Leaf.advance_keeps next q).2.1.trans hslice, hp⟩
    show q.advance next ∈ (s.tree.mapLeaves (Leaf.advance next)).leaves
    rw [leaves_mapLeaves]
    exact mem_map_of_mem hq

end Steps

section FreeAll

variable {m m' : Memory} {leaves : List Leaf}

theorem freeAll_holds (leaves : List Leaf) {m : Memory}
    (h : Holds m (leaves.flatMap Leaf.pointers)) :
    ∃ m', freeAll leaves m = .ok m' ∧ Holds m' [] := by
  induction leaves generalizing m with
  | nil => exact ⟨m, rfl, h⟩
  | cons q leaves ih =>
    rw [flatMap_cons, Leaf.pointers, append_assoc] at h
    obtain ⟨m₁, hm₁, hholds₁, -⟩ := release_holds h
    obtain ⟨m₂, hm₂, hholds₂, -⟩ := release_holds hholds₁
    obtain ⟨m', hrest, hnil⟩ := ih hholds₂
    refine ⟨m', ?_, hnil⟩
    rw [freeAll, freeQuery, hm₁, ok_bind, hm₂, ok_bind]
    exact hrest

theorem freeAll_of_dangling (h : Dangling m leaves) : freeAll leaves m ≠ .ok m' := by
  induction leaves generalizing m with
  | nil =>
    obtain ⟨q, hq, -⟩ := h
    cases hq
  | cons q leaves ih =>
    intro hrun
    obtain ⟨m₂, hfree, hrest⟩ := exists_of_bind_eq_ok hrun
    obtain ⟨m₁, hm₁, hm₂⟩ := exists_of_bind_eq_ok hfree
    obtain ⟨q', hq', x, hslice, hx⟩ := h
    rcases mem_cons.mp hq' with rfl | hq'
    · rw [hslice] at hm₂
      exact release_ne_ok (freed_release hx hm₁) hm₂
    · exact ih ⟨q', hq', x, hslice, freed_release (freed_release hx hm₁) hm₂⟩ hrest

end FreeAll

/-! ## Runs -/

section Survival

variable {σ ρ : Type} {hooks : QueryMethod → Hooks σ ρ} {method : Option QueryMethod}
  {names : List (String × String)} {s s' : State σ}

theorem step_eq_ok {c : Call} {out : Unit} (h : step hooks s c = .ok (some (s', out))) :
    call hooks s c = .ok s' := by
  rw [step] at h
  cases hcall : call hooks s c with
  | error e =>
    rw [hcall] at h
    cases h
  | ok s'' =>
    rw [hcall] at h
    cases h
    rfl

theorem callAll_of_every {calls : List Call} (hs : Good hooks names method s)
    (h : Every (step hooks) (Safe hooks) s calls) :
    ∃ s', callAll hooks s calls = .ok s' ∧ Good hooks names method s' := by
  induction calls generalizing s with
  | nil => exact ⟨s, rfl, hs⟩
  | cons c calls ih =>
    obtain ⟨s₁, hcall, hgood⟩ := (call_steps hs c).1 h.1
    have hrest := h.2 s₁ () (by rw [step, hcall]; rfl)
    obtain ⟨s', hrun, hgood'⟩ := ih hgood hrest
    refine ⟨s', ?_, hgood'⟩
    rw [callAll, hcall]
    exact hrun

theorem callAll_of_dangling {calls : List Call} (hs : Dangling s.memory s.tree.leaves)
    (h : callAll hooks s calls = .ok s') : Dangling s'.memory s'.tree.leaves := by
  induction calls generalizing s with
  | nil =>
    cases h
    exact hs
  | cons c calls ih =>
    obtain ⟨s₁, hcall, hrest⟩ := exists_of_bind_eq_ok h
    exact ih (call_of_dangling hs hcall) hrest

theorem every_of_callAll {calls : List Call} (hs : Good hooks names method s)
    (h : callAll hooks s calls = .ok s') (hnot : ¬Dangling s'.memory s'.tree.leaves) :
    Every (step hooks) (Safe hooks) s calls := by
  induction calls generalizing s with
  | nil => trivial
  | cons c calls ih =>
    obtain ⟨s₁, hcall, hrest⟩ := exists_of_bind_eq_ok h
    have hsteps := call_steps hs c
    by_cases hsafe : Safe hooks s c
    · refine ⟨hsafe, fun s₂ out hstep => ?_⟩
      have hcall₂ := step_eq_ok hstep
      rw [hcall] at hcall₂
      cases hcall₂
      obtain ⟨s₃, hcall₃, hgood⟩ := hsteps.1 hsafe
      rw [hcall] at hcall₃
      cases hcall₃
      exact ih hgood hrest
    · exact absurd (callAll_of_dangling (hsteps.2 hsafe s₁ hcall) hrest) hnot

theorem every_append_left {before after : List Call}
    (h : Every (step hooks) (Safe hooks) s (before ++ after)) :
    Every (step hooks) (Safe hooks) s before := by
  induction before generalizing s with
  | nil => trivial
  | cons c before ih => exact ⟨h.1, fun s' out hstep => ih (h.2 s' out hstep)⟩

/-- Exactly the calls that are all safe are survived. -/
theorem survives_iff (hooks : QueryMethod → Hooks σ ρ) (t : Tree) (method : Option QueryMethod)
    (data : σ) (calls : List Call) :
    Survives hooks t method data calls ↔
      Every (step hooks) (Safe hooks) (start t method data) calls := by
  constructor
  · rintro ⟨⟨s, hrun, hfree⟩, -⟩
    refine every_of_callAll (Good.start t method data) hrun fun hdangling => ?_
    obtain ⟨m, hm, -⟩ := hfree s.tree.leaves (List.Perm.refl _)
    exact freeAll_of_dangling hdangling hm
  · intro h
    refine ⟨?_, fun before after heq s hrun outputBoundary timeStep batchSize => ?_⟩
    · obtain ⟨s, hrun, hgood⟩ := callAll_of_every (Good.start t method data) h
      refine ⟨s, hrun, fun leaves hperm => ?_⟩
      obtain ⟨m, hm, hnil⟩ := freeAll_holds leaves (hgood.holds.perm (hperm.flatMap_right _))
      exact ⟨m, hm, hnil.eq_none⟩
    · rw [heq] at h
      obtain ⟨s', hrun', hgood⟩ := callAll_of_every (Good.start t method data) (every_append_left h)
      rw [hrun] at hrun'
      cases hrun'
      rw [(evaluate_steps hgood outputBoundary timeStep batchSize).2,
        (evaluate_steps (Good.start s.tree method s.data) outputBoundary timeStep batchSize).2,
        evaluated, evaluated]
      show _ = (checked s.tree.fresh timeStep >>= _)
      rw [checked_fresh]
      show _ = (checked s.tree timeStep >>= _)
      rw [start, names_fresh]

end Survival

/-! ## A query that does not survive -/

def noHooks : QueryMethod → Hooks Unit Unit := fun _ => ⟨none, none, none⟩

def whole : VarInfo where
  typeSize := 8
  dims := [4]
  steps := [[⟨[0], [4]⟩]]
  steps_ne_nil := cons_ne_nil _ _
  start_length := by decide
  count_length := by decide
  total := by decide

def halves : VarInfo where
  typeSize := 8
  dims := [4]
  steps := [[⟨[0], [2]⟩, ⟨[2], [2]⟩]]
  steps_ne_nil := cons_ne_nil _ _
  start_length := by decide
  count_length := by decide
  total := by decide

def queryAll (varName : String) : Leaf where
  file := ⟨"data.bp", false, 0, [("whole", whole), ("halves", halves)]⟩
  varName := varName
  sel := none
  varinfo := none
  dataSlice := none
  rawDataSize := 0

def twoVariables : Tree := .node .and (.leaf (queryAll "whole")) (.leaf (queryAll "halves"))

/-- The first blocks of the two variables differ, so there is no box to give the message about. -/
theorem not_survives_twoVariables :
    ¬Survives noHooks twoVariables none () [.evaluate (some (.writeBlock 0 false false)) 0 1] := by
  rintro ⟨⟨s, hrun, -⟩, -⟩
  let sized (varName : String) : Query := .leaf { (queryAll varName).sized with rawDataSize := 4 }
  have hchecked : checked (start twoVariables none ()).tree 0 =
      .ok (some (0, .node .and (sized "whole") (sized "halves"),
        .node (.leaf whole) (.leaf halves))) := by
    show (if isCompatible (sized "whole") (sized "halves") ≠ 0 then Except.ok none
      else Except.ok (some _)) = _
    rw [isCompatible]
    rfl
  have hconvert : convertOutputBoundary (some (.writeBlock 0 false false)) 0
      (.ok (.node (.leaf whole) (.leaf halves))) = .error .wildPointer := by decide
  have hgood : Good noHooks twoVariables.names none (start twoVariables none ()) :=
    Good.start twoVariables none ()
  have houtcome := (evaluate_steps hgood (some (.writeBlock 0 false false)) 0 1).2
  rw [evaluated, hchecked, ok_bind] at houtcome
  dsimp only at houtcome
  rw [hconvert] at houtcome
  obtain ⟨s₁, hcall, -⟩ := exists_of_bind_eq_ok hrun
  obtain ⟨⟨out, s₂⟩, hevaluate, -⟩ := exists_of_bind_eq_ok hcall
  rw [hevaluate] at houtcome
  cases houtcome

end Adios.HeldQuery
