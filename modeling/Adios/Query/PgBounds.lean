import Adios.Core.WriteBlocks
import Adios.Query.Leaves

/-!
# Adios — the bounds of a block of a query

`computePGBounds`: the box of the block with some index, when it is the same for all variables of a
query tree.
-/

namespace Adios.PgBounds

open List
open WriteBlocks (Varinfo)

/-- `ADIOS_VARBLOCK` -/
structure VarBlock where
  start : List UInt64
  count : List UInt64
  deriving DecidableEq, Repr

/-- `ADIOS_VARINFO` of a leaf with the blocks of each step, of which `nblocks` and `blockinfo` are
made. -/
structure LeafVarinfo where
  ndim : Nat
  steps : List (List VarBlock)
  start_length : ∀ blocks ∈ steps, ∀ b ∈ blocks, b.start.length = ndim
  count_length : ∀ blocks ∈ steps, ∀ b ∈ blocks, b.count.length = ndim
  /-- `sum_nblocks` is an `int`. -/
  total : (steps.map List.length).sum < 2147483648

namespace LeafVarinfo

variable (v : LeafVarinfo)

def blockinfo : List VarBlock := v.steps.flatten

/-- What `adios_get_absolute_writeblock_index` reads. -/
def varinfo : Varinfo where
  nblocks := v.steps.map List.length
  volume k := ((v.blockinfo.map (·.count)).getD k []).foldl (fun n c => n * c.toNat) 1
  total := v.total

end LeafVarinfo

/-- An `ADIOS_QUERY` whose leaves have their variables: subtrees may be missing. -/
inductive Query where
  | leaf (v : LeafVarinfo)
  | single (subtree : Query)
  | node (left right : Query)

/-- `blockinfo [abs_wbindex]` of a leaf -/
def leafBlock (v : LeafVarinfo) (wbindex timestep : Int) : Except Fault VarBlock :=
  let absWbindex := if 1 < v.steps.length then v.varinfo.absoluteIndex wbindex timestep else wbindex
  if absWbindex < 0 then .error .outOfBounds
  else
    match v.blockinfo[absWbindex.toNat]? with
    | none => .error .outOfBounds
    | some b => .ok b

/-- The loop that compares the coordinates in the first `ndim` dimensions. -/
def sameBounds (ndim : Nat) (left right : VarBlock) : Bool :=
  (List.range ndim).all fun i => left.start[i]? = right.start[i]? && left.count[i]? = right.count[i]?

/-- `computePGBounds`: `*out_ndim` and the block, or nothing for `NULL`. -/
def computePgBounds (wbindex timestep : Int) : Query → Except Fault (Option (Nat × VarBlock))
  | .leaf v => do
    let b ← leafBlock v wbindex timestep
    return some (v.ndim, b)
  | .single subtree => computePgBounds wbindex timestep subtree
  | .node left right => do
    let left ← computePgBounds wbindex timestep left
    let right ← computePgBounds wbindex timestep right
    match left, right with
    | some (leftNdim, leftVb), some (rightNdim, rightVb) =>
      if leftNdim ≠ rightNdim then return none
      else if sameBounds leftNdim leftVb rightVb then return some (leftNdim, leftVb)
      else return none
    | _, _ => return none

/-! ## The bounds that a tree has -/

def Query.leaves : Query → List LeafVarinfo
  | .leaf v => [v]
  | .single subtree => subtree.leaves
  | .node left right => left.leaves ++ right.leaves

def LeafVarinfo.blockAt (v : LeafVarinfo) (wbindex timestep : Int) : Option VarBlock :=
  if timestep < 0 ∨ wbindex < 0 then none
  else do
    let blocks ← v.steps[timestep.toNat]?
    blocks[wbindex.toNat]?

def LeafVarinfo.blockSeen (v : LeafVarinfo) (wbindex timestep : Int) : Option VarBlock :=
  v.blockAt wbindex (if 1 < v.steps.length then timestep else 0)

def Common (block : LeafVarinfo → Option VarBlock) (q : Query) (bounds : Nat × VarBlock) : Prop :=
  ∀ v ∈ q.leaves, v.ndim = bounds.1 ∧ block v = some bounds.2

def Bounds (block : LeafVarinfo → Option VarBlock) (q : Query) : Option (Nat × VarBlock) → Prop
  | none => ¬∃ bounds, Common block q bounds
  | some bounds => Common block q bounds

def Right (q : Query) (wbindex timestep : Int) : Prop :=
  ∃ bounds, computePgBounds wbindex timestep q = .ok bounds ∧
    Bounds (·.blockAt wbindex timestep) q bounds

/-- Each variable has a block of the index at the time step, or has one step only and a block of
the index in it; and where the step is not one of all variables, the blocks differ. -/
def Clear (q : Query) (wbindex timestep : Int) : Prop :=
  (∀ v ∈ q.leaves, ∃ b, v.blockSeen wbindex timestep = some b) ∧
  ((∀ v ∈ q.leaves, ∃ b, v.blockAt wbindex timestep = some b) ∨
    ¬∃ bounds, Common (·.blockSeen wbindex timestep) q bounds)

/-! ## One leaf -/

/-- `adios_get_absolute_writeblock_index` gives the number of a block of the step, or -1. -/
theorem getElem?_absoluteIndex (v : LeafVarinfo) (wbindex timestep : Int) :
    (if v.varinfo.absoluteIndex wbindex timestep < 0 then none
      else v.blockinfo[(v.varinfo.absoluteIndex wbindex timestep).toNat]?) =
      v.blockAt wbindex timestep := by
  have hsteps : v.varinfo.nblocks.length = v.steps.length := length_map _
  have hblocks : (v.varinfo.nblocks.getD timestep.toNat 0 : Nat) =
      (v.steps.getD timestep.toNat []).length := by
    rw [LeafVarinfo.varinfo, getD_eq_getElem?_getD, getElem?_map, getD_eq_getElem?_getD]
    cases v.steps[timestep.toNat]? <;> rfl
  rw [Varinfo.absoluteIndex, hsteps, hblocks, LeafVarinfo.blockAt]
  by_cases hstep : timestep < 0 ∨ (v.steps.length : Int) ≤ timestep
  · -- there is no such step
    rw [if_pos hstep]
    by_cases hneg : timestep < 0 ∨ wbindex < 0
    · rw [if_pos hneg]
      rfl
    · have hnone : v.steps[timestep.toNat]? = none := getElem?_eq_none (by omega)
      rw [if_neg hneg, hnone]
      rfl
  · rw [if_neg hstep]
    have hlt : timestep.toNat < v.steps.length := by omega
    have hget : v.steps[timestep.toNat]? = some (v.steps.getD timestep.toNat []) := by
      rw [getD_eq_getElem?_getD, getElem?_eq_getElem hlt, Option.getD_some]
    by_cases hindex : wbindex < 0 ∨ ((v.steps.getD timestep.toNat []).length : Int) ≤ wbindex
    · rw [if_pos hindex]
      by_cases hneg : timestep < 0 ∨ wbindex < 0
      · rw [if_pos hneg]
        rfl
      · rw [if_neg hneg, hget]
        exact (getElem?_eq_none (by omega)).symm
    · have hk : wbindex.toNat < (v.steps.getD timestep.toNat []).length := by omega
      have hneg : ¬(timestep < 0 ∨ wbindex < 0) := by omega
      have hplace : (wbindex + ((v.varinfo.nblocks.take timestep.toNat).sum : Nat)).toNat =
          ((v.steps.take timestep.toNat).map List.length).sum + wbindex.toNat := by
        rw [LeafVarinfo.varinfo, ← map_take]
        omega
      rw [if_neg hindex, if_neg hneg, if_neg (by omega), hplace, LeafVarinfo.blockinfo,
        getElem?_flatten_take v.steps _ _ hk, hget]
      exact (getElem?_eq_getElem hk).symm

theorem getElem?_blockinfo_of_le {v : LeafVarinfo} (h : ¬1 < v.steps.length) (wbindex : Int) :
    (if wbindex < 0 then none else v.blockinfo[wbindex.toNat]?) = v.blockAt wbindex 0 := by
  have hzero : ((0 : Int) < 0 ∨ wbindex < 0) ↔ wbindex < 0 := by omega
  rw [LeafVarinfo.blockAt, LeafVarinfo.blockinfo]
  simp only [hzero]
  split_ifs with hneg
  · rfl
  · match hsteps : v.steps, h with
    | [], _ => rfl
    | [blocks], _ =>
      rw [flatten_cons, flatten_nil, append_nil]
      rfl
    | _ :: _ :: _, h => exact absurd (by simp) h

theorem leafBlock_eq (v : LeafVarinfo) (wbindex timestep : Int) :
    leafBlock v wbindex timestep =
      (v.blockSeen wbindex timestep).elim (.error .outOfBounds) .ok := by
  have hread (k : Int) : (if k < 0 then .error .outOfBounds
      else match v.blockinfo[k.toNat]? with
        | none => .error .outOfBounds
        | some b => .ok b : Except Fault VarBlock) =
      (if k < 0 then none else v.blockinfo[k.toNat]?).elim (.error .outOfBounds) .ok := by
    split_ifs
    · rfl
    · cases v.blockinfo[k.toNat]? <;> rfl
  rw [leafBlock, hread, LeafVarinfo.blockSeen]
  by_cases hsteps : 1 < v.steps.length
  · rw [if_pos hsteps, if_pos hsteps, getElem?_absoluteIndex]
  · rw [if_neg hsteps, if_neg hsteps, getElem?_blockinfo_of_le hsteps]

theorem LeafVarinfo.exists_of_blockAt {v : LeafVarinfo} {wbindex timestep : Int} {b : VarBlock}
    (h : v.blockAt wbindex timestep = some b) : 0 ≤ timestep ∧
      ∃ blocks, v.steps[timestep.toNat]? = some blocks ∧ blocks[wbindex.toNat]? = some b := by
  rw [blockAt] at h
  by_cases hneg : timestep < 0 ∨ wbindex < 0
  · rw [if_pos hneg] at h
    cases h
  · rw [if_neg hneg] at h
    exact ⟨by omega, Option.bind_eq_some_iff.mp h⟩

theorem LeafVarinfo.length_of_blockSeen {v : LeafVarinfo} {wbindex timestep : Int} {b : VarBlock}
    (h : v.blockSeen wbindex timestep = some b) :
    b.start.length = v.ndim ∧ b.count.length = v.ndim := by
  obtain ⟨-, blocks, hblocks, hb⟩ := exists_of_blockAt h
  have hmem := mem_of_getElem? hblocks
  have hmem' := mem_of_getElem? hb
  exact ⟨v.start_length _ hmem _ hmem', v.count_length _ hmem _ hmem'⟩

/-! ## Trees -/

theorem leaves_ne_nil (q : Query) : q.leaves ≠ [] := by
  induction q with
  | leaf v => exact cons_ne_nil v []
  | single subtree ih => exact ih
  | node left right ihLeft _ => exact append_ne_nil_of_left_ne_nil ihLeft _

theorem sameBounds_iff {ndim : Nat} {left right : VarBlock} (hleft : left.start.length = ndim ∧
    left.count.length = ndim) (hright : right.start.length = ndim ∧ right.count.length = ndim) :
    sameBounds ndim left right ↔ left = right := by
  constructor
  · intro h
    have hall (i : Nat) (hi : i < ndim) :
        left.start[i]? = right.start[i]? ∧ left.count[i]? = right.count[i]? := by
      have hi' := all_eq_true.mp h i (mem_range.mpr hi)
      simpa using hi'
    have hstart : left.start = right.start := by
      refine ext_getElem? fun i => ?_
      by_cases hi : i < ndim
      · exact (hall i hi).1
      · rw [getElem?_eq_none (by omega), getElem?_eq_none (by omega)]
    have hcount : left.count = right.count := by
      refine ext_getElem? fun i => ?_
      by_cases hi : i < ndim
      · exact (hall i hi).2
      · rw [getElem?_eq_none (by omega), getElem?_eq_none (by omega)]
    cases left
    cases right
    cases hstart
    cases hcount
    rfl
  · rintro rfl
    exact all_eq_true.mpr fun i _ => by simp

section Seen

variable {q left right : Query} {wbindex timestep : Int} {bounds : Nat × VarBlock}

theorem Common.length (h : Common (·.blockSeen wbindex timestep) q bounds) :
    bounds.2.start.length = bounds.1 ∧ bounds.2.count.length = bounds.1 := by
  obtain ⟨v, hv⟩ := exists_mem_of_ne_nil _ (leaves_ne_nil q)
  obtain ⟨hndim, hblock⟩ := h v hv
  rw [← hndim]
  exact LeafVarinfo.length_of_blockSeen hblock

theorem Common.unique {block : LeafVarinfo → Option VarBlock} {bounds' : Nat × VarBlock}
    (h : Common block q bounds) (h' : Common block q bounds') : bounds = bounds' := by
  obtain ⟨v, hv⟩ := exists_mem_of_ne_nil _ (leaves_ne_nil q)
  have hblock := (h v hv).2.symm.trans (h' v hv).2
  exact Prod.ext ((h v hv).1.symm.trans (h' v hv).1) (Option.some.inj hblock)

theorem common_node {block : LeafVarinfo → Option VarBlock} :
    Common block (.node left right) bounds ↔ Common block left bounds ∧ Common block right bounds :=
  forall_mem_append

theorem computePgBounds_of_seen
    (h : ∀ v ∈ q.leaves, ∃ b, v.blockSeen wbindex timestep = some b) :
    ∃ result, computePgBounds wbindex timestep q = .ok result ∧
      Bounds (·.blockSeen wbindex timestep) q result := by
  induction q with
  | leaf v =>
    obtain ⟨b, hb⟩ := h v (mem_singleton_self v)
    refine ⟨some (v.ndim, b), ?_, ?_⟩
    · rw [computePgBounds, leafBlock_eq, hb]
      rfl
    · intro v' hv'
      rw [mem_singleton.mp hv']
      exact ⟨rfl, hb⟩
  | single subtree ih => exact ih h
  | node left right ihLeft ihRight =>
    obtain ⟨leftResult, hleft, hleftBounds⟩ :=
      ihLeft fun v hv => h v (mem_append_left _ hv)
    obtain ⟨rightResult, hright, hrightBounds⟩ :=
      ihRight fun v hv => h v (mem_append_right _ hv)
    simp only [computePgBounds, hleft, hright, bind, Except.bind]
    match leftResult, rightResult, hleftBounds, hrightBounds with
    | none, _, hleftBounds, _ =>
      refine ⟨none, rfl, ?_⟩
      rintro ⟨bounds, hbounds⟩
      exact hleftBounds ⟨bounds, (common_node.mp hbounds).1⟩
    | some _, none, _, hrightBounds =>
      refine ⟨none, rfl, ?_⟩
      rintro ⟨bounds, hbounds⟩
      exact hrightBounds ⟨bounds, (common_node.mp hbounds).2⟩
    | some leftBounds, some rightBounds, hleftBounds, hrightBounds =>
      -- the whole tree has bounds where those of the two sides are the same
      have hiff : (∃ bounds, Common (·.blockSeen wbindex timestep) (.node left right) bounds) →
          leftBounds = rightBounds := by
        rintro ⟨bounds, hbounds⟩
        obtain ⟨hl, hr⟩ := common_node.mp hbounds
        rw [Common.unique hleftBounds hl, Common.unique hrightBounds hr]
      dsimp only
      split_ifs with hndim hsame
      · exact ⟨none, rfl, fun hcommon => hndim (congrArg Prod.fst (hiff hcommon))⟩
      · have hlength := Common.length hrightBounds
        rw [← not_not.mp hndim] at hlength
        have heq := (sameBounds_iff (Common.length hleftBounds) hlength).mp hsame
        have hbounds : leftBounds = rightBounds := Prod.ext (not_not.mp hndim) heq
        refine ⟨some leftBounds, rfl, common_node.mpr ⟨hleftBounds, ?_⟩⟩
        rw [hbounds]
        exact hrightBounds
      · refine ⟨none, rfl, fun hcommon => hsame ?_⟩
        have hbounds := hiff hcommon
        have hlength := Common.length hleftBounds
        rw [← hbounds]
        exact (sameBounds_iff hlength hlength).mpr rfl

theorem seen_of_computePgBounds {result : Option (Nat × VarBlock)}
    (h : computePgBounds wbindex timestep q = .ok result) :
    ∀ v ∈ q.leaves, ∃ b, v.blockSeen wbindex timestep = some b := by
  induction q generalizing result with
  | leaf v =>
    intro v' hv'
    rw [mem_singleton.mp hv']
    rw [computePgBounds, leafBlock_eq] at h
    cases hb : v.blockSeen wbindex timestep with
    | none =>
      rw [hb] at h
      cases h
    | some b => exact ⟨b, rfl⟩
  | single subtree ih => exact ih h
  | node left right ihLeft ihRight =>
    rw [computePgBounds] at h
    obtain ⟨leftResult, hleft, h⟩ := exists_of_bind_eq_ok h
    obtain ⟨rightResult, hright, -⟩ := exists_of_bind_eq_ok h
    exact forall_mem_append.mpr ⟨ihLeft hleft, ihRight hright⟩

end Seen

/-! ## Exactly when -/

theorem LeafVarinfo.blockSeen_of_blockAt {v : LeafVarinfo} {wbindex timestep : Int} {b : VarBlock}
    (h : v.blockAt wbindex timestep = some b) : v.blockSeen wbindex timestep = some b := by
  rw [blockSeen]
  split_ifs with hsteps
  · exact h
  · have hzero : timestep = 0 := by
      obtain ⟨hstart, blocks, hblocks, -⟩ := exists_of_blockAt h
      have hlt := (List.getElem?_eq_some_iff.mp hblocks).1
      omega
    rw [hzero] at h
    exact h

theorem common_of_forall {q : Query} {wbindex timestep : Int}
    (h : ∀ v ∈ q.leaves, ∃ b, v.blockAt wbindex timestep = some b) (bounds : Nat × VarBlock) :
    Common (·.blockAt wbindex timestep) q bounds ↔
      Common (·.blockSeen wbindex timestep) q bounds := by
  refine forall₂_congr fun v hv => and_congr_right fun _ => ?_
  obtain ⟨b, hb⟩ := h v hv
  dsimp only
  rw [hb, LeafVarinfo.blockSeen_of_blockAt hb]

/-- Exactly then the bounds are those of the blocks of the time step. -/
theorem pgBounds_right_iff (q : Query) (wbindex timestep : Int) :
    Right q wbindex timestep ↔ Clear q wbindex timestep := by
  constructor
  · rintro ⟨result, hrun, hbounds⟩
    have hseen := seen_of_computePgBounds hrun
    refine ⟨hseen, ?_⟩
    by_cases hall : ∀ v ∈ q.leaves, ∃ b, v.blockAt wbindex timestep = some b
    · exact .inl hall
    · refine .inr ?_
      obtain ⟨result', hrun', hbounds'⟩ := computePgBounds_of_seen hseen
      rw [hrun] at hrun'
      cases hrun'
      cases result with
      | none => exact hbounds'
      | some bounds =>
        -- bounds would be a block at the time step in each leaf
        exact absurd (fun v hv => ⟨bounds.2, (hbounds v hv).2⟩) hall
  · rintro ⟨hseen, hcases⟩
    obtain ⟨result, hrun, hbounds⟩ := computePgBounds_of_seen hseen
    refine ⟨result, hrun, ?_⟩
    by_cases hall : ∀ v ∈ q.leaves, ∃ b, v.blockAt wbindex timestep = some b
    · cases result with
      | none =>
        rintro ⟨bounds, hcommon⟩
        exact hbounds ⟨bounds, (common_of_forall hall bounds).mp hcommon⟩
      | some bounds => exact (common_of_forall hall bounds).mpr hbounds
    · have hnone := hcases.resolve_left hall
      cases result with
      | none =>
        rintro ⟨bounds, hcommon⟩
        exact hall fun v hv => ⟨bounds.2, (hcommon v hv).2⟩
      | some bounds => exact absurd ⟨bounds, hbounds⟩ hnone

def twoSteps : LeafVarinfo where
  ndim := 1
  steps := [[⟨[0], [4]⟩], [⟨[0], [4]⟩]]
  start_length := by decide
  count_length := by decide
  total := by decide

/-- The index -1 that stands for a block that does not exist is looked up. -/
theorem not_right_secondBlock : ¬Right (.leaf twoSteps) 1 0 := by
  rintro ⟨result, hrun, -⟩
  have hfault : computePgBounds 1 0 (.leaf twoSteps) = .error .outOfBounds := by decide
  rw [hfault] at hrun
  cases hrun

end Adios.PgBounds
