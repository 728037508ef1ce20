import Adios.Query.Tree
import Mathlib.Algebra.Order.Ring.Int
import Mathlib.Data.List.Basic

/-!
# Adios — the leaves of a query tree

What a leaf selects of its variable at a time step, and the leaves whose selections the check
judges right.
-/

namespace Adios

open List

/-! ## What a leaf asks for -/

/-- The step of the file that a query for `timeStep` is about. -/
def LeafQuery.actualStep (l : LeafQuery) (timeStep : Int) : Nat :=
  if l.file.isStreaming then l.file.currentStep else timeStep.toNat

def QueryVarInfo.blocksAt (v : QueryVarInfo) (step : Nat) : List (List UInt64) :=
  if 1 < v.steps.length then v.steps.getD step [] else v.steps.headD []

def BoxFits : (dims start count : List UInt64) → Prop
  | [], [], [] => True
  | d :: dims, s :: start, c :: count =>
    s.toNat + c.toNat ≤ d.toNat ∧ BoxFits dims start count
  | _, _, _ => False

def SelectionValid (v : QueryVarInfo) (step : Nat) : Option Selection → Prop
  | none => True
  | some (.boundingBox bb) => BoxFits v.dims bb.start bb.count
  | some (.points _ points) => ∀ p ∈ points, Forall₂ (· < ·) p v.dims
  | some (.writeBlock index) => 0 ≤ index ∧ index < (v.blocksAt step).length

def selectionCount (v : QueryVarInfo) (step : Nat) : Option Selection → UInt64
  | none => v.dims.foldl (· * ·) 1
  | some (.boundingBox bb) => bb.count.foldl (· * ·) 1
  | some (.points npoints _) => npoints
  | some (.writeBlock index) => ((v.blocksAt step).getD index.toNat []).foldl (· * ·) 1

def LeafQuery.ValidAt (l : LeafQuery) (timeStep : Int) : Prop :=
  0 ≤ timeStep ∧ (l.file.isStreaming → timeStep = 0) ∧
    ∃ v, l.file.vars.lookup l.varName = some v ∧ SelectionValid v (l.actualStep timeStep) l.sel

def LeafQuery.elementCount (l : LeafQuery) (timeStep : Int) : UInt64 :=
  match l.file.vars.lookup l.varName with
  | none => 0
  | some v => selectionCount v (l.actualStep timeStep) l.sel

/-- At least one is `NULL`, or both are of the same kind, point lists with as many points. -/
def SelectionsCompatible : Option Selection → Option Selection → Prop
  | some (.boundingBox _), some (.boundingBox _) => True
  | some (.points npoints _), some (.points npoints' _) => npoints = npoints'
  | some (.writeBlock _), some (.writeBlock _) => True
  | some _, some _ => False
  | _, _ => True

structure WellFormedAt (leaves : List LeafQuery) (timeStep : Int) : Prop where
  valid : ∀ l ∈ leaves, l.ValidAt timeStep
  count : ∀ a ∈ leaves, ∀ b ∈ leaves, a.elementCount timeStep = b.elementCount timeStep
  compatible : ∀ a ∈ leaves, ∀ b ∈ leaves, SelectionsCompatible a.sel b.sel

/-! ## The sizes -/

theorem scaleSizes_snd (sizes : UInt64 × UInt64) (count : List UInt64) :
    (scaleSizes sizes count).2 = count.foldl (· * ·) sizes.2 := by
  unfold scaleSizes
  induction count generalizing sizes with
  | nil => rfl
  | cons c count ih => exact ih _

/-- The ends of the box, computed in 64 bits, are not behind those of the array in the dimensions
that both have. -/
def EndsFit : (dims start count : List UInt64) → Prop
  | d :: dims, s :: start, c :: count => s + c ≤ d ∧ EndsFit dims start count
  | _, _, _ => True

def NoEndWraps (start count : List UInt64) : Prop :=
  ∀ sc ∈ start.zip count, sc.1.toNat + sc.2.toNat < 2 ^ 64

/-- The check judges the selection right: a box whose ends seem to fit has the dimensions of the
variable and ends below 2^64, and a write block is one of the step exactly when its index is not
above the least number of blocks of a step. -/
def SelectionJudged (v : QueryVarInfo) (step : Nat) : Option Selection → Prop
  | none => True
  | some (.boundingBox bb) =>
    EndsFit v.dims bb.start bb.count →
      bb.count.length = v.dims.length ∧ NoEndWraps bb.start bb.count
  | some (.points _ _) => False
  | some (.writeBlock index) =>
    index ≤ (blockCounters v.nblocks index step).1 ↔
      0 ≤ index ∧ index < (v.blocksAt step).length

variable {dims start count : List UInt64} {index timeStep : Int} {l : LeafQuery}

theorem boundingBoxSizes_of_boxFits (h : BoxFits dims start count)
    (hends : EndsFit dims start count) (sizes : UInt64 × UInt64) :
    ∃ total, boundingBoxSizes dims start count sizes =
      .ok (some (total, count.foldl (· * ·) sizes.2)) := by
  induction dims, start, count using BoxFits.induct generalizing sizes with
  | case1 => exact ⟨sizes.1, rfl⟩
  | case2 d dims s start c count ih =>
    have hle : ¬s + c > d := UInt64.not_lt.mpr hends.1
    rw [boundingBoxSizes, if_neg hle]
    exact ih h.2 hends.2 _
  | case3 dims start count hnil hcons => simp [BoxFits] at h

theorem boundingBoxSizes_of_not_endsFit (h : ¬EndsFit dims start count) (sizes : UInt64 × UInt64) :
    boundingBoxSizes dims start count sizes = .ok none := by
  induction dims, start, count using EndsFit.induct generalizing sizes with
  | case1 d dims s start c count ih =>
    rw [boundingBoxSizes]
    split_ifs with hgt
    · rfl
    · exact ih (fun hrest => h ⟨UInt64.not_lt.mp hgt, hrest⟩) _
  | case2 dims start count hcons => simp [EndsFit] at h

theorem boundingBoxSizes_of_endsFit (h : EndsFit dims start count) (sizes : UInt64 × UInt64) :
    boundingBoxSizes dims start count sizes ≠ .ok none := by
  induction dims generalizing start count sizes with
  | nil => nofun
  | cons d dims ih =>
    cases start with
    | nil => nofun
    | cons s start =>
      cases count with
      | nil => nofun
      | cons c count =>
        have hle : ¬s + c > d := UInt64.not_lt.mpr h.1
        rw [boundingBoxSizes, if_neg hle]
        exact ih h.2 _

theorem boxFits_iff (dims : List UInt64) (hlength : start.length = count.length) :
    BoxFits dims start count ↔
      EndsFit dims start count ∧ count.length = dims.length ∧ NoEndWraps start count := by
  induction dims, start, count using BoxFits.induct with
  | case1 => simp [BoxFits, EndsFit, NoEndWraps]
  | case2 d dims s start c count ih =>
    have hd := d.toNat_lt
    rw [length_cons, length_cons, Nat.succ_inj] at hlength
    have hsum : s.toNat + c.toNat ≤ d.toNat ↔ s + c ≤ d ∧ s.toNat + c.toNat < 2 ^ 64 := by
      rw [UInt64.le_iff_toNat_le, UInt64.toNat_add]
      omega
    simp only [BoxFits, EndsFit, NoEndWraps, ih hlength, hsum, zip_cons_cons,
      forall_mem_cons, length_cons, Nat.succ_inj]
    tauto
  | case3 dims start count hnil hcons =>
    -- arrays of equal lengths are covered by the other two cases
    have hne : ¬count.length = dims.length := by
      intro hcount
      cases dims with
      | nil =>
        have hcount' := length_eq_zero_iff.mp hcount
        exact hnil rfl (length_eq_zero_iff.mp (hlength.trans hcount)) hcount'
      | cons d dims =>
        obtain ⟨c, count, rfl⟩ := exists_cons_of_length_eq_add_one hcount
        obtain ⟨s, start, rfl⟩ := exists_cons_of_length_eq_add_one (hlength.trans hcount)
        exact hcons d dims s start c count rfl rfl rfl
    simp [BoxFits, hne]

theorem getElem?_flatten_take {α : Type} (steps : List (List α)) (t k : Nat)
    (hk : k < (steps.getD t []).length) :
    steps.flatten[((steps.take t).map List.length).sum + k]? = some (steps.getD t [])[k] := by
  induction steps generalizing t with
  | nil => simp at hk
  | cons step steps ih =>
    cases t with
    | zero =>
      simp only [getD_cons_zero] at hk ⊢
      simp [flatten_cons, getElem?_append_left hk]
    | succ t =>
      rw [getD_cons_succ] at hk
      simp only [getD_cons_succ, take_succ_cons, map_cons, sum_cons, flatten_cons]
      rw [Nat.add_assoc, getElem?_append_right (Nat.le_add_right _ _), Nat.add_sub_cancel_left,
        ih t hk]

theorem foldl_add_length {α : Type} (steps : List (List α)) (counter : Int) :
    (steps.map fun blocks => (blocks.length : Int)).foldl (· + ·) counter =
      ((steps.map List.length).sum : Nat) + counter := by
  induction steps generalizing counter with
  | nil => simp
  | cons step steps ih =>
    rw [map_cons, foldl_cons, ih, map_cons, sum_cons]
    omega

theorem blockCounters_snd (v : QueryVarInfo) (index timestep : Int) :
    (blockCounters v.nblocks index timestep).2 =
      if 1 < v.steps.length then
        (((v.steps.take timestep.toNat).map List.length).sum : Nat) + index
      else index := by
  unfold blockCounters QueryVarInfo.nblocks
  rw [length_map]
  split_ifs with hsteps
  · rw [← map_take, foldl_add_length]
  · rfl

theorem QueryVarInfo.mem_steps_of_mem_blocksAt {v : QueryVarInfo} {step : Nat}
    {block : List UInt64} (h : block ∈ v.blocksAt step) : ∃ blocks ∈ v.steps, block ∈ blocks := by
  unfold QueryVarInfo.blocksAt at h
  split_ifs at h with hsteps
  · rw [getD_eq_getElem?_getD] at h
    cases hget : v.steps[step]? with
    | none => simp [hget] at h
    | some blocks =>
      rw [hget] at h
      exact ⟨blocks, mem_of_getElem? hget, h⟩
  · obtain ⟨blocks, rest, hcons⟩ := exists_cons_of_ne_nil v.steps_ne_nil
    rw [hcons] at h ⊢
    exact ⟨blocks, mem_cons_self .., h⟩

theorem QueryVarInfo.getElem?_blockinfo {v : QueryVarInfo} {step : Nat}
    (hindex : 0 ≤ index ∧ index < (v.blocksAt step).length) :
    0 ≤ (blockCounters v.nblocks index step).2 ∧
      v.blockinfo[(blockCounters v.nblocks index step).2.toNat]? =
        some ((v.blocksAt step).getD index.toNat []) := by
  have hlt : index.toNat < (v.blocksAt step).length := by omega
  have hblock : (v.blocksAt step)[index.toNat]? = some ((v.blocksAt step).getD index.toNat []) := by
    rw [getD_eq_getElem?_getD, getElem?_eq_getElem hlt, Option.getD_some]
  rw [blockCounters_snd]
  split_ifs with hsteps
  · have hat : v.blocksAt step = v.steps.getD step [] := if_pos hsteps
    have hplace := getElem?_flatten_take v.steps step index.toNat (by rwa [← hat])
    rw [← hblock, hat]
    generalize hbefore : ((v.steps.take step).map List.length).sum = before at hplace
    have hcounter :
        ((((v.steps.take (step : Int).toNat).map List.length).sum : Nat) + index).toNat =
        before + index.toNat := by
      rw [Int.toNat_natCast, hbefore]
      omega
    refine ⟨by omega, ?_⟩
    rw [hcounter, QueryVarInfo.blockinfo, hplace, getElem?_eq_getElem]
  · obtain ⟨blocks, rest, hcons⟩ := exists_cons_of_ne_nil v.steps_ne_nil
    have hat : v.blocksAt step = v.steps.headD [] := if_neg hsteps
    have hrest : rest = [] := by
      rw [hcons, length_cons] at hsteps
      exact length_eq_zero_iff.mp (by omega)
    have hblocks : v.blockinfo = v.blocksAt step := by
      rw [QueryVarInfo.blockinfo, hat, hcons, hrest]
      simp
    rw [hblocks]
    exact ⟨hindex.1, hblock⟩

theorem writeBlockSizes_of_valid {v : QueryVarInfo} {step : Nat}
    (hindex : 0 ≤ index ∧ index < (v.blocksAt step).length)
    (hleast : index ≤ (blockCounters v.nblocks index step).1) (sizes : UInt64 × UInt64) :
    ∃ total, writeBlockSizes v index step sizes =
      .ok (some (total, ((v.blocksAt step).getD index.toNat []).foldl (· * ·) sizes.2)) := by
  obtain ⟨hcounter, hget⟩ := QueryVarInfo.getElem?_blockinfo hindex
  unfold writeBlockSizes
  simp only [if_neg (not_lt.mpr hleast), if_neg (not_lt.mpr hcounter), hget]
  split_ifs with hscalar
  · -- the block of a scalar has no dimensions
    have hlt : index.toNat < (v.blocksAt step).length := by omega
    have hblock : (v.blocksAt step).getD index.toNat [] ∈ v.blocksAt step := by
      rw [getD_eq_getElem?_getD, getElem?_eq_getElem hlt, Option.getD_some]
      exact getElem_mem hlt
    obtain ⟨blocks, hblocks, hmem⟩ := QueryVarInfo.mem_steps_of_mem_blocksAt hblock
    have hnil := v.count_length blocks hblocks _ hmem
    rw [hscalar, length_nil, length_eq_zero_iff] at hnil
    rw [hnil]
    exact ⟨sizes.1, rfl⟩
  · refine ⟨(scaleSizes sizes ((v.blocksAt step).getD index.toNat [])).1, ?_⟩
    rw [← scaleSizes_snd]

theorem writeBlockSizes_of_gt {v : QueryVarInfo} {timestep : Int}
    (h : ¬index ≤ (blockCounters v.nblocks index timestep).1) (sizes : UInt64 × UInt64) :
    writeBlockSizes v index timestep sizes = .ok none := by
  unfold writeBlockSizes
  simp only [if_pos (not_le.mp h)]

theorem writeBlockSizes_of_le {v : QueryVarInfo} {timestep : Int}
    (h : index ≤ (blockCounters v.nblocks index timestep).1) (sizes : UInt64 × UInt64) :
    writeBlockSizes v index timestep sizes ≠ .ok none := by
  unfold writeBlockSizes
  simp only [if_neg (not_lt.mpr h)]
  split_ifs
  · nofun
  · nofun
  · cases v.blockinfo[(blockCounters v.nblocks index timestep).2.toNat]? <;> nofun

theorem getTotalByteSize_of_judged {v : QueryVarInfo} {step : Nat} {sel : Option Selection}
    (h : SelectionJudged v step sel) :
    (SelectionValid v step sel → ∃ total,
      getTotalByteSize v sel step = .ok (some (total, selectionCount v step sel))) ∧
    (¬SelectionValid v step sel → getTotalByteSize v sel step = .ok none) := by
  cases sel with
  | none =>
    refine ⟨fun _ => ⟨(scaleSizes (v.typeSize, 1) v.dims).1, ?_⟩, fun hnot => absurd trivial hnot⟩
    have hcount : selectionCount v step none = (scaleSizes (v.typeSize, 1) v.dims).2 := by
      rw [scaleSizes_snd]
      rfl
    rw [hcount]
    rfl
  | some sel =>
    cases sel with
    | boundingBox bb =>
      have hiff := boxFits_iff v.dims bb.start_length
      refine ⟨fun hvalid => ?_, fun hnot => ?_⟩
      · exact boundingBoxSizes_of_boxFits hvalid (hiff.mp hvalid).1 (v.typeSize, 1)
      · refine boundingBoxSizes_of_not_endsFit (fun hends => hnot ?_) (v.typeSize, 1)
        exact hiff.mpr ⟨hends, h hends⟩
    | points npoints points => exact h.elim
    | writeBlock index =>
      refine ⟨fun hvalid => ?_, fun hnot => ?_⟩
      · exact writeBlockSizes_of_valid hvalid (h.mpr hvalid) (v.typeSize, 1)
      · exact writeBlockSizes_of_gt (fun hle => hnot (h.mp hle)) (v.typeSize, 1)

/-! ## The check of a leaf -/

def LeafQuery.JudgedAt (l : LeafQuery) (timeStep : Int) : Prop :=
  0 ≤ timeStep → (l.file.isStreaming → timeStep = 0) →
    ∀ v, l.file.vars.lookup l.varName = some v →
      SelectionJudged v (l.actualStep timeStep) l.sel

open Classical in
noncomputable def LeafQuery.checked (timeStep : Int) (l : LeafQuery) : LeafQuery :=
  if l.ValidAt timeStep then { l with rawDataSize := l.elementCount timeStep } else l

theorem LeafQuery.cast_actualStep (h : 0 ≤ timeStep) :
    (if l.file.isStreaming then (l.file.currentStep : Int) else timeStep) =
      (l.actualStep timeStep : Int) := by
  unfold LeafQuery.actualStep
  split_ifs
  · rfl
  · omega

theorem checkLeafAtTimestep_eq (hpos : 0 ≤ timeStep) (hstream : l.file.isStreaming → timeStep = 0)
    {v : QueryVarInfo} (hv : l.file.vars.lookup l.varName = some v) :
    checkLeafAtTimestep l timeStep =
      (getTotalByteSize v l.sel (l.actualStep timeStep)).map fun sizes =>
        sizes.elim ((-1 : Int), l) fun sizes =>
          ((l.actualStep timeStep : Int), { l with rawDataSize := sizes.2 }) := by
  have hstream' : ¬(l.file.isStreaming ∧ timeStep ≠ 0) := fun hne => hne.2 (hstream hne.1)
  unfold checkLeafAtTimestep
  rw [if_neg (not_lt.mpr hpos), if_neg hstream', hv]
  simp only [LeafQuery.cast_actualStep hpos]
  cases getTotalByteSize v l.sel (l.actualStep timeStep) with
  | error fault => rfl
  | ok sizes => cases sizes <;> rfl

theorem checkLeafAtTimestep_of_judged (h : l.JudgedAt timeStep) :
    ∃ result, checkLeafAtTimestep l timeStep = .ok (result, l.checked timeStep) ∧
      (result ≠ -1 ↔ l.ValidAt timeStep) := by
  by_cases hvalid : l.ValidAt timeStep
  · obtain ⟨hpos, hstream, v, hv, hsel⟩ := hvalid
    obtain ⟨total, hsize⟩ := (getTotalByteSize_of_judged (h hpos hstream v hv)).1 hsel
    have hchecked : l.checked timeStep =
        { l with rawDataSize := selectionCount v (l.actualStep timeStep) l.sel } := by
      rw [LeafQuery.checked, if_pos ⟨hpos, hstream, v, hv, hsel⟩, LeafQuery.elementCount, hv]
    refine ⟨l.actualStep timeStep, ?_, fun _ => ⟨hpos, hstream, v, hv, hsel⟩, fun _ => by omega⟩
    rw [checkLeafAtTimestep_eq hpos hstream hv, hsize, hchecked]
    rfl
  · have hchecked : l.checked timeStep = l := if_neg hvalid
    refine ⟨-1, ?_, by simp [hvalid]⟩
    rw [hchecked]
    by_cases hneg : timeStep < 0
    · rw [checkLeafAtTimestep, if_pos hneg]
    by_cases hstream : l.file.isStreaming ∧ timeStep ≠ 0
    · rw [checkLeafAtTimestep, if_neg hneg, if_pos hstream]
    have hpos := not_lt.mp hneg
    have hstream' : l.file.isStreaming → timeStep = 0 := fun hs => by
      by_contra hne
      exact hstream ⟨hs, hne⟩
    cases hv : l.file.vars.lookup l.varName with
    | none =>
      rw [checkLeafAtTimestep, if_neg hneg, if_neg hstream, hv]
    | some v =>
      have hnot : ¬SelectionValid v (l.actualStep timeStep) l.sel := fun hsel =>
        hvalid ⟨hpos, hstream', v, hv, hsel⟩
      rw [checkLeafAtTimestep_eq hpos hstream' hv,
        (getTotalByteSize_of_judged (h hpos hstream' v hv)).2 hnot]
      rfl

end Adios
