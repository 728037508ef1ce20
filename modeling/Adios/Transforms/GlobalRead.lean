import Adios.Core.PatchData
import Adios.Transforms.RawReads

/-!
# Transforms — reading boxes and points

A read of a bounding box or of a list of points of a global array that the identity transform has
written. What it has in common with each block of the steps is asked for, and what comes back is
patched into the user's buffer as the process groups complete.
-/

namespace Adios.Transforms

open List CopySubvolume PatchData Selections Sieving Subvolume WriteBlocks

/-! ## Blocks of steps -/

/-- The loop of `compute_blockidx_range`, from a step on. What is not set when it ends has no
value. -/
def blockidxRangeLoop (fromSteps toSteps : Nat) :
    Nat → Nat → Option Nat → List Nat → Option (Nat × Nat)
  | _, _, _, [] => none
  | timestep, curblocks, startBlockidx, n :: nblocks =>
    let startBlockidx := if timestep = fromSteps then some curblocks else startBlockidx
    if timestep + 1 = toSteps then startBlockidx.map fun start => (start, curblocks + n)
    else blockidxRangeLoop fromSteps toSteps (timestep + 1) (curblocks + n) startBlockidx nblocks

/-- `compute_blockidx_range` -/
def computeBlockidxRange (nblocks : List Nat) (fromSteps toSteps : Nat) : Option (Nat × Nat) :=
  blockidxRangeLoop fromSteps toSteps 0 0 none nblocks

/-- "`while (blockidx != end_blockidx)`", with the number of blocks that are left: the requests, one
for a block or none. -/
def populateLoop {R : Type} (request : Nat → Nat → Except Fault (Option R)) (nblocks : List Nat) :
    Nat → Nat → Nat → Nat → Except Fault (List R)
  | 0, _, _, _ => .ok []
  | left + 1, blockidx, timestep, timestepBlockidx => do
    let pg ← request timestep blockidx
    let pgs ←
      if timestepBlockidx + 1 = nblocks.getD timestep 0 then
        populateLoop request nblocks left (blockidx + 1) (timestep + 1) 0
      else populateLoop request nblocks left (blockidx + 1) timestep (timestepBlockidx + 1)
    return pg.toList ++ pgs

inductive Subreqs where
  /-- "`Is sieving`": one of them -/
  | sieving (subreq : RawReadRequest)
  /-- one for each point; "`transform_internal`" is the buffer -/
  | points (subreqs : List RawReadRequest)

/-- The loop over the points: an `int` counts them, they are taken as they are in the array, and a
byte is read of each. -/
def PgReadRequest.generatePoints (pg : PgReadRequest) (pts : Points) (type : Datatype) :
    Except Fault (List RawReadRequest) :=
  let datumSize := getTypeSize type none
  ((chunks pts.ndim pts.npoints pts.points).take (signed pts.npoints).toNat).mapM fun point =>
    let offset := computeLinearOffsetInVolume point (pg.pgBoundsSel.map Segment.count)
    pg.newByteSegment (offset * datumSize) 1 0

/-- `adios_transform_identity_generate_read_subrequests` -/
def PgReadRequest.generateReadSubrequests (pg : PgReadRequest) (sievePoints : Bool)
    (type : Datatype) : Except Fault Subreqs :=
  match pg.pgIntersectionSel with
  | .points pts =>
    if sievePoints then (pg.generateSieving type).map .sieving
    else (pg.generatePoints pts type).map .points
  | .writeBlock _ | .boundingBox _ => (pg.generateSieving type).map .sieving

/-! ## Patching -/

/-- The arguments of `copy_subvolume_ragged_offset`, dimension by dimension: the intersection, the
destination and the source. -/
def copyAxes : List Segment → List Segment → List Segment → List Axis
  | inter :: inters, dst :: dsts, src :: srcs =>
    ⟨inter.count, dst.count, inter.start - dst.start, src.count, inter.start - src.start⟩ ::
      copyAxes inters dsts srcs
  | _, _, _ => []

/-- `adios_patch_data_bb_to_bb` -/
def patchDataBbToBb (mallocZero : Bool) (c : Call) (dst : Memory) (dstRaggedOffset : UInt64)
    (dstBb : List Segment) (srcRaggedOffset : UInt64) (srcBb : List Segment) :
    Except Fault Memory := do
  match ← intersectBbBb mallocZero dstBb srcBb with
  | some (.boundingBox inter) =>
    let (out, _) ←
      copySubvolumeRaggedOffset c (copyAxes inter dstBb srcBb) dstRaggedOffset srcRaggedOffset dst
    return out
  | some (.points _) | some .writeblock | some .auto => .error .assertion
  | none => return dst

/-- `adios_patch_data_to_global` from a bounding box. -/
def patchDataToGlobal (mallocZero : Bool) (c : Call) (dst : Memory) (dstRaggedOffset : UInt64)
    (dstSel : Selections.Selection) (srcRaggedOffset : UInt64) (srcBb : List Segment) :
    Except Fault Memory :=
  match dstSel with
  | .boundingBox dstBb =>
    patchDataBbToBb mallocZero c dst dstRaggedOffset dstBb srcRaggedOffset srcBb
  | .points dstPts =>
    (patchDataBbToPts c dst dstRaggedOffset dstPts srcRaggedOffset srcBb).map Prod.fst
  | .writeblock | .auto => .ok dst

def atDistance (distance : UInt64) (f : Memory → Except Fault Memory) (mem : Memory) :
    Except Fault Memory :=
  (f fun a => mem (distance.toNat + a)).map fun out a => out (a - distance.toNat)

def Datablock.memory (datablock : Datablock) (around : Memory) : Memory := fun a =>
  if 0 ≤ a ∧ a < datablock.buflen then datablock.data a else around a

/-! ## The read -/

/-- A read of a global selection: what the user asks for, and what it is asked of. `sieve` is
"`strcmp(reqgroup->read_param, "sieve") == 0`". -/
structure GlobalRead where
  v : Variable
  host : Wire.Endian
  swapEndianness : Flag
  mallocZero : Bool
  sieve : Bool
  sel : Selections.Selection
  fromSteps : Nat
  nsteps : Nat

namespace GlobalRead

variable (s : GlobalRead)

/-- `generate_read_request_for_pg` for a global selection. -/
def generateReadRequestForPg (timestep blockidx : Nat) :
    Except Fault (Option (PgReadRequest × Subreqs)) := do
  let pgBoundsSel ← s.v.varblock blockidx
  let request (inter : PgSelection) : Except Fault (Option (PgReadRequest × Subreqs)) := do
    let pg := ⟨timestep, blockidx, s.v.rawVarLength blockidx, inter, pgBoundsSel⟩
    let subreqs ← PgReadRequest.generateReadSubrequests pg s.sieve s.v.origType
    return some (pg, subreqs)
  match ← intersectGlobal s.mallocZero (.boundingBox pgBoundsSel) s.sel with
  | some (.boundingBox bb) => request (.boundingBox bb)
  | some (.points pts) => request (.points pts)
  | some .writeblock | some .auto | none => return none

/-- `populate_read_request_for_global_selection`, behind
"`assert(from_steps >= 0 && from_steps + nsteps <= raw_varinfo->nsteps)`". -/
def populateReadRequest : Except Fault (List (PgReadRequest × Subreqs)) :=
  if s.v.nblocks.length < s.fromSteps + s.nsteps then .error .assertion
  else
    match computeBlockidxRange s.v.nblocks s.fromSteps (s.fromSteps + s.nsteps) with
    | some (start, stop) =>
      populateLoop s.generateReadRequestForPg s.v.nblocks (stop - start) start s.fromSteps 0
    -- `start_blockidx` and `end_blockidx` are not initialised
    | none => .error .outOfBounds

/-- `compute_selection_size_in_bytes`, which is `orig_sel_timestep_size`. -/
def selectionSizeInBytes : UInt64 :=
  let typesize := getTypeSize s.v.origType none
  match s.sel with
  | .boundingBox bb => (bb.map Segment.count).foldl (· * ·) typesize
  | .points pts => UInt64.ofNat pts.ndim * UInt64.ofNat pts.npoints * typesize
  | .writeblock | .auto => 0

/-- `apply_datablock_to_result_and_free` with `apply_datablock_to_buffer_nonlocal_selections`: the
memory that starts with the user's buffer. The block of the datablock is promoted to its box. -/
def applyDatablockToResult (around : Memory) (datablock : Datablock) (userBuffer : Memory) :
    Except Fault Memory := do
  let timestepWithinRequest := datablock.timestep - s.fromSteps
  let bounds ← s.v.varblock datablock.bounds.index
  atDistance (UInt64.ofNat timestepWithinRequest * s.selectionSizeInBytes)
    (fun outputBuffer => patchDataToGlobal s.mallocZero
      ⟨s.host, s.v.origType, s.swapEndianness, datablock.memory around⟩ outputBuffer 0 s.sel
      datablock.raggedOffset bounds) userBuffer

def complete (stored around : Contents) (pg : PgReadRequest × Subreqs) (userBuffer : Memory) :
    Except Fault Memory :=
  match pg.2 with
  | .sieving subreq => do
    let datablock ← pg.1.completed s.mallocZero stored subreq
    s.applyDatablockToResult (around pg.1.blockidx.toNat) datablock userBuffer
  | .points subreqs =>
    -- "`assert(pg_reqgroup->completed)`"
    if subreqs = [] then .error .assertion
    -- the datablock is patched from points to points; the buffer has been freed with
    -- "`FREE(completed_pg_reqgroup->transform_internal)`" and is freed again with the datablock
    else .error .wildPointer

def completeAt (stored around : Contents) (pgs : List (PgReadRequest × Subreqs))
    (userBuffer : Memory) (k : Nat) : Except Fault Memory :=
  match pgs[k]? with
  | some pg => s.complete stored around pg userBuffer
  | none => .ok userBuffer

def run (stored around : Contents) (order : List Nat) (userBuffer : Memory) :
    Except Fault Memory := do
  let pgs ← s.populateReadRequest
  order.foldlM (s.completeAt stored around pgs) userBuffer

end GlobalRead

/-! ## The blocks that are asked for -/

variable {fromSteps toSteps : Nat} {nblocks : List Nat}

theorem blockidxRangeLoop_some {timestep curblocks start : Nat} {first : Option Nat}
    (h : fromSteps ≤ timestep) (hlt : timestep < toSteps)
    (hfirst : (if timestep = fromSteps then some curblocks else first) = some start)
    (hle : toSteps ≤ timestep + nblocks.length) :
    blockidxRangeLoop fromSteps toSteps timestep curblocks first nblocks =
      some (start, curblocks + (nblocks.take (toSteps - timestep)).sum) := by
  induction nblocks generalizing timestep curblocks first with
  | nil =>
    rw [length_nil] at hle
    omega
  | cons n nblocks ih =>
    rw [length_cons] at hle
    rw [blockidxRangeLoop, hfirst]
    by_cases hlast : timestep + 1 = toSteps
    · rw [if_pos hlast, ← hlast, Nat.add_sub_cancel_left, take_succ_cons, take_zero]
      rfl
    · have hsub : toSteps - timestep = toSteps - (timestep + 1) + 1 := by omega
      rw [if_neg hlast, ih (by omega) (by omega) (if_neg (by omega)) (by omega), hsub,
        take_succ_cons, sum_cons, Nat.add_assoc]

theorem blockidxRangeLoop_none {timestep curblocks : Nat} (h : timestep ≤ fromSteps)
    (hlt : fromSteps < toSteps) (hle : toSteps ≤ timestep + nblocks.length) :
    blockidxRangeLoop fromSteps toSteps timestep curblocks none nblocks =
      some (curblocks + (nblocks.take (fromSteps - timestep)).sum,
        curblocks + (nblocks.take (toSteps - timestep)).sum) := by
  induction nblocks generalizing timestep curblocks with
  | nil =>
    rw [length_nil] at hle
    omega
  | cons n nblocks ih =>
    by_cases hfirst : timestep = fromSteps
    · subst hfirst
      rw [blockidxRangeLoop_some (Nat.le_refl _) hlt (if_pos rfl) hle, Nat.sub_self]
      rfl
    · have hfrom : fromSteps - timestep = fromSteps - (timestep + 1) + 1 := by omega
      have hto : toSteps - timestep = toSteps - (timestep + 1) + 1 := by omega
      rw [length_cons] at hle
      rw [blockidxRangeLoop, if_neg hfirst, if_neg (by omega), ih (by omega) (by omega), hfrom, hto,
        take_succ_cons, take_succ_cons, sum_cons, sum_cons, Nat.add_assoc, Nat.add_assoc]

theorem computeBlockidxRange_eq (h : fromSteps < toSteps) (hle : toSteps ≤ nblocks.length) :
    computeBlockidxRange nblocks fromSteps toSteps =
      some ((nblocks.take fromSteps).sum, (nblocks.take toSteps).sum) := by
  rw [computeBlockidxRange, blockidxRangeLoop_none (Nat.zero_le _) h (by omega), Nat.zero_add,
    Nat.zero_add]
  rfl

def positions (nblocks : List Nat) : Nat → Nat → Nat → Nat → List (Nat × Nat)
  | 0, _, _, _ => []
  | left + 1, blockidx, timestep, timestepBlockidx =>
    (timestep, blockidx) ::
      if timestepBlockidx + 1 = nblocks.getD timestep 0 then
        positions nblocks left (blockidx + 1) (timestep + 1) 0
      else positions nblocks left (blockidx + 1) timestep (timestepBlockidx + 1)

theorem populateLoop_eq {R : Type} (request : Nat → Nat → Except Fault (Option R))
    (nblocks : List Nat) (left blockidx timestep timestepBlockidx : Nat) :
    populateLoop request nblocks left blockidx timestep timestepBlockidx =
      (positions nblocks left blockidx timestep timestepBlockidx).mapM
        (fun place => request place.1 place.2) >>= fun pgs => .ok pgs.reduceOption := by
  induction left generalizing blockidx timestep timestepBlockidx with
  | zero => rfl
  | succ left ih =>
    rw [populateLoop, positions, mapM_cons]
    dsimp only
    cases request timestep blockidx with
    | error f => rfl
    | ok pg =>
      have hsplit : ∀ pgs : List (Nat × Nat), (((pgs.mapM fun place => request place.1 place.2) >>=
          fun pgs => .ok pgs.reduceOption) >>= fun pgs => .ok (pg.toList ++ pgs)) =
          (((pgs.mapM fun place => request place.1 place.2) >>= fun pgs => .ok (pg :: pgs)) >>=
            fun pgs => (.ok pgs.reduceOption : Except Fault (List R))) := fun pgs => by
        cases pgs.mapM fun place => request place.1 place.2 with
        | error f => rfl
        | ok rs =>
          cases pg with
          | none => rfl
          | some pg => rfl
      rw [ok_bind, ok_bind, ih, ih]
      by_cases hlast : timestepBlockidx + 1 = nblocks.getD timestep 0
      · rw [if_pos hlast, if_pos hlast]
        exact hsplit _
      · rw [if_neg hlast, if_neg hlast]
        exact hsplit _

theorem positions_eq {nblocks : List Nat} {timestep : Nat} (start i : Nat) {left : Nat}
    (h : i + left = nblocks.getD timestep 0) :
    positions nblocks left (start + i) timestep i =
      (List.range' i left).map fun j => (timestep, start + j) := by
  induction left generalizing i with
  | zero => rfl
  | succ left ih =>
    rw [positions, range'_succ, map_cons]
    refine congrArg ((timestep, start + i) :: ·) ?_
    by_cases hlast : i + 1 = nblocks.getD timestep 0
    · obtain rfl : left = 0 := by omega
      rw [if_pos hlast]
      rfl
    · rw [if_neg hlast, Nat.add_assoc]
      exact ih (i + 1) (by omega)

theorem GlobalRead.populateReadRequest_eq {s : GlobalRead} (h : 0 < s.nsteps)
    (hle : s.fromSteps + s.nsteps ≤ s.v.nblocks.length) :
    s.populateReadRequest =
      (positions s.v.nblocks ((s.v.nblocks.take (s.fromSteps + s.nsteps)).sum -
        (s.v.nblocks.take s.fromSteps).sum) (s.v.nblocks.take s.fromSteps).sum s.fromSteps 0).mapM
          (fun place => s.generateReadRequestForPg place.1 place.2) >>=
        fun pgs => .ok pgs.reduceOption := by
  unfold populateReadRequest
  rw [if_neg (Nat.not_lt.mpr hle), computeBlockidxRange_eq (by omega) hle]
  exact populateLoop_eq _ _ _ _ _ _

/-! ## What a sieving read brings -/

def Variable.sievedBlock (v : Variable) (timestep b : Nat) (startOff endOff : UInt64)
    (stored : Contents) : Datablock :=
  ⟨timestep, ⟨b, 1, 0, 0, 0⟩, startOff, fun a => stored b ((startOff.toNat * v.size : Nat) + a),
    (endOff.toNat - startOff.toNat) * v.size⟩

section

variable {v : Variable} {timestep b : Nat} {startOff endOff : UInt64} {stored : Contents}

theorem PgReadRequest.completed_sieving {mallocZero : Bool} {pg : PgReadRequest}
    (hidx : pg.blockidx = b) (hblock : b < v.nblocks.sum) (hlt : startOff.toNat < endOff.toNat)
    (hle : endOff.toNat ≤ v.volume b) :
    pg.completed mallocZero stored
      ⟨startOff * getTypeSize v.origType none, (endOff - startOff) * getTypeSize v.origType none,
        startOff⟩ = .ok (v.sievedBlock pg.timestep b startOff endOff stored) := by
  have hsub : (endOff - startOff).toNat = endOff.toNat - startOff.toNat :=
    UInt64.toNat_sub_of_le _ _ (UInt64.le_iff_toNat_le.mpr (Nat.le_of_lt hlt))
  have hfirst := @Variable.toNat_mul_size v b startOff hblock (by omega)
  have hcount := @Variable.toNat_mul_size v b (endOff - startOff) hblock (by omega)
  rw [hsub] at hcount
  have hmallocs : mallocs mallocZero ((endOff.toNat - startOff.toNat) * v.size) = true :=
    mallocs_of_pos _ (Nat.mul_pos (by omega) v.size_pos)
  unfold PgReadRequest.completed PgReadRequest.pgWriteblockSel
  dsimp only
  rw [hcount, hfirst, if_neg (not_not.mpr hmallocs), hidx]
  rfl

theorem Variable.element_sievedBlock (stored : Contents) (around : Memory) {n : Nat}
    (hle : startOff.toNat ≤ n) (hlt : n < endOff.toNat) :
    element ((v.sievedBlock timestep b startOff endOff stored).memory around) v.size
      (n - startOff.toNat) = element (stored b) v.size n := by
  refine map_congr_left fun j hj => ?_
  have hj := mem_range.mp hj
  have hroom : (n - startOff.toNat + 1) * v.size ≤
      (endOff.toNat - startOff.toNat) * v.size := Nat.mul_le_mul_right _ (by omega)
  have hsplit : n * v.size = startOff.toNat * v.size + (n - startOff.toNat) * v.size := by
    rw [← Nat.add_mul, Nat.add_sub_cancel' hle]
  rw [Nat.add_mul _ 1, Nat.one_mul] at hroom
  refine (if_pos ⟨Int.natCast_nonneg _, ?_⟩).trans (congrArg (stored b) ?_)
  · show ((startOff.toNat * v.size : Nat) : Int) +
      (((n - startOff.toNat) * v.size + j : Nat) : Int) = (n * v.size + j : Nat)
    omega
  · show (((n - startOff.toNat) * v.size + j : Nat) : Int) <
      ((endOff.toNat - startOff.toNat) * v.size : Nat)
    omega

end

theorem atDistance_zero (f : Memory → Except Fault Memory) (mem : Memory) :
    atDistance 0 f mem = f mem := by
  have hzero : ((0 : UInt64).toNat : Int) = 0 := rfl
  have hmem : (fun a => mem (((0 : UInt64).toNat : Int) + a)) = mem := by
    funext a
    rw [hzero, Int.zero_add]
  unfold atDistance
  rw [hmem]
  cases f mem with
  | error e => rfl
  | ok out =>
    refine congrArg Except.ok ?_
    funext a
    show out (a - ((0 : UInt64).toNat : Int)) = out a
    rw [hzero, Int.sub_zero]

end Adios.Transforms
