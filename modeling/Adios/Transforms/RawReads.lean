import Adios.Core.CopySubvolume
import Adios.Core.Sieving

/-!
# Transforms — raw reads of process groups

How a read of a transformed variable gets to the bytes of a process group. The identity transform,
which leaves the data as it is, reads them from the first to behind the last element that is
selected, and makes a datablock of what has been read; `ragged_offset` is the place of the first
element in the process group.
-/

namespace Adios.Transforms

open List Grid Selections Sieving Subvolume WriteBlocks UInt64

/-! ## The variable -/

/-- What `raw_varinfo` and `transinfo` say about a variable that is transformed. -/
structure Variable where
  /-- the number of blocks in each step -/
  nblocks : List Nat
  /-- `start` and `count` of each block, one step after the other -/
  origBlockinfo : List (List Segment)
  origType : Datatype
  /-- `sum_nblocks` is an `int`. -/
  total : nblocks.sum < 2147483648
  length : origBlockinfo.length = nblocks.sum
  /-- Transforms are for arrays of numbers. -/
  numeric : origType.IsNumeric
  /-- The bytes of a block can be counted. -/
  fits : ∀ vb ∈ origBlockinfo,
    Grid.volume (sizes (vb.map Segment.span)) * (getTypeSize origType none).toNat <
      18446744073709551616

namespace Variable

variable (v : Variable)

def size : Nat := (getTypeSize v.origType none).toNat

def bounds (b : Nat) : List Segment := v.origBlockinfo[b]?.getD []

def volume (b : Nat) : Nat := Grid.volume (sizes ((v.bounds b).map Segment.span))

def varinfo : Varinfo := ⟨v.nblocks, v.volume, v.total⟩

/-- "`&transinfo->orig_blockinfo[blockidx]`", of which `start` and `count` are read. -/
def varblock (blockidx : Int) : Except Fault (List Segment) :=
  if blockidx < 0 then .error .outOfBounds
  else
    match v.origBlockinfo[blockidx.toNat]? with
    | some vb => .ok vb
    | none => .error .outOfBounds

/-- `compute_absolute_blockidx_from_relative_blockidx` -/
def absoluteBlockidx (timestep timestepBlockidx : Int) : Option Int :=
  if timestep < 0 ∨ (v.nblocks.length : Int) ≤ timestep then none
  else if ((v.nblocks.getD timestep.toNat 0 : Nat) : Int) ≤ timestepBlockidx then none
  else some ((v.nblocks.take timestep.toNat).sum + timestepBlockidx)

/-- The loop of `compute_relative_blockidx_from_absolute_blockidx`, from a step on. -/
def relativeBlockidxLoop (blockidx : Int) : Nat → Int → List Nat → Option (Nat × Int)
  | _, _, [] => none
  | timestep, curblocks, n :: nblocks =>
    if blockidx < curblocks + n then some (timestep, blockidx - curblocks)
    else relativeBlockidxLoop blockidx (timestep + 1) (curblocks + n) nblocks

/-- `compute_relative_blockidx_from_absolute_blockidx`: the step, and the number in it. -/
def relativeBlockidx (blockidx : Int) : Option (Nat × Int) :=
  relativeBlockidxLoop blockidx 0 0 v.nblocks

def rawVarLength (blockidx : Int) : UInt64 := UInt64.ofNat (v.volume blockidx.toNat * v.size)

end Variable

abbrev Contents := Nat → CopySubvolume.Memory

/-! ## Requests -/

/-- `adios_transform_pg_read_request` -/
structure PgReadRequest where
  timestep : Nat
  blockidx : Int
  rawVarLength : UInt64
  pgIntersectionSel : PgSelection
  pgBoundsSel : List Segment

/-- `pg_writeblock_sel`: a whole block, "using the absolute PG index". -/
def PgReadRequest.pgWriteblockSel (pg : PgReadRequest) : WriteBlock := ⟨pg.blockidx, 1, 0, 0, 0⟩

/-- `adios_transform_raw_read_request`: bytes of a process group, and what `transform_internal`
keeps of a sieving read. -/
structure RawReadRequest where
  elementOffset : UInt64
  nelements : UInt64
  transformInternal : UInt64

/-- `adios_transform_raw_read_request_new_byte_segment`: "Catch any bugs that cause wrap-around
early" -/
def PgReadRequest.newByteSegment (pg : PgReadRequest) (start count internal : UInt64) :
    Except Fault RawReadRequest :=
  if start ≤ pg.rawVarLength ∧ count ≤ pg.rawVarLength ∧ start + count ≤ pg.rawVarLength then
    .ok ⟨start, count, internal⟩
  else .error .assertion

/-- `adios_transform_generate_read_subrequests_over_original_data` with "`Is sieving`", from the
first byte of the process group on. -/
def PgReadRequest.generateSieving (pg : PgReadRequest) (type : Datatype) :
    Except Fault RawReadRequest := do
  let (startOff, endOff) ← computeSievingOffsets pg.pgIntersectionSel pg.pgBoundsSel
  let datumSize := getTypeSize type none
  let buflen := (endOff - startOff) * datumSize
  pg.newByteSegment (startOff * datumSize) buflen startOff

/-- `adios_datablock`. The data are in a buffer from `malloc`, which ends somewhere. -/
structure Datablock where
  timestep : Nat
  bounds : WriteBlock
  raggedOffset : UInt64
  data : CopySubvolume.Memory
  buflen : Nat

/-- `adios_transform_pg_reqgroup_completed_over_original_data` when the sieving read has brought the
bytes that are stored, and "`assert(data)`" of `adios_datablock_new_ragged_offset`. -/
def PgReadRequest.completed (pg : PgReadRequest) (mallocZero : Bool) (stored : Contents)
    (subreq : RawReadRequest) : Except Fault Datablock :=
  if ¬mallocs mallocZero subreq.nelements.toNat then .error .assertion
  else .ok ⟨pg.timestep, pg.pgWriteblockSel, subreq.transformInternal,
    fun a => stored pg.blockidx.toNat (subreq.elementOffset.toNat + a), subreq.nelements.toNat⟩

/-! ## Blocks and steps -/

theorem sum_take_add_le (nblocks : List Nat) {t u : Nat} (h : t < u) :
    (nblocks.take t).sum + nblocks.getD t 0 ≤ (nblocks.take u).sum := by
  induction nblocks generalizing t u with
  | nil => exact Nat.le_of_eq (by rw [take_nil, take_nil]; rfl)
  | cons n nblocks ih =>
    obtain ⟨u, rfl⟩ := Nat.exists_eq_add_of_lt (Nat.zero_lt_of_lt h)
    rw [Nat.zero_add, take_succ_cons, sum_cons]
    cases t with
    | zero =>
      rw [take_zero, sum_nil, getD_cons_zero]
      omega
    | succ t =>
      have hrest := @ih t u (by omega)
      rw [take_succ_cons, sum_cons, getD_cons_succ]
      omega

theorem sum_take_succ (nblocks : List Nat) (t : Nat) :
    (nblocks.take (t + 1)).sum = (nblocks.take t).sum + nblocks.getD t 0 := by
  rw [take_add_one, sum_append, getD_eq_getElem?_getD]
  cases nblocks[t]? <;> rfl

theorem step_unique {nblocks : List Nat} {t t' i i' : Nat} (hi : i < nblocks.getD t 0)
    (hi' : i' < nblocks.getD t' 0)
    (h : (nblocks.take t).sum + i = (nblocks.take t').sum + i') : t = t' ∧ i = i' := by
  rcases Nat.lt_trichotomy t t' with hcase | rfl | hcase
  · have hle := sum_take_add_le nblocks hcase
    omega
  · exact ⟨rfl, Nat.add_left_cancel h⟩
  · have hle := sum_take_add_le nblocks hcase
    omega

theorem lt_length_of_lt_getD {nblocks : List Nat} {t i : Nat} (h : i < nblocks.getD t 0) :
    t < nblocks.length := by
  by_contra hge
  rw [getD_eq_getElem?_getD, getElem?_eq_none (Nat.not_lt.mp hge)] at h
  exact Nat.not_lt_zero i h

namespace Variable

variable {v : Variable}

theorem size_pos (v : Variable) : 0 < v.size := by
  have hmem := getTypeSize_mem v.numeric none
  simp only [mem_cons, not_mem_nil, or_false] at hmem
  unfold size
  omega

section

variable {b : Nat} (h : b < v.nblocks.sum)

include h

theorem varblock_eq : v.varblock b = .ok (v.bounds b) := by
  have hlt : b < v.origBlockinfo.length := by rwa [v.length]
  unfold varblock bounds
  rw [if_neg (by omega), Int.toNat_natCast, getElem?_eq_getElem hlt]
  rfl

theorem volume_mul_size_lt :
    v.volume b * v.size < 18446744073709551616 := by
  have hlt : b < v.origBlockinfo.length := by rwa [v.length]
  have hmem : v.bounds b ∈ v.origBlockinfo := by
    unfold bounds
    rw [getElem?_eq_getElem hlt]
    exact getElem_mem hlt
  exact v.fits _ hmem

theorem volume_lt : v.volume b < 18446744073709551616 :=
  Nat.lt_of_le_of_lt (Nat.le_mul_of_pos_right _ v.size_pos) (v.volume_mul_size_lt h)

theorem computeVolume_bounds :
    (computeVolume ((v.bounds b).map Segment.count)).toNat = v.volume b := by
  have hlt := volume_lt h
  unfold volume at hlt ⊢
  rw [sizes_span] at hlt ⊢
  exact computeVolume_eq hlt

end

theorem block_lt {t i : Nat} (h : i < v.nblocks.getD t 0) :
    (v.nblocks.take t).sum + i < v.nblocks.sum := by
  have hlt := lt_length_of_lt_getD h
  have hle := sum_take_add_le v.nblocks hlt
  rw [take_length] at hle
  omega

theorem toNat_mul_size {b : Nat} {x : UInt64} (hlt : b < v.nblocks.sum) (h : x.toNat ≤ v.volume b) :
    (x * getTypeSize v.origType none).toNat = x.toNat * v.size := by
  have hbytes := volume_mul_size_lt hlt
  have hle := Nat.mul_le_mul_right v.size h
  rw [UInt64.toNat_mul]
  exact Nat.mod_eq_of_lt (Nat.lt_of_le_of_lt hle hbytes)

theorem toNat_rawVarLength {b : Nat} (h : b < v.nblocks.sum) :
    (v.rawVarLength b).toNat = v.volume b * v.size :=
  toNat_ofNat_of_lt' (volume_mul_size_lt h)

end Variable

theorem PgReadRequest.generateSieving_eq {v : Variable} {b : Nat} {pg : PgReadRequest}
    {startOff endOff : UInt64} (hlt : b < v.nblocks.sum)
    (hlength : pg.rawVarLength = v.rawVarLength b) (hcompute :
      computeSievingOffsets pg.pgIntersectionSel pg.pgBoundsSel = .ok (startOff, endOff))
    (hle : startOff.toNat ≤ endOff.toNat) (hwithin : endOff.toNat ≤ v.volume b) :
    pg.generateSieving v.origType = .ok ⟨startOff * getTypeSize v.origType none,
      (endOff - startOff) * getTypeSize v.origType none, startOff⟩ := by
  have hsub : (endOff - startOff).toNat = endOff.toNat - startOff.toNat :=
    UInt64.toNat_sub_of_le _ _ (le_iff_toNat_le.mpr hle)
  have hfirst := @Variable.toNat_mul_size v b startOff hlt (by omega)
  have hcount := @Variable.toNat_mul_size v b (endOff - startOff) hlt (by omega)
  have hbytes := Variable.volume_mul_size_lt hlt
  have hsum := Nat.mul_le_mul_right v.size hwithin
  have hsplit : endOff.toNat = startOff.toNat + (endOff.toNat - startOff.toNat) := by omega
  rw [hsub] at hcount
  rw [hsplit, Nat.add_mul] at hsum
  unfold generateSieving newByteSegment
  rw [hcompute, ok_bind]
  refine if_pos ?_
  simp only [le_iff_toNat_le]
  rw [UInt64.toNat_add, hfirst, hcount, hlength, Variable.toNat_rawVarLength hlt]
  omega

theorem isNumeric_byte : Datatype.byte.IsNumeric := by decide

theorem sum_one_lt : [1].sum < 2147483648 := by decide

end Adios.Transforms
