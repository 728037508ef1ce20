import Adios.Read.BoxRead
import Adios.Read.SeekStep

/-!
# Adios — reading a write block

`read_var_wb` of `read_bp.c`, with `adios_wbidx_to_pgidx`: a block is known by its place among the
blocks of a step, or among all blocks of a file, and read for some steps. The memory is that from
the pointer of the request on.
-/

namespace Adios.WriteBlock

open List BoxRead VarSteps Wire

/-! ## The code -/

/-- `ADIOS_SELECTION_WRITEBLOCK_STRUCT` -/
structure Selection where
  index : Int
  isAbsoluteIndex : Bool
  isSubPgSelection : Bool
  elementOffset : UInt64
  nelements : UInt64
  deriving DecidableEq, Repr

/-- The loop of `adios_wbidx_to_pgidx` over the times up to the stop index. -/
def wbidxLoop (time : UInt32) (ridx : Int) : Nat → Int → List UInt32 → Nat
  | idx, _, [] => idx
  | idx, c, t :: ts =>
    let c := if t = time then c + 1 else c
    if c < ridx then wbidxLoop time ridx (idx + 1) c ts else idx

/-- `adios_wbidx_to_pgidx` at a time. Without any blocks the loop starts at -1, for which the times
are read. -/
def pgidxAt (v : IndexEntry) (time ridx : Int) : Except Fault Int :=
  let startIdx := getVarStartIndex v time
  let stopIdx := getVarStopIndex v time
  if startIdx < 0 ∨ stopIdx < 0 then .error .outOfBounds
  else
    .ok (wbidxLoop (UInt32.ofInt time) ridx startIdx.toNat (-1)
      (((times v).drop startIdx.toNat).take (stopIdx - startIdx + 1).toNat))

/-- `adios_wbidx_to_pgidx`. The id is mapped once more: for a file that changes nothing, and for a
stream the variable is not looked at. -/
def adiosWbidxToPgidx (s : Setting) (v : IndexEntry) (wb : Selection) (step : Nat) :
    Except Fault Int := do
  let time ← SeekStep.stepToTime s.streaming s.currentStep step v
  pgidxAt v time wb.index

/-- `idx` of `read_var_wb`: the blocks of a stream are always counted in the step. -/
def pgidx (s : Setting) (v : IndexEntry) (wb : Selection) (step : Nat) : Except Fault Int :=
  if wb.isAbsoluteIndex ∧ s.streaming = false then .ok wb.index else adiosWbidxToPgidx s v wb step

def blockFile (s : Setting) (c : IndexCharacteristic) : Option FileBytes :=
  if s.hasSubfile then s.subfile c.fileIndex else some s.file

/-- `MPI_FILE_READ_OPS1` and `MPI_FILE_READ_OPS2`, and those with `_BUF`. -/
def readOps (s : Setting) (c : IndexCharacteristic) (sliceOffset sliceSize : UInt64) :
    Except Fault (Except ReadError (List UInt8)) :=
  match blockFile s c with
  | none => .ok (.error (.canNotOpen c.fileIndex))
  | some f => do
    let bytes ← mpiFileRead f sliceOffset sliceSize
    return .ok bytes

/-- The memory, and where `data` points in it. -/
structure Place where
  mem : Mem
  data : Nat

/-- "`ndim == 0`" -/
def readScalar (s : Setting) (type : Datatype) (c : IndexCharacteristic) (p : Place) :
    Except Fault (Except ReadError Place) := do
  let sizeOfType := typeSize type c.value
  match ← readOps s c c.payloadOffset sizeOfType with
  | .error e => return .error e
  | .ok buff =>
    let size := if type = .string then sizeOfType - 1 else sizeOfType
    let mem ← copyOut s type p.mem p.data buff size.toNat
    let mem := if type = .string then mem.write (p.data + size.toNat) [0] else mem
    return .ok { mem, data := p.data + size.toNat }

/-- `slice_size` of an array: "`uint64_t ldims[32]`" -/
def sliceSize (type : Datatype) (wb : Selection) (c : IndexCharacteristic) : Except Fault UInt64 :=
  let sizeOfType := typeSize type c.value
  if wb.isSubPgSelection then .ok (wb.nelements * sizeOfType)
  else if 32 < c.dims.count.toNat then .error .outOfBounds
  else do
    let a ← bpGetDimensionGeneric c.dims
    return a.ldims.foldl (· * ·) sizeOfType

/-- `change_endianness` of some bytes of the memory. -/
def swapInPlace (s : Setting) (type : Datatype) (mem : Mem) (data size : Nat) : Mem :=
  if s.env.changeEndianness then
    mem.write data (CopySubvolume.changeEndianness s.env.host (mem.read data size) type)
  else mem

/-- An array is read directly to where `data` points. -/
def readArray (s : Setting) (type : Datatype) (wb : Selection) (c : IndexCharacteristic)
    (p : Place) : Except Fault (Except ReadError Place) := do
  let size ← sliceSize type wb c
  let sliceOffset :=
    if wb.isSubPgSelection then c.payloadOffset + wb.elementOffset * typeSize type c.value
    else c.payloadOffset
  match ← readOps s c sliceOffset size with
  | .error e => return .error e
  | .ok bytes =>
    return .ok { p with mem := swapInPlace s type (p.mem.write p.data bytes) p.data size.toNat }

/-- One round of `read_var_wb`. -/
def readOne (s : Setting) (type : Datatype) (wb : Selection) (c : IndexCharacteristic) (p : Place) :
    Except Fault (Except ReadError Place) :=
  if c.dims.count = 0 then readScalar s type c p else readArray s type wb c p

/-- The steps of `read_var_wb`, with the error before a "`return 0;`". -/
def readSteps (s : Setting) (v : IndexEntry) (wb : Selection) :
    List Nat → Place → Except Fault (Except ReadError Place)
  | [], p => .ok (.ok p)
  | step :: steps, p => do
    let idx ← pgidx s v wb step
    if idx < 0 then .error .assertion
    else
      match v.characteristics[idx.toNat]? with
      | none => .error .outOfBounds
      | some c =>
        match ← readOne s v.type wb c p with
        | .error e => return .error e
        | .ok p => readSteps s v wb steps p

/-- `read_var_wb`: the memory, and `data` of the chunk. -/
def readVarWb (s : Setting) (v : IndexEntry) (wb : Selection) (fromSteps nsteps : Nat) (mem : Mem) :
    Except Fault (Except ReadError Place) :=
  readSteps s v wb ((List.range nsteps).map (fromSteps + ·)) { mem, data := 0 }

/-! ## The block at a time -/

def nblocksAt (v : IndexEntry) (time : Int) : Nat := (times v).count (UInt32.ofInt time)

theorem wbidxLoop_replicate (time : UInt32) (ridx : Int) (n idx : Nat) (c : Int) :
    wbidxLoop time ridx idx c (List.replicate n time) = idx + min n (ridx - (c + 1)).toNat := by
  induction n generalizing idx c with
  | zero =>
    rw [Nat.zero_min]
    rfl
  | succ n ih =>
    rw [replicate_succ, wbidxLoop, if_pos rfl]
    split_ifs with hlt
    · rw [ih]
      omega
    · have hzero : (ridx - (c + 1)).toNat = 0 := by omega
      rw [hzero, Nat.min_zero]
      rfl

structure BlocksAt (v : IndexEntry) (time : Int) (start n : Nat) : Prop where
  start_eq : getVarStartIndex v time = start
  pos : 0 < n
  time_eq {i : Nat} : start ≤ i → i < start + n → (times v)[i]? = some (UInt32.ofInt time)
  mem_range {i : Nat} : (times v)[i]? = some (UInt32.ofInt time) → start ≤ i ∧ i < start + n

theorem startLoop_of_notMem {t : UInt32} {us : List UInt32} (h : t ∉ us) (i : Nat) :
    startLoop t i us = -1 := by
  have happend := startLoop_append h i []
  rw [append_nil] at happend
  exact happend

theorem getVarStartIndex_toNat (v : IndexEntry) (time : Int) :
    getVarStartIndex v (UInt32.ofInt time).toNat = getVarStartIndex v time := by
  rw [getVarStartIndex, getVarStartIndex, ofInt_toNat]

theorem getVarStopIndex_toNat (v : IndexEntry) (time : Int) :
    getVarStopIndex v (UInt32.ofInt time).toNat = getVarStopIndex v time := by
  rw [getVarStopIndex, getVarStopIndex, ofInt_toNat]

theorem pgidxAt_cases {v : IndexEntry} (h : (times v).Pairwise fun t u => t.toNat ≤ u.toNat)
    (time ridx : Int) :
    (nblocksAt v time = 0 ∧ pgidxAt v time ridx = .error .outOfBounds) ∨
      ∃ start, BlocksAt v time start (nblocksAt v time) ∧
        pgidxAt v time ridx =
          .ok (start + min (nblocksAt v time) ridx.toNat : Nat) := by
  by_cases hmem : UInt32.ofInt time ∈ times v
  · refine .inr ?_
    obtain ⟨bs, htimes, hbs⟩ :=
      Lists.exists_expand (fun a b heq => UInt32.toNat_inj.mp heq) h
    rw [htimes] at hmem
    obtain ⟨⟨t, n⟩, hb, ht⟩ := Lists.mem_expand hmem
    obtain ⟨n, rfl⟩ := Nat.exists_eq_succ_of_ne_zero (Nat.ne_of_gt (hbs.positive _ hb))
    obtain ⟨before, behind, rfl⟩ := append_of_mem hb
    dsimp only at ht
    obtain ⟨hstart, hstop⟩ := range_of_block hbs htimes
    obtain ⟨hbefore, hbehind⟩ := notMem_of_blocks hbs
    rw [ht] at hstart hstop hbefore hbehind htimes
    rw [getVarStartIndex_toNat] at hstart
    rw [getVarStopIndex_toNat] at hstop
    -- the times of the block stand between those before and behind
    have hsplit : times v = Lists.expand before ++
        (List.replicate (n + 1) (UInt32.ofInt time) ++ Lists.expand behind) := by
      rw [htimes, Lists.expand_append, Lists.expand]
    have hlength := Lists.length_expand before
    have hcount : nblocksAt v time = n + 1 := by
      rw [nblocksAt, hsplit, count_append, count_append, count_replicate_self,
        count_eq_zero_of_not_mem hbefore, count_eq_zero_of_not_mem hbehind]
      omega
    rw [hcount]
    refine ⟨Lists.total before, ⟨hstart, Nat.succ_pos n, fun hlo hhi => ?_, fun hi => ?_⟩, ?_⟩
    · rw [hsplit, getElem?_append_right (by omega), getElem?_append_left (by simp; omega),
        getElem?_replicate, if_pos (by omega)]
    · rw [hsplit] at hi
      constructor
      · by_contra hlt
        rw [getElem?_append_left (by omega)] at hi
        exact hbefore (mem_of_getElem? hi)
      · by_contra hlt
        rw [getElem?_append_right (by omega), getElem?_append_right (by simp; omega)] at hi
        exact hbehind (mem_of_getElem? hi)
    · have hneg : ¬((Lists.total before : Int) < 0 ∨
          ((Lists.total before + n : Nat) : Int) < 0) := by omega
      have hlen : (((Lists.total before + n : Nat) : Int) - Lists.total before + 1).toNat =
          n + 1 := by omega
      have hridx : (ridx - (-1 + 1)).toNat = ridx.toNat := by omega
      rw [pgidxAt, hstart, hstop, if_neg hneg, hlen, Int.toNat_natCast, hsplit,
        drop_left' hlength, take_left' length_replicate, wbidxLoop_replicate, hridx]
  · refine .inl ⟨count_eq_zero_of_not_mem hmem, ?_⟩
    rw [pgidxAt, getVarStartIndex, startLoop_of_notMem hmem]
    exact if_pos (.inl (by decide))

end Adios.WriteBlock
