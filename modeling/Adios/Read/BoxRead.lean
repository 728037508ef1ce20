import Adios.Core.Selections
import Adios.Core.PayloadSwap
import Adios.Pg.ParseHeader
import Adios.Read.Dimensions
import Adios.Wire.Memory

/-!
# Adios — reading a box and reading points

`read_var_bb` of `read_bp.c`, which reads a box of a variable for some steps, block after block, and
the case of `read_var` that reads points with it, each of them as a box of one element. The memory
is that from the pointer of the request on; what is left of the buffer after its offset is a list.
-/

namespace Adios.BoxRead

open Wire

/-! ## The file -/

/-- The bytes of a file, as many as an `MPI_Offset` counts. -/
abbrev FileBytes : Type := { bytes : List UInt8 // bytes.length < 9223372036854775808 }

/-- What `read_var_bb` finds in the file, in the program and on the stack: a subfile that cannot be
opened is none, and `varHeader` is what the header of a variable is parsed into. -/
structure Setting where
  env : ReadEnv
  fh : BpFile
  fileIsFortran : Bool
  hasSubfile : Bool
  calledFromFortran : Bool
  streaming : Bool
  currentStep : Nat
  file : FileBytes
  subfile : UInt32 → Option FileBytes
  varHeader : IndexCharacteristic

/-- `adios_error`, and a subfile that is missing. -/
inductive ReadError where
  | noDataAtTimestep (t : Int)
  | outOfBound (dimension : Nat) (count start bound : UInt64)
  | canNotOpen (fileIndex : UInt32)
  deriving DecidableEq, Repr

/-- `MPI_File_seek` and `MPI_File_read`, which counts the bytes with an `int`. -/
def mpiFileRead (file : FileBytes) (offset size : UInt64) : Except Fault (List UInt8) :=
  if size.toNat < 2147483648 then .ok ((file.val.drop offset.toNat).take size.toNat)
  else .error .outOfBounds

/-- `MPI_FILE_READ_OPS3`: the whole entry of a block without a `payload_offset`, and its header
parsed. -/
def readEntry (s : Setting) (c : IndexCharacteristic) : Except Fault (List UInt8) := do
  let first ← mpiFileRead s.file c.offset 8
  if first.length < 8 then .error .outOfBounds
  else do
    let tmpcount := s.env.host.toU64 first
    let entry ← mpiFileRead s.file c.offset (tmpcount + 8)
    let (_, rest) ← parseVarDataHeaderV1 s.env s.varHeader entry
    .ok rest

/-- What is in the buffer for a slice of the payload. A block without a `payload_offset` is read
from its start, whatever the slice is. -/
def readSlice (s : Setting) (c : IndexCharacteristic) (sliceStart sliceSize : UInt64) :
    Except Fault (Except ReadError (List UInt8)) :=
  if 0 < c.payloadOffset then
    if s.hasSubfile = false then do
      let buff ← mpiFileRead s.file (c.payloadOffset + sliceStart) sliceSize
      .ok (.ok buff)
    else
      match s.subfile c.fileIndex with
      | none => .ok (.error (.canNotOpen c.fileIndex))
      | some sfh => do
        let buff ← mpiFileRead sfh (c.payloadOffset + sliceStart) sliceSize
        .ok (.ok buff)
  else do
    let buff ← readEntry s c
    .ok (.ok buff)

/-- `memcpy` of some bytes of the buffer, and `change_endianness` where they are now. -/
def copyOut (s : Setting) (type : Datatype) (mem : Mem) (dst : Nat) (buff : List UInt8)
    (size : Nat) : Except Fault Mem :=
  if buff.length < size then .error .outOfBounds
  else if s.env.changeEndianness then
    .ok (mem.write dst (CopySubvolume.changeEndianness s.env.host (buff.take size) type))
  else .ok (mem.write dst (buff.take size))

/-! ## `copy_data` -/

def product (sizes : List UInt64) : UInt64 := sizes.foldr (· * ·) 1

/-- What `copy_data` knows of a dimension. -/
structure CopyDim where
  sizeInDset : UInt64
  ldim : UInt64
  readsize : UInt64

/-- "`for (i = 0; i < size; i++)`" for an `unsigned int`. -/
def rounds (size : UInt64) (body : UInt64 → Mem → Except Fault Mem) (mem : Mem) :
    Except Fault Mem :=
  if size.toNat < 4294967296 then
    (List.range size.toNat).foldlM (fun mem i => body (UInt64.ofNat i) mem) mem
  else .error .endless

/-- `copy_data`, with what is done to `ele_num` elements at two offsets. -/
def copyData (copy : UInt64 → UInt64 → Mem → Except Fault Mem)
    (dstStride srcStride : UInt64) : List CopyDim → UInt64 → UInt64 → Mem → Except Fault Mem
  | [], _, _ => .ok
  | [d], dstOffset, srcOffset =>
    rounds d.sizeInDset fun i => copy (i * dstStride + dstOffset) (i * srcStride + srcOffset)
  | d :: d' :: ds, dstOffset, srcOffset =>
    let srcStep := product ((d' :: ds).map (·.ldim))
    let dstStep := product ((d' :: ds).map (·.readsize))
    rounds d.sizeInDset fun i =>
      copyData copy dstStride srcStride (d' :: ds) (dstOffset + i * dstStride * dstStep)
        (srcOffset + i * srcStride * srcStep)

/-! ## A block -/

structure BoxDim where
  start : UInt64
  count : UInt64
  gdim : UInt64
  ldim : UInt64
  offset : UInt64
  deriving DecidableEq, Repr

def boxDims (start count : List UInt64) (a : DimArrays) : Except Fault (List BoxDim) :=
  (List.range start.length).mapM fun j =>
    match start[j]?, count[j]?, (if a.isGlobal then a.gdims else a.ldims)[j]?, a.ldims[j]?,
      a.offsets[j]? with
    | some start, some count, some gdim, some ldim, some offset =>
      .ok ⟨start, count, gdim, ldim, offset⟩
    | _, _, _, _, _ => .error .outOfBounds

namespace BoxDim

variable (d : BoxDim)

/-- "out of bound 1" -/
def outOfBound : Bool := d.count > d.gdim || d.start > d.gdim || d.start + d.count > d.gdim

/-- `flag`: "check if there is any data in this pg and this dimension to read in" -/
def flag : Bool :=
  (d.offset ≥ d.start && d.offset < d.start + d.count)
    || (d.offset < d.start && d.offset + d.ldim > d.start + d.count)
    || (d.offset + d.ldim > d.start && d.offset + d.ldim ≤ d.start + d.count)

def whole : Bool := d.offset = d.start && d.ldim = d.count

/-- `size_in_dset` -/
def sizeInDset : UInt64 :=
  let isize := d.offset + d.ldim
  if d.start ≥ d.offset then
    if d.start < isize then
      if d.start + d.count > isize then isize - d.start else d.count
    else 0
  -- "middle is in", "tail is in"
  else if isize < d.start + d.count then d.ldim
  else d.count + d.start - d.offset

/-- `offset_in_dset` -/
def offsetInDset : UInt64 :=
  if d.start ≥ d.offset ∧ d.start < d.offset + d.ldim then d.start - d.offset else 0

/-- `offset_in_var` -/
def offsetInVar : UInt64 := if d.start ≥ d.offset then 0 else d.offset - d.start

end BoxDim

/-- The dimensions up to the one of `hole_break`; those behind it are read whole. -/
def leading (ds : List BoxDim) : List BoxDim := (ds.reverse.dropWhile (·.whole)).reverse

/-- The last values of `start_in_payload`, `end_in_payload` and `s`. -/
def payloadRange (sizeOfType : UInt64) : List BoxDim → UInt64 × UInt64 × UInt64
  | [] => (0, 0, 1)
  | d :: ds =>
    let (startInPayload, endInPayload, s) := payloadRange sizeOfType ds
    (startInPayload + s * d.offsetInDset * sizeOfType,
      endInPayload + s * (d.offsetInDset + d.sizeInDset - 1) * sizeOfType, s * d.ldim)

def slice (sizeOfType : UInt64) (ds : List BoxDim) : Except Fault (UInt64 × UInt64) :=
  match leading ds with
  | [] => .ok (0, sizeOfType * product (ds.map (·.ldim)))
  | [d] =>
    let datasize := product ((ds.drop 1).map (·.ldim))
    .ok (d.offsetInDset * datasize * sizeOfType, d.sizeInDset * datasize * sizeOfType)
  | _ =>
    -- "`uint64_t size_in_dset[10]`"
    if 10 < ds.length then .error .outOfBounds
    else
      let (startInPayload, endInPayload, _) := payloadRange sizeOfType ds
      .ok (startInPayload, endInPayload - startInPayload + 1 * sizeOfType)

def place (s : Setting) (type : Datatype) (sizeOfType : UInt64) (ds : List BoxDim) (data : Nat)
    (buff : List UInt8) (mem : Mem) : Except Fault Mem :=
  match leading ds with
  | [] => copyOut s type mem data buff (sizeOfType * product (ds.map (·.ldim))).toNat
  | [d] =>
    let datasize := product ((ds.drop 1).map (·.ldim))
    copyOut s type mem (data + (d.offsetInVar * datasize * sizeOfType).toNat) buff
      (d.sizeInDset * datasize * sizeOfType).toNat
  | _ :: partly =>
    let holeBreak := partly.length
    let datasize := product ((ds.drop holeBreak).map (·.sizeInDset))
    let dsetStride := product ((ds.drop holeBreak).map (·.ldim))
    let varStride := product ((ds.drop holeBreak).map (·.count))
    let varOffset := ds.foldl (fun varOffset d => d.offsetInVar + varOffset * d.count) 0
    -- the buffer starts where the slice does
    let dsetOffset := ds.foldl (fun dsetOffset d => 0 + dsetOffset * d.ldim) 0
    copyData
      (fun dst src mem => copyOut s type mem (data + (dst * sizeOfType).toNat)
        (buff.drop (src * sizeOfType).toNat) (datasize * sizeOfType).toNat)
      varStride dsetStride ((ds.take holeBreak).map fun d => ⟨d.sizeInDset, d.ldim, d.count⟩)
      varOffset dsetOffset mem

def boundError (j : Nat) : List BoxDim → Option ReadError
  | [] => none
  | d :: ds =>
    if d.outOfBound then some (.outOfBound (j + 1) d.count d.start (d.gdim - 1))
    else boundError (j + 1) ds

/-- One round over the blocks, with the error before a "`return 0;`". -/
def readBlock (s : Setting) (type : Datatype) (sizeOfType : UInt64) (ds : List BoxDim)
    (c : IndexCharacteristic) (data : Nat) (mem : Mem) :
    Except Fault (Mem × Option ReadError) :=
  match boundError 0 ds with
  | some e => .ok (mem, some e)
  | none =>
    if ds.all (·.flag) = false then .ok (mem, none)
    else do
      let (sliceStart, sliceSize) ← slice sizeOfType ds
      match ← readSlice s c sliceStart sliceSize with
      | .error e => .ok (mem, some e)
      | .ok buff => do
        let mem ← place s type sizeOfType ds data buff mem
        .ok (mem, none)

/-- "loop over the list of pgs to read from one-by-one"; of a local array it is the first one. -/
def readBlocks (s : Setting) (type : Datatype) (sizeOfType : UInt64) (start count : List UInt64)
    (data : Nat) : List IndexCharacteristic → Mem → Except Fault (Mem × Option ReadError)
  | [], mem => .ok (mem, none)
  | c :: cs, mem => do
    let a ← bpGetDimensionGenericNotime c.dims s.fileIsFortran
    let ds ← boxDims start count a
    let (mem, e) ← readBlock s type sizeOfType ds c data mem
    if e.isSome ∨ a.isGlobal = false then .ok (mem, e)
    else readBlocks s type sizeOfType start count data cs mem

/-! ## The steps -/

/-- The memory, where `data` points in it, and the errors. -/
structure Progress where
  mem : Mem
  data : Nat
  errors : List ReadError

def stepTime (s : Setting) (v : IndexEntry) (t : Int) : Except Fault Int :=
  if s.streaming then .ok (cut32 (s.fh.tidxStart.toNat + t)) else VarSteps.getTime v t

def stepBlocks (s : Setting) (v : IndexEntry) (t : Int) :
    Except Fault (Option (List IndexCharacteristic)) := do
  let time ← stepTime s v t
  let startIdx := VarSteps.getVarStartIndex v time
  let stopIdx := VarSteps.getVarStopIndex v time
  if startIdx < 0 ∨ stopIdx < 0 then .ok none
  else .ok (some ((v.characteristics.drop startIdx.toNat).take (stopIdx - startIdx + 1).toNat))

/-- `bp_get_type_size (type, value)` -/
def typeSize (type : Datatype) (value : Option (List UInt8)) : UInt64 :=
  if type = .string then
    match value with
    | none => 1
    | some value => UInt64.ofInt (cut32 (strlen value + 1))
  else CopySubvolume.bpGetTypeSize type

/-- "READ A SCALAR VARIABLE", in each of the steps. Its size is one less for every step of a
string. -/
def readScalars (s : Setting) (v : IndexEntry) :
    List Int → UInt64 → Progress → Except Fault (Bool × Progress)
  | [], _, p => .ok (true, p)
  | t :: ts, sizeOfType, p => do
    match ← stepBlocks s v t with
    | none =>
      let p := { p with errors := p.errors ++ [.noDataAtTimestep t] }
      readScalars s v ts sizeOfType p
    | some [] => .error .outOfBounds
    | some (c :: _) => do
      let size := if v.type = .string then sizeOfType - 1 else sizeOfType
      match ← readSlice s c 0 sizeOfType with
      | .error e => .ok (false, { p with errors := p.errors ++ [e] })
      | .ok buff => do
        let mem ← copyOut s v.type p.mem p.data buff size.toNat
        if v.type = .string then
          let mem := mem.write (p.data + size.toNat) [0]
          readScalars s v ts size { p with mem, data := p.data + (size + 1).toNat }
        else readScalars s v ts size { p with mem, data := p.data + size.toNat }

/-- "READ AN ARRAY VARIABLE", in each of the steps; false for a "`return 0;`". -/
def readArrays (s : Setting) (v : IndexEntry) (sizeOfType : UInt64) (start count : List UInt64) :
    List Int → Progress → Except Fault (Bool × Progress)
  | [], p => .ok (true, p)
  | t :: ts, p => do
    match ← stepBlocks s v t with
    | none =>
      let p := { p with errors := p.errors ++ [.noDataAtTimestep t] }
      readArrays s v sizeOfType start count ts p
    | some blocks => do
      let (mem, e) ← readBlocks s v.type sizeOfType start count p.data blocks p.mem
      match e with
      | some e => .ok (false, { p with mem, errors := p.errors ++ [e] })
      | none =>
        let p := { p with mem, data := p.data + (product count * sizeOfType).toNat }
        readArrays s v sizeOfType start count ts p

/-- The steps that `t` goes through. -/
def stepsFrom (s : Setting) (fromSteps nsteps : Nat) : List Int :=
  (List.range nsteps).map fun k => ((s.currentStep + fromSteps + k : Nat) : Int)

/-- `bp_get_type_size` for the first characteristics. -/
def sizeOfType (v : IndexEntry) : Except Fault UInt64 :=
  match v.characteristics with
  | [] => .error .outOfBounds
  | c :: _ => .ok (typeSize v.type c.value)

/-- `read_var_bb`, with true for a chunk. -/
def readVarBb (s : Setting) (v : IndexEntry) (start count : List UInt64) (fromSteps nsteps : Nat)
    (p : Progress) : Except Fault (Bool × Progress) := do
  let stream := if s.streaming then some (UInt32.ofNat (s.currentStep + 1)) else none
  let dims ← bpGetDimensionsGeneric s.fh v stream false
  if dims.ndim ≠ start.length then .error .assertion
  else do
    let size ← sizeOfType v
    if start.length = 0 then readScalars s v (stepsFrom s fromSteps nsteps) size p
    else if s.calledFromFortran then
      readArrays s v size (swapOrder start) (swapOrder count) (stepsFrom s fromSteps nsteps) p
    else readArrays s v size start count (stepsFrom s fromSteps nsteps) p

/-- The loop of `read_var` over the points: a box of one element for each, and `data` moves on by
one element. What `read_var_bb` returns is not looked at. -/
def readPoints (s : Setting) (v : IndexEntry) (size : UInt64) (fromSteps nsteps : Nat) :
    List (List UInt64) → Progress → Except Fault Progress
  | [], p => .ok p
  | start :: points, p => do
    let (_, q) ← readVarBb s v start (List.replicate start.length 1) fromSteps nsteps p
    readPoints s v size fromSteps nsteps points { q with data := p.data + size.toNat }

/-- `read_var` of points, for memory that starts where the data of the request does. -/
def readVarPoints (s : Setting) (v : IndexEntry) (pts : Selections.Points)
    (fromSteps nsteps : Nat) (mem : Mem) : Except Fault Progress := do
  let size ← sizeOfType v
  readPoints s v size fromSteps nsteps (Selections.chunks pts.ndim pts.npoints pts.points)
    { mem, data := 0, errors := [] }

end Adios.BoxRead
