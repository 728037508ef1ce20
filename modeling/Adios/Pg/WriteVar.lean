import Adios.Index.Merge
import Adios.Pg.Write

/-!
# Adios — writing a variable

`adios_write`, from the user's data to the buffer: the statistics of the data, the transform that
makes something else of it, header and payload, the methods that are told of it, and the copy of
the variable for the index. The statistics themselves, what a transform makes of the data and what
the methods report are parameters (`Writer`).
-/

namespace Adios

open Heap Wire

/-! ## References -/

def VarRef.current (vars : List Var) (r : VarRef) : VarRef :=
  match vars.find? fun v => v.id = r.id with
  | some v => { r with type := v.type, data := v.data }
  | none => r

def DimensionItem.current (vars : List Var) (d : DimensionItem) : DimensionItem :=
  { d with
    var := d.var.map (VarRef.current vars)
    attr := d.attr.map fun attr => { attr with var := attr.var.map (VarRef.current vars) } }

def Dimension.current (vars : List Var) (d : Dimension) : Dimension where
  dimension := d.dimension.current vars
  globalDimension := d.globalDimension.current vars
  localOffset := d.localOffset.current vars

def Var.current (vars : List Var) (v : Var) : Var :=
  { v with
    dimensions := v.dimensions.map (Dimension.current vars)
    preTransformDimensions := v.preTransformDimensions.map (Dimension.current vars) }

/-! ## Errors

Where a value that a dimension refers to is missing or is no number, the size is 0 and
`adios_errno` is set. -/

/-- `adios_get_dim_value` calls `adios_error`. -/
def dimValueError (m : Machine) (d : DimensionItem) : Bool :=
  match d.var, d.attr with
  | some var, _ => (castVarDataAsUint64 m var.type var.data).isNone
  | none, some attr =>
    match attr.var with
    | some var => (castVarDataAsUint64 m var.type var.data).isNone
    | none => (castVarDataAsUint64 m attr.type (some attr.value)).isNone
  | none, none => false

def Dimension.valueError (m : Machine) (d : Dimension) : Bool :=
  dimValueError m d.dimension || dimValueError m d.globalDimension
    || dimValueError m d.localOffset

/-- `adios_get_dimension_space_size` calls `adios_error`. -/
def spaceSizeError (m : Machine) (ds : List Dimension) : Bool :=
  (ds.foldlM (fun size d => multiplyDimension m size d.dimension) (1 : UInt64)).isNone

def statSizeError (m : Machine) (v : Var) : Bool :=
  spaceSizeError m (if v.transformType ≠ .none then v.preTransformDimensions else v.dimensions)

/-- `adios_write_var_header_v1` calls `adios_error`. -/
def headerError (m : Machine) (v : Var) : Bool :=
  spaceSizeError m v.dimensions
    || (v.type ≠ .string && v.dimensions.any (Dimension.valueError m))
    || (v.type ≠ .string && v.transformType ≠ .none
      && v.preTransformDimensions.any (Dimension.valueError m))

/-! ## What is around the writer -/

/-- What the plugin of a transform does: it fails, puts the result into the buffer behind the
offset, or leaves it in `v->data`. -/
inductive Applied where
  | failed (scratch : List UInt8)
  | shared (payload : List UInt8)
  | own (data : List UInt8)
  deriving DecidableEq, Repr

/-- What the plugin leaves: beside the result, what it put into the metadata and whether it called
`adios_error`. -/
structure TransformApplied where
  result : Applied
  metadata : List UInt8
  error : Bool
  deriving DecidableEq, Repr

/-- `enum ADIOS_METHOD_MODE` -/
inductive Mode where
  | write | read | update | append
  deriving DecidableEq, Repr

/-- An open file with its group: the buffer, what the methods have written of the process group
when they do not use it, the variables, and the copies of those that were written with the place
of the variable each is a copy of. -/
structure FileState where
  fd : File
  sharedBuffer : Bool
  mode : Mode
  out : Buffer
  vars : List Var
  varsWritten : List (Var × Nat)

/-- The parts of the library that are not modelled: the values of the statistics, by component, bit
and byte, the frequencies of a histogram, the plugins and the methods. `methodWrite` is what the
methods do with the variable, the file and what is in it when there is no buffer; `methodError` is
whether they call `adios_error` for the variable when it is written to the open file. -/
structure Writer where
  machine : Machine
  statValue : Var → Nat → Nat → Nat → UInt8
  frequency : Var → Nat → UInt32
  transformApply : Bool → Var → File → TransformApplied
  methodWrite : Var → File → Buffer → Except Fault (Var × File × Buffer)
  methodError : FileState → Var → Bool

/-! ## Statistics -/

/-- `map [j]` for the statistics that are computed in any case. -/
def computedStats : List Statistic := [.min, .max, .sum, .sumSquare, .cnt]

/-- The statistic for bit `j` of component `c`. A histogram stays where it is. -/
def generateStat (lib : Writer) (v : Var) (c j : Nat) (slot : Option StatData) :
    Except Fault (Option StatData) :=
  if j = Statistic.hist.bit then
    if getStatSetCount (originalTypeVar v) = 3 then .ok slot
    else
      match slot with
      | some (.hist h) => .ok (some (.hist { h with
          frequencies := (List.range (h.numBreaks + 1).toNat).map (lib.frequency v) }))
      | _ => .error .wildPointer
  else do
    let size ← getStatSize none (originalTypeVar v) (Statistic.ofBit j)
    return some (.raw ((List.range size.toNat).map (lib.statValue v c j)))

def generateStats (lib : Writer) (v : Var) (c : Nat) :
    List Nat → List (Option StatData) → Except Fault (List (Option StatData))
  | [], slots => .ok slots
  | _ :: _, [] => .error .outOfBounds
  | j :: bits, slot :: slots => do
    let slot ← generateStat lib v c j slot
    let slots ← generateStats lib v c bits slots
    return slot :: slots

/-- `for (c = 0; c < count; c ++)` over the arrays of the components. -/
def generateStatSets (lib : Writer) (v : Var) :
    Nat → Nat → List (List (Option StatData)) → Except Fault (List (List (Option StatData)))
  | _, 0, sets => .ok sets
  | _, _ + 1, [] => .error .outOfBounds
  | c, count + 1, slots :: sets => do
    let slots ← generateStats lib v c (statBits v.bitmap) slots
    let sets ← generateStatSets lib v (c + 1) count sets
    return slots :: sets

/-- `adios_generate_var_characteristics_v1` -/
def generateVarCharacteristicsV1 (lib : Writer) (v : Var) : Except Fault Var :=
  if v.bitmap = 0 then .ok v
  else if (originalTypeVar v).IsNumeric then
    if computedStats.all fun s => s.bit ∈ statBits v.bitmap then
      match v.stats with
      | none => .error .wildPointer
      | some sets => do
        let sets ← generateStatSets lib v 0 (getStatSetCount (originalTypeVar v)).toNat sets
        return { v with stats := some sets }
    else .error .outOfBounds
  else .ok { v with stats := none }

/-! ## Transforms -/

def Var.withMetadata (v : Var) (metadata : List UInt8) : Var :=
  { v with
    transformMetadata := metadata.take v.transformMetadata.length
      ++ v.transformMetadata.drop metadata.length }

/-- `adios_transform_store_transformed_length` -/
def storeTransformedLength (v : Var) (transformedLen : UInt64) : Except Fault Var :=
  match v.dimensions with
  | [] => .error .assertion
  | dim1 :: dims =>
    if dim1.dimension.timeIndex = .yes then
      match dims with
      | [] => .error .assertion
      | dim2 :: dims => .ok { v with
          dimensions := dim1 ::
            { dim2 with dimension := { dim2.dimension with rank := transformedLen } } :: dims }
    else .ok { v with
      dimensions :=
        { dim1 with dimension := { dim1.dimension with rank := transformedLen } } :: dims }

/-- What `adios_transform_variable_data` leaves. `error` tells of `adios_errno`. -/
structure Transformed where
  success : Bool
  wroteToSharedBuffer : Bool
  error : Bool
  v : Var
  fd : File

/-- `adios_transform_variable_data`. With the buffer `v->data` is set only when the helper is done,
and not looked at before. -/
def transformVariableData (lib : Writer) (useSharedBuffer : Bool) (v : Var) (fd : File) :
    Except Fault Transformed :=
  if v.type ≠ .byte then .error .assertion
  else
    let applied := lib.transformApply useSharedBuffer v fd
    let v := v.withMetadata applied.metadata
    match applied.result with
    | .failed scratch =>
      .ok ⟨false, false, applied.error, v, { fd with buf := fd.buf.patch fd.buf.offset scratch }⟩
    | .shared payload => do
      let v ← storeTransformedLength v (UInt64.ofNat payload.length)
      return ⟨true, true, applied.error, { v with data := some payload },
        { fd with buf := fd.buf.write payload }⟩
    | .own data => do
      let v ← storeTransformedLength v (UInt64.ofNat data.length)
      return ⟨true, false, applied.error, { v with data := some data }, fd⟩

def File.seek (fd : File) (offset : Nat) : File := { fd with buf := ⟨fd.buf.mem, offset⟩ }

/-- `assert` -/
def cAssert (c : Prop) [Decidable c] : Except Fault Unit :=
  if c then .ok () else .error .assertion

/-- The header and the payload of a variable that was transformed, in front of what the plugin
left: `headerOffset` is where the space for the header begins. -/
def writeTransformed (lib : Writer) (headerSize : UInt16) (headerOffset : Nat) (t : Transformed) :
    Except Fault (Var × File) := do
  let newSize ← calcVarOverheadV1 t.v
  -- "Assumption: we don't change the header size, just contents"
  cAssert (newSize = headerSize)
  let (_, v, fd) ← writeVarHeaderV1 lib.machine t.v (t.fd.seek headerOffset)
  cAssert (fd.buf.offset = headerOffset + headerSize.toNat)
  if t.wroteToSharedBuffer then return (v, fd.seek t.fd.buf.offset)
  else
    let fd ← writeVarPayloadV1 lib.machine v fd
    return (v, fd)

/-- `common_adios_write_transform_helper`: whether it succeeds, and `adios_errno`. -/
def commonAdiosWriteTransformHelper (lib : Writer) (sharedBuffer : Bool) (v : Var) (fd : File) :
    Except Fault (Bool × Bool × Var × File) := do
  if sharedBuffer then
    let headerSize ← calcVarOverheadV1 v
    let headerOffset := fd.buf.offset
    let t ← transformVariableData lib true v (fd.seek (headerOffset + headerSize.toNat))
    if t.success then
      let (v, fd) ← writeTransformed lib headerSize headerOffset t
      return (true, t.error || headerError lib.machine v, v, fd)
    else return (false, t.error, t.v, t.fd.seek headerOffset)
  else
    let t ← transformVariableData lib false v fd
    cAssert (t.wroteToSharedBuffer = false)
    cAssert (t.v.data.isSome)
    return (t.success, t.error, t.v, t.fd)

/-! ## A write -/

/-- The data of the user as `common_adios_write_byid` keeps it. -/
def setData (v : Var) (var : Option (List UInt8)) : Except Fault Var :=
  if v.dimensions ≠ [] then .ok { v with data := var }
  else
    let elementSize := getTypeSize v.type var
    match v.type with
    | .byte | .short | .integer | .long | .unsignedByte | .unsignedShort | .unsignedInteger
    | .unsignedLong | .real | .double | .longDouble | .complex | .doubleComplex => do
      let data ← memRead (var.getD []) elementSize.toNat
      return { v with data := some data }
    | .string => do
      let data ← memRead (var.getD []) elementSize.toNat
      return { v with data := some (data ++ [0]) }
    | .unknown | .other _ => .ok { v with data := none }

/-- The part of `common_adios_write` that writes to the buffer: whether it did, and whether
`adios_errno` was set. -/
def writeToBuffer (lib : Writer) (sharedBuffer : Bool) (v : Var) (fd : File) :
    Except Fault (Bool × Bool × Var × File) := do
  if v.transformType = .none then
    if sharedBuffer then
      let (_, v, fd) ← writeVarHeaderV1 lib.machine v fd
      let fd ← writeVarPayloadV1 lib.machine v fd
      return (true, headerError lib.machine v, v, fd)
    else return (true, false, v, fd)
  else commonAdiosWriteTransformHelper lib sharedBuffer v fd

/-- What `common_adios_write` leaves. -/
structure Wrote where
  success : Bool
  error : Bool
  v : Var
  fd : File
  out : Buffer

/-- "now tell each transport attached that it is being written": with the buffer they leave it as it
is. -/
def tellMethods (lib : Writer) (sharedBuffer : Bool) (v : Var) (fd : File) (out : Buffer) :
    Except Fault (Var × File × Buffer) :=
  if sharedBuffer then .ok (v, fd, out) else lib.methodWrite v fd out

/-- `common_adios_write`, up to what becomes of `v->data` when it is done: the statistics, the
buffer and the methods. -/
def commonAdiosWrite (lib : Writer) (v : Var) (s : FileState) : Except Fault Wrote := do
  let w ← generateVarCharacteristicsV1 lib v
  let (success, writeError, v, fd) ← writeToBuffer lib s.sharedBuffer w s.fd
  let (v, fd, out) ← tellMethods lib s.sharedBuffer v fd s.out
  let error := statSizeError lib.machine w || writeError || lib.methodError s w
  return { success, error, v, fd, out }

/-! ## The MPI method

`adios_mpi_write`, which writes header and payload when there is no buffer. What was written is
what `MPI_Get_count` says of the last piece. -/

/-- `MAX_MPIWRITE_SIZE` -/
def maxMpiWriteSize : Nat := 2130706432

/-- The count in `md->status` behind the loop that writes `n` bytes in pieces. -/
def lastCount (status n : Nat) : Nat := if n = 0 then status else (n - 1) % maxMpiWriteSize + 1

def File.flushed (fd : File) (count : Nat) : File :=
  { fd with buf := ⟨fd.buf.mem, 0⟩, baseOffset := fd.baseOffset + UInt64.ofNat count,
            bytesWritten := 0 }

/-- `adios_mpi_write` for a variable whose buffer it did not give out, without a buffer for the
group. -/
def adiosMpiWrite (m : Machine) (v : Var) (fd : File) (out : Buffer) :
    Except Fault (Var × File × Buffer) := do
  let (_, v, fd) ← writeVarHeaderV1 m v fd
  let header := fd.buf.mem.read 0 fd.bytesWritten
  let count := lastCount 0 header.length
  let payload ← memRead (v.data.getD []) (getVarSize m v v.data).toNat
  return (v, (fd.flushed count).flushed (lastCount count payload.length),
    (out.write header).write payload)

/-! ## The copy for the index -/

def DimensionItem.dereferenced (m : Machine) (d : DimensionItem) : DimensionItem :=
  ⟨getDimValue m d, none, none, d.timeIndex⟩

def Dimension.dereferenced (m : Machine) (d : Dimension) : Dimension where
  dimension := d.dimension.dereferenced m
  globalDimension := d.globalDimension.dereferenced m
  localOffset := d.localOffset.dereferenced m

/-- The dimensions that the `uint8_t` of `count_dimensions` counts, with their values. -/
def dereferenceDimensions (m : Machine) (ds : List Dimension) : List Dimension :=
  (ds.take (countDimensions ds).toNat).map (Dimension.dereferenced m)

def copyStat (type : Datatype) (j : Nat) : StatData → Except Fault StatData
  | .hist h => if j = Statistic.hist.bit then .ok (.hist h) else .error .wildPointer
  | .raw bytes =>
    if j = Statistic.hist.bit then .error .wildPointer
    else do
      let size ← getStatSize none type (Statistic.ofBit j)
      let bytes ← memRead bytes size.toNat
      return .raw bytes

def copyStats (type : Datatype) :
    List Nat → List (Option StatData) → Except Fault (List (Option StatData))
  | [], _ => .ok []
  | _ :: _, [] => .error .wildPointer
  | _ :: _, none :: _ => .ok []
  | j :: bits, some stat :: slots => do
    let stat ← copyStat type j stat
    let slots ← copyStats type bits slots
    return some stat :: slots

/-- The statistics of the components, each in an array of `ADIOS_STAT_LENGTH`. -/
def copyStatArrays (type : Datatype) (bits : List Nat) :
    Nat → List (List (Option StatData)) → Except Fault (List (List (Option StatData)))
  | 0, _ => .ok []
  | count + 1, sets => do
    let slots ← copyStats type bits (sets.headD [])
    let sets ← copyStatArrays type bits count sets.tail
    return (slots ++ List.replicate (statLength - slots.length) none) :: sets

def copyStatSets (v : Var) : Except Fault (List (List (Option StatData))) :=
  copyStatArrays (originalTypeVar v) (statBits v.bitmap)
    (getStatSetCount (originalTypeVar v)).toNat (v.stats.getD [])

/-- `adios_transform_init_transform_var` -/
def Var.untransformed (v : Var) : Var :=
  { v with
    transformType := .none
    preTransformType := .unknown
    preTransformDimensions := []
    transformMetadataLen := 0
    transformMetadata := [] }

/-- The copy that `adios_copy_var_written` makes. -/
def copyVarWritten (m : Machine) (v : Var) : Except Fault Var :=
  let size := (getTypeSize v.type v.data).toNat
  match v.type with
  | .byte | .unsignedByte | .short | .unsignedShort | .integer | .unsignedInteger | .long
  | .unsignedLong | .real | .double | .longDouble | .complex | .doubleComplex =>
    if v.dimensions ≠ [] then do
      let stats ← copyStatSets v
      return { v with
        dimensions := dereferenceDimensions m v.dimensions
        data := none
        stats := some stats
        preTransformDimensions := dereferenceDimensions m v.preTransformDimensions }
    else do
      let data ← memRead (v.data.getD []) size
      return { v.untransformed with dimensions := [], data := some data, stats := none }
  | .string => do
    let data ← memRead (v.data.getD []) size
    return { v.untransformed with dimensions := [], data := some (data ++ [0]), stats := none }
  | .unknown | .other _ => .ok { v with dimensions := [], data := none, stats := none }

/-- The variable behind a write: `if (v->dimensions) v->data = 0`. -/
def Wrote.kept (wrote : Wrote) : Var :=
  { wrote.v with data := if wrote.v.dimensions ≠ [] then none else wrote.v.data }

/-- `common_adios_write_byid` for the variable at place `i`: the open file, and what
`common_adios_write` left. -/
def commonAdiosWriteById (lib : Writer) (i : Nat) (var : Option (List UInt8)) (s : FileState) :
    Except Fault (FileState × Wrote) := do
  let some v := s.vars[i]? | throw .wildPointer
  let v ← setData v var
  let wrote ← commonAdiosWrite lib (v.current s.vars) s
  let s := { s with fd := wrote.fd, out := wrote.out, vars := s.vars.set i wrote.kept }
  if ¬wrote.error ∧ (s.mode = .write ∨ s.mode = .append) then
    let copy ← copyVarWritten lib.machine wrote.kept
    return ({ s with varsWritten := s.varsWritten ++ [(copy, i)] }, wrote)
  else return (s, wrote)

/-- The characteristics set that `adios_build_index_v1` makes of the copy `v` of `oldVar`. -/
def buildCharacteristic (m : Machine) (fileIndex timeIndex : UInt32) (v oldVar : Var) :
    Except Fault IndexCharacteristic := do
  let payloadOffset ← varPayloadOffset v oldVar
  let c : IndexCharacteristic := { IndexCharacteristic.zero with
    offset := v.writeOffset, payloadOffset, fileIndex, timeIndex }
  let size := (getTypeSize v.type v.data).toNat
  match v.type with
  | .byte | .unsignedByte | .short | .unsignedShort | .integer | .unsignedInteger | .long
  | .unsignedLong | .real | .double | .longDouble | .complex | .doubleComplex =>
    match v.data with
    | some data => do
      let value ← memRead data size
      return { c with value := some value }
    | none =>
      if v.dimensions ≠ [] then do
        let stats ← copyStatSets v
        return { c with
          bitmap := v.bitmap
          stats := some stats
          transform := copyTransformCharacteristic m v
          dims := dereferenceDimensionsCharacteristic m v.dimensions }
      else return c
  | .string => do
    let value ← memRead (v.data.getD []) size
    return { c with value := some value }
  | .unknown | .other _ => return c

/-- The entry for the copy `v`. -/
def buildEntry (m : Machine) (groupName : CString) (fileIndex timeIndex : UInt32)
    (v oldVar : Var) : Except Fault StoredEntry := do
  let c ← buildCharacteristic m fileIndex timeIndex v oldVar
  return {
    entry := { id := v.id, groupName, name := v.name, path := v.path, type := v.type,
               characteristics := [c] }
    characteristicsCount := 1
    characteristicsAllocated := 1
    room := 1 }

/-- The loop of `adios_build_index_v1` over the variables that were written; `malloc` gives the
address of an entry. "Only add items that were written to the index." -/
def buildVarsIndex (m : Machine) (canAlloc : UInt64 → Bool) (malloc : IndexStore → Addr)
    (groupName : CString) (fileIndex timeIndex : UInt32) (vars : List Var) :
    List (Var × Nat) → IndexStore → Except Fault IndexStore
  | [], st => .ok st
  | (v, parent) :: written, st =>
    if v.writeOffset ≠ 0 then do
      let some oldVar := vars[parent]? | throw .wildPointer
      let e ← buildEntry m groupName fileIndex timeIndex v oldVar
      let item := malloc st
      let st ← indexAppendVarV1 canAlloc item
        { st with vars := ⟨st.vars.root, st.vars.store.set item ⟨e, none⟩⟩ }
      buildVarsIndex m canAlloc malloc groupName fileIndex timeIndex vars written st
    else buildVarsIndex m canAlloc malloc groupName fileIndex timeIndex vars written st

end Adios
