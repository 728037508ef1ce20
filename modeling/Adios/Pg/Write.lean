import Adios.Index.Write
import Adios.Pg.Overhead

/-!
# Adios — writing a process group

The process group header, the variables with their headers and payloads, and the attributes, as
they are put into the buffer of a file. Of the length fields in front of them some are filled in
after what they count was written, others are computed before it is.
-/

namespace Adios

open Wire

/-- `struct adios_file_struct`: the buffer with its offset, and the counters of the sections. -/
structure File where
  buf : Buffer
  baseOffset : UInt64
  bytesWritten : Nat
  varsStart : Nat
  varsWritten : UInt32

/-- "`if (fd->bytes_written < fd->offset) fd->bytes_written = fd->offset`" -/
def File.markWritten (fd : File) : File :=
  { fd with bytesWritten := max fd.bytesWritten fd.buf.offset }

/-! ## Dimensions -/

/-- The component of `calc_dimension_size` with the given test for a number. -/
def calcItemSize (isNumber : Bool) : UInt16 := 1 + if isNumber then 8 else 4

/-- `calc_dimension_size`. For the offset it looks at `local_offset.var` twice, and not at
`local_offset.attr`. -/
def calcDimensionSize (d : Dimension) : UInt16 :=
  calcItemSize d.dimension.isLiteral + calcItemSize d.globalDimension.isLiteral
    + calcItemSize (d.localOffset.var = none ∧ d.localOffset.var = none
      ∧ d.localOffset.timeIndex = .no)

/-- `calc_dimensions_size` -/
def calcDimensionsSize (ds : List Dimension) : UInt16 :=
  ds.foldl (fun size d => size + calcDimensionSize d) 0

def DimensionItem.memberId (d : DimensionItem) : UInt32 :=
  match d.var, d.attr with
  | some var, _ => var.id
  | none, some attr => attr.id
  -- "just write this garbage"
  | none, none => 0

/-- One component of `adios_write_dimension_v1`, and its size. -/
def writeDimensionItem (host : Endian) (d : DimensionItem) (buf : Buffer) : Buffer × UInt64 :=
  if d.isLiteral then ((buf.write (chars "n")).write (host.u64 d.rank), 1 + 8)
  else ((buf.write (chars "y")).write (host.u32 d.memberId), 1 + 4)

/-- `adios_write_dimension_v1` -/
def writeDimensionV1 (host : Endian) (d : Dimension) (buf : Buffer) : Buffer × UInt64 :=
  let (buf, dimension) := writeDimensionItem host d.dimension buf
  let (buf, globalDimension) := writeDimensionItem host d.globalDimension buf
  let (buf, localOffset) := writeDimensionItem host d.localOffset buf
  (buf, dimension + globalDimension + localOffset)

/-- `adios_write_dimensions_v1` -/
def writeDimensionsV1 (host : Endian) (ds : List Dimension) (buf : Buffer) : Buffer × UInt16 :=
  let buf := (buf.write [countDimensions ds]).write (host.u16 (calcDimensionsSize ds))
  ds.foldl (fun (buf, size) d =>
    let (buf, written) := writeDimensionV1 host d buf
    (buf, size + written.toUInt16)) (buf, 1 + 2)

/-- `adios_write_var_characteristics_dims_v1` -/
def writeVarCharacteristicsDimsV1 (m : Machine) (v : Var) (buf : Buffer) : Buffer × UInt16 :=
  let countOffset := buf.offset
  let values := v.dimensions.flatMap (Dimension.values m)
  let buf := values.foldl (fun buf dim => buf.write (m.host.u64 dim)) ((buf.skip 1).skip 2)
  let dimsCount : UInt8 := v.dimensions.foldl (fun count _ => count + 1) 0
  let dimsLength : UInt16 := values.foldl (fun length _ => length + 8) 0
  ((buf.patch countOffset [dimsCount]).patch (countOffset + 1) (m.host.u16 dimsLength),
    values.foldl (fun size _ => size + 8) (1 + 2))

/-! ## Characteristics -/

/-- A histogram. Its number of breaks is an `int32_t` here, and the sizes are signed products. -/
def writeVarHist (host : Endian) (hist : Hist) (w : IndexWriter) : Except Fault IndexWriter :=
  if 2 ^ 28 ≤ hist.numBreaks.toNat then .error .signedOverflow
  else do
    let frequencies ← memRead (hist.frequencies.flatMap host.u32) (4 * (hist.numBreaks.toNat + 1))
    let breaks ← memRead (hist.breaks.flatMap host.u64) (8 * hist.numBreaks.toNat)
    return ((((w.emit 0 (host.u32 hist.numBreaks)).emit 0 (host.u64 hist.min)).emit 0
      (host.u64 hist.max)).emit 0 frequencies).emit 0 breaks

/-- `v->stats[c][idx]` for the bit `j` of the bitmap. -/
def writeVarStat (host : Endian) (type : Datatype) (j : Nat) (stat : Option StatData)
    (w : IndexWriter) : Except Fault IndexWriter :=
  if j = Statistic.hist.bit then
    match stat with
    | some (.hist hist) => writeVarHist host hist w
    | _ => .error .wildPointer
  else writeStat host type j stat w

def writeVarStats (host : Endian) (type : Datatype) :
    List Nat → List (Option StatData) → IndexWriter → Except Fault IndexWriter
  | [], _, w => .ok w
  | _ :: _, [], _ => .error .wildPointer
  | j :: bits, stat :: stats, w => do
    let w ← writeVarStat host type j stat w
    writeVarStats host type bits stats w

/-- `for (c = 0; c < count; c ++)` over the arrays of the components. -/
def writeVarStatSets (host : Endian) (type : Datatype) (bits : List Nat) :
    Nat → List (List (Option StatData)) → IndexWriter → Except Fault IndexWriter
  | 0, _, w => .ok w
  | count + 1, sets, w => do
    let w ← writeVarStats host type bits (sets.headD []) w
    writeVarStatSets host type bits count sets.tail w

def writeVarDims (m : Machine) (v : Var) (w : IndexWriter) : IndexWriter :=
  let w := w.emit 1 [CharacteristicId.dimensions.flag]
  let (buf, len) := writeVarCharacteristicsDimsV1 m v w.buf
  { w with
    buf := buf
    indexSize := w.indexSize + len.toUInt64
    entrySize := w.entrySize + len.toUInt32
    setLength := w.setLength + len.toUInt32 }

/-- `if (v->dimensions)`: the characteristics of an array. -/
def writeVarArray (m : Machine) (v : Var) (w : IndexWriter) : Except Fault IndexWriter := do
  let w ← writeTransform m.host (copyTransformCharacteristic m v) (writeVarDims m v w)
  let w := (w.item .bitmap (m.host.u32 v.bitmap)).emit 1 [CharacteristicId.stat.flag]
  let originalVarType := originalTypeVar v
  writeVarStatSets m.host originalVarType (statBits v.bitmap)
    (getStatSetCount originalVarType).toNat (v.stats.getD []) w

/-- What `adios_write_var_characteristics_v1` puts into the set, by the type. -/
def writeVarCharacteristics (m : Machine) (v : Var) (w : IndexWriter) :
    Except Fault IndexWriter :=
  match v.type with
  | .byte | .unsignedByte | .short | .unsignedShort | .integer | .unsignedInteger | .long
  | .unsignedLong | .real | .double | .longDouble | .complex | .doubleComplex =>
    if v.dimensions ≠ [] then writeVarArray m v w else .ok w
  | .string | .unknown | .other _ => .ok w

/-- `adios_write_var_characteristics_v1`: its locals are those of the loop over the index; the size
of an entry, which is not one of them, is not looked at. -/
def writeVarCharacteristicsV1 (m : Machine) (v : Var) (buf : Buffer) :
    Except Fault (Buffer × UInt16) := do
  let w : IndexWriter := { buf, indexSize := 0, entrySize := 0, setLength := 0, setCount := 0 }
  let w ← writeVarCharacteristics m v w.beginSet
  return ((w.endSet m.host buf.offset).buf, w.indexSize.toUInt16)

/-! ## Variables -/

/-- `len = strlen (s)`, its two bytes and the `len` characters. -/
def writeString (host : Endian) (s : CString) (buf : Buffer) : Buffer :=
  let len := UInt16.ofNat (strlen s.val)
  (buf.write (host.u16 len)).write (s.val.take len.toNat)

/-- `adios_write_var_header_v1`: the size it returns, the variable with its offset, the file. -/
def writeVarHeaderV1 (m : Machine) (v : Var) (fd : File) :
    Except Fault (UInt64 × Var × File) := do
  let start := fd.buf.offset
  let v := { v with writeOffset := UInt64.ofNat start + fd.baseOffset }
  let buf := (fd.buf.skip 8).write (m.host.u32 v.id)
  let buf := writeString m.host v.path (writeString m.host v.name buf)
  let isDim := if v.isDim = .yes then chars "y" else chars "n"
  let (buf, dimensionsSize) := writeDimensionsV1 m.host v.dimensions
    ((buf.write [v.type.code]).write isDim)
  let (buf, characteristicsSize) ← writeVarCharacteristicsV1 m v buf
  let totalSize : UInt64 := 8 + 4 + 2 + (UInt16.ofNat (strlen v.name.val)).toUInt64 + 2
    + (UInt16.ofNat (strlen v.path.val)).toUInt64 + 1 + 1 + dimensionsSize.toUInt64
    + characteristicsSize.toUInt64 + getVarSize m v v.data
  let fd := { fd with
    buf := buf.patch start (m.host.u64 totalSize)
    varsWritten := fd.varsWritten + 1 }
  return (totalSize, v, fd.markWritten)

/-- `adios_write_var_payload_v1` -/
def writeVarPayloadV1 (m : Machine) (v : Var) (fd : File) : Except Fault File := do
  let data ← memRead (v.data.getD []) (getVarSize m v v.data).toNat
  return File.markWritten { fd with buf := fd.buf.write data }

/-- The payload offset that `adios_build_index_v1` records for a variable that was written: the
size of the header is computed from the definition, whose path may have been set anew since. -/
def varPayloadOffset (v oldVar : Var) : Except Fault UInt64 := do
  let overhead ← calcVarOverheadV1 oldVar
  return v.writeOffset + overhead.toUInt64 - UInt64.ofNat (strlen oldVar.path.val)
    + UInt64.ofNat (strlen v.path.val)

/-- `adios_write_open_vars_v1` -/
def writeOpenVarsV1 (fd : File) : File :=
  File.markWritten
    { fd with varsWritten := 0, varsStart := fd.buf.offset, buf := fd.buf.skip (4 + 8) }

/-- `adios_write_close_vars_v1` and `adios_write_close_attributes_v1`: the count and the size of
the section that ends here. -/
def writeCloseSectionV1 (host : Endian) (fd : File) : File :=
  let size := UInt64.ofNat fd.buf.offset - UInt64.ofNat fd.varsStart
  { fd with
    buf := (fd.buf.patch fd.varsStart (host.u32 fd.varsWritten)).patch (fd.varsStart + 4)
      (host.u64 size)
    varsStart := fd.varsStart + 4 + 8 }

/-! ## Attributes -/

/-- What `adios_write_attribute_v1` writes behind the path: a variable, or a type and a value. -/
def writeAttributeValue (host : Endian) (a : Attribute) (buf : Buffer) :
    Except Fault (Buffer × UInt32) :=
  match a.var with
  | some var => .ok ((buf.write (chars "y")).write (host.u32 var.id), 1 + 4)
  | none => do
    let t := (getTypeSize a.type a.value).toUInt32
    let value ← memRead (a.value.getD []) t.toNat
    return ((((buf.write (chars "n")).write [a.type.code]).write (host.u32 t)).write value,
      1 + 1 + 4 + t)

/-- `adios_write_attribute_v1` -/
def writeAttributeV1 (host : Endian) (a : Attribute) (fd : File) :
    Except Fault (Attribute × File) := do
  let start := fd.buf.offset
  let a := { a with writeOffset := UInt64.ofNat start + fd.baseOffset }
  let buf := (fd.buf.skip 4).write (host.u32 a.id)
  let buf := writeString host a.path (writeString host a.name buf)
  let (buf, valueSize) ← writeAttributeValue host a buf
  let size : UInt32 := 4 + 2 + (UInt16.ofNat (strlen a.name.val)).toUInt32 + 2
    + (UInt16.ofNat (strlen a.path.val)).toUInt32 + valueSize
  let fd := { fd with
    buf := buf.patch start (host.u32 size)
    varsWritten := fd.varsWritten + 1 }
  return (a, fd.markWritten)

/-- `adios_write_open_attributes_v1` -/
def writeOpenAttributesV1 (fd : File) : File :=
  File.markWritten
    { fd with varsStart := fd.buf.offset, buf := fd.buf.skip (4 + 8), varsWritten := 0 }

def writeMethod (host : Endian) (buf : Buffer) (method : Method) : Buffer :=
  writeString host method.parameters (buf.write [method.m])

/-- `adios_write_process_group_header_v1` -/
def writeProcessGroupHeaderV1 (host : Endian) (g : Group) (totalSize : UInt64) (fd : File) :
    File :=
  let flag := if g.hostLanguageFortran = .yes then chars "y" else chars "n"
  let buf := writeString host g.name
    ((fd.buf.write (host.u64 totalSize)).write flag)
  let buf := buf.write (host.u32 (g.coordinationVar.elim 0 VarRef.id))
  let buf := match g.timeIndexName with
    | some name => writeString host name buf
    | none => buf.write (host.u16 0)
  let buf := buf.write (host.u32 g.timeIndex)
  let methodsCount : UInt8 := g.methods.foldl (fun count _ => count + 1) 0
  let methodsLength : UInt16 := g.methods.foldl (fun length method =>
    length + (1 + 2 + UInt16.ofNat (strlen method.parameters.val))) 0
  let buf := (buf.write [methodsCount]).write (host.u16 methodsLength)
  File.markWritten { fd with buf := g.methods.foldl (writeMethod host) buf }

end Adios
