import Adios.Index.Struct
import Adios.Wire.Endian
import Adios.Wire.Memory

/-!
# Adios — writing the index

`adios_write_index_v1`: the process group index, the variables index and the attributes index,
each with a count and a size that are filled in after its loop, then the version information
and the offsets of the three sections. Every entry and every characteristics set starts with a
length that is filled in after the bytes it counts.

The buffer grows as far as it has to. Integers go to memory in the byte order of `host`.
-/

namespace Adios

open Wire

/-- `enum ADIOS_CHARACTERISTICS` -/
inductive CharacteristicId where
  | value | min | max | offset | dimensions | varId | payloadOffset | fileIndex | timeIndex
  | bitmap | stat | transformType
  deriving DecidableEq, Repr

namespace CharacteristicId

def flag : CharacteristicId → UInt8
  | value => 0
  | min => 1
  | max => 2
  | offset => 3
  | dimensions => 4
  | varId => 5
  | payloadOffset => 6
  | fileIndex => 7
  | timeIndex => 8
  | bitmap => 9
  | stat => 10
  | transformType => 11

def ofFlag (b : UInt8) : Option CharacteristicId :=
  [value, min, max, offset, dimensions, varId, payloadOffset, fileIndex, timeIndex, bitmap, stat,
    transformType].find? fun c => c.flag = b

@[simp] theorem ofFlag_flag (c : CharacteristicId) : ofFlag c.flag = some c := by
  cases c <;> rfl

end CharacteristicId

/-- The first `n` bytes behind a pointer to an object of the given bytes. -/
def memRead (object : List UInt8) (n : Nat) : Except Fault (List UInt8) :=
  if n ≤ object.length then .ok (object.take n) else .error .outOfBounds

theorem memRead_self {object : List UInt8} {n : Nat} (h : object.length = n) :
    memRead object n = .ok object := by
  subst h
  simp [memRead]

theorem memRead_eq_ok_iff {object data : List UInt8} {n : Nat} :
    memRead object n = .ok data ↔ n ≤ object.length ∧ object.take n = data := by
  unfold memRead
  split_ifs with h
  · simp [h]
  · simp [h]

/-- The first byte of an `enum ADIOS_DATATYPES` variable: `buffer_write (…, &type, 1)`. -/
def enumByte (host : Endian) (t : Datatype) : List UInt8 :=
  (host.u32 (UInt32.ofInt t.toInt)).take 1

/-! ## The local variables -/

/-- The locals of the loops over variables and attributes: the buffer, `index_size`,
`var_size` (`attr_size`), `characteristic_set_length` and `characteristic_set_count`. -/
structure IndexWriter where
  buf : Buffer
  indexSize : UInt64
  entrySize : UInt32
  setLength : UInt32
  setCount : UInt8

namespace IndexWriter

/-- `buffer_write` outside a characteristics set, with its two additions. -/
def put (w : IndexWriter) (data : List UInt8) : IndexWriter :=
  { w with
    buf := w.buf.write data
    indexSize := w.indexSize + UInt64.ofNat data.length
    entrySize := w.entrySize + UInt32.ofNat data.length }

/-- `buffer_write` inside a characteristics set, with its three additions; `count` is what
`characteristic_set_count` grows by. -/
def emit (w : IndexWriter) (count : UInt8) (data : List UInt8) : IndexWriter :=
  { buf := w.buf.write data
    indexSize := w.indexSize + UInt64.ofNat data.length
    entrySize := w.entrySize + UInt32.ofNat data.length
    setLength := w.setLength + UInt32.ofNat data.length
    setCount := w.setCount + count }

def item (w : IndexWriter) (c : CharacteristicId) (data : List UInt8) : IndexWriter :=
  (w.emit 1 [c.flag]).emit 0 data

def beginSet (w : IndexWriter) : IndexWriter :=
  { buf := w.buf.skip (1 + 4)
    indexSize := w.indexSize + (1 + 4)
    entrySize := w.entrySize + (1 + 4)
    setLength := 0
    setCount := 0 }

/-- "characteristics count/size prefix" -/
def endSet (host : Endian) (start : Nat) (w : IndexWriter) : IndexWriter :=
  { w with buf := (w.buf.patch start [w.setCount]).patch (start + 1) (host.u32 w.setLength) }

def beginEntry (w : IndexWriter) : IndexWriter :=
  { w with buf := w.buf.skip 4, entrySize := 0 }

def endEntry (host : Endian) (start : Nat) (w : IndexWriter) : IndexWriter :=
  { w with buf := w.buf.patch start (host.u32 w.entrySize) }

end IndexWriter

/-- `len = strlen (s)` and the `len` characters of `s`, each with its `buffer_write`. -/
def putString (host : Endian) (s : CString) (w : IndexWriter) : IndexWriter :=
  let len := UInt16.ofNat (strlen s.val)
  (w.put (host.u16 len)).put (s.val.take len.toNat)

/-- `serialize_transform_type` and the rest of `adios_transform_serialize_transform`: the
buffer, `*write_length` and the number of characteristics written. -/
def serializeTransformCharacteristic (host : Endian) (t : Transform) (buf : Buffer) :
    Except Fault (Buffer × UInt64 × UInt8) := do
  -- either there is no metadata, or the metadata buffer is non-null
  if t.transformMetadataLen ≠ 0 ∧ t.transformMetadata = [] then throw .assertion
  if t.transformType = .none then return (buf, 0, 0)
  let some uid := transformPluginUid t.transformType | throw .wildPointer
  let uidLen := UInt8.ofNat (strlen uid)
  let len : UInt16 := 3 * 8 * t.preTransformDimensions.count.toUInt16
  let uidBytes ← memRead uid uidLen.toNat
  let dims ← memRead (t.preTransformDimensions.dims.flatMap host.u64) len.toNat
  let metadata ← memRead t.transformMetadata t.transformMetadataLen.toNat
  let written := [[CharacteristicId.transformType.flag], [uidLen], uidBytes,
    enumByte host t.preTransformType, [t.preTransformDimensions.count], host.u16 len, dims,
    host.u16 t.transformMetadataLen, metadata]
  return (written.foldl Buffer.write buf,
    written.foldl (fun n data => n + UInt64.ofNat data.length) 0, 1)

def writeTransform (host : Endian) (t : Transform) (w : IndexWriter) :
    Except Fault IndexWriter := do
  let (buf, characteristicWriteLength, characteristicWriteCount) ←
    serializeTransformCharacteristic host t w.buf
  return { buf := buf
           indexSize := w.indexSize + characteristicWriteLength
           entrySize := w.entrySize + characteristicWriteLength.toUInt32
           setLength := w.setLength + characteristicWriteLength.toUInt32
           setCount := w.setCount + characteristicWriteCount }

/-! ## The statistics -/

def writeHist (host : Endian) (hist : Hist) (w : IndexWriter) : Except Fault IndexWriter := do
  let frequencies ← memRead (hist.frequencies.flatMap host.u32) ((hist.numBreaks + 1) * 4).toNat
  let breaks ← memRead (hist.breaks.flatMap host.u64) (hist.numBreaks * 8).toNat
  return ((((w.emit 0 (host.u32 hist.numBreaks)).emit 0 (host.u64 hist.min)).emit 0
    (host.u64 hist.max)).emit 0 frequencies).emit 0 breaks

/-- `stats[c][idx]` for the bit `j` of the bitmap. -/
def writeStat (host : Endian) (type : Datatype) (j : Nat) (stat : Option StatData)
    (w : IndexWriter) : Except Fault IndexWriter :=
  if j = Statistic.hist.bit then
    match stat with
    | some (.hist hist) => writeHist host hist w
    | _ => .error .wildPointer
  else
    match stat with
    | some (.raw data) => do
      let characteristicSize ← getStatSize none type (Statistic.ofBit j)
      let data ← memRead data characteristicSize.toNat
      return w.emit 0 data
    | _ => .error .wildPointer

/-- The loop over the bits of the bitmap; `idx` moves through the array with the bits found. -/
def writeStats (host : Endian) (type : Datatype) :
    List Nat → List (Option StatData) → IndexWriter → Except Fault IndexWriter
  | [], _, w => .ok w
  | _ :: _, [], _ => .error .wildPointer
  | j :: bits, stat :: stats, w => do
    let w ← writeStat host type j stat w
    writeStats host type bits stats w

/-- `for (c = 0; c < count; c ++)` over the arrays of the components. -/
def writeStatSets (host : Endian) (type : Datatype) (bits : List Nat) :
    Nat → List (List (Option StatData)) → IndexWriter → Except Fault IndexWriter
  | 0, _, w => .ok w
  | count + 1, sets, w => do
    -- with an empty bitmap the arrays are not touched
    let w ← writeStats host type bits (sets.headD []) w
    writeStatSets host type bits count sets.tail w

/-! ## Characteristics sets -/

def writeCommon (host : Endian) (c : IndexCharacteristic) (w : IndexWriter) : IndexWriter :=
  (((w.item .offset (host.u64 c.offset)).item .payloadOffset (host.u64 c.payloadOffset)).item
    .fileIndex (host.u32 c.fileIndex)).item .timeIndex (host.u32 c.timeIndex)

/-- `if (dims.count)`: dimensions, transform, bitmap and statistics of an array. -/
def writeArray (host : Endian) (originalVarType : Datatype) (c : IndexCharacteristic)
    (w : IndexWriter) : Except Fault IndexWriter := do
  let len : UInt16 := 3 * 8 * c.dims.count.toUInt16
  let dims ← memRead (c.dims.dims.flatMap host.u64) len.toNat
  let w := (((w.emit 1 [CharacteristicId.dimensions.flag]).emit 0 [c.dims.count]).emit 0
    (host.u16 len)).emit 0 dims
  let w ← writeTransform host c.transform w
  let w := (w.item .bitmap (host.u32 c.bitmap)).emit 1 [CharacteristicId.stat.flag]
  writeStatSets host originalVarType (statBits c.bitmap) (getStatSetCount originalVarType).toNat
    (c.stats.getD []) w

/-- `if (value)`: the value of a number. -/
def writeValue (type : Datatype) (c : IndexCharacteristic) (w : IndexWriter) :
    Except Fault IndexWriter :=
  match c.value with
  | some value => do
    let value ← memRead value (getTypeSize type c.value).toNat
    return w.item .value value
  | none => .ok w

def writeVarItems (host : Endian) (type originalVarType : Datatype) (c : IndexCharacteristic)
    (w : IndexWriter) : Except Fault IndexWriter :=
  match type with
  | .byte | .unsignedByte | .short | .unsignedShort | .integer | .unsignedInteger | .long
  | .unsignedLong | .real | .double | .longDouble | .complex | .doubleComplex =>
    (if c.dims.count ≠ 0 then writeArray host originalVarType c w else .ok w) >>=
      writeValue type c
  | .string => do
    let size := getTypeSize type c.value
    let value ← memRead (c.value.getD []) size.toNat
    return ((w.emit 1 [CharacteristicId.value.flag]).emit 0 (host.u16 size.toUInt16)).emit 0 value
  -- "Reached unexpected branch"
  | .unknown | .other _ => .ok w

def writeVarSet (host : Endian) (type originalVarType : Datatype) (w : IndexWriter)
    (c : IndexCharacteristic) : Except Fault IndexWriter := do
  let start := w.buf.offset
  let w ← writeVarItems host type originalVarType c (writeCommon host c w.beginSet)
  return w.endSet host start

def writeAttrItems (host : Endian) (type : Datatype) (c : IndexCharacteristic)
    (w : IndexWriter) : Except Fault IndexWriter := do
  let size := getTypeSize type c.value
  let w ← match c.value with
    | some value => do
      let value ← memRead value size.toNat
      let w := w.emit 1 [CharacteristicId.value.flag]
      let w := if type = .string then w.emit 0 (host.u16 size.toUInt16) else w
      .ok (w.emit 0 value)
    | none => .ok w
  return if c.varId ≠ 0 then w.item .varId (host.u32 c.varId) else w

def writeAttrSet (host : Endian) (type : Datatype) (w : IndexWriter) (c : IndexCharacteristic) :
    Except Fault IndexWriter := do
  let start := w.buf.offset
  let w ← writeAttrItems host type c (writeCommon host c w.beginSet)
  return w.endSet host start

/-! ## Entries -/

/-- The loop over an entry's characteristics: its counter is an `int`. -/
def writeSets (writeSet : IndexWriter → IndexCharacteristic → Except Fault IndexWriter)
    (cs : List IndexCharacteristic) (w : IndexWriter) : Except Fault IndexWriter :=
  if cs.length < 2 ^ 31 then cs.foldlM writeSet w else .error .signedOverflow

def writeEntry (host : Endian)
    (writeSet : IndexEntry → IndexWriter → IndexCharacteristic → Except Fault IndexWriter)
    (w : IndexWriter) (e : IndexEntry) : Except Fault IndexWriter := do
  let start := w.buf.offset
  let w := w.beginEntry.put (host.u32 e.id)
  let w := putString host e.path (putString host e.name (putString host e.groupName w))
  let w := (w.put [e.type.code]).put (host.u64 (UInt64.ofNat e.characteristics.length))
  let w ← writeSets (writeSet e) e.characteristics w
  return w.endEntry host start

def writeVar (host : Endian) : IndexWriter → IndexEntry → Except Fault IndexWriter :=
  writeEntry host fun v =>
    writeVarSet host v.type (originalTypeIndex v.type (v.characteristics.headD .zero))

def writeAttr (host : Endian) : IndexWriter → IndexEntry → Except Fault IndexWriter :=
  writeEntry host fun a => writeAttrSet host a.type

/-- A section of `4 + 8` bytes for its count and size and one entry after the other. -/
def writeEntries (host : Endian)
    (writeOne : IndexWriter → IndexEntry → Except Fault IndexWriter) (es : List IndexEntry)
    (buf : Buffer) : Except Fault Buffer := do
  let start := buf.offset
  let w ← es.foldlM writeOne
    { buf := buf.skip (4 + 8), indexSize := 0, entrySize := 0, setLength := 0, setCount := 0 }
  return (w.buf.patch start (host.u32 (UInt32.ofNat es.length))).patch (start + 4)
    (host.u64 w.indexSize)

def writeVarsIndex (host : Endian) : List IndexEntry → Buffer → Except Fault Buffer :=
  writeEntries host (writeVar host)

def writeAttrsIndex (host : Endian) : List IndexEntry → Buffer → Except Fault Buffer :=
  writeEntries host (writeAttr host)

/-! ## Process groups -/

structure GroupWriter where
  buf : Buffer
  indexSize : UInt64
  groupSize : UInt16

/-- `buffer_write` with its two additions. -/
def GroupWriter.put (w : GroupWriter) (data : List UInt8) : GroupWriter :=
  { buf := w.buf.write data
    indexSize := w.indexSize + UInt64.ofNat data.length
    groupSize := w.groupSize + UInt16.ofNat data.length }

/-- One process group. The two bytes of its size are not counted in `index_size`. -/
def writeGroup (host : Endian) (w : GroupWriter) (pg : IndexProcessGroup) : GroupWriter :=
  let start := w.buf.offset
  let w : GroupWriter := { w with buf := w.buf.skip 2, groupSize := 0 }
  let len := UInt16.ofNat (strlen pg.groupName.val)
  let w := (w.put (host.u16 len)).put (pg.groupName.val.take len.toNat)
  let flag : List UInt8 := if pg.hostLanguageFortran = .yes then chars "y" else chars "n"
  let w := (w.put flag).put (host.u32 pg.processId)
  let timeIndexName := (pg.timeIndexName.getD CString.empty).val
  let len := UInt16.ofNat (strlen timeIndexName)
  let w := (w.put (host.u16 len)).put (timeIndexName.take len.toNat)
  let w := (w.put (host.u32 pg.timeIndex)).put (host.u64 pg.offsetInFile)
  { w with buf := w.buf.patch start (host.u16 w.groupSize) }

def writeGroups (host : Endian) (pgs : List IndexProcessGroup) (buf : Buffer) : Buffer :=
  let start := buf.offset
  let w := pgs.foldl (writeGroup host)
    { buf := buf.skip (8 + 8), indexSize := 0, groupSize := 0 }
  (w.buf.patch start (host.u64 (UInt64.ofNat pgs.length))).patch (start + 8)
    (host.u64 w.indexSize)

/-! ## The whole index -/

/-- The version of the library: `VERSION` and its three numbers. -/
structure Version where
  text : List UInt8
  major : UInt8
  minor : UInt8
  micro : UInt8

/-- "Since ADIOS 1.4": `snprintf (verstr, 25, "ADIOS-BP v%-14.14s", VERSION)` and the numbers. -/
def writeVersionInfo (version : Version) (buf : Buffer) : Buffer :=
  let text := version.text.takeWhile (· ≠ 0)
  let verstr := chars "ADIOS-BP v" ++ text.take 14 ++ List.replicate (14 - text.length) 32
  buf.write (verstr.take 24) |>.write [version.major] |>.write [version.minor]
    |>.write [version.micro] |>.write [0]

/-- What `adios_write_index_v1` leaves: the buffer and its three local start offsets. -/
structure WrittenIndex where
  buf : Buffer
  pgIndexStart : UInt64
  varsIndexStart : UInt64
  attrsIndexStart : UInt64

/-- `adios_write_index_v1`; `indexStart` is where in the file the buffer's offset 0 goes. -/
def writeIndexV1 (host : Endian) (version : Version) (indexStart : UInt64) (index : Index)
    (buf : Buffer) : Except Fault WrittenIndex := do
  let buf := writeGroups host index.pgRoot buf
  let varsIndexStart := UInt64.ofNat buf.offset + indexStart
  let buf ← writeVarsIndex host index.varsRoot buf
  let attrsIndexStart := UInt64.ofNat buf.offset + indexStart
  let buf ← writeAttrsIndex host index.attrsRoot buf
  let buf := writeVersionInfo version buf
  let buf := buf.write (host.u64 indexStart) |>.write (host.u64 varsIndexStart)
    |>.write (host.u64 attrsIndexStart)
  return { buf, pgIndexStart := indexStart, varsIndexStart, attrsIndexStart }

/-- `ADIOS_VERSION_BP_FORMAT` with `ADIOS_VERSION_HAVE_TIME_INDEX_CHARACTERISTIC`, the high bit
set by a big-endian writer. -/
def versionWord (host : Endian) : UInt32 :=
  let test : UInt32 := if host = .big then 0x80000000 else 0
  (test + 2) ||| 0x00000200

/-- `adios_write_version_v1`: the version word in network byte order. -/
def writeVersionV1 (host : Endian) (buf : Buffer) : Buffer :=
  buf.write (Endian.big.u32 (versionWord host))

end Adios
