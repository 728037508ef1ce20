import Adios.Endianness
import Adios.Index.Write
import Adios.Wire.Parser

/-!
# Adios — parsing the index

`core/adios_bp_v1.c`: the decoder that the writer uses to append to a file and to merge the
indexes of other processes. It reads from the unread bytes of the buffer; a read past their end
is a fault. None of the lengths that the image carries is looked at.

The list comes back in file order; the caller's tail pointer is its last entry and the caller's
hash table has every entry put into it in this order.
-/

namespace Adios

open Wire Wire.Parser

/-- What the decoders depend on besides the buffer: the byte order of the machine,
`b->change_endianness`, and what memory fresh from `malloc` holds. -/
structure ReadEnv where
  host : Endian
  changeEndianness : Bool
  junk : UInt64

/-- What `hist->min` holds after a histogram is read: nothing is stored there, but it is
swapped. -/
def ReadEnv.histMin (env : ReadEnv) : UInt64 :=
  if env.changeEndianness then swap64 env.junk else env.junk

/-! ## Reading words -/

namespace ReadEnv

variable (env : ReadEnv)

/-- `*(uint8_t *) (b->buff + b->offset)` -/
def readU8 : Parser Fault UInt8 := do
  let bs ← take .outOfBounds 1
  return bs.headD 0

/-- `*(uint16_t *) (b->buff + b->offset)` and its swap. -/
def readU16 : Parser Fault UInt16 := do
  let bs ← take .outOfBounds 2
  let x := env.host.toU16 bs
  return if env.changeEndianness then swap16 x else x

/-- `*(uint32_t *) (b->buff + b->offset)` and its swap. -/
def readU32 : Parser Fault UInt32 := do
  let bs ← take .outOfBounds 4
  let x := env.host.toU32 bs
  return if env.changeEndianness then swap32 x else x

/-- `*(uint64_t *) (b->buff + b->offset)` and its swap. -/
def readU64 : Parser Fault UInt64 := do
  let bs ← take .outOfBounds 8
  let x := env.host.toU64 bs
  return if env.changeEndianness then swap64 x else x

/-- `memcpy` of an array of `len` bytes and the swap of its words. -/
def readU64Array (len : UInt16) : Parser Fault (List UInt64) := do
  let bs ← take .outOfBounds len.toNat
  let xs := env.host.u64s (len.toNat / 8) bs
  return if env.changeEndianness then xs.map swap64 else xs

/-- A string of `len` characters. -/
def readString (len : UInt16) : Parser Fault CString := do
  let bs ← take .outOfBounds len.toNat
  return CString.ofBuffer bs

def readLengthString : Parser Fault CString := do
  let len ← env.readU16
  readString len

end ReadEnv

/-- `data_size`: in the file for a string, by the type otherwise. -/
def readDataSize (env : ReadEnv) (type : Datatype) : Parser Fault UInt16 :=
  if type = .string then env.readU16 else pure (getTypeSize type (some [])).toUInt16

/-- The value of a characteristic: `memcpy` and a swap of the whole. For complex numbers the
swap is "TODO". -/
def parseValue (env : ReadEnv) (type : Datatype) : Parser Fault (Option (List UInt8)) := do
  let dataSize ← readDataSize env type
  match type with
  | .byte | .short | .integer | .long | .unsignedByte | .unsignedShort | .unsignedInteger
  | .unsignedLong | .real | .double | .longDouble | .complex | .doubleComplex => do
    let data ← take .outOfBounds dataSize.toNat
    return some (if env.changeEndianness ∧ type ≠ .complex ∧ type ≠ .doubleComplex then
      swapPtr env.host data (dataSize.toNat * 8) else data)
  | .string => do
    let data ← take .outOfBounds dataSize.toNat
    return some data
  | .unknown | .other _ => return none

/-! ## Statistics -/

/-- `stats[0][k].data = data` and `bitmap |= (1 << k)` for the minimum and maximum of an older
file, whose first use allocates two places. -/
def setOldStat (c : IndexCharacteristic) (k : Nat) (data : Option (List UInt8)) :
    IndexCharacteristic :=
  let bitmap := if c.stats.isNone then 0 else c.bitmap
  let stats := c.stats.getD [[none, none]]
  { c with
    stats := some (stats.modify 0 fun slots => slots.set k (data.map StatData.raw))
    bitmap := bitmap ||| UInt32.ofNat (2 ^ k) }

/-- A histogram. Both words in front of the frequencies go to `hist->max`; `hist->min` keeps
what `malloc` left there. The arrays are copied with 64-bit sizes and skipped with 32-bit
ones. -/
def parseHist (env : ReadEnv) : Parser Fault StatData := do
  let numBreaks ← env.readU32
  let _ ← take .outOfBounds 8
  let min := env.histMin
  let max ← env.readU64
  -- with `num_breaks + 1` wrapped to zero, the swap of the frequencies leaves their array
  require .outOfBounds ¬(env.changeEndianness ∧ numBreaks + 1 = 0)
  let freqBytes ← peek .outOfBounds ((numBreaks + 1).toNat * 4)
  skip (4 * (numBreaks + 1)).toNat
  let frequencies := env.host.u32s (numBreaks + 1).toNat freqBytes
  let breakBytes ← peek .outOfBounds (numBreaks.toNat * 8)
  skip (8 * numBreaks).toNat
  let breaks := env.host.u64s numBreaks.toNat breakBytes
  return .hist
    { min, max, numBreaks
      frequencies := if env.changeEndianness then frequencies.map swap32 else frequencies
      breaks := if env.changeEndianness then breaks.map swap64 else breaks }

/-- The statistic of bit `k`. -/
def parseStat (env : ReadEnv) (type : Datatype) (k : Nat) : Parser Fault StatData := do
  if k = Statistic.hist.bit then
    parseHist env
  else
    match getStatSize none type (Statistic.ofBit k) with
    | .error e => fail e
    | .ok size => do
      let characteristicSize := size.toUInt16
      let data ← take .outOfBounds characteristicSize.toNat
      return .raw (if env.changeEndianness then
        swapPtr env.host data (characteristicSize.toNat * 8) else data)

def parseStats (env : ReadEnv) (type : Datatype) : List Nat → Parser Fault (List StatData)
  | [] => pure []
  | k :: bits => do
    let stat ← parseStat env type k
    let stats ← parseStats env type bits
    return stat :: stats

/-- `adios_characteristic_stat` -/
def parseStatSets (env : ReadEnv) (type : Datatype) (bitmap : UInt32) :
    Parser Fault (List (List (Option StatData))) := do
  -- `stats [c][k].data = 0` is past the end of the array from `ADIOS_STAT_LENGTH` on
  require .outOfBounds (bitmap.toNat < 2 ^ statLength)
  loop (getStatSetCount type).toNat (fun sets => do
    let stats ← parseStats env type (statBits bitmap)
    return sets ++ [padStats stats]) []

/-- `adios_transform_deserialize_transform_characteristic` into `transform`. -/
def deserializeTransformCharacteristic (env : ReadEnv) (transform : Transform) :
    Parser Fault Transform := do
  let uidLen ← ReadEnv.readU8
  let uid ← take .outOfBounds uidLen.toNat
  let transformType := transformFindTypeByUid uid
  let preTransformType ← ReadEnv.readU8
  let count ← ReadEnv.readU8
  let len ← env.readU16
  -- "Make sure length and count match up"
  require .assertion (len.toNat = 3 * 8 * count.toNat)
  -- `uint8_t i` never reaches a bound above its maximum
  require .endless (3 * count.toNat ≤ 255)
  let dims ← env.readU64Array len
  let metaLen ← env.readU16
  let metadata ← take .outOfBounds metaLen.toNat
  return { transformType := transformType
           preTransformType := Datatype.ofCode preTransformType
           preTransformDimensions := ⟨count, dims⟩
           transformMetadataLen := if metaLen ≠ 0 then metaLen else transform.transformMetadataLen
           transformMetadata := metadata }

/-! ## Characteristics sets -/

def parseDims (env : ReadEnv) : Parser Fault Dims := do
  let count ← ReadEnv.readU8
  let dimsLength ← env.readU16
  let dims ← env.readU64Array dimsLength
  return ⟨count, dims⟩

/-- One characteristic of a variable behind its flag: `adios_parse_vars_index_v1`'s `switch`.
`first` is `characteristics[0]` when `c` is a later one. -/
def parseVarItem (env : ReadEnv) (type : Datatype) (first : Option IndexCharacteristic)
    (c : IndexCharacteristic) : Option CharacteristicId → Parser Fault IndexCharacteristic
  | some .value => do
    let data ← parseValue env type
    return { c with value := data }
  | some .min => do
    let data ← parseValue env type
    return setOldStat c Statistic.min.bit data
  | some .max => do
    let data ← parseValue env type
    return setOldStat c Statistic.max.bit data
  | some .stat => do
    let stats ← parseStatSets env (originalTypeIndex type (first.getD c)) c.bitmap
    return { c with stats := some stats }
  | some .bitmap => do
    let bitmap ← env.readU32
    return { c with bitmap := bitmap }
  | some .offset => do
    let offset ← env.readU64
    return { c with offset := offset }
  | some .payloadOffset => do
    let payloadOffset ← env.readU64
    return { c with payloadOffset := payloadOffset }
  | some .fileIndex => do
    let fileIndex ← env.readU32
    return { c with fileIndex := fileIndex }
  | some .timeIndex => do
    let timeIndex ← env.readU32
    return { c with timeIndex := timeIndex }
  | some .dimensions => do
    let dims ← parseDims env
    return { c with dims := dims }
  | some .transformType => do
    let transform ← deserializeTransformCharacteristic env c.transform
    return { c with transform := transform }
  -- "this cannot happen, only attributes have variable references"
  | some .varId => return c
  | none => return c

/-- One characteristic of an attribute behind its flag: `adios_parse_attributes_index_v1`'s
`switch`. A bitmap is stored as the offset. -/
def parseAttrItem (env : ReadEnv) (type : Datatype) (c : IndexCharacteristic) :
    Option CharacteristicId → Parser Fault IndexCharacteristic
  | some .value => do
    let data ← parseValue env type
    return { c with value := data }
  | some .offset => do
    let offset ← env.readU64
    return { c with offset := offset }
  | some .bitmap => do
    let bs ← take .outOfBounds 4
    let low := (env.host.toU32 bs).toUInt64
    -- `swap_32` of the 64-bit field swaps the four bytes at its address
    return { c with offset := if env.changeEndianness then
      env.host.toU64 (swap32Ptr env.host ((env.host.u64 low).take 4)
        ++ (env.host.u64 low).drop 4) else low }
  | some .payloadOffset => do
    let payloadOffset ← env.readU64
    return { c with payloadOffset := payloadOffset }
  | some .fileIndex => do
    let fileIndex ← env.readU32
    return { c with fileIndex := fileIndex }
  | some .timeIndex => do
    let timeIndex ← env.readU32
    return { c with timeIndex := timeIndex }
  | some .varId => do
    let varId ← env.readU32
    return { c with varId := varId }
  | some .transformType => do
    let transform ← deserializeTransformCharacteristic env c.transform
    return { c with transform := transform }
  | _ => return c

def parseSet (env : ReadEnv) (parseItem : IndexCharacteristic → Option CharacteristicId →
      Parser Fault IndexCharacteristic) : Parser Fault IndexCharacteristic := do
  let characteristicSetCount ← ReadEnv.readU8
  let _characteristicSetLength ← env.readU32
  loop characteristicSetCount.toNat (fun c => do
    let flag ← ReadEnv.readU8
    parseItem c (CharacteristicId.ofFlag flag)) .zero

/-! ## Entries -/

/-- One entry; `parseItem` knows the entry's type and its first characteristics set. -/
def parseEntry (env : ReadEnv)
    (parseItem : Datatype → Option IndexCharacteristic → IndexCharacteristic →
      Option CharacteristicId → Parser Fault IndexCharacteristic) : Parser Fault IndexEntry := do
  let _entryLength ← env.readU32
  let id ← env.readU32
  let groupName ← env.readLengthString
  let name ← env.readLengthString
  let path ← env.readLengthString
  let flag ← ReadEnv.readU8
  let type := Datatype.ofCode flag
  let characteristicsSetsCount ← env.readU64
  let characteristics ← loop characteristicsSetsCount.toNat (fun sets => do
    let c ← parseSet env (parseItem type sets.head?)
    return sets ++ [c]) []
  return { id, groupName, name, path, type, characteristics }

/-- The count, the length and the entries of a section. The loop counter is an `int`. -/
def parseEntries (env : ReadEnv)
    (parseItem : Datatype → Option IndexCharacteristic → IndexCharacteristic →
      Option CharacteristicId → Parser Fault IndexCharacteristic) :
    Parser Fault (List IndexEntry) := do
  let unread ← remaining
  require .invalidBuffer (10 ≤ unread)
  let count ← env.readU32
  let _length ← env.readU64
  require .signedOverflow (count.toNat < 2 ^ 31)
  loop count.toNat (fun root => do
    let entry ← parseEntry env parseItem
    return root ++ [entry]) []

/-- `adios_parse_vars_index_v1` -/
def parseVarsIndexV1 (env : ReadEnv) : Parser Fault (List IndexEntry) :=
  parseEntries env (parseVarItem env)

/-- `adios_parse_attributes_index_v1` -/
def parseAttributesIndexV1 (env : ReadEnv) : Parser Fault (List IndexEntry) :=
  parseEntries env fun type _ => parseAttrItem env type

/-! ## Process groups and the footer -/

def parseGroup (env : ReadEnv) : Parser Fault IndexProcessGroup := do
  let _lengthOfGroup ← env.readU16
  let groupName ← env.readLengthString
  let flag ← ReadEnv.readU8
  let processId ← env.readU32
  let timeIndexName ← env.readLengthString
  let timeIndex ← env.readU32
  let offsetInFile ← env.readU64
  return { groupName
           hostLanguageFortran := if [flag] = chars "y" then .yes else .no
           processId
           timeIndexName := some timeIndexName
           timeIndex
           offsetInFile }

/-- `adios_parse_process_group_index_v1` -/
def parseProcessGroupIndexV1 (env : ReadEnv) : Parser Fault (List IndexProcessGroup) := do
  let unread ← remaining
  require .invalidBuffer (16 ≤ unread)
  let count ← env.readU64
  let _length ← env.readU64
  loop count.toNat (fun root => do
    let pg ← parseGroup env
    return root ++ [pg]) []

/-- `adios_parse_version` with the version word next: `*version` and `b->change_endianness`;
`length` is `b->length`. The first and the last byte of the word in memory decide which byte
order wrote it. -/
def parseVersion (host : Endian) (length : Nat) : Parser Fault (UInt32 × Bool) := do
  require .invalidBuffer (4 ≤ length)
  let bs ← take .outOfBounds 4
  let version := Endian.big.toU32 bs
  let v := host.u32 version
  let same : Bool := (v.headD 0 ≠ 0 ∧ host = .big) ∨ (v.getD 3 0 = 0 ∧ host = .little)
  return (version &&& 0x7fffffff, !same)

/-- The offsets and sizes that `adios_parse_index_offsets_v1` sets in the buffer. -/
structure IndexOffsets where
  endOfPgs : UInt64
  pgIndexOffset : UInt64
  pgSize : UInt64
  varsIndexOffset : UInt64
  varsSize : UInt64
  attrsIndexOffset : UInt64
  attrsSize : UInt64
  deriving DecidableEq, Repr

/-- `adios_parse_index_offsets_v1` -/
def parseIndexOffsetsV1 (env : ReadEnv) (fileSize : UInt64) : Parser Fault IndexOffsets := do
  let unread ← remaining
  require .invalidBuffer (24 ≤ unread)
  let attrsEnd := fileSize - 28
  let pgIndexOffset ← env.readU64
  let varsIndexOffset ← env.readU64
  let attrsIndexOffset ← env.readU64
  return { endOfPgs := pgIndexOffset
           pgIndexOffset
           pgSize := varsIndexOffset - pgIndexOffset
           varsIndexOffset
           varsSize := attrsIndexOffset - varsIndexOffset
           attrsIndexOffset
           attrsSize := attrsEnd - attrsIndexOffset }

end Adios
