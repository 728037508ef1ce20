import Adios.Index.Parse

/-!
# Adios — the reader's decoder of the variables index

`core/bp_utils.c`: `bp_parse_vars` with `bp_parse_characteristics` and
`bp_read_data_from_buffer`, the decoder of the read methods. Unlike the one in
`core/adios_bp_v1.c` it makes up statistics for a variable that has a value, and a time index
where the file has none.

The arithmetic on `float` and `double` behind the statistics of a value is a parameter.
-/

namespace Adios

open Wire Wire.Parser

structure BpFile where
  version : UInt32
  pgsCount : UInt64
  tidxStart : UInt32
  tidxStop : UInt32

/-- The floating point operations on a value of a type, and a component of it if it is complex:
their results as the bytes of a `double`, the magnitude as those of the component's type. -/
structure ValueArith where
  toDouble : Datatype → Nat → List UInt8 → List UInt8
  square : Datatype → Nat → List UInt8 → List UInt8
  magnitude : Datatype → List UInt8 → List UInt8

/-- `bp_get_type_size (type, "")` as the 16 bits of `data_size`. -/
def bpDataSize (type : Datatype) : UInt16 :=
  match type with
  | .byte | .unsignedByte => 1
  | .string => 1
  | .short | .unsignedShort => 2
  | .integer | .unsignedInteger | .real => 4
  | .long | .unsignedLong | .double => 8
  | .longDouble => 16
  | .complex => 2 * 4
  | .doubleComplex => 2 * 8
  | .unknown | .other _ => 0xffff

/-- A string of `bp_read_data_from_buffer`, with the length in an `int16_t`: the allocation of a
negative number of bytes fails, and that of none does not. -/
def bpReadString (env : ReadEnv) : Parser Fault (Option (List UInt8)) := do
  let dataSize ← env.readU16
  if dataSize < 0x8000 then do
    let data ← take .outOfBounds dataSize.toNat
    return some data
  else if dataSize = 0xffff then fail .wildPointer
  else return none

/-- `bp_read_data_from_buffer` -/
def bpReadDataFromBuffer (env : ReadEnv) (type : Datatype) : Parser Fault (Option (List UInt8)) :=
  match type with
  | .byte | .short | .integer | .long | .unsignedByte | .unsignedShort | .unsignedInteger
  | .unsignedLong | .real | .double | .longDouble => do
    let data ← take .outOfBounds (bpDataSize type).toNat
    return some (if env.changeEndianness then
      swapPtr env.host data ((bpDataSize type).toNat * 8) else data)
  | .complex => do
    let data ← take .outOfBounds (bpDataSize type).toNat
    return some (if env.changeEndianness then
      swap32Ptr env.host (data.take 4) ++ swap32Ptr env.host (data.drop 4) else data)
  | .doubleComplex => do
    let data ← take .outOfBounds (bpDataSize type).toNat
    return some (if env.changeEndianness then
      swap64Ptr env.host (data.take 8) ++ swap64Ptr env.host (data.drop 8) else data)
  | .string => bpReadString env
  -- the allocation of -1 bytes fails
  | .unknown | .other _ => return none

/-! ## Statistics of a value -/

/-- Memory fresh from `malloc`. -/
def ReadEnv.uninit (env : ReadEnv) (n : Nat) : List UInt8 :=
  (env.host.u64 env.junk ++ env.host.u64 env.junk).take n

def ReadEnv.store (env : ReadEnv) (n : Nat) (data : List UInt8) : List UInt8 :=
  data ++ (env.uninit n).drop data.length

/-- What the `switch` on the type stores for a value, at place `idx` of component `c`. -/
def valueStatData (arith : ValueArith) (type : Datatype) (c idx : Nat) (value : List UInt8) :
    List UInt8 :=
  match type with
  | .byte | .short | .integer | .long | .unsignedByte | .unsignedShort | .unsignedInteger
  | .unsignedLong | .real | .double =>
    if idx = Statistic.min.bit ∨ idx = Statistic.max.bit then value.take (bpDataSize type).toNat
    else if idx = Statistic.sum.bit then arith.toDouble type 0 value
    else if idx = Statistic.sumSquare.bit then arith.square type 0 value
    else []
  | .complex =>
    if idx = Statistic.min.bit ∨ idx = Statistic.max.bit then
      if c = 0 then value.take 4 else if c = 1 then (value.drop 4).take 4
      else arith.magnitude type value
    else if idx = Statistic.sum.bit then arith.toDouble type c value
    else if idx = Statistic.sumSquare.bit then arith.square type c value
    else []
  | .doubleComplex =>
    if idx = Statistic.min.bit ∨ idx = Statistic.max.bit ∨ idx = Statistic.sum.bit then
      if c = 0 then value.take 8 else if c = 1 then (value.drop 8).take 8
      else arith.magnitude type value
    else if idx = Statistic.sumSquare.bit then arith.square type c value
    else []
  -- "I don't think long double is currently supported for stats."
  | .longDouble | .string | .unknown | .other _ => []

/-- One statistic of a value: room for it, the count, and what the `switch` stores. -/
def valueStat (env : ReadEnv) (arith : ValueArith) (type : Datatype) (c idx bit : Nat)
    (value : List UInt8) : Except Fault StatData := do
  let size ← getStatSize none type (Statistic.ofBit bit)
  let characteristicSize := size.toUInt16.toNat
  let data := if idx = Statistic.cnt.bit then env.host.u32 1
    else valueStatData arith type c idx value
  return .raw (env.store characteristicSize data)

/-- The statistics of a value for one component: `idx` counts the bits found. -/
def valueStats (env : ReadEnv) (arith : ValueArith) (type : Datatype) (c : Nat)
    (value : List UInt8) : Nat → List Nat → Except Fault (List StatData)
  | _, [] => .ok []
  | idx, bit :: bits => do
    let stat ← valueStat env arith type c idx bit value
    let stats ← valueStats env arith type c value (idx + 1) bits
    return stat :: stats

/-- `1 << adios_statistic_min` and the four other bits that a value sets. -/
def valueBitmap : UInt32 := 0x1f

/-- `adios_characteristic_value`, with the value read: the bits and the statistics that the
reader makes up. -/
def addValueStats (env : ReadEnv) (arith : ValueArith) (type : Datatype) (value : List UInt8)
    (c : IndexCharacteristic) : Except Fault IndexCharacteristic := do
  let bitmap := (if c.stats.isNone then 0 else c.bitmap) ||| valueBitmap
  -- `stats[c][i].data = 0` is past the end of the array from `ADIOS_STAT_LENGTH` on
  if 2 ^ statLength ≤ bitmap.toNat then throw .outOfBounds
  let stats ← (List.range (getStatSetCount type).toNat).mapM fun k =>
    valueStats env arith type k value 0 (statBits bitmap)
  return { c with bitmap := bitmap, stats := some (stats.map padStats) }

/-! ## Characteristics -/

/-- `n` words read one after the other. -/
def bpReadWords {α : Type} (read : Parser Fault α) (n : Nat) : Parser Fault (List α) :=
  loop n (fun xs => do
    let x ← read
    return xs ++ [x]) []

/-- `* (double *) bp_read_data_from_buffer (b, adios_double)` -/
def bpReadDouble (env : ReadEnv) : Parser Fault UInt64 := do
  let data ← bpReadDataFromBuffer env .double
  match data with
  | some bytes => return env.host.toU64 bytes
  | none => fail .wildPointer

/-- A histogram. Its frequencies are as many as `bi <= hist->num_breaks` has rounds. -/
def bpParseHist (env : ReadEnv) : Parser Fault StatData := do
  let numBreaks ← env.readU32
  let min ← bpReadDouble env
  let max ← bpReadDouble env
  require .endless (numBreaks ≠ 0xffffffff)
  let frequencies ← bpReadWords env.readU32 (numBreaks.toNat + 1)
  let breaks ← bpReadWords (bpReadDouble env) numBreaks.toNat
  return .hist { min, max, numBreaks, frequencies, breaks }

/-- The statistic of bit `k`. -/
def bpParseStat (env : ReadEnv) (type : Datatype) (k : Nat) : Parser Fault StatData :=
  if k = Statistic.hist.bit then bpParseHist env else parseStat env type k

def bpParseStats (env : ReadEnv) (type : Datatype) : List Nat → Parser Fault (List StatData)
  | [] => pure []
  | k :: bits => do
    let stat ← bpParseStat env type k
    let stats ← bpParseStats env type bits
    return stat :: stats

/-- `adios_characteristic_stat` -/
def bpParseStatSets (env : ReadEnv) (type : Datatype) (bitmap : UInt32) :
    Parser Fault (List (List (Option StatData))) := do
  require .outOfBounds (bitmap.toNat < 2 ^ statLength)
  loop (getStatSetCount type).toNat (fun sets => do
    let stats ← bpParseStats env type (statBits bitmap)
    return sets ++ [padStats stats]) []

def bpParseDims (env : ReadEnv) : Parser Fault Dims := do
  let count ← ReadEnv.readU8
  let dimsLength ← env.readU16
  let dims ← bpReadWords env.readU64 (dimsLength.toNat / 8)
  return ⟨count, dims⟩

/-- The value and what is made up from it. Only a string or a value of no type can be missing,
and from these nothing is stored. -/
def bpParseValue (env : ReadEnv) (arith : ValueArith) (type : Datatype)
    (c : IndexCharacteristic) : Parser Fault IndexCharacteristic := do
  let data ← bpReadDataFromBuffer env type
  match addValueStats env arith type (data.getD []) { c with value := data } with
  | .ok c => return c
  | .error e => fail e

/-- `bp_parse_characteristics` behind the flag. `first` is `characteristics[0]` when `c` is a
later one. -/
def bpParseCharacteristics (env : ReadEnv) (arith : ValueArith) (type : Datatype)
    (first : Option IndexCharacteristic) (c : IndexCharacteristic) :
    Option CharacteristicId → Parser Fault IndexCharacteristic
  | some .value => bpParseValue env arith (originalTypeIndex type (first.getD c)) c
  | some .max => do
    let data ← bpReadDataFromBuffer env (originalTypeIndex type (first.getD c))
    return setOldStat c Statistic.max.bit data
  | some .min => do
    let data ← bpReadDataFromBuffer env (originalTypeIndex type (first.getD c))
    return setOldStat c Statistic.min.bit data
  | some .stat => do
    let stats ← bpParseStatSets env (originalTypeIndex type (first.getD c)) c.bitmap
    return { c with stats := some stats }
  | some .bitmap => do
    let bitmap ← env.readU32
    return { c with bitmap := bitmap }
  | some .transformType => do
    let transform ← deserializeTransformCharacteristic env c.transform
    return { c with transform := transform }
  | some .offset => do
    let offset ← env.readU64
    return { c with offset := offset }
  | some .payloadOffset => do
    let payloadOffset ← env.readU64
    return { c with payloadOffset := payloadOffset }
  | some .fileIndex => do
    let fileIndex ← env.readU32
    return { c with fileIndex := fileIndex }
  | some .timeIndex => do
    let timeIndex ← env.readU32
    return { c with timeIndex := timeIndex }
  | some .dimensions => do
    let dims ← bpParseDims env
    return { c with dims := dims }
  -- "Unknown characteristic: %d. skipped."
  | some .varId => return c
  | none => return c

/-! ## Entries -/

/-- `mh->pgs_count / (fh->tidx_stop - fh->tidx_start + 1)`, zero also where it is not defined. -/
def BpFile.pgsPerStep (fh : BpFile) : UInt64 :=
  fh.pgsCount / (fh.tidxStop - fh.tidxStart + 1).toUInt64

/-- "Old BP files do not have time_index characteristics, so we set it here automatically" -/
def BpFile.timeIndex (fh : BpFile) (j : Nat) (timeIndex : UInt32) : UInt32 :=
  if timeIndex = 0 then (UInt64.ofNat j / fh.pgsPerStep + 1).toUInt32 else timeIndex

def bpParseSet (env : ReadEnv) (fh : BpFile) (j : Nat)
    (parseItem : IndexCharacteristic → Option CharacteristicId →
      Parser Fault IndexCharacteristic) : Parser Fault IndexCharacteristic := do
  let c ← parseSet env parseItem
  require .divisionByZero (c.timeIndex = 0 → fh.pgsPerStep ≠ 0)
  return { c with timeIndex := fh.timeIndex j c.timeIndex }

/-- `(*root)->id`: two bytes up to version 1. -/
def bpReadId (env : ReadEnv) (fh : BpFile) : Parser Fault UInt32 :=
  if 1 < fh.version &&& 0xff then env.readU32 else UInt16.toUInt32 <$> env.readU16

def bpParseVar (env : ReadEnv) (arith : ValueArith) (fh : BpFile) : Parser Fault IndexEntry := do
  let _varEntryLength ← env.readU32
  let id ← bpReadId env fh
  let groupName ← env.readLengthString
  let name ← env.readLengthString
  let path ← env.readLengthString
  let flag ← ReadEnv.readU8
  let type := Datatype.ofCode flag
  let characteristicsSetsCount ← env.readU64
  let characteristics ← loop characteristicsSetsCount.toNat (fun sets => do
    let c ← bpParseSet env fh sets.length (bpParseCharacteristics env arith type sets.head?)
    return sets ++ [c]) []
  return { id, groupName, name, path, type, characteristics }

/-- `bp_parse_vars`: the list `fh->vars_root`. The loops over the variables, and the one over
the sets of each that fills `var_offsets` afterwards, count with an `int`. -/
def bpParseVars (env : ReadEnv) (arith : ValueArith) (fh : BpFile) :
    Parser Fault (List IndexEntry) := do
  let unread ← remaining
  require .invalidBuffer (10 ≤ unread)
  let varsCount ← bpReadId env fh
  let _varsLength ← env.readU64
  require .signedOverflow (varsCount.toNat < 2 ^ 31)
  let vars ← loop varsCount.toNat (fun root => do
    let entry ← bpParseVar env arith fh
    return root ++ [entry]) []
  require .signedOverflow (∀ v ∈ vars, v.characteristics.length < 2 ^ 31)
  return vars

end Adios
