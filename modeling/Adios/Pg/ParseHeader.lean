import Adios.Index.Parse

/-!
# Adios — parsing the header of a variable

`adios_parse_var_data_header_v1`: the header of a variable in a process group, up to its payload.
It reads the characteristics by a `switch` of its own, which is not that of the index: the length
of a value is in the file for every type, a histogram keeps its minimum, and a statistic of the
other byte order is swapped as a word of the variable's type. The characteristics are put into
what the caller's struct held before.
-/

namespace Adios

open Wire Wire.Parser

/-! ## The header in memory -/

/-- `struct adios_dimension_item_struct_v1` -/
structure DimensionItemV1 where
  rank : UInt64
  varId : UInt32
  timeIndex : Flag
  deriving DecidableEq, Repr

/-- `struct adios_dimension_struct_v1` -/
structure DimensionV1 where
  dimension : DimensionItemV1
  globalDimension : DimensionItemV1
  localOffset : DimensionItemV1
  deriving DecidableEq, Repr

/-- `struct adios_var_header_struct_v1` -/
structure VarHeader where
  id : UInt32
  name : CString
  path : CString
  type : Datatype
  isDim : Flag
  dims : List DimensionV1
  characteristics : IndexCharacteristic
  payloadSize : UInt64
  deriving DecidableEq, Repr

/-- `adios_transform_init_transform_characteristic` -/
def initTransformCharacteristic : Transform where
  transformType := .none
  preTransformType := .unknown
  preTransformDimensions := ⟨0, []⟩
  transformMetadataLen := 0
  transformMetadata := []

/-- The characteristics before the first of them is read; `var_id`, `file_index` and `time_index`
are not set. -/
def IndexCharacteristic.initHeader (prior : IndexCharacteristic) : IndexCharacteristic :=
  { prior with
    offset := 0
    payloadOffset := 0
    stats := none
    value := none
    dims := ⟨0, []⟩
    bitmap := 0
    transform := initTransformCharacteristic }

/-- `adios_transform_get_var_original_type_var_header` -/
def originalTypeVarHeader (type : Datatype) (c : IndexCharacteristic) : Datatype :=
  if c.transform.transformType ≠ .none then c.transform.preTransformType else type

def parseDimensionItem (env : ReadEnv) : Parser Fault DimensionItemV1 := do
  let flag ← ReadEnv.readU8
  if [flag] = chars "y" then
    let varId ← env.readU32
    return { rank := 0, varId, timeIndex := if varId = 0 then .yes else .no }
  else
    let rank ← env.readU64
    return { rank, varId := 0, timeIndex := .no }

def parseDimension (env : ReadEnv) : Parser Fault DimensionV1 := do
  let dimension ← parseDimensionItem env
  let globalDimension ← parseDimensionItem env
  let localOffset ← parseDimensionItem env
  return { dimension, globalDimension, localOffset }

def parseDimensions (env : ReadEnv) : Parser Fault (List DimensionV1) := do
  let dimsCount ← ReadEnv.readU8
  let _dimsLength ← env.readU16
  loop dimsCount.toNat (fun dims => do
    let d ← parseDimension env
    return dims ++ [d]) []

/-! ## Statistics -/

/-- A histogram. `num_breaks * 8` is computed in 32 bits: of the break points no more are copied
than that, and the others are what `malloc` left there. -/
def parseHeaderHist (env : ReadEnv) : Parser Fault StatData := do
  let numBreaks ← env.readU32
  let min ← env.readU64
  let max ← env.readU64
  -- with `num_breaks + 1` wrapped to zero, the swap of the frequencies leaves their array
  require .outOfBounds ¬(env.changeEndianness ∧ numBreaks + 1 = 0)
  let freqBytes ← peek .outOfBounds ((numBreaks + 1).toNat * 4)
  skip (4 * (numBreaks + 1)).toNat
  let frequencies := env.host.u32s (numBreaks + 1).toNat freqBytes
  let breakBytes ← take .outOfBounds (8 * numBreaks).toNat
  let copied := (8 * numBreaks).toNat / 8
  let breaks := env.host.u64s copied breakBytes
    ++ List.replicate (numBreaks.toNat - copied) env.junk
  return .hist
    { min, max, numBreaks
      frequencies := if env.changeEndianness then frequencies.map swap32 else frequencies
      breaks := if env.changeEndianness then breaks.map swap64 else breaks }

/-- `swap_adios_type` at the address of `data`: the word of the type in front is swapped. -/
def swapFront (host : Endian) (type : Datatype) (data : List UInt8) : List UInt8 :=
  let size := (getTypeSize type (some [])).toNat
  swapAdiosType host (data.take size) type ++ data.drop size

/-- The statistic of bit `j`. It is swapped as a word of the type, whatever its own size is. -/
def parseHeaderStat (env : ReadEnv) (type : Datatype) (j : Nat) : Parser Fault StatData :=
  if j = Statistic.hist.bit then parseHeaderHist env
  else
    match getStatSize none type (Statistic.ofBit j) with
    | .error e => fail e
    | .ok characteristicSize => do
      let data ← take .outOfBounds characteristicSize.toNat
      let size := (getTypeSize type (some [])).toNat
      -- a swap of more bytes than the statistic has
      require .outOfBounds
        (env.changeEndianness → size ∈ [2, 4, 8, 16] → size ≤ characteristicSize.toNat)
      return .raw (if env.changeEndianness then swapFront env.host type data else data)

/-- `adios_characteristic_stat`: an array of `ADIOS_STAT_LENGTH` for each component. -/
def parseHeaderStatSets (env : ReadEnv) (type : Datatype) (bitmap : UInt32) :
    Parser Fault (List (List (Option StatData))) := do
  -- `bitmap >> j` is never 0 when the last bit is set
  require .endless (bitmap.toNat < 2147483648)
  require .outOfBounds ((statBits bitmap).length ≤ statLength)
  loop (getStatSetCount type).toNat (fun sets => do
    let stats ← (statBits bitmap).mapM (parseHeaderStat env type)
    return sets ++ [padStats stats]) []

/-! ## Characteristics -/

def parseOldStat (env : ReadEnv) (type : Datatype) : Parser Fault (List UInt8) := do
  let data ← take .outOfBounds (getTypeSize type (some [])).toNat
  return if env.changeEndianness then swapAdiosType env.host data type else data

/-- One characteristic behind its flag: the `switch` of `adios_parse_var_data_header_v1`. The
number of dimensions is skipped. -/
def parseHeaderItem (env : ReadEnv) (type : Datatype) (c : IndexCharacteristic) :
    Option CharacteristicId → Parser Fault IndexCharacteristic
  | some .offset => do
    let offset ← env.readU64
    return { c with offset := offset }
  | some .payloadOffset => do
    let payloadOffset ← env.readU64
    return { c with payloadOffset := payloadOffset }
  | some .transformType => do
    let transform ← deserializeTransformCharacteristic env c.transform
    return { c with transform := transform }
  | some .bitmap => do
    let bitmap ← env.readU32
    return { c with bitmap := bitmap }
  | some .stat => do
    let stats ← parseHeaderStatSets env (originalTypeVarHeader type c) c.bitmap
    return { c with stats := some stats }
  | some .dimensions => do
    -- `//dim_count = *(b->buff + b->offset);`
    skip 1
    let dimLength ← env.readU16
    let dims ← env.readU64Array dimLength
    return { c with dims := { c.dims with dims := dims } }
  -- "Reading min and max here implies older bp file"
  | some .min => do
    let data ← parseOldStat env type
    return setOldStat c Statistic.min.bit (some data)
  | some .max => do
    let data ← parseOldStat env type
    return setOldStat c Statistic.max.bit (some data)
  -- "TODO: do we need byte-swap here?"
  | some .value => do
    let valSize ← env.readU16
    let data ← take .outOfBounds valSize.toNat
    return { c with value := some data }
  -- "these are not in the var header in the PG"
  | some .varId | some .fileIndex | some .timeIndex | none => return c

def parseCharacteristics (env : ReadEnv) (type : Datatype) (prior : IndexCharacteristic) :
    Parser Fault IndexCharacteristic := do
  let characteristicsCount ← ReadEnv.readU8
  let _characteristicsLength ← env.readU32
  loop characteristicsCount.toNat (fun c => do
    let flag ← ReadEnv.readU8
    parseHeaderItem env type c (CharacteristicId.ofFlag flag)) prior.initHeader

/-- What `adios_parse_var_data_header_v1` reads; for the size of the payload there is still
`length_of_var`. -/
def parseVarHeader (env : ReadEnv) (prior : IndexCharacteristic) : Parser Fault VarHeader := do
  let lengthOfVar ← env.readU64
  let id ← env.readU32
  let name ← env.readLengthString
  let path ← env.readLengthString
  let flag ← ReadEnv.readU8
  let type := Datatype.ofCode flag
  let isDim ← ReadEnv.readU8
  let dims ← parseDimensions env
  let characteristics ← parseCharacteristics env type prior
  return { id, name, path, type, isDim := if [isDim] = chars "y" then .yes else .no, dims,
           characteristics, payloadSize := lengthOfVar }

/-- `adios_parse_var_data_header_v1` into a struct whose characteristics are `prior`. -/
def parseVarDataHeaderV1 (env : ReadEnv) (prior : IndexCharacteristic) :
    Parser Fault VarHeader := do
  let unread ← remaining
  require .invalidBuffer (23 ≤ unread)
  let (header, length) ← measured (parseVarHeader env prior)
  return { header with payloadSize := header.payloadSize - UInt64.ofNat length }

/-! ## What every header that is read has -/

variable (env : ReadEnv)

theorem yields_parseDimensions :
    Yields (parseDimensions env) fun dims => dims.length < 256 := by
  refine Yields.bind' fun dimsCount => Yields.bind' fun _ => ?_
  have hloop : Yields (loop dimsCount.toNat (fun dims => do
        let d ← parseDimension env
        return dims ++ [d]) [])
      fun dims : List DimensionV1 => dims.length = 0 + dimsCount.toNat :=
    Yields.loop_count (J := fun k (dims : List DimensionV1) => dims.length = k)
      (fun k dims hk => Yields.bind' fun d => Yields.pure (by rw [List.length_append, hk]; rfl))
      dimsCount.toNat 0 rfl
  refine hloop.mono fun dims hdims => ?_
  rw [hdims, Nat.zero_add]
  exact dimsCount.toNat_lt

theorem yields_parseHeaderItem (type : Datatype) (c : IndexCharacteristic)
    (id : Option CharacteristicId) :
    Yields (parseHeaderItem env type c id) fun c' => c'.dims.count = c.dims.count := by
  unfold parseHeaderItem
  split <;> try exact Yields.bind' fun _ => Yields.pure rfl
  · -- the dimensions
    exact Yields.bind' fun _ => Yields.bind' fun _ => Yields.bind' fun _ => Yields.pure rfl
  · -- a value
    exact Yields.bind' fun _ => Yields.bind' fun _ => Yields.pure rfl
  all_goals exact Yields.pure rfl

theorem yields_parseCharacteristics (type : Datatype) (prior : IndexCharacteristic) :
    Yields (parseCharacteristics env type prior) fun c => c.dims.count = 0 := by
  refine Yields.bind' fun count => Yields.bind' fun _ =>
    Yields.loop (I := fun c : IndexCharacteristic => c.dims.count = 0) (fun c hc => ?_) _ rfl
  exact Yields.bind' fun flag =>
    (yields_parseHeaderItem env type c _).mono fun c' hc' => hc'.trans hc

theorem yields_parseVarDataHeaderV1 (prior : IndexCharacteristic) :
    Yields (parseVarDataHeaderV1 env prior) fun header =>
      header.dims.length < 256 ∧ header.characteristics.dims.count = 0 := by
  have hheader : Yields (parseVarHeader env prior) fun header =>
      header.dims.length < 256 ∧ header.characteristics.dims.count = 0 := by
    unfold parseVarHeader
    refine Yields.bind' fun _ => Yields.bind' fun _ => Yields.bind' fun _ => Yields.bind' fun _ =>
      Yields.bind' fun flag => Yields.bind' fun _ => ?_
    refine (yields_parseDimensions env).bind fun dims hdims => ?_
    exact (yields_parseCharacteristics env _ prior).bind fun c hc => Yields.pure ⟨hdims, hc⟩
  refine Yields.bind' fun _ => Yields.bind' fun _ => ?_
  exact (Yields.measured hheader).bind fun r hr => Yields.pure hr

end Adios
