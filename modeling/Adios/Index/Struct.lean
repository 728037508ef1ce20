import Adios.Types

/-!
# Adios — the index in memory

The structures of `core/adios_bp_v1.h`. An array and its count are one list; a null pointer to
an array that the code tests is `none`. The variable and the attribute entry have the same
fields under different names, so both are an `IndexEntry`.
-/

namespace Adios

/-! ## Strings -/

abbrev CString := { s : List UInt8 // ∀ c ∈ s, c ≠ 0 }

namespace CString

/-- The C string in a buffer: what `strncpy` and a terminating NUL make of it. -/
def ofBuffer (bs : List UInt8) : CString :=
  ⟨bs.takeWhile (· ≠ 0), fun c hc => by simpa using List.mem_takeWhile_imp hc⟩

@[simp] theorem ofBuffer_val (s : CString) : ofBuffer s.val = s :=
  Subtype.ext (List.takeWhile_eq_self_iff.mpr fun c hc => by simpa using s.property c hc)

/-- `""` -/
def empty : CString := ⟨[], by simp⟩

@[simp] theorem strlen_val (s : CString) : strlen s.val = s.val.length :=
  strlen_of_forall s.property

end CString

/-! ## Characteristics -/

/-- `struct adios_index_characteristic_dims_struct_v1`: three numbers (local, global, offset)
for each dimension. -/
structure Dims where
  count : UInt8
  dims : List UInt64
  deriving DecidableEq, Repr

def Dims.Wf (d : Dims) : Prop := d.dims.length = 3 * d.count.toNat

instance (d : Dims) : Decidable d.Wf := inferInstanceAs (Decidable (_ = _))

/-- `struct adios_index_characteristic_transform_struct` -/
structure Transform where
  transformType : TransformType
  preTransformType : Datatype
  preTransformDimensions : Dims
  transformMetadataLen : UInt16
  transformMetadata : List UInt8
  deriving DecidableEq, Repr

def Transform.zero : Transform := ⟨.none, .byte, ⟨0, []⟩, 0, []⟩

/-- `struct adios_index_characteristic_struct_v1`. `stats` has one array for each component of
the type; the statistics that are there stand at its front. -/
structure IndexCharacteristic where
  offset : UInt64
  dims : Dims
  varId : UInt32
  value : Option (List UInt8)
  payloadOffset : UInt64
  fileIndex : UInt32
  timeIndex : UInt32
  bitmap : UInt32
  stats : Option (List (List (Option StatData)))
  transform : Transform
  deriving DecidableEq, Repr

/-- All bytes zero: what `memset` makes of a new characteristic. -/
def IndexCharacteristic.zero : IndexCharacteristic :=
  { offset := 0, dims := ⟨0, []⟩, varId := 0, value := none, payloadOffset := 0, fileIndex := 0,
    timeIndex := 0, bitmap := 0, stats := none, transform := .zero }

/-- The bits that the loops over a statistics bitmap find set, in the order they find them:
the values of `j` with `(bitmap >> j) & 1`, up to the last one with `bitmap >> j`. -/
def statBits (bitmap : UInt32) : List Nat :=
  (List.range 32).filter fun j => bitmap.toNat.testBit j

/-- The array the statistics of one component are kept in, with `ADIOS_STAT_LENGTH` places. -/
def padStats (stats : List StatData) : List (Option StatData) :=
  stats.map some ++ List.replicate (statLength - stats.length) none

/-! ## Entries -/

/-- `struct adios_index_var_struct_v1` and `struct adios_index_attribute_struct_v1`. -/
structure IndexEntry where
  id : UInt32
  groupName : CString
  name : CString
  path : CString
  type : Datatype
  characteristics : List IndexCharacteristic
  deriving DecidableEq, Repr

/-- `adios_transform_get_var_original_type_index`: the type before a transform turned the
variable into an array of bytes, by its first characteristics set. -/
def originalTypeIndex (type : Datatype) (first : IndexCharacteristic) : Datatype :=
  if first.transform.transformType ≠ .none then first.transform.preTransformType else type

/-- `struct adios_index_process_group_struct_v1` -/
structure IndexProcessGroup where
  groupName : CString
  hostLanguageFortran : Flag
  processId : UInt32
  timeIndexName : Option CString
  timeIndex : UInt32
  offsetInFile : UInt64
  deriving DecidableEq, Repr

def pgOfTime (τ : UInt32) : IndexProcessGroup where
  groupName := CString.empty
  hostLanguageFortran := .no
  processId := 0
  timeIndexName := none
  timeIndex := τ
  offsetInFile := 0

/-- The three lists of `struct adios_index_struct_v1`. -/
structure Index where
  pgRoot : List IndexProcessGroup
  varsRoot : List IndexEntry
  attrsRoot : List IndexEntry
  deriving DecidableEq, Repr

end Adios
