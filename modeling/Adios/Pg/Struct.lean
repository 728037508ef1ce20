import Adios.Index.Struct
import Adios.Wire.Endian

/-!
# Adios — a group that is written

The structures of `core/adios_internals.h`: variables with their dimensions, attributes, methods
and the group they are defined in. A dimension is a number or refers to a variable, an attribute
or the time index; of what it refers to it keeps the parts that are read through it.
-/

namespace Adios

open Wire

/-- The machine that writes: its byte order and its `(uint64_t)` of a floating-point number. -/
structure Machine where
  host : Endian
  realToU64 : Datatype → List UInt8 → UInt64

/-! ## Dimensions -/

structure VarRef where
  id : UInt32
  type : Datatype
  data : Option (List UInt8)
  deriving DecidableEq, Repr

structure AttrRef where
  id : UInt32
  type : Datatype
  value : List UInt8
  var : Option VarRef
  deriving DecidableEq, Repr

/-- `struct adios_dimension_item_struct` -/
structure DimensionItem where
  rank : UInt64
  var : Option VarRef
  attr : Option AttrRef
  timeIndex : Flag
  deriving DecidableEq, Repr

/-- A number: "`var == NULL && attr == NULL && time_index == adios_flag_no`". -/
def DimensionItem.isLiteral (d : DimensionItem) : Bool :=
  d.var = none ∧ d.attr = none ∧ d.timeIndex = .no

/-- `struct adios_dimension_struct` -/
structure Dimension where
  dimension : DimensionItem
  globalDimension : DimensionItem
  localOffset : DimensionItem
  deriving DecidableEq, Repr

def DimensionItem.literal (rank : UInt64) : DimensionItem := ⟨rank, none, none, .no⟩

/-- `count_dimensions` -/
def countDimensions (dimensions : List Dimension) : UInt8 :=
  dimensions.foldl (fun count _ => count + 1) 0

/-- A signed integer of `w` bytes as a `uint64_t`. -/
def signExtend (w : Nat) (n : Nat) : UInt64 := UInt64.ofInt (Int.bmod n (256 ^ w))

/-- `cast_var_data_as_uint64`; `none` is `adios_error` and 0. -/
def castVarDataAsUint64 (m : Machine) (type : Datatype) (data : Option (List UInt8)) :
    Option UInt64 :=
  match data with
  | none => none
  | some data =>
    match type with
    | .byte => some (signExtend 1 (m.host.nat (data.take 1)))
    | .short => some (signExtend 2 (m.host.nat (data.take 2)))
    | .integer => some (signExtend 4 (m.host.nat (data.take 4)))
    | .long => some (signExtend 8 (m.host.nat (data.take 8)))
    | .unsignedByte => some (UInt64.ofNat (m.host.nat (data.take 1)))
    | .unsignedShort => some (UInt64.ofNat (m.host.nat (data.take 2)))
    | .unsignedInteger => some (UInt64.ofNat (m.host.nat (data.take 4)))
    | .unsignedLong => some (UInt64.ofNat (m.host.nat (data.take 8)))
    | .real | .double | .longDouble => some (m.realToU64 type data)
    | .string | .complex | .doubleComplex | .unknown | .other _ => none

/-- `adios_get_dim_value`: 0 where it calls `adios_error`. -/
def getDimValue (m : Machine) (d : DimensionItem) : UInt64 :=
  match d.var, d.attr with
  | some var, _ => (castVarDataAsUint64 m var.type var.data).getD 0
  | none, some attr =>
    match attr.var with
    | some var => (castVarDataAsUint64 m var.type var.data).getD 0
    | none => (castVarDataAsUint64 m attr.type (some attr.value)).getD 0
  | none, none => if d.timeIndex = .yes then 1 else d.rank

def Dimension.values (m : Machine) (d : Dimension) : List UInt64 :=
  [getDimValue m d.dimension, getDimValue m d.globalDimension, getDimValue m d.localOffset]

/-- `adios_multiply_dimensions`; `none` is `adios_error`. -/
def multiplyDimensions (m : Machine) (size : UInt64) (type : Datatype) (data : List UInt8) :
    Option UInt64 :=
  match type with
  | .unsignedByte | .byte | .unsignedShort | .short | .unsignedInteger | .integer
  | .unsignedLong | .long => (castVarDataAsUint64 m type (some data)).map (size * ·)
  | _ => none

/-- The size with one more dimension; `none` is `adios_error`. -/
def multiplyDimension (m : Machine) (size : UInt64) (d : DimensionItem) : Option UInt64 :=
  match d.var, d.attr with
  | some var, _ => var.data.bind (multiplyDimensions m size var.type)
  | none, some attr =>
    match attr.var with
    | some var => var.data.bind (multiplyDimensions m size var.type)
    | none => multiplyDimensions m size attr.type attr.value
  -- "the time index doesn't take up space..."
  | none, none => some (if d.timeIndex = .no then size * d.rank else size)

/-- `adios_get_dimension_space_size`: 0 where it calls `adios_error`. -/
def getDimensionSpaceSize (m : Machine) (d : List Dimension) : UInt64 :=
  (d.foldlM (fun size d => multiplyDimension m size d.dimension) 1).getD 0

/-- `adios_transform_dereference_dimensions_characteristic` -/
def dereferenceDimensionsCharacteristic (m : Machine) (srcVarDims : List Dimension) : Dims :=
  let c := countDimensions srcVarDims
  ⟨c, (srcVarDims.take c.toNat).flatMap (Dimension.values m)⟩

/-! ## Variables, attributes and groups -/

/-- `struct adios_var_struct` -/
structure Var where
  id : UInt32
  name : CString
  path : CString
  type : Datatype
  dimensions : List Dimension
  isDim : Flag
  writeOffset : UInt64
  data : Option (List UInt8)
  stats : Option (List (List (Option StatData)))
  bitmap : UInt32
  transformType : TransformType
  preTransformType : Datatype
  preTransformDimensions : List Dimension
  transformMetadataLen : UInt16
  transformMetadata : List UInt8
  deriving DecidableEq, Repr

/-- `adios_transform_get_var_original_type_var` -/
def originalTypeVar (v : Var) : Datatype :=
  if v.transformType ≠ .none then v.preTransformType else v.type

/-- `adios_get_var_size` -/
def getVarSize (m : Machine) (v : Var) (data : Option (List UInt8)) : UInt64 :=
  if v.dimensions = [] then getTypeSize v.type data
  else getTypeSize v.type data * getDimensionSpaceSize m v.dimensions

/-- `adios_transform_copy_transform_characteristic`, which is also what
`adios_transform_serialize_transform_var` serialises. -/
def copyTransformCharacteristic (m : Machine) (v : Var) : Transform where
  transformType := v.transformType
  preTransformType := v.preTransformType
  preTransformDimensions := dereferenceDimensionsCharacteristic m v.preTransformDimensions
  transformMetadataLen := v.transformMetadataLen
  transformMetadata := v.transformMetadata

/-- `struct adios_attribute_struct` -/
structure Attribute where
  id : UInt32
  name : CString
  path : CString
  type : Datatype
  value : Option (List UInt8)
  var : Option VarRef
  writeOffset : UInt64
  deriving DecidableEq, Repr

/-- `struct adios_method_struct`: the method's number and its parameters. -/
structure Method where
  m : UInt8
  parameters : CString
  deriving DecidableEq, Repr

/-- `struct adios_group_struct`. `coordinationVar` is what `adios_find_var_by_name` finds for
`group_by`. -/
structure Group where
  name : CString
  hostLanguageFortran : Flag
  vars : List Var
  attributes : List Attribute
  coordinationVar : Option VarRef
  timeIndexName : Option CString
  timeIndex : UInt32
  processId : UInt32
  methods : List Method
  deriving DecidableEq, Repr

end Adios
