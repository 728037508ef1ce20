import Adios.Pg.Struct

/-!
# Adios — the overhead that is computed in advance

`adios_calc_var_overhead_v1`, `adios_calc_attribute_overhead_v1` and `adios_calc_overhead_v1`: how
many bytes of a process group are not payload. The functions of a variable count in 16 bits.
-/

namespace Adios

/-! ## Variables -/

/-- `adios_calc_var_characteristics_dims_overhead` -/
def calcVarCharacteristicsDimsOverhead (d : List Dimension) : UInt16 :=
  d.foldl (fun overhead _ => overhead + (8 + 8 + 8)) (1 + 2)

/-- The histogram behind a `data` pointer. -/
def StatData.hist? : Option StatData → Option Hist
  | some (.hist h) => some h
  | _ => none

/-- The loop of `adios_calc_var_characteristics_stat_overhead` over the bits of the bitmap. -/
def addStatSizes (type : Datatype) :
    List Nat → List (Option StatData) → UInt16 → Except Fault UInt16
  | [], _, overhead => .ok overhead
  | _ :: _, [], _ => .error .wildPointer
  | j :: bits, stat :: stats, overhead => do
    let size ← getStatSize (StatData.hist? stat) type (Statistic.ofBit j)
    addStatSizes type bits stats (overhead + size.toUInt16)

/-- `adios_calc_var_characteristics_stat_overhead` -/
def calcVarCharacteristicsStatOverhead (v : Var) : Except Fault UInt16 :=
  addStatSizes (originalTypeVar v) (statBits v.bitmap) ((v.stats.getD []).headD []) 0

/-- `adios_transform_calc_transform_characteristic_overhead` -/
def transformCalcTransformCharacteristicOverhead (v : Var) : Except Fault UInt64 :=
  if v.transformType = .none then .ok 0
  else
    match transformPluginUid v.transformType with
    | none => .error .assertion
    | some uid =>
      .ok (1 + (1 + UInt64.ofNat (strlen uid)) + 1
        + (calcVarCharacteristicsDimsOverhead v.preTransformDimensions).toUInt64 + 2
        + v.transformMetadataLen.toUInt64)

/-- `adios_calc_var_characteristics_overhead` -/
def calcVarCharacteristicsOverhead (v : Var) : Except Fault UInt16 :=
  if originalTypeVar v = .string ∨ v.dimensions = [] then .ok (1 + 4)
  else do
    let stat ← calcVarCharacteristicsStatOverhead v
    let transform ← transformCalcTransformCharacteristicOverhead v
    return (1 + 4) + 1 + 4 + 1 + (getStatSetCount (originalTypeVar v)).toUInt16 * stat
      + transform.toUInt16 + 1 + calcVarCharacteristicsDimsOverhead v.dimensions

def dimensionItemOverhead (d : DimensionItem) : UInt16 := 1 + if d.isLiteral then 8 else 4

/-- `adios_calc_var_overhead_v1` -/
def calcVarOverheadV1 (v : Var) : Except Fault UInt16 := do
  let overhead : UInt16 := 8 + 4 + 2 + UInt16.ofNat (strlen v.name.val) + 2
    + UInt16.ofNat (strlen v.path.val) + 1 + 1 + 1 + 2
  let overhead := v.dimensions.foldl (fun overhead d => overhead
    + dimensionItemOverhead d.dimension + dimensionItemOverhead d.globalDimension
    + dimensionItemOverhead d.localOffset) overhead
  let characteristics ← calcVarCharacteristicsOverhead v
  return overhead + characteristics

/-- `adios_calc_attribute_overhead_v1` -/
def calcAttributeOverheadV1 (a : Attribute) : UInt32 :=
  4 + 4 + 2 + UInt32.ofNat (strlen a.name.val) + 2 + UInt32.ofNat (strlen a.path.val) + 1
    + if a.var.isSome then 4 else 1 + 4 + (getTypeSize a.type a.value).toUInt32

/-- The part of `adios_calc_overhead_v1` that is the process group header. -/
def calcHeaderOverhead (g : Group) : UInt64 :=
  let overhead : UInt64 := 8 + 1 + 2 + UInt64.ofNat (strlen g.name.val) + 4 + 2
    + UInt64.ofNat (g.timeIndexName.elim 0 fun s => strlen s.val) + 4 + 1 + 2
  g.methods.foldl (fun overhead m => overhead + 1 + 2 + UInt64.ofNat (strlen m.parameters.val))
    overhead

/-- `adios_calc_overhead_v1` -/
def calcOverheadV1 (g : Group) : Except Fault UInt64 := do
  let overhead := calcHeaderOverhead g + 4 + 8
  let overhead ← g.vars.foldlM (fun overhead v => do
    let varOverhead ← calcVarOverheadV1 v
    return overhead + varOverhead.toUInt64) overhead
  let overhead := overhead + 4 + 8
  return g.attributes.foldl (fun overhead a => overhead + (calcAttributeOverheadV1 a).toUInt64)
    overhead

end Adios
