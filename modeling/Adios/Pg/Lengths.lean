import Adios.Index.WriteSizes
import Adios.Pg.VarOverhead

/-!
# Adios — the lengths of a process group

Every length that `adios_write_process_group_header_v1`, the writers of variables and attributes
and `adios_write_index_v1` put in front of something, against the bytes it is in front of. All of
them count what is written, in 16 or 32 bits, but for that of a variable's dimensions:
`calc_dimension_size` takes an offset that refers to an attribute for a number.
-/

namespace Adios

open List Wire

/-! ## The parts of a process group -/

/-- What `adios_write_process_group_header_v1` writes in front of the methods. -/
def writeGroupIdentity (host : Endian) (g : Group) (totalSize : UInt64) (buf : Buffer) : Buffer :=
  let flag := if g.hostLanguageFortran = .yes then chars "y" else chars "n"
  let buf := writeString host g.name ((buf.write (host.u64 totalSize)).write flag)
  let buf := buf.write (host.u32 (g.coordinationVar.elim 0 VarRef.id))
  let buf := match g.timeIndexName with
    | some name => writeString host name buf
    | none => buf.write (host.u16 0)
  buf.write (host.u32 g.timeIndex)

def writeMethods (host : Endian) (methods : List Method) (buf : Buffer) : Buffer :=
  let methodsCount : UInt8 := methods.foldl (fun count _ => count + 1) 0
  let methodsLength : UInt16 := methods.foldl (fun length method =>
    length + (1 + 2 + UInt16.ofNat (strlen method.parameters.val))) 0
  methods.foldl (writeMethod host) ((buf.write [methodsCount]).write (host.u16 methodsLength))

theorem writeProcessGroupHeaderV1_buf (host : Endian) (g : Group) (totalSize : UInt64)
    (fd : File) : (writeProcessGroupHeaderV1 host g totalSize fd).buf =
      writeMethods host g.methods (writeGroupIdentity host g totalSize fd.buf) := by
  unfold writeProcessGroupHeaderV1 writeGroupIdentity
  cases g.timeIndexName <;> rfl

/-- A process group: its definition, the variables as they were written and the index that is
built of them. -/
structure ProcessGroup where
  group : Group
  vars : List Var
  index : Index

def Var.HasCharacteristics (v : Var) : Prop := v.type.IsNumeric ∧ v.dimensions ≠ []

instance (v : Var) : Decidable v.HasCharacteristics := inferInstanceAs (Decidable (_ ∧ _))

structure ProcessGroup.Written (m : Machine) (pg : ProcessGroup) : Prop where
  vars : ∀ v ∈ pg.vars, ∃ buf r, writeVarCharacteristicsV1 m v buf = .ok r
  attributes : ∀ a ∈ pg.group.attributes, ∃ fd r, writeAttributeV1 m.host a fd = .ok r
  varsIndex : ∀ v ∈ pg.index.varsRoot, ∃ w w', writeVar m.host w v = .ok w'
  attrsIndex : ∀ a ∈ pg.index.attrsRoot, ∃ w w', writeAttr m.host w a = .ok w'

structure ProcessGroup.LengthsDelimit (m : Machine) (pg : ProcessGroup) : Prop where
  methods : ∀ buf : Buffer,
    (writeMethods m.host pg.group.methods buf).Delimits m.host (buf.offset + 1) 2
  dimensions : ∀ v ∈ pg.vars, ∀ buf : Buffer,
    (writeDimensionsV1 m.host v.dimensions buf).1.Delimits m.host (buf.offset + 1) 2
  dimsCharacteristic : ∀ v ∈ pg.vars, v.HasCharacteristics → ∀ buf : Buffer,
    (writeVarCharacteristicsDimsV1 m v buf).1.Delimits m.host (buf.offset + 1) 2
  transforms : ∀ v ∈ pg.vars, v.transformType ≠ .none → ∀ buf r,
    serializeTransformCharacteristic m.host (copyTransformCharacteristic m v) buf = .ok r →
      r.1.DelimitsTo m.host (r.1.offset - (2 + 24 * (countDimensions v.preTransformDimensions).toNat
          + (2 + v.transformMetadataLen.toNat))) 2
        (r.1.offset - (2 + v.transformMetadataLen.toNat))
  characteristics : ∀ v ∈ pg.vars, ∀ buf r, writeVarCharacteristicsV1 m v buf = .ok r →
    r.1.Delimits m.host (buf.offset + 1) 4
  attributes : ∀ a ∈ pg.group.attributes, ∀ fd r, writeAttributeV1 m.host a fd = .ok r →
    r.2.buf.Delimits m.host fd.buf.offset 4
  pgIndex : ∀ p ∈ pg.index.pgRoot, ∀ w,
    (writeGroup m.host w p).buf.Delimits m.host w.buf.offset 2
  varsIndex : ∀ v ∈ pg.index.varsRoot, ∀ w w', writeVar m.host w v = .ok w' →
    w'.buf.Delimits m.host w.buf.offset 4
  indexDims : ∀ v ∈ pg.index.varsRoot, ∀ c ∈ v.characteristics, ∀ w w',
    writeDims m.host c.dims w = .ok w' → w'.buf.Delimits m.host (w.buf.offset + 2) 2
  varSets : ∀ v ∈ pg.index.varsRoot, ∀ c ∈ v.characteristics, ∀ w w',
    writeVarSet m.host v.type v.originalType w c = .ok w' →
      w'.buf.Delimits m.host (w.buf.offset + 1) 4
  attrsIndex : ∀ a ∈ pg.index.attrsRoot, ∀ w w', writeAttr m.host w a = .ok w' →
    w'.buf.Delimits m.host w.buf.offset 4
  attrSets : ∀ a ∈ pg.index.attrsRoot, ∀ c ∈ a.characteristics, ∀ w w',
    writeAttrSet m.host a.type w c = .ok w' → w'.buf.Delimits m.host (w.buf.offset + 1) 4

/-! ## Dimensions -/

def Dimension.OffsetByAttr (d : Dimension) : Prop :=
  d.localOffset.var = none ∧ d.localOffset.attr ≠ none ∧ d.localOffset.timeIndex = .no

instance (d : Dimension) : Decidable d.OffsetByAttr := inferInstanceAs (Decidable (_ ∧ _ ∧ _))

theorem calcDimensionSize_eq (d : Dimension) : calcDimensionSize d =
    UInt16.ofNat ((3 + (if d.dimension.isLiteral then 8 else 4)
      + (if d.globalDimension.isLiteral then 8 else 4)
      + (if d.localOffset.isLiteral then 8 else 4)) + if d.OffsetByAttr then 4 else 0) := by
  have hitem : ∀ b : Bool, calcItemSize b = UInt16.ofNat (1 + if b then 8 else 4) := by
    intro b
    cases b <;> rfl
  have hoffset : (1 + if decide (d.localOffset.var = none ∧ d.localOffset.var = none ∧
      d.localOffset.timeIndex = .no) then 8 else 4) =
      1 + (if d.localOffset.isLiteral then 8 else 4) + if d.OffsetByAttr then 4 else 0 := by
    obtain ⟨dimension, globalDimension, ⟨rank, var, attr, time⟩⟩ := d
    cases var <;> cases attr <;> cases time <;> rfl
  unfold calcDimensionSize
  rw [hitem, hitem, hitem, hoffset, ← UInt16.ofNat_add, ← UInt16.ofNat_add]
  congr 1
  omega

def offsetsByAttr (ds : List Dimension) : Nat := ds.countP fun d => d.OffsetByAttr

theorem calcDimensionsSize_eq (v : Var) : calcDimensionsSize v.dimensions =
    UInt16.ofNat (v.dimensionsBytes + 4 * offsetsByAttr v.dimensions) := by
  have hfold : ∀ (ds : List Dimension) (n : Nat),
      ds.foldl (fun size d => size + calcDimensionSize d) (UInt16.ofNat n) =
      UInt16.ofNat (n + ((ds.map fun d => 3 + (if d.dimension.isLiteral then 8 else 4)
        + (if d.globalDimension.isLiteral then 8 else 4)
        + (if d.localOffset.isLiteral then 8 else 4)).sum + 4 * offsetsByAttr ds)) := by
    intro ds
    induction ds with
    | nil => simp [offsetsByAttr]
    | cons d ds ih =>
      intro n
      have hcount : offsetsByAttr (d :: ds) =
          offsetsByAttr ds + if d.OffsetByAttr then 1 else 0 := by
        simp [offsetsByAttr, countP_cons]
      rw [foldl_cons, calcDimensionSize_eq, ← UInt16.ofNat_add, ih, map_cons, sum_cons, hcount]
      congr 1
      split_ifs <;> omega
  have hall := hfold v.dimensions 0
  rw [Nat.zero_add] at hall
  exact hall

theorem offsetsByAttr_le (v : Var) : 15 * offsetsByAttr v.dimensions ≤ v.dimensionsBytes := by
  have hsum : ∀ ds : List Dimension, 15 * offsetsByAttr ds ≤
      (ds.map fun d => 3 + (if d.dimension.isLiteral then 8 else 4)
        + (if d.globalDimension.isLiteral then 8 else 4)
        + (if d.localOffset.isLiteral then 8 else 4)).sum := by
    intro ds
    induction ds with
    | nil => exact Nat.le_refl 0
    | cons d ds ih =>
      have hcount : offsetsByAttr (d :: ds) ≤ offsetsByAttr ds + 1 := by
        unfold offsetsByAttr
        rw [countP_cons]
        split_ifs <;> omega
      rw [map_cons, sum_cons]
      split_ifs <;> omega
  exact hsum v.dimensions

theorem delimits_writeDimensionsV1_iff (host : Endian) (v : Var) (buf : Buffer) :
    (writeDimensionsV1 host v.dimensions buf).1.Delimits host (buf.offset + 1) 2 ↔
      v.dimensionsBytes < 2 ^ 16 ∧ ∀ d ∈ v.dimensions, ¬d.OffsetByAttr := by
  have hlen : (render false (v.dimensions.flatMap (Dimension.fields host))).length =
      v.dimensionsBytes := by
    have himage := imageSize_dimensionsFields host v
    rw [dimensionsFields, imageSize_cons, imageSize_cons] at himage
    rw [length_render]
    simp only [Field.raw, length_singleton, Endian.length_u16] at himage
    omega
  have hwrite : (writeDimensionsV1 host v.dimensions buf).1 =
      buf.write ([countDimensions v.dimensions] ++
        host.bytes 2 (calcDimensionsSize v.dimensions).toNat ++
        render false (v.dimensions.flatMap (Dimension.fields host))) := by
    rw [writeDimensionsV1_eq, dimensionsFields]
    simp [Field.render, Endian.u16]
  have hnone : (∀ d ∈ v.dimensions, ¬d.OffsetByAttr) ↔ offsetsByAttr v.dimensions = 0 := by
    rw [offsetsByAttr, countP_eq_zero]
    simp
  have hle := offsetsByAttr_le v
  rw [hwrite, show buf.offset + 1 = buf.offset + [countDimensions v.dimensions].length from rfl,
    Buffer.delimits_write_iff, hlen, calcDimensionsSize_eq, UInt16.toNat_ofNat', hnone]
  omega

theorem delimits_writeVarCharacteristicsDimsV1_iff (m : Machine) (v : Var) (buf : Buffer) :
    (writeVarCharacteristicsDimsV1 m v buf).1.Delimits m.host (buf.offset + 1) 2 ↔
      24 * v.dimensions.length < 2 ^ 16 := by
  have hwrite : (writeVarCharacteristicsDimsV1 m v buf).1 =
      buf.write ([countDimensions v.dimensions] ++
        m.host.bytes 2 (UInt16.ofNat (8 * (v.dims m).dims.length)).toNat ++
        (v.dims m).dims.flatMap m.host.u64) := by
    rw [writeVarCharacteristicsDimsV1_eq]
    simp [Dims.fields, Field.render, Endian.u16, render_u64s]
    rfl
  have hlen : (v.dims m).dims.length = 3 * v.dimensions.length := length_flatMap_values m _
  rw [hwrite, show buf.offset + 1 = buf.offset + [countDimensions v.dimensions].length from rfl,
    Buffer.delimits_write_iff, Endian.length_flatMap_u64, UInt16.toNat_ofNat', hlen]
  omega

/-! ## Methods -/

def methodsSize (methods : List Method) : Nat :=
  (methods.map fun method => 3 + shortLength method.parameters).sum

theorem methodsSize_cons (method : Method) (methods : List Method) :
    methodsSize (method :: methods) = 3 + shortLength method.parameters + methodsSize methods := by
  simp [methodsSize]

theorem foldl_writeMethod (host : Endian) (methods : List Method) (buf : Buffer) :
    ∃ body, methods.foldl (writeMethod host) buf = buf.write body ∧
      body.length = methodsSize methods := by
  induction methods generalizing buf with
  | nil => exact ⟨[], by simp, rfl⟩
  | cons method methods ih =>
    obtain ⟨body, hbody, hlen⟩ := ih (writeMethod host buf method)
    refine ⟨[method.m] ++ render false (shortStringFields host method.parameters) ++ body, ?_, ?_⟩
    · rw [foldl_cons, hbody, writeMethod, writeString_eq]
      simp
    · rw [methodsSize_cons, length_append, length_append, hlen, length_render,
        imageSize_shortStringFields, length_singleton]
      show 1 + (2 + shortLength method.parameters) + methodsSize methods = _
      omega

theorem methodsLength_eq (methods : List Method) (n : Nat) :
    methods.foldl (fun length method =>
      length + (1 + 2 + UInt16.ofNat (strlen method.parameters.val))) (UInt16.ofNat n) =
      UInt16.ofNat (n + methodsSize methods) := by
  induction methods generalizing n with
  | nil => rfl
  | cons method methods ih =>
    have hmod : 1 + 2 + UInt16.ofNat (strlen method.parameters.val) =
        UInt16.ofNat (3 + shortLength method.parameters) := by
      apply UInt16.toNat_inj.mp
      simp only [CString.strlen_val, UInt16.toNat_add, UInt16.toNat_ofNat', UInt16.reduceToNat,
        shortLength]
    rw [foldl_cons, hmod, ← UInt16.ofNat_add, ih, methodsSize_cons, Nat.add_assoc]

theorem delimits_writeMethods_iff (host : Endian) (methods : List Method) (buf : Buffer) :
    (writeMethods host methods buf).Delimits host (buf.offset + 1) 2 ↔
      methodsSize methods < 2 ^ 16 := by
  let count : UInt8 := methods.foldl (fun count _ => count + 1) 0
  have hlength := methodsLength_eq methods 0
  rw [Nat.zero_add] at hlength
  obtain ⟨body, hbody, hlen⟩ := foldl_writeMethod host methods
    ((buf.write [count]).write (host.u16 (UInt16.ofNat (methodsSize methods))))
  have hwrite : writeMethods host methods buf = buf.write ([count] ++
      host.bytes 2 (UInt16.ofNat (methodsSize methods)).toNat ++ body) := by
    unfold writeMethods
    rw [show (0 : UInt16) = UInt16.ofNat 0 from rfl, hlength]
    refine hbody.trans ?_
    rw [Buffer.write_write, Buffer.write_write, Endian.u16, append_assoc]
  rw [hwrite, show buf.offset + 1 = buf.offset + [count].length from rfl,
    Buffer.delimits_write_iff, hlen, UInt16.toNat_ofNat']
  omega

/-! ## Characteristics -/

def Var.charsSize (m : Machine) (v : Var) : Nat :=
  if v.HasCharacteristics then
    4 + 24 * v.dimensions.length + (copyTransformCharacteristic m v).writtenSize + 6
      + writtenStatSetSizes (originalTypeVar v) (statBits v.bitmap)
        (getStatSetCount (originalTypeVar v)).toNat (v.stats.getD [])
  else 0

theorem emits_writeVarStat (host : Endian) (type : Datatype) (j : Nat) (stat : Option StatData) :
    Emits (writeVarStat host type j stat) (writtenStatSize type j stat) := by
  unfold writeVarStat
  split_ifs with hj
  · cases stat with
    | none => exact Emits.error _ _
    | some s =>
      cases s with
      | raw => exact Emits.error _ _
      | hist h =>
        simp only [writeVarHist]
        split_ifs with hbig
        · exact Emits.error _ _
        · -- as an `int` each size is what it is in 32 bits
          have hfreq : 4 * (h.numBreaks.toNat + 1) = ((h.numBreaks + 1) * 4).toNat := by
            simp only [UInt32.toNat_mul, UInt32.toNat_add, UInt32.reduceToNat]
            omega
          have hbreaks : 8 * h.numBreaks.toNat = (h.numBreaks * 8).toNat := by
            simp only [UInt32.toNat_mul, UInt32.reduceToNat]
            omega
          rw [hfreq, hbreaks]
          exact emits_writeHist host h
  · exact emits_writeStat host type j stat

theorem emits_writeVarStats (host : Endian) (type : Datatype) (bits : List Nat)
    (stats : List (Option StatData)) :
    Emits (writeVarStats host type bits stats) (writtenStatSizes type bits stats) := by
  induction bits generalizing stats with
  | nil => exact Emits.nothing
  | cons j bits ih =>
    cases stats with
    | nil => exact Emits.error _ _
    | cons stat stats => exact (emits_writeVarStat host type j stat).bind (ih stats)

theorem emits_writeVarStatSets (host : Endian) (type : Datatype) (bits : List Nat) (count : Nat)
    (sets : List (List (Option StatData))) :
    Emits (writeVarStatSets host type bits count sets)
      (writtenStatSetSizes type bits count sets) := by
  induction count generalizing sets with
  | zero => exact Emits.nothing
  | succ count ih => exact (emits_writeVarStats host type bits _).bind (ih _)

theorem emits_writeVarDims (m : Machine) (v : Var) (h : 24 * v.dimensions.length < 2 ^ 16) :
    Emits (fun w => .ok (writeVarDims m v w)) (4 + 24 * v.dimensions.length) := by
  have hsize : imageSize ((v.dims m).fields m.host) = 3 + 24 * v.dimensions.length := by
    have hlen : (v.dims m).dims.length = 3 * v.dimensions.length := length_flatMap_values m _
    rw [imageSize_dimsFields, hlen]
    omega
  rintro w w' ⟨⟩
  rw [writeVarDims_eq m v v.type w (by omega)]
  have hlen : (render false ([.dimensions (v.dims m)].flatMap (Item.fields m.host v.type))).length =
      4 + 24 * v.dimensions.length := by
    rw [length_render, flatMap_singleton, Item.fields, imageSize_cons]
    show 1 + imageSize ((v.dims m).fields m.host) = _
    omega
  unfold IndexWriter.emitItems
  rw [← hlen]
  exact ⟨rfl, rfl, rfl⟩

theorem emits_writeVarCharacteristics (m : Machine) (v : Var)
    (h : v.HasCharacteristics → 24 * v.dimensions.length < 2 ^ 16) :
    Emits (writeVarCharacteristics m v) (v.charsSize m) := by
  have harray : v.HasCharacteristics → Emits (writeVarArray m v) (v.charsSize m) := by
    intro hc
    have hbitmap := (Emits.nothing.item_then .bitmap (m.host.u32 v.bitmap)).emit_then 1
      [CharacteristicId.stat.flag]
    have hall := (emits_writeVarDims m v (h hc)).after
      ((emits_writeTransform m.host (copyTransformCharacteristic m v)).bind
        (hbitmap.bind (emits_writeVarStatSets m.host (originalTypeVar v) (statBits v.bitmap)
          (getStatSetCount (originalTypeVar v)).toNat (v.stats.getD []))))
    have hsize : v.charsSize m = 4 + 24 * v.dimensions.length +
        ((copyTransformCharacteristic m v).writtenSize + (0 + (1 + (m.host.u32 v.bitmap).length) +
          [CharacteristicId.stat.flag].length + writtenStatSetSizes (originalTypeVar v)
            (statBits v.bitmap) (getStatSetCount (originalTypeVar v)).toNat
            (v.stats.getD []))) := by
      rw [Var.charsSize, if_pos hc, length_singleton, Endian.length_u32]
      omega
    rw [hsize]
    exact hall
  have hnone : ¬v.HasCharacteristics → Emits .ok (v.charsSize m) := by
    intro hc
    rw [Var.charsSize, if_neg hc]
    exact Emits.nothing
  have hnumeric : v.type.IsNumeric →
      Emits (fun w => if v.dimensions ≠ [] then writeVarArray m v w else .ok w)
        (v.charsSize m) := by
    intro ht
    split_ifs with hd
    · exact harray ⟨ht, hd⟩
    · exact hnone fun hc => hd hc.2
  unfold writeVarCharacteristics
  cases ht : v.type with
  | string | unknown | other => exact hnone fun hc => by simpa [ht, Datatype.IsNumeric,
      Datatype.IsDefined] using hc.1
  | _ => exact hnumeric (by rw [ht]; decide)

variable {w w' : IndexWriter} {host : Endian} {a : Attribute}

theorem delimits_endSet_iff (host : Endian) {start n : Nat} (hbuf : w.buf.offset = start + 5 + n)
    (hlen : w.setLength = UInt32.ofNat n) :
    (w.endSet host start).buf.Delimits host (start + 1) 4 ↔ n < 2 ^ 32 := by
  have hoffset : (w.buf.patch start [w.setCount]).offset = start + 1 + 4 + n := by
    rw [Buffer.patch_offset]
    omega
  have hiff : (w.endSet host start).buf.Delimits host (start + 1) 4 ↔
      w.setLength.toNat % 256 ^ 4 = n := Buffer.delimits_patch_iff hoffset
  refine hiff.trans ?_
  rw [hlen, UInt32.toNat_ofNat']
  omega

theorem delimits_writeVarCharacteristicsV1_iff (m : Machine) (v : Var)
    (h : v.HasCharacteristics → 24 * v.dimensions.length < 2 ^ 16) {buf : Buffer}
    {r : Buffer × UInt16} (hr : writeVarCharacteristicsV1 m v buf = .ok r) :
    r.1.Delimits m.host (buf.offset + 1) 4 ↔ v.charsSize m < 2 ^ 32 := by
  obtain ⟨w, hw, hr⟩ := exists_of_bind_eq_ok hr
  obtain rfl := Except.ok.inj hr
  obtain ⟨hbuf, hset, -⟩ := emits_writeVarCharacteristics m v h _ _ hw
  exact delimits_endSet_iff m.host hbuf (hset.trans (UInt32.zero_add _))

/-! ## Attributes -/

def Attribute.writtenSize (a : Attribute) : Nat :=
  4 + (2 + shortLength a.name) + (2 + shortLength a.path) + 1 +
    if a.var.isSome then 4 else 5 + (getTypeSize a.type a.value).toUInt32.toNat

theorem writeAttributeValue_size {buf : Buffer} {r : Buffer × UInt32}
    (h : writeAttributeValue host a buf = .ok r) :
    r.1.offset = buf.offset +
        (1 + if a.var.isSome then 4 else 5 + (getTypeSize a.type a.value).toUInt32.toNat) ∧
      r.2 = UInt32.ofNat
        (1 + if a.var.isSome then 4 else 5 + (getTypeSize a.type a.value).toUInt32.toNat) := by
  unfold writeAttributeValue at h
  cases hv : a.var with
  | some var =>
    rw [hv] at h
    obtain rfl := Except.ok.inj h
    simp [chars]
  | none =>
    rw [hv] at h
    obtain ⟨value, hvalue, h⟩ := exists_of_bind_eq_ok h
    obtain rfl := Except.ok.inj h
    have hlen := length_of_memRead hvalue
    constructor
    · simp [chars, hlen]
      omega
    · simp only [Option.isSome_none, Bool.false_eq_true, if_false]
      rw [← Nat.add_assoc, UInt32.ofNat_add, UInt32.ofNat_toNat]
      rfl

section

variable {fd : File} {r : Attribute × File} (h : writeAttributeV1 host a fd = .ok r)

include h

theorem writeAttributeV1_inv :
    ∃ (buf : Buffer) (valueSize : UInt32), buf.offset = fd.buf.offset + 4 + a.writtenSize ∧
      valueSize = UInt32.ofNat (1 + if a.var.isSome then 4
        else 5 + (getTypeSize a.type a.value).toUInt32.toNat) ∧
      r.2.buf = buf.patch fd.buf.offset (host.u32 (4 + 2
        + (UInt16.ofNat (strlen a.name.val)).toUInt32 + 2
        + (UInt16.ofNat (strlen a.path.val)).toUInt32 + valueSize)) := by
  unfold writeAttributeV1 at h
  obtain ⟨⟨buf, valueSize⟩, hvalue, h⟩ := exists_of_bind_eq_ok h
  obtain rfl := Except.ok.inj h
  obtain ⟨hoffset, hsize⟩ := writeAttributeValue_size hvalue
  simp only [writeString_eq, Buffer.write_offset, Buffer.skip_offset, length_render,
    imageSize_shortStringFields, Endian.length_u32] at hoffset
  refine ⟨buf, valueSize, ?_, hsize, rfl⟩
  unfold Attribute.writtenSize shortLength
  omega

theorem delimits_writeAttributeV1_iff :
    r.2.buf.Delimits host fd.buf.offset 4 ↔ a.writtenSize < 2 ^ 32 := by
  obtain ⟨buf, valueSize, hlen, hsize, hbuf⟩ := writeAttributeV1_inv h
  rw [hbuf]
  refine (Buffer.delimits_patch_iff (w := 4) hlen).trans ?_
  have hcount : (4 + 2 + (UInt16.ofNat (strlen a.name.val)).toUInt32 + 2
      + (UInt16.ofNat (strlen a.path.val)).toUInt32 + valueSize : UInt32) =
      UInt32.ofNat a.writtenSize := by
    have hword : ∀ s : CString, (UInt16.ofNat (strlen s.val)).toUInt32 =
        UInt32.ofNat (shortLength s) := by
      intro s
      apply UInt32.toNat_inj.mp
      simp only [CString.strlen_val, UInt16.toNat_toUInt32, UInt16.toNat_ofNat',
        UInt32.toNat_ofNat', shortLength]
      omega
    rw [hword, hword, hsize, Attribute.writtenSize]
    simp only [UInt32.ofNat_add]
    grind
  rw [hcount, UInt32.toNat_ofNat']
  omega

end

/-! ## The index -/

theorem length_take_short (s : CString) :
    (s.val.take (UInt16.ofNat (strlen s.val)).toNat).length = shortLength s := by
  rw [CString.strlen_val, UInt16.toNat_ofNat', length_take, shortLength]
  exact Nat.min_eq_left (Nat.mod_le _ _)

theorem delimits_writeGroup_iff (host : Endian) (pg : IndexProcessGroup) (w : GroupWriter) :
    (writeGroup host w pg).buf.Delimits host w.buf.offset 2 ↔ pg.writtenSize < 2 ^ 16 := by
  have hflag : (if pg.hostLanguageFortran = .yes then chars "y" else chars "n").length = 1 := by
    split_ifs <;> rfl
  have hname := length_take_short pg.groupName
  have htime := length_take_short (pg.timeIndexName.getD CString.empty)
  let len := UInt16.ofNat (strlen pg.groupName.val)
  let timeIndexName := (pg.timeIndexName.getD CString.empty).val
  let timeLen := UInt16.ofNat (strlen timeIndexName)
  let w₁ := ((((((((({ w with buf := w.buf.skip 2, groupSize := 0 } : GroupWriter).put
    (host.u16 len)).put (pg.groupName.val.take len.toNat)).put
    (if pg.hostLanguageFortran = .yes then chars "y" else chars "n")).put
    (host.u32 pg.processId)).put (host.u16 timeLen)).put (timeIndexName.take timeLen.toNat)).put
    (host.u32 pg.timeIndex)).put (host.u64 pg.offsetInFile))
  have hoffset : w₁.buf.offset = w.buf.offset + 2 + pg.writtenSize := by
    simp only [w₁, len, timeIndexName, timeLen, GroupWriter.put, Buffer.write_offset,
      Buffer.skip_offset, hname, htime, hflag, Endian.length_u16, Endian.length_u32,
      Endian.length_u64]
    unfold IndexProcessGroup.writtenSize
    omega
  have hsize : w₁.groupSize = UInt16.ofNat pg.writtenSize := by
    simp only [w₁, len, timeIndexName, timeLen, GroupWriter.put, hname, htime, hflag,
      Endian.length_u16, Endian.length_u32, Endian.length_u64]
    unfold IndexProcessGroup.writtenSize
    simp only [UInt16.ofNat_add]
    grind
  show (w₁.buf.patch w.buf.offset (host.u16 w₁.groupSize)).Delimits host w.buf.offset 2 ↔ _
  refine (Buffer.delimits_patch_iff hoffset).trans ?_
  rw [hsize, UInt16.toNat_ofNat']
  omega

theorem foldlM_counts {setSize : IndexCharacteristic → Nat} {cs : List IndexCharacteristic}
    {writeSet : IndexWriter → IndexCharacteristic → Except Fault IndexWriter} (hset : ∀ c ∈ cs, ∀ w
      w', writeSet w c = .ok w' → w'.buf.offset = w.buf.offset + (5 + setSize c) ∧ w'.entrySize =
      w.entrySize + UInt32.ofNat (5 + setSize c)) (h : cs.foldlM writeSet w = .ok w') :
    w'.buf.offset = w.buf.offset + (cs.map fun c => 5 + setSize c).sum ∧
      w'.entrySize = w.entrySize + UInt32.ofNat (cs.map fun c => 5 + setSize c).sum := by
  induction cs generalizing w with
  | nil =>
    obtain rfl := Except.ok.inj h
    simp
  | cons c cs ih =>
    rw [List.foldlM_cons] at h
    obtain ⟨w₁, h₁, h₂⟩ := exists_of_bind_eq_ok h
    obtain ⟨hbuf₁, hsize₁⟩ := hset c (by simp) w w₁ h₁
    obtain ⟨hbuf₂, hsize₂⟩ := ih (fun c hc => hset c (by simp [hc])) h₂
    rw [map_cons, sum_cons]
    refine ⟨by omega, ?_⟩
    rw [hsize₂, hsize₁, UInt32.ofNat_add (5 + setSize c), UInt32.add_assoc]

theorem delimits_writeEntry_iff {e : IndexEntry}
    {writeSet : IndexEntry → IndexWriter → IndexCharacteristic → Except Fault IndexWriter}
    {setSize : IndexCharacteristic → Nat} (hset : ∀ c ∈ e.characteristics, ∀ w w', writeSet e w c =
      .ok w' → w'.buf.offset = w.buf.offset + (5 + setSize c) ∧ w'.entrySize = w.entrySize +
      UInt32.ofNat (5 + setSize c)) (h : writeEntry host writeSet w e = .ok w') :
    w'.buf.Delimits host w.buf.offset 4 ↔ e.writtenSize setSize < 2 ^ 32 := by
  obtain ⟨w₁, h₁, h⟩ := exists_of_bind_eq_ok h
  obtain rfl := Except.ok.inj h
  unfold writeSets at h₁
  split_ifs at h₁
  obtain ⟨hbuf, hsize⟩ := foldlM_counts hset h₁
  simp only [putString, IndexWriter.put, IndexWriter.beginEntry, Buffer.write_offset,
    Buffer.skip_offset, length_take_short, Endian.length_u16, Endian.length_u32,
    Endian.length_u64, length_singleton] at hbuf hsize
  have hoffset : w₁.buf.offset = w.buf.offset + 4 + e.writtenSize setSize := by
    unfold IndexEntry.writtenSize
    omega
  have hentry : w₁.entrySize = UInt32.ofNat (e.writtenSize setSize) := by
    rw [hsize, IndexEntry.writtenSize]
    simp only [UInt32.ofNat_add]
    grind
  refine (Buffer.delimits_patch_iff hoffset).trans ?_
  rw [hentry, UInt32.toNat_ofNat']
  omega

theorem counts_writeVarSet (host : Endian) (type orig : Datatype) {c : IndexCharacteristic}
    (h : writeVarSet host type orig w c = .ok w') :
    w'.buf.offset = w.buf.offset + (5 + c.varSetSize type orig) ∧
      w'.entrySize = w.entrySize + UInt32.ofNat (5 + c.varSetSize type orig) ∧
      (w'.buf.Delimits host (w.buf.offset + 1) 4 ↔ c.varSetSize type orig < 2 ^ 32) := by
  obtain ⟨w₁, h₁, h⟩ := exists_of_bind_eq_ok h
  obtain rfl := Except.ok.inj h
  obtain ⟨hbuf, hset, hentry⟩ := emits_writeVarItems host type orig c _ _ h₁
  refine ⟨hbuf.trans (Nat.add_assoc _ _ _), ?_, delimits_endSet_iff host hbuf
    (hset.trans (UInt32.zero_add _))⟩
  rw [UInt32.ofNat_add, ← UInt32.add_assoc]
  exact hentry

theorem counts_writeAttrSet (host : Endian) (type : Datatype) {c : IndexCharacteristic}
    (h : writeAttrSet host type w c = .ok w') :
    w'.buf.offset = w.buf.offset + (5 + c.attrSetSize type) ∧
      w'.entrySize = w.entrySize + UInt32.ofNat (5 + c.attrSetSize type) ∧
      (w'.buf.Delimits host (w.buf.offset + 1) 4 ↔ c.attrSetSize type < 2 ^ 32) := by
  obtain ⟨w₁, h₁, h⟩ := exists_of_bind_eq_ok h
  obtain rfl := Except.ok.inj h
  obtain ⟨hbuf, hset, hentry⟩ := emits_writeAttrItems host type c _ _ h₁
  refine ⟨hbuf.trans (Nat.add_assoc _ _ _), ?_, delimits_endSet_iff host hbuf
    (hset.trans (UInt32.zero_add _))⟩
  rw [UInt32.ofNat_add, ← UInt32.add_assoc]
  exact hentry

/-! ## All lengths -/

structure Var.LengthsFit (m : Machine) (v : Var) : Prop where
  offsets : ∀ d ∈ v.dimensions, ¬d.OffsetByAttr
  dimensions : v.dimensionsBytes < 2 ^ 16
  dimsCharacteristic : v.HasCharacteristics → 24 * v.dimensions.length < 2 ^ 16
  characteristics : v.charsSize m < 2 ^ 32

structure IndexEntry.LengthsFit (setSize : IndexCharacteristic → Nat) (e : IndexEntry) : Prop where
  entry : e.writtenSize setSize < 2 ^ 32
  sets : ∀ c ∈ e.characteristics, setSize c < 2 ^ 32

/-- **The condition**: no offset refers to an attribute, and what is behind a length has no more
bytes than its 16 or 32 bits can count. -/
structure ProcessGroup.LengthsFit (m : Machine) (pg : ProcessGroup) : Prop where
  methods : methodsSize pg.group.methods < 2 ^ 16
  vars : ∀ v ∈ pg.vars, v.LengthsFit m
  attributes : ∀ a ∈ pg.group.attributes, a.writtenSize < 2 ^ 32
  pgIndex : ∀ p ∈ pg.index.pgRoot, p.writtenSize < 2 ^ 16
  varsIndex : ∀ v ∈ pg.index.varsRoot,
    v.LengthsFit (IndexCharacteristic.varSetSize v.type v.originalType)
  attrsIndex : ∀ a ∈ pg.index.attrsRoot, a.LengthsFit (IndexCharacteristic.attrSetSize a.type)

theorem delimits_writeVar_iff {v : IndexEntry} (h : writeVar host w v = .ok w') :
    w'.buf.Delimits host w.buf.offset 4 ↔
      v.writtenSize (IndexCharacteristic.varSetSize v.type v.originalType) < 2 ^ 32 :=
  delimits_writeEntry_iff (fun _ _ _ _ hw =>
    have hcounts := counts_writeVarSet host v.type v.originalType hw
    ⟨hcounts.1, hcounts.2.1⟩) h

theorem delimits_writeAttr_iff {a : IndexEntry} (h : writeAttr host w a = .ok w') :
    w'.buf.Delimits host w.buf.offset 4 ↔
      a.writtenSize (IndexCharacteristic.attrSetSize a.type) < 2 ^ 32 :=
  delimits_writeEntry_iff (fun _ _ _ _ hw =>
    have hcounts := counts_writeAttrSet host a.type hw
    ⟨hcounts.1, hcounts.2.1⟩) h

theorem sets_written {e : IndexEntry}
    {writeSet : IndexEntry → IndexWriter → IndexCharacteristic → Except Fault IndexWriter}
    (h : writeEntry host writeSet w e = .ok w') :
    ∀ c ∈ e.characteristics, ∃ w w', writeSet e w c = .ok w' := by
  obtain ⟨w₁, h₁, -⟩ := exists_of_bind_eq_ok h
  unfold writeSets at h₁
  split_ifs at h₁
  exact foldlM_ok h₁

theorem lengths_delimit_iff (m : Machine) (pg : ProcessGroup) (h : pg.Written m) :
    pg.LengthsDelimit m ↔ pg.LengthsFit m := by
  constructor
  · intro hd
    refine ⟨?_, fun v hv => ?_, fun a ha => ?_, fun p hp => ?_, fun v hv => ⟨?_, fun c hc => ?_⟩,
      fun a ha => ⟨?_, fun c hc => ?_⟩⟩
    · exact (delimits_writeMethods_iff m.host _ ⟨fun _ => 0, 0⟩).mp (hd.methods _)
    · obtain ⟨buf, r, hr⟩ := h.vars v hv
      obtain ⟨hdims, hoffsets⟩ := (delimits_writeDimensionsV1_iff m.host v buf).mp
        (hd.dimensions v hv buf)
      have hchar := fun hc => (delimits_writeVarCharacteristicsDimsV1_iff m v buf).mp
        (hd.dimsCharacteristic v hv hc buf)
      exact ⟨hoffsets, hdims, hchar, (delimits_writeVarCharacteristicsV1_iff m v hchar hr).mp
        (hd.characteristics v hv buf r hr)⟩
    · obtain ⟨fd, r, hr⟩ := h.attributes a ha
      exact (delimits_writeAttributeV1_iff hr).mp (hd.attributes a ha fd r hr)
    · exact (delimits_writeGroup_iff m.host p ⟨⟨fun _ => 0, 0⟩, 0, 0⟩).mp (hd.pgIndex p hp _)
    · obtain ⟨w, w', hw⟩ := h.varsIndex v hv
      exact (delimits_writeVar_iff hw).mp (hd.varsIndex v hv w w' hw)
    · obtain ⟨w, w', hw⟩ := h.varsIndex v hv
      obtain ⟨w₁, w₂, hset⟩ := sets_written hw c hc
      exact (counts_writeVarSet m.host v.type v.originalType hset).2.2.mp
        (hd.varSets v hv c hc w₁ w₂ hset)
    · obtain ⟨w, w', hw⟩ := h.attrsIndex a ha
      exact (delimits_writeAttr_iff hw).mp (hd.attrsIndex a ha w w' hw)
    · obtain ⟨w, w', hw⟩ := h.attrsIndex a ha
      obtain ⟨w₁, w₂, hset⟩ := sets_written hw c hc
      exact (counts_writeAttrSet m.host a.type hset).2.2.mp (hd.attrSets a ha c hc w₁ w₂ hset)
  · intro hf
    exact
      { methods := fun buf => (delimits_writeMethods_iff m.host _ buf).mpr hf.methods
        dimensions := fun v hv buf => (delimits_writeDimensionsV1_iff m.host v buf).mpr
          ⟨(hf.vars v hv).dimensions, (hf.vars v hv).offsets⟩
        dimsCharacteristic := fun v hv hc buf =>
          (delimits_writeVarCharacteristicsDimsV1_iff m v buf).mpr
            ((hf.vars v hv).dimsCharacteristic hc)
        transforms := fun _ _ ht _ _ hr => delimits_serializeTransform m.host ht hr
        characteristics := fun v hv _ _ hr => (delimits_writeVarCharacteristicsV1_iff m v
          (hf.vars v hv).dimsCharacteristic hr).mpr (hf.vars v hv).characteristics
        attributes := fun a ha _ _ hr => (delimits_writeAttributeV1_iff hr).mpr (hf.attributes a ha)
        pgIndex := fun p hp w => (delimits_writeGroup_iff m.host p w).mpr (hf.pgIndex p hp)
        varsIndex := fun v hv _ _ hw => (delimits_writeVar_iff hw).mpr (hf.varsIndex v hv).entry
        indexDims := fun _ _ _ _ _ _ hw => delimits_writeDims m.host hw
        varSets := fun v hv c hc _ _ hw =>
          (counts_writeVarSet m.host v.type v.originalType hw).2.2.mpr
            ((hf.varsIndex v hv).sets c hc)
        attrsIndex := fun a ha _ _ hw => (delimits_writeAttr_iff hw).mpr (hf.attrsIndex a ha).entry
        attrSets := fun a ha c hc _ _ hw =>
          (counts_writeAttrSet m.host a.type hw).2.2.mpr ((hf.attrsIndex a ha).sets c hc) }

def blockVar (offset : DimensionItem) : Var where
  id := 1
  name := ⟨chars "b", by simp [chars]⟩
  path := CString.empty
  type := .double
  dimensions := [⟨.literal 4, .literal 16, offset⟩]
  isDim := .no
  writeOffset := 0
  data := none
  stats := none
  bitmap := 0
  transformType := .none
  preTransformType := .byte
  preTransformDimensions := []
  transformMetadataLen := 0
  transformMetadata := []

def blockGroup (offset : DimensionItem) : ProcessGroup where
  group :=
    { name := CString.empty, hostLanguageFortran := .no, vars := [], attributes := [],
      coordinationVar := none, timeIndexName := none, timeIndex := 1, processId := 0,
      methods := [] }
  vars := [blockVar offset]
  index := ⟨[], [], []⟩

theorem blockVar_wf (offset : DimensionItem) : (blockVar offset).Wf where
  defined := trivial
  known := nofun
  transformed ht := absurd rfl ht
  metadata := rfl
  bitmap := (by decide : (0 : UInt32).toNat < 2 ^ statLength)
  stats _ _ := ⟨by
    show Forall₂ _ (statBits 0) (List.take (statBits 0).length [])
    rw [show statBits 0 = [] by decide]
    exact Forall₂.nil, trivial⟩

theorem blockGroup_written (offset : DimensionItem) :
    (blockGroup offset).Written littleMachine where
  vars := by
    intro v hv
    obtain rfl := mem_singleton.mp hv
    obtain ⟨_, _, hrun, -⟩ := writeVarCharacteristicsV1_eq littleMachine ⟨fun _ => 0, 0⟩
      (blockVar_wf offset) fun _ => Var.histsSmall_of_bitmap rfl
    exact ⟨_, _, hrun⟩
  attributes := by simp [blockGroup]
  varsIndex := by simp [blockGroup]
  attrsIndex := by simp [blockGroup]

theorem lengths_delimit_literal : (blockGroup (.literal 8)).LengthsDelimit littleMachine :=
  (lengths_delimit_iff littleMachine _ (blockGroup_written _)).mpr
    { methods := by decide
      vars := by
        intro v hv
        obtain rfl := mem_singleton.mp hv
        exact ⟨by decide, by decide, by decide, by decide +kernel⟩
      attributes := by simp [blockGroup]
      pgIndex := by simp [blockGroup]
      varsIndex := by simp [blockGroup]
      attrsIndex := by simp [blockGroup] }

def offsetAttribute : DimensionItem := ⟨0, none, some ⟨2, .integer, [8, 0, 0, 0], none⟩, .no⟩

theorem not_lengths_delimit_attribute : (blockGroup offsetAttribute).Written littleMachine ∧
    ¬(blockGroup offsetAttribute).LengthsDelimit littleMachine := by
  refine ⟨blockGroup_written _, fun hd => ?_⟩
  have hdims := (delimits_writeDimensionsV1_iff littleMachine.host (blockVar offsetAttribute)
    ⟨fun _ => 0, 0⟩).mp (hd.dimensions _ (mem_singleton_self _) _)
  exact hdims.2 ⟨.literal 4, .literal 16, offsetAttribute⟩ (by simp [blockVar]) (by decide)

end Adios
