import Adios.Index.WriteGrows
import Adios.Wire.Delimits
import Mathlib.Algebra.BigOperators.Group.List.Basic

/-!
# Adios — how much the index writer appends

The sizes of what each function of the index writer puts into a characteristics set, an entry or a
process group, and that the three counters beside the buffer count the same (`Emits`).
-/

namespace Adios

open List Wire

/-- A step of the writer inside a set that appends `n` bytes and counts them. -/
def Emits (step : IndexWriter → Except Fault IndexWriter) (n : Nat) : Prop :=
  ∀ w w', step w = .ok w' → w'.buf.offset = w.buf.offset + n ∧
    w'.setLength = w.setLength + UInt32.ofNat n ∧ w'.entrySize = w.entrySize + UInt32.ofNat n

namespace Emits

variable {step step' : IndexWriter → Except Fault IndexWriter} {n n' : Nat}

theorem emit (count : UInt8) (data : List UInt8) :
    Emits (fun w => .ok (w.emit count data)) data.length := by
  rintro w w' ⟨⟩
  exact ⟨rfl, rfl, rfl⟩

theorem nothing : Emits .ok 0 := by
  rintro w w' ⟨⟩
  simp

theorem error (e : Fault) (n : Nat) : Emits (fun _ => .error e) n := by
  rintro w w' ⟨⟩

theorem bind (h : Emits step n) (h' : Emits step' n') :
    Emits (fun w => step w >>= step') (n + n') := by
  intro w w' hw
  obtain ⟨w₁, h₁, h₂⟩ := exists_of_bind_eq_ok hw
  obtain ⟨hbuf, hset, hentry⟩ := h w w₁ h₁
  obtain ⟨hbuf', hset', hentry'⟩ := h' w₁ w' h₂
  refine ⟨by omega, ?_, ?_⟩
  · rw [hset', hset, UInt32.ofNat_add, UInt32.add_assoc]
  · rw [hentry', hentry, UInt32.ofNat_add, UInt32.add_assoc]

section

variable {f : IndexWriter → IndexWriter} (h : Emits (fun w => .ok (f w)) n)

include h

theorem after (h' : Emits step' n') : Emits (fun w => step' (f w)) (n + n') :=
  h.bind h'

theorem emit_then (count : UInt8) (data : List UInt8) :
    Emits (fun w => .ok ((f w).emit count data)) (n + data.length) :=
  h.bind (emit count data)

theorem item_then (c : CharacteristicId) (data : List UInt8) :
    Emits (fun w => .ok ((f w).item c data)) (n + (1 + data.length)) := by
  have hitem := (h.emit_then 1 [c.flag]).emit_then 0 data
  rwa [length_singleton, Nat.add_assoc] at hitem

end

theorem fetch {α : Type} {x : Except Fault α} {f : α → IndexWriter → Except Fault IndexWriter}
    (h : ∀ a, x = .ok a → Emits (f a) n) : Emits (fun w => x >>= fun a => f a w) n := by
  intro w w' hw
  obtain ⟨a, ha, hstep⟩ := exists_of_bind_eq_ok hw
  exact h a ha w w' hstep

end Emits

theorem length_of_memRead {object data : List UInt8} {n : Nat} (h : memRead object n = .ok data) :
    data.length = n := by
  unfold memRead at h
  split_ifs at h with hle
  cases h
  rw [length_take, Nat.min_eq_left hle]

/-! ## Sizes -/

def Transform.writtenSize (t : Transform) : Nat :=
  if t.transformType = .none then 0
  else 8 + (UInt8.ofNat (strlen ((transformPluginUid t.transformType).getD []))).toNat
    + 24 * t.preTransformDimensions.count.toNat + t.transformMetadataLen.toNat

/-- The bytes of the statistic of bit `j`; those of a histogram's arrays are computed in 32
bits. -/
def writtenStatSize (type : Datatype) (j : Nat) : Option StatData → Nat
  | some (.hist h) => 20 + ((h.numBreaks + 1) * 4).toNat + (h.numBreaks * 8).toNat
  | _ =>
    match getStatSize none type (Statistic.ofBit j) with
    | .ok size => size.toNat
    | .error _ => 0

def writtenStatSizes (type : Datatype) : List Nat → List (Option StatData) → Nat
  | [], _ => 0
  | _ :: _, [] => 0
  | j :: bits, stat :: stats => writtenStatSize type j stat + writtenStatSizes type bits stats

def writtenStatSetSizes (type : Datatype) (bits : List Nat) :
    Nat → List (List (Option StatData)) → Nat
  | 0, _ => 0
  | count + 1, sets =>
    writtenStatSizes type bits (sets.headD []) + writtenStatSetSizes type bits count sets.tail

namespace IndexCharacteristic

def arraySize (orig : Datatype) (c : IndexCharacteristic) : Nat :=
  4 + 24 * c.dims.count.toNat + c.transform.writtenSize + 6
    + writtenStatSetSizes orig (statBits c.bitmap) (getStatSetCount orig).toNat (c.stats.getD [])

def varSetSize (type orig : Datatype) (c : IndexCharacteristic) : Nat :=
  28 + if type = .string then 3 + (getTypeSize type c.value).toNat
    else if type.IsDefined then
      (if c.dims.count ≠ 0 then c.arraySize orig else 0)
        + if c.value.isSome then 1 + (getTypeSize type c.value).toNat else 0
    else 0

def attrSetSize (type : Datatype) (c : IndexCharacteristic) : Nat :=
  28 + (if c.value.isSome then
      1 + (if type = .string then 2 else 0) + (getTypeSize type c.value).toNat else 0)
    + if c.varId ≠ 0 then 5 else 0

end IndexCharacteristic

def shortLength (s : CString) : Nat := s.val.length % 2 ^ 16

def IndexEntry.writtenSize (setSize : IndexCharacteristic → Nat) (e : IndexEntry) : Nat :=
  4 + (2 + shortLength e.groupName) + (2 + shortLength e.name) + (2 + shortLength e.path) + 1 + 8
    + (e.characteristics.map fun c => 5 + setSize c).sum

def IndexProcessGroup.writtenSize (pg : IndexProcessGroup) : Nat :=
  (2 + shortLength pg.groupName) + 1 + 4
    + (2 + shortLength (pg.timeIndexName.getD CString.empty)) + 4 + 8

theorem dimsLength_toNat (count : UInt8) :
    (3 * 8 * count.toUInt16 : UInt16).toNat = 24 * count.toNat := by
  have hlt := count.toNat_lt
  simp only [UInt16.toNat_mul, UInt8.toNat_toUInt16, UInt16.reduceToNat]
  omega

/-! ## Characteristics -/

section

variable (host : Endian)

section

variable {t : Transform} {buf : Buffer} {r : Buffer × UInt64 × UInt8} (ht : t.transformType ≠ .none)
  (h : serializeTransformCharacteristic host t buf = .ok r)

include ht h

theorem serializeTransformCharacteristic_ok :
    ∃ front dims metadata : List UInt8,
      front.length = 4 +
        (UInt8.ofNat (strlen ((transformPluginUid t.transformType).getD []))).toNat ∧
      dims.length = 24 * t.preTransformDimensions.count.toNat ∧
      metadata.length = t.transformMetadataLen.toNat ∧
      r.1 = buf.write (front ++ host.bytes 2 (24 * t.preTransformDimensions.count.toNat) ++
        (dims ++ (host.u16 t.transformMetadataLen ++ metadata))) ∧
      r.2.1 = UInt64.ofNat t.writtenSize := by
  unfold serializeTransformCharacteristic at h
  by_cases hassert : t.transformMetadataLen ≠ 0 ∧ t.transformMetadata = []
  · rw [if_pos hassert] at h
    cases h
  · rw [if_neg hassert, if_neg ht] at h
    cases huid : transformPluginUid t.transformType with
    | none => rw [huid] at h; cases h
    | some uid =>
      rw [huid] at h
      obtain ⟨uidBytes, hread, h⟩ := exists_of_bind_eq_ok h
      obtain ⟨dims, hdims, h⟩ := exists_of_bind_eq_ok h
      obtain ⟨metadata, hmeta, h⟩ := exists_of_bind_eq_ok h
      obtain rfl := Except.ok.inj h
      have hread := length_of_memRead hread
      have hmeta := length_of_memRead hmeta
      have hdims := (length_of_memRead hdims).trans (dimsLength_toNat _)
      have htype : (enumByte host t.preTransformType).length = 1 := by
        simp [enumByte]
      refine ⟨[CharacteristicId.transformType.flag] ++ ([UInt8.ofNat (strlen uid)] ++ (uidBytes ++
        (enumByte host t.preTransformType ++ [t.preTransformDimensions.count]))), dims, metadata,
        ?_, hdims, hmeta, ?_, ?_⟩
      · simp only [length_append, length_singleton, hread, htype, Option.getD_some]
        omega
      · rw [Buffer.foldl_write, Endian.u16, dimsLength_toNat]
        simp
      · simp only [foldl_cons, foldl_nil, hread, hmeta, hdims, htype,
          length_singleton, Endian.length_u16]
        rw [Transform.writtenSize, if_neg ht, huid, Option.getD_some,
          show (0 : UInt64) = UInt64.ofNat 0 from rfl]
        simp only [← UInt64.ofNat_add]
        congr 1
        omega

theorem delimits_serializeTransform :
    r.1.DelimitsTo host (r.1.offset -
        (2 + 24 * t.preTransformDimensions.count.toNat + (2 + t.transformMetadataLen.toNat))) 2
      (r.1.offset - (2 + t.transformMetadataLen.toNat)) := by
  obtain ⟨front, dims, metadata, -, hdims, hmeta, hbuf, -⟩ :=
    serializeTransformCharacteristic_ok host ht h
  have hiff : (buf.write (front ++ host.bytes 2 (24 * t.preTransformDimensions.count.toNat)
      ++ (dims ++ (host.u16 t.transformMetadataLen ++ metadata)))).DelimitsTo host
        (buf.offset + front.length) 2 (buf.offset + front.length + 2 + dims.length) ↔
      24 * t.preTransformDimensions.count.toNat % 256 ^ 2 = dims.length :=
    Buffer.delimitsTo_write_iff front dims _
  rw [← hbuf] at hiff
  have hoffset : r.1.offset = buf.offset + front.length + 2 + dims.length +
      (2 + metadata.length) := by
    rw [hbuf]
    simp [Nat.add_assoc]
  have hlt := t.preTransformDimensions.count.toNat_lt
  convert hiff.mpr (by rw [hdims]; omega) using 1 <;> omega

end

theorem emits_writeTransform (t : Transform) : Emits (writeTransform host t) t.writtenSize := by
  intro w w' hw
  obtain ⟨⟨buf, len, count⟩, hser, hw'⟩ := exists_of_bind_eq_ok hw
  obtain rfl := Except.ok.inj hw'
  suffices h : buf.offset = w.buf.offset + t.writtenSize ∧ len = UInt64.ofNat t.writtenSize by
    obtain ⟨hbuf, rfl⟩ := h
    exact ⟨hbuf, by simp, by simp⟩
  by_cases ht : t.transformType = .none
  · unfold serializeTransformCharacteristic at hser
    by_cases hassert : t.transformMetadataLen ≠ 0 ∧ t.transformMetadata = []
    · rw [if_pos hassert] at hser
      cases hser
    · rw [if_neg hassert, if_pos ht] at hser
      rw [Transform.writtenSize, if_pos ht]
      cases hser
      exact ⟨rfl, rfl⟩
  · obtain ⟨front, dims, metadata, hfront, hdims, hmeta, hbuf, hlen⟩ :=
      serializeTransformCharacteristic_ok host ht hser
    refine ⟨?_, hlen⟩
    rw [show buf = _ from hbuf, Transform.writtenSize, if_neg ht, Buffer.write_offset]
    simp only [length_append, hfront, hdims, hmeta, Endian.length_bytes, Endian.length_u16]
    omega

theorem emits_writeHist (hist : Hist) :
    Emits (writeHist host hist) (writtenStatSize .byte 0 (some (.hist hist))) := by
  refine Emits.fetch fun frequencies hfreq => Emits.fetch fun breaks hbreaks => ?_
  have hall := ((((Emits.emit 0 (host.u32 hist.numBreaks)).emit_then 0
    (host.u64 hist.min)).emit_then 0 (host.u64 hist.max)).emit_then 0 frequencies).emit_then 0
    breaks
  rw [length_of_memRead hfreq, length_of_memRead hbreaks] at hall
  simp only [Endian.length_u32, Endian.length_u64] at hall
  exact hall

variable (type : Datatype)

theorem emits_writeStat (j : Nat) (stat : Option StatData) :
    Emits (writeStat host type j stat) (writtenStatSize type j stat) := by
  unfold writeStat
  split
  · cases stat with
    | none => exact Emits.error _ _
    | some s =>
      cases s with
      | raw => exact Emits.error _ _
      | hist h => exact emits_writeHist host h
  · cases stat with
    | none => exact Emits.error _ _
    | some s =>
      cases s with
      | hist => exact Emits.error _ _
      | raw bytes =>
        refine Emits.fetch fun size hsize => Emits.fetch fun data hdata => ?_
        have hstat : writtenStatSize type j (some (.raw bytes)) = data.length := by
          rw [length_of_memRead hdata, writtenStatSize, hsize]
          nofun
        rw [hstat]
        exact Emits.emit 0 data

theorem emits_writeStats (bits : List Nat) (stats : List (Option StatData)) :
    Emits (writeStats host type bits stats) (writtenStatSizes type bits stats) := by
  induction bits generalizing stats with
  | nil => exact Emits.nothing
  | cons j bits ih =>
    cases stats with
    | nil => exact Emits.error _ _
    | cons stat stats => exact (emits_writeStat host type j stat).bind (ih stats)

theorem emits_writeStatSets (bits : List Nat) (count : Nat) (sets : List (List (Option StatData))) :
    Emits (writeStatSets host type bits count sets) (writtenStatSetSizes type bits count sets) := by
  induction count generalizing sets with
  | zero => exact Emits.nothing
  | succ count ih => exact (emits_writeStats host type bits _).bind (ih _)

def writeDims (d : Dims) (w : IndexWriter) : Except Fault IndexWriter := do
  let len : UInt16 := 3 * 8 * d.count.toUInt16
  let dims ← memRead (d.dims.flatMap host.u64) len.toNat
  return (((w.emit 1 [CharacteristicId.dimensions.flag]).emit 0 [d.count]).emit 0
    (host.u16 len)).emit 0 dims

theorem writeArray_eq_writeDims (orig : Datatype) (c : IndexCharacteristic) (w : IndexWriter) :
    writeArray host orig c w = (writeDims host c.dims w >>= writeTransform host c.transform >>=
      fun w => writeStatSets host orig (statBits c.bitmap) (getStatSetCount orig).toNat
        (c.stats.getD []) ((w.item .bitmap (host.u32 c.bitmap)).emit 1
          [CharacteristicId.stat.flag])) := by
  simp only [writeArray, writeDims, bind_assoc, pure_bind]

theorem delimits_writeDims {d : Dims} {w w' : IndexWriter} (h : writeDims host d w = .ok w') :
    w'.buf.Delimits host (w.buf.offset + 2) 2 := by
  obtain ⟨dims, hdims, h⟩ := exists_of_bind_eq_ok h
  obtain rfl := Except.ok.inj h
  have hdims := (length_of_memRead hdims).trans (dimsLength_toNat _)
  have hiff : (w.buf.write ([CharacteristicId.dimensions.flag] ++ [d.count]
      ++ host.bytes 2 (3 * 8 * d.count.toUInt16 : UInt16).toNat ++ dims)).Delimits host
        (w.buf.offset + ([CharacteristicId.dimensions.flag] ++ [d.count]).length) 2 ↔
      (3 * 8 * d.count.toUInt16 : UInt16).toNat % 256 ^ 2 = dims.length :=
    Buffer.delimits_write_iff _ dims
  have hlt := d.count.toNat_lt
  simp only [IndexWriter.emit, Buffer.write_write, Endian.u16]
  refine hiff.mpr ?_
  rw [dimsLength_toNat, hdims]
  omega

theorem emits_writeDims (d : Dims) : Emits (writeDims host d) (4 + 24 * d.count.toNat) := by
  refine Emits.fetch fun dims hdims => ?_
  have hall := (((Emits.emit 1 [CharacteristicId.dimensions.flag]).emit_then 0
    [d.count]).emit_then 0 (host.u16 (3 * 8 * d.count.toUInt16))).emit_then 0 dims
  rw [length_of_memRead hdims, dimsLength_toNat, Endian.length_u16] at hall
  exact hall

theorem emits_writeArray (orig : Datatype) (c : IndexCharacteristic) :
    Emits (writeArray host orig c) (c.arraySize orig) := by
  have hbitmap := (Emits.nothing.item_then .bitmap (host.u32 c.bitmap)).emit_then 1
    [CharacteristicId.stat.flag]
  rw [Endian.length_u32] at hbitmap
  have hall := ((emits_writeDims host c.dims).bind (emits_writeTransform host c.transform)).bind
    (hbitmap.after (emits_writeStatSets host orig (statBits c.bitmap) (getStatSetCount orig).toNat
      (c.stats.getD [])))
  intro w w' hw
  rw [writeArray_eq_writeDims] at hw
  have hcounts := hall w w' hw
  rwa [show 4 + 24 * c.dims.count.toNat + c.transform.writtenSize + (0 + (1 + 4) +
    [CharacteristicId.stat.flag].length + writtenStatSetSizes orig (statBits c.bitmap)
      (getStatSetCount orig).toNat (c.stats.getD [])) = c.arraySize orig by
    rw [IndexCharacteristic.arraySize, length_singleton]; omega] at hcounts

theorem emits_writeCommon (c : IndexCharacteristic) :
    Emits (fun w => .ok (writeCommon host c w)) 28 := by
  have hall := (((Emits.nothing.item_then .offset (host.u64 c.offset)).item_then .payloadOffset
    (host.u64 c.payloadOffset)).item_then .fileIndex (host.u32 c.fileIndex)).item_then .timeIndex
    (host.u32 c.timeIndex)
  simp only [Endian.length_u64, Endian.length_u32] at hall
  exact hall

theorem emits_writeVarItems (type orig : Datatype) (c : IndexCharacteristic) :
    Emits (fun w => writeVarItems host type orig c (writeCommon host c w))
      (c.varSetSize type orig) := by
  refine Emits.after (emits_writeCommon host c)
    (show Emits (writeVarItems host type orig c) _ from ?_)
  have harray : Emits (fun w => if c.dims.count ≠ 0 then writeArray host orig c w else .ok w)
      (if c.dims.count ≠ 0 then c.arraySize orig else 0) := by
    split_ifs
    · exact emits_writeArray host orig c
    · exact Emits.nothing
  have hvalue : Emits (writeValue type c)
      (if c.value.isSome then 1 + (getTypeSize type c.value).toNat else 0) := by
    unfold writeValue
    cases hv : c.value with
    | none => exact Emits.nothing
    | some value =>
      refine Emits.fetch fun data hdata => ?_
      have hitem := Emits.nothing.item_then .value data
      rw [length_of_memRead hdata, Nat.zero_add] at hitem
      exact hitem
  cases type with
  | string =>
    refine Emits.fetch fun value hdata => ?_
    have hall := ((Emits.emit 1 [CharacteristicId.value.flag]).emit_then 0
      (host.u16 (getTypeSize .string c.value).toUInt16)).emit_then 0 value
    rw [length_of_memRead hdata, Endian.length_u16] at hall
    exact hall
  | unknown | other => exact Emits.nothing
  | _ => exact harray.bind hvalue

theorem emits_writeAttrItems (c : IndexCharacteristic) :
    Emits (fun w => writeAttrItems host type c (writeCommon host c w)) (c.attrSetSize type) := by
  rw [IndexCharacteristic.attrSetSize, Nat.add_assoc]
  refine Emits.after (emits_writeCommon host c) (show Emits (writeAttrItems host type c) _ from ?_)
  have hvarId : Emits (fun w => .ok (if c.varId ≠ 0 then w.item .varId (host.u32 c.varId) else w))
      (if c.varId ≠ 0 then 5 else 0) := by
    split_ifs
    · simpa only [Endian.length_u32] using Emits.nothing.item_then .varId (host.u32 c.varId)
    · exact Emits.nothing
  have hvalue : ∀ value data : List UInt8, data.length = (getTypeSize type (some value)).toNat →
      Emits (fun w => .ok ((if type = .string then (w.emit 1 [CharacteristicId.value.flag]).emit 0
        (host.u16 (getTypeSize type (some value)).toUInt16)
        else w.emit 1 [CharacteristicId.value.flag]).emit 0 data))
      (1 + (if type = .string then 2 else 0) + (getTypeSize type (some value)).toNat) := by
    intro value data hdata
    have hflag := Emits.emit 1 [CharacteristicId.value.flag]
    rw [← hdata]
    refine Emits.emit_then ?_ 0 data
    split_ifs
    · have hlen := hflag.emit_then 0 (host.u16 (getTypeSize type (some value)).toUInt16)
      rwa [Endian.length_u16] at hlen
    · exact hflag
  intro w w' hw
  unfold writeAttrItems at hw
  cases hv : c.value with
  | none =>
    rw [hv] at hw
    rw [Option.isSome_none, if_neg (by simp), Nat.zero_add]
    exact hvarId w w' hw
  | some value =>
    rw [hv] at hw
    obtain ⟨data, hdata, hw⟩ := exists_of_bind_eq_ok hw
    exact ((hvalue value data (length_of_memRead hdata)).after hvarId) w w' hw

end

end Adios
