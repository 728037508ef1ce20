import Adios.Index.Format
import Mathlib.Data.List.ReduceOption

/-!
# Adios — what the writer emits

`adios_write_index_v1` emits the image of its entries' records: one lemma for each function of
the writer, up to `writeVarsIndex_eq` and `writeAttrsIndex_eq`. Each says that the function
appends exactly the image of the items it is about, and that the sizes it adds up are the sizes
of that image; the back-patched lengths then come out as the format has them.
-/

namespace Adios

open List Wire

/-! ## The record of an entry -/

/-- The statistics at the front of the arrays of the components, `n` in each. -/
def statSets (n : Nat) : Nat → List (List (Option StatData)) → List (List StatData)
  | 0, _ => []
  | count + 1, sets => ((sets.headD []).take n).reduceOption :: statSets n count sets.tail

/-- The statistics of a characteristic that is about values of type `orig`. -/
def IndexCharacteristic.statSets (orig : Datatype) (c : IndexCharacteristic) :
    List (List StatData) :=
  Adios.statSets (statBits c.bitmap).length (getStatSetCount orig).toNat (c.stats.getD [])

def commonItems (c : IndexCharacteristic) : List Item :=
  [.offset c.offset, .payloadOffset c.payloadOffset, .fileIndex c.fileIndex,
    .timeIndex c.timeIndex]

def arrayItems (orig : Datatype) (c : IndexCharacteristic) : List Item :=
  .dimensions c.dims :: ((if c.transform.transformType = .none then []
    else [.transform c.transform]) ++ [.bitmap c.bitmap, .stat (c.statSets orig)])

def varOwnItems (type orig : Datatype) (c : IndexCharacteristic) : List Item :=
  if type = .string then [.value (c.value.getD [])]
  else (if c.dims.count = 0 then [] else arrayItems orig c) ++ (c.value.map .value).toList

def varItems (type orig : Datatype) (c : IndexCharacteristic) : List Item :=
  commonItems c ++ varOwnItems type orig c

def attrItems (c : IndexCharacteristic) : List Item :=
  commonItems c ++ ((c.value.map .value).toList ++ if c.varId = 0 then [] else [.varId c.varId])

namespace IndexEntry

def originalType (v : IndexEntry) : Datatype :=
  originalTypeIndex v.type (v.characteristics.headD .zero)

def record (items : IndexCharacteristic → List Item) (e : IndexEntry) : Record :=
  { id := e.id, groupName := e.groupName, name := e.name, path := e.path, type := e.type
    sets := e.characteristics.map items }

def varRecord (v : IndexEntry) : Record := v.record (varItems v.type v.originalType)

def attrRecord (a : IndexEntry) : Record := a.record attrItems

end IndexEntry

/-! ## Well-formed entries -/

def StatsFit (orig : Datatype) (bits : List Nat) : Nat → List (List (Option StatData)) → Prop
  | 0, _ => True
  | count + 1, sets =>
    Forall₂ (fun j slot => ∃ s : StatData, slot = some s ∧ s.Fits orig j) bits
      ((sets.headD []).take bits.length) ∧ StatsFit orig bits count sets.tail

/-- A value in memory has the size its type says; a string has no NUL in it, and a length that
`strlen` can return. -/
def ValueInMemory (type : Datatype) (bytes : List UInt8) : Prop :=
  if type = .string then (∀ c ∈ bytes, c ≠ 0) ∧ bytes.length < 2 ^ 64
  else bytes.length = (getTypeSize type none).toNat

variable {type orig : Datatype} {t : Transform} {c : IndexCharacteristic}

theorem ValueInMemory.fits {v : List UInt8} (h : ValueInMemory type v)
    (hlen : type = .string → v.length < 2 ^ 16) : ValueFits type v := by
  unfold ValueFits
  unfold ValueInMemory at h
  by_cases hs : type = .string
  · rw [if_pos hs]
    exact hlen hs
  · rwa [if_neg hs] at h ⊢

/-- A characteristics set as the library builds it: `type` is the type of the variable and
`orig` its type before a transform. Only arrays are transformed, and what is left of a
transformed array is an array of bytes. -/
structure IndexCharacteristic.Wf (type orig : Datatype) (c : IndexCharacteristic) : Prop where
  value : ∀ v ∈ c.value, ValueInMemory type v
  dims : c.dims.Wf
  metadata : c.transform.transformMetadata.length = c.transform.transformMetadataLen.toNat
  transform : c.transform.transformType ≠ .none →
    c.transform.Wf ∧ c.dims.count ≠ 0 ∧ type ≠ .string
  original : orig.IsDefined
  bitmap : c.dims.count ≠ 0 → c.bitmap.toNat < 2 ^ statLength
  stats : c.dims.count ≠ 0 → type ≠ .string →
    StatsFit orig (statBits c.bitmap) (getStatSetCount orig).toNat (c.stats.getD [])

structure IndexEntry.HeaderWf (e : IndexEntry) : Prop where
  defined : e.type.IsDefined
  groupName : e.groupName.val.length < 2 ^ 16
  name : e.name.val.length < 2 ^ 16
  path : e.path.val.length < 2 ^ 16

structure IndexEntry.Wf (e : IndexEntry) : Prop extends e.HeaderWf where
  characteristics : ∀ c ∈ e.characteristics, c.Wf e.type e.originalType

structure IndexEntry.AttrWf (e : IndexEntry) : Prop extends e.HeaderWf where
  value : ∀ c ∈ e.characteristics, ∀ v ∈ c.value, ValueInMemory e.type v

/-! ## Emitting items -/

section Emit

variable (host : Endian)

@[simp] theorem IndexWriter.emit_emit (w : IndexWriter) (m n : UInt8) (x y : List UInt8) :
    (w.emit m x).emit n y = w.emit (m + n) (x ++ y) := by
  simp [IndexWriter.emit, UInt8.add_assoc, UInt32.add_assoc, UInt64.add_assoc]

@[simp] theorem IndexWriter.emit_nil (w : IndexWriter) : w.emit 0 [] = w := by
  simp [IndexWriter.emit]

def IndexWriter.emitItems (type : Datatype) (items : List Item) (w : IndexWriter) : IndexWriter :=
  w.emit (UInt8.ofNat items.length) (render false (items.flatMap (Item.fields host type)))

variable {host}

@[simp] theorem IndexWriter.emitItems_nil (type : Datatype) (w : IndexWriter) :
    w.emitItems host type [] = w := by
  simp [IndexWriter.emitItems]

theorem IndexWriter.emitItems_append (type : Datatype) (items items' : List Item)
    (w : IndexWriter) : w.emitItems host type (items ++ items') =
      (w.emitItems host type items).emitItems host type items' := by
  simp [IndexWriter.emitItems, UInt8.ofNat_add]

end Emit

theorem render_u64s (host : Endian) (xs : List UInt64) :
    render false (xs.map fun n => Field.word (host.u64 n)) = xs.flatMap host.u64 := by
  rw [render_map_word]
  simp

theorem render_u32s (host : Endian) (xs : List UInt32) :
    render false (xs.map fun n => Field.word (host.u32 n)) = xs.flatMap host.u32 := by
  rw [render_map_word]
  simp

theorem Dims.Wf.byteLength {d : Dims} (h : d.Wf) :
    (3 * 8 * d.count.toUInt16 : UInt16) = UInt16.ofNat (8 * d.dims.length) ∧
      (3 * 8 * d.count.toUInt16 : UInt16).toNat = 8 * d.dims.length := by
  have hlt := d.count.toNat_lt
  unfold Dims.Wf at h
  have hnat : (3 * 8 * d.count.toUInt16 : UInt16).toNat = 8 * d.dims.length := by
    rw [UInt16.toNat_mul, UInt8.toNat_toUInt16, h, show (3 * 8 : UInt16).toNat = 24 from rfl]
    omega
  refine ⟨?_, hnat⟩
  rw [← hnat, UInt16.ofNat_toNat]

theorem foldl_length (xs : List (List UInt8)) (n : UInt64) :
    xs.foldl (fun n data => n + UInt64.ofNat data.length) n =
      n + UInt64.ofNat xs.flatten.length := by
  induction xs generalizing n with
  | nil => simp
  | cons x xs ih => rw [foldl_cons, ih]; simp [UInt64.add_assoc]

theorem serializeTransformCharacteristic_eq (host : Endian) (hwf : t.Wf)
    (ht : t.transformType ≠ .none)
    (hbyte : enumByte host t.preTransformType = [t.preTransformType.code]) (buf : Buffer) :
    serializeTransformCharacteristic host t buf =
      .ok (buf.write (CharacteristicId.transformType.flag :: render false (t.fields host)),
        UInt64.ofNat (1 + imageSize (t.fields host)), 1) := by
  have hmeta := hwf.metadata
  have hassert : ¬(t.transformMetadataLen ≠ 0 ∧ t.transformMetadata = []) := by
    rintro ⟨hlen, hnil⟩
    rw [hnil, length_nil] at hmeta
    exact hlen (UInt16.toNat_inj.mp hmeta.symm)
  obtain ⟨uid, huid, huidlt, hnul⟩ := transformPluginUid_of_known hwf.known
  obtain ⟨hlen, hlenNat⟩ := hwf.dims.byteLength
  have huidRead : memRead uid (UInt8.ofNat (strlen uid)).toNat = .ok uid :=
    memRead_self (by rw [strlen_of_forall hnul, UInt8.toNat_ofNat_of_lt' huidlt])
  have hdimsRead : memRead (t.preTransformDimensions.dims.flatMap host.u64)
      (3 * 8 * t.preTransformDimensions.count.toUInt16 : UInt16).toNat =
      .ok (t.preTransformDimensions.dims.flatMap host.u64) :=
    memRead_self (by rw [hlenNat, Endian.length_flatMap_u64])
  have hmetaRead := memRead_self hmeta
  have himage : CharacteristicId.transformType.flag :: render false (t.fields host) =
      [CharacteristicId.transformType.flag] ++ ([UInt8.ofNat (strlen uid)] ++ (uid ++
      (enumByte host t.preTransformType ++ ([t.preTransformDimensions.count] ++
      (host.u16 (3 * 8 * t.preTransformDimensions.count.toUInt16) ++
      (t.preTransformDimensions.dims.flatMap host.u64 ++
      (host.u16 t.transformMetadataLen ++ t.transformMetadata))))))) := by
    rw [strlen_of_forall hnul, hlen, hbyte]
    simp [Transform.fields, Dims.fields, huid, Field.render, render_u64s]
  have hsize : 1 + imageSize (t.fields host) =
      (CharacteristicId.transformType.flag :: render false (t.fields host)).length := by
    rw [length_cons, length_render, Nat.add_comm]
  unfold serializeTransformCharacteristic
  rw [if_neg hassert, if_neg ht, huid]
  simp only [huidRead, hdimsRead, hmetaRead, bind, Except.bind, pure, Except.pure]
  rw [Buffer.foldl_write, foldl_length, hsize, himage, UInt64.zero_add]
  simp only [flatten_cons, flatten_nil, append_nil]

theorem serializeTransformCharacteristic_none (host : Endian) (buf : Buffer)
    (hmeta : t.transformMetadata.length = t.transformMetadataLen.toNat)
    (ht : t.transformType = .none) :
    serializeTransformCharacteristic host t buf = .ok (buf, 0, 0) := by
  have hassert : ¬(t.transformMetadataLen ≠ 0 ∧ t.transformMetadata = []) := by
    rintro ⟨hlen, hnil⟩
    rw [hnil, length_nil] at hmeta
    exact hlen (UInt16.toNat_inj.mp hmeta.symm)
  unfold serializeTransformCharacteristic
  rw [if_neg hassert]
  exact if_pos ht

/-- **The transform characteristic** is written for every transform but `none`. -/
theorem writeTransform_eq (host : Endian) (type : Datatype) (w : IndexWriter)
    (hmeta : t.transformMetadata.length = t.transformMetadataLen.toNat)
    (h : t.transformType ≠ .none → t.Wf)
    (hbyte : t.transformType ≠ .none → enumByte host t.preTransformType = [t.preTransformType.code])
    :
    writeTransform host t w =
      .ok (w.emitItems host type (if t.transformType = .none then [] else [.transform t])) := by
  by_cases ht : t.transformType = .none
  · unfold writeTransform
    rw [serializeTransformCharacteristic_none host w.buf hmeta ht, if_pos ht]
    simp [pure, Except.pure, bind, Except.bind]
  · have himage : render false (Item.fields host type (.transform t)) =
        CharacteristicId.transformType.flag :: render false (t.fields host) := rfl
    have hsize : 1 + imageSize (t.fields host) =
        (render false (Item.fields host type (.transform t))).length := by
      rw [himage, length_cons, length_render, Nat.add_comm]
    unfold writeTransform
    rw [serializeTransformCharacteristic_eq host (h ht) ht (hbyte ht), if_neg ht, hsize, ← himage]
    simp only [bind, Except.bind, pure, Except.pure, IndexWriter.emitItems, IndexWriter.emit,
      flatMap_cons, flatMap_nil, append_nil, length_singleton]
    rw [UInt64.toUInt32_ofNat']
    rfl

/-! ## Statistics -/

theorem writeHist_eq (host : Endian) {h : Hist} (w : IndexWriter)
    (hfreq : h.frequencies.length = h.numBreaks.toNat + 1)
    (hbreaks : h.breaks.length = h.numBreaks.toNat) (hsmall : h.numBreaks.toNat < 2 ^ 29) :
    writeHist host h w = .ok (w.emit 0 (render false ((StatData.hist h).fields host))) := by
  have h1 : ((h.numBreaks + 1) * 4).toNat = 4 * (h.numBreaks.toNat + 1) := by
    rw [UInt32.toNat_mul, UInt32.toNat_add, show (1 : UInt32).toNat = 1 from rfl,
      show (4 : UInt32).toNat = 4 from rfl]
    omega
  have h2 : (h.numBreaks * 8).toNat = 8 * h.numBreaks.toNat := by
    rw [UInt32.toNat_mul, show (8 : UInt32).toNat = 8 from rfl]
    omega
  have hf : memRead (h.frequencies.flatMap host.u32) ((h.numBreaks + 1) * 4).toNat =
      .ok (h.frequencies.flatMap host.u32) :=
    memRead_self (by rw [Endian.length_flatMap_u32, hfreq, h1])
  have hb : memRead (h.breaks.flatMap host.u64) (h.numBreaks * 8).toNat =
      .ok (h.breaks.flatMap host.u64) :=
    memRead_self (by rw [Endian.length_flatMap_u64, hbreaks, h2])
  unfold writeHist
  rw [hf, hb]
  simp only [bind, Except.bind, pure, Except.pure, IndexWriter.emit_emit]
  simp [StatData.fields, Field.render, render_u32s, render_u64s]

theorem writeStat_eq (host : Endian) {j : Nat} {s : StatData} (w : IndexWriter)
    (hfits : s.Fits type j) (hsmall : s.Writable) :
    writeStat host type j (some s) w = .ok (w.emit 0 (render false (s.fields host))) := by
  cases s with
  | raw bytes =>
    obtain ⟨hj, size, hsize, hlen⟩ := hfits
    unfold writeStat
    rw [if_neg hj]
    simp [hsize, memRead_self hlen, bind, Except.bind, pure, Except.pure, StatData.fields,
      Field.render]
  | hist h =>
    obtain ⟨hj, hfreq, hbreaks⟩ := hfits
    unfold writeStat
    rw [if_pos hj]
    exact writeHist_eq host w hfreq hbreaks hsmall

theorem writeStats_eq (host : Endian) {bits : List Nat} {slots : List (Option StatData)}
    (w : IndexWriter) (hfits : Forall₂ (fun j slot => ∃ s : StatData, slot = some s ∧ s.Fits
      type j) bits (slots.take bits.length))
    (hsmall : ∀ s ∈ (slots.take bits.length).reduceOption, s.Writable) :
    writeStats host type bits slots w =
      .ok (w.emit 0 (render false
        ((slots.take bits.length).reduceOption.flatMap (StatData.fields host)))) := by
  induction bits generalizing slots w with
  | nil => simp [writeStats, List.reduceOption]
  | cons j bits ih =>
    cases slots with
    | nil => cases hfits
    | cons slot slots =>
      rw [length_cons, take_succ_cons] at hfits hsmall ⊢
      cases hfits with
      | cons hslot hrest =>
        obtain ⟨s, rfl, hs⟩ := hslot
        rw [reduceOption_cons_of_some] at hsmall ⊢
        have hw := writeStat_eq host w hs (hsmall s (by simp))
        have hrec := ih (w.emit 0 (render false (s.fields host))) hrest
          fun s hs => hsmall s (by simp [hs])
        simp only [writeStats, hw, bind, Except.bind, hrec, IndexWriter.emit_emit]
        simp

theorem writeStatSets_eq (host : Endian) {bits : List Nat} {count : Nat}
    {sets : List (List (Option StatData))} (w : IndexWriter) (hfits : StatsFit type bits count sets)
    (hsmall : ∀ stats ∈ statSets bits.length count sets, ∀ s ∈ stats, s.Writable) :
    writeStatSets host type bits count sets w =
      .ok (w.emit 0 (render false ((statSets bits.length count sets).flatMap
        fun stats => stats.flatMap (StatData.fields host)))) := by
  induction count generalizing sets w with
  | zero => simp [writeStatSets, statSets]
  | succ count ih =>
    obtain ⟨hhead, htail⟩ := hfits
    rw [statSets] at hsmall ⊢
    have hw := writeStats_eq host w hhead (hsmall _ (by simp))
    have hrec := ih (w.emit 0
      (render false ((((sets.headD []).take bits.length).reduceOption).flatMap
      (StatData.fields host)))) htail fun stats hs => hsmall stats (by simp [hs])
    simp only [writeStatSets, hw, bind, Except.bind, hrec, IndexWriter.emit_emit]
    simp

/-! ## Characteristics sets -/

theorem writeCommon_eq (host : Endian) (type : Datatype) (c : IndexCharacteristic)
    (w : IndexWriter) : writeCommon host c w = w.emitItems host type (commonItems c) := by
  simp [writeCommon, IndexWriter.item, IndexWriter.emitItems, commonItems, Item.fields,
    Item.dataFields, Item.id, Field.render]

theorem writeArray_eq (host : Endian) (w : IndexWriter) (hwf : c.Wf type orig)
    (hdims : c.dims.count ≠ 0) (htype : type ≠ .string)
    (hsmall : ∀ stats ∈ c.statSets orig, ∀ s ∈ stats, s.Writable) (hbyte : c.transform.transformType
      ≠ .none → enumByte host c.transform.preTransformType = [c.transform.preTransformType.code]) :
    writeArray host orig c w = .ok (w.emitItems host type (arrayItems orig c)) := by
  obtain ⟨hlen, hlenNat⟩ := hwf.dims.byteLength
  have hdimsRead : memRead (c.dims.dims.flatMap host.u64)
      (3 * 8 * c.dims.count.toUInt16 : UInt16).toNat = .ok (c.dims.dims.flatMap host.u64) :=
    memRead_self (by rw [hlenNat, Endian.length_flatMap_u64])
  have hdimsItem : (((w.emit 1 [CharacteristicId.dimensions.flag]).emit 0 [c.dims.count]).emit 0
      (host.u16 (3 * 8 * c.dims.count.toUInt16))).emit 0 (c.dims.dims.flatMap host.u64) =
      w.emitItems host type [.dimensions c.dims] := by
    rw [hlen]
    simp [IndexWriter.emitItems, Item.fields, Item.dataFields, Item.id, Dims.fields,
      Field.render, render_u64s]
  unfold writeArray
  simp only [hdimsRead, bind, Except.bind]
  rw [hdimsItem, writeTransform_eq host type _ hwf.metadata (fun h => (hwf.transform h).1) hbyte]
  simp only
  rw [writeStatSets_eq host _ (hwf.stats hdims htype) hsmall]
  have hrest : ∀ w : IndexWriter, ((w.item .bitmap (host.u32 c.bitmap)).emit 1
      [CharacteristicId.stat.flag]).emit 0 (render false ((c.statSets orig).flatMap
        fun stats => stats.flatMap (StatData.fields host))) =
      w.emitItems host type [.bitmap c.bitmap, .stat (c.statSets orig)] := by
    intro w
    simp [IndexWriter.item, IndexWriter.emitItems, Item.fields, Item.dataFields, Item.id,
      Field.render]
  rw [show statSets (statBits c.bitmap).length (getStatSetCount orig).toNat (c.stats.getD []) =
    c.statSets orig from rfl, hrest, ← IndexWriter.emitItems_append,
    ← IndexWriter.emitItems_append]
  rfl

theorem endSet_emitItems (host : Endian) (type : Datatype) (items : List Item) (w : IndexWriter) :
    (w.beginSet.emitItems host type items).endSet host w.buf.offset =
      { buf := w.buf.write (render false (setFields host type items))
        indexSize := w.indexSize +
          UInt64.ofNat (render false (setFields host type items)).length
        entrySize := w.entrySize +
          UInt32.ofNat (render false (setFields host type items)).length
        setLength := UInt32.ofNat (imageSize (items.flatMap (Item.fields host type)))
        setCount := UInt8.ofNat items.length } := by
  have hpatch := w.buf.skip_write_patch ([UInt8.ofNat items.length] ++
      host.u32 (UInt32.ofNat (imageSize (items.flatMap (Item.fields host type)))))
    (render false (items.flatMap (Item.fields host type))) (show _ = 5 by simp)
  have hsplit := Buffer.patch_patch
    ((w.buf.skip 5).write (render false (items.flatMap (Item.fields host type)))) w.buf.offset
    [UInt8.ofNat items.length]
    (host.u32 (UInt32.ofNat (imageSize (items.flatMap (Item.fields host type)))))
  rw [length_singleton, hpatch] at hsplit
  have himage : render false (setFields host type items) = [UInt8.ofNat items.length] ++
      host.u32 (UInt32.ofNat (imageSize (items.flatMap (Item.fields host type)))) ++
      render false (items.flatMap (Item.fields host type)) := by
    simp [setFields, Field.render]
  have hlen : (render false (setFields host type items)).length =
      5 + imageSize (items.flatMap (Item.fields host type)) := by
    rw [himage]
    simp [length_render]
    omega
  rw [← himage, ← length_render false] at hsplit
  rw [← hsplit, hlen, UInt64.ofNat_add, UInt32.ofNat_add, ← length_render false,
    ← UInt64.add_assoc, ← UInt32.add_assoc]
  simp only [IndexWriter.endSet, IndexWriter.emitItems, IndexWriter.emit, IndexWriter.beginSet,
    UInt8.zero_add, UInt32.zero_add]
  rfl

theorem memRead_value {value : Option (List UInt8)} (h : ∀ v ∈ value, ValueInMemory type v) :
    memRead (value.getD []) (getTypeSize type value).toNat = .ok (value.getD []) ∨
      value = none ∧ type ≠ .string := by
  cases value with
  | none =>
    by_cases ht : type = .string
    · subst ht
      exact Or.inl (memRead_self rfl)
    · exact Or.inr ⟨rfl, ht⟩
  | some v =>
    refine Or.inl (memRead_self ?_)
    have hv := h v rfl
    unfold ValueInMemory at hv
    by_cases ht : type = .string
    · subst ht
      rw [if_pos rfl] at hv
      show v.length = (UInt64.ofNat (strlen v)).toNat
      rw [strlen_of_forall hv.1, UInt64.toNat_ofNat_of_lt' hv.2]
    · rw [if_neg ht] at hv
      rw [getTypeSize_eq ht _ none]
      exact hv

theorem emit_value (host : Endian) {v : List UInt8} (w : IndexWriter) (h : ValueInMemory type v) :
    (if type = .string then (w.emit 1 [CharacteristicId.value.flag]).emit 0
        (host.u16 (getTypeSize type (some v)).toUInt16)
      else w.emit 1 [CharacteristicId.value.flag]).emit 0 v =
      w.emitItems host type [.value v] := by
  by_cases ht : type = .string
  · subst ht
    have hv : ∀ c ∈ v, c ≠ 0 := by
      have := h
      rw [ValueInMemory, if_pos rfl] at this
      exact this.1
    have hsize : (getTypeSize .string (some v)).toUInt16 = UInt16.ofNat v.length := by
      show (UInt64.ofNat (strlen v)).toUInt16 = _
      rw [strlen_of_forall hv, UInt64.toUInt16_ofNat']
    rw [if_pos rfl, hsize]
    simp [IndexWriter.emitItems, Item.fields, Item.dataFields, Item.id, valueFields, Field.render]
  · rw [if_neg ht]
    have himage : render false (valueFields host type v) = v := by
      by_cases hc : type = .complex ∨ type = .doubleComplex
      · rcases hc with rfl | rfl <;> simp [valueFields, Field.render]
      · cases type <;> first | contradiction | simp [valueFields, Field.render]
    simp [IndexWriter.emitItems, Item.fields, Item.dataFields, Item.id, Field.render, himage]

def IndexWriter.appendSet (host : Endian) (type : Datatype) (items : List Item)
    (w : IndexWriter) : IndexWriter :=
  { buf := w.buf.write (render false (setFields host type items))
    indexSize := w.indexSize + UInt64.ofNat (render false (setFields host type items)).length
    entrySize := w.entrySize + UInt32.ofNat (render false (setFields host type items)).length
    setLength := UInt32.ofNat (imageSize (items.flatMap (Item.fields host type)))
    setCount := UInt8.ofNat items.length }

theorem writeValue_eq (host : Endian) (w : IndexWriter) (hs : type ≠ .string)
    (h : ∀ v ∈ c.value, ValueInMemory type v) :
    writeValue type c w = .ok (w.emitItems host type (c.value.map .value).toList) := by
  unfold writeValue
  cases hv : c.value with
  | none => simp
  | some v =>
    have hread := (memRead_value h).resolve_right (by simp [hv])
    have hemit := emit_value host w (h v hv)
    rw [if_neg hs] at hemit
    rw [hv, Option.getD_some] at hread
    simp only [hread, bind, Except.bind, pure, Except.pure, IndexWriter.item, hemit]
    rfl

theorem writeVarItems_eq (host : Endian) (w : IndexWriter) (ht : type.IsDefined)
    (hwf : c.Wf type orig) (hsmall : type ≠ .string → c.dims.count ≠ 0 → ∀ stats ∈ c.statSets orig,
      ∀ s ∈ stats, s.Writable) (hbyte : c.transform.transformType ≠ .none → enumByte host
      c.transform.preTransformType = [c.transform.preTransformType.code]) :
    writeVarItems host type orig c w = .ok (w.emitItems host type (varOwnItems type orig c)) := by
  by_cases hs : type = .string
  · subst hs
    have hread : memRead (c.value.getD []) (getTypeSize .string c.value).toNat =
        .ok (c.value.getD []) := (memRead_value hwf.value).resolve_right fun h => h.2 rfl
    have hvalue : ValueInMemory .string (c.value.getD []) := by
      cases hv : c.value with
      | none => simp [ValueInMemory]
      | some v => exact hwf.value v hv
    have hsize : getTypeSize .string c.value = getTypeSize .string (some (c.value.getD [])) := by
      cases c.value <;> rfl
    have hemit := emit_value host w hvalue
    rw [if_pos rfl, ← hsize] at hemit
    simp only [writeVarItems, hread, bind, Except.bind, pure, Except.pure, hemit]
    rfl
  · have harray : (if c.dims.count ≠ 0 then writeArray host orig c w else .ok w) =
        .ok (w.emitItems host type (if c.dims.count = 0 then [] else arrayItems orig c)) := by
      by_cases hd : c.dims.count = 0
      · simp [hd]
      · rw [if_pos hd, if_neg hd, writeArray_eq host w hwf hd hs (hsmall hs hd) hbyte]
    rw [varOwnItems, if_neg hs, IndexWriter.emitItems_append]
    rw [← writeValue_eq host _ hs hwf.value]
    unfold writeVarItems
    cases type <;> first | contradiction | (simp only [harray]; rfl)

theorem writeVarSet_eq (host : Endian) (w : IndexWriter) (ht : type.IsDefined)
    (hwf : c.Wf type orig) (hsmall : type ≠ .string → c.dims.count ≠ 0 → ∀ stats ∈ c.statSets orig,
      ∀ s ∈ stats, s.Writable) (hbyte : c.transform.transformType ≠ .none → enumByte host
      c.transform.preTransformType = [c.transform.preTransformType.code]) :
    writeVarSet host type orig w c = .ok (w.appendSet host type (varItems type orig c)) := by
  rw [IndexWriter.appendSet, ← endSet_emitItems]
  unfold writeVarSet
  rw [writeCommon_eq host type, writeVarItems_eq host _ ht hwf hsmall hbyte,
    ← IndexWriter.emitItems_append]
  rfl

theorem writeAttrSet_eq (host : Endian) (w : IndexWriter)
    (hvalue : ∀ v ∈ c.value, ValueInMemory type v) :
    writeAttrSet host type w c = .ok (w.appendSet host type (attrItems c)) := by
  rw [IndexWriter.appendSet, ← endSet_emitItems]
  unfold writeAttrSet writeAttrItems
  rw [writeCommon_eq host type]
  have hid : ∀ w : IndexWriter, (if c.varId ≠ 0 then w.item .varId (host.u32 c.varId) else w) =
      w.emitItems host type (if c.varId = 0 then [] else [.varId c.varId]) := by
    intro w
    by_cases hv : c.varId = 0
    · simp [hv]
    · simp [hv, IndexWriter.item, IndexWriter.emitItems, Item.fields, Item.dataFields, Item.id,
        Field.render]
  rw [attrItems, IndexWriter.emitItems_append, IndexWriter.emitItems_append]
  cases hv : c.value with
  | none =>
    simp only [bind, Except.bind, pure, Except.pure, hid]
    simp
  | some v =>
    have hread := (memRead_value hvalue).resolve_right (by simp [hv])
    have hemit := emit_value host ((w.beginSet).emitItems host type (commonItems c))
      (hvalue v hv)
    rw [hv, Option.getD_some] at hread
    simp only [hread, bind, Except.bind, pure, Except.pure, hemit, hid]
    rfl

/-! ## Entries -/

structure IndexWriter.Appended (w w' : IndexWriter) (data : List UInt8) : Prop where
  buf : w'.buf = w.buf.write data
  indexSize : w'.indexSize = w.indexSize + UInt64.ofNat data.length
  entrySize : w'.entrySize = w.entrySize + UInt32.ofNat data.length

theorem IndexWriter.Appended.trans {w w' w'' : IndexWriter} {x y : List UInt8}
    (h : w.Appended w' x) (h' : w'.Appended w'' y) : w.Appended w'' (x ++ y) where
  buf := by rw [h'.buf, h.buf, Buffer.write_write]
  indexSize := by
    rw [h'.indexSize, h.indexSize, length_append, UInt64.ofNat_add, UInt64.add_assoc]
  entrySize := by
    rw [h'.entrySize, h.entrySize, length_append, UInt32.ofNat_add, UInt32.add_assoc]

theorem IndexWriter.appended_put (w : IndexWriter) (data : List UInt8) :
    w.Appended (w.put data) data := ⟨rfl, rfl, rfl⟩

theorem appended_putString (host : Endian) {s : CString} (w : IndexWriter)
    (h : s.val.length < 2 ^ 16) :
    w.Appended (putString host s w) (render false (stringFields host s)) := by
  have hlen : (UInt16.ofNat s.val.length).toNat = s.val.length := UInt16.toNat_ofNat_of_lt' h
  have hput := (w.appended_put (host.u16 (UInt16.ofNat s.val.length))).trans
    (IndexWriter.appended_put _ s.val)
  simpa [putString, stringFields, Field.render, hlen] using hput

theorem foldlM_appendSet {host : Endian} {α : Type} {cs : List α}
    {step : IndexWriter → α → Except Fault IndexWriter} {items : α → List Item}
    (h : ∀ c ∈ cs, ∀ w, step w c = .ok (w.appendSet host type (items c))) (w : IndexWriter) :
    ∃ w', cs.foldlM step w = .ok w' ∧
      w.Appended w' (render false (cs.flatMap fun c => setFields host type (items c))) := by
  induction cs generalizing w with
  | nil => exact ⟨w, rfl, by simp, by simp, by simp⟩
  | cons c cs ih =>
    obtain ⟨w', hw', happ⟩ := ih (fun c hc => h c (by simp [hc])) (w.appendSet host type (items c))
    have hstep : w.Appended (w.appendSet host type (items c))
        (render false (setFields host type (items c))) := ⟨rfl, rfl, rfl⟩
    refine ⟨w', ?_, ?_⟩
    · rw [List.foldlM_cons, h c (by simp) w]
      exact hw'
    · rw [flatMap_cons, render_append]
      exact hstep.trans happ

/-- **An entry** is written as its record. The entry's length is in front of the bytes it
counts, and `index_size` leaves it out. -/
theorem writeEntry_eq {host : Endian} {e : IndexEntry} {items : IndexCharacteristic → List Item}
    {writeSet : IndexEntry → IndexWriter → IndexCharacteristic → Except Fault IndexWriter}
    (hwf : e.HeaderWf) (hlen : e.characteristics.length < 2 ^ 31)
    (hset : ∀ c ∈ e.characteristics, ∀ w,
      writeSet e w c = .ok (w.appendSet host e.type (items c))) (w : IndexWriter) :
    ∃ w', writeEntry host writeSet w e = .ok w' ∧
      w'.buf = w.buf.write (render false ((e.record items).fields host)) ∧
      w'.indexSize = w.indexSize + UInt64.ofNat (imageSize ((e.record items).bodyFields host)) := by
  have happ := (((((IndexWriter.appended_put w.beginEntry (host.u32 e.id)).trans
    (appended_putString host _ hwf.groupName)).trans (appended_putString host _ hwf.name)).trans
    (appended_putString host _ hwf.path)).trans (IndexWriter.appended_put _ [e.type.code])).trans
    (IndexWriter.appended_put _ (host.u64 (UInt64.ofNat e.characteristics.length)))
  obtain ⟨w', hw', happ'⟩ := foldlM_appendSet hset
    (((putString host e.path (putString host e.name (putString host e.groupName
      (w.beginEntry.put (host.u32 e.id))))).put [e.type.code]).put
      (host.u64 (UInt64.ofNat e.characteristics.length)))
  have hbody := happ.trans happ'
  have himage : host.u32 e.id ++ render false (stringFields host e.groupName) ++
      render false (stringFields host e.name) ++ render false (stringFields host e.path) ++
      [e.type.code] ++ host.u64 (UInt64.ofNat e.characteristics.length) ++
      render false (e.characteristics.flatMap fun c => setFields host e.type (items c)) =
      render false ((e.record items).bodyFields host) := by
    simp [IndexEntry.record, Record.bodyFields, Field.render, flatMap_map]
  rw [himage] at hbody
  refine ⟨w'.endEntry host w.buf.offset, ?_, ?_, ?_⟩
  · unfold writeEntry writeSets
    simp only [if_pos hlen, hw', bind, Except.bind, pure, Except.pure]
  · have hsize : w'.entrySize = UInt32.ofNat (imageSize ((e.record items).bodyFields host)) := by
      rw [hbody.entrySize, length_render]
      exact UInt32.zero_add _
    rw [IndexWriter.endEntry, hbody.buf, hsize, Record.fields, render_cons]
    exact w.buf.skip_write_patch _ _ (by simp)
  · rw [IndexWriter.endEntry, hbody.indexSize, length_render]
    rfl

theorem writeEntries_eq {host : Endian} {es : List IndexEntry} {record : IndexEntry → Record}
    {writeOne : IndexWriter → IndexEntry → Except Fault IndexWriter}
    (h : ∀ e ∈ es, ∀ w, ∃ w', writeOne w e = .ok w' ∧
      w'.buf = w.buf.write (render false ((record e).fields host)) ∧
      w'.indexSize = w.indexSize + UInt64.ofNat (imageSize ((record e).bodyFields host)))
    (buf : Buffer) :
    writeEntries host writeOne es buf =
      .ok (buf.write (render false (sectionFields host (es.map record)))) := by
  have hfold : ∀ w : IndexWriter, ∃ w', es.foldlM writeOne w = .ok w' ∧
      w'.buf = w.buf.write (render false ((es.map record).flatMap (Record.fields host))) ∧
      w'.indexSize = w.indexSize +
        UInt64.ofNat ((es.map record).map fun r => imageSize (r.bodyFields host)).sum := by
    induction es with
    | nil => exact fun w => ⟨w, rfl, by simp, by simp⟩
    | cons e es ih =>
      intro w
      obtain ⟨w₁, h₁, hbuf₁, hsize₁⟩ := h e (by simp) w
      obtain ⟨w₂, h₂, hbuf₂, hsize₂⟩ := ih (fun e he => h e (by simp [he])) w₁
      refine ⟨w₂, ?_, ?_, ?_⟩
      · rw [List.foldlM_cons, h₁]
        exact h₂
      · rw [hbuf₂, hbuf₁]
        simp
      · rw [hsize₂, hsize₁]
        simp [UInt64.add_assoc]
  obtain ⟨w', hw', hbuf, hsize⟩ := hfold
    { buf := buf.skip (4 + 8), indexSize := 0, entrySize := 0, setLength := 0, setCount := 0 }
  have hpatch := Buffer.patch_patch
    ((buf.skip 12).write (render false ((es.map record).flatMap (Record.fields host))))
    buf.offset (host.u32 (UInt32.ofNat es.length))
    (host.u64 (UInt64.ofNat ((es.map record).map fun r => imageSize (r.bodyFields host)).sum))
  rw [buf.skip_write_patch (host.u32 _ ++ host.u64 _) _ (by simp), Endian.length_u32] at hpatch
  unfold writeEntries
  simp only [hw', hbuf, hsize, bind, Except.bind, pure, Except.pure]
  rw [UInt64.zero_add, hpatch]
  simp [sectionFields, Field.render]

theorem writeVarsIndex_eq (host : Endian) {vs : List IndexEntry} (hwf : ∀ v ∈ vs, v.Wf)
    (hlen : ∀ v ∈ vs, v.characteristics.length < 2 ^ 31)
    (hsmall : ∀ v ∈ vs, ∀ c ∈ v.characteristics, v.type ≠ .string → c.dims.count ≠ 0 →
      ∀ stats ∈ c.statSets v.originalType, ∀ s ∈ stats, s.Writable)
    (hbyte : ∀ v ∈ vs, ∀ c ∈ v.characteristics, c.transform.transformType ≠ .none →
      enumByte host c.transform.preTransformType = [c.transform.preTransformType.code])
    (buf : Buffer) :
    writeVarsIndex host vs buf =
      .ok (buf.write (render false (sectionFields host (vs.map IndexEntry.varRecord)))) :=
  writeEntries_eq (fun v hv w => writeEntry_eq (hwf v hv).toHeaderWf (hlen v hv) (fun c hc w =>
    writeVarSet_eq host w (hwf v hv).defined ((hwf v hv).characteristics c hc) (hsmall v hv c hc)
      (hbyte v hv c hc)) w) buf

theorem writeAttrsIndex_eq (host : Endian) {attrs : List IndexEntry} (hwf : ∀ a ∈ attrs, a.AttrWf)
    (hlen : ∀ a ∈ attrs, a.characteristics.length < 2 ^ 31) (buf : Buffer) :
    writeAttrsIndex host attrs buf =
      .ok (buf.write (render false (sectionFields host (attrs.map IndexEntry.attrRecord)))) :=
  writeEntries_eq (fun a ha w => writeEntry_eq (hwf a ha).toHeaderWf (hlen a ha) (fun c hc w =>
    writeAttrSet_eq host w ((hwf a ha).value c hc)) w) buf

theorem foldlM_ok {α σ : Type} {step : σ → α → Except Fault σ} {xs : List α} {s s' : σ}
    (h : xs.foldlM step s = .ok s') : ∀ x ∈ xs, ∃ t t', step t x = .ok t' := by
  induction xs generalizing s with
  | nil => simp
  | cons x xs ih =>
    rw [List.foldlM_cons] at h
    cases hx : step s x with
    | error e => rw [hx] at h; cases h
    | ok t =>
      rw [hx] at h
      intro y hy
      rcases mem_cons.mp hy with rfl | hy
      · exact ⟨s, t, hx⟩
      · exact ih h y hy

/-- **The writer's loop counter.** A section that is written has no entry with more sets than an
`int` counts. -/
theorem length_lt_of_writeEntries {host : Endian}
    {writeSet : IndexEntry → IndexWriter → IndexCharacteristic → Except Fault IndexWriter}
    {es : List IndexEntry} {buf out : Buffer}
    (h : writeEntries host (writeEntry host writeSet) es buf = .ok out) :
    ∀ e ∈ es, e.characteristics.length < 2 ^ 31 := by
  intro e he
  unfold writeEntries at h
  simp only [bind, Except.bind] at h
  split at h
  · cases h
  · rename_i w hw
    obtain ⟨t, t', ht⟩ := foldlM_ok hw e he
    by_contra hlen
    simp only [writeEntry, writeSets, if_neg hlen, bind, Except.bind] at ht
    cases ht

end Adios
