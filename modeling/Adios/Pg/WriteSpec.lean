import Adios.Pg.TransformCharacteristic
import Adios.Pg.Write

/-!
# Adios — what the writer of a process group emits

One lemma for each function of `Pg.Write`: it appends exactly the image of the fields it is about.
The two lengths of a variable's header that are counted in 16 bits on the way, that of the
dimensions and that of the characteristics, stand in the image as the code has them.
-/

namespace Adios

open List Wire UInt64

/-! ## Dimensions -/

def DimensionItem.fields (host : Endian) (d : DimensionItem) : List Field :=
  if d.isLiteral then [.text (chars "n"), .word (host.u64 d.rank)]
  else [.text (chars "y"), .word (host.u32 d.memberId)]

def Dimension.fields (host : Endian) (d : Dimension) : List Field :=
  d.dimension.fields host ++ d.globalDimension.fields host ++ d.localOffset.fields host

/-- The fields of the dimensions of a variable: their number, the length computed for them and
the dimensions. -/
def dimensionsFields (host : Endian) (ds : List Dimension) : List Field :=
  .text [countDimensions ds] :: .word (host.u16 (calcDimensionsSize ds))
    :: ds.flatMap (Dimension.fields host)

variable (host : Endian) (m : Machine)

theorem imageSize_itemFields (d : DimensionItem) :
    imageSize (d.fields host) = 1 + if d.isLiteral then 8 else 4 := by
  unfold DimensionItem.fields
  split_ifs <;> simp [Field.raw, chars]

theorem writeDimensionItem_eq (d : DimensionItem) (buf : Buffer) :
    writeDimensionItem host d buf = (buf.write (render false (d.fields host)),
      UInt64.ofNat (imageSize (d.fields host))) := by
  rw [imageSize_itemFields]
  unfold writeDimensionItem DimensionItem.fields
  split_ifs <;> simp [Field.render]

theorem writeDimensionV1_eq (d : Dimension) (buf : Buffer) :
    writeDimensionV1 host d buf = (buf.write (render false (d.fields host)),
      UInt64.ofNat (imageSize (d.fields host))) := by
  simp [writeDimensionV1, writeDimensionItem_eq, Dimension.fields, UInt64.add_assoc]

theorem writeDimensionsV1_eq (ds : List Dimension) (buf : Buffer) :
    writeDimensionsV1 host ds buf = (buf.write (render false (dimensionsFields host ds)),
      UInt16.ofNat (imageSize (dimensionsFields host ds))) := by
  have hfold : ∀ (buf : Buffer) (n : Nat), ds.foldl (fun (acc : Buffer × UInt16) d =>
      ((writeDimensionV1 host d acc.1).1, acc.2 + (writeDimensionV1 host d acc.1).2.toUInt16))
        (buf, UInt16.ofNat n) =
      (buf.write (render false (ds.flatMap (Dimension.fields host))),
        UInt16.ofNat (n + imageSize (ds.flatMap (Dimension.fields host)))) := by
    induction ds with
    | nil => simp
    | cons d ds ih =>
      intro buf n
      have hsize : UInt16.ofNat n + (writeDimensionV1 host d buf).2.toUInt16 =
          UInt16.ofNat (n + imageSize (d.fields host)) := by
        rw [writeDimensionV1_eq, UInt16.ofNat_add, UInt64.toUInt16_ofNat']
      rw [foldl_cons, hsize, writeDimensionV1_eq, ih]
      simp [Nat.add_assoc]
  unfold writeDimensionsV1
  rw [dimensionsFields, imageSize_cons, imageSize_cons]
  have himage := hfold ((buf.write [countDimensions ds]).write
    (host.u16 (calcDimensionsSize ds))) 3
  refine Eq.trans himage (Prod.ext ?_ ?_)
  · simp [Field.render]
  · simp [Field.raw, ← Nat.add_assoc]

def Var.dims (m : Machine) (v : Var) : Dims :=
  ⟨countDimensions v.dimensions, v.dimensions.flatMap (Dimension.values m)⟩

theorem foldl_add_const {α : Type} (xs : List α) (k : UInt16) (n : UInt16) :
    xs.foldl (fun n _ => n + k) n = n + UInt16.ofNat xs.length * k := by
  induction xs generalizing n with
  | nil => simp
  | cons x xs ih =>
    rw [foldl_cons, ih, length_cons, UInt16.ofNat_add, UInt16.add_mul, UInt16.add_assoc]
    congr 1
    rw [UInt16.add_comm]
    simp

theorem writeVarCharacteristicsDimsV1_eq (v : Var) (buf : Buffer) :
    writeVarCharacteristicsDimsV1 m v buf =
      (buf.write (render false ((v.dims m).fields m.host)),
        UInt16.ofNat (imageSize ((v.dims m).fields m.host))) := by
  have hwrite : ∀ (values : List UInt64) (buf : Buffer),
      values.foldl (fun buf dim => buf.write (m.host.u64 dim)) buf =
        buf.write (values.flatMap m.host.u64) := by
    intro values buf
    rw [← foldl_map, Buffer.foldl_write, List.flatMap]
  have hlength : UInt16.ofNat (8 * (v.dims m).dims.length) =
      UInt16.ofNat (v.dims m).dims.length * 8 := by
    rw [Nat.mul_comm, UInt16.ofNat_mul]
    rfl
  have hhdr := buf.skip_write_patch ([countDimensions v.dimensions] ++
    m.host.u16 (UInt16.ofNat (8 * (v.dims m).dims.length)))
    ((v.dims m).dims.flatMap m.host.u64) (show _ = 3 by simp)
  unfold writeVarCharacteristicsDimsV1
  simp only [hwrite, foldl_add_const, UInt16.zero_add]
  refine Prod.ext ?_ ?_
  · show ((((buf.skip 1).skip 2).write ((v.dims m).dims.flatMap m.host.u64)).patch buf.offset
      [countDimensions v.dimensions]).patch (buf.offset + 1)
        (m.host.u16 (UInt16.ofNat (v.dims m).dims.length * 8)) = _
    have hpatch := Buffer.patch_patch (((buf.skip 1).skip 2).write
      ((v.dims m).dims.flatMap m.host.u64)) buf.offset [countDimensions v.dimensions]
      (m.host.u16 (UInt16.ofNat (8 * (v.dims m).dims.length)))
    rw [length_singleton] at hpatch
    rw [← hlength, hpatch]
    refine hhdr.trans (congrArg _ ?_)
    simp [Dims.fields, Field.render, render_u64s]
    rfl
  · show 1 + 2 + UInt16.ofNat (v.dims m).dims.length * 8 = _
    rw [imageSize_dimsFields, UInt16.ofNat_add, hlength]
    rfl

/-! ## Statistics -/

/-- The sizes of the arrays of a histogram fit an `int`. -/
def StatData.Small : StatData → Prop
  | .raw _ => True
  | .hist h => h.numBreaks.toNat < 2 ^ 28

theorem StatData.Small.writable {s : StatData} (h : s.Small) : s.Writable := by
  cases s with
  | raw => trivial
  | hist hist =>
    have hlt : hist.numBreaks.toNat < 2 ^ 28 := h
    show hist.numBreaks.toNat < 2 ^ 29
    omega

theorem writeVarHist_eq {h : Hist} (w : IndexWriter)
    (hfreq : h.frequencies.length = h.numBreaks.toNat + 1)
    (hbreaks : h.breaks.length = h.numBreaks.toNat) (hsmall : h.numBreaks.toNat < 2 ^ 28) :
    writeVarHist host h w = .ok (w.emit 0 (render false ((StatData.hist h).fields host))) := by
  have hf : memRead (h.frequencies.flatMap host.u32) (4 * (h.numBreaks.toNat + 1)) =
      .ok (h.frequencies.flatMap host.u32) :=
    memRead_self (by rw [Endian.length_flatMap_u32, hfreq])
  have hb : memRead (h.breaks.flatMap host.u64) (8 * h.numBreaks.toNat) =
      .ok (h.breaks.flatMap host.u64) :=
    memRead_self (by rw [Endian.length_flatMap_u64, hbreaks])
  unfold writeVarHist
  rw [if_neg (by omega), hf, hb]
  simp only [bind, Except.bind, pure, Except.pure, IndexWriter.emit_emit]
  simp [StatData.fields, Field.render, render_u32s, render_u64s]

variable {type : Datatype} {bits : List Nat} {w w' : IndexWriter} {v : Var}

theorem writeVarStat_eq {j : Nat} {s : StatData} (w : IndexWriter) (hfits : s.Fits type j)
    (hsmall : s.Small) :
    writeVarStat host type j (some s) w = writeStat host type j (some s) w := by
  unfold writeVarStat
  split_ifs with hj
  · cases s with
    | raw bytes => exact absurd hj hfits.1
    | hist h =>
      obtain ⟨-, hfreq, hbreaks⟩ := hfits
      have hfit : (StatData.hist h).Fits type j := ⟨hj, hfreq, hbreaks⟩
      rw [writeStat_eq host w hfit hsmall.writable]
      exact writeVarHist_eq host w hfreq hbreaks hsmall
  · rfl

theorem writeVarStats_eq {slots : List (Option StatData)} (w : IndexWriter) (hfits : Forall₂
      (fun j slot => ∃ s : StatData, slot = some s ∧ s.Fits type j) bits (slots.take bits.length))
    (hsmall : ∀ s ∈ (slots.take bits.length).reduceOption, s.Small) :
    writeVarStats host type bits slots w = writeStats host type bits slots w := by
  induction bits generalizing slots w with
  | nil => rfl
  | cons j bits ih =>
    cases slots with
    | nil => rfl
    | cons slot slots =>
      rw [length_cons, take_succ_cons] at hfits hsmall
      cases hfits with
      | cons hslot hrest =>
        obtain ⟨s, rfl, hs⟩ := hslot
        rw [reduceOption_cons_of_some] at hsmall
        rw [writeVarStats, writeStats, writeVarStat_eq host w hs (hsmall s (by simp))]
        exact bind_congr fun w => ih w hrest fun s hs => hsmall s (by simp [hs])

theorem writeVarStatSets_eq {count : Nat} {sets : List (List (Option StatData))} (w : IndexWriter)
    (hfits : StatsFit type bits count sets)
    (hsmall : ∀ stats ∈ statSets bits.length count sets, ∀ s ∈ stats, s.Small) :
    writeVarStatSets host type bits count sets w = writeStatSets host type bits count sets w := by
  induction count generalizing sets w with
  | zero => rfl
  | succ count ih =>
    obtain ⟨hhead, htail⟩ := hfits
    rw [statSets] at hsmall
    rw [writeVarStatSets, writeStatSets, writeVarStats_eq host w hhead (hsmall _ (by simp))]
    exact bind_congr fun w => ih w htail fun stats hs => hsmall stats (by simp [hs])

theorem small_of_writeVarStats {host : Endian} {slots : List (Option StatData)} (hfits :
      Forall₂ (fun j slot => ∃ s : StatData, slot = some s ∧ s.Fits type j) bits (slots.take
      bits.length)) (h : writeVarStats host type bits slots w = .ok w') :
    ∀ s ∈ (slots.take bits.length).reduceOption, s.Small := by
  induction bits generalizing slots w with
  | nil => simp
  | cons j bits ih =>
    cases slots with
    | nil => cases hfits
    | cons slot slots =>
      rw [length_cons, take_succ_cons] at hfits ⊢
      cases hfits with
      | cons hslot hrest =>
        obtain ⟨s, rfl, hs⟩ := hslot
        rw [writeVarStats] at h
        obtain ⟨w₁, hstat, hstats⟩ := exists_of_bind_eq_ok h
        rw [reduceOption_cons_of_some]
        intro s' hs'
        rcases mem_cons.mp hs' with rfl | hs'
        · cases s' with
          | raw bytes => trivial
          | hist hist =>
            unfold writeVarStat at hstat
            rw [if_pos hs.1] at hstat
            simp only [writeVarHist] at hstat
            split_ifs at hstat with hbig
            exact Nat.lt_of_not_le hbig
        · exact ih hrest hstats s' hs'

theorem small_of_writeVarStatSets {host : Endian} {count : Nat}
    {sets : List (List (Option StatData))} (hfits : StatsFit type bits count sets)
    (h : writeVarStatSets host type bits count sets w = .ok w') :
    ∀ stats ∈ statSets bits.length count sets, ∀ s ∈ stats, s.Small := by
  induction count generalizing sets w with
  | zero => simp [statSets]
  | succ count ih =>
    obtain ⟨hhead, htail⟩ := hfits
    rw [writeVarStatSets] at h
    obtain ⟨w₁, hstats, hrest⟩ := exists_of_bind_eq_ok h
    rw [statSets]
    intro stats hmem
    rcases mem_cons.mp hmem with rfl | hmem
    · exact small_of_writeVarStats hhead hstats
    · exact ih htail hrest stats hmem

/-! ## Characteristics -/

/-- A variable as the library holds it when it is written: what a transform has left of an array is
an array of bytes, and the statistics of the bitmap are there. -/
structure Var.Wf (v : Var) : Prop where
  defined : v.type.IsDefined
  known : v.transformType ≠ .unknown
  transformed : v.transformType ≠ .none →
    v.type = .byte ∧ v.dimensions ≠ [] ∧ v.preTransformType.IsDefined
  metadata : v.transformMetadata.length = v.transformMetadataLen.toNat
  bitmap : v.bitmap.toNat < 2 ^ statLength
  stats : v.type ≠ .string → v.dimensions ≠ [] →
    StatsFit (originalTypeVar v) (statBits v.bitmap) (getStatSetCount (originalTypeVar v)).toNat
      (v.stats.getD [])

namespace Var

def IsArray (v : Var) : Prop := v.type ≠ .string ∧ v.dimensions ≠ []

instance (v : Var) : Decidable v.IsArray := inferInstanceAs (Decidable (_ ∧ _))

def statSets (v : Var) : List (List StatData) :=
  Adios.statSets (statBits v.bitmap).length (getStatSetCount (originalTypeVar v)).toNat
    (v.stats.getD [])

def arrayItems (m : Machine) (v : Var) : List Item :=
  (if v.transformType = .none then []
    else [.transform ((copyTransformCharacteristic m v).written m.host)])
    ++ [.bitmap v.bitmap, .stat v.statSets]

def items (m : Machine) (v : Var) : List Item :=
  if v.IsArray then .dimensions (v.dims m) :: v.arrayItems m else []

def HistsSmall (v : Var) : Prop := ∀ stats ∈ v.statSets, ∀ s ∈ stats, s.Small

def bodyFields (m : Machine) (v : Var) : List Field :=
  (v.items m).flatMap (Item.fields m.host v.type)

end Var

theorem Var.histsSmall_of_bitmap (h : v.bitmap = 0) : v.HistsSmall := by
  have hnil : ∀ (count : Nat) (sets : List (List (Option StatData))),
      ∀ stats ∈ Adios.statSets 0 count sets, stats = [] := by
    intro count
    induction count with
    | zero => simp [Adios.statSets]
    | succ count ih =>
      intro sets stats hstats
      rcases mem_cons.mp hstats with rfl | hstats
      · rfl
      · exact ih sets.tail stats hstats
  intro stats hstats s hs
  rw [Var.statSets, h, show (statBits 0).length = 0 by decide] at hstats
  rw [hnil _ _ stats hstats] at hs
  cases hs

theorem copyTransformCharacteristic_wf' (h : v.Wf) (ht : v.transformType ≠ .none) :
    (copyTransformCharacteristic m v).Wf where
  known := h.known
  defined := (h.transformed ht).2.2
  dims := dereferenceDimensionsCharacteristic_wf m _
  metadata := h.metadata

theorem writeTransform_written (type : Datatype) (w : IndexWriter) (h : v.Wf) :
    writeTransform m.host (copyTransformCharacteristic m v) w =
      .ok (w.emitItems m.host type (if v.transformType = .none then []
        else [.transform ((copyTransformCharacteristic m v).written m.host)])) := by
  by_cases ht : v.transformType = .none
  · have hcopy : (copyTransformCharacteristic m v).transformType = .none := ht
    rw [writeTransform_eq m.host type w h.metadata (fun hne => absurd ht hne)
      (fun hne => absurd ht hne), if_pos ht, if_pos hcopy]
  · have hwf := copyTransformCharacteristic_wf' m h ht
    have hwritten := hwf.written m.host
    have hsame : writeTransform m.host (copyTransformCharacteristic m v) w =
        writeTransform m.host ((copyTransformCharacteristic m v).written m.host) w := by
      unfold writeTransform
      rw [serializeTransformCharacteristic_written hwf]
    rw [hsame, writeTransform_eq m.host type w hwritten.metadata (fun _ => hwritten)
      (fun _ => hwf.enumByte_written m.host), Transform.written_transformType]
    rfl

theorem writeVarArray_eq (w : IndexWriter) (h : v.Wf) (harray : v.IsArray) (hsmall : v.HistsSmall) :
    writeVarArray m v w =
      .ok ((writeVarDims m v w).emitItems m.host v.type (v.arrayItems m)) := by
  have hrest : ∀ w : IndexWriter, ((w.item .bitmap (m.host.u32 v.bitmap)).emit 1
      [CharacteristicId.stat.flag]).emit 0 (render false (v.statSets.flatMap
        fun stats => stats.flatMap (StatData.fields m.host))) =
      w.emitItems m.host v.type [.bitmap v.bitmap, .stat v.statSets] := by
    intro w
    simp [IndexWriter.item, IndexWriter.emitItems, Item.fields, Item.dataFields, Item.id,
      Field.render]
  have hstats := h.stats harray.1 harray.2
  unfold writeVarArray
  simp only [writeTransform_written m v.type _ h, bind, Except.bind]
  rw [writeVarStatSets_eq m.host _ hstats hsmall,
    writeStatSets_eq m.host _ hstats fun stats hmem s hs => (hsmall stats hmem s hs).writable]
  refine congrArg Except.ok ((hrest _).trans ?_)
  rw [Var.arrayItems, IndexWriter.emitItems_append]

theorem histsSmall_of_writeVarArray {m : Machine} (h : v.Wf) (harray : v.IsArray)
    (hw : writeVarArray m v w = .ok w') : v.HistsSmall := by
  unfold writeVarArray at hw
  obtain ⟨w₁, -, hsets⟩ := exists_of_bind_eq_ok hw
  exact small_of_writeVarStatSets (h.stats harray.1 harray.2) hsets

theorem writeVarDims_buf (v : Var) (type : Datatype) (w : IndexWriter) :
    (writeVarDims m v w).buf = (w.emitItems m.host type [.dimensions (v.dims m)]).buf ∧
      (writeVarDims m v w).setCount = w.setCount + 1 := by
  constructor
  · simp [writeVarDims, writeVarCharacteristicsDimsV1_eq, IndexWriter.emitItems, IndexWriter.emit,
      Item.fields, Item.dataFields, Item.id, Field.render]
  · rfl

theorem writeVarDims_eq (v : Var) (type : Datatype) (w : IndexWriter)
    (h : imageSize ((v.dims m).fields m.host) < 2 ^ 16) :
    writeVarDims m v w = w.emitItems m.host type [.dimensions (v.dims m)] := by
  have h64 : (UInt16.ofNat (imageSize ((v.dims m).fields m.host))).toUInt64 =
      UInt64.ofNat (imageSize ((v.dims m).fields m.host)) := by
    apply UInt64.toNat_inj.mp
    rw [UInt16.toNat_toUInt64, UInt16.toNat_ofNat_of_lt' h, toNat_ofNat_of_lt']
    exact Nat.lt_trans h (by decide)
  have h32 : (UInt16.ofNat (imageSize ((v.dims m).fields m.host))).toUInt32 =
      UInt32.ofNat (imageSize ((v.dims m).fields m.host)) := by
    apply UInt32.toNat_inj.mp
    rw [UInt16.toNat_toUInt32, UInt16.toNat_ofNat_of_lt' h, UInt32.toNat_ofNat_of_lt']
    exact Nat.lt_trans h (by decide)
  simp only [writeVarDims, writeVarCharacteristicsDimsV1_eq, h64, h32]
  simp [IndexWriter.emitItems, IndexWriter.emit, Item.fields, Item.dataFields, Item.id,
    Field.render, length_render, UInt64.add_assoc, UInt32.add_assoc, ofNat_add,
    UInt32.ofNat_add, UInt64.add_comm (UInt64.ofNat _) 1, UInt32.add_comm (UInt32.ofNat _) 1]

theorem endSet_buf {buf : Buffer} {body : List UInt8} (h : w.buf = (buf.skip (1 + 4)).write body) :
    (w.endSet host buf.offset).buf =
      buf.write ([w.setCount] ++ host.u32 w.setLength ++ body) := by
  have hpatch := Buffer.patch_patch ((buf.skip (1 + 4)).write body) buf.offset [w.setCount]
    (host.u32 w.setLength)
  rw [length_singleton] at hpatch
  show (w.buf.patch buf.offset [w.setCount]).patch (buf.offset + 1) (host.u32 w.setLength) = _
  rw [h, hpatch]
  exact buf.skip_write_patch _ _ (by simp)

def charsImage (m : Machine) (v : Var) (setLength : UInt32) : List UInt8 :=
  [UInt8.ofNat (v.items m).length] ++ m.host.u32 setLength ++ render false (v.bodyFields m)

theorem writeVarCharacteristics_of_isArray (w : IndexWriter) (h : v.Wf) (harray : v.IsArray) :
    writeVarCharacteristics m v w = writeVarArray m v w := by
  obtain ⟨hstring, hdims⟩ := harray
  have hdefined := h.defined
  unfold writeVarCharacteristics
  cases hv : v.type with
  | string => exact absurd hv hstring
  | unknown | other c =>
    rw [hv] at hdefined
    exact absurd hdefined id
  | _ => exact if_pos hdims

theorem writeVarCharacteristics_of_not_isArray (w : IndexWriter) (harray : ¬v.IsArray) :
    writeVarCharacteristics m v w = .ok w := by
  have hdims : v.type ≠ .string → v.dimensions = [] := fun ht =>
    Classical.byContradiction fun hne => harray ⟨ht, hne⟩
  unfold writeVarCharacteristics
  cases hv : v.type with
  | string | unknown | other c => rfl
  | _ => exact if_neg (not_not_intro (hdims (by rw [hv]; exact Datatype.noConfusion)))

theorem writeVarCharacteristicsV1_eq (buf : Buffer) (h : v.Wf) (hsmall : v.IsArray → v.HistsSmall) :
    ∃ setLength size, writeVarCharacteristicsV1 m v buf =
        .ok (buf.write (charsImage m v setLength), size) ∧
      (imageSize ((v.dims m).fields m.host) < 2 ^ 16 →
        setLength = UInt32.ofNat (imageSize (v.bodyFields m)) ∧
          size = UInt16.ofNat (5 + imageSize (v.bodyFields m))) := by
  let w₀ : IndexWriter := { buf, indexSize := 0, entrySize := 0, setLength := 0, setCount := 0 }
  by_cases harray : v.IsArray
  · have hitems : v.items m = .dimensions (v.dims m) :: v.arrayItems m := if_pos harray
    let w₁ := (writeVarDims m v w₀.beginSet).emitItems m.host v.type (v.arrayItems m)
    have hrun : writeVarCharacteristics m v w₀.beginSet = .ok w₁ :=
      (writeVarCharacteristics_of_isArray m _ h harray).trans
        (writeVarArray_eq m _ h harray (hsmall harray))
    have hbuf : w₁.buf = (buf.skip (1 + 4)).write (render false (v.bodyFields m)) := by
      show (writeVarDims m v w₀.beginSet).buf.write _ = _
      rw [(writeVarDims_buf m v v.type w₀.beginSet).1, Var.bodyFields, hitems]
      simp [IndexWriter.emitItems, IndexWriter.emit, IndexWriter.beginSet, w₀]
    have hcount : w₁.setCount = UInt8.ofNat (v.items m).length := by
      rw [hitems, length_cons, UInt8.ofNat_add, UInt8.add_comm]
      rfl
    refine ⟨w₁.setLength, w₁.indexSize.toUInt16, ?_, fun hfit => ?_⟩
    · unfold writeVarCharacteristicsV1
      simp only [bind, Except.bind, pure, Except.pure]
      rw [hrun]
      simp only
      rw [endSet_buf m.host hbuf, hcount]
      rfl
    · have hw₁ : w₁ = w₀.beginSet.emitItems m.host v.type (v.items m) := by
        show (writeVarDims m v w₀.beginSet).emitItems m.host v.type (v.arrayItems m) = _
        rw [writeVarDims_eq m v v.type _ hfit, ← IndexWriter.emitItems_append,
          singleton_append, ← hitems]
      rw [hw₁]
      constructor
      · show 0 + UInt32.ofNat (render false (v.bodyFields m)).length = _
        rw [UInt32.zero_add, length_render]
      · show (0 + (1 + 4) + UInt64.ofNat (render false (v.bodyFields m)).length).toUInt16 = _
        rw [length_render, UInt16.ofNat_add, UInt64.toUInt16_add, UInt64.toUInt16_ofNat']
        rfl
  · have hitems : v.items m = [] := if_neg harray
    have hbody : v.bodyFields m = [] := by rw [Var.bodyFields, hitems]; rfl
    refine ⟨0, 5, ?_, fun _ => ?_⟩
    · unfold writeVarCharacteristicsV1
      simp only [bind, Except.bind, pure, Except.pure]
      rw [writeVarCharacteristics_of_not_isArray m _ harray]
      simp only
      rw [endSet_buf m.host
        (show _ = (Buffer.skip _ (1 + 4)).write [] by simp [IndexWriter.beginSet]),
        charsImage, hbody, hitems]
      rfl
    · rw [hbody]
      exact ⟨rfl, rfl⟩

/-! ## Variables -/

def shortStringFields (host : Endian) (s : CString) : List Field :=
  let len := UInt16.ofNat s.val.length
  [.word (host.u16 len), .text (s.val.take len.toNat)]

theorem writeString_eq (s : CString) (buf : Buffer) :
    writeString host s buf = buf.write (render false (shortStringFields host s)) := by
  simp [writeString, shortStringFields, Field.render]

theorem imageSize_shortStringFields (s : CString) :
    imageSize (shortStringFields host s) = 2 + s.val.length % 2 ^ 16 := by
  have hle : s.val.length % 2 ^ 16 ≤ s.val.length := Nat.mod_le _ _
  simp only [shortStringFields, imageSize_cons, imageSize_nil, Field.raw, Endian.length_u16,
    length_take, UInt16.toNat_ofNat', Nat.min_eq_left hle, Nat.add_zero]

theorem shortStringFields_eq {s : CString} (h : s.val.length < 2 ^ 16) :
    shortStringFields host s = stringFields host s := by
  rw [shortStringFields, UInt16.toNat_ofNat_of_lt' h, take_length]
  rfl

def Var.identityFields (m : Machine) (v : Var) : List Field :=
  [.word (m.host.u32 v.id)] ++ shortStringFields m.host v.name ++ shortStringFields m.host v.path
    ++ [.text [v.type.code], .text (if v.isDim = .yes then chars "y" else chars "n")]
    ++ dimensionsFields m.host v.dimensions

def headerImage (m : Machine) (v : Var) (totalSize : UInt64) (setLength : UInt32) : List UInt8 :=
  m.host.u64 totalSize ++ render false (v.identityFields m) ++ charsImage m v setLength

def headerBytes (m : Machine) (v : Var) : Nat :=
  8 + imageSize (v.identityFields m) + (5 + imageSize (v.bodyFields m))

@[simp] theorem length_charsImage (v : Var) (setLength : UInt32) :
    (charsImage m v setLength).length = 5 + imageSize (v.bodyFields m) := by
  simp [charsImage, length_render]
  omega

@[simp] theorem length_headerImage (v : Var) (totalSize : UInt64) (setLength : UInt32) :
    (headerImage m v totalSize setLength).length = headerBytes m v := by
  simp [headerImage, headerBytes, length_render, Nat.add_assoc]

theorem imageSize_identityFields (v : Var) :
    imageSize (v.identityFields m) = 4 + (2 + v.name.val.length % 2 ^ 16) +
      (2 + v.path.val.length % 2 ^ 16) + 1 + 1 +
      imageSize (dimensionsFields m.host v.dimensions) := by
  have hflag : (if v.isDim = .yes then chars "y" else chars "n").length = 1 := by
    split_ifs <;> rfl
  simp only [Var.identityFields, imageSize_append, imageSize_shortStringFields, imageSize_cons,
    imageSize_nil, Field.raw, Endian.length_u32, length_singleton, hflag]

structure HeaderPartsFit (m : Machine) (v : Var) : Prop where
  dimensions : imageSize (dimensionsFields m.host v.dimensions) < 2 ^ 16
  characteristics : 5 + imageSize (v.bodyFields m) < 2 ^ 16
  dims : imageSize ((v.dims m).fields m.host) < 2 ^ 16

def File.withHeader (fd : File) (m : Machine) (v : Var) (totalSize : UInt64)
    (setLength : UInt32) : File :=
  File.markWritten
    { fd with
      buf := fd.buf.write (headerImage m v totalSize setLength)
      varsWritten := fd.varsWritten + 1 }

@[simp] theorem File.withHeader_buf (fd : File) (m : Machine) (v : Var) (totalSize : UInt64)
    (setLength : UInt32) : (fd.withHeader m v totalSize setLength).buf =
      fd.buf.write (headerImage m v totalSize setLength) := rfl

def Var.placed (v : Var) (fd : File) : Var :=
  { v with writeOffset := UInt64.ofNat fd.buf.offset + fd.baseOffset }

theorem writeVarHeaderV1_eq (fd : File) (h : v.Wf) (hsmall : v.IsArray → v.HistsSmall) :
    ∃ totalSize setLength, writeVarHeaderV1 m v fd =
        .ok (totalSize, v.placed fd, fd.withHeader m v totalSize setLength) ∧
      (HeaderPartsFit m v →
        totalSize = UInt64.ofNat (headerBytes m v) + getVarSize m v v.data ∧
          setLength = UInt32.ofNat (imageSize (v.bodyFields m))) := by
  obtain ⟨setLength, size, hchars, hfit⟩ := writeVarCharacteristicsV1_eq m
    ((fd.buf.skip 8).write (render false (v.identityFields m))) (v := v.placed fd)
    ⟨h.defined, h.known, h.transformed, h.metadata, h.bitmap, h.stats⟩ hsmall
  have hidentity : (writeDimensionsV1 m.host v.dimensions ((((writeString m.host v.path
      (writeString m.host v.name ((fd.buf.skip 8).write (m.host.u32 v.id)))).write
        [v.type.code])).write (if v.isDim = .yes then chars "y" else chars "n"))) =
      ((fd.buf.skip 8).write (render false (v.identityFields m)),
        UInt16.ofNat (imageSize (dimensionsFields m.host v.dimensions))) := by
    simp [writeDimensionsV1_eq, writeString_eq, Var.identityFields, Field.render]
  let totalSize : UInt64 := 8 + 4 + 2 + (UInt16.ofNat (strlen v.name.val)).toUInt64 + 2
    + (UInt16.ofNat (strlen v.path.val)).toUInt64 + 1 + 1
    + (UInt16.ofNat (imageSize (dimensionsFields m.host v.dimensions))).toUInt64
    + size.toUInt64 + getVarSize m v v.data
  refine ⟨totalSize, setLength, ?_, fun hparts => ⟨?_, (hfit hparts.dims).1⟩⟩
  · have hpatch := fd.buf.skip_write_patch (m.host.u64 totalSize)
      (render false (v.identityFields m) ++ charsImage m v setLength) (show _ = 8 by simp)
    have hbuf : (((fd.buf.skip 8).write (render false (v.identityFields m))).write
        (charsImage m v setLength)).patch fd.buf.offset (m.host.u64 totalSize) =
        fd.buf.write (headerImage m v totalSize setLength) := by
      rw [Buffer.write_write, hpatch, headerImage, append_assoc]
    unfold writeVarHeaderV1
    simp only [bind, Except.bind, pure, Except.pure]
    rw [hidentity]
    simp only
    rw [show writeVarCharacteristicsV1 m { v with
      writeOffset := UInt64.ofNat fd.buf.offset + fd.baseOffset } _ = _ from hchars]
    refine congrArg Except.ok (Prod.ext rfl (Prod.ext rfl ?_))
    exact congrArg (fun buf => File.markWritten
      { fd with buf := buf, varsWritten := fd.varsWritten + 1 }) hbuf
  · have hsize : size = UInt16.ofNat (5 + imageSize (v.bodyFields m)) := (hfit hparts.dims).2
    have hd := hparts.dimensions
    have hc := hparts.characteristics
    have hname : (UInt16.ofNat (strlen v.name.val)).toNat = v.name.val.length % 2 ^ 16 := by
      rw [UInt16.toNat_ofNat', CString.strlen_val]
    have hpath : (UInt16.ofNat (strlen v.path.val)).toNat = v.path.val.length % 2 ^ 16 := by
      rw [UInt16.toNat_ofNat', CString.strlen_val]
    have hsum : ∀ a b c d : UInt16, (8 + 4 + 2 + a.toUInt64 + 2 + b.toUInt64 + 1 + 1 + c.toUInt64
        + d.toUInt64 : UInt64) = UInt64.ofNat (18 + a.toNat + b.toNat + c.toNat + d.toNat) := by
      intro a b c d
      simp only [ofNat_add, ofNat_uInt16ToNat]
      show _ = 18 + a.toUInt64 + _ + _ + _
      grind
    show (8 + 4 + 2 + _ + 2 + _ + 1 + 1 + _ + _ : UInt64) + _ = _
    rw [hsum, hname, hpath, hsize, UInt16.toNat_ofNat_of_lt' hd, UInt16.toNat_ofNat_of_lt' hc,
      headerBytes, imageSize_identityFields]
    congr 2
    omega

end Adios
