import Adios.Index.RoundTrip
import Adios.Pg.WriteSpec
import Mathlib.Algebra.Order.BigOperators.Group.List

/-!
# Adios — the overhead of a variable

The size that `adios_calc_var_overhead_v1` computes for a variable's header against the bytes that
`adios_write_var_header_v1` appends. Both count the same things, the first in 16 bits; it has no
size for the histogram of a complex number, has no characteristics at all for what was a string
before it was transformed, and counts each dimension in front of the transform where the writer
has their number in a `uint8_t`.
-/

namespace Adios

open List Wire UInt64

/-! ## Statistics -/

namespace StatData

def size : StatData → Nat
  | raw bytes => bytes.length
  | hist h => 24 + 12 * h.numBreaks.toNat

/-- The bytes of a statistic that `adios_get_stat_size` does not know of. -/
def uncounted (type : Datatype) : StatData → Nat
  | raw _ => 0
  | hist h => if type = .complex ∨ type = .doubleComplex then 24 + 12 * h.numBreaks.toNat else 0

theorem uncounted_le (type : Datatype) (s : StatData) : s.uncounted type ≤ s.size := by
  cases s with
  | raw bytes => exact Nat.zero_le _
  | hist h =>
    simp only [uncounted, size]
    split_ifs <;> omega

theorem imageSize_fields (host : Endian) {type : Datatype} {j : Nat} {s : StatData}
    (h : s.Fits type j) : imageSize (s.fields host) = s.size := by
  cases s with
  | raw bytes => simp [fields, Field.raw, size]
  | hist hist =>
    obtain ⟨-, hfreq, hbreaks⟩ := h
    have h32 : ∀ xs : List UInt32, imageSize (xs.map fun n => .word (host.u32 n)) =
        4 * xs.length := by
      intro xs
      induction xs with
      | nil => rfl
      | cons x xs ih =>
        rw [map_cons, imageSize_cons, ih, length_cons, Field.raw, Endian.length_u32]
        omega
    have h64 : ∀ xs : List UInt64, imageSize (xs.map fun n => .word (host.u64 n)) =
        8 * xs.length := by
      intro xs
      induction xs with
      | nil => rfl
      | cons x xs ih =>
        rw [map_cons, imageSize_cons, ih, length_cons, Field.raw, Endian.length_u64]
        omega
    simp only [fields, imageSize_append, h32, h64, hfreq, hbreaks, imageSize_cons, imageSize_nil,
      Field.raw, Endian.length_u32, Endian.length_u64, size]
    omega

theorem getStatSize_eq {type : Datatype} {j : Nat} {s : StatData} (h : s.Fits type j) :
    ∃ n, getStatSize (hist? (some s)) type (Statistic.ofBit j) = .ok n ∧
      n.toUInt16 = UInt16.ofNat (s.size - s.uncounted type) := by
  cases s with
  | raw bytes =>
    obtain ⟨-, n, hn, hlen⟩ := h
    refine ⟨n, hn, ?_⟩
    show _ = UInt16.ofNat (bytes.length - 0)
    rw [Nat.sub_zero, hlen]
    simp
  | hist hist =>
    obtain ⟨rfl, -, -⟩ := h
    by_cases hc : type = .complex ∨ type = .doubleComplex
    · refine ⟨0, ?_, ?_⟩
      · rcases hc with rfl | rfl <;> rfl
      · simp [size, uncounted, if_pos hc]
    · refine ⟨4 + 8 + 8 + (hist.numBreaks + 1).toUInt64 * 4 + hist.numBreaks.toUInt64 * 8, ?_, ?_⟩
      · cases type <;> first | rfl | exact absurd (by simp) hc
      · rw [size, uncounted, if_neg hc, Nat.sub_zero]
        apply UInt16.toNat_inj.mp
        simp only [toNat_toUInt16, UInt64.toNat_add, UInt64.toNat_mul, UInt32.toNat_toUInt64, UInt32.toNat_add,
          UInt16.toNat_ofNat', UInt64.reduceToNat, UInt32.reduceToNat]
        omega

end StatData

def statBytes (stats : List StatData) : Nat := (stats.map StatData.size).sum

def uncountedBytes (type : Datatype) (stats : List StatData) : Nat :=
  (stats.map (StatData.uncounted type)).sum

@[simp] theorem statBytes_cons (s : StatData) (stats : List StatData) :
    statBytes (s :: stats) = s.size + statBytes stats := by simp [statBytes]

@[simp] theorem uncountedBytes_cons (type : Datatype) (s : StatData) (stats : List StatData) :
    uncountedBytes type (s :: stats) = s.uncounted type + uncountedBytes type stats := by
  simp [uncountedBytes]

theorem uncountedBytes_le (type : Datatype) (stats : List StatData) :
    uncountedBytes type stats ≤ statBytes stats := by
  induction stats with
  | nil => exact le_rfl
  | cons s stats ih =>
    have hs := s.uncounted_le type
    rw [statBytes_cons, uncountedBytes_cons]
    omega

variable {type : Datatype} {bits : List Nat}

theorem addStatSizes_eq {slots : List (Option StatData)} (n : Nat) (h : Forall₂ (fun j slot =>
      ∃ s : StatData, slot = some s ∧ s.Fits type j) bits (slots.take bits.length)) :
    addStatSizes type bits slots (UInt16.ofNat n) =
      .ok (UInt16.ofNat (n + (statBytes (slots.take bits.length).reduceOption -
        uncountedBytes type (slots.take bits.length).reduceOption))) := by
  induction bits generalizing slots n with
  | nil => simp [addStatSizes, statBytes]
  | cons j bits ih =>
    cases slots with
    | nil => cases h
    | cons slot slots =>
      rw [length_cons, take_succ_cons] at h ⊢
      cases h with
      | cons hslot hrest =>
        obtain ⟨s, rfl, hs⟩ := hslot
        obtain ⟨size, hsize, hword⟩ := StatData.getStatSize_eq hs
        have hle := s.uncounted_le type
        have hle' := uncountedBytes_le type (slots.take bits.length).reduceOption
        rw [addStatSizes, hsize, reduceOption_cons_of_some, statBytes_cons, uncountedBytes_cons]
        show addStatSizes type bits slots (UInt16.ofNat n + size.toUInt16) = _
        rw [hword, ← UInt16.ofNat_add, ih _ hrest]
        congr 2
        omega

theorem counted_congr (hc : type = .complex ∨ type = .doubleComplex) {xs ys : List StatData}
    (hx : Forall₂ (StatData.Fits type) bits xs)
    (hy : Forall₂ (StatData.Fits type) bits ys) :
    statBytes xs - uncountedBytes type xs = statBytes ys - uncountedBytes type ys := by
  induction hx generalizing ys with
  | nil => cases hy; rfl
  | @cons j x bits xs hfx _ ih =>
    cases hy with
    | @cons _ y _ ys hfy hys =>
      have hhead : x.size - x.uncounted type = y.size - y.uncounted type := by
        cases x with
        | raw bytes =>
          cases y with
          | raw bytes' =>
            obtain ⟨-, n, hn, hlen⟩ := hfx
            obtain ⟨-, n', hn', hlen'⟩ := hfy
            obtain rfl : n = n' := Except.ok.inj (hn.symm.trans hn')
            exact hlen.trans hlen'.symm
          | hist h => exact absurd hfy.1 hfx.1
        | hist h =>
          cases y with
          | raw bytes => exact absurd hfx.1 hfy.1
          | hist h' => simp [StatData.size, StatData.uncounted, if_pos hc]
      have hx := x.uncounted_le type
      have hy := y.uncounted_le type
      have hxs := uncountedBytes_le type xs
      have hys' := uncountedBytes_le type ys
      have htail := ih hys
      simp only [statBytes_cons, uncountedBytes_cons]
      omega

/-! ## The sum that is computed -/

namespace Var

def statsBytes (v : Var) : Nat := (v.statSets.map statBytes).sum

/-- The bytes of a variable's statistics that are not counted: the histograms of complex
numbers. -/
def uncountedHists (v : Var) : Nat :=
  (v.statSets.map (uncountedBytes (originalTypeVar v))).sum

/-- The bytes that are counted for dimensions in front of the transform and not written, since
their number is a `uint8_t`. -/
def droppedDims (v : Var) : Nat :=
  if v.transformType = .none then 0
  else 24 * (v.preTransformDimensions.length - v.preTransformDimensions.length % 256)

def transformBytes (v : Var) : Nat :=
  if v.transformType = .none then 0
  else 8 + ((transformPluginUid v.transformType).getD []).length
    + 24 * v.preTransformDimensions.length + v.transformMetadata.length

def countedChars (v : Var) : Nat :=
  if originalTypeVar v = .string ∨ v.dimensions = [] then 5
  else 15 + (v.statsBytes - v.uncountedHists) + v.transformBytes + 24 * v.dimensions.length

def dimensionsBytes (v : Var) : Nat :=
  (v.dimensions.map fun d => 3 + (if d.dimension.isLiteral then 8 else 4)
    + (if d.globalDimension.isLiteral then 8 else 4)
    + (if d.localOffset.isLiteral then 8 else 4)).sum

/-- The bytes that `adios_calc_var_overhead_v1` counts, apart from its 16 bits. -/
def overheadSum (v : Var) : Nat :=
  21 + v.name.val.length + v.path.val.length + v.dimensionsBytes + v.countedChars

end Var

variable {v : Var}

theorem statSetCount_mul (h : v.Wf) (hstring : v.type ≠ .string) (hdims : v.dimensions ≠ []) :
    ∃ n, calcVarCharacteristicsStatOverhead v = .ok (UInt16.ofNat n) ∧
      (getStatSetCount (originalTypeVar v)).toNat * n = v.statsBytes - v.uncountedHists := by
  have hfit := h.stats hstring hdims
  have hforall := hfit.forall₂
  unfold Var.statsBytes Var.uncountedHists Var.statSets
  unfold calcVarCharacteristicsStatOverhead
  by_cases hc : originalTypeVar v = .complex ∨ originalTypeVar v = .doubleComplex
  · have hcount : getStatSetCount (originalTypeVar v) = 3 := if_pos hc
    rw [hcount] at hfit hforall ⊢
    obtain ⟨hfirst, -⟩ := hfit
    simp only [UInt8.reduceToNat, statSets, mem_cons, not_mem_nil, or_false] at hforall ⊢
    have h₂ := counted_congr hc (hforall _ (Or.inl rfl)) (hforall _ (Or.inr (Or.inl rfl)))
    have h₃ := counted_congr hc (hforall _ (Or.inl rfl)) (hforall _ (Or.inr (Or.inr rfl)))
    refine ⟨_, addStatSizes_eq 0 hfirst, ?_⟩
    have hle := uncountedBytes_le (originalTypeVar v)
    have := hle (((v.stats.getD []).headD []).take (statBits v.bitmap).length).reduceOption
    have := hle (((v.stats.getD []).tail.headD []).take (statBits v.bitmap).length).reduceOption
    have := hle (((v.stats.getD []).tail.tail.headD []).take
      (statBits v.bitmap).length).reduceOption
    simp only [map_cons, map_nil, sum_cons, sum_nil]
    omega
  · have hcount : getStatSetCount (originalTypeVar v) = 1 := if_neg hc
    rw [hcount] at hfit ⊢
    refine ⟨_, addStatSizes_eq 0 hfit.1, ?_⟩
    simp [statSets]

theorem transformOverhead_eq (h : v.Wf) :
    ∃ n, transformCalcTransformCharacteristicOverhead v = .ok n ∧
      n.toUInt16 = UInt16.ofNat v.transformBytes := by
  unfold transformCalcTransformCharacteristicOverhead Var.transformBytes
  by_cases ht : v.transformType = .none
  · exact ⟨0, by rw [if_pos ht], by rw [if_pos ht]; rfl⟩
  · obtain ⟨uid, huid, -, hnul⟩ := transformPluginUid_of_known h.known
    have hmeta : v.transformMetadataLen = UInt16.ofNat v.transformMetadata.length := by
      rw [h.metadata, UInt16.ofNat_toNat]
    rw [if_neg ht, if_neg ht, huid]
    refine ⟨_, rfl, ?_⟩
    rw [calcVarCharacteristicsDimsOverhead_eq, strlen_of_forall hnul, hmeta, Option.getD_some]
    simp only [UInt64.toUInt16_add, UInt64.toUInt16_ofNat', UInt16.toUInt16_toUInt64,
      UInt16.ofNat_add, UInt64.toUInt16_ofNat]
    grind

theorem calcVarCharacteristicsOverhead_eq (h : v.Wf) :
    calcVarCharacteristicsOverhead v = .ok (UInt16.ofNat v.countedChars) := by
  unfold calcVarCharacteristicsOverhead Var.countedChars
  split_ifs with hnone
  · rfl
  · obtain ⟨hstring, hdims⟩ := not_or.mp hnone
    have htype : v.type ≠ .string := by
      intro htype
      by_cases ht : v.transformType = .none
      · exact hstring ((if_neg (not_not_intro ht)).trans htype)
      · rw [(h.transformed ht).1] at htype
        cases htype
    obtain ⟨n, hstat, hmul⟩ := statSetCount_mul h htype hdims
    obtain ⟨t, htransform, hword⟩ := transformOverhead_eq h
    rw [hstat, htransform]
    refine congrArg Except.ok ?_
    have hcount : (getStatSetCount (originalTypeVar v)).toUInt16 =
        UInt16.ofNat (getStatSetCount (originalTypeVar v)).toNat := by simp
    rw [hword, calcVarCharacteristicsDimsOverhead_eq, hcount, ← UInt16.ofNat_mul, hmul]
    simp only [UInt16.ofNat_add]
    grind

theorem calcVarOverheadV1_eq (h : v.Wf) :
    calcVarOverheadV1 v = .ok (UInt16.ofNat v.overheadSum) := by
  have hfold : ∀ (ds : List Dimension) (n : Nat), ds.foldl (fun overhead d => overhead
      + dimensionItemOverhead d.dimension + dimensionItemOverhead d.globalDimension
      + dimensionItemOverhead d.localOffset) (UInt16.ofNat n) =
      UInt16.ofNat (n + (ds.map fun d => 3 + (if d.dimension.isLiteral then 8 else 4)
        + (if d.globalDimension.isLiteral then 8 else 4)
        + (if d.localOffset.isLiteral then 8 else 4)).sum) := by
    intro ds
    induction ds with
    | nil => simp
    | cons d ds ih =>
      intro n
      have hitem : ∀ d : DimensionItem, dimensionItemOverhead d =
          UInt16.ofNat (1 + if d.isLiteral then 8 else 4) := by
        intro d
        unfold dimensionItemOverhead
        split_ifs <;> rfl
      rw [foldl_cons, hitem, hitem, hitem, ← UInt16.ofNat_add, ← UInt16.ofNat_add,
        ← UInt16.ofNat_add, ih, map_cons, sum_cons]
      congr 1
      omega
  have hsum : (8 + 4 + 2 + UInt16.ofNat (strlen v.name.val) + 2
      + UInt16.ofNat (strlen v.path.val) + 1 + 1 + 1 + 2 : UInt16) =
      UInt16.ofNat (21 + v.name.val.length + v.path.val.length) := by
    simp only [CString.strlen_val, UInt16.ofNat_add]
    grind
  unfold calcVarOverheadV1
  simp only [hsum, hfold, calcVarCharacteristicsOverhead_eq h]
  refine congrArg Except.ok ?_
  rw [← UInt16.ofNat_add]
  rfl

/-! ## The bytes that are written -/

theorem imageSize_dimensionsFields (host : Endian) (v : Var) :
    imageSize (dimensionsFields host v.dimensions) = 3 + v.dimensionsBytes := by
  have hsum : ∀ ds : List Dimension, imageSize (ds.flatMap (Dimension.fields host)) =
      (ds.map fun d => 3 + (if d.dimension.isLiteral then 8 else 4)
        + (if d.globalDimension.isLiteral then 8 else 4)
        + (if d.localOffset.isLiteral then 8 else 4)).sum := by
    intro ds
    induction ds with
    | nil => rfl
    | cons d ds ih =>
      rw [flatMap_cons, imageSize_append, ih, map_cons, sum_cons, Dimension.fields,
        imageSize_append, imageSize_append, imageSize_itemFields, imageSize_itemFields,
        imageSize_itemFields]
      omega
  rw [dimensionsFields, imageSize_cons, imageSize_cons, hsum]
  simp only [Field.raw, length_singleton, Endian.length_u16, Var.dimensionsBytes]
  omega

theorem imageSize_statFields (host : Endian) {stats : List StatData}
    (h : Forall₂ (StatData.Fits type) bits stats) :
    imageSize (stats.flatMap (StatData.fields host)) = statBytes stats := by
  induction h with
  | nil => rfl
  | cons hs _ ih =>
    rw [flatMap_cons, imageSize_append, ih, StatData.imageSize_fields host hs, statBytes_cons]

theorem imageSize_bodyFields (m : Machine) (h : v.Wf) (harray : v.IsArray) :
    imageSize (v.bodyFields m) + v.droppedDims =
      10 + v.statsBytes + v.transformBytes + 24 * v.dimensions.length := by
  have hstats : imageSize (v.statSets.flatMap fun stats => stats.flatMap (StatData.fields m.host)) =
      v.statsBytes := by
    have hforall := (h.stats harray.1 harray.2).forall₂
    unfold Var.statsBytes Var.statSets
    generalize statSets _ _ _ = sets at hforall
    induction sets with
    | nil => rfl
    | cons stats sets ih =>
      rw [flatMap_cons, imageSize_append, map_cons, sum_cons,
        imageSize_statFields m.host (hforall stats (by simp)),
        ih fun s hs => hforall s (by simp [hs])]
  have hdims : imageSize ((v.dims m).fields m.host) = 3 + 24 * v.dimensions.length := by
    rw [imageSize_dimsFields]
    show 3 + 8 * (v.dimensions.flatMap (Dimension.values m)).length = _
    rw [length_flatMap_values]
    omega
  rw [Var.bodyFields, Var.items, if_pos harray, Var.arrayItems, flatMap_cons,
    flatMap_append, imageSize_append, imageSize_append]
  simp only [flatMap_cons, flatMap_nil, append_nil, imageSize_append, Item.fields, imageSize_cons,
    imageSize_nil, Item.dataFields, Field.raw, length_singleton, hdims, hstats, Endian.length_u32]
  unfold Var.droppedDims Var.transformBytes
  by_cases ht : v.transformType = .none
  · simp only [if_pos ht, flatMap_nil, imageSize_nil]
    omega
  · obtain ⟨uid, huid, -, -⟩ := transformPluginUid_of_known h.known
    have hwritten : transformPluginUid
        ((copyTransformCharacteristic m v).written m.host).transformType = some uid := by
      rw [Transform.written_transformType]
      exact huid
    have hpre : ((copyTransformCharacteristic m v).written
        m.host).preTransformDimensions.dims.length =
        3 * (v.preTransformDimensions.length % 256) := by
      have hlen := length_dereferenceDimensions m v.preTransformDimensions
      rw [countDimensions_eq, UInt8.toNat_ofNat'] at hlen
      unfold Transform.written
      cases m.host <;> exact hlen
    have hmeta : ((copyTransformCharacteristic m v).written m.host).transformMetadata.length =
        v.transformMetadata.length := by
      unfold Transform.written
      cases m.host <;> rfl
    have hle := Nat.mod_le v.preTransformDimensions.length 256
    simp only [if_neg ht, flatMap_cons, flatMap_nil, append_nil, Item.fields,
      imageSize_cons, Item.dataFields, Field.raw, length_singleton, huid, Option.getD_some,
      imageSize_transformFields m.host hwritten, hpre, hmeta]
    omega

theorem headerBytes_eq (m : Machine) (v : Var) : headerBytes m v =
    26 + v.name.val.length % 2 ^ 16 + v.path.val.length % 2 ^ 16 + v.dimensionsBytes +
      imageSize (v.bodyFields m) := by
  rw [headerBytes, imageSize_identityFields, imageSize_dimensionsFields]
  omega

theorem Var.droppedDims_le (v : Var) : v.droppedDims ≤ v.transformBytes := by
  unfold droppedDims transformBytes
  split_ifs <;> omega

theorem Var.uncountedHists_le (v : Var) : v.uncountedHists ≤ v.statsBytes := by
  unfold uncountedHists statsBytes
  generalize v.statSets = sets
  induction sets with
  | nil => exact le_rfl
  | cons stats sets ih =>
    have hle := uncountedBytes_le (originalTypeVar v) stats
    simp only [map_cons, sum_cons]
    omega

theorem headerBytes_mod_iff (m : Machine) (h : v.Wf) :
    headerBytes m v % 2 ^ 16 = v.overheadSum % 2 ^ 16 ∧ headerBytes m v < 2 ^ 16 ↔
      headerBytes m v < 2 ^ 16 ∧ (v.IsArray → originalTypeVar v ≠ .string) ∧
        (v.IsArray → v.droppedDims % 2 ^ 16 = v.uncountedHists % 2 ^ 16) := by
  have hheader := headerBytes_eq m v
  by_cases harray : v.IsArray
  · have hbody := imageSize_bodyFields m h harray
    have hdropped := v.droppedDims_le
    have huncounted := v.uncountedHists_le
    by_cases hstring : originalTypeVar v = .string
    · -- nothing is counted, and the flags alone are written
      have hcounted : v.countedChars = 5 := if_pos (Or.inl hstring)
      simp only [harray, hstring, Var.overheadSum, hcounted]
      constructor
      · rintro ⟨hmod, hlt⟩
        omega
      · rintro ⟨-, hne, -⟩
        exact absurd rfl (hne trivial)
    · have hcounted : v.countedChars = 15 + (v.statsBytes - v.uncountedHists) + v.transformBytes +
          24 * v.dimensions.length := if_neg (not_or.mpr ⟨hstring, harray.2⟩)
      simp only [harray, hstring, Var.overheadSum, hcounted, ne_eq, not_false_eq_true,
        true_implies, true_and]
      omega
  · have hbody : imageSize (v.bodyFields m) = 0 := by
      rw [Var.bodyFields, Var.items, if_neg harray]
      rfl
    have hnone : v.transformType = .none := Classical.byContradiction fun ht => harray
      ⟨by rw [(h.transformed ht).1]; decide, (h.transformed ht).2.1⟩
    have horiginal : originalTypeVar v = v.type := if_neg (not_not_intro hnone)
    have hcounted : v.countedChars = 5 := if_pos (by
      rw [horiginal]
      exact or_iff_not_imp_left.mpr fun ht => Classical.byContradiction fun hd => harray ⟨ht, hd⟩)
    simp only [harray, false_implies, and_true, Var.overheadSum, hcounted]
    omega

theorem Var.histsSmall_of_headerBytes (m : Machine) (h : v.Wf) (hlt : headerBytes m v < 2 ^ 16) :
    v.IsArray → v.HistsSmall := by
  intro harray stats hstats s hs
  have hheader := headerBytes_eq m v
  have hbody := imageSize_bodyFields m h harray
  have hdropped := v.droppedDims_le
  have hset : statBytes stats ≤ v.statsBytes :=
    le_sum_of_mem (mem_map_of_mem hstats)
  have hstat : s.size ≤ statBytes stats :=
    le_sum_of_mem (mem_map_of_mem hs)
  cases s with
  | raw bytes => trivial
  | hist hist =>
    have hsize : (StatData.hist hist).size = 24 + 12 * hist.numBreaks.toNat := rfl
    show hist.numBreaks.toNat < 2 ^ 28
    omega

theorem histsSmall_of_writeVarHeaderV1 {m : Machine} {fd : File} {r : UInt64 × Var × File}
    (h : v.Wf) (hw : writeVarHeaderV1 m v fd = .ok r) : v.IsArray → v.HistsSmall := by
  intro harray
  unfold writeVarHeaderV1 at hw
  obtain ⟨⟨buf, size⟩, hchars, -⟩ := exists_of_bind_eq_ok hw
  unfold writeVarCharacteristicsV1 at hchars
  obtain ⟨w, hset, -⟩ := exists_of_bind_eq_ok hchars
  have hwf : (v.placed fd).Wf :=
    ⟨h.defined, h.known, h.transformed, h.metadata, h.bitmap, h.stats⟩
  have hset' : writeVarArray m (v.placed fd) _ = .ok w :=
    (writeVarCharacteristics_of_isArray m _ hwf harray).symm.trans hset
  exact histsSmall_of_writeVarArray (v := v.placed fd) hwf harray hset'

/-! ## The overhead is exact -/

/-- The header of `v` takes the bytes that were computed for it, as `fd->offset == payload_offset`
asserts, and what the index records for it, when the definition has `path`, is where the payload
goes. -/
def OverheadExact (m : Machine) (v : Var) (path : CString) (fd : File) : Prop :=
  ∃ overhead totalSize placed fd', calcVarOverheadV1 v = .ok overhead ∧
    writeVarHeaderV1 m v fd = .ok (totalSize, placed, fd') ∧
    fd'.buf.offset = fd.buf.offset + overhead.toNat ∧
    varPayloadOffset placed { v with path := path } =
      .ok (UInt64.ofNat fd'.buf.offset + fd.baseOffset)

/-- The condition for it. The header fits 16 bits; it is not that of a string that was
transformed; what is not counted of histograms balances what is not written of dimensions; and
the same multiple of 2^16 is lost with the path of the definition as with the one written. -/
structure OverheadFits (m : Machine) (v : Var) (path : CString) : Prop where
  header : headerBytes m v < 2 ^ 16
  original : v.IsArray → originalTypeVar v ≠ .string
  balance : v.IsArray → v.droppedDims % 2 ^ 16 = v.uncountedHists % 2 ^ 16
  path : v.overheadSum / 2 ^ 16 % 2 ^ 48 =
    ({ v with path := path } : Var).overheadSum / 2 ^ 16 % 2 ^ 48

theorem varPayloadOffset_eq (h : v.Wf) (path : CString) (fd : File) :
    varPayloadOffset (v.placed fd) { v with path := path } =
      .ok (UInt64.ofNat fd.buf.offset + fd.baseOffset
        + UInt64.ofNat (({ v with path := path } : Var).overheadSum % 2 ^ 16)
        - UInt64.ofNat path.val.length + UInt64.ofNat v.path.val.length) := by
  have hwf : ({ v with path := path } : Var).Wf :=
    ⟨h.defined, h.known, h.transformed, h.metadata, h.bitmap, h.stats⟩
  have hword : ∀ n : Nat, (UInt16.ofNat n).toUInt64 = UInt64.ofNat (n % 2 ^ 16) := by
    intro n
    rw [← ofNat_uInt16ToNat, UInt16.toNat_ofNat']
  unfold varPayloadOffset
  rw [calcVarOverheadV1_eq hwf]
  show Except.ok (_ + (UInt16.ofNat _).toUInt64 - _ + _) = _
  rw [hword]
  simp only [CString.strlen_val]
  rfl

/-- With a header of `n` bytes the recorded offset is right if the two sums lose the same. -/
theorem varPayloadOffset_iff (h : v.Wf) (path : CString) (fd : File) {n : Nat}
    (hn : n = v.overheadSum % 2 ^ 16) :
    varPayloadOffset (v.placed fd) { v with path := path } =
        .ok (UInt64.ofNat (fd.buf.offset + n) + fd.baseOffset) ↔
      v.overheadSum / 2 ^ 16 % 2 ^ 48 =
        ({ v with path := path } : Var).overheadSum / 2 ^ 16 % 2 ^ 48 := by
  have hpath : ({ v with path := path } : Var).overheadSum + v.path.val.length =
      v.overheadSum + path.val.length := by
    show 21 + v.name.val.length + path.val.length + v.dimensionsBytes + v.countedChars + _ =
      21 + v.name.val.length + v.path.val.length + v.dimensionsBytes + v.countedChars + _
    omega
  rw [varPayloadOffset_eq h, Except.ok.injEq, ← UInt64.toNat_inj]
  simp only [UInt64.toNat_add, UInt64.toNat_sub, toNat_ofNat']
  omega

theorem OverheadExact.fits {m : Machine} {path : CString} {fd : File} (h : v.Wf)
    (hexact : OverheadExact m v path fd) : OverheadFits m v path := by
  obtain ⟨overhead, totalSize, placed, fd', hoverhead, hw, hlen, hpayload⟩ := hexact
  obtain ⟨_, _, hrun, -⟩ := writeVarHeaderV1_eq m fd h (histsSmall_of_writeVarHeaderV1 h hw)
  cases hw.symm.trans hrun
  cases (calcVarOverheadV1_eq h).symm.trans hoverhead
  rw [File.withHeader_buf, Buffer.write_offset, length_headerImage] at hlen hpayload
  rw [UInt16.toNat_ofNat'] at hlen
  have heq : headerBytes m v = v.overheadSum % 2 ^ 16 := Nat.add_left_cancel hlen
  have hlt : headerBytes m v < 2 ^ 16 := by omega
  obtain ⟨-, horiginal, hbalance⟩ := (headerBytes_mod_iff m h).mp ⟨by omega, hlt⟩
  exact ⟨hlt, horiginal, hbalance, (varPayloadOffset_iff h path fd heq).mp hpayload⟩

theorem overhead_exact_iff (m : Machine) (v : Var) (path : CString) (fd : File) (h : v.Wf) :
    OverheadExact m v path fd ↔ OverheadFits m v path := by
  refine ⟨fun hexact => hexact.fits h, ?_⟩
  rintro ⟨hheader, horiginal, hbalance, hlost⟩
  obtain ⟨hmod, -⟩ := (headerBytes_mod_iff m h).mpr ⟨hheader, horiginal, hbalance⟩
  have heq : headerBytes m v = v.overheadSum % 2 ^ 16 := by omega
  obtain ⟨totalSize, setLength, hrun, -⟩ := writeVarHeaderV1_eq m fd h
    (Var.histsSmall_of_headerBytes m h hheader)
  refine ⟨_, totalSize, v.placed fd, _, calcVarOverheadV1_eq h, hrun, ?_, ?_⟩
  · rw [File.withHeader_buf, Buffer.write_offset, length_headerImage, UInt16.toNat_ofNat', heq]
  · rw [File.withHeader_buf, Buffer.write_offset, length_headerImage]
    exact (varPayloadOffset_iff h path fd heq).mpr hlost

def File.empty : File := ⟨⟨fun _ => 0, 0⟩, 0, 0, 0, 0⟩

theorem identityVar_wf {n : Nat} : (identityVar n).Wf where
  defined := trivial
  known := nofun
  transformed _ := ⟨rfl, cons_ne_nil _ _, trivial⟩
  metadata := rfl
  bitmap := (by decide : (0 : UInt32).toNat < 2 ^ statLength)
  stats _ _ := ⟨by
    show Forall₂ _ (statBits 0) (List.take (statBits 0).length [])
    rw [show statBits 0 = [] by decide]
    exact Forall₂.nil, trivial⟩

theorem overhead_exact_identityVar :
    OverheadExact littleMachine (identityVar 3) CString.empty File.empty :=
  (overhead_exact_iff littleMachine (identityVar 3) CString.empty File.empty identityVar_wf).mpr
    ⟨by decide +kernel, by decide, by decide +kernel, by decide +kernel⟩

def longNameVar : Var where
  id := 1
  name := ⟨List.replicate 65535 97, fun c hc => by rw [eq_of_mem_replicate hc]; decide⟩
  path := CString.empty
  type := .byte
  dimensions := []
  isDim := .no
  writeOffset := 0
  data := none
  stats := none
  bitmap := 0
  transformType := .none
  preTransformType := .byte
  preTransformDimensions := []
  transformMetadataLen := 0
  transformMetadata := []

theorem longNameVar_wf : longNameVar.Wf where
  defined := trivial
  known := nofun
  transformed ht := absurd rfl ht
  metadata := rfl
  bitmap := (by decide : (0 : UInt32).toNat < 2 ^ statLength)
  stats _ hd := absurd rfl hd

theorem not_overhead_exact_longName :
    ¬OverheadExact littleMachine longNameVar CString.empty File.empty := by
  intro hexact
  have hlt := (hexact.fits longNameVar_wf).header
  have hname : longNameVar.name.val.length = 65535 := length_replicate
  rw [headerBytes_eq, hname] at hlt
  omega

end Adios
