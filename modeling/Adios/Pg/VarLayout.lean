import Adios.Pg.VarOverhead
import Adios.Pg.WriteVar

/-!
# Adios — the layout of a variable

What the size of a variable's header depends on. A write fills in statistics, metadata, a length
and an offset and leaves the layout as it is: the overhead that is computed of a definition is the
same before, during and after the write (`calcVarOverheadV1_congr`). The statistics that the write
computes make the variable one that can be put into the buffer (`wf_generateVarCharacteristicsV1`).
-/

namespace Adios

open List Wire

/-! ## Layouts -/

/-- The sizes of the histogram that is in the place for bit `j`. -/
def slotLayout (j : Nat) (slot : Option StatData) : Option (UInt32 × Nat) :=
  if j = Statistic.hist.bit then (StatData.hist? slot).map fun h => (h.numBreaks, h.breaks.length)
  else none

def Dimension.layout (d : Dimension) : Bool × Bool × Bool :=
  (d.dimension.isLiteral, d.globalDimension.isLiteral, d.localOffset.isLiteral)

structure VarLayout where
  name : CString
  type : Datatype
  dimensions : List (Bool × Bool × Bool)
  bitmap : UInt32
  stats : List (List (Option (UInt32 × Nat)))
  transformType : TransformType
  preTransformType : Datatype
  preTransformDimensions : Nat
  transformMetadataLen : UInt16
  transformMetadata : Nat

namespace VarLayout

def originalType (l : VarLayout) : Datatype :=
  if l.transformType ≠ .none then l.preTransformType else l.type

/-- A layout that the definition of a variable can have: what a transform makes of an array is an
array of bytes with one dimension, and no complex number has a histogram. -/
structure Wf (l : VarLayout) : Prop where
  defined : l.type.IsDefined
  known : l.transformType ≠ .unknown
  transformed : l.transformType ≠ .none →
    l.type = .byte ∧ l.dimensions = [(true, true, true)] ∧ l.preTransformType.IsDefined
  metadata : l.transformMetadata = l.transformMetadataLen.toNat
  bitmap : l.bitmap.toNat < 2 ^ statLength
  noComplexHist : getStatSetCount l.originalType = 3 → Statistic.hist.bit ∉ statBits l.bitmap
  hist : ∀ slots ∈ l.stats, ∀ s ∈ slots, ∀ n len, s = some (n, len) →
    len = n.toNat ∧ n.toNat + 1 < 2 ^ 32

theorem Wf.originalType_defined {l : VarLayout} (h : l.Wf) : l.originalType.IsDefined := by
  unfold originalType
  split_ifs with ht
  · exact (h.transformed ht).2.2
  · exact h.defined

end VarLayout

def Var.layout (v : Var) : VarLayout where
  name := v.name
  type := v.type
  dimensions := v.dimensions.map Dimension.layout
  bitmap := v.bitmap
  stats := if (originalTypeVar v).IsNumeric then
    (v.stats.getD []).map (List.zipWith slotLayout (statBits v.bitmap)) else []
  transformType := v.transformType
  preTransformType := v.preTransformType
  preTransformDimensions := v.preTransformDimensions.length
  transformMetadataLen := v.transformMetadataLen
  transformMetadata := v.transformMetadata.length

theorem dimensions_eq_nil_iff (v : Var) : v.dimensions = [] ↔ v.layout.dimensions = [] :=
  map_eq_nil_iff.symm

theorem isArray_iff (v : Var) :
    v.IsArray ↔ v.layout.type ≠ .string ∧ v.layout.dimensions ≠ [] :=
  and_congr Iff.rfl (not_congr (dimensions_eq_nil_iff v))

/-! ## The overhead of a layout -/

theorem getStatSize_congr {j : Nat} {a b : Option StatData} (h : slotLayout j a = slotLayout j b)
    (type : Datatype) :
    getStatSize (StatData.hist? a) type (Statistic.ofBit j) =
      getStatSize (StatData.hist? b) type (Statistic.ofBit j) := by
  by_cases hj : j = Statistic.hist.bit
  · subst hj
    unfold slotLayout at h
    rw [if_pos rfl, if_pos rfl] at h
    cases ha : StatData.hist? a <;> cases hb : StatData.hist? b <;> rw [ha, hb] at h <;>
      simp only [Option.map_some, Option.map_none, Option.some.injEq, Prod.mk.injEq,
        reduceCtorEq] at h
    cases type <;> simp [getStatSize, Statistic.ofBit, Statistic.bit, h.1]
  · -- nothing but the size of a histogram depends on what is there
    have hhist : Statistic.ofBit j ≠ some .hist := by
      rcases j with _ | _ | _ | _ | _ | _ | _ | j <;> first | exact absurd rfl hj | nofun
    cases hs : Statistic.ofBit j with
    | none => cases type <;> rfl
    | some s => cases s <;> first | exact absurd hs hhist | (cases type <;> rfl)

theorem addStatSizes_congr (type : Datatype) {bits : List Nat} {xs ys : List (Option StatData)}
    (h : List.zipWith slotLayout bits xs = List.zipWith slotLayout bits ys) (n : UInt16) :
    addStatSizes type bits xs n = addStatSizes type bits ys n := by
  induction bits generalizing xs ys n with
  | nil => rfl
  | cons j bits ih =>
    cases xs with
    | nil =>
      cases ys with
      | nil => rfl
      | cons y ys => cases h
    | cons x xs =>
      cases ys with
      | nil => cases h
      | cons y ys =>
        obtain ⟨hxy, hrest⟩ := List.cons.inj h
        rw [addStatSizes, addStatSizes, getStatSize_congr hxy]
        exact bind_congr fun size => ih hrest _

variable {v : Var} {lib : Writer}

theorem calcVarOverheadV1_congr {w : Var} (hwf : v.layout.Wf) (h : v.layout = w.layout)
    (hpath : v.path = w.path) : calcVarOverheadV1 v = calcVarOverheadV1 w := by
  have hname : v.name = w.name := congrArg VarLayout.name h
  have hdims : v.dimensions.map Dimension.layout = w.dimensions.map Dimension.layout :=
    congrArg VarLayout.dimensions h
  have horiginal : originalTypeVar v = originalTypeVar w := congrArg VarLayout.originalType h
  have hbitmap : v.bitmap = w.bitmap := congrArg VarLayout.bitmap h
  have htype : v.transformType = w.transformType := congrArg VarLayout.transformType h
  have hpre : v.preTransformDimensions.length = w.preTransformDimensions.length :=
    congrArg VarLayout.preTransformDimensions h
  have hmeta : v.transformMetadataLen = w.transformMetadataLen :=
    congrArg VarLayout.transformMetadataLen h
  have hlen : v.dimensions.length = w.dimensions.length := by
    simpa using congrArg List.length hdims
  have hnil : v.dimensions = [] ↔ w.dimensions = [] := by
    rw [dimensions_eq_nil_iff, dimensions_eq_nil_iff, h]
  -- the dimensions, each with its three sizes
  have hfold : ∀ (u : Var) (n : UInt16), u.dimensions.foldl (fun overhead d => overhead
      + dimensionItemOverhead d.dimension + dimensionItemOverhead d.globalDimension
      + dimensionItemOverhead d.localOffset) n =
      (u.dimensions.map Dimension.layout).foldl (fun overhead l => overhead
        + (1 + if l.1 then 8 else 4) + (1 + if l.2.1 then 8 else 4)
        + (1 + if l.2.2 then 8 else 4)) n := by
    intro u n
    rw [foldl_map]
    rfl
  have htransform : transformCalcTransformCharacteristicOverhead v =
      transformCalcTransformCharacteristicOverhead w := by
    simp only [transformCalcTransformCharacteristicOverhead, htype, hmeta,
      calcVarCharacteristicsDimsOverhead_eq, hpre]
  have hchars : calcVarCharacteristicsOverhead v = calcVarCharacteristicsOverhead w := by
    by_cases hnone : originalTypeVar v = .string ∨ v.dimensions = []
    · unfold calcVarCharacteristicsOverhead
      rw [if_pos hnone, if_pos (by rwa [horiginal, hnil] at hnone)]
    · obtain ⟨hstring, hne⟩ := not_or.mp hnone
      have hnumeric : (originalTypeVar v).IsNumeric := ⟨hwf.originalType_defined, hstring⟩
      have hstats : (v.stats.getD []).map (List.zipWith slotLayout (statBits v.bitmap)) =
          (w.stats.getD []).map (List.zipWith slotLayout (statBits v.bitmap)) := by
        have hs := congrArg VarLayout.stats h
        unfold Var.layout at hs
        rwa [if_pos hnumeric, if_pos (horiginal ▸ hnumeric), ← hbitmap] at hs
      have hhead : List.zipWith slotLayout (statBits v.bitmap) ((v.stats.getD []).headD []) =
          List.zipWith slotLayout (statBits v.bitmap) ((w.stats.getD []).headD []) := by
        cases hv : v.stats.getD [] <;> cases hw : w.stats.getD [] <;> simp_all
      unfold calcVarCharacteristicsOverhead calcVarCharacteristicsStatOverhead
      rw [if_neg hnone, if_neg (by rwa [horiginal, hnil] at hnone), addStatSizes_congr _ hhead,
        htransform, calcVarCharacteristicsDimsOverhead_eq, calcVarCharacteristicsDimsOverhead_eq,
        horiginal, hbitmap, hlen]
  simp only [calcVarOverheadV1, hfold, hname, hpath, hdims, hchars]

def overheadOf (v : Var) : Nat := (calcVarOverheadV1 v).toOption.elim 0 UInt16.toNat

theorem overheadOf_eq {n : UInt16} (h : calcVarOverheadV1 v = .ok n) :
    overheadOf v = n.toNat := by
  rw [overheadOf, h]
  rfl

/-! ## What keeps the layout -/

@[simp] theorem layout_setPath (v : Var) (path : CString) :
    ({ v with path := path } : Var).layout = v.layout := rfl

@[simp] theorem layout_setVarData (v : Var) (data : Option (List UInt8)) :
    ({ v with data := data } : Var).layout = v.layout := rfl

@[simp] theorem isLiteral_current (vars : List Var) (d : DimensionItem) :
    (d.current vars).isLiteral = d.isLiteral := by
  obtain ⟨rank, var, attr, timeIndex⟩ := d
  cases var <;> cases attr <;> rfl

@[simp] theorem layout_current (vars : List Var) (v : Var) :
    (v.current vars).layout = v.layout := by
  have hdims : (v.dimensions.map (Dimension.current vars)).map Dimension.layout =
      v.dimensions.map Dimension.layout := by
    rw [map_map]
    refine map_congr_left fun d _ => ?_
    simp [Dimension.layout, Dimension.current]
  unfold Var.current Var.layout originalTypeVar
  simp only [hdims, length_map]

theorem layout_setData {v' : Var} {var : Option (List UInt8)} (h : setData v var = .ok v') :
    ∃ data, v' = { v with data := data } := by
  unfold setData at h
  split_ifs at h with hdims
  · cases h
    exact ⟨_, rfl⟩
  · cases ht : v.type <;> rw [ht] at h <;> simp only at h <;> first
      | (obtain ⟨data, -, h⟩ := exists_of_bind_eq_ok h; cases h; exact ⟨_, rfl⟩)
      | (cases h; exact ⟨_, rfl⟩)

@[simp] theorem layout_withMetadata (v : Var) (metadata : List UInt8) :
    (v.withMetadata metadata).layout = v.layout := by
  have hlen : (metadata.take v.transformMetadata.length ++
      v.transformMetadata.drop metadata.length).length = v.transformMetadata.length := by
    rw [length_append, length_take, length_drop]
    omega
  unfold Var.withMetadata Var.layout originalTypeVar
  simp only [hlen]

/-! ## Statistics -/

theorem generateStats_spec {c : Nat} {bits : List Nat} {slots slots' : List (Option StatData)}
    (h : generateStats lib v c bits slots = .ok slots')
    (hcomplex : getStatSetCount (originalTypeVar v) = 3 → Statistic.hist.bit ∉ bits) (hhist : ∀ s ∈
      List.zipWith slotLayout bits slots, ∀ n len, s = some (n, len) → len = n.toNat ∧ n.toNat + 1 <
      2 ^ 32) :
    List.zipWith slotLayout bits slots' = List.zipWith slotLayout bits slots ∧
      Forall₂ (fun j slot => ∃ s : StatData, slot = some s ∧
        s.Fits (originalTypeVar v) j) bits (slots'.take bits.length) := by
  induction bits generalizing slots slots' with
  | nil => exact ⟨rfl, by simp⟩
  | cons j bits ih =>
    cases slots with
    | nil => cases h
    | cons slot slots =>
      rw [generateStats] at h
      obtain ⟨slot', hslot, h⟩ := exists_of_bind_eq_ok h
      obtain ⟨rest, hrest, h⟩ := exists_of_bind_eq_ok h
      cases h
      rw [zipWith_cons_cons] at hhist
      obtain ⟨hlayout, hfits⟩ := ih hrest (fun hc hmem => hcomplex hc (by simp [hmem]))
        fun s hs => hhist s (by simp [hs])
      rw [zipWith_cons_cons, zipWith_cons_cons, hlayout, length_cons, take_succ_cons, forall₂_cons]
      unfold generateStat at hslot
      split_ifs at hslot with hj hc
      · exact absurd (by simp [hj]) (hcomplex hc)
      · -- the histogram stays, with as many frequencies as it has bins
        obtain _ | _ | hist := slot <;> try cases hslot
        subst hj
        obtain ⟨hlen, hlt⟩ := hhist (some (hist.numBreaks, hist.breaks.length))
          (mem_cons.mpr (Or.inl rfl)) _ _ rfl
        exact ⟨rfl, ⟨_, rfl, rfl, by simp; omega, hlen⟩, hfits⟩
      · obtain ⟨size, hsize, hslot⟩ := exists_of_bind_eq_ok hslot
        cases hslot
        refine ⟨by simp [slotLayout, hj], ⟨_, rfl, hj, size, hsize, by simp⟩, hfits⟩

theorem generateStatSets_spec {c count : Nat} {sets sets' : List (List (Option StatData))}
    (h : generateStatSets lib v c count sets = .ok sets')
    (hcomplex : getStatSetCount (originalTypeVar v) = 3 → Statistic.hist.bit ∉ statBits v.bitmap)
      (hhist : ∀ slots ∈ sets, ∀ s ∈ List.zipWith slotLayout (statBits v.bitmap) slots, ∀ n len, s =
      some (n, len) → len = n.toNat ∧ n.toNat + 1 < 2 ^ 32) :
    sets'.map (List.zipWith slotLayout (statBits v.bitmap)) =
        sets.map (List.zipWith slotLayout (statBits v.bitmap)) ∧
      StatsFit (originalTypeVar v) (statBits v.bitmap) count sets' := by
  induction count generalizing c sets sets' with
  | zero =>
    cases h
    exact ⟨rfl, trivial⟩
  | succ count ih =>
    cases sets with
    | nil => cases h
    | cons slots sets =>
      rw [generateStatSets] at h
      obtain ⟨slots', hslots, h⟩ := exists_of_bind_eq_ok h
      obtain ⟨rest, hrest, h⟩ := exists_of_bind_eq_ok h
      cases h
      obtain ⟨hlayout, hfits⟩ := generateStats_spec hslots hcomplex (hhist slots (by simp))
      obtain ⟨hlayouts, hfit⟩ := ih hrest fun slots hmem => hhist slots (by simp [hmem])
      exact ⟨by rw [map_cons, map_cons, hlayout, hlayouts], hfits, hfit⟩

theorem statsFit_nil (orig : Datatype) (count : Nat) (sets : List (List (Option StatData))) :
    StatsFit orig [] count sets := by
  induction count generalizing sets with
  | zero => trivial
  | succ count ih => exact ⟨by simp, ih _⟩

theorem generateVarCharacteristicsV1_spec {v' : Var} (hwf : v.layout.Wf)
    (h : generateVarCharacteristicsV1 lib v = .ok v') :
    (∃ stats, v' = { v with stats := stats }) ∧ v'.layout = v.layout ∧
      ((v.IsArray → originalTypeVar v ≠ .string) → v.type ≠ .string → v.dimensions ≠ [] →
        StatsFit (originalTypeVar v) (statBits v.bitmap)
          (getStatSetCount (originalTypeVar v)).toNat (v'.stats.getD [])) := by
  unfold generateVarCharacteristicsV1 at h
  by_cases hzero : v.bitmap = 0
  · rw [if_pos hzero] at h
    cases h
    refine ⟨⟨_, rfl⟩, rfl, fun _ _ _ => ?_⟩
    rw [hzero]
    exact statsFit_nil _ _ _
  · rw [if_neg hzero] at h
    by_cases hnumeric : (originalTypeVar v).IsNumeric
    · rw [if_pos hnumeric] at h
      split_ifs at h with hbits
      cases hstats : v.stats with
      | none => rw [hstats] at h; cases h
      | some sets =>
        rw [hstats] at h
        obtain ⟨sets', hsets, h⟩ := exists_of_bind_eq_ok h
        cases h
        have hhist := hwf.hist
        unfold Var.layout at hhist
        rw [if_pos hnumeric, hstats] at hhist
        obtain ⟨hlayout, hfit⟩ := generateStatSets_spec hsets hwf.noComplexHist
          fun slots hmem => hhist _ (mem_map_of_mem hmem)
        refine ⟨⟨_, rfl⟩, ?_, fun _ _ _ => hfit⟩
        unfold Var.layout originalTypeVar
        simp only [hstats, Option.getD_some, hlayout]
    · rw [if_neg hnumeric] at h
      cases h
      refine ⟨⟨_, rfl⟩, ?_, fun hstring ht hd => ?_⟩
      · unfold Var.layout
        rw [if_neg hnumeric]
        exact congrArg (VarLayout.mk _ _ _ _ · _ _ _ _ _) (if_neg hnumeric)
      · exact absurd ⟨hwf.originalType_defined, hstring ⟨ht, hd⟩⟩ hnumeric

theorem VarLayout.Wf.var (h : v.layout.Wf) (hstats : v.type ≠ .string → v.dimensions ≠ [] → StatsFit
      (originalTypeVar v) (statBits v.bitmap) (getStatSetCount (originalTypeVar v)).toNat
      (v.stats.getD [])) :
    v.Wf where
  defined := h.defined
  known := h.known
  transformed ht := by
    obtain ⟨htype, hdims, hpre⟩ := h.transformed ht
    refine ⟨htype, fun hnil => ?_, hpre⟩
    rw [dimensions_eq_nil_iff, hdims] at hnil
    cases hnil
  metadata := h.metadata
  bitmap := h.bitmap
  stats := hstats

theorem headerBytes_congr (m : Machine) {w : Var} (hv : v.Wf) (hw : w.Wf) (h : v.layout = w.layout)
    (hpath : v.path = w.path) (hstats : v.stats = w.stats) :
    headerBytes m v = headerBytes m w := by
  have hname : v.name = w.name := congrArg VarLayout.name h
  have hdims : v.dimensions.map Dimension.layout = w.dimensions.map Dimension.layout :=
    congrArg VarLayout.dimensions h
  have hlen : v.dimensions.length = w.dimensions.length := by
    simpa using congrArg List.length hdims
  have hpre : v.preTransformDimensions.length = w.preTransformDimensions.length :=
    congrArg VarLayout.preTransformDimensions h
  have hmeta : v.transformMetadata.length = w.transformMetadata.length :=
    congrArg VarLayout.transformMetadata h
  have htype : v.transformType = w.transformType := congrArg VarLayout.transformType h
  have hdimsBytes : v.dimensionsBytes = w.dimensionsBytes := by
    have hsum : ∀ u : Var, u.dimensionsBytes = ((u.dimensions.map Dimension.layout).map fun l =>
        3 + (if l.1 then 8 else 4) + (if l.2.1 then 8 else 4) + (if l.2.2 then 8 else 4)).sum := by
      intro u
      rw [map_map]
      rfl
    rw [hsum, hsum, hdims]
  have hstatsBytes : v.statsBytes = w.statsBytes := by
    have hbitmap : v.bitmap = w.bitmap := congrArg VarLayout.bitmap h
    have horiginal : originalTypeVar v = originalTypeVar w := congrArg VarLayout.originalType h
    unfold Var.statsBytes Var.statSets
    rw [hbitmap, horiginal, hstats]
  have htransform : v.transformBytes = w.transformBytes := by
    unfold Var.transformBytes
    rw [htype, hpre, hmeta]
  have hdropped : v.droppedDims = w.droppedDims := by
    unfold Var.droppedDims
    rw [htype, hpre]
  have hbody : imageSize (v.bodyFields m) = imageSize (w.bodyFields m) := by
    by_cases harray : v.IsArray
    · have hsum := imageSize_bodyFields m hv harray
      have hsum' := imageSize_bodyFields m hw ((isArray_iff w).mpr (h ▸ (isArray_iff v).mp harray))
      omega
    · have harray' : ¬w.IsArray :=
        fun hw => harray ((isArray_iff v).mpr (h ▸ (isArray_iff w).mp hw))
      rw [Var.bodyFields, Var.items, if_neg harray, Var.bodyFields, Var.items, if_neg harray']
      rfl
  rw [headerBytes_eq, headerBytes_eq, hname, hpath, hdimsBytes, hbody]

end Adios
