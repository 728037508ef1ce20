import Adios.Numbers.Double
import Adios.Types
import Mathlib

/-!
# Transforms — how large a group may grow

`adios_transform_worst_case_transformed_group_size` of `adios_transforms_write.c`, with what the
plugins say about the growth of a variable, and when it is a bound of what the variables may grow
to.
-/

namespace Adios.GroupGrowth

open List Doubles UInt64

/-! ## The code -/

/-- The factors that `adios_transform_transformed_size_growth` sets; two of them are doubles. -/
structure Growth where
  constantFactor : UInt64
  linearFactor : ℚ
  cappedLinearFactor : ℚ
  cappedLinearCap : UInt64

def Growth.unset : Growth := ⟨0, 1, 0, 0⟩

/-- The fields of `struct adios_var_struct`, and the bytes of the data without a transform. -/
structure Var where
  type : Datatype
  preTransformType : Datatype
  dimensions : Bool
  transformType : TransformType
  dataSize : Nat

structure Totals where
  transformedGroupSize : UInt64
  totalConstantFactor : UInt64
  maxLinearFactor : ℚ
  maxCappedLinearFactor : ℚ
  maxCappedLinearCap : UInt64

def Totals.add (sizeGrowth : Var → Growth → Growth) (t : Totals) (v : Var) : Totals :=
  if v.dimensions = false then
    -- "`Even if it's a string, we don't know the content yet, so use an empty string`"
    { t with
      transformedGroupSize := t.transformedGroupSize - getTypeSize v.type (some [])
      totalConstantFactor := t.totalConstantFactor + getTypeSize v.type (some []) }
  else if v.transformType = .none then t
  else
    let g := sizeGrowth v .unset
    { t with
      totalConstantFactor := t.totalConstantFactor + g.constantFactor
      maxLinearFactor := max t.maxLinearFactor g.linearFactor
      maxCappedLinearFactor := max t.maxCappedLinearFactor g.cappedLinearFactor
      maxCappedLinearCap := max t.maxCappedLinearCap g.cappedLinearCap }

def totals (sizeGrowth : Var → Growth → Growth) (groupSize : UInt64) (vars : List Var) : Totals :=
  vars.foldl (Totals.add sizeGrowth) ⟨groupSize, 0, 1, 0, 0⟩

/-- A double as an `uint64_t`; `junk` is what one gets that is too large. -/
def toUInt64 (junk : UInt64) (q : ℚ) : UInt64 :=
  if q < 18446744073709551616 then UInt64.ofNat ⌊q⌋.toNat else junk

/-- An `uint64_t` as a double. -/
def ofUInt64 (n : UInt64) : ℚ := toDouble n.toNat

/-- `max_transformed_group_size` -/
def Totals.maxTransformedGroupSize (junk : UInt64) (t : Totals) : UInt64 :=
  toUInt64 junk (toDouble (toDouble (ofUInt64 t.totalConstantFactor +
    ⌈toDouble (t.maxLinearFactor * ofUInt64 t.transformedGroupSize)⌉) +
    ⌈toDouble (t.maxCappedLinearFactor *
      ofUInt64 (min t.transformedGroupSize t.maxCappedLinearCap))⌉))

/-- `adios_transform_worst_case_transformed_group_size` -/
def worstCaseTransformedGroupSize (sizeGrowth : Var → Growth → Growth) (junk : UInt64)
    (groupSize : UInt64) (vars : List Var) : UInt64 :=
  max groupSize ((totals sizeGrowth groupSize vars).maxTransformedGroupSize junk)

/-! ## The plugins -/

structure AlacritySizes where
  globalRid : Nat
  partitionLength : Nat
  alDatatype : Nat
  binId : Nat
  binOffset : Nat
  alIndexForm : Nat
  rid : Nat

/-- `alac_transform_conf_t`, as `parse_configuration` makes it; the index form is
`ALInvertedIndex` or `ALCompressedInvertedIndex`. -/
structure AlacrityConf where
  significantBits : Nat
  compressed : Bool
  hasOriginalData : Bool
  hasLowOrderBytes : Bool

def AlacrityConf.unset : AlacrityConf := ⟨16, false, true, true⟩

/-- `add_bin_layout_size_growth` -/
def addBinLayoutSizeGrowth (z : AlacritySizes) (datatypeSize : Nat) (g : Growth) : Growth :=
  { g with
    constantFactor := g.constantFactor + UInt64.ofNat (z.binId + z.binOffset)
    cappedLinearFactor := toDouble
      (g.cappedLinearFactor + toDouble ((2 * z.binOffset : Nat) / (datatypeSize : ℚ))) }

/-- `add_index_size_growth` -/
def addIndexSizeGrowth (z : AlacritySizes) (conf : AlacrityConf) (datatypeSize : Nat) (g : Growth) :
    Growth :=
  let g := { g with
    constantFactor := g.constantFactor + UInt64.ofNat z.alIndexForm
    linearFactor := toDouble (g.linearFactor + toDouble (z.rid / (datatypeSize : ℚ))) }
  if conf.compressed then
    { g with
      constantFactor := g.constantFactor + 16
      cappedLinearFactor := toDouble (g.cappedLinearFactor + toDouble (24 / (datatypeSize : ℚ))) }
  else g

/-- `add_data_size_growth` -/
def addDataSizeGrowth (conf : AlacrityConf) (datatypeSize : Nat) (g : Growth) : Growth :=
  let insigbytes : Int := ((datatypeSize * 8 : Nat) - (conf.significantBits : Int) + 7) / 8
  let g := if conf.hasLowOrderBytes then
      { g with
        linearFactor := toDouble (g.linearFactor + toDouble (insigbytes / (datatypeSize : ℚ))) }
    else g
  if conf.hasOriginalData then { g with linearFactor := toDouble (g.linearFactor + 1) } else g

/-- `adios_transform_alacrity_transformed_size_growth` -/
def alacritySizeGrowth (z : AlacritySizes) (conf : AlacrityConf) (v : Var) (g : Growth) : Growth :=
  let datatypeSize := (getTypeSize v.preTransformType none).toNat
  let g := { g with
    constantFactor := UInt64.ofNat
      (z.globalRid + z.partitionLength + 1 + 1 + z.alDatatype + 1)
    linearFactor := 0
    cappedLinearCap := UInt64.ofNat (2 ^ conf.significantBits * datatypeSize)
    cappedLinearFactor := 0 }
  addDataSizeGrowth conf datatypeSize
    (addIndexSizeGrowth z conf datatypeSize (addBinLayoutSizeGrowth z datatypeSize g))

/-- `adios_transform_transformed_size_growth`: `identity`, `zlib`, `bzip2`, `szip`, `isobar` and
`aplod` do nothing. -/
def transformedSizeGrowth (z : AlacritySizes) (conf : Var → AlacrityConf) (v : Var) (g : Growth) :
    Growth :=
  match v.transformType with
  | .alacrity => alacritySizeGrowth z (conf v) v g
  | .unknown | .none | .identity | .zlib | .bzip2 | .szip | .isobar | .aplod => g

/-! ## The statement -/

def scalarSize (vars : List Var) : Nat :=
  ((vars.filter fun v => !v.dimensions).map fun v => (getTypeSize v.type (some [])).toNat).sum

def transformed (vars : List Var) : List Var :=
  vars.filter fun v => v.dimensions && v.transformType != .none

/-- A group, with the growth of its variables, and a size for it that is large enough for them
without transforms. -/
structure GroupInput where
  vars : List Var
  groupSize : UInt64
  junk : UInt64
  sizeGrowth : Var → Growth → Growth
  /-- A scalar that is no string has the size of its type. -/
  scalar : ∀ v ∈ vars, v.dimensions = false → (getTypeSize v.type (some [])).toNat ≤ v.dataSize
  fits : (vars.map Var.dataSize).sum ≤ groupSize.toNat

namespace GroupInput

variable (i : GroupInput)

def growth (v : Var) : Growth := i.sizeGrowth v .unset

def cappedGrowth (v : Var) : ℚ :=
  (i.growth v).cappedLinearFactor * min v.dataSize (i.growth v).cappedLinearCap.toNat

def grownSize (v : Var) : ℚ :=
  (i.growth v).constantFactor.toNat + (i.growth v).linearFactor * v.dataSize + i.cappedGrowth v

def required : ℚ :=
  i.groupSize.toNat - ((transformed i.vars).map fun v => (v.dataSize : ℚ)).sum +
    ((transformed i.vars).map i.grownSize).sum

structure Bounded : Prop where
  subtracted : ∀ n, (totals i.sizeGrowth i.groupSize (i.vars.take n)).transformedGroupSize.toNat +
    scalarSize (i.vars.take n) = i.groupSize.toNat
  bound : i.required ≤
    (worstCaseTransformedGroupSize i.sizeGrowth i.junk i.groupSize i.vars).toNat

def arraySize : Nat := i.groupSize.toNat - scalarSize i.vars

def constantSize : Nat := ((transformed i.vars).map fun v => (i.growth v).constantFactor.toNat).sum

def maxLinear : ℚ := ((transformed i.vars).map fun v => (i.growth v).linearFactor).foldl max 1

def maxCapped : ℚ :=
  ((transformed i.vars).map fun v => (i.growth v).cappedLinearFactor).foldl max 0

def maxCap : Nat :=
  ((transformed i.vars).map fun v => (i.growth v).cappedLinearCap.toNat).foldl max 0

structure Exact : Prop where
  linear : IsDouble (i.maxLinear * i.arraySize)
  capped : IsDouble (i.maxCapped * min i.arraySize i.maxCap)
  small : (scalarSize i.vars + i.constantSize : Nat) + ⌈i.maxLinear * i.arraySize⌉ +
    ⌈i.maxCapped * min i.arraySize i.maxCap⌉ < (9007199254740992 : ℚ)

/-- What the variables may grow by is not more than the largest linear factor adds to all arrays,
and the largest capped factor to as many bytes of them as the largest cap. -/
def Covered : Prop :=
  ((transformed i.vars).map fun v =>
      ((i.growth v).linearFactor - 1) * v.dataSize + i.cappedGrowth v).sum ≤
    ⌈i.maxLinear * i.arraySize⌉ - i.arraySize + ⌈i.maxCapped * min i.arraySize i.maxCap⌉

/-- The group does not grow; or no number is rounded, and the growth of the variables is covered. -/
def Clear : Prop := i.required ≤ i.groupSize.toNat ∨ i.Exact ∧ i.Covered

end GroupInput

/-! ## The loop -/

section Loop

variable {sizeGrowth : Var → Growth → Growth} {t : Totals} {v : Var} {vars : List Var}

theorem scalarSize_scalar (h : v.dimensions = false) :
    scalarSize (v :: vars) = (getTypeSize v.type (some [])).toNat + scalarSize vars := by
  rw [scalarSize, filter_cons_of_pos (by rw [h]; rfl), map_cons, sum_cons]
  rfl

theorem scalarSize_array (h : ¬v.dimensions = false) :
    scalarSize (v :: vars) = scalarSize vars := by
  rw [scalarSize, filter_cons_of_neg (by rw [Bool.eq_true_of_not_eq_false h]; decide)]
  rfl

theorem transformed_scalar (h : v.dimensions = false) :
    transformed (v :: vars) = transformed vars :=
  filter_cons_of_neg (by rw [h, Bool.false_and]; decide)

theorem transformed_none (h : v.transformType = .none) :
    transformed (v :: vars) = transformed vars :=
  filter_cons_of_neg (by rw [h]; cases v.dimensions <;> decide)

theorem transformed_cons (h : ¬v.dimensions = false) (hne : ¬v.transformType = .none) :
    transformed (v :: vars) = v :: transformed vars := by
  refine filter_cons_of_pos ?_
  rw [Bool.eq_true_of_not_eq_false h, Bool.true_and, bne_iff_ne]
  exact hne

theorem size_foldl (h : scalarSize vars ≤ t.transformedGroupSize.toNat) :
    (vars.foldl (Totals.add sizeGrowth) t).transformedGroupSize.toNat + scalarSize vars =
      t.transformedGroupSize.toNat := by
  induction vars generalizing t with
  | nil => rfl
  | cons v vars ih =>
    rw [foldl_cons]
    by_cases hv : v.dimensions = false
    · rw [scalarSize_scalar hv] at h ⊢
      have hle : getTypeSize v.type (some []) ≤ t.transformedGroupSize :=
        le_iff_toNat_le.mpr (by omega)
      have hsize : (t.add sizeGrowth v).transformedGroupSize.toNat =
          t.transformedGroupSize.toNat - (getTypeSize v.type (some [])).toNat := by
        rw [Totals.add, if_pos hv]
        exact UInt64.toNat_sub_of_le _ _ hle
      have hrest := ih (t := t.add sizeGrowth v) (by omega)
      omega
    · have hsize : (t.add sizeGrowth v).transformedGroupSize = t.transformedGroupSize := by
        rw [Totals.add, if_neg hv]
        split <;> rfl
      rw [scalarSize_array hv] at h ⊢
      rw [ih (by rwa [hsize]), hsize]

theorem add_ofNat (a b : UInt64) (n : Nat) :
    a + b + UInt64.ofNat n = a + UInt64.ofNat (b.toNat + n) := by
  rw [ofNat_add b.toNat n, UInt64.ofNat_toNat, UInt64.add_assoc]

theorem toNat_max (a b : UInt64) : (max a b).toNat = max a.toNat b.toNat := by
  show (if a ≤ b then b else a).toNat = _
  split
  · rename_i h
    exact (Nat.max_eq_right (le_iff_toNat_le.mp h)).symm
  · rename_i h
    have hle : b.toNat ≤ a.toNat := Nat.le_of_not_le fun hc => h (le_iff_toNat_le.mpr hc)
    exact (Nat.max_eq_left hle).symm

theorem toNat_min (a b : UInt64) : (min a b).toNat = min a.toNat b.toNat := by
  show (if a ≤ b then a else b).toNat = _
  split
  · rename_i h
    exact (Nat.min_eq_left (le_iff_toNat_le.mp h)).symm
  · rename_i h
    have hle : b.toNat ≤ a.toNat := Nat.le_of_not_le fun hc => h (le_iff_toNat_le.mpr hc)
    exact (Nat.min_eq_right hle).symm

theorem constant_foldl :
    (vars.foldl (Totals.add sizeGrowth) t).totalConstantFactor = t.totalConstantFactor +
      UInt64.ofNat (scalarSize vars +
        ((transformed vars).map fun v => (sizeGrowth v .unset).constantFactor.toNat).sum) := by
  induction vars generalizing t with
  | nil => exact (UInt64.add_zero _).symm
  | cons v vars ih =>
    rw [foldl_cons, ih]
    by_cases hv : v.dimensions = false
    · have hconst : (t.add sizeGrowth v).totalConstantFactor =
          t.totalConstantFactor + getTypeSize v.type (some []) := by
        rw [Totals.add, if_pos hv]
      rw [hconst, scalarSize_scalar hv, transformed_scalar hv, Nat.add_assoc, add_ofNat]
    · by_cases hn : v.transformType = .none
      · have hconst : t.add sizeGrowth v = t := by
          rw [Totals.add, if_neg hv, if_pos hn]
        rw [hconst, scalarSize_array hv, transformed_none hn]
      · have hconst : (t.add sizeGrowth v).totalConstantFactor =
            t.totalConstantFactor + (sizeGrowth v .unset).constantFactor := by
          rw [Totals.add, if_neg hv, if_neg hn]
        rw [hconst, scalarSize_array hv, transformed_cons hv hn, map_cons, sum_cons,
          Nat.add_left_comm, add_ofNat]

theorem max_foldl :
    (vars.foldl (Totals.add sizeGrowth) t).maxLinearFactor =
      ((transformed vars).map fun v => (sizeGrowth v .unset).linearFactor).foldl max
        t.maxLinearFactor ∧
    (vars.foldl (Totals.add sizeGrowth) t).maxCappedLinearFactor =
      ((transformed vars).map fun v => (sizeGrowth v .unset).cappedLinearFactor).foldl max
        t.maxCappedLinearFactor ∧
    (vars.foldl (Totals.add sizeGrowth) t).maxCappedLinearCap.toNat =
      ((transformed vars).map fun v => (sizeGrowth v .unset).cappedLinearCap.toNat).foldl max
        t.maxCappedLinearCap.toNat := by
  induction vars generalizing t with
  | nil => exact ⟨rfl, rfl, rfl⟩
  | cons v vars ih =>
    rw [foldl_cons]
    by_cases hv : v.dimensions = false
    · have hadd := ih (t := t.add sizeGrowth v)
      rw [transformed_scalar hv]
      rw [Totals.add, if_pos hv] at hadd ⊢
      exact hadd
    · by_cases hn : v.transformType = .none
      · have hadd : t.add sizeGrowth v = t := by
          rw [Totals.add, if_neg hv, if_pos hn]
        rw [transformed_none hn, hadd]
        exact ih
      · have hadd := ih (t := t.add sizeGrowth v)
        rw [transformed_cons hv hn, map_cons, map_cons, map_cons, foldl_cons,
          foldl_cons, foldl_cons]
        have hcap : (max t.maxCappedLinearCap (sizeGrowth v .unset).cappedLinearCap).toNat =
            max t.maxCappedLinearCap.toNat (sizeGrowth v .unset).cappedLinearCap.toNat :=
          toNat_max _ _
        rw [Totals.add, if_neg hv, if_neg hn] at hadd ⊢
        rw [← hcap]
        exact hadd

end Loop

/-! ## The bound -/

namespace GroupInput

variable {i : GroupInput}

theorem scalarSize_take_le (n : Nat) : scalarSize (i.vars.take n) ≤ i.groupSize.toNat := by
  have hle : ∀ vars : List Var, (∀ v ∈ vars, v.dimensions = false →
      (getTypeSize v.type (some [])).toNat ≤ v.dataSize) →
      scalarSize vars ≤ (vars.map Var.dataSize).sum := by
    intro vars h
    induction vars with
    | nil => exact Nat.le_refl 0
    | cons v vars ih =>
      obtain ⟨hv, hvars⟩ := forall_mem_cons.mp h
      have hrest := ih hvars
      rw [map_cons, sum_cons]
      by_cases hd : v.dimensions = false
      · have hsize := hv hd
        rw [scalarSize_scalar hd]
        omega
      · rw [scalarSize_array hd]
        omega
  have hpart : ((i.vars.take n).map Var.dataSize).sum ≤ (i.vars.map Var.dataSize).sum := by
    conv_rhs => rw [← take_append_drop n i.vars, map_append, sum_append]
    exact Nat.le_add_right _ _
  exact (hle _ fun v hv => i.scalar v (mem_of_mem_take hv)).trans (hpart.trans i.fits)

theorem subtracted (n : Nat) :
    (totals i.sizeGrowth i.groupSize (i.vars.take n)).transformedGroupSize.toNat +
      scalarSize (i.vars.take n) = i.groupSize.toNat :=
  size_foldl (i.scalarSize_take_le n)

theorem scalarSize_le : scalarSize i.vars ≤ i.groupSize.toNat := by
  have h := i.scalarSize_take_le i.vars.length
  rwa [take_length] at h

theorem arraySize_add : i.arraySize + scalarSize i.vars = i.groupSize.toNat :=
  Nat.sub_add_cancel scalarSize_le

theorem size_totals :
    (totals i.sizeGrowth i.groupSize i.vars).transformedGroupSize.toNat = i.arraySize := by
  have h := i.subtracted i.vars.length
  have hadd := i.arraySize_add
  rw [take_length] at h
  omega

theorem one_le_foldl_max (l : List ℚ) (a : ℚ) : a ≤ l.foldl max a := by
  induction l generalizing a with
  | nil => exact le_refl a
  | cons b l ih => exact (le_max_left a b).trans (ih _)

theorem one_le_maxLinear : 1 ≤ i.maxLinear := one_le_foldl_max _ 1

theorem maxCapped_nonneg : 0 ≤ i.maxCapped := one_le_foldl_max _ 0

theorem required_eq : i.required = i.groupSize.toNat + i.constantSize +
    ((transformed i.vars).map fun v =>
      ((i.growth v).linearFactor - 1) * v.dataSize + i.cappedGrowth v).sum := by
  have hsum : ∀ vars : List Var, (vars.map i.grownSize).sum =
      (vars.map fun v => (v.dataSize : ℚ)).sum +
      ((vars.map fun v => (i.growth v).constantFactor.toNat).sum : Nat) + (vars.map fun v =>
        ((i.growth v).linearFactor - 1) * v.dataSize + i.cappedGrowth v).sum := by
    intro vars
    induction vars with
    | nil => norm_num
    | cons v vars ih =>
      simp only [map_cons, sum_cons, ih, grownSize]
      push_cast
      ring
  rw [required, hsum, constantSize]
  ring

def total (i : GroupInput) : Nat := scalarSize i.vars + i.constantSize +
  ⌈i.maxLinear * i.arraySize⌉.toNat + ⌈i.maxCapped * min i.arraySize i.maxCap⌉.toNat

theorem total_eq : (i.total : ℚ) = (scalarSize i.vars + i.constantSize : Nat) +
    ⌈i.maxLinear * i.arraySize⌉ + ⌈i.maxCapped * min i.arraySize i.maxCap⌉ := by
  have hlinear : 0 ≤ ⌈i.maxLinear * i.arraySize⌉ :=
    Int.ceil_nonneg (mul_nonneg (zero_le_one.trans one_le_maxLinear) (Nat.cast_nonneg _))
  have hcapped : 0 ≤ ⌈i.maxCapped * min i.arraySize i.maxCap⌉ :=
    Int.ceil_nonneg (mul_nonneg maxCapped_nonneg (Nat.cast_nonneg _))
  have hcast : ∀ n : ℤ, 0 ≤ n → ((n.toNat : ℕ) : ℚ) = n := fun n hn => by
    rw [← Int.cast_natCast, Int.toNat_of_nonneg hn]
  rw [total, Nat.cast_add, Nat.cast_add, hcast _ hlinear, hcast _ hcapped]

theorem ofUInt64_eq {n : UInt64} {m : Nat} (h : n.toNat = m) (hm : m < 9007199254740992) :
    ofUInt64 n = m := by
  rw [ofUInt64, h, toDouble_of_isDouble (isDouble_natCast hm)]

theorem ceil_eq_toNat {q : ℚ} (h : 0 ≤ q) : (⌈q⌉ : ℚ) = (⌈q⌉.toNat : ℕ) := by
  rw [← Int.cast_natCast, Int.toNat_of_nonneg (Int.ceil_nonneg h)]

theorem toUInt64_natCast {n : Nat} (h : n < 9007199254740992) (junk : UInt64) :
    (toUInt64 junk n).toNat = n := by
  have hlt : (n : ℚ) < 18446744073709551616 := by
    have hn : (n : ℚ) < 9007199254740992 := by exact_mod_cast h
    linarith
  rw [toUInt64, if_pos hlt, Int.floor_natCast, Int.toNat_natCast,
    toNat_ofNat_of_lt' (Nat.lt_trans h (by decide))]

theorem arraySize_le_total : i.arraySize ≤ i.total := by
  have hle : (i.arraySize : ℚ) ≤ i.maxLinear * i.arraySize :=
    le_mul_of_one_le_left (Nat.cast_nonneg _) one_le_maxLinear
  have hceil : (i.arraySize : ℚ) ≤ ⌈i.maxLinear * i.arraySize⌉.toNat := by
    rw [← ceil_eq_toNat (le_trans (Nat.cast_nonneg _) hle)]
    exact hle.trans (Int.le_ceil _)
  have hnat : i.arraySize ≤ ⌈i.maxLinear * i.arraySize⌉.toNat := by exact_mod_cast hceil
  unfold total
  omega

theorem toNat_worstCase (h : i.Exact) :
    (worstCaseTransformedGroupSize i.sizeGrowth i.junk i.groupSize i.vars).toNat =
      max i.groupSize.toNat i.total := by
  obtain ⟨hlinear, hcapped, hsmall⟩ := h
  rw [← i.total_eq] at hsmall
  have hlt : i.total < 9007199254740992 := by exact_mod_cast hsmall
  have harray := i.arraySize_le_total
  obtain ⟨hmaxLinear, hmaxCapped, hmaxCap⟩ :=
    @max_foldl i.sizeGrowth ⟨i.groupSize, 0, 1, 0, 0⟩ i.vars
  have hmaxLinear : (totals i.sizeGrowth i.groupSize i.vars).maxLinearFactor = i.maxLinear :=
    hmaxLinear
  have hmaxCapped : (totals i.sizeGrowth i.groupSize i.vars).maxCappedLinearFactor = i.maxCapped :=
    hmaxCapped
  have hmaxCap : (totals i.sizeGrowth i.groupSize i.vars).maxCappedLinearCap.toNat = i.maxCap :=
    hmaxCap
  have hsize := i.size_totals
  have hconstant : (totals i.sizeGrowth i.groupSize i.vars).totalConstantFactor.toNat =
      scalarSize i.vars + i.constantSize := by
    have hfold := @constant_foldl i.sizeGrowth ⟨i.groupSize, 0, 1, 0, 0⟩ i.vars
    rw [totals, hfold, UInt64.zero_add]
    refine toNat_ofNat_of_lt' (Nat.lt_of_le_of_lt ?_ (Nat.lt_trans hlt (by decide)))
    unfold total constantSize
    exact (Nat.le_add_right _ _).trans (Nat.le_add_right _ _)
  have hmin : (min (totals i.sizeGrowth i.groupSize i.vars).transformedGroupSize
      (totals i.sizeGrowth i.groupSize i.vars).maxCappedLinearCap).toNat =
      min i.arraySize i.maxCap := by
    rw [toNat_min, hsize, hmaxCap]
  have hlow : scalarSize i.vars + i.constantSize + ⌈i.maxLinear * i.arraySize⌉.toNat ≤ i.total :=
    Nat.le_add_right _ _
  have hlinearCeil := ceil_eq_toNat
    (mul_nonneg (zero_le_one.trans i.one_le_maxLinear) (Nat.cast_nonneg i.arraySize))
  have hcappedCeil := ceil_eq_toNat
    (mul_nonneg i.maxCapped_nonneg (Nat.cast_nonneg (min i.arraySize i.maxCap)))
  rw [worstCaseTransformedGroupSize, toNat_max, Totals.maxTransformedGroupSize, hmaxLinear,
    hmaxCapped, ofUInt64_eq hconstant (by omega), ofUInt64_eq hsize (by omega),
    ofUInt64_eq hmin (by omega), toDouble_of_isDouble hlinear, toDouble_of_isDouble hcapped,
    hlinearCeil, hcappedCeil, ← Nat.cast_add,
    toDouble_of_isDouble (isDouble_natCast (Nat.lt_of_le_of_lt hlow hlt)), ← Nat.cast_add]
  exact congrArg _ ((congrArg (fun q => (toUInt64 i.junk q).toNat)
    (toDouble_of_isDouble (isDouble_natCast hlt))).trans (toUInt64_natCast hlt i.junk))

theorem bound_iff_of_exact (h : i.Exact) : i.required ≤
    (worstCaseTransformedGroupSize i.sizeGrowth i.junk i.groupSize i.vars).toNat ↔
      i.required ≤ i.groupSize.toNat ∨ i.Covered := by
  have hadd : (i.arraySize : ℚ) + scalarSize i.vars = i.groupSize.toNat := by
    exact_mod_cast i.arraySize_add
  rw [toNat_worstCase h, Nat.cast_max, le_max_iff]
  refine or_congr_right ?_
  rw [i.required_eq, i.total_eq, Covered]
  push_cast
  constructor <;> intro hle <;> linarith

end GroupInput

/-! ## Two capped variables -/

def alacritySizes : AlacritySizes := ⟨8, 8, 4, 4, 8, 4, 4⟩

/-- An array of 65536 doubles with the transform `alacrity`. -/
def alacrityVar : Var := ⟨.byte, .double, true, .alacrity, 524288⟩

theorem alacrityVar_growth :
    transformedSizeGrowth alacritySizes (fun _ => .unset) alacrityVar .unset =
      ⟨39, 9 / 4, 2, 524288⟩ := by
  have hsize : (getTypeSize alacrityVar.preTransformType none).toNat = 8 := by decide
  have hbin : toDouble 2 = 2 := toDouble_of_isDouble ⟨2, 0, by norm_num, by norm_num⟩
  have hindex : toDouble (1 / 2) = 1 / 2 := toDouble_of_isDouble ⟨1, -1, by norm_num, by norm_num⟩
  have hlow : toDouble (3 / 4) = 3 / 4 := toDouble_of_isDouble ⟨3, -2, by norm_num, by norm_num⟩
  have hdata : toDouble (5 / 4) = 5 / 4 := toDouble_of_isDouble ⟨5, -2, by norm_num, by norm_num⟩
  have hall : toDouble (9 / 4) = 9 / 4 := toDouble_of_isDouble ⟨9, -2, by norm_num, by norm_num⟩
  show alacritySizeGrowth alacritySizes .unset alacrityVar .unset = _
  rw [alacritySizeGrowth, hsize]
  dsimp only [addDataSizeGrowth, addIndexSizeGrowth, addBinLayoutSizeGrowth, alacritySizes,
    AlacrityConf.unset, Bool.false_eq_true, if_false, if_true]
  norm_num [hbin, hindex, hlow, hdata, hall]
  exact ⟨by decide, by decide⟩

def twoArrays : GroupInput where
  vars := [alacrityVar, alacrityVar]
  groupSize := 1048576
  junk := 0
  sizeGrowth := transformedSizeGrowth alacritySizes fun _ => .unset
  scalar := by
    intro v hv hd
    rw [mem_pair, or_self] at hv
    rw [hv] at hd
    cases hd
  fits := Nat.le_refl 1048576

end Adios.GroupGrowth
