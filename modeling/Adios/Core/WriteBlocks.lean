import Adios.Core.Intersection

/-!
# Core — intersections of write-block selections

A write-block selection takes a block of a variable, by its number in the step or in the file, or a
range of elements of it. `adios_selection_intersect_wb_wb` compares the numbers as it finds them
when both are of one kind, and hands a range on without looking at it when there is no other.
-/

namespace Adios.WriteBlocks

open Subvolume

/-! ## The code -/

/-- What `ADIOS_VARINFO` says about the blocks, and how many elements each has. -/
structure Varinfo where
  nblocks : List Nat
  volume : Nat → Nat
  /-- `sum_nblocks` is an `int`. -/
  total : nblocks.sum < 2147483648

/-- `ADIOS_SELECTION_WRITEBLOCK_STRUCT` -/
structure WriteBlock where
  index : Int
  isAbsoluteIndex : Int
  isSubPgSelection : Int
  elementOffset : UInt64
  nelements : UInt64
  deriving DecidableEq

/-- `adios_get_absolute_writeblock_index` -/
def Varinfo.absoluteIndex (vi : Varinfo) (index timestep : Int) : Int :=
  if timestep < 0 ∨ (vi.nblocks.length : Int) ≤ timestep then -1
  else if index < 0 ∨ ((vi.nblocks.getD timestep.toNat 0 : Nat) : Int) ≤ index then -1
  else index + (vi.nblocks.take timestep.toNat).sum

/-- `index1` or `index2` when the two numbers are not of one kind. -/
def WriteBlock.absolute (wb : WriteBlock) (vi : Varinfo) (timestep : Int) : Int :=
  if wb.isAbsoluteIndex ≠ 0 then wb.index else vi.absoluteIndex wb.index timestep

/-- What is known about the block that two selections share: its number, and of which kind it is. -/
def sharedBlock (vi : Varinfo) (timestep : Int) (wb1 wb2 : WriteBlock) : Option (Int × Int) :=
  if wb1.isAbsoluteIndex = wb2.isAbsoluteIndex then
    if wb1.index ≠ wb2.index then none else some (wb1.index, wb1.isAbsoluteIndex)
  else if wb1.absolute vi timestep ≠ wb2.absolute vi timestep then none
  else some (wb1.absolute vi timestep, 1)

/-- What is returned when the block is the same. The range of a whole block is not set; the zeros
stand for it. -/
def intersectRanges (wbindex isAbsIdx : Int) (wb1 wb2 : WriteBlock) : Option WriteBlock :=
  if wb1.isSubPgSelection = 0 ∧ wb2.isSubPgSelection = 0 then
    some ⟨wbindex, isAbsIdx, 0, 0, 0⟩
  else if wb1.isSubPgSelection ≠ 0 ∧ wb2.isSubPgSelection ≠ 0 then
    (intersectSegments wb1.elementOffset wb1.nelements wb2.elementOffset wb2.nelements).map
      fun inter => ⟨wbindex, isAbsIdx, 1, inter.1, inter.2⟩
  else if wb1.isSubPgSelection ≠ 0 then some wb1
  else some wb2

/-- `adios_selection_intersect_wb_wb` -/
def intersectWbWb (vi : Varinfo) (timestep : Int) (wb1 wb2 : WriteBlock) : Option WriteBlock :=
  (sharedBlock vi timestep wb1 wb2).bind fun b => intersectRanges b.1 b.2 wb1 wb2

/-! ## The statement -/

def WriteBlock.block (wb : WriteBlock) (vi : Varinfo) (timestep : Int) : Option Nat :=
  if 0 ≤ wb.absolute vi timestep ∧ wb.absolute vi timestep < vi.nblocks.sum then
    some (wb.absolute vi timestep).toNat
  else none

def WriteBlock.range (wb : WriteBlock) : Segment := ⟨wb.elementOffset, wb.nelements⟩

def WriteBlock.Selects (wb : WriteBlock) (vi : Varinfo) (timestep : Int) (b e : Nat) : Prop :=
  wb.block vi timestep = some b ∧
    if wb.isSubPgSelection ≠ 0 then wb.range.start.toNat ≤ e ∧ e < wb.range.stop
    else e < vi.volume b

structure Selections where
  vi : Varinfo
  timestep : Int
  wb1 : WriteBlock
  wb2 : WriteBlock
  ends : wb1.range.stop < 18446744073709551616 ∧ wb2.range.stop < 18446744073709551616
  within1 (b : Nat) (hb : wb1.block vi timestep = some b) (h : wb1.isSubPgSelection ≠ 0) :
    wb1.range.stop ≤ vi.volume b
  within2 (b : Nat) (hb : wb2.block vi timestep = some b) (h : wb2.isSubPgSelection ≠ 0) :
    wb2.range.stop ≤ vi.volume b

namespace Selections

variable (s : Selections)

/-- A result is a selection of these elements, or `NULL` if there are none. -/
def Is (result : Option WriteBlock) (elements : Nat → Nat → Prop) : Prop :=
  (result = none ↔ ¬∃ b e, elements b e) ∧
    ∀ r, result = some r → ∀ b e, r.Selects s.vi s.timestep b e ↔ elements b e

structure Intersects : Prop where
  common : s.Is (intersectWbWb s.vi s.timestep s.wb1 s.wb2) fun b e =>
    s.wb1.Selects s.vi s.timestep b e ∧ s.wb2.Selects s.vi s.timestep b e
  symm : s.Is (intersectWbWb s.vi s.timestep s.wb2 s.wb1) fun b e =>
    s.wb1.Selects s.vi s.timestep b e ∧ s.wb2.Selects s.vi s.timestep b e

def Told (r1 r2 : Segment) : Prop :=
  Meet r1 r2 ∧ Held r1 r2 ∨ ¬Meet r1 r2 ∧ Apart r1 r2 ∧ Apart r2 r1

/-- The blocks are taken for different ones; or they are one block that is there, and what is
selected of it is not empty, or the ranges are told apart; or there is no such block, but the ranges
do not seem to meet. -/
def Clear : Prop :=
  sharedBlock s.vi s.timestep s.wb1 s.wb2 = none ∨
  (∃ b, s.wb1.block s.vi s.timestep = some b ∧
    (s.wb1.isSubPgSelection = 0 → s.wb2.isSubPgSelection = 0 → 0 < s.vi.volume b) ∧
    (s.wb1.isSubPgSelection ≠ 0 → s.wb2.isSubPgSelection = 0 → 0 < s.wb1.nelements) ∧
    (s.wb1.isSubPgSelection = 0 → s.wb2.isSubPgSelection ≠ 0 → 0 < s.wb2.nelements) ∧
    (s.wb1.isSubPgSelection ≠ 0 → s.wb2.isSubPgSelection ≠ 0 → Told s.wb1.range s.wb2.range)) ∨
  s.wb1.block s.vi s.timestep = none ∧ s.wb1.isSubPgSelection ≠ 0 ∧ s.wb2.isSubPgSelection ≠ 0 ∧
    Apart s.wb1.range s.wb2.range ∧ Apart s.wb2.range s.wb1.range

/-! ## Blocks -/

end Selections

section

variable {vi : Varinfo} {timestep : Int} {wb1 wb2 : WriteBlock}

theorem sharedBlock_comm :
    sharedBlock vi timestep wb2 wb1 = sharedBlock vi timestep wb1 wb2 := by
  unfold sharedBlock
  by_cases hkind : wb1.isAbsoluteIndex = wb2.isAbsoluteIndex
  · rw [if_pos hkind, if_pos hkind.symm, hkind]
    by_cases hindex : wb1.index = wb2.index
    · rw [if_neg (not_not.mpr hindex), if_neg (not_not.mpr hindex.symm), hindex]
    · rw [if_pos hindex, if_pos (Ne.symm hindex)]
  · rw [if_neg hkind, if_neg (Ne.symm hkind)]
    by_cases hindex : wb1.absolute vi timestep = wb2.absolute vi timestep
    · rw [if_neg (not_not.mpr hindex), if_neg (not_not.mpr hindex.symm), hindex]
    · rw [if_pos hindex, if_pos (Ne.symm hindex)]

theorem absoluteIndex_inj {i j : Int} (hi : 0 ≤ vi.absoluteIndex i timestep)
    (h : vi.absoluteIndex i timestep = vi.absoluteIndex j timestep) : i = j := by
  have hj := hi
  rw [h] at hj
  unfold Varinfo.absoluteIndex at h hi hj
  split_ifs at h hi hj <;> omega

theorem block_ne_of_sharedBlock (h : sharedBlock vi timestep wb1 wb2 = none) {b : Nat}
    (h1 : wb1.block vi timestep = some b) : wb2.block vi timestep ≠ some b := by
  intro h2
  unfold WriteBlock.block at h1 h2
  split_ifs at h1 with hvalid1
  split_ifs at h2 with hvalid2
  injection h1 with h1
  injection h2 with h2
  have hsame : wb1.absolute vi timestep = wb2.absolute vi timestep := by omega
  unfold sharedBlock at h
  split_ifs at h with hkind hindex hdiffer
  · refine hindex ?_
    unfold WriteBlock.absolute at hsame hvalid1
    rw [hkind] at hsame hvalid1
    split_ifs at hsame hvalid1 with habs
    · exact hsame
    · exact absoluteIndex_inj hvalid1.1 hsame
  · exact hdiffer hsame

theorem absolute_of_sharedBlock {index kind : Int}
    (h : sharedBlock vi timestep wb1 wb2 = some (index, kind)) :
    wb2.absolute vi timestep = wb1.absolute vi timestep ∧ ∀ sub offset n,
      (WriteBlock.mk index kind sub offset n).absolute vi timestep = wb1.absolute vi timestep := by
  unfold sharedBlock at h
  split_ifs at h with hkind hindex hdiffer
  · injection h with h
    injection h with hi hk
    unfold WriteBlock.absolute
    dsimp only
    rw [← hi, ← hk, ← hkind, not_not.mp hindex]
    exact ⟨rfl, fun _ _ _ => rfl⟩
  · injection h with h
    injection h with hi hk
    refine ⟨(not_not.mp hdiffer).symm, fun sub offset n => ?_⟩
    show (if kind ≠ 0 then index else _) = _
    rw [← hk, if_pos (by decide), hi]

theorem block_congr {wb wb' : WriteBlock} (h : wb'.absolute vi timestep = wb.absolute vi timestep) :
    wb'.block vi timestep = wb.block vi timestep := by
  unfold WriteBlock.block
  rw [h]

end

namespace Selections

variable (s : Selections)

def Both (b e : Nat) : Prop :=
  s.wb1.Selects s.vi s.timestep b e ∧ s.wb2.Selects s.vi s.timestep b e

theorem is_some_iff {r : WriteBlock} {elements : Nat → Nat → Prop}
    (h : ∀ b e, r.Selects s.vi s.timestep b e ↔ elements b e) :
    s.Is (some r) elements ↔ ∃ b e, elements b e := by
  constructor
  · rintro ⟨hnone, -⟩
    by_contra hempty
    cases hnone.mpr hempty
  · intro hex
    refine ⟨⟨fun hsome => (by cases hsome), fun hempty => absurd hex hempty⟩, fun r' hr' => ?_⟩
    injection hr' with hr'
    subst hr'
    exact h

theorem is_none_iff {elements : Nat → Nat → Prop} :
    s.Is none elements ↔ ¬∃ b e, elements b e :=
  ⟨fun h => h.1.mp rfl, fun h => ⟨⟨fun _ => h, fun _ => rfl⟩, fun _ hr => (by cases hr)⟩⟩

def swap : Selections where
  vi := s.vi
  timestep := s.timestep
  wb1 := s.wb2
  wb2 := s.wb1
  ends := s.ends.symm
  within1 := s.within2
  within2 := s.within1

/-! ## One order of the arguments -/

section

variable {s} {index kind : Int}
  (h : sharedBlock s.vi s.timestep s.wb1 s.wb2 = some (index, kind))

include h

theorem block_wb2 : s.wb2.block s.vi s.timestep = s.wb1.block s.vi s.timestep :=
  block_congr (absolute_of_sharedBlock h).1

theorem selects_iff (sub : Int) (offset n : UInt64) (b e : Nat) :
    (WriteBlock.mk index kind sub offset n).Selects s.vi s.timestep b e ↔
      s.wb1.block s.vi s.timestep = some b ∧
        if sub ≠ 0 then offset.toNat ≤ e ∧ e < offset.toNat + n.toNat else e < s.vi.volume b := by
  unfold WriteBlock.Selects
  rw [block_congr ((absolute_of_sharedBlock h).2 sub offset n)]
  exact Iff.rfl

theorem is_whole_iff (h1 : s.wb1.isSubPgSelection = 0) (h2 : s.wb2.isSubPgSelection = 0) :
    s.Is (intersectWbWb s.vi s.timestep s.wb1 s.wb2) s.Both ↔
      ∃ b, s.wb1.block s.vi s.timestep = some b ∧ 0 < s.vi.volume b := by
  have hresult : intersectWbWb s.vi s.timestep s.wb1 s.wb2 = some ⟨index, kind, 0, 0, 0⟩ := by
    rw [intersectWbWb, h, Option.bind_some, intersectRanges, if_pos ⟨h1, h2⟩]
  have hboth : ∀ b e, s.Both b e ↔
      s.wb1.block s.vi s.timestep = some b ∧ e < s.vi.volume b := fun b e => by
    unfold Both WriteBlock.Selects
    rw [block_wb2 h, if_neg (not_not.mpr h1), if_neg (not_not.mpr h2), and_self_iff]
  rw [hresult, s.is_some_iff fun b e => (selects_iff h 0 0 0 b e).trans (hboth b e).symm]
  constructor
  · rintro ⟨b, e, hbe⟩
    obtain ⟨hb, he⟩ := (hboth b e).mp hbe
    exact ⟨b, hb, by omega⟩
  · rintro ⟨b, hb, hpos⟩
    exact ⟨b, 0, (hboth b 0).mpr ⟨hb, hpos⟩⟩

theorem is_range_iff (h1 : s.wb1.isSubPgSelection ≠ 0) (h2 : s.wb2.isSubPgSelection = 0) :
    s.Is (intersectWbWb s.vi s.timestep s.wb1 s.wb2) s.Both ↔
      ∃ b, s.wb1.block s.vi s.timestep = some b ∧ 0 < s.wb1.nelements := by
  have hresult : intersectWbWb s.vi s.timestep s.wb1 s.wb2 = some s.wb1 := by
    rw [intersectWbWb, h, Option.bind_some, intersectRanges, if_neg fun hc => h1 hc.1,
      if_neg fun hc => hc.2 h2, if_pos h1]
  have hboth : ∀ b e, s.wb1.Selects s.vi s.timestep b e ↔ s.Both b e := fun b e => by
    refine ⟨fun hs => ⟨hs, ?_⟩, fun hs => hs.1⟩
    unfold WriteBlock.Selects at hs ⊢
    obtain ⟨hb, he⟩ := hs
    rw [if_pos h1] at he
    rw [block_wb2 h, if_neg (not_not.mpr h2)]
    have hwithin := s.within1 b hb h1
    exact ⟨hb, by omega⟩
  rw [hresult, s.is_some_iff hboth]
  constructor
  · rintro ⟨b, e, hbe⟩
    obtain ⟨hb, he⟩ := hbe.1
    rw [if_pos h1] at he
    have he : s.wb1.elementOffset.toNat ≤ e ∧
      e < s.wb1.elementOffset.toNat + s.wb1.nelements.toNat := he
    exact ⟨b, hb, UInt64.lt_iff_toNat_lt.mpr (show 0 < s.wb1.nelements.toNat by omega)⟩
  · rintro ⟨b, hb, hpos⟩
    have hpos : 0 < s.wb1.nelements.toNat := UInt64.lt_iff_toNat_lt.mp hpos
    refine ⟨b, s.wb1.elementOffset.toNat, (hboth b _).mp ⟨hb, ?_⟩⟩
    rw [if_pos h1]
    exact ⟨Nat.le_refl _, Nat.lt_add_of_pos_right hpos⟩

theorem both_ranges_iff (h1 : s.wb1.isSubPgSelection ≠ 0) (h2 : s.wb2.isSubPgSelection ≠ 0)
    (b e : Nat) : s.Both b e ↔ s.wb1.block s.vi s.timestep = some b ∧
      max s.wb1.range.start.toNat s.wb2.range.start.toNat ≤ e ∧
        e < min s.wb1.range.stop s.wb2.range.stop := by
  unfold Both WriteBlock.Selects
  rw [block_wb2 h, if_pos h1, if_pos h2]
  constructor
  · rintro ⟨⟨hb, he1⟩, -, he2⟩
    exact ⟨hb, by omega, by omega⟩
  · rintro ⟨hb, hlo, hhi⟩
    exact ⟨⟨hb, by omega⟩, hb, by omega⟩

theorem is_ranges_iff (h1 : s.wb1.isSubPgSelection ≠ 0) (h2 : s.wb2.isSubPgSelection ≠ 0) :
    s.Is (intersectWbWb s.vi s.timestep s.wb1 s.wb2) s.Both ↔
      (s.wb1.block s.vi s.timestep = none ∨ ¬Meet s.wb1.range s.wb2.range) ∧
          Apart s.wb1.range s.wb2.range ∨
        (∃ b, s.wb1.block s.vi s.timestep = some b) ∧ Meet s.wb1.range s.wb2.range ∧
          ∃ x, intersectSegments s.wb1.elementOffset s.wb1.nelements s.wb2.elementOffset
            s.wb2.nelements = some x ∧ Exact s.wb1.range s.wb2.range x := by
  have hresult : intersectWbWb s.vi s.timestep s.wb1 s.wb2 =
      (intersectSegments s.wb1.elementOffset s.wb1.nelements s.wb2.elementOffset
        s.wb2.nelements).map fun x => ⟨index, kind, 1, x.1, x.2⟩ := by
    rw [intersectWbWb, h, Option.bind_some, intersectRanges, if_neg fun hc => h1 hc.1,
      if_pos ⟨h1, h2⟩]
  have hboth := both_ranges_iff h h1 h2
  have hempty : s.wb1.block s.vi s.timestep = none ∨ ¬Meet s.wb1.range s.wb2.range →
      ¬∃ b e, s.Both b e := by
    rintro hnot ⟨b, e, hbe⟩
    obtain ⟨hb, hlo, hhi⟩ := (hboth b e).mp hbe
    rcases hnot with hnone | hnot
    · rw [hnone] at hb
      cases hb
    · exact hnot (Nat.lt_of_le_of_lt hlo hhi)
  rw [hresult, ← intersectSegments_eq_none_iff]
  show s.Is ((intersectSegments s.wb1.elementOffset s.wb1.nelements s.wb2.elementOffset
    s.wb2.nelements).map _) s.Both ↔ _ ∧ intersectSegments s.wb1.elementOffset s.wb1.nelements
      s.wb2.elementOffset s.wb2.nelements = none ∨ _
  cases hseg : intersectSegments s.wb1.elementOffset s.wb1.nelements s.wb2.elementOffset
      s.wb2.nelements with
  | none =>
    rw [Option.map_none, s.is_none_iff]
    constructor
    · intro hno
      refine Or.inl ⟨?_, rfl⟩
      by_contra hcontra
      rw [not_or, not_not] at hcontra
      obtain ⟨b, hb⟩ := Option.ne_none_iff_exists'.mp hcontra.1
      exact hno ⟨b, _, (hboth b _).mpr ⟨hb, Nat.le_refl _, hcontra.2⟩⟩
    · rintro (⟨hnot, -⟩ | ⟨-, -, x, hx, -⟩)
      · exact hempty hnot
      · cases hx
  | some x =>
    rw [Option.map_some]
    constructor
    · rintro ⟨hnone, hr⟩
      right
      have hex : ∃ b e, s.Both b e := by
        by_contra hno
        cases hnone.mpr hno
      obtain ⟨b, e, hbe⟩ := hex
      obtain ⟨hb, hlo, hhi⟩ := (hboth b e).mp hbe
      have hmeet : Meet s.wb1.range s.wb2.range := Nat.lt_of_le_of_lt hlo hhi
      refine ⟨⟨b, hb⟩, hmeet, x, rfl, exact_of_elements hmeet fun e => ?_⟩
      have he := hr _ rfl b e
      rw [selects_iff h, hboth, if_pos (by decide)] at he
      exact ⟨fun hx => (he.mp ⟨hb, hx⟩).2, fun hx => (he.mpr ⟨hb, hx⟩).2⟩
    · rintro (⟨-, hx⟩ | ⟨⟨b, hb⟩, hmeet, y, hy, hexact⟩)
      · cases hx
      · injection hy with hy
        subst hy
        have hstart := hexact.start
        have hstop := hexact.stop
        refine (s.is_some_iff fun b e => ?_).mpr ⟨b, _, (hboth b _).mpr ⟨hb, Nat.le_refl _, hmeet⟩⟩
        rw [selects_iff h, hboth, if_pos (by decide), hstop, hstart]

end

/-! ## Both orders -/

theorem is_congr {elements elements' : Nat → Nat → Prop} {result : Option WriteBlock}
    (h : ∀ b e, elements b e ↔ elements' b e) : s.Is result elements ↔ s.Is result elements' := by
  have hsame : elements = elements' := by
    funext b e
    exact propext (h b e)
  rw [hsame]

theorem intersects_iff_is : s.Intersects ↔
    s.Is (intersectWbWb s.vi s.timestep s.wb1 s.wb2) s.Both ∧
      s.swap.Is (intersectWbWb s.vi s.timestep s.wb2 s.wb1) s.swap.Both := by
  have hboth : ∀ b e, s.swap.Both b e ↔ s.Both b e := fun b e => And.comm
  constructor
  · rintro ⟨hcommon, hsymm⟩
    exact ⟨hcommon, (s.is_congr hboth).mpr hsymm⟩
  · rintro ⟨hcommon, hsymm⟩
    exact ⟨hcommon, (s.is_congr hboth).mp hsymm⟩

theorem intersects_of_none (h : sharedBlock s.vi s.timestep s.wb1 s.wb2 = none) :
    s.Intersects := by
  have hempty : ¬∃ b e, s.Both b e := by
    rintro ⟨b, e, h1, h2⟩
    exact block_ne_of_sharedBlock h h1.1 h2.1
  have hresult : intersectWbWb s.vi s.timestep s.wb1 s.wb2 = none := by
    rw [intersectWbWb, h]
    rfl
  have hresult' : intersectWbWb s.vi s.timestep s.wb2 s.wb1 = none := by
    rw [intersectWbWb, sharedBlock_comm, h]
    rfl
  constructor
  · rw [hresult]
    exact s.is_none_iff.mpr hempty
  · rw [hresult']
    exact s.is_none_iff.mpr hempty

theorem swap_intersects_iff : s.swap.Intersects ↔ s.Intersects := by
  rw [intersects_iff_is, intersects_iff_is]
  exact And.comm

section

variable {s} {index kind : Int}
  (h : sharedBlock s.vi s.timestep s.wb1 s.wb2 = some (index, kind))

include h

theorem whole_iff (h1 : s.wb1.isSubPgSelection = 0) (h2 : s.wb2.isSubPgSelection = 0) :
    s.Intersects ↔ ∃ b, s.wb1.block s.vi s.timestep = some b ∧ 0 < s.vi.volume b := by
  have hswap := @is_whole_iff s.swap index kind (by rw [swap, sharedBlock_comm, h]) h2 h1
  rw [intersects_iff_is, is_whole_iff h h1 h2]
  refine (and_congr Iff.rfl hswap).trans ?_
  show _ ∧ (∃ b, s.wb2.block s.vi s.timestep = some b ∧ 0 < s.vi.volume b) ↔ _
  rw [block_wb2 h, and_self_iff]

theorem range_iff (h1 : s.wb1.isSubPgSelection ≠ 0) (h2 : s.wb2.isSubPgSelection = 0) :
    s.Intersects ↔ ∃ b, s.wb1.block s.vi s.timestep = some b ∧ 0 < s.wb1.nelements := by
  have hresult : intersectWbWb s.vi s.timestep s.wb2 s.wb1 =
      intersectWbWb s.vi s.timestep s.wb1 s.wb2 := by
    rw [intersectWbWb, intersectWbWb, sharedBlock_comm, h, Option.bind_some, Option.bind_some,
      intersectRanges, intersectRanges, if_neg fun hc => h1 hc.2, if_neg fun hc => hc.1 h2,
      if_neg (not_not.mpr h2), if_neg fun hc => h1 hc.1, if_neg fun hc => hc.2 h2, if_pos h1]
  rw [← is_range_iff h h1 h2]
  constructor
  · exact fun hi => hi.common
  · intro hi
    refine ⟨hi, ?_⟩
    rw [hresult]
    exact hi

theorem ranges_iff (h1 : s.wb1.isSubPgSelection ≠ 0) (h2 : s.wb2.isSubPgSelection ≠ 0) :
    s.Intersects ↔
      (∃ b, s.wb1.block s.vi s.timestep = some b) ∧ Told s.wb1.range s.wb2.range ∨
        s.wb1.block s.vi s.timestep = none ∧
          Apart s.wb1.range s.wb2.range ∧ Apart s.wb2.range s.wb1.range := by
  have hswap := @is_ranges_iff s.swap index kind (by rw [swap, sharedBlock_comm, h]) h2 h1
  have hmeet : Meet s.wb2.range s.wb1.range ↔ Meet s.wb1.range s.wb2.range := by
    unfold Meet
    rw [Nat.max_comm, Nat.min_comm]
  rw [intersects_iff_is, is_ranges_iff h h1 h2]
  refine (and_congr Iff.rfl hswap).trans ?_
  show _ ∧ ((s.wb2.block s.vi s.timestep = none ∨ ¬Meet s.wb2.range s.wb1.range) ∧
      Apart s.wb2.range s.wb1.range ∨ (∃ b, s.wb2.block s.vi s.timestep = some b) ∧
        Meet s.wb2.range s.wb1.range ∧ _) ↔ _
  rw [block_wb2 h, hmeet]
  cases hb : s.wb1.block s.vi s.timestep with
  | none =>
    constructor
    · rintro ⟨⟨-, hapart⟩ | ⟨⟨b, hc⟩, -⟩, h2⟩
      · rcases h2 with ⟨-, hapart'⟩ | ⟨⟨b, hc⟩, -⟩
        · exact Or.inr ⟨rfl, hapart, hapart'⟩
        · cases hc
      · cases hc
    · rintro (⟨⟨b, hc⟩, -⟩ | ⟨-, hapart, hapart'⟩)
      · cases hc
      · exact ⟨Or.inl ⟨Or.inl rfl, hapart⟩, Or.inl ⟨Or.inl rfl, hapart'⟩⟩
  | some b =>
    have hnever : ¬some b = (none : Option Nat) := fun hc => (by cases hc)
    constructor
    · rintro ⟨h1, h2⟩
      refine Or.inl ⟨⟨b, rfl⟩, ?_⟩
      rcases h1 with ⟨hnot, hapart⟩ | ⟨-, hm, hexact⟩
      · have hnot := hnot.resolve_left hnever
        rcases h2 with ⟨-, hapart'⟩ | ⟨-, hm, -⟩
        · exact Or.inr ⟨hnot, hapart, hapart'⟩
        · exact absurd hm hnot
      · rcases h2 with ⟨hnot, -⟩ | ⟨-, -, hexact'⟩
        · exact absurd hm (hnot.resolve_left hnever)
        · exact Or.inl ⟨hm, (held_iff s.ends.1 s.ends.2 hm).mp ⟨hexact, hexact'⟩⟩
    · rintro (⟨-, ⟨hm, hheld⟩ | ⟨hnot, hapart, hapart'⟩⟩ | ⟨hc, -⟩)
      · obtain ⟨hexact, hexact'⟩ := (held_iff s.ends.1 s.ends.2 hm).mpr hheld
        exact ⟨Or.inr ⟨⟨b, rfl⟩, hm, hexact⟩, Or.inr ⟨⟨b, rfl⟩, hm, hexact'⟩⟩
      · exact ⟨Or.inl ⟨Or.inr hnot, hapart⟩, Or.inl ⟨Or.inr hnot, hapart'⟩⟩
      · exact absurd hc hnever

end

def rangeWithin : Selections where
  vi := ⟨[1], fun _ => 4294967296, by decide⟩
  timestep := 0
  wb1 := ⟨0, 1, 1, 0, 4294967296⟩
  wb2 := ⟨0, 0, 1, 1, 1⟩
  ends := by decide
  within1 _ _ _ := (by decide : 0 + 4294967296 ≤ 4294967296)
  within2 _ _ _ := (by decide : 1 + 1 ≤ 4294967296)

end Selections

end Adios.WriteBlocks
