import Adios.Core.CopiedSubvolume
import Adios.Heap.Slots
import Adios.Transforms.GlobalRead

/-!
# Transforms — a block patched into a bounding box

What `adios_patch_data_bb_to_bb` leaves in the user's box of the elements that a block has in common
with it, where the numbers of the two come through the `int`s and the arrays on the way.
-/

namespace Adios.Transforms

open List CopySubvolume Grid PatchData Selections Sieving Subvolume WriteBlocks UInt64

/-! ## What two boxes have in common -/

def commonSegment (s1 s2 : Segment) : Segment :=
  ⟨UInt64.ofNat (max s1.start.toNat s2.start.toNat),
    UInt64.ofNat (min s1.stop s2.stop - max s1.start.toNat s2.start.toNat)⟩

def commonPart (bb1 bb2 : List Segment) : List Segment := List.zipWith commonSegment bb1 bb2

def Meets (bb1 bb2 : List Segment) : Prop := ∀ d ∈ bb1.zip bb2, Meet d.1 d.2

instance (s1 s2 : Segment) : Decidable (Meet s1 s2) := inferInstanceAs (Decidable (_ < _))

instance (bb1 bb2 : List Segment) : Decidable (Meets bb1 bb2) :=
  inferInstanceAs (Decidable (∀ d ∈ _, _))

section

variable {bb1 bb2 : List Segment}

theorem map_fst_zip_of_length (h : bb1.length = bb2.length) : (bb1.zip bb2).map Prod.fst = bb1 :=
  map_fst_zip (Nat.le_of_eq h)

theorem map_snd_zip_of_length (h : bb1.length = bb2.length) : (bb1.zip bb2).map Prod.snd = bb2 :=
  map_snd_zip (Nat.le_of_eq h.symm)

theorem meets_iff (h : bb1.length = bb2.length) :
    Meets bb1 bb2 ↔ ∃ p, Elements bb1 p ∧ Elements bb2 p := by
  have hmeet := meet_iff (bb1.zip bb2)
  rw [map_fst_zip_of_length h, map_snd_zip_of_length h] at hmeet
  exact hmeet.symm

theorem mem_ends (hends1 : Ends bb1) (hends2 : Ends bb2) {d : Segment × Segment}
    (hd : d ∈ bb1.zip bb2) : d.1.stop < 18446744073709551616 ∧ d.2.stop < 18446744073709551616 :=
  ⟨hends1 _ (of_mem_zip hd).1, hends2 _ (of_mem_zip hd).2⟩

theorem span_commonPart (hends1 : Ends bb1) :
    (commonPart bb1 bb2).map Segment.span = commonBox (bb1.zip bb2) := by
  have hspan : ∀ d ∈ bb1.zip bb2, (commonSegment d.1 d.2).span =
      ⟨max d.1.start.toNat d.2.start.toNat,
        min d.1.stop d.2.stop - max d.1.start.toNat d.2.start.toNat⟩ := fun d hd => by
    have hstop := hends1 _ (of_mem_zip hd).1
    have h1 := d.1.start.toNat_lt
    have h2 := d.2.start.toNat_lt
    show (⟨(UInt64.ofNat _).toNat, (UInt64.ofNat _).toNat⟩ : Span) = _
    rw [toNat_ofNat_of_lt' (show _ < 18446744073709551616 by omega),
      toNat_ofNat_of_lt' (show _ < 18446744073709551616 by omega)]
  rw [commonPart, ← map_uncurry_zip_eq_zipWith, map_map, commonBox]
  exact map_congr_left hspan

theorem elements_commonPart (h : bb1.length = bb2.length) (hends1 : Ends bb1) (p : List Nat) :
    Elements (commonPart bb1 bb2) p ↔ Elements bb1 p ∧ Elements bb2 p := by
  have hbox := contains_commonBox (bb1.zip bb2) p
  rw [map_fst_zip_of_length h, map_snd_zip_of_length h] at hbox
  unfold Elements
  rw [span_commonPart hends1]
  exact hbox

theorem span_injective {s s' : Segment} (h : s.span = s'.span) : s = s' := by
  obtain ⟨start, count⟩ := s
  obtain ⟨start', count'⟩ := s'
  injection h with hstart hcount
  exact congrArg₂ Segment.mk (UInt64.toNat_inj.mp hstart) (UInt64.toNat_inj.mp hcount)

theorem intersectBbBb_of_held (mallocZero : Bool) (h : bb1.length = bb2.length) (hne : bb1 ≠ [])
    (hends1 : Ends bb1) (hends2 : Ends bb2) (hmeets : Meets bb1 bb2)
    (hheld : ∀ d ∈ bb1.zip bb2, Held d.1 d.2) :
    intersectBbBb mallocZero bb1 bb2 = .ok (some (.boundingBox (commonPart bb1 bb2))) ∧
      intersectBbBb mallocZero bb2 bb1 = .ok (some (.boundingBox (commonPart bb1 bb2))) := by
  have hpos : 0 < bb1.length := length_pos_iff.mpr hne
  have hzip : bb1.zip bb2 ≠ [] := fun hc => by
    have hfst := map_fst_zip_of_length h
    rw [hc] at hfst
    exact hne hfst.symm
  let volumes : Volumes := ⟨bb1.zip bb2, hzip, fun d hd => mem_ends hends1 hends2 hd⟩
  obtain ⟨r, hr⟩ := volumes.exists_of_held fun d hd => ⟨hmeets d hd, hheld d hd⟩
  have hr : Forall₂ (fun c d => Reports c d ∧ Reports c.swap (d.2, d.1) ∧
    Exact d.1 d.2 (c.offset, c.dims)) r (bb1.zip bb2) := hr
  have hfst := intersectVolumes_eq_some_iff.mpr (hr.imp fun _ _ h => h.1)
  have hsnd := Volumes.swapped_eq_some_iff.mpr
    (forall₂_map_left_iff.mpr (hr.imp fun _ _ h => h.2.1))
  have hspan := reported_of_exact (hr.imp fun _ _ h => h.2.2)
  rw [map_fst_zip_of_length h, map_snd_zip_of_length h] at hfst hsnd
  -- what is reported is the common part
  have hpart : r.map (fun c => (⟨c.offset, c.dims⟩ : Segment)) = commonPart bb1 bb2 := by
    refine map_injective_iff.mpr (fun _ _ => span_injective) ?_
    rw [span_commonPart hends1, ← hspan, map_map]
    rfl
  have hswap : (r.map Common.swap).map (fun c => (⟨c.offset, c.dims⟩ : Segment)) =
      commonPart bb1 bb2 := by
    rw [← hpart, map_map]
    rfl
  constructor
  · rw [intersectBbBb, if_neg (not_not.mpr h), if_neg (not_not.mpr (mallocs_of_pos _ hpos)), hfst,
      Option.map_some, hpart]
  · rw [intersectBbBb, if_neg (not_not.mpr h.symm),
      if_neg (not_not.mpr (mallocs_of_pos _ (h ▸ hpos))), hsnd, Option.map_some, hswap]

theorem intersectBbBb_of_apart (mallocZero : Bool) (h : bb1.length = bb2.length)
    (hapart : ∃ d ∈ bb1.zip bb2, Apart d.1 d.2) : intersectBbBb mallocZero bb1 bb2 = .ok none := by
  have hnone := intersectVolumes_eq_none_iff.mpr hapart
  rw [map_fst_zip_of_length h, map_snd_zip_of_length h] at hnone
  rw [intersectBbBb, if_neg (not_not.mpr h), hnone]
  split_ifs <;> rfl

end

/-! ## The patch -/

section

variable {inter dst src : List Segment}

theorem localCoords_copyAxes (h : Nested inter dst) {q : List Nat} (hq : q.length = inter.length) :
    List.zipWith (· + ·)
        ((List.zipWith (fun c s : Segment => c.start - s.start) inter dst).map UInt64.toNat) q =
      localCoords (dst.map Segment.span) (globalCoords (inter.map Segment.span) q) := by
  induction h generalizing q with
  | nil => rfl
  | @cons c s inter dst hcs _ ih =>
    cases q with
    | nil => cases hq
    | cons x q =>
      have hsub : (c.start - s.start).toNat = c.start.toNat - s.start.toNat :=
        UInt64.toNat_sub_of_le _ _ (le_iff_toNat_le.mpr hcs.1)
      have hhead : (c.start - s.start).toNat + x = x + c.start.toNat - s.start.toNat := by
        rw [hsub]
        have hle := hcs.1
        omega
      exact congrArg₂ List.cons hhead (ih (Nat.succ.inj hq))

section

variable (h : Nested inter dst) (h' : Nested inter src)

include h h'

theorem length_copyAxes :
    (copyAxes inter dst src).length = inter.length := by
  induction h generalizing src with
  | nil => rfl
  | cons _ _ ih =>
    cases h' with
    | cons _ h' => exact congrArg Nat.succ (ih h')

theorem map_copyAxes :
    (copyAxes inter dst src).map Axis.subv = inter.map Segment.count ∧
      (copyAxes inter dst src).map Axis.dst = dst.map Segment.count ∧
      (copyAxes inter dst src).map Axis.dstOffset =
        List.zipWith (fun c s : Segment => c.start - s.start) inter dst ∧
      (copyAxes inter dst src).map Axis.src = src.map Segment.count ∧
      (copyAxes inter dst src).map Axis.srcOffset =
        List.zipWith (fun c s : Segment => c.start - s.start) inter src := by
  induction h generalizing src with
  | nil =>
    cases h'
    exact ⟨rfl, rfl, rfl, rfl, rfl⟩
  | @cons c d inter dst _ _ ih =>
    cases h' with
    | @cons _ s _ src _ h' =>
      obtain ⟨hsubv, hdst, hdstOffset, hsrc, hsrcOffset⟩ := ih h'
      exact ⟨congrArg _ hsubv, congrArg _ hdst, congrArg _ hdstOffset, congrArg _ hsrc,
        congrArg _ hsrcOffset⟩

theorem inside_copyAxes :
    ∀ a ∈ copyAxes inter dst src, a.dstOffset.toNat + a.subv.toNat ≤ a.dst.toNat ∧
      a.srcOffset.toNat + a.subv.toNat ≤ a.src.toNat := by
  have hinside : ∀ {c s : Segment}, s.start.toNat ≤ c.start.toNat ∧ c.stop ≤ s.stop ∧
      0 < c.count.toNat → (c.start - s.start).toNat + c.count.toNat ≤ s.count.toNat :=
    fun {c s} hcs => by
      obtain ⟨hle, hstop, -⟩ := hcs
      rw [UInt64.toNat_sub_of_le _ _ (le_iff_toNat_le.mpr hle)]
      unfold Segment.stop at hstop
      omega
  induction h generalizing src with
  | nil =>
    intro a ha
    cases ha
  | @cons c d inter dst hcd _ ih =>
    cases h' with
    | @cons _ s _ src hcs h' =>
      intro a ha
      cases ha with
      | head => exact ⟨hinside hcd, hinside hcs⟩
      | tail _ ha => exact ih h' a ha

theorem subvolume_copyAxes :
    subvolume (copyAxes inter dst src) = sizes (inter.map Segment.span) := by
  rw [subvolume, dims, (map_copyAxes h h').1, sizes_span]

theorem place_copyAxes {q : List Nat} (hq : Within q (sizes (inter.map Segment.span))) :
    CopySubvolume.place Axis.dst Axis.dstOffset (copyAxes inter dst src) q =
        Grid.place (dst.map Segment.span) (globalCoords (inter.map Segment.span) q) ∧
      CopySubvolume.place Axis.src Axis.srcOffset (copyAxes inter dst src) q =
        Grid.place (src.map Segment.span) (globalCoords (inter.map Segment.span) q) := by
  obtain ⟨-, hdst, hdstOffset, hsrc, hsrcOffset⟩ := map_copyAxes h h'
  have hlen : q.length = inter.length := by
    rw [hq.length_eq, sizes, length_map, length_map]
  constructor
  · rw [CopySubvolume.place, dims, dims, hdst, hdstOffset, localCoords_copyAxes h hlen,
      Grid.place, sizes_span]
  · rw [CopySubvolume.place, dims, dims, hsrc, hsrcOffset, localCoords_copyAxes h' hlen,
      Grid.place, sizes_span]

end

end

def commonAxes (blk bb : List Segment) : List Axis := copyAxes (commonPart blk bb) bb blk

/-- The block and the user's box share elements, and their numbers come through: the ends through
the `int`s of the intersection, the dimensions into `tmp_point` and the strides, and the rounds of
the copy through its `int i`. -/
structure Copyable (blk bb : List Segment) : Prop where
  meets : Meets blk bb
  held : ∀ d ∈ blk.zip bb, Held d.1 d.2
  room : bb.length ≤ strideRoom
  loops : IntLoops
    (((commonAxes blk bb).map Axis.subv).take (lastNoncoveringDim (commonAxes blk bb)))

section

variable {blk bb : List Segment}

theorem nested_commonPart (h : blk.length = bb.length) (hends : Ends blk) (hmeets : Meets blk bb) :
    Nested (commonPart blk bb) bb ∧ Nested (commonPart blk bb) blk := by
  have helements := elements_commonPart h hends
  obtain ⟨p, hp⟩ := (meets_iff h).mp hmeets
  have hp := (helements p).mpr hp
  exact ⟨nested_of_subset hp fun q hq => ((helements q).mp hq).2,
    nested_of_subset hp fun q hq => ((helements q).mp hq).1⟩

theorem fills_patchDataBbToBb (mallocZero : Bool) (c : Call) (hnumeric : c.datumType.IsNumeric)
    (h : blk.length = bb.length) (hne : bb ≠ []) (hendsBlk : Ends blk) (hendsBb : Ends bb)
    (hcopyable : Copyable blk bb) (srcRaggedOffset : UInt64)
    (hbehind : ∀ p, Elements bb p → Elements blk p →
      srcRaggedOffset.toNat ≤ Grid.place (blk.map Segment.span) p)
    (hdst : Grid.volume (sizes (bb.map Segment.span)) * c.size < 18446744073709551616)
    (hsrc : Grid.volume (sizes (blk.map Segment.span)) * c.size < 18446744073709551616) :
    Heap.Fills c.size (fun mem => patchDataBbToBb mallocZero c mem 0 bb srcRaggedOffset blk)
      fun k e => ∃ p, Elements bb p ∧ Elements blk p ∧ k = Grid.place (bb.map Segment.span) p ∧
        e = c.moved (element c.src c.size
          (Grid.place (blk.map Segment.span) p - srcRaggedOffset.toNat)) := by
  obtain ⟨hmeets, hheld, hroom, hloops⟩ := hcopyable
  have hneBlk : blk ≠ [] := fun hc => by
    rw [hc] at h
    exact hne (length_eq_zero_iff.mp h.symm)
  have helements := elements_commonPart h hendsBlk
  obtain ⟨hnested, hnestedBlk⟩ := nested_commonPart h hendsBlk hmeets
  have hsub := subvolume_copyAxes hnested hnestedBlk
  have hlen := length_copyAxes hnested hnestedBlk
  have hplace := fun q => @place_copyAxes _ _ _ hnested hnestedBlk q
  -- the element at a place of the subvolume
  have hmem : ∀ q, Within q (subvolume (commonAxes blk bb)) →
      Elements blk (globalCoords ((commonPart blk bb).map Segment.span) q) ∧
        Elements bb (globalCoords ((commonPart blk bb).map Segment.span) q) := fun q hq =>
    (helements _).mp (contains_globalCoords (hsub ▸ hq))
  intro mem
  let copy : Copy := {
    call := c
    axes := commonAxes blk bb
    dstRaggedOffset := 0
    srcRaggedOffset := srcRaggedOffset
    dst := mem
    dstBytes := UInt64.ofNat (Grid.volume (sizes (bb.map Segment.span)) * c.size)
    srcBytes := UInt64.ofNat (Grid.volume (sizes (blk.map Segment.span)) * c.size)
    numeric := hnumeric
    ne := fun hc => by
      have hzero : (commonAxes blk bb).length = 0 := congrArg List.length hc
      rw [commonAxes, hlen, hnested.length_eq] at hzero
      exact hne (length_eq_zero_iff.mp hzero)
    dstFits := {
      inside := fun a ha => (inside_copyAxes hnested hnestedBlk a ha).1
      behind := fun _ _ => Nat.zero_le _
      room := fun q hq => by
        rw [commonAxes, (hplace q (hsub ▸ hq)).1, toNat_ofNat_of_lt' hdst]
        exact Nat.mul_le_mul_right _ (Grid.place_lt (hmem q hq).2) }
    srcFits := {
      inside := fun a ha => (inside_copyAxes hnested hnestedBlk a ha).2
      behind := fun q hq => by
        rw [commonAxes, (hplace q (hsub ▸ hq)).2]
        exact hbehind _ (hmem q hq).2 (hmem q hq).1
      room := fun q hq => by
        rw [commonAxes, (hplace q (hsub ▸ hq)).2, toNat_ofNat_of_lt' hsrc]
        have hlt := Grid.place_lt (hmem q hq).1
        exact Nat.mul_le_mul_right _ (by omega) } }
  have hlt : lastNoncoveringDim copy.axes < copy.axes.length := by
    have hpos : 0 < copy.axes.length := length_pos_iff.mpr copy.ne
    have hlt := lastNoncoveringLoop_lt 0 0 copy.axes (by omega)
    rwa [Nat.zero_add] at hlt
  have hroomAxes : copy.axes.length ≤ strideRoom := by
    show (commonAxes blk bb).length ≤ _
    rw [commonAxes, hlen, hnested.length_eq]
    exact hroom
  obtain ⟨out, hrun, hcopy⟩ := copy.run_spec (Nat.le_refl _) hlt hroomAxes hloops
  have hrun : copySubvolumeRaggedOffset c (commonAxes blk bb) 0 srcRaggedOffset mem =
      .ok (out, (commonAxes blk bb).map Axis.subv) := hrun
  have hinter := (intersectBbBb_of_held mallocZero h hneBlk hendsBlk hendsBb hmeets hheld).2
  refine ⟨out, ?_, fun k e hhas => ?_, fun a hout => hcopy.frame a fun q hq => ?_⟩
  · show patchDataBbToBb mallocZero c mem 0 bb srcRaggedOffset blk = _
    rw [patchDataBbToBb, hinter, ok_bind]
    show (copySubvolumeRaggedOffset c (commonAxes blk bb) 0 srcRaggedOffset mem >>= _) = _
    rw [hrun]
    rfl
  · obtain ⟨p, hbb, hblk, rfl, rfl⟩ := hhas
    have hcontains : Contains ((commonPart blk bb).map Segment.span) p :=
      (helements p).mpr ⟨hblk, hbb⟩
    have hq := within_localCoords hcontains
    have hmoved := hcopy.elements _ (hsub.symm ▸ hq)
    rw [Copy.dstPlace, Copy.srcPlace] at hmoved
    have hmoved : element out c.size (CopySubvolume.place Axis.dst Axis.dstOffset
        (copyAxes (commonPart blk bb) bb blk) _ - 0) = c.moved (element c.src c.size
          (CopySubvolume.place Axis.src Axis.srcOffset (copyAxes (commonPart blk bb) bb blk) _ -
            srcRaggedOffset.toNat)) := hmoved
    rw [(hplace _ hq).1, (hplace _ hq).2, globalCoords_localCoords hcontains] at hmoved
    exact hmoved
  · have hdstPlace : copy.dstPlace q = Grid.place (bb.map Segment.span)
        (globalCoords ((commonPart blk bb).map Segment.span) q) := (hplace q (hsub ▸ hq)).1
    rw [hdstPlace]
    exact hout _ _ ⟨_, (hmem q hq).2, (hmem q hq).1, rfl, rfl⟩

end

end Adios.Transforms
