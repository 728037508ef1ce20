import Adios.Core.Selections
import Adios.Core.WriteBlocks

/-!
# Core — the range that a selection is read with

`compute_sieving_offsets_for_pg_selection` gives the places of the first and behind the last element
of a process group that a selection takes, and `compute_linear_offset_in_volume` the place of an
element in the linear order.
-/

namespace Adios.Sieving

open List Subvolume Selections WriteBlocks Grid UInt64

/-! ## The code -/

/-- The loop of `compute_linear_offset_in_volume`, which comes from the last dimension: `ragged_off`
and `volume_so_far`. -/
def linearLoop : List UInt64 → List UInt64 → UInt64 × UInt64
  | x :: point, d :: dims =>
    let (raggedOff, volumeSoFar) := linearLoop point dims
    (raggedOff + x * volumeSoFar, volumeSoFar * d)
  | _, _ => (0, 1)

/-- `compute_linear_offset_in_volume` -/
def computeLinearOffsetInVolume (point dims : List UInt64) : UInt64 := (linearLoop point dims).1

/-- `compute_volume` -/
def computeVolume (dims : List UInt64) : UInt64 := dims.foldl (· * ·) 1

/-- `MAX_DIMS`: what `tmp_point` has room for. -/
def maxDims : Nat := 32

/-- `vector_sub` or `vector_add` with `tmp_point` as the destination. -/
def tmpPoint (f : UInt64 → UInt64 → UInt64) (vec1 vec2 : List UInt64) :
    Except Fault (List UInt64) :=
  if maxDims < vec1.length then .error .outOfBounds else .ok (List.zipWith f vec1 vec2)

inductive PgSelection where
  | writeBlock (wb : WriteBlock)
  | boundingBox (bb : List Segment)
  | points (pts : Points)

def sievePoint (pgbb : List Segment) (range : UInt64 × UInt64) (point : List UInt64) :
    Except Fault (UInt64 × UInt64) := do
  let tmp ← tmpPoint (· - ·) point (pgbb.map Segment.start)
  let pointOff := computeLinearOffsetInVolume tmp (pgbb.map Segment.count)
  let startOff := if pointOff < range.1 then pointOff else range.1
  let endOff := if pointOff > range.2 then pointOff else range.2
  return (startOff, endOff)

/-- `compute_sieving_offsets_for_pg_selection` -/
def computeSievingOffsets (sel : PgSelection) (pgbb : List Segment) :
    Except Fault (UInt64 × UInt64) :=
  match sel with
  | .writeBlock wb =>
    if wb.isSubPgSelection ≠ 0 then .ok (wb.elementOffset, wb.elementOffset + wb.nelements)
    else .ok (0, computeVolume (pgbb.map Segment.count))
  | .boundingBox bb => do
    let first ← tmpPoint (· - ·) (bb.map Segment.start) (pgbb.map Segment.start)
    let startOff := computeLinearOffsetInVolume first (pgbb.map Segment.count)
    let behind ← tmpPoint (· + ·) first (bb.map Segment.count)
    let last := behind.map (· - 1)
    let endOff := computeLinearOffsetInVolume last (pgbb.map Segment.count) + 1
    return (startOff, endOff)
  | .points pts => do
    let range ← (chunks pts.ndim pts.npoints pts.points).foldlM (sievePoint pgbb) (UInt64.ofNat
      18446744073709551615, 0)
    return (range.1, range.2 + 1)

/-! ## The statement -/

def PgSelection.Takes (pgbb : List Segment) : PgSelection → Nat → Prop
  | .writeBlock wb, n => if wb.isSubPgSelection ≠ 0 then
      wb.range.start.toNat ≤ n ∧ n < wb.range.stop else n < volume (sizes (pgbb.map Segment.span))
  | .boundingBox bb, n => ∃ p, Elements bb p ∧ n = place (pgbb.map Segment.span) p
  | .points pts, n => ∃ p, Selection.Has (.points pts) p ∧ n = place (pgbb.map Segment.span) p

def PgSelection.Within (pgbb : List Segment) : PgSelection → Prop
  | .writeBlock wb => wb.isSubPgSelection ≠ 0 →
      wb.range.stop ≤ volume (sizes (pgbb.map Segment.span))
  | .boundingBox bb => ∀ p, Elements bb p → Elements pgbb p
  | .points pts => pts.points.length = pts.npoints * pts.ndim ∧
      ∀ p, Selection.Has (.points pts) p → Elements pgbb p

structure Selected where
  pgbb : List Segment
  sel : PgSelection
  /-- The number of elements is a `uint64_t`. -/
  fits : volume (sizes (pgbb.map Segment.span)) < 18446744073709551616
  within : sel.Within pgbb
  some : ∃ n, sel.Takes pgbb n

def Selected.Sieved (s : Selected) : Prop :=
  ∃ startOff endOff, computeSievingOffsets s.sel s.pgbb = .ok (startOff, endOff) ∧
    (∀ n, s.sel.Takes s.pgbb n → startOff.toNat ≤ n ∧ n < endOff.toNat) ∧
    s.sel.Takes s.pgbb startOff.toNat ∧
    (∃ last, endOff.toNat = last + 1 ∧ s.sel.Takes s.pgbb last) ∧
    endOff.toNat ≤ volume (sizes (s.pgbb.map Segment.span))

def Selected.HasRoom (s : Selected) : Prop :=
  match s.sel with
  | .writeBlock _ => True
  | .boundingBox _ | .points _ => s.pgbb.length ≤ maxDims

/-! ## Places -/

theorem linearLoop_eq {point dims : List UInt64} (h : point.length = dims.length) :
    (linearLoop point dims).1.toNat =
        linear (dims.map UInt64.toNat) (point.map UInt64.toNat) % 18446744073709551616 ∧
      (linearLoop point dims).2.toNat = volume (dims.map UInt64.toNat) % 18446744073709551616 := by
  induction point generalizing dims with
  | nil =>
    obtain rfl := length_eq_zero_iff.mp h.symm
    exact ⟨rfl, rfl⟩
  | cons x point ih =>
    match dims, h with
    | d :: dims, h =>
      obtain ⟨hoff, hvol⟩ := ih (Nat.succ.inj h)
      refine ⟨?_, ?_⟩
      · show ((linearLoop point dims).1 + x * (linearLoop point dims).2).toNat = _
        rw [UInt64.toNat_add, UInt64.toNat_mul, hoff, hvol, map_cons, map_cons, linear,
          Nat.mul_mod_mod, ← Nat.add_mod, Nat.add_comm]
      · show ((linearLoop point dims).2 * d).toNat = _
        rw [UInt64.toNat_mul, hvol, map_cons, volume_cons, Nat.mod_mul_mod, Nat.mul_comm]

theorem computeLinearOffsetInVolume_eq {point dims : List UInt64}
    (h : Within (point.map UInt64.toNat) (dims.map UInt64.toNat))
    (hfits : volume (dims.map UInt64.toNat) < 18446744073709551616) :
    (computeLinearOffsetInVolume point dims).toNat =
      linear (dims.map UInt64.toNat) (point.map UInt64.toNat) := by
  have hlen : point.length = dims.length := by
    have hlen := h.length_eq
    rwa [length_map, length_map] at hlen
  have hlt := linear_lt h
  rw [computeLinearOffsetInVolume, (linearLoop_eq hlen).1]
  exact Nat.mod_eq_of_lt (by omega)

theorem computeVolume_eq {dims : List UInt64}
    (hfits : volume (dims.map UInt64.toNat) < 18446744073709551616) :
    (computeVolume dims).toNat = volume (dims.map UInt64.toNat) := by
  have hfold : ∀ (dims : List UInt64) (v : UInt64), (dims.foldl (· * ·) v).toNat =
      v.toNat * volume (dims.map UInt64.toNat) % 18446744073709551616 := fun dims => by
    induction dims with
    | nil =>
      intro v
      rw [foldl_nil, map_nil, volume_nil, Nat.mul_one]
      exact (Nat.mod_eq_of_lt v.toNat_lt).symm
    | cons d dims ih =>
      intro v
      rw [foldl_cons, ih, UInt64.toNat_mul, map_cons, volume_cons, ← Nat.mul_assoc, Nat.mod_mul_mod]
  rw [computeVolume, hfold, show (1 : UInt64).toNat = 1 from rfl, Nat.one_mul]
  exact Nat.mod_eq_of_lt hfits

theorem tmpPoint_eq {f : UInt64 → UInt64 → UInt64} {vec1 vec2 : List UInt64}
    (h : vec1.length ≤ maxDims) : tmpPoint f vec1 vec2 = .ok (List.zipWith f vec1 vec2) :=
  if_neg (Nat.not_lt.mpr h)

section

variable {pgbb : List Segment}

theorem sizes_span (pgbb : List Segment) :
    sizes (pgbb.map Segment.span) = (pgbb.map Segment.count).map UInt64.toNat := by
  rw [sizes, map_map, map_map]
  rfl

theorem localCoords_eq {pgbb : List Segment} {p : List UInt64}
    (h : Elements pgbb (p.map UInt64.toNat)) :
    (List.zipWith (· - ·) p (pgbb.map Segment.start)).map UInt64.toNat =
      localCoords (pgbb.map Segment.span) (p.map UInt64.toNat) := by
  induction pgbb generalizing p with
  | nil =>
    cases p with
    | nil => rfl
    | cons x p => cases h
  | cons s pgbb ih =>
    cases p with
    | nil => cases h
    | cons x p =>
      obtain ⟨hx, hp⟩ := contains_cons.mp h
      have hle : s.start.toNat ≤ x.toNat := hx.1
      have hsub : (x - s.start).toNat = x.toNat - s.start.toNat :=
        UInt64.toNat_sub_of_le _ _ (le_iff_toNat_le.mpr hle)
      show (x - s.start).toNat :: (List.zipWith (· - ·) p (pgbb.map Segment.start)).map _ = _
      rw [hsub, ih hp]
      rfl

theorem place_eq {q : List UInt64} {p : List Nat}
    (hfits : volume (sizes (pgbb.map Segment.span)) < 18446744073709551616)
    (hq : q.map UInt64.toNat = localCoords (pgbb.map Segment.span) p) (h : Elements pgbb p) :
    (computeLinearOffsetInVolume q (pgbb.map Segment.count)).toNat =
      place (pgbb.map Segment.span) p := by
  have hwithin := within_localCoords h
  rw [← hq, sizes_span] at hwithin
  rw [sizes_span] at hfits
  rw [computeLinearOffsetInVolume_eq hwithin hfits, hq, place, sizes_span]

def Nested (bb pgbb : List Segment) : Prop :=
  Forall₂ (fun b s => s.start.toNat ≤ b.start.toNat ∧ b.stop ≤ s.stop ∧ 0 < b.count.toNat)
    bb pgbb

theorem nested_of_subset {bb : List Segment} {p : List Nat} (hp : Elements bb p)
    (h : ∀ q, Elements bb q → Elements pgbb q) : Nested bb pgbb := by
  have hfirst := h _ (contains_corners hp).1
  have hlast := h _ (contains_corners hp).2
  clear h
  induction bb generalizing pgbb p with
  | nil =>
    cases pgbb with
    | nil => exact .nil
    | cons s pgbb => cases hfirst
  | cons b bb ih =>
    cases pgbb with
    | nil => cases hfirst
    | cons s pgbb =>
      cases hp with
      | @cons _ x _ p hx hp =>
        obtain ⟨hlo, hfirst⟩ := contains_cons.mp hfirst
        obtain ⟨hhi, hlast⟩ := contains_cons.mp hlast
        refine .cons ?_ (ih hp hfirst hlast)
        have hx : b.start.toNat ≤ x ∧ x < b.start.toNat + b.count.toNat := hx
        have hlo : s.start.toNat ≤ b.start.toNat ∧ _ := hlo
        have hhi : _ ∧ b.start.toNat + b.count.toNat - 1 < s.start.toNat + s.count.toNat := hhi
        unfold Segment.stop
        omega

/-- "`tmp_point[i]--`": the last element of a box, relative to the process group. -/
theorem lastCoords_eq {bb : List Segment} (h : Nested bb pgbb) :
    (((List.zipWith (· + ·) (List.zipWith (· - ·) (bb.map Segment.start) (pgbb.map Segment.start))
        (bb.map Segment.count)).map (· - 1)).map UInt64.toNat) =
      localCoords (pgbb.map Segment.span) (lastCorner (bb.map Segment.span)) := by
  induction h with
  | nil => rfl
  | @cons b s bb pgbb hbs _ ih =>
    have hcount := s.count.toNat_lt
    have hrel : (b.start - s.start + b.count - 1).toNat =
        b.start.toNat + b.count.toNat - 1 - s.start.toNat := by
      unfold Segment.stop at hbs
      have hsub : (b.start - s.start).toNat = b.start.toNat - s.start.toNat :=
        UInt64.toNat_sub_of_le _ _ (le_iff_toNat_le.mpr hbs.1)
      have hsum : (b.start - s.start + b.count).toNat =
          b.start.toNat - s.start.toNat + b.count.toNat := by
        rw [UInt64.toNat_add, hsub]
        omega
      rw [UInt64.toNat_sub_of_le _ _ (le_iff_toNat_le.mpr (by
        rw [hsum]
        show 1 ≤ _
        omega)), hsum]
      show _ - 1 = _
      omega
    show (b.start - s.start + b.count - 1).toNat :: _ = _
    rw [hrel, ih]
    rfl

theorem sievePoint_eq {p : List UInt64} (range : UInt64 × UInt64)
    (hfits : volume (sizes (pgbb.map Segment.span)) < 18446744073709551616)
    (h : Elements pgbb (p.map UInt64.toNat)) (hroom : pgbb.length ≤ maxDims) :
    ∃ range', sievePoint pgbb range p = .ok range' ∧
      range'.1.toNat = min range.1.toNat (place (pgbb.map Segment.span) (p.map UInt64.toNat)) ∧
      range'.2.toNat = max range.2.toNat (place (pgbb.map Segment.span) (p.map UInt64.toNat)) := by
  have hlen : p.length = pgbb.length := by
    have hlen := length_of_contains h
    rwa [length_map, length_map] at hlen
  refine ⟨_, by unfold sievePoint; rw [tmpPoint_eq (hlen ▸ hroom), ok_bind]; rfl, ?_⟩
  dsimp only
  rw [← place_eq hfits (localCoords_eq h) h]
  generalize computeLinearOffsetInVolume _ _ = off
  constructor
  · by_cases hlt : off < range.1
    · rw [if_pos hlt, Nat.min_eq_right (Nat.le_of_lt (lt_iff_toNat_lt.mp hlt))]
    · rw [if_neg hlt, Nat.min_eq_left]
      exact Nat.not_lt.mp fun hc => hlt (lt_iff_toNat_lt.mpr hc)
  · by_cases hlt : range.2 < off
    · rw [if_pos hlt, Nat.max_eq_right (Nat.le_of_lt (lt_iff_toNat_lt.mp hlt))]
    · rw [if_neg hlt, Nat.max_eq_left]
      exact Nat.not_lt.mp fun hc => hlt (lt_iff_toNat_lt.mpr hc)

theorem sievePoints_eq {ps : List (List UInt64)} (range : UInt64 × UInt64)
    (hfits : volume (sizes (pgbb.map Segment.span)) < 18446744073709551616)
    (h : ∀ p ∈ ps, Elements pgbb (p.map UInt64.toNat)) (hroom : pgbb.length ≤ maxDims) :
    ∃ range', ps.foldlM (sievePoint pgbb) range = .ok range' ∧
      (∀ p ∈ ps, range'.1.toNat ≤ place (pgbb.map Segment.span) (p.map UInt64.toNat) ∧
        place (pgbb.map Segment.span) (p.map UInt64.toNat) ≤ range'.2.toNat) ∧
      (range'.1.toNat = range.1.toNat ∨
        ∃ p ∈ ps, range'.1.toNat = place (pgbb.map Segment.span) (p.map UInt64.toNat)) ∧
      (range'.2.toNat = range.2.toNat ∨
        ∃ p ∈ ps, range'.2.toNat = place (pgbb.map Segment.span) (p.map UInt64.toNat)) ∧
      range'.1.toNat ≤ range.1.toNat ∧ range.2.toNat ≤ range'.2.toNat := by
  induction ps generalizing range with
  | nil =>
    exact ⟨range, rfl, fun p hp => (by cases hp), .inl rfl, .inl rfl, Nat.le_refl _, Nat.le_refl _⟩
  | cons p ps ih =>
    obtain ⟨range₁, hstep, hlo, hhi⟩ := sievePoint_eq range hfits (h p mem_cons_self) hroom
    obtain ⟨range', hrun, hbounds, hfirst, hlast, hle, hge⟩ :=
      ih range₁ fun q hq => h q (mem_cons_of_mem _ hq)
    refine ⟨range', by rw [List.foldlM_cons, hstep, ok_bind, hrun], ?_, ?_, ?_, ?_⟩
    · clear hfirst hlast
      intro q hq
      cases hq with
      | head => exact ⟨by omega, by omega⟩
      | tail _ hq => exact hbounds q hq
    · clear hlast
      cases hfirst with
      | inl heq =>
        cases Nat.le_total range.1.toNat
            (place (pgbb.map Segment.span) (p.map UInt64.toNat)) with
        | inl hle => exact .inl (by omega)
        | inr hle => exact .inr ⟨p, mem_cons_self, by omega⟩
      | inr hex =>
        obtain ⟨q, hq, heq⟩ := hex
        exact .inr ⟨q, mem_cons_of_mem _ hq, heq⟩
    · clear hfirst
      cases hlast with
      | inl heq =>
        cases Nat.le_total (place (pgbb.map Segment.span) (p.map UInt64.toNat))
            range.2.toNat with
        | inl hle => exact .inl (by omega)
        | inr hle => exact .inr ⟨p, mem_cons_self, by omega⟩
      | inr hex =>
        obtain ⟨q, hq, heq⟩ := hex
        exact .inr ⟨q, mem_cons_of_mem _ hq, heq⟩
    · clear hfirst hlast
      exact ⟨by omega, by omega⟩

end

/-! ## The three kinds of selections -/

namespace Selected

variable {s : Selected}

theorem sieved_writeBlock {wb : WriteBlock} (h : s.sel = .writeBlock wb) : s.Sieved := by
  have hwithin := s.within
  obtain ⟨n, hn⟩ := s.some
  have hfits := s.fits
  unfold Sieved
  rw [h] at hwithin hn ⊢
  by_cases hsub : wb.isSubPgSelection = 0
  · have hvolume := hfits
    rw [sizes_span] at hvolume
    refine ⟨0, _, if_neg (not_not.mpr hsub), ?_⟩
    rw [computeVolume_eq hvolume, ← sizes_span]
    unfold PgSelection.Takes at hn ⊢
    simp only [if_neg (not_not.mpr hsub)] at hn ⊢
    have hzero : (0 : UInt64).toNat = 0 := rfl
    rw [hzero]
    exact ⟨fun m hm => ⟨Nat.zero_le _, hm⟩, by omega,
      ⟨volume (sizes (s.pgbb.map Segment.span)) - 1, by omega, by omega⟩, Nat.le_refl _⟩
  · have hstop : wb.elementOffset.toNat + wb.nelements.toNat ≤ _ := hwithin hsub
    have hsum : (wb.elementOffset + wb.nelements).toNat =
        wb.elementOffset.toNat + wb.nelements.toNat := by
      rw [UInt64.toNat_add]
      exact Nat.mod_eq_of_lt (by omega)
    refine ⟨_, _, if_pos hsub, ?_⟩
    rw [hsum]
    unfold PgSelection.Takes at hn ⊢
    simp only [if_pos hsub] at hn ⊢
    have hn : wb.elementOffset.toNat ≤ n ∧ n < wb.elementOffset.toNat + wb.nelements.toNat := hn
    refine ⟨fun m hm => hm, ⟨Nat.le_refl _, ?_⟩,
      ⟨wb.elementOffset.toNat + wb.nelements.toNat - 1, by omega, ?_, ?_⟩, hstop⟩
    · show wb.elementOffset.toNat < wb.elementOffset.toNat + wb.nelements.toNat
      omega
    · show wb.elementOffset.toNat ≤ _
      omega
    · show _ < wb.elementOffset.toNat + wb.nelements.toNat
      omega

theorem sieved_boundingBox {bb : List Segment} (h : s.sel = .boundingBox bb)
    (hroom : s.pgbb.length ≤ maxDims) : s.Sieved := by
  have hwithin := s.within
  obtain ⟨n, hn⟩ := s.some
  have hfits := s.fits
  unfold Sieved
  rw [h] at hwithin hn ⊢
  obtain ⟨p, hp, -⟩ := hn
  have hnested := nested_of_subset hp hwithin
  have hlen : bb.length = s.pgbb.length := hnested.length_eq
  obtain ⟨hfirst, hlast⟩ := contains_corners hp
  have hfirstCorner : firstCorner (bb.map Segment.span) =
      (bb.map Segment.start).map UInt64.toNat := by
    rw [firstCorner, map_map, map_map]
    rfl
  have hstart := place_eq hfits (localCoords_eq (hfirstCorner ▸ hwithin _ hfirst))
    (hfirstCorner ▸ hwithin _ hfirst)
  have hend := place_eq hfits (lastCoords_eq hnested) (hwithin _ hlast)
  have hlt := place_lt (hwithin _ hlast)
  rw [← hfirstCorner] at hstart
  have htmp : tmpPoint (· - ·) (bb.map Segment.start) (s.pgbb.map Segment.start) = .ok _ :=
    tmpPoint_eq (by rw [length_map, hlen]; exact hroom)
  have htmp' : tmpPoint (· + ·) (List.zipWith (· - ·) (bb.map Segment.start)
      (s.pgbb.map Segment.start)) (bb.map Segment.count) = .ok _ :=
    tmpPoint_eq (by
      rw [length_zipWith, length_map, length_map, hlen, Nat.min_self]
      exact hroom)
  refine ⟨_, _, (by
    unfold computeSievingOffsets
    dsimp only
    rw [htmp, ok_bind, htmp', ok_bind]
    rfl), ?_⟩
  rw [hstart]
  have hsucc : ∀ x : UInt64, x.toNat = place (s.pgbb.map Segment.span) (lastCorner
      (bb.map Segment.span)) → (x + 1).toNat = x.toNat + 1 := fun x hx => by
    rw [UInt64.toNat_add]
    exact Nat.mod_eq_of_lt (show x.toNat + 1 < 18446744073709551616 by omega)
  rw [hsucc _ hend, hend]
  refine ⟨?_, ⟨_, hfirst, rfl⟩, ⟨_, rfl, _, hlast, rfl⟩, hlt⟩
  intro m hm
  obtain ⟨q, hq, rfl⟩ := hm
  obtain ⟨hlo, hhi⟩ := between_corners hq
  exact ⟨place_mono hlo, Nat.lt_succ_of_le (place_mono hhi)⟩

theorem exists_point {pts : Points} {n : Nat} (h : s.sel = .points pts)
    (hn : s.sel.Takes s.pgbb n) : ∃ p ∈ chunks pts.ndim pts.npoints pts.points,
      n = place (s.pgbb.map Segment.span) (p.map UInt64.toNat) := by
  rw [h] at hn
  obtain ⟨p, hp, rfl⟩ := hn
  obtain ⟨q, hq, rfl⟩ := mem_map.mp hp
  exact ⟨q, hq, rfl⟩

theorem elements_of_mem {pts : Points} {p : List UInt64} (h : s.sel = .points pts)
    (hp : p ∈ chunks pts.ndim pts.npoints pts.points) : Elements s.pgbb (p.map UInt64.toNat) := by
  have hwithin := s.within
  rw [h] at hwithin
  exact hwithin.2 _ (mem_map_of_mem hp)

theorem sieved_points {pts : Points} (h : s.sel = .points pts)
    (hroom : s.pgbb.length ≤ maxDims) : s.Sieved := by
  obtain ⟨n, hn⟩ := s.some
  obtain ⟨p, hp, -⟩ := exists_point h hn
  have helements := fun q hq => elements_of_mem h (p := q) hq
  obtain ⟨range, hrun, hbounds, hfirst, hlast, -, -⟩ :=
    sievePoints_eq (UInt64.ofNat 18446744073709551615, 0) s.fits helements hroom
  -- "Set it to max so that the first point brings it down": no place is the largest number.
  have hlt := fun q hq => place_lt (helements q hq)
  have hfits := s.fits
  have hfirst : ∃ q ∈ chunks pts.ndim pts.npoints pts.points,
      range.1.toNat = place (s.pgbb.map Segment.span) (q.map UInt64.toNat) := by
    cases hfirst with
    | inl heq =>
      have hmax : range.1.toNat = 18446744073709551615 := heq
      have hle := (hbounds p hp).1
      have hplace := hlt p hp
      omega
    | inr hex => exact hex
  have hlast : ∃ q ∈ chunks pts.ndim pts.npoints pts.points,
      range.2.toNat = place (s.pgbb.map Segment.span) (q.map UInt64.toNat) := by
    cases hlast with
    | inl heq =>
      have hzero : range.2.toNat = 0 := heq
      have hge := (hbounds p hp).2
      exact ⟨p, hp, by omega⟩
    | inr hex => exact hex
  obtain ⟨first, hfirstMem, hfirst⟩ := hfirst
  obtain ⟨last, hlastMem, hlast⟩ := hlast
  have hlastLt := hlt last hlastMem
  have hsucc : (range.2 + 1).toNat = range.2.toNat + 1 := by
    rw [UInt64.toNat_add]
    exact Nat.mod_eq_of_lt (show range.2.toNat + 1 < 18446744073709551616 by omega)
  have hrun : computeSievingOffsets s.sel s.pgbb = .ok (range.1, range.2 + 1) := by
    rw [h]
    unfold computeSievingOffsets
    dsimp only
    rw [hrun]
    rfl
  refine ⟨range.1, range.2 + 1, hrun, ?_⟩
  rw [hsucc]
  refine ⟨?_, ?_, ⟨_, rfl, ?_⟩, by omega⟩
  · intro m hm
    obtain ⟨q, hq, rfl⟩ := exists_point h hm
    obtain ⟨hlo, hhi⟩ := hbounds q hq
    exact ⟨hlo, Nat.lt_succ_of_le hhi⟩
  · rw [h, hfirst]
    exact ⟨_, mem_map_of_mem hfirstMem, rfl⟩
  · rw [h, hlast]
    exact ⟨_, mem_map_of_mem hlastMem, rfl⟩

/-! ## More dimensions than the scratch array has -/

theorem tmpPoint_error {f : UInt64 → UInt64 → UInt64} {vec1 vec2 : List UInt64}
    (h : maxDims < vec1.length) : tmpPoint f vec1 vec2 = .error .outOfBounds :=
  if_pos h

theorem not_sieved_of_error {e : Fault} (h : computeSievingOffsets s.sel s.pgbb = .error e) :
    ¬s.Sieved := by
  intro hsieved
  obtain ⟨_, _, hok, -⟩ := hsieved
  rw [h] at hok
  cases hok

theorem computeSievingOffsets_points {pts : Points} (hsel : s.sel = .points pts)
    (hlt : maxDims < s.pgbb.length) :
    computeSievingOffsets s.sel s.pgbb = .error .outOfBounds := by
  obtain ⟨n, hn⟩ := s.some
  obtain ⟨p, hp, -⟩ := exists_point hsel hn
  rw [hsel]
  unfold computeSievingOffsets
  dsimp only
  cases hps : chunks pts.ndim pts.npoints pts.points with
  | nil =>
    rw [hps] at hp
    cases hp
  | cons q ps =>
    have hq := elements_of_mem hsel (hps ▸ mem_cons_self)
    have hlen : q.length = s.pgbb.length := by
      have hlen := length_of_contains hq
      rwa [length_map, length_map] at hlen
    have hfirst : sievePoint s.pgbb (UInt64.ofNat 18446744073709551615, 0) q =
        .error .outOfBounds := by
      unfold sievePoint
      rw [tmpPoint_error (hlen ▸ hlt), error_bind]
    rw [List.foldlM_cons, hfirst, error_bind, error_bind]

theorem hasRoom_of_sieved (h : s.Sieved) : s.HasRoom := by
  obtain ⟨n, hn⟩ := s.some
  cases hsel : s.sel with
  | writeBlock wb =>
    unfold HasRoom
    rw [hsel]
    trivial
  | boundingBox bb =>
    unfold HasRoom
    rw [hsel]
    refine Nat.not_lt.mp fun hlt => not_sieved_of_error (e := .outOfBounds) ?_ h
    have hwithin := s.within
    rw [hsel] at hwithin hn ⊢
    obtain ⟨p, hp, -⟩ := hn
    have hlen : bb.length = s.pgbb.length := (nested_of_subset hp hwithin).length_eq
    unfold computeSievingOffsets
    dsimp only
    rw [tmpPoint_error (by rw [length_map, hlen]; exact hlt), error_bind]
  | points pts =>
    unfold HasRoom
    rw [hsel]
    exact Nat.not_lt.mp fun hlt => not_sieved_of_error (computeSievingOffsets_points hsel hlt) h

/-- The range of a selection is the smallest one with all its elements exactly if the scratch array
has room for a point. -/
theorem sieved_iff (s : Selected) : s.Sieved ↔ s.HasRoom := by
  refine ⟨hasRoom_of_sieved, fun h => ?_⟩
  unfold HasRoom at h
  cases hsel : s.sel with
  | writeBlock wb => exact sieved_writeBlock hsel
  | boundingBox bb =>
    rw [hsel] at h
    exact sieved_boundingBox hsel h
  | points pts =>
    rw [hsel] at h
    exact sieved_points hsel h

end Selected

def manyDims : List Segment := List.replicate 33 ⟨0, 1⟩

theorem elements_manyDims : Elements manyDims (List.replicate 33 0) := by
  unfold manyDims Elements
  rw [map_replicate]
  decide

def wholeManyDims : Selected where
  pgbb := manyDims
  sel := .boundingBox manyDims
  fits := by decide
  within := fun _ h => h
  some := ⟨_, _, elements_manyDims, rfl⟩

/-- The start in each of the 33 dimensions is written into an array of 32. -/
theorem not_sieved_wholeManyDims : ¬wholeManyDims.Sieved :=
  Selected.not_sieved_of_error (e := .outOfBounds) rfl

end Adios.Sieving
