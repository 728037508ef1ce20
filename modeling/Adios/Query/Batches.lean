import Adios.Grid.StorageOrder
import Adios.Query.SetBits
import Mathlib.Data.List.Perm.Subperm

/-!
# Adios — the batches of a query's results

A result bitmap that is asked for one batch after the other. What a call leaves in the query is
where the next call goes on: the last hit that was returned.
-/

namespace Adios

open List UInt64

def BoundingBox.dims (bb : BoundingBox) : List Nat := bb.count.map UInt64.toNat

/-- The point of the element at place `n` of a box. -/
def pointOf (corder : Bool) (bb : BoundingBox) (n : Nat) : List UInt64 :=
  List.zipWith (· + ·) bb.start ((Grid.coordsIn corder bb.dims n).map UInt64.ofNat)

def ridPoint (corder : Bool) (bb : BoundingBox) (n : Nat) : List UInt64 :=
  pointOf corder bb (n % 2 ^ 32)

def AlacBitmap.after (b : AlacBitmap) (done : List Nat) : AlacBitmap :=
  { b with lastConvRid := (done.getLast?.map UInt64.ofNat).getD (b.realElmSize + 1) }

theorem ridRemainders_eq {dimSize : List UInt64}
    (hdims : 0 < Grid.volume (dimSize.map UInt64.toNat))
    (rid : UInt64) :
    ridRemainders dimSize rid =
      .ok ((Grid.digits (dimSize.map UInt64.toNat) rid.toNat).map UInt64.ofNat) := by
  induction dimSize generalizing rid with
  | nil => rfl
  | cons d dimSize ih =>
    rw [map_cons, Grid.volume_cons] at hdims
    have hd : 0 < d.toNat := Nat.pos_of_mul_pos_right hdims
    have hd' : d ≠ 0 := by
      rintro rfl
      exact absurd hd (by decide)
    rw [ridRemainders, if_neg hd', ih (Nat.pos_of_mul_pos_left hdims)]
    simp only [bind, Except.bind, pure, Except.pure, map_cons, Grid.digits, UInt64.toNat_div]
    rw [← UInt64.toNat_mod, UInt64.ofNat_toNat]

theorem ridToCoordinates_eq (corder : Bool) {dimSize : List UInt64} {rid : Rid}
    (h : rid.toNat < Grid.volume (dimSize.map UInt64.toNat)) :
    ridToCoordinates corder rid dimSize =
      .ok ((Grid.coordsIn corder (dimSize.map UInt64.toNat) rid.toNat).map UInt64.ofNat) := by
  have hpos := Nat.lt_of_le_of_lt (Nat.zero_le _) h
  rw [← UInt32.toNat_toUInt64] at h ⊢
  unfold ridToCoordinates Grid.coordsIn Grid.slowestFirst
  cases corder with
  | true =>
    rw [← Grid.volume_reverse, ← map_reverse] at hpos
    simp only [if_true, ridRemainders_eq hpos, bind, Except.bind, pure, Except.pure]
    rw [Grid.coords_eq_digits h, map_reverse, map_reverse]
  | false =>
    rw [← Grid.volume_reverse] at h
    simp only [Bool.false_eq_true, if_false]
    rw [ridRemainders_eq hpos, Grid.coords_eq_digits h, reverse_reverse, reverse_reverse]

variable {r : Retrieval} {size : UInt64} {points : List (List UInt64)} {q : AlacQuery}

theorem emitPoint_eq {rid : UInt64} (points : List (List UInt64))
    (hndim : r.bb.count.length ≤ maxDims)
    (hroom : r.bb.count.length * (points.length + 1) ≤ r.capacity)
    (hrid : rid.toNat < Grid.volume r.bb.dims) :
    emitPoint r rid points = .ok (points ++ [ridPoint r.corder r.bb rid.toNat]) := by
  have hlow : rid.toUInt32.toNat = rid.toNat % 2 ^ 32 := toNat_toUInt32 rid
  have hlt : rid.toUInt32.toNat < Grid.volume r.bb.dims := by
    rw [hlow]
    exact Nat.lt_of_le_of_lt (Nat.mod_le ..) hrid
  have hbounds : ¬(maxDims < r.bb.count.length ∨
      r.capacity < r.bb.count.length * (points.length + 1)) := by omega
  rw [emitPoint, if_neg hbounds, ridToCoordinates_eq r.corder hlt, ridPoint, ← hlow]
  rfl

/-! ## Retrieval -/

abbrev Retrieval.Fresh (r : Retrieval) (rid : UInt64) : Prop :=
  isLastConvRidInit r.b ∨ r.b.lastConvRid < rid

theorem retrievePoints_skip {skipped : List UInt64} (hskip : ∀ rid ∈ skipped, ¬r.Fresh rid)
    (hsize : size ≠ 0) (rids : List UInt64) :
    retrievePoints r size (skipped ++ rids) [] = retrievePoints r size rids [] := by
  induction skipped with
  | nil => rfl
  | cons rid skipped ih =>
    have hstale : ¬(isLastConvRidInit r.b ∨ r.b.lastConvRid < rid) :=
      hskip rid (mem_cons_self ..)
    have hgo : ¬UInt64.ofNat ([] : List (List UInt64)).length = size := fun h => hsize h.symm
    rw [cons_append, retrievePoints, if_neg hstale]
    simp only [bind, Except.bind, if_neg hgo]
    exact ih fun rid hrid => hskip rid (mem_cons_of_mem _ hrid)

theorem retrievePoints_take {taken : List UInt64} {last : UInt64} (points : List (List UInt64))
    (left : List UInt64) (hndim : r.bb.count.length ≤ maxDims)
    (hroom : r.bb.count.length * size.toNat ≤ r.capacity)
    (hsize : points.length + taken.length + 1 = size.toNat)
    (hrids : ∀ rid ∈ taken ++ [last], r.Fresh rid ∧ rid.toNat < Grid.volume r.bb.dims) :
    retrievePoints r size (taken ++ last :: left) points =
      .ok (points ++ (taken ++ [last]).map (fun rid => ridPoint r.corder r.bb rid.toNat),
        { r.b with lastConvRid := last }) := by
  have hmono : ∀ n ≤ size.toNat, r.bb.count.length * n ≤ r.capacity := fun n hn =>
    Nat.le_trans (Nat.mul_le_mul_left _ hn) hroom
  induction taken generalizing points with
  | nil =>
    obtain ⟨hfresh, hlt⟩ := hrids last (mem_cons_self ..)
    have hemit := emitPoint_eq points hndim (hmono _ (by simp at hsize; omega)) hlt
    have hstop : UInt64.ofNat (points ++ [ridPoint r.corder r.bb last.toNat]).length = size := by
      rw [length_append, length_singleton]
      simp only [length_nil, Nat.add_zero] at hsize
      rw [hsize, UInt64.ofNat_toNat]
    rw [nil_append, retrievePoints, if_pos hfresh, hemit]
    simp only [bind, Except.bind, if_pos hstop]
    rfl
  | cons rid taken ih =>
    obtain ⟨hfresh, hlt⟩ := hrids rid (mem_cons_self ..)
    rw [length_cons] at hsize
    have hemit := emitPoint_eq points hndim (hmono _ (by omega)) hlt
    have hgo : ¬UInt64.ofNat (points ++ [ridPoint r.corder r.bb rid.toNat]).length = size := by
      intro h
      have hnat := congrArg UInt64.toNat h
      have hbound := size.toNat_lt
      rw [length_append, length_singleton, toNat_ofNat', Nat.mod_eq_of_lt (by omega)] at hnat
      omega
    rw [cons_append, retrievePoints, if_pos hfresh, hemit]
    simp only [bind, Except.bind, if_neg hgo]
    rw [ih _ (by rw [length_append, length_singleton]; omega) fun rid' h =>
      hrids rid' (mem_cons_of_mem _ h)]
    simp only [append_assoc, cons_append, nil_append, map_cons]

theorem emitPoint_room {rid : UInt64} {points' : List (List UInt64)}
    (h : emitPoint r rid points = .ok points') :
    points'.length = points.length + 1 ∧ r.bb.count.length ≤ maxDims ∧
      r.bb.count.length * points'.length ≤ r.capacity := by
  unfold emitPoint at h
  split_ifs at h with hbounds
  obtain ⟨coordinates, _, h⟩ := exists_of_bind_eq_ok h
  cases h
  rw [length_append, length_singleton]
  omega

theorem retrievePoints_room {rids : List UInt64} {points' : List (List UInt64)} {b' : AlacBitmap}
    (h : retrievePoints r size rids points = .ok (points', b')) :
    points' = points ∨
      r.bb.count.length ≤ maxDims ∧ r.bb.count.length * points'.length ≤ r.capacity := by
  induction rids generalizing points with
  | nil =>
    cases h
    exact .inl rfl
  | cons rid rids ih =>
    rw [retrievePoints] at h
    by_cases hfresh : r.Fresh rid
    · rw [if_pos hfresh] at h
      obtain ⟨next, hemit, h⟩ := exists_of_bind_eq_ok h
      obtain ⟨_, hndim, hroom⟩ := emitPoint_room hemit
      refine .inr ⟨hndim, ?_⟩
      simp only [] at h
      split_ifs at h
      · cases h
        exact hroom
      · rcases ih h with rfl | ⟨_, hroom'⟩
        · exact hroom
        · exact hroom'
    · rw [if_neg hfresh] at h
      simp only [bind, Except.bind] at h
      split_ifs at h
      · cases h
        exact .inl rfl
      · exact ih h

/-- A bitmap as `adios_alac_process` makes it: it has a word for every 64 elements, and no bit is
set for what is not an element. -/
structure AlacBitmap.Wf (b : AlacBitmap) : Prop where
  slots : b.length = bitSlots b.realElmSize
  bits : b.bits.length = b.length.toNat
  below : ∀ r ∈ hits b.words, r < b.realElmSize.toNat

section Wf

variable {b : AlacBitmap} (h : b.Wf)
include h

theorem AlacBitmap.Wf.words_eq : b.words = b.bits := by
  rw [AlacBitmap.words, ← h.bits, take_length]

theorem AlacBitmap.Wf.lt_of_mem {r : Nat} (hr : r ∈ hits b.words) : r < 2 ^ 64 :=
  Nat.lt_trans (h.below r hr) b.realElmSize.toNat_lt

theorem AlacBitmap.Wf.toNat_lastConvRid_init {r : Nat} (hr : r ∈ hits b.words) :
    (b.realElmSize + 1).toNat = b.realElmSize.toNat + 1 := by
  have hwords : 0 < b.length.toNat := by
    have hlt : r < 64 * b.words.length := mem_range.mp (mem_of_mem_filter hr)
    rw [h.words_eq, h.bits] at hlt
    omega
  have hbound := b.realElmSize.toNat_lt
  rw [h.slots, bitSlots] at hwords
  rw [UInt64.toNat_add]
  have hone : (1 : UInt64).toNat = 1 := rfl
  have hsum : (b.realElmSize + 64 - 1).toNat = (b.realElmSize.toNat + 63) % 2 ^ 64 := by
    have hminus : b.realElmSize + 64 - 1 = b.realElmSize + 63 := by grind
    rw [hminus, UInt64.toNat_add]
    rfl
  rw [UInt64.toNat_div, hsum] at hwords
  have h64 : (64 : UInt64).toNat = 64 := rfl
  rw [h64] at hwords
  omega

theorem AlacBitmap.Wf.length_hits_lt : (hits b.words).length < 2 ^ 64 := by
  have hnodup : (hits b.words).Nodup := (pairwise_hits _).imp Nat.ne_of_lt
  have hsub : hits b.words ⊆ List.range b.realElmSize.toNat := fun r hr =>
    mem_range.mpr (h.below r hr)
  have hle := (subperm_of_subset hnodup hsub).length_le
  rw [length_range] at hle
  exact Nat.lt_of_le_of_lt hle b.realElmSize.toNat_lt

theorem AlacBitmap.Wf.memstream (done : List Nat) :
    convertMemstreamToAlacBitmap (some (convertAlacBitmapToMemstream (b.after done))) =
      .ok (b.after done) := by
  have hwords : (b.after done).words = b.bits := h.words_eq
  have hlength : (b.after done).length.toNat ≤ b.bits.length := h.bits.ge
  rw [convertAlacBitmapToMemstream, hwords]
  simp only [cons_append, nil_append, convertMemstreamToAlacBitmap, if_pos hlength]
  rw [show (b.after done).length = b.length from rfl, ← h.bits, take_length]
  rfl

end Wf

/-! ## One batch -/

theorem isLastConvRidInit_after_nil (b : AlacBitmap) : isLastConvRidInit (b.after []) = true := by
  simp [AlacBitmap.after, isLastConvRidInit]

@[simp] theorem lastConvRid_after_concat (b : AlacBitmap) (done : List Nat) (d : Nat) :
    (b.after (done ++ [d])).lastConvRid = UInt64.ofNat d := by
  simp [AlacBitmap.after]

theorem AlacBitmap.Wf.toNat_ofNat {b : AlacBitmap} (h : b.Wf) {r : Nat} (hr : r ∈ hits b.words) :
    (UInt64.ofNat r).toNat = r := by
  rw [toNat_ofNat', Nat.mod_eq_of_lt (h.lt_of_mem hr)]

theorem AlacBitmap.Wf.isLastConvRidInit_after {b : AlacBitmap} (h : b.Wf)
    (done : List Nat) {d : Nat}
    (hd : d ∈ hits b.words) : isLastConvRidInit (b.after (done ++ [d])) = false := by
  have hne : UInt64.ofNat d ≠ b.realElmSize + 1 := by
    intro heq
    have hnat := congrArg UInt64.toNat heq
    have hlt := h.below d hd
    rw [h.toNat_lastConvRid_init hd, h.toNat_ofNat hd] at hnat
    omega
  rw [isLastConvRidInit, lastConvRid_after_concat]
  exact decide_eq_false hne

section Batch

variable {b : AlacBitmap} (h : b.Wf) {done rest : List Nat} (hhits : hits b.words = done ++ rest)
include h hhits

theorem AlacBitmap.Wf.fresh_of_mem {r : Nat} (hr : r ∈ rest) :
    isLastConvRidInit (b.after done) ∨ (b.after done).lastConvRid < UInt64.ofNat r := by
  have hmem : r ∈ hits b.words := hhits ▸ mem_append_right _ hr
  rcases eq_nil_or_concat' done with rfl | ⟨done, d, rfl⟩
  · exact .inl (isLastConvRidInit_after_nil b)
  · have hd : d ∈ hits b.words := by simp [hhits]
    have hlt : d < r := by
      have hsorted := pairwise_hits b.words
      rw [hhits] at hsorted
      exact (pairwise_append.mp hsorted).2.2 d (by simp) r hr
    refine .inr ?_
    rw [lastConvRid_after_concat, lt_iff_toNat_lt, h.toNat_ofNat hd, h.toNat_ofNat hmem]
    exact hlt

theorem AlacBitmap.Wf.stale_of_mem {r : Nat} (hr : r ∈ done) :
    ¬(isLastConvRidInit (b.after done) ∨ (b.after done).lastConvRid < UInt64.ofNat r) := by
  have hmem : r ∈ hits b.words := hhits ▸ mem_append_left _ hr
  rcases eq_nil_or_concat' done with rfl | ⟨done, d, rfl⟩
  · exact absurd hr not_mem_nil
  · have hd : d ∈ hits b.words := by simp [hhits]
    have hle : r ≤ d := by
      have hsorted := pairwise_hits b.words
      rw [hhits] at hsorted
      have hdone := (pairwise_append.mp hsorted).1
      rcases mem_append.mp hr with hr | hr
      · exact Nat.le_of_lt ((pairwise_append.mp hdone).2.2 r hr d (mem_singleton_self d))
      · exact Nat.le_of_eq (mem_singleton.mp hr)
    rw [h.isLastConvRidInit_after done hd, lastConvRid_after_concat, lt_iff_toNat_lt,
      h.toNat_ofNat hd, h.toNat_ofNat hmem]
    simp only [Bool.false_eq_true, false_or]
    omega

theorem AlacBitmap.Wf.startPos_le {r : Nat} (hr : r ∈ rest) :
    64 * (if isLastConvRidInit (b.after done) then 0
      else ((b.after done).lastConvRid / 64).toNat) ≤ r := by
  have hmem : r ∈ hits b.words := hhits ▸ mem_append_right _ hr
  have hfresh := h.fresh_of_mem hhits hr
  split_ifs with hinit
  · omega
  · rcases hfresh with hinit' | hlt
    · exact absurd hinit' hinit
    · rw [lt_iff_toNat_lt, h.toNat_ofNat hmem] at hlt
      have h64 : (64 : UInt64).toNat = 64 := rfl
      rw [UInt64.toNat_div, h64]
      omega

theorem AlacBitmap.Wf.retrievalPointsNd_after (corder : Bool) {bb : BoundingBox} {capacity : Nat}
    {size : UInt64} {taken left : List Nat} {last : Nat} (hrest : rest = taken ++ last :: left)
    (hplace : ∀ r ∈ hits b.words, r < Grid.volume bb.dims)
    (hndim : bb.count.length ≤ maxDims) (hroom : bb.count.length * size.toNat ≤ capacity)
    (hsize : taken.length + 1 = size.toNat) :
    retrievalPointsNd ⟨b.after done, corder, bb, capacity⟩ size =
      .ok ((taken ++ [last]).map (ridPoint corder bb), b.after (done ++ (taken ++ [last]))) := by
  have hpos : size ≠ 0 := by
    rintro rfl
    simp at hsize
  unfold retrievalPointsNd
  simp only
  generalize hstart : (if isLastConvRidInit (b.after done) then 0
    else ((b.after done).lastConvRid / 64).toNat) = startPos
  have hkept : rest.filter (64 * startPos ≤ ·) = rest := by
    refine filter_eq_self.mpr fun r hr => decide_eq_true ?_
    have hle := h.startPos_le hhits hr
    rwa [hstart] at hle
  have hrids : ridsFrom startPos ((b.after done).words.drop startPos) =
      .ok ((done.filter (64 * startPos ≤ ·)).map UInt64.ofNat ++ rest.map UInt64.ofNat) := by
    rw [ridsFrom_drop, show (b.after done).words = b.words from rfl, hhits, filter_append,
      hkept, map_append]
  rw [hrids]
  simp only [bind, Except.bind]
  rw [retrievePoints_skip ?_ hpos, hrest, map_append, map_cons,
    retrievePoints_take [] _ hndim hroom (by simpa using hsize)]
  · rw [nil_append, AlacBitmap.after, AlacBitmap.after, ← append_assoc, List.getLast?_concat,
      Option.map_some, Option.getD_some, ← map_singleton, ← map_append, map_map]
    refine congrArg (fun points => Except.ok (points, _)) (map_congr_left fun r hr => ?_)
    have hmem : r ∈ hits b.words := by
      rw [hhits, hrest]
      simp only [mem_append, mem_cons, not_mem_nil, or_false] at hr ⊢
      tauto
    rw [Function.comp_apply, h.toNat_ofNat hmem]
  · intro rid hrid
    rw [← map_singleton, ← map_append] at hrid
    obtain ⟨r, hr, rfl⟩ := mem_map.mp hrid
    have hr' : r ∈ rest := by
      rw [hrest]
      simp only [mem_append, mem_cons, not_mem_nil, or_false] at hr ⊢
      tauto
    have hmem : r ∈ hits b.words := hhits ▸ mem_append_right _ hr'
    refine ⟨h.fresh_of_mem hhits hr', ?_⟩
    rw [h.toNat_ofNat hmem]
    exact hplace r hmem
  · intro rid hrid
    obtain ⟨r, hr, rfl⟩ := mem_map.mp hrid
    exact h.stale_of_mem hhits (mem_of_mem_filter hr)

end Batch

/-! ## Successive batches -/

/-- The results of calls for batches of these sizes, `remaining` being the elements that were not
returned before. -/
def expectedBatches (point : Nat → List UInt64) :
    List UInt64 → List Nat → List (Bool × Option (List (List UInt64)))
  | [], _ => []
  | _ :: batchSizes, [] => (false, none) :: expectedBatches point batchSizes []
  | batchSize :: batchSizes, remaining =>
    (batchSize.toNat < remaining.length, some ((remaining.take batchSize.toNat).map point)) ::
      expectedBatches point batchSizes (remaining.drop batchSize.toNat)

/-- Calls for batches of any positive sizes return the points of the hits in their order, and the
memory that keeps the bitmap between two calls gives it back. -/
def EnumeratesHits (corder : Bool) (b : AlacBitmap) (absoluteTimestep : Int) (bb : BoundingBox)
    (q : AlacQuery) : Prop :=
  (∀ batchSizes : List UInt64, (∀ size ∈ batchSizes, 0 < size) →
    queryAlacEvaluateAll corder b absoluteTimestep bb batchSizes q =
      .ok (expectedBatches (pointOf corder bb) batchSizes (hits b.words))) ∧
  ∀ done : List Nat, done <+: hits b.words →
    convertMemstreamToAlacBitmap (some (convertAlacBitmapToMemstream (b.after done))) =
      .ok (b.after done)

/-- Without a hit, an earlier evaluation left memory to read a bitmap from; with hits, the
coordinates of a point have a place, the bytes of all points can be counted, and the number of each
hit is one of 32 bits. -/
def BatchesFit (b : AlacBitmap) (bb : BoundingBox) (q : AlacQuery) : Prop :=
  (hits b.words = [] → q.queryInternal.isSome) ∧
  (hits b.words ≠ [] → bb.count.length ≤ maxDims ∧
    8 * (bb.count.length * (hits b.words).length) < 2 ^ 64) ∧
  ∀ r ∈ hits b.words, r < 2 ^ 32

structure AlacQuery.Counts (q : AlacQuery) (b : AlacBitmap) (done : List Nat) : Prop where
  desired : q.maxResultsDesired = UInt64.ofNat (hits b.words).length
  soFar : q.resultsReadSoFar = UInt64.ofNat done.length

structure AlacQuery.Returned (q : AlacQuery) (absoluteTimestep : Int) (b : AlacBitmap)
    (done : List Nat) : Prop extends q.Counts b done where
  onTimeStep : q.onTimeStep = absoluteTimestep
  internal : done ≠ [] → q.queryInternal = some (convertAlacBitmapToMemstream (b.after done))
  noHits : done = [] → hits b.words = [] ∧
    ∃ b', convertMemstreamToAlacBitmap q.queryInternal = .ok b'

section Evaluate

variable {b : AlacBitmap} (h : b.Wf) {done rest : List Nat} (hhits : hits b.words = done ++ rest)
include h hhits

theorem AlacBitmap.Wf.toNat_remaining {q : AlacQuery} (hq : q.Counts b done) :
    (q.maxResultsDesired - q.resultsReadSoFar).toNat = rest.length := by
  have hbound := h.length_hits_lt
  rw [hq.desired, hq.soFar]
  rw [hhits, length_append] at hbound ⊢
  rw [ofNat_add, UInt64.add_comm, UInt64.add_sub_cancel, toNat_ofNat']
  exact Nat.mod_eq_of_lt (by omega)

theorem AlacBitmap.Wf.evaluate_done (corder : Bool) {absoluteTimestep : Int} (bb : BoundingBox)
    (batchSize : UInt64) {q q' : AlacQuery} {b' : AlacBitmap}
    (hopen : openBitmap b absoluteTimestep q = .ok (b', q')) (hq : q'.Counts b done)
    (hrest : rest = []) :
    queryAlacEvaluate corder b absoluteTimestep bb batchSize q = .ok (false, none, q') := by
  have hzero : q'.maxResultsDesired - q'.resultsReadSoFar = 0 := by
    have hnat := h.toNat_remaining hhits hq
    rw [hrest] at hnat
    exact UInt64.toNat_inj.mp hnat
  simp only [queryAlacEvaluate, hopen, hzero, bind, Except.bind, if_true]
  rfl

def retrievalSizeOf (q : AlacQuery) (batchSize : UInt64) : UInt64 :=
  if q.maxResultsDesired - q.resultsReadSoFar > batchSize then batchSize
  else q.maxResultsDesired - q.resultsReadSoFar

theorem AlacBitmap.Wf.toNat_retrievalSizeOf {q : AlacQuery} (hq : q.Counts b done)
    (batchSize : UInt64) :
    (retrievalSizeOf q batchSize).toNat = min batchSize.toNat rest.length := by
  have hremaining := h.toNat_remaining hhits hq
  unfold retrievalSizeOf
  split_ifs with hlt
  · rw [gt_iff_lt, lt_iff_toNat_lt, hremaining] at hlt
    exact (Nat.min_eq_left (Nat.le_of_lt hlt)).symm
  · rw [gt_iff_lt, lt_iff_toNat_lt, hremaining, Nat.not_lt] at hlt
    rw [hremaining, Nat.min_eq_right hlt]

theorem AlacBitmap.Wf.evaluate_batch (corder : Bool) {absoluteTimestep : Int} {bb : BoundingBox}
    {batchSize : UInt64} {q q' : AlacQuery}
    (hopen : openBitmap b absoluteTimestep q = .ok (b.after done, q')) (hq : q'.Counts b done)
    (hstep : q'.onTimeStep = absoluteTimestep) (hrest : rest ≠ []) (hbatch : 0 < batchSize)
    (hplace : ∀ r ∈ hits b.words, r < Grid.volume bb.dims)
    (hndim : bb.count.length ≤ maxDims)
    (hroom : 8 * (bb.count.length * (hits b.words).length) < 2 ^ 64) :
    ∃ q'' : AlacQuery,
      queryAlacEvaluate corder b absoluteTimestep bb batchSize q =
        .ok (batchSize.toNat < rest.length,
          some ((rest.take batchSize.toNat).map (ridPoint corder bb)), q'') ∧
      q''.Returned absoluteTimestep b (done ++ rest.take batchSize.toNat) := by
  have hsize := h.toNat_retrievalSizeOf hhits hq batchSize
  have hremaining := h.toNat_remaining hhits hq
  have hlength : 0 < rest.length := length_pos_iff.mpr hrest
  have hsome : ¬q'.maxResultsDesired - q'.resultsReadSoFar = 0 := by
    intro hzero
    rw [hzero] at hremaining
    exact absurd hremaining (Nat.ne_of_lt hlength)
  rw [lt_iff_toNat_lt] at hbatch
  have hzero : (0 : UInt64).toNat = 0 := rfl
  generalize hval : retrievalSizeOf q' batchSize = size at hsize
  have htake : rest.take batchSize.toNat = rest.take size.toNat := by
    rw [hsize, ← take_take, take_length]
  obtain ⟨taken, last, htaken⟩ : ∃ taken last, rest.take size.toNat = taken ++ [last] := by
    rcases eq_nil_or_concat' (rest.take size.toNat) with hnil | hconcat
    · rcases take_eq_nil_iff.mp hnil with hnil | hnil
      · omega
      · exact absurd hnil hrest
    · exact hconcat
  have hsplit : rest = taken ++ last :: rest.drop size.toNat := by
    conv_lhs => rw [← take_append_drop size.toNat rest, htaken]
    simp
  have htakenLength : taken.length + 1 = size.toNat := by
    have hlen := congrArg List.length htaken
    rw [length_take, length_append, length_singleton] at hlen
    omega
  have hcapacity : bb.count.length * size.toNat ≤
      (size * UInt64.ofNat bb.count.length * 8).toNat / 8 := by
    have hle : size.toNat ≤ (hits b.words).length := by
      rw [hhits, length_append]
      omega
    have hmul := Nat.mul_le_mul_left bb.count.length hle
    have hndim' : bb.count.length % 2 ^ 64 = bb.count.length :=
      Nat.mod_eq_of_lt (Nat.lt_of_le_of_lt hndim (by decide))
    have h8 : (8 : UInt64).toNat = 8 := rfl
    rw [UInt64.toNat_mul, UInt64.toNat_mul, toNat_ofNat', hndim', h8, Nat.mul_comm size.toNat]
    omega
  have hget := h.retrievalPointsNd_after hhits corder hsplit hplace hndim hcapacity htakenLength
  refine ⟨{ q' with
    queryInternal := some (convertAlacBitmapToMemstream (b.after (done ++ (taken ++ [last]))))
    resultsReadSoFar := q'.resultsReadSoFar + size }, ?_, ?_⟩
  · have hmore : (q'.resultsReadSoFar + size < q'.maxResultsDesired) =
        (batchSize.toNat < rest.length) := by
      have hbound := h.length_hits_lt
      rw [hhits, length_append] at hbound
      rw [hq.desired, hq.soFar, lt_iff_toNat_lt, UInt64.toNat_add, toNat_ofNat',
        toNat_ofNat', hhits, length_append, hsize]
      refine propext ⟨fun hlt => ?_, fun hlt => ?_⟩ <;> omega
    unfold retrievalSizeOf at hval
    simp only [queryAlacEvaluate, hopen, bind, Except.bind, if_neg hsome, hval,
      buildResultsBoundingBox, hget, pure, Except.pure, hmore]
    rw [htake, htaken]
  · rw [htake, htaken]
    refine ⟨⟨hq.desired, ?_⟩, hstep, fun _ => rfl, fun hnil => ?_⟩
    · show q'.resultsReadSoFar + size = _
      rw [hq.soFar, ← htaken, length_append, length_take, ofNat_add,
        Nat.min_eq_left (by omega), UInt64.ofNat_toNat]
    · simp at hnil

end Evaluate

/-! ## Runs -/

theorem AlacQuery.Returned.openBitmap_eq {absoluteTimestep : Int} {b : AlacBitmap} {done : List Nat}
    (hq : q.Returned absoluteTimestep b done) (h : b.Wf) (hdone : done ≠ []) :
    openBitmap b absoluteTimestep q = .ok (b.after done, q) := by
  have hsame : ¬q.onTimeStep ≠ absoluteTimestep := fun hne => hne hq.onTimeStep
  rw [openBitmap, if_neg hsame, hq.internal hdone, h.memstream]
  rfl

theorem AlacQuery.Returned.openBitmap_noHits {absoluteTimestep : Int} {b : AlacBitmap}
    (hq : q.Returned absoluteTimestep b []) :
    ∃ b', openBitmap b absoluteTimestep q = .ok (b', q) := by
  have hsame : ¬q.onTimeStep ≠ absoluteTimestep := fun hne => hne hq.onTimeStep
  obtain ⟨_, b', hread⟩ := hq.noHits rfl
  refine ⟨b', ?_⟩
  rw [openBitmap, if_neg hsame, hread]
  rfl

theorem openBitmap_new (b : AlacBitmap) {absoluteTimestep : Int}
    (hnew : q.onTimeStep ≠ absoluteTimestep) :
    ∃ q' : AlacQuery, openBitmap b absoluteTimestep q = .ok (b.after [], q') ∧ q'.Counts b [] ∧
      q'.onTimeStep = absoluteTimestep ∧ q'.queryInternal = q.queryInternal := by
  rw [openBitmap, if_pos hnew]
  exact ⟨_, rfl, ⟨calSetBitsNum_eq _, rfl⟩, rfl, rfl⟩

section Runs

variable (corder : Bool) {b : AlacBitmap} (h : b.Wf) {absoluteTimestep : Int} {bb : BoundingBox}
  (hplace : ∀ r ∈ hits b.words, r < Grid.volume bb.dims)
  (hfits : hits b.words ≠ [] → bb.count.length ≤ maxDims ∧
    8 * (bb.count.length * (hits b.words).length) < 2 ^ 64)
include h hplace hfits

theorem AlacBitmap.Wf.evaluateAll_returned {batchSizes : List UInt64}
    (hbatches : ∀ size ∈ batchSizes, 0 < size) {q : AlacQuery} {done rest : List Nat}
    (hhits : hits b.words = done ++ rest) (hq : q.Returned absoluteTimestep b done) :
    queryAlacEvaluateAll corder b absoluteTimestep bb batchSizes q =
      .ok (expectedBatches (ridPoint corder bb) batchSizes rest) := by
  induction batchSizes generalizing q done rest with
  | nil => rfl
  | cons batchSize batchSizes ih =>
    have hbatch := hbatches batchSize (mem_cons_self ..)
    have hlater := fun size hsize => hbatches size (mem_cons_of_mem batchSize hsize)
    rw [queryAlacEvaluateAll]
    cases rest with
    | nil =>
      have hopen : ∃ b', openBitmap b absoluteTimestep q = .ok (b', q) := by
        by_cases hdone : done = []
        · exact AlacQuery.Returned.openBitmap_noHits (hdone ▸ hq)
        · exact ⟨_, hq.openBitmap_eq h hdone⟩
      obtain ⟨b', hopen⟩ := hopen
      have hcall := h.evaluate_done hhits corder bb batchSize hopen hq.toCounts rfl
      simp only [hcall, ih hlater hhits hq, bind, Except.bind, pure, Except.pure]
      rfl
    | cons r rest =>
      have hdone : done ≠ [] := by
        intro hdone
        have hnone := (hq.noHits hdone).1
        rw [hhits] at hnone
        simp at hnone
      have hsome : hits b.words ≠ [] := by simp [hhits]
      obtain ⟨hndim, hroom⟩ := hfits hsome
      obtain ⟨q', hcall, hq'⟩ := h.evaluate_batch hhits corder
        (hq.openBitmap_eq h hdone) hq.toCounts hq.onTimeStep (by simp) hbatch hplace hndim hroom
      have hhits' : hits b.words = (done ++ (r :: rest).take batchSize.toNat) ++
          (r :: rest).drop batchSize.toNat := by
        rw [append_assoc, take_append_drop, hhits]
      simp only [hcall, ih hlater hhits' hq', bind, Except.bind, pure, Except.pure]
      rfl

theorem AlacBitmap.Wf.evaluateAll_new {batchSizes : List UInt64}
    (hbatches : ∀ size ∈ batchSizes, 0 < size) {q : AlacQuery}
    (hnew : q.onTimeStep ≠ absoluteTimestep)
    (hnone : hits b.words = [] → ∃ b', convertMemstreamToAlacBitmap q.queryInternal = .ok b') :
    queryAlacEvaluateAll corder b absoluteTimestep bb batchSizes q =
      .ok (expectedBatches (ridPoint corder bb) batchSizes (hits b.words)) := by
  cases batchSizes with
  | nil => rfl
  | cons batchSize batchSizes =>
    have hbatch := hbatches batchSize (mem_cons_self ..)
    have hlater := fun size hsize => hbatches size (mem_cons_of_mem batchSize hsize)
    obtain ⟨q', hopen, hq', hstep, hinternal⟩ := openBitmap_new b hnew
    rw [queryAlacEvaluateAll]
    cases hrest : hits b.words with
    | nil =>
      have hcall := h.evaluate_done
        ((nil_append _).trans hrest.symm).symm corder bb batchSize hopen
        hq' rfl
      have hreturned : q'.Returned absoluteTimestep b [] :=
        ⟨hq', hstep, nofun, fun _ => ⟨hrest, by rw [hinternal]; exact hnone hrest⟩⟩
      have hall := AlacBitmap.Wf.evaluateAll_returned corder h hplace hfits hlater hrest hreturned
      simp only [hcall, hall, bind, Except.bind, pure, Except.pure]
      rfl
    | cons r rest =>
      obtain ⟨hndim, hroom⟩ := hfits (by simp [hrest])
      obtain ⟨q'', hcall, hq''⟩ :=
        h.evaluate_batch ((nil_append _).trans hrest.symm).symm corder
        hopen hq' hstep (by simp) hbatch hplace hndim hroom
      have hhits' : hits b.words = ([] ++ (r :: rest).take batchSize.toNat) ++
          (r :: rest).drop batchSize.toNat := by
        rw [nil_append, take_append_drop, hrest]
      have hall := AlacBitmap.Wf.evaluateAll_returned corder h hplace hfits hlater hhits' hq''
      simp only [hcall, hall, bind, Except.bind, pure, Except.pure]
      rfl

end Runs

/-! ## What the calls need -/

theorem ridPoint_of_lt (corder : Bool) (bb : BoundingBox) {n : Nat} (h : n < 2 ^ 32) :
    ridPoint corder bb n = pointOf corder bb n := by
  rw [ridPoint, Nat.mod_eq_of_lt h]

theorem expectedBatches_congr {point point' : Nat → List UInt64} {remaining : List Nat}
    (h : ∀ r ∈ remaining, point r = point' r) (batchSizes : List UInt64) :
    expectedBatches point batchSizes remaining = expectedBatches point' batchSizes remaining := by
  induction batchSizes generalizing remaining with
  | nil => rfl
  | cons batchSize batchSizes ih =>
    cases remaining with
    | nil => exact congrArg _ (ih h)
    | cons r remaining =>
      have hfirst := map_congr_left fun r' (hr : r' ∈ (r :: remaining).take batchSize.toNat) =>
        h r' (mem_of_mem_take hr)
      have hrest := ih fun r' (hr : r' ∈ (r :: remaining).drop batchSize.toNat) =>
        h r' (mem_of_mem_drop hr)
      simp only [expectedBatches, hfirst, hrest]

theorem zipWith_add_cancel {start xs ys : List UInt64} (hx : xs.length = start.length)
    (hy : ys.length = start.length)
    (h : List.zipWith (· + ·) start xs = List.zipWith (· + ·) start ys) : xs = ys := by
  induction start generalizing xs ys with
  | nil => rw [eq_nil_of_length_eq_zero hx, eq_nil_of_length_eq_zero hy]
  | cons s start ih =>
    match xs, ys, hx, hy with
    | x :: xs, y :: ys, hx, hy =>
      rw [zipWith_cons_cons, zipWith_cons_cons, List.cons.injEq] at h
      rw [(UInt64.add_right_inj s).mp h.1, ih (Nat.succ.inj hx) (Nat.succ.inj hy) h.2]

theorem map_ofNat_toNat {dims : List UInt64} {p : List Nat}
    (h : Grid.Within p (dims.map UInt64.toNat)) : (p.map UInt64.ofNat).map UInt64.toNat = p := by
  rw [Grid.Within, forall₂_map_right_iff] at h
  induction h with
  | nil => rfl
  | @cons i d p dims hi _ ih =>
    rw [map_cons, map_cons, ih, toNat_ofNat', Nat.mod_eq_of_lt (Nat.lt_trans hi d.toNat_lt)]

theorem pointOf_injective (corder : Bool) {bb : BoundingBox} {m n : Nat}
    (hm : m < Grid.volume bb.dims) (hn : n < Grid.volume bb.dims)
    (h : pointOf corder bb m = pointOf corder bb n) : m = n := by
  have hlength (k : Nat) (hk : k < Grid.volume bb.dims) :
      ((Grid.coordsIn corder bb.dims k).map UInt64.ofNat).length = bb.start.length := by
    rw [length_map, (Grid.within_coordsIn corder hk).length_eq, BoundingBox.dims,
      length_map, bb.start_length]
  have hback (k : Nat) (hk : k < Grid.volume bb.dims) :
      ((Grid.coordsIn corder bb.dims k).map UInt64.ofNat).map UInt64.toNat =
        Grid.coordsIn corder bb.dims k := map_ofNat_toNat (Grid.within_coordsIn corder hk)
  have hcoords := congrArg (List.map UInt64.toNat)
    (zipWith_add_cancel (hlength m hm) (hlength n hn) h)
  rw [hback m hm, hback n hn] at hcoords
  rw [← Grid.linearIn_coordsIn corder hm, hcoords, Grid.linearIn_coordsIn corder hn]

theorem queryAlacEvaluate_room {corder : Bool} {b : AlacBitmap} (h : b.Wf) {absoluteTimestep : Int}
    {bb : BoundingBox} {q' : AlacQuery} (hnew : q.onTimeStep ≠ absoluteTimestep) {more : Bool}
      (hcall : queryAlacEvaluate corder b absoluteTimestep bb 0xffffffffffffffff q = .ok (more, some
      points, q')) (hpoints : points.length = (hits b.words).length) (hsome : hits b.words ≠ []) :
    bb.count.length ≤ maxDims ∧ 8 * (bb.count.length * (hits b.words).length) < 2 ^ 64 := by
  obtain ⟨q₁, hopen, hq₁, -, -⟩ := openBitmap_new b hnew
  have hsize : retrievalSizeOf q₁ 0xffffffffffffffff = UInt64.ofNat (hits b.words).length := by
    have hmin := h.toNat_retrievalSizeOf (nil_append _).symm hq₁ 0xffffffffffffffff
    have hbound := h.length_hits_lt
    have hmax : (0xffffffffffffffff : UInt64).toNat = 2 ^ 64 - 1 := rfl
    rw [hmax, Nat.min_eq_right (by omega)] at hmin
    rw [← hmin, UInt64.ofNat_toNat]
  unfold retrievalSizeOf at hsize
  unfold queryAlacEvaluate at hcall
  simp only [hopen, bind, Except.bind, hsize] at hcall
  split_ifs at hcall with hzero
  · cases hcall
  · cases hbuild : buildResultsBoundingBox corder bb (b.after [])
        (UInt64.ofNat (hits b.words).length) with
    | error fault =>
      rw [hbuild] at hcall
      cases hcall
    | ok result =>
      rw [hbuild] at hcall
      simp only [pure, Except.pure, Except.ok.injEq, Prod.mk.injEq, Option.some.injEq] at hcall
      unfold buildResultsBoundingBox retrievalPointsNd at hbuild
      obtain ⟨rids, -, hretrieve⟩ := exists_of_bind_eq_ok hbuild
      rcases retrievePoints_room hretrieve with hnil | ⟨hndim, hroom⟩
      · rw [← hcall.2.1, hnil] at hpoints
        exact absurd (length_eq_zero_iff.mp hpoints.symm) hsome
      · refine ⟨hndim, ?_⟩
        have hbound := h.length_hits_lt
        have hndim' : bb.count.length % 2 ^ 64 = bb.count.length :=
          Nat.mod_eq_of_lt (Nat.lt_of_le_of_lt hndim (by decide))
        have h8 : (8 : UInt64).toNat = 8 := rfl
        simp only [hcall.2.1, hpoints, UInt64.toNat_mul, toNat_ofNat', hndim', h8,
          Nat.mod_eq_of_lt hbound, Nat.mul_comm (hits b.words).length] at hroom
        omega

theorem AlacBitmap.Wf.lt_of_batch {corder : Bool} {b : AlacBitmap} (h : b.Wf)
    {absoluteTimestep : Int} {bb : BoundingBox} {q' : AlacQuery}
    (hplace : ∀ r ∈ hits b.words, r < Grid.volume bb.dims) (hnew : q.onTimeStep ≠ absoluteTimestep)
    {more : Bool} (hcall : queryAlacEvaluate corder b absoluteTimestep bb 0xffffffffffffffff q = .ok
      (more, some ((hits b.words).map (pointOf corder bb)), q')) (hndim : bb.count.length ≤ maxDims)
    (hroom : 8 * (bb.count.length * (hits b.words).length) < 2 ^ 64) :
    ∀ r ∈ hits b.words, r < 2 ^ 32 := by
  intro r hr
  obtain ⟨q₁, hopen, hq₁, hstep, -⟩ := openBitmap_new b hnew
  have hbound := h.length_hits_lt
  have hmax : (0xffffffffffffffff : UInt64).toNat = 2 ^ 64 - 1 := rfl
  obtain ⟨_, hbatch, -⟩ := h.evaluate_batch (nil_append _).symm corder hopen hq₁ hstep
    (ne_nil_of_mem hr) (by decide : (0 : UInt64) < 0xffffffffffffffff) hplace hndim hroom
  rw [hmax, take_of_length_le (by omega), hcall] at hbatch
  simp only [Except.ok.injEq, Prod.mk.injEq, Option.some.injEq] at hbatch
  have hpoint := (map_inj_left.mp hbatch.2.1) r hr
  have hlow := Nat.lt_of_le_of_lt (Nat.mod_le r (2 ^ 32)) (hplace r hr)
  rw [pointOf_injective corder (hplace r hr) hlow hpoint]
  exact Nat.mod_lt r (by decide)

/-- Exactly then the batches enumerate the hits: without a hit a repeated call reads a bitmap from
the memory that the first call did not allocate. -/
theorem enumeratesHits_iff (corder : Bool) {b : AlacBitmap} (h : b.Wf) {absoluteTimestep : Int}
    {bb : BoundingBox} (hplace : ∀ r ∈ hits b.words, r < Grid.volume bb.dims) {q : AlacQuery}
    (hnew : q.onTimeStep ≠ absoluteTimestep)
    (hinternal : ∀ mem ∈ q.queryInternal, ∃ b', convertMemstreamToAlacBitmap (some mem) = .ok b') :
    EnumeratesHits corder b absoluteTimestep bb q ↔ BatchesFit b bb q := by
  constructor
  · rintro ⟨hall, -⟩
    have hroom (hsome : hits b.words ≠ []) : bb.count.length ≤ maxDims ∧
        8 * (bb.count.length * (hits b.words).length) < 2 ^ 64 ∧
        ∀ r ∈ hits b.words, r < 2 ^ 32 := by
      have hone := hall [0xffffffffffffffff] (by simp)
      have hmax : (0xffffffffffffffff : UInt64).toNat = 2 ^ 64 - 1 := rfl
      have hbound := h.length_hits_lt
      obtain ⟨result, hcall, hrest⟩ := exists_of_bind_eq_ok hone
      obtain ⟨rest, -, hrest⟩ := exists_of_bind_eq_ok hrest
      obtain ⟨r, remaining, hhits⟩ := exists_cons_of_ne_nil hsome
      rw [hhits] at hrest
      simp only [expectedBatches, pure, Except.pure, Except.ok.injEq, List.cons.injEq,
        Prod.mk.injEq] at hrest
      obtain ⟨more, points, q'⟩ := result
      obtain ⟨⟨-, hpoints⟩, -⟩ := hrest
      simp only at hpoints
      rw [← hhits, hmax, take_of_length_le (by omega)] at hpoints
      rw [hpoints] at hcall
      obtain ⟨hndim, hbytes⟩ := queryAlacEvaluate_room h hnew hcall (length_map _) hsome
      exact ⟨hndim, hbytes, h.lt_of_batch hplace hnew hcall hndim hbytes⟩
    refine ⟨fun hnone => ?_, fun hsome => ⟨(hroom hsome).1, (hroom hsome).2.1⟩, fun r hr =>
      (hroom (ne_nil_of_mem hr)).2.2 r hr⟩
    · -- the second of two calls is the one that goes wrong
      have htwo := hall [1, 1] (by simp)
      obtain ⟨q', hopen, hq', hstep, hsame⟩ := openBitmap_new b hnew
      have hfirst := h.evaluate_done ((nil_append _).trans hnone.symm).symm corder bb 1 hopen
        hq' rfl
      cases hmem : q.queryInternal with
      | some mem => rfl
      | none =>
        have hagain : ¬q'.onTimeStep ≠ absoluteTimestep := fun hne => hne hstep
        have hsecond : queryAlacEvaluate corder b absoluteTimestep bb 1 q' =
          .error .wildPointer := by
          rw [queryAlacEvaluate, openBitmap, if_neg hagain, hsame, hmem]
          rfl
        simp only [queryAlacEvaluateAll, hfirst, hsecond, bind, Except.bind] at htwo
        cases htwo
  · rintro ⟨hnone, hsome, hlow⟩
    refine ⟨fun batchSizes hbatches => ?_, fun done _ => h.memstream done⟩
    rw [← expectedBatches_congr fun r hr => ridPoint_of_lt corder bb (hlow r hr)]
    refine AlacBitmap.Wf.evaluateAll_new corder h hplace hsome hbatches hnew fun hnil => ?_
    obtain ⟨mem, hmem⟩ := Option.isSome_iff_exists.mp (hnone hnil)
    rw [hmem]
    exact hinternal mem hmem

def rowBitmap : AlacBitmap := ⟨[5], 1, 2, 3, 0⟩

def emptyBitmap : AlacBitmap := ⟨[0], 1, 0, 3, 0⟩

def rowBox : BoundingBox := ⟨[10], [3], rfl⟩

def newQuery : AlacQuery := ⟨-1, 0, 0, none⟩

theorem rowBitmap_wf : rowBitmap.Wf := ⟨by decide, by decide, by decide +kernel⟩

theorem enumeratesHits_rowBitmap :
    EnumeratesHits true rowBitmap 0 rowBox newQuery :=
  (enumeratesHits_iff true rowBitmap_wf (by decide +kernel) (by decide) (by simp [newQuery])).mpr
    ⟨by decide +kernel, by decide +kernel, by decide +kernel⟩

theorem not_enumeratesHits_emptyBitmap :
    emptyBitmap.Wf ∧ (∀ r ∈ hits emptyBitmap.words, r < Grid.volume rowBox.dims) ∧
      newQuery.onTimeStep ≠ 0 ∧ newQuery.queryInternal = none ∧
      ¬EnumeratesHits true emptyBitmap 0 rowBox newQuery := by
  refine ⟨⟨by decide, by decide, by decide +kernel⟩, by decide +kernel, by decide, rfl, ?_⟩
  rintro ⟨hall, -⟩
  have htwo : queryAlacEvaluateAll true emptyBitmap 0 rowBox [1, 1] newQuery =
      .error .wildPointer := by decide +kernel
  have hok := hall [1, 1] (by simp)
  rw [htwo] at hok
  cases hok

end Adios
