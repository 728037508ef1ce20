import Adios.Core.Intersection
import Adios.Types

/-!
# Core — intersections of global selections

`adios_selection_intersect_global`: bounding boxes and lists of points, the points one behind the
other in an array. What an array is allocated for, what is written into it and what `realloc` leaves
of it are told apart.
-/

namespace Adios.Selections

open List Subvolume UInt64

/-! ## The code -/

/-- `ADIOS_SELECTION_POINTS_STRUCT`; `points` is what the array has room for. -/
structure Points where
  ndim : Nat
  npoints : Nat
  points : List UInt64
  deriving DecidableEq

/-- `ADIOS_SELECTION`; a bounding box is the list of its dimensions. -/
inductive Selection where
  | boundingBox (box : List Segment)
  | points (pts : Points)
  | writeblock
  | auto
  deriving DecidableEq

def chunks (ndim : Nat) : Nat → List UInt64 → List (List UInt64)
  | 0, _ => []
  | n + 1, words => words.take ndim :: chunks ndim n (words.drop ndim)

/-- What "`for (ptr = points; ptr < end_ptr; ptr += ndim)`" goes through. -/
def Points.visited (pts : Points) : List (List UInt64) :=
  if pts.ndim = 0 then [] else chunks pts.ndim pts.npoints pts.points

/-- "`memcpy (new_pts_ptr, pts_ptr, ndim * sizeof (uint64_t))`" for each of some points, into an
array of a size. -/
def output (capacity : Nat) (out : List UInt64) : List (List UInt64) → Except Fault (List UInt64)
  | [] => .ok out
  | p :: ps =>
    if capacity < out.length + p.length then .error .outOfBounds
    else output capacity (out ++ p) ps

/-- Whether `malloc` returns a pointer; `mallocZero` says if it does for a size of 0. -/
def mallocs (mallocZero : Bool) (size : Nat) : Bool := 0 < size || mallocZero

/-- `adios_selection_intersect_bb_bb` -/
def intersectBbBb (mallocZero : Bool) (bb1 bb2 : List Segment) : Except Fault (Option Selection) :=
  if bb1.length ≠ bb2.length then .error .assertion
  -- "Cannot allocate memory"
  else if ¬mallocs mallocZero bb1.length then .ok none
  else .ok ((intersectVolumes bb1 bb2).map fun r =>
    .boundingBox (r.map fun c => ⟨c.offset, c.dims⟩))

/-- The test of `adios_selection_intersect_bb_pts` for a point. -/
def inBox (bb : List Segment) (p : List UInt64) : Bool :=
  (bb.zip p).all fun d => ¬(d.2 < d.1.start ∨ d.2 ≥ d.1.start + d.1.count)

/-- `adios_selection_intersect_bb_pts` -/
def intersectBbPts (mallocZero : Bool) (bb1 : List Segment) (pts2 : Points) :
    Except Fault (Option Selection) :=
  if bb1.length ≠ pts2.ndim then .error .assertion
  else if ¬mallocs mallocZero (pts2.npoints * pts2.ndim) then .ok none
  else
    let shared := pts2.visited.filter (inBox bb1)
    match output (pts2.npoints * pts2.ndim) [] shared with
    | .error f => .error f
    | .ok newPts =>
      if shared.length = 0 then .ok none
      else .ok (some (.points
        ⟨pts2.ndim, shared.length, newPts.take (shared.length * pts2.ndim)⟩))

/-- The points that `adios_selection_intersect_pts_pts` finds, one for each pair. -/
def sharedPoints (pts1 pts2 : Points) : List (List UInt64) :=
  pts1.visited.flatMap fun p => (pts2.visited.filter fun q => p = q).map fun _ => p

/-- `adios_selection_intersect_pts_pts`. The size for `realloc` has no `ndim` in it. -/
def intersectPtsPts (mallocZero : Bool) (pts1 pts2 : Points) : Except Fault (Option Selection) :=
  let maxNewNpts := if pts1.npoints > pts2.npoints then pts1.npoints else pts2.npoints
  if pts1.ndim ≠ pts2.ndim then .error .assertion
  else if ¬mallocs mallocZero (maxNewNpts * pts1.ndim) then .ok none
  else
    let shared := sharedPoints pts1 pts2
    match output (maxNewNpts * pts1.ndim) [] shared with
    | .error f => .error f
    | .ok newPts =>
      if shared.length = 0 then .ok none
      else .ok (some (.points ⟨pts1.ndim, shared.length, newPts.take shared.length⟩))

/-- `adios_selection_intersect_bb` -/
def intersectBb (mallocZero : Bool) (bb1 : List Segment) :
    Selection → Except Fault (Option Selection)
  | .boundingBox bb2 => intersectBbBb mallocZero bb1 bb2
  | .points pts2 => intersectBbPts mallocZero bb1 pts2
  | .writeblock | .auto => .ok none

/-- `adios_selection_intersect_pts`: "Unknown selection type" for a bounding box. -/
def intersectPts (mallocZero : Bool) (pts1 : Points) : Selection → Except Fault (Option Selection)
  | .points pts2 => intersectPtsPts mallocZero pts1 pts2
  | .boundingBox _ | .writeblock | .auto => .ok none

/-- `adios_selection_intersect_global`. For points it asks if `s1->type` is that of a bounding box,
which it is not, before it would swap the arguments. -/
def intersectGlobal (mallocZero : Bool) (s1 s2 : Selection) : Except Fault (Option Selection) :=
  match s1 with
  | .boundingBox bb1 => intersectBb mallocZero bb1 s2
  | .points pts1 => intersectPts mallocZero pts1 s2
  | .writeblock | .auto => .ok none

/-! ## The statement -/

namespace Selection

def ndim : Selection → Nat
  | boundingBox box => box.length
  | points pts => pts.ndim
  | writeblock | auto => 0

def Has : Selection → List Nat → Prop
  | boundingBox box, p => Elements box p
  | points pts, p => p ∈ (chunks pts.ndim pts.npoints pts.points).map (List.map UInt64.toNat)
  | writeblock, _ | auto, _ => False

def Stored : Selection → Prop
  | points pts => pts.npoints * pts.ndim ≤ pts.points.length
  | boundingBox _ | writeblock | auto => True

def Global : Selection → Prop
  | boundingBox box => ∀ s ∈ box, s.stop < 18446744073709551616
  | points pts => pts.points.length = pts.npoints * pts.ndim
  | writeblock | auto => False

end Selection

structure Pair where
  s1 : Selection
  s2 : Selection
  global1 : s1.Global
  global2 : s2.Global
  ndim : s1.ndim = s2.ndim

namespace Pair

variable (mallocZero : Bool) (s : Pair)

def Right (result : Except Fault (Option Selection)) : Prop :=
  ∃ r, result = .ok r ∧ (r = none ↔ ¬∃ p, s.s1.Has p ∧ s.s2.Has p) ∧
    ∀ sel, r = some sel → sel.Stored ∧ ∀ p, sel.Has p ↔ s.s1.Has p ∧ s.s2.Has p

structure Intersects : Prop where
  common : s.Right (intersectGlobal mallocZero s.s1 s.s2)
  symm : s.Right (intersectGlobal mallocZero s.s2 s.s1)

/-- Two boxes of dimension 0 need `malloc (0)`, larger ones numbers that come through; no point is
in a box that comes with points; and points that two lists share have one dimension and, with each
pair of equal ones counted, find room in an array for the longer list. -/
def Clear : Prop :=
  match s.s1, s.s2 with
  | .boundingBox bb1, .boundingBox bb2 =>
    (bb1 = [] ∧ mallocZero = true) ∨ ∃ v : Volumes, v.vol1 = bb1 ∧ v.vol2 = bb2 ∧ v.Clear
  | .points pts1, .points pts2 =>
    (¬∃ p, Selection.Has (.points pts1) p ∧ Selection.Has (.points pts2) p) ∨
      pts1.ndim = 1 ∧ (sharedPoints pts1 pts2).length ≤ max pts1.npoints pts2.npoints
  | s1, s2 => ¬∃ p, s1.Has p ∧ s2.Has p

end Pair

theorem mallocs_of_pos (mallocZero : Bool) {size : Nat} (h : 0 < size) :
    mallocs mallocZero size = true := by
  unfold mallocs
  rw [decide_eq_true h, Bool.true_or]

/-! ## Points in an array -/

section

variable {ndim : Nat}

theorem length_chunks (n : Nat) (words : List UInt64) : (chunks ndim n words).length = n := by
  induction n generalizing words with
  | zero => rfl
  | succ n ih => rw [chunks, length_cons, ih]

theorem length_of_mem_chunks {n : Nat} {words p : List UInt64} (h : words.length = n * ndim)
    (hp : p ∈ chunks ndim n words) : p.length = ndim := by
  induction n generalizing words with
  | zero => cases hp
  | succ n ih =>
    rw [Nat.succ_mul] at h
    rcases mem_cons.mp hp with rfl | hp
    · rw [length_take]
      omega
    · exact ih (by rw [length_drop]; omega) hp

theorem chunks_flatten {ps : List (List UInt64)} (h : ∀ p ∈ ps, p.length = ndim) :
    chunks ndim ps.length ps.flatten = ps := by
  induction ps with
  | nil => rfl
  | cons p ps ih =>
    obtain ⟨hp, hps⟩ := forall_mem_cons.mp h
    rw [length_cons, flatten_cons, chunks, take_left' hp, drop_left' hp, ih hps]

theorem length_flatten {ps : List (List UInt64)} (h : ∀ p ∈ ps, p.length = ndim) :
    ps.flatten.length = ps.length * ndim := by
  induction ps with
  | nil => exact (Nat.zero_mul ndim).symm
  | cons p ps ih =>
    obtain ⟨hp, hps⟩ := forall_mem_cons.mp h
    rw [flatten_cons, length_append, ih hps, hp, length_cons, Nat.succ_mul, Nat.add_comm]

theorem output_eq {capacity : Nat} {out : List UInt64} {ps : List (List UInt64)}
    (h : ∀ p ∈ ps, p.length = ndim) (hout : out.length ≤ capacity) :
    output capacity out ps = if capacity < out.length + ps.length * ndim
      then .error .outOfBounds else .ok (out ++ ps.flatten) := by
  induction ps generalizing out with
  | nil =>
    rw [output, flatten_nil, append_nil, length_nil, Nat.zero_mul, Nat.add_zero,
      if_neg (Nat.not_lt.mpr hout)]
  | cons p ps ih =>
    obtain ⟨hp, hps⟩ := forall_mem_cons.mp h
    rw [output, flatten_cons, length_cons, Nat.succ_mul]
    by_cases hfull : capacity < out.length + p.length
    · rw [if_pos hfull, if_pos (by omega)]
    · rw [if_neg hfull, ih hps (by rw [length_append]; omega), length_append,
        append_assoc, Nat.add_assoc, hp, Nat.add_comm ndim]

end

theorem mem_sharedPoints {pts1 pts2 : Points} {p : List UInt64} :
    p ∈ sharedPoints pts1 pts2 ↔ p ∈ pts1.visited ∧ p ∈ pts2.visited := by
  unfold sharedPoints
  rw [mem_flatMap]
  constructor
  · rintro ⟨q, hq, hp⟩
    obtain ⟨q', hq', rfl⟩ := mem_map.mp hp
    obtain ⟨hmem, heq⟩ := mem_filter.mp hq'
    rw [of_decide_eq_true heq]
    rw [of_decide_eq_true heq] at hq
    exact ⟨hq, hmem⟩
  · rintro ⟨h1, h2⟩
    exact ⟨p, h1, mem_map.mpr ⟨p, mem_filter.mpr ⟨h2, decide_eq_true rfl⟩, rfl⟩⟩

theorem length_sharedPoints_comm (pts1 pts2 : Points) :
    (sharedPoints pts2 pts1).length = (sharedPoints pts1 pts2).length := by
  unfold sharedPoints
  generalize pts1.visited = ps
  generalize pts2.visited = qs
  -- one more point of the first list has a pair for each point that is equal to it
  have hcons : ∀ (p : List UInt64) (ps qs : List (List UInt64)),
      (qs.flatMap fun q => ((p :: ps).filter fun r => q = r).map fun _ => q).length =
        (qs.filter fun q => p = q).length +
          (qs.flatMap fun q => (ps.filter fun r => q = r).map fun _ => q).length := by
    intro p ps qs
    induction qs with
    | nil => rfl
    | cons q qs ih =>
      rw [flatMap_cons, flatMap_cons, length_append, length_append, ih,
        length_map, length_map, filter_cons, filter_cons]
      by_cases hpq : p = q
      · rw [if_pos (decide_eq_true hpq.symm), if_pos (decide_eq_true hpq), length_cons, length_cons]
        omega
      · rw [if_neg (by simpa using Ne.symm hpq), if_neg (by simpa using hpq)]
        omega
  induction ps with
  | nil =>
    rw [flatMap_nil]
    exact congrArg List.length (flatMap_eq_nil_iff.mpr fun q _ => rfl)
  | cons p ps ih =>
    rw [hcons, ih, flatMap_cons, length_append, length_map]

/-! ## Points in a box -/

theorem Points.visited_eq {pts : Points} (h : pts.ndim ≠ 0) :
    pts.visited = chunks pts.ndim pts.npoints pts.points := by
  rw [visited, if_neg h]

theorem Points.visited_subset (pts : Points) :
    ∀ p ∈ pts.visited, p ∈ chunks pts.ndim pts.npoints pts.points := by
  intro p hp
  unfold visited at hp
  split_ifs at hp
  · cases hp
  · exact hp

theorem inBox_iff {bb : List Segment} {p : List UInt64} (hlen : bb.length = p.length)
    (hends : ∀ s ∈ bb, s.stop < 18446744073709551616) :
    inBox bb p = true ↔ Elements bb (p.map UInt64.toNat) := by
  induction bb generalizing p with
  | nil =>
    obtain rfl := length_eq_zero_iff.mp hlen.symm
    exact ⟨fun _ => .nil, fun _ => rfl⟩
  | cons s bb ih =>
    match p, hlen with
    | x :: p, hlen =>
      obtain ⟨hend, hends⟩ := forall_mem_cons.mp hends
      have hrest := ih (Nat.succ.inj hlen) hends
      have hstop : (s.start + s.count).toNat = s.start.toNat + s.count.toNat := by
        unfold Segment.stop at hend
        rw [UInt64.toNat_add]
        omega
      have hfirst : ¬(x < s.start ∨ x ≥ s.start + s.count) ↔
          s.start.toNat ≤ x.toNat ∧ x.toNat < s.start.toNat + s.count.toNat := by
        rw [not_or, lt_iff_toNat_lt, ge_iff_le, le_iff_toNat_le, hstop]
        omega
      show (decide ¬(x < s.start ∨ x ≥ s.start + s.count) && inBox bb p) = true ↔ _
      rw [Bool.and_eq_true, decide_eq_true_eq, hfirst, hrest]
      show _ ↔ Grid.Contains (s.span :: bb.map Segment.span) (x.toNat :: p.map UInt64.toNat)
      rw [Grid.contains_cons]
      exact Iff.rfl

section

variable {mallocZero : Bool} {bb : List Segment} {pts : Points}

theorem intersectBbPts_eq_none (hends : ∀ s ∈ bb, s.stop < 18446744073709551616)
    (hpoints : pts.points.length = pts.npoints * pts.ndim) (hndim : bb.length = pts.ndim)
    (h : ¬∃ p, Selection.Has (.boundingBox bb) p ∧ Selection.Has (.points pts) p) :
    intersectBbPts mallocZero bb pts = .ok none := by
  have hshared : pts.visited.filter (inBox bb) = [] :=
    filter_eq_nil_iff.mpr fun p hp hin => by
      have hmem := pts.visited_subset p hp
      have hlen := length_of_mem_chunks hpoints hmem
      exact h ⟨p.map UInt64.toNat, (inBox_iff (hndim.trans hlen.symm) hends).mp hin,
        mem_map_of_mem hmem⟩
  unfold intersectBbPts
  rw [if_neg (not_not.mpr hndim), hshared]
  split_ifs <;> rfl

theorem intersectBbPts_of_zero (hndim : bb.length = pts.ndim)
    (hzero : ¬0 < pts.npoints * pts.ndim) : intersectBbPts mallocZero bb pts = .ok none := by
  have hvisited : pts.visited.filter (inBox bb) = [] := by
    rw [filter_eq_nil_iff]
    intro p hp
    unfold Points.visited at hp
    split_ifs at hp with hndim0
    · cases hp
    · have hnone : pts.npoints = 0 := by
        by_contra hne
        exact hzero (Nat.mul_pos (Nat.pos_of_ne_zero hne) (Nat.pos_of_ne_zero hndim0))
      rw [hnone] at hp
      cases hp
  rw [intersectBbPts, if_neg (not_not.mpr hndim), hvisited]
  split_ifs <;> rfl

section

variable (hends : ∀ s ∈ bb, s.stop < 18446744073709551616)
  (hpoints : pts.points.length = pts.npoints * pts.ndim) (hndim : bb.length = pts.ndim)

include hends hpoints hndim

theorem intersectBbPts_eq (hpos : 0 < pts.npoints * pts.ndim) :
    ∃ ps, (∀ p, p ∈ ps ↔ p ∈ chunks pts.ndim pts.npoints pts.points ∧
        Elements bb (p.map UInt64.toNat)) ∧
      ps.Sublist (chunks pts.ndim pts.npoints pts.points) ∧
      intersectBbPts mallocZero bb pts = .ok (if ps = [] then none
        else some (.points ⟨pts.ndim, ps.length, ps.flatten⟩)) := by
  have hne : pts.ndim ≠ 0 := fun hzero => by
    rw [hzero] at hpos
    omega
  have hlen := fun p (hp : p ∈ chunks pts.ndim pts.npoints pts.points) =>
    length_of_mem_chunks hpoints hp
  refine ⟨pts.visited.filter (inBox bb), fun p => ?_, ?_, ?_⟩
  · rw [Points.visited_eq hne, mem_filter]
    exact and_congr_right fun hp => inBox_iff (hndim.trans (hlen p hp).symm) hends
  · rw [Points.visited_eq hne]
    exact filter_sublist
  · rw [intersectBbPts, if_neg (not_not.mpr hndim), if_neg (not_not.mpr (mallocs_of_pos _ hpos)),
      Points.visited_eq hne]
    have hwidth : ∀ p ∈ (chunks pts.ndim pts.npoints pts.points).filter (inBox bb),
        p.length = pts.ndim := fun p hp => hlen p (mem_of_mem_filter hp)
    have hcount : ((chunks pts.ndim pts.npoints pts.points).filter (inBox bb)).length ≤
        pts.npoints := by
      have hle := length_filter_le (inBox bb) (chunks pts.ndim pts.npoints pts.points)
      rwa [length_chunks] at hle
    generalize (chunks pts.ndim pts.npoints pts.points).filter (inBox bb) = ps at hwidth hcount ⊢
    have hle := Nat.mul_le_mul_right pts.ndim hcount
    have houtput := @output_eq _ (pts.npoints * pts.ndim) [] ps hwidth (Nat.zero_le _)
    rw [length_nil, Nat.zero_add, if_neg (Nat.not_lt.mpr hle), nil_append] at houtput
    dsimp only
    rw [houtput]
    dsimp only
    rw [← length_flatten hwidth, take_length]
    by_cases hempty : ps = []
    · rw [if_pos hempty, if_pos (by rw [hempty]; rfl)]
    · rw [if_neg hempty, if_neg fun hzero => hempty (length_eq_zero_iff.mp hzero)]

theorem exists_intersectBbPts :
    ∃ r, intersectBbPts mallocZero bb pts = .ok r := by
  by_cases hpos : 0 < pts.npoints * pts.ndim
  · obtain ⟨ps, -, -, hresult⟩ := @intersectBbPts_eq mallocZero _ _ hends hpoints hndim hpos
    exact ⟨_, hresult⟩
  · exact ⟨none, intersectBbPts_of_zero hndim hpos⟩

end

end

/-! ## Points in two lists -/

section

variable {mallocZero : Bool} {pts1 pts2 : Points}

def Share (pts1 pts2 : Points) : Prop :=
  ∃ p, Selection.Has (.points pts1) p ∧ Selection.Has (.points pts2) p

theorem toNat_map_injective {p q : List UInt64} (h : p.map UInt64.toNat = q.map UInt64.toNat) :
    p = q := by
  induction p generalizing q with
  | nil => exact (map_eq_nil_iff.mp h.symm).symm
  | cons x p ih =>
    cases q with
    | nil => cases h
    | cons y q =>
      injection h with hx hp
      rw [UInt64.toNat_inj.mp hx, ih hp]

theorem has_points_iff {p : List UInt64} :
    Selection.Has (.points pts1) (p.map UInt64.toNat) ↔
      p ∈ chunks pts1.ndim pts1.npoints pts1.points := by
  constructor
  · intro h
    obtain ⟨q, hq, heq⟩ := mem_map.mp h
    rwa [toNat_map_injective heq] at hq
  · exact mem_map_of_mem

theorem intersectPtsPts_of_nil (hndim : pts1.ndim = pts2.ndim) (h : sharedPoints pts1 pts2 = []) :
    intersectPtsPts mallocZero pts1 pts2 = .ok none := by
  unfold intersectPtsPts
  rw [if_neg (not_not.mpr hndim), h]
  split_ifs <;> rfl

theorem intersectPtsPts_eq_none (hndim : pts1.ndim = pts2.ndim) (h : ¬Share pts1 pts2) :
    intersectPtsPts mallocZero pts1 pts2 = .ok none := by
  refine intersectPtsPts_of_nil hndim (eq_nil_iff_forall_not_mem.mpr fun p hp => ?_)
  obtain ⟨h1, h2⟩ := mem_sharedPoints.mp hp
  exact h ⟨_, has_points_iff.mpr (pts1.visited_subset p h1),
    has_points_iff.mpr (pts2.visited_subset p h2)⟩

theorem intersectPtsPts_eq (hpoints : pts1.points.length = pts1.npoints * pts1.ndim)
    (hndim : pts1.ndim = pts2.ndim) (hpos : pts1.ndim ≠ 0) (h : Share pts1 pts2) :
    intersectPtsPts mallocZero pts1 pts2 =
      if max pts1.npoints pts2.npoints * pts1.ndim <
        (sharedPoints pts1 pts2).length * pts1.ndim then
        .error .outOfBounds
      else .ok (some (.points ⟨pts1.ndim, (sharedPoints pts1 pts2).length,
        (sharedPoints pts1 pts2).flatten.take (sharedPoints pts1 pts2).length⟩)) := by
  obtain ⟨_, h1, h2⟩ := h
  obtain ⟨p, hp, rfl⟩ := mem_map.mp h1
  have hp2 := has_points_iff.mp h2
  have hmem : p ∈ sharedPoints pts1 pts2 := by
    rw [mem_sharedPoints, Points.visited_eq hpos, Points.visited_eq (hndim ▸ hpos)]
    exact ⟨hp, hp2⟩
  have hwidth : ∀ q ∈ sharedPoints pts1 pts2, q.length = pts1.ndim := fun q hq =>
    length_of_mem_chunks hpoints (pts1.visited_subset q (mem_sharedPoints.mp hq).1)
  have hmax : (if pts1.npoints > pts2.npoints then pts1.npoints else pts2.npoints) =
      max pts1.npoints pts2.npoints := by
    split_ifs <;> omega
  have hsize : 0 < max pts1.npoints pts2.npoints * pts1.ndim := by
    have hlen := length_pos_of_mem hp
    rw [length_chunks] at hlen
    exact Nat.mul_pos (by omega) (Nat.pos_of_ne_zero hpos)
  have hne : (sharedPoints pts1 pts2).length ≠ 0 := Nat.ne_of_gt (length_pos_of_mem hmem)
  rw [intersectPtsPts]
  dsimp only
  rw [if_neg (not_not.mpr hndim), hmax, if_neg (not_not.mpr (mallocs_of_pos _ hsize))]
  generalize sharedPoints pts1 pts2 = ps at hwidth hne ⊢
  generalize max pts1.npoints pts2.npoints * pts1.ndim = capacity
  have houtput := @output_eq _ capacity [] ps hwidth (Nat.zero_le _)
  rw [length_nil, Nat.zero_add, nil_append] at houtput
  rw [houtput]
  split_ifs
  · rfl
  · rfl

end

/-! ## All pairs -/

namespace Pair

variable {mallocZero : Bool} {s : Pair}

theorem right_none_iff : s.Right (.ok none) ↔ ¬∃ p, s.s1.Has p ∧ s.s2.Has p := by
  constructor
  · rintro ⟨r, hr, hnone, -⟩
    injection hr with hr
    exact hnone.mp hr.symm
  · exact fun h => ⟨none, rfl, ⟨fun _ => h, fun _ => rfl⟩, fun _ hsel => (by cases hsel)⟩

theorem right_some_iff {sel : Selection} : s.Right (.ok (some sel)) ↔
    (∃ p, s.s1.Has p ∧ s.s2.Has p) ∧ sel.Stored ∧ ∀ p, sel.Has p ↔ s.s1.Has p ∧ s.s2.Has p := by
  constructor
  · rintro ⟨r, hr, hnone, hsome⟩
    injection hr with hr
    subst hr
    refine ⟨?_, hsome sel rfl⟩
    by_contra hempty
    cases hnone.mpr hempty
  · rintro ⟨hex, hsel⟩
    refine ⟨some sel, rfl, ⟨fun h => (by cases h), fun h => absurd hex h⟩, fun sel' h => ?_⟩
    injection h with h
    subst h
    exact hsel

theorem not_right_error {f : Fault} : ¬s.Right (.error f) := by
  rintro ⟨r, hr, -⟩
  cases hr

section

variable {bb bb1 bb2 : List Segment} {pts pts1 pts2 : Points}

theorem boxPoints_iff (h1 : s.s1 = .boundingBox bb) (h2 : s.s2 = .points pts) :
    s.Intersects mallocZero ↔ ¬∃ p, s.s1.Has p ∧ s.s2.Has p := by
  constructor
  · intro h
    have hsymm := h.symm
    rw [h1, h2] at hsymm
    exact right_none_iff.mp hsymm
  · intro h
    have hends := s.global1
    have hpoints := s.global2
    have hndim := s.ndim
    have hempty := h
    rw [h1] at hends hndim hempty
    rw [h2] at hpoints hndim hempty
    refine ⟨?_, ?_⟩
    · rw [h1, h2]
      show s.Right (intersectBbPts mallocZero bb pts)
      rw [intersectBbPts_eq_none hends hpoints hndim hempty]
      exact right_none_iff.mpr h
    · rw [h1, h2]
      exact right_none_iff.mpr h

def swap (s : Pair) : Pair := ⟨s.s2, s.s1, s.global2, s.global1, s.ndim.symm⟩

theorem right_swap {result : Except Fault (Option Selection)} :
    s.swap.Right result ↔ s.Right result := by
  have hcomm : ∀ p, s.s2.Has p ∧ s.s1.Has p ↔ s.s1.Has p ∧ s.s2.Has p := fun _ => And.comm
  show (∃ r, result = .ok r ∧ (r = none ↔ ¬∃ p, s.s2.Has p ∧ s.s1.Has p) ∧
    ∀ sel, r = some sel → sel.Stored ∧ ∀ p, sel.Has p ↔ s.s2.Has p ∧ s.s1.Has p) ↔ _
  simp only [hcomm]
  exact Iff.rfl

theorem intersects_swap : s.swap.Intersects mallocZero ↔ s.Intersects mallocZero :=
  ⟨fun h => ⟨right_swap.mp h.symm, right_swap.mp h.common⟩,
    fun h => ⟨right_swap.mpr h.symm, right_swap.mpr h.common⟩⟩

theorem pointsBox_iff (h1 : s.s1 = .points pts) (h2 : s.s2 = .boundingBox bb) :
    s.Intersects mallocZero ↔ ¬∃ p, s.s1.Has p ∧ s.s2.Has p := by
  rw [← intersects_swap, @boxPoints_iff mallocZero s.swap _ _ h2 h1]
  exact not_congr (exists_congr fun _ => And.comm)

theorem mem_sharedPoints_iff (hndim : pts1.ndim = pts2.ndim) (hzero : pts1.ndim ≠ 0)
    (p : List UInt64) : p ∈ sharedPoints pts1 pts2 ↔
      p ∈ chunks pts1.ndim pts1.npoints pts1.points ∧
        p ∈ chunks pts2.ndim pts2.npoints pts2.points := by
  rw [mem_sharedPoints, Points.visited_eq hzero, Points.visited_eq (hndim ▸ hzero)]

theorem right_flatten (hshare : Share pts1 pts2) (hboth : ∀ p, s.s1.Has p ∧ s.s2.Has p ↔
      Selection.Has (.points pts1) p ∧ Selection.Has (.points pts2) p)
    (hmem : ∀ p, p ∈ sharedPoints pts1 pts2 ↔ p ∈ chunks pts1.ndim pts1.npoints pts1.points ∧
      p ∈ chunks pts2.ndim pts2.npoints pts2.points)
    (hwidth : ∀ q ∈ sharedPoints pts1 pts2, q.length = 1) :
    s.Right (.ok (some (.points ⟨1, (sharedPoints pts1 pts2).length,
      (sharedPoints pts1 pts2).flatten⟩))) := by
  have hflat := length_flatten hwidth
  rw [Nat.mul_one] at hflat
  refine right_some_iff.mpr ⟨(exists_congr hboth).mpr hshare, ?_, fun p => ?_⟩
  · show (sharedPoints pts1 pts2).length * 1 ≤ (sharedPoints pts1 pts2).flatten.length
    omega
  · show p ∈ (chunks 1 _ _).map _ ↔ _
    rw [chunks_flatten hwidth, hboth]
    constructor
    · intro hp
      obtain ⟨q, hq, rfl⟩ := mem_map.mp hp
      obtain ⟨hq1, hq2⟩ := (hmem q).mp hq
      exact ⟨has_points_iff.mpr hq1, has_points_iff.mpr hq2⟩
    · rintro ⟨hp1, hp2⟩
      obtain ⟨q, hq, rfl⟩ := mem_map.mp hp1
      exact mem_map_of_mem ((hmem q).mpr ⟨hq, has_points_iff.mp hp2⟩)

theorem right_points_iff (hpoints : pts1.points.length = pts1.npoints * pts1.ndim)
    (hndim : pts1.ndim = pts2.ndim)
    (hboth : ∀ p, s.s1.Has p ∧ s.s2.Has p ↔
      Selection.Has (.points pts1) p ∧ Selection.Has (.points pts2) p) :
    s.Right (intersectPtsPts mallocZero pts1 pts2) ↔ ¬Share pts1 pts2 ∨ pts1.ndim = 1 ∧
      (sharedPoints pts1 pts2).length ≤ max pts1.npoints pts2.npoints := by
  have hshare : (∃ p, s.s1.Has p ∧ s.s2.Has p) ↔ Share pts1 pts2 := exists_congr hboth
  by_cases hempty : Share pts1 pts2
  · by_cases hzero : pts1.ndim = 0
    · -- nothing is visited
      have hvisited : pts1.visited = [] := if_pos hzero
      have hnil : sharedPoints pts1 pts2 = [] := by
        rw [sharedPoints, hvisited]
        rfl
      rw [intersectPtsPts_of_nil hndim hnil, right_none_iff, hshare]
      constructor
      · exact fun h => absurd hempty h
      · rintro (h | ⟨hone, -⟩)
        · exact h
        · omega
    · rw [intersectPtsPts_eq hpoints hndim hzero hempty]
      have hmem := mem_sharedPoints_iff hndim hzero
      have hwidth : ∀ q ∈ sharedPoints pts1 pts2, q.length = pts1.ndim := fun q hq =>
        length_of_mem_chunks hpoints ((hmem q).mp hq).1
      have hpos : 0 < (sharedPoints pts1 pts2).length := by
        obtain ⟨_, hp1, hp2⟩ := hempty
        obtain ⟨p, hp, rfl⟩ := mem_map.mp hp1
        exact length_pos_of_mem ((hmem p).mpr ⟨hp, has_points_iff.mp hp2⟩)
      by_cases hone : pts1.ndim = 1
      · rw [hone, Nat.mul_one, Nat.mul_one]
        rw [hone] at hwidth
        have hflat := length_flatten hwidth
        rw [Nat.mul_one] at hflat
        by_cases hfull : max pts1.npoints pts2.npoints < (sharedPoints pts1 pts2).length
        · rw [if_pos hfull]
          constructor
          · exact fun h => absurd h not_right_error
          · rintro (h | ⟨-, hle⟩)
            · exact absurd hempty h
            · omega
        · rw [if_neg hfull, ← hflat, take_length, hflat]
          exact iff_of_true (right_flatten hempty hboth hmem hwidth)
            (Or.inr ⟨rfl, Nat.not_lt.mp hfull⟩)
      · -- the array is cut to a word for each point
        refine ⟨fun h => ?_, ?_⟩
        · split_ifs at h with hfull
          · exact absurd h not_right_error
          · obtain ⟨-, hstored, -⟩ := right_some_iff.mp h
            have hstored : (sharedPoints pts1 pts2).length * pts1.ndim ≤
                ((sharedPoints pts1 pts2).flatten.take (sharedPoints pts1 pts2).length).length :=
              hstored
            rw [length_take] at hstored
            have hlarge := Nat.mul_le_mul_left (sharedPoints pts1 pts2).length
              (show 2 ≤ pts1.ndim by omega)
            omega
        · rintro (h | ⟨h, -⟩)
          · exact absurd hempty h
          · exact absurd h hone
  · rw [intersectPtsPts_eq_none hndim hempty, right_none_iff, hshare]
    exact ⟨fun h => Or.inl h, fun _ => hempty⟩

theorem points_iff (h1 : s.s1 = .points pts1) (h2 : s.s2 = .points pts2) :
    s.Intersects mallocZero ↔ ¬Share pts1 pts2 ∨ pts1.ndim = 1 ∧
      (sharedPoints pts1 pts2).length ≤ max pts1.npoints pts2.npoints := by
  have hpoints1 := s.global1
  have hpoints2 := s.global2
  have hndim := s.ndim
  rw [h1] at hpoints1 hndim
  rw [h2] at hpoints2 hndim
  have hndim : pts1.ndim = pts2.ndim := hndim
  have hboth : ∀ p, s.s1.Has p ∧ s.s2.Has p ↔
      Selection.Has (.points pts1) p ∧ Selection.Has (.points pts2) p := fun p => by rw [h1, h2]
  have hright := @right_points_iff mallocZero s _ _ hpoints1 hndim hboth
  have hright' := @right_points_iff mallocZero s _ _ hpoints2 hndim.symm fun p =>
    (hboth p).trans And.comm
  have hshare : Share pts2 pts1 ↔ Share pts1 pts2 := exists_congr fun p => And.comm
  rw [hshare, length_sharedPoints_comm, Nat.max_comm, ← hndim] at hright'
  have hcommon : s.Right (intersectGlobal mallocZero s.s1 s.s2) ↔
      s.Right (intersectPtsPts mallocZero pts1 pts2) := by rw [h1, h2]; exact Iff.rfl
  have hsymm : s.Right (intersectGlobal mallocZero s.s2 s.s1) ↔
      s.Right (intersectPtsPts mallocZero pts2 pts1) := by rw [h1, h2]; exact Iff.rfl
  constructor
  · exact fun h => hright.mp (hcommon.mp h.common)
  · exact fun h => ⟨hcommon.mpr (hright.mpr h), hsymm.mpr (hright'.mpr h)⟩

theorem right_boxes_iff {ds : List (Segment × Segment)} (hne : ds ≠ [])
    (hboth : ∀ p, s.s1.Has p ∧ s.s2.Has p ↔
      Elements (ds.map Prod.fst) p ∧ Elements (ds.map Prod.snd) p) :
    s.Right (intersectBbBb mallocZero (ds.map Prod.fst) (ds.map Prod.snd)) ↔
      Volumes.RightOrder ds := by
  have hshare := exists_congr hboth
  have hpos : 0 < (ds.map Prod.fst).length := by
    rw [length_map]
    exact length_pos_iff.mpr hne
  rw [intersectBbBb, if_neg (by rw [length_map, length_map]; exact not_not.mpr rfl),
    if_neg (not_not.mpr (mallocs_of_pos _ hpos))]
  cases hr : intersectVolumes (ds.map Prod.fst) (ds.map Prod.snd) with
  | none =>
    rw [Option.map_none, right_none_iff, hshare]
    constructor
    · intro h
      refine ⟨?_, fun r hr' => ?_⟩
      · rw [hr]
        exact ⟨fun hsome => (by cases hsome), fun hex => absurd hex h⟩
      · rw [hr] at hr'
        cases hr'
    · intro h hex
      have hsome := h.overlap.mpr hex
      rw [hr] at hsome
      cases hsome
  | some r =>
    have hreported : ∀ p, Selection.Has (.boundingBox (r.map fun c => ⟨c.offset, c.dims⟩)) p ↔
        Reported r p := fun p => by
      show Grid.Contains ((r.map _).map _) p ↔ _
      rw [map_map]
      exact Iff.rfl
    rw [Option.map_some, right_some_iff, hshare]
    constructor
    · rintro ⟨hex, -, h⟩
      refine ⟨?_, fun r' hr' p => ?_⟩
      · rw [hr]
        exact ⟨fun _ => hex, fun _ => rfl⟩
      · rw [hr] at hr'
        injection hr' with hr'
        rw [← hr', ← hreported, h, hboth]
    · intro h
      have hover := h.overlap
      rw [hr] at hover
      refine ⟨hover.mp rfl, trivial, fun p => ?_⟩
      rw [hreported, h.common r hr, hboth]

theorem boxes_cases (mallocZero : Bool) (h1 : s.s1 = .boundingBox bb1)
    (h2 : s.s2 = .boundingBox bb2) :
    (bb1 = [] ∧ bb2 = [] ∧ (s.Right (intersectBbBb mallocZero [] []) ↔ mallocZero = true)) ∨
      ∃ v : Volumes, bb1 = v.vol1 ∧ bb2 = v.vol2 ∧
        (s.Right (intersectBbBb mallocZero bb1 bb2) ↔ Volumes.RightOrder v.dims) ∧
        (s.Right (intersectBbBb mallocZero bb2 bb1) ↔
          Volumes.RightOrder (v.dims.map Prod.swap)) := by
  have hends1 := s.global1
  have hends2 := s.global2
  have hndim := s.ndim
  rw [h1] at hends1 hndim
  rw [h2] at hends2 hndim
  have hndim : bb1.length = bb2.length := hndim
  have hboth : ∀ p, s.s1.Has p ∧ s.s2.Has p ↔ Elements bb1 p ∧ Elements bb2 p := fun p => by
    rw [h1, h2]
    exact Iff.rfl
  by_cases hempty : bb1 = []
  · subst hempty
    obtain rfl := length_eq_zero_iff.mp hndim.symm
    have hex : ∃ p, s.s1.Has p ∧ s.s2.Has p := ⟨[], (hboth []).mpr ⟨.nil, .nil⟩⟩
    refine .inl ⟨rfl, rfl, ?_⟩
    cases mallocZero with
    | true =>
      exact iff_of_true (right_some_iff.mpr ⟨hex, trivial, fun p =>
        (and_self_iff.symm.trans (hboth p).symm)⟩) rfl
    | false => exact iff_of_false (fun h => absurd hex (right_none_iff.mp h)) Bool.false_ne_true
  · have hfst : (bb1.zip bb2).map Prod.fst = bb1 := map_fst_zip (Nat.le_of_eq hndim)
    have hsnd : (bb1.zip bb2).map Prod.snd = bb2 := map_snd_zip (Nat.le_of_eq hndim.symm)
    have hne : bb1.zip bb2 ≠ [] := fun hnil => by
      rw [hnil] at hfst
      exact hempty hfst.symm
    have horder := @right_boxes_iff mallocZero s _ hne (by rw [hfst, hsnd]; exact hboth)
    have horder' := @right_boxes_iff mallocZero s ((bb1.zip bb2).map Prod.swap)
      (fun hnil => hne (map_eq_nil_iff.mp hnil)) (by
        rw [Volumes.map_fst_swap, Volumes.map_snd_swap, hfst, hsnd]
        exact fun p => (hboth p).trans And.comm)
    rw [hfst, hsnd] at horder
    rw [Volumes.map_fst_swap, Volumes.map_snd_swap, hfst, hsnd] at horder'
    exact .inr ⟨⟨bb1.zip bb2, hne, fun d hd =>
      ⟨hends1 _ (of_mem_zip hd).1, hends2 _ (of_mem_zip hd).2⟩⟩, hfst.symm, hsnd.symm,
      horder, horder'⟩

theorem exists_volumes_iff {P : Volumes → Prop} (v : Volumes) (m : Prop) :
    ((v.vol1 = [] ∧ m) ∨ ∃ w : Volumes, w.vol1 = v.vol1 ∧ w.vol2 = v.vol2 ∧ P w) ↔ P v := by
  constructor
  · rintro (⟨hnil, -⟩ | ⟨w, hw1, hw2, hw⟩)
    · exact absurd (map_eq_nil_iff.mp hnil) v.ndim
    · have hdims : w.dims = v.dims :=
        (zip_of_prod hw1 hw2).trans (zip_of_prod rfl rfl).symm
      obtain ⟨dims, _, _⟩ := w
      cases hdims
      exact hw
  · exact fun h => .inr ⟨v, rfl, rfl, h⟩

theorem nil_or_volumes_iff {P : Volumes → Prop} {m : Prop} :
    (([] : List Segment) = [] ∧ m ∨ ∃ v : Volumes, v.vol1 = [] ∧ v.vol2 = [] ∧ P v) ↔ m := by
  constructor
  · rintro (⟨-, h⟩ | ⟨v, hv, -⟩)
    · exact h
    · exact absurd (map_eq_nil_iff.mp hv) v.ndim
  · exact fun h => .inl ⟨rfl, h⟩

theorem boxes_iff (h1 : s.s1 = .boundingBox bb1) (h2 : s.s2 = .boundingBox bb2) :
    s.Intersects mallocZero ↔
      (bb1 = [] ∧ mallocZero = true) ∨ ∃ v : Volumes, v.vol1 = bb1 ∧ v.vol2 = bb2 ∧ v.Clear := by
  have hsplit : s.Intersects mallocZero ↔ s.Right (intersectBbBb mallocZero bb1 bb2) ∧
      s.Right (intersectBbBb mallocZero bb2 bb1) := by
    constructor
    · rintro ⟨hcommon, hsymm⟩
      rw [h1, h2] at hcommon hsymm
      exact ⟨hcommon, hsymm⟩
    · rintro ⟨hcommon, hsymm⟩
      exact ⟨by rw [h1, h2]; exact hcommon, by rw [h1, h2]; exact hsymm⟩
  rw [hsplit]
  rcases boxes_cases mallocZero h1 h2 with ⟨rfl, rfl, hright⟩ | ⟨v, rfl, rfl, horder, horder'⟩
  · rw [and_self_iff, hright, nil_or_volumes_iff]
  · rw [horder, horder', exists_volumes_iff]
    exact v.rightOrders_iff

end

/-- **Selections.** The intersection of two global selections is right in both orders exactly when
one of these holds. -/
theorem selectionsIntersect_iff (mallocZero : Bool) (s : Pair) :
    s.Intersects mallocZero ↔ s.Clear mallocZero := by
  have hglobal1 := s.global1
  have hglobal2 := s.global2
  unfold Clear
  cases h1 : s.s1 with
  | boundingBox bb1 =>
    cases h2 : s.s2 with
    | boundingBox bb2 => exact boxes_iff h1 h2
    | points pts2 =>
      rw [boxPoints_iff h1 h2, h1, h2]
    | writeblock =>
      rw [h2] at hglobal2
      exact absurd hglobal2 id
    | auto =>
      rw [h2] at hglobal2
      exact absurd hglobal2 id
  | points pts1 =>
    cases h2 : s.s2 with
    | boundingBox bb2 =>
      rw [pointsBox_iff h1 h2, h1, h2]
    | points pts2 => exact points_iff h1 h2
    | writeblock =>
      rw [h2] at hglobal2
      exact absurd hglobal2 id
    | auto =>
      rw [h2] at hglobal2
      exact absurd hglobal2 id
  | writeblock =>
    rw [h1] at hglobal1
    exact absurd hglobal1 id
  | auto =>
    rw [h1] at hglobal1
    exact absurd hglobal1 id

/-! ## A box in the first place -/

/-- What the intersection of a box with a selection needs: boxes of dimension 0 need `malloc (0)`,
larger ones numbers that come through, and points a dimension. -/
def ClearInOrder (mallocZero : Bool) (s : Pair) : Prop :=
  match s.s1, s.s2 with
  | .boundingBox bb1, .boundingBox bb2 =>
    (bb1 = [] ∧ mallocZero = true) ∨
      ∃ v : Volumes, v.vol1 = bb1 ∧ v.vol2 = bb2 ∧ v.ClearInOrder
  | _, .points pts2 => pts2.ndim ≠ 0 ∨ pts2.npoints = 0
  | _, _ => True

section

variable {bb bb1 bb2 : List Segment} {pts : Points}

theorem right_boxBox_iff (h1 : s.s1 = .boundingBox bb1) (h2 : s.s2 = .boundingBox bb2) :
    s.Right (intersectGlobal mallocZero s.s1 s.s2) ↔
      (bb1 = [] ∧ mallocZero = true) ∨
        ∃ v : Volumes, v.vol1 = bb1 ∧ v.vol2 = bb2 ∧ v.ClearInOrder := by
  have hcommon : s.Right (intersectGlobal mallocZero s.s1 s.s2) ↔
      s.Right (intersectBbBb mallocZero bb1 bb2) := by rw [h1, h2]; exact Iff.rfl
  rw [hcommon]
  rcases boxes_cases mallocZero h1 h2 with ⟨rfl, rfl, hright⟩ | ⟨v, rfl, rfl, horder, -⟩
  · rw [hright, nil_or_volumes_iff]
  · rw [horder, exists_volumes_iff]
    exact v.rightOrder_iff

theorem right_boxPoints_iff (h1 : s.s1 = .boundingBox bb) (h2 : s.s2 = .points pts) :
    s.Right (intersectGlobal mallocZero s.s1 s.s2) ↔ pts.ndim ≠ 0 ∨ pts.npoints = 0 := by
  have hends := s.global1
  have hpoints := s.global2
  have hndim := s.ndim
  rw [h1] at hends hndim
  rw [h2] at hpoints hndim
  have hends : ∀ s ∈ bb, s.stop < 18446744073709551616 := hends
  have hpoints : pts.points.length = pts.npoints * pts.ndim := hpoints
  have hndim : bb.length = pts.ndim := hndim
  have hcommon : s.Right (intersectGlobal mallocZero s.s1 s.s2) ↔
      s.Right (intersectBbPts mallocZero bb pts) := by rw [h1, h2]; exact Iff.rfl
  have hboth : ∀ p, s.s1.Has p ∧ s.s2.Has p ↔
      Selection.Has (.boundingBox bb) p ∧ Selection.Has (.points pts) p := fun p => by rw [h1, h2]
  have hshare := exists_congr hboth
  rw [hcommon]
  by_cases hpos : 0 < pts.npoints * pts.ndim
  · -- the points that are in the box are found
    refine iff_of_true ?_ (.inl (Nat.pos_of_mul_pos_left hpos).ne')
    obtain ⟨ps, hmem, hsub, hresult⟩ := @intersectBbPts_eq mallocZero _ _ hends hpoints hndim hpos
    have hhas (p : List Nat) : p ∈ ps.map (List.map UInt64.toNat) ↔
        Selection.Has (.boundingBox bb) p ∧ Selection.Has (.points pts) p := by
      constructor
      · intro hp
        obtain ⟨q, hq, rfl⟩ := mem_map.mp hp
        exact ⟨((hmem q).mp hq).2, mem_map_of_mem ((hmem q).mp hq).1⟩
      · rintro ⟨hbox, hp⟩
        obtain ⟨q, hq, rfl⟩ := mem_map.mp hp
        exact mem_map_of_mem ((hmem q).mpr ⟨hq, hbox⟩)
    have hwidth : ∀ p ∈ ps, p.length = pts.ndim := fun p hp =>
      length_of_mem_chunks hpoints (hsub.subset hp)
    rw [hresult]
    by_cases hempty : ps = []
    · rw [if_pos hempty, right_none_iff, hshare]
      rintro ⟨p, hp⟩
      have hp' := (hhas p).mpr hp
      rw [hempty] at hp'
      cases hp'
    · rw [if_neg hempty, right_some_iff, hshare]
      obtain ⟨q, hq⟩ := exists_mem_of_ne_nil ps hempty
      refine ⟨⟨_, (hhas _).mp (mem_map_of_mem hq)⟩, ?_, fun p => ?_⟩
      · show ps.length * pts.ndim ≤ ps.flatten.length
        rw [length_flatten hwidth]
      · rw [hboth p, ← hhas p]
        show p ∈ (chunks pts.ndim ps.length ps.flatten).map (List.map UInt64.toNat) ↔ _
        rw [chunks_flatten hwidth]
  · have hresult := @intersectBbPts_of_zero mallocZero _ _ hndim hpos
    rw [hresult, right_none_iff, hshare]
    constructor
    · intro hnone
      by_contra hzero
      obtain ⟨hndim0, hnpoints⟩ := not_or.mp hzero
      obtain rfl : bb = [] := length_eq_zero_iff.mp (hndim.trans (not_not.mp hndim0))
      refine hnone ⟨[], .nil, ?_⟩
      show [] ∈ (chunks pts.ndim pts.npoints pts.points).map _
      rw [not_not.mp hndim0]
      obtain ⟨n, hn⟩ := Nat.exists_eq_succ_of_ne_zero hnpoints
      rw [hn, chunks]
      exact mem_cons_self ..
    · rintro hcases ⟨p, hbox, hp⟩
      have hnone : pts.npoints = 0 := by
        rcases hcases with hne | hnone
        · by_contra hnone
          exact hpos (Nat.mul_pos (Nat.pos_of_ne_zero hnone) (Nat.pos_of_ne_zero hne))
        · exact hnone
      have hp : p ∈ (chunks pts.ndim pts.npoints pts.points).map (List.map UInt64.toNat) := hp
      rw [hnone] at hp
      cases hp

theorem right_box_iff (h1 : s.s1 = .boundingBox bb) :
    s.Right (intersectGlobal mallocZero s.s1 s.s2) ↔ s.ClearInOrder mallocZero := by
  have hglobal2 := s.global2
  unfold ClearInOrder
  cases h2 : s.s2 with
  | boundingBox bb2 =>
    have hiff := @right_boxBox_iff mallocZero s _ _ h1 h2
    rw [h2] at hiff
    rw [hiff, h1]
  | points pts =>
    have hiff := @right_boxPoints_iff mallocZero s _ _ h1 h2
    rw [h2] at hiff
    rw [hiff, h1]
  | writeblock =>
    rw [h2] at hglobal2
    exact absurd hglobal2 id
  | auto =>
    rw [h2] at hglobal2
    exact absurd hglobal2 id

end

def pointInBox : Pair where
  s1 := .points ⟨1, 1, [5]⟩
  s2 := .boundingBox [⟨0, 10⟩]
  global1 := rfl
  global2 := forall_mem_singleton.mpr (by decide)
  ndim := rfl

theorem not_intersects_pointInBox : ¬pointInBox.Intersects true := by
  intro h
  have hin : inBox [⟨0, 10⟩] [5] = true := by decide
  have hbox := (inBox_iff rfl (forall_mem_singleton.mpr (by decide))).mp hin
  exact right_none_iff.mp h.common ⟨[5], mem_singleton.mpr rfl, hbox⟩

end Pair

end Adios.Selections
