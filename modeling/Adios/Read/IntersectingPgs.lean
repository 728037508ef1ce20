import Adios.Transforms.GlobalRead
import Mathlib.Data.List.Perm.Subperm

/-!
# Read — the blocks that a selection meets

`adios_find_intersecting_pgs` of `core/adios_read_ext.c`: the blocks of some steps that share an
element with a selection. One loop goes through the blocks by their numbers in the file and counts
the step and the number in the step along. `compute_blockidx_range` is the same function as in the
transform layer.
-/

namespace Adios.IntersectingPgs

open List Selections Subvolume Transforms

/-- `ADIOS_PG_INTERSECTION` -/
structure PgIntersection where
  timestep : Nat
  blockidx : Nat
  blockidxInTimestep : Nat
  intersectionSel : Selections.Selection
  pgBoundsSel : List Segment

abbrev Place : Type := Nat × Nat × Nat

def PgIntersection.place (i : PgIntersection) : Place :=
  (i.timestep, i.blockidx, i.blockidxInTimestep)

/-- `ADIOS_PG_INTERSECTIONS` and `intersection_capacity`, the number of places in the array. -/
structure Results where
  intersections : List PgIntersection
  capacity : Nat

/-- `calloc (INITIAL_INTERSECTION_CAPACITY, …)` -/
def Results.initial : Results := ⟨[], 16⟩

def Results.store (r : Results) (i : PgIntersection) : Except Fault Results := do
  let capacity ←
    if r.intersections.length = r.capacity then
      if 2147483648 ≤ r.capacity * 2 then .error .signedOverflow else .ok (r.capacity * 2)
    else .ok r.capacity
  if capacity ≤ r.intersections.length then .error .outOfBounds
  else return ⟨r.intersections ++ [i], capacity⟩

/-- A call for a variable with blocks in its steps, a bounding box or a list of points, and some of
the steps. -/
structure Search where
  mallocZero : Bool
  nblocks : List Nat
  /-- `start` and `count` of each block, one step after the other -/
  blockinfo : List (List Segment)
  sel : Selections.Selection
  fromStep : Nat
  nsteps : Nat
  length : blockinfo.length = nblocks.sum
  /-- `sum_nblocks` is an `int`. -/
  total : nblocks.sum < 2147483648
  block_global : ∀ vb ∈ blockinfo, (Selections.Selection.boundingBox vb).Global
  block_ndim : ∀ vb ∈ blockinfo, vb.length = sel.ndim
  sel_global : sel.Global
  window : fromStep + nsteps ≤ nblocks.length

namespace Search

variable (s : Search)

def visit (blockidx timestep timestepBlockidx : Nat) (results : Results) :
    Except Fault Results :=
  match s.blockinfo[blockidx]? with
  | none => .error .outOfBounds
  | some vb => do
    match ← intersectGlobal s.mallocZero (.boundingBox vb) s.sel with
    | some pgIntersectionSel =>
      results.store ⟨timestep, blockidx, timestepBlockidx, pgIntersectionSel, vb⟩
    | none => return results

/-- `while (blockidx != end_blockidx)`, with the number of blocks that are left. -/
def findLoop : (left blockidx timestep timestepBlockidx : Nat) → Results → Except Fault Results
  | 0, _, _, _, results => .ok results
  | left + 1, blockidx, timestep, timestepBlockidx, results => do
    let results ← s.visit blockidx timestep timestepBlockidx results
    match s.nblocks[timestep]? with
    | none => .error .outOfBounds
    | some n =>
      if timestepBlockidx + 1 = n then findLoop left (blockidx + 1) (timestep + 1) 0 results
      else findLoop left (blockidx + 1) timestep (timestepBlockidx + 1) results

/-- `adios_find_intersecting_pgs`, behind
`assert (firststep >= 0 && to_steps <= varinfo->nsteps)`. -/
def findIntersectingPgs : Except Fault (List PgIntersection) :=
  match computeBlockidxRange s.nblocks s.fromStep (s.fromStep + s.nsteps) with
  | some (start, stop) => do
    let results ← s.findLoop (stop - start) start s.fromStep 0 .initial
    return results.intersections
  -- `start_blockidx` or `end_blockidx` is not initialised
  | none => .error .outOfBounds

/-! ## What is to be found -/

def places : List Place :=
  (List.range' s.fromStep s.nsteps).flatMap fun t =>
    (List.range (s.nblocks.getD t 0)).map fun i => (t, (s.nblocks.take t).sum + i, i)

def block (b : Nat) : List Segment := s.blockinfo[b]?.getD []

def Meets (b : Nat) : Prop := ∃ p, Elements (s.block b) p ∧ s.sel.Has p

/-- The results are the blocks of the steps that share an element with the selection, in the order
of the file, each once, with its step, its number in the step, its bounds and what it shares. -/
structure Finds (result : List PgIntersection) : Prop where
  places : (result.map PgIntersection.place).Sublist s.places
  complete : ∀ p ∈ s.places, p ∈ result.map PgIntersection.place ↔ s.Meets p.2.1
  shares : ∀ r ∈ result, r.pgBoundsSel = s.block r.blockidx ∧ r.intersectionSel.Stored ∧
    ∀ q, r.intersectionSel.Has q ↔ Elements (s.block r.blockidx) q ∧ s.sel.Has q

def Right : Prop := ∃ result, s.findIntersectingPgs = .ok result ∧ s.Finds result

def IsPair (b : Nat) (q : Pair) : Prop := q.s1 = .boundingBox (s.block b) ∧ q.s2 = s.sel

/-- There is a step; for each block of the steps, the intersection of the block and the selection
comes out right; no step in front of a block that shares an element is without blocks; and the
number of these blocks does not overflow the size of the array. -/
structure Clear : Prop where
  steps : 0 < s.nsteps
  told : ∀ p ∈ s.places, ∃ q, s.IsPair p.2.1 q ∧ q.ClearInOrder s.mallocZero
  full : ∀ p ∈ s.places, s.Meets p.2.1 → ∀ t, s.fromStep ≤ t → t < p.1 →
    0 < s.nblocks.getD t 0
  count : ∀ ps : List Place, ps.Sublist s.places → (∀ p ∈ ps, s.Meets p.2.1) →
    ps.length ≤ 1073741824

variable {s}

/-! ## The steps and their blocks -/

variable {p : Place} {t b : Nat}

theorem mem_places_iff : p ∈ s.places ↔
    s.fromStep ≤ p.1 ∧ p.1 < s.fromStep + s.nsteps ∧ p.2.2 < s.nblocks.getD p.1 0 ∧
      p.2.1 = (s.nblocks.take p.1).sum + p.2.2 := by
  obtain ⟨t, b, i⟩ := p
  simp only [places, mem_flatMap, mem_range'_1, mem_map, mem_range, Prod.mk.injEq]
  constructor
  · rintro ⟨t, ⟨hle, hlt⟩, i, hi, rfl, rfl, rfl⟩
    exact ⟨hle, hlt, hi, rfl⟩
  · rintro ⟨hle, hlt, hi, rfl⟩
    exact ⟨t, ⟨hle, hlt⟩, i, hi, rfl, rfl, rfl⟩

theorem place_unique {p' : Place} (h : p ∈ s.places) (h' : p' ∈ s.places) (hb : p.2.1 = p'.2.1) :
    p = p' := by
  obtain ⟨-, -, hi, hp⟩ := mem_places_iff.mp h
  obtain ⟨-, -, hi', hp'⟩ := mem_places_iff.mp h'
  obtain ⟨ht, hsame⟩ := step_unique hi hi' (hp.symm.trans (hb.trans hp'))
  exact Prod.ext ht (Prod.ext hb hsame)

def start (s : Search) : Nat := (s.nblocks.take s.fromStep).sum

def count (s : Search) : Nat := (s.nblocks.take (s.fromStep + s.nsteps)).sum - s.start

theorem blockidxs_steps (nblocks : List Nat) (first n : Nat) :
    ((List.range' first n).flatMap fun t =>
      (List.range (nblocks.getD t 0)).map fun i => (nblocks.take t).sum + i) =
      List.range' (nblocks.take first).sum
        ((nblocks.take (first + n)).sum - (nblocks.take first).sum) := by
  induction n with
  | zero => rw [Nat.add_zero, Nat.sub_self]; rfl
  | succ n ih =>
    have hle : (nblocks.take first).sum ≤ (nblocks.take (first + n)).sum := by
      rcases Nat.eq_zero_or_pos n with rfl | hpos
      · exact Nat.le_refl _
      · have hadd := sum_take_add_le nblocks (show first < first + n by omega)
        omega
    have hstep : (List.range (nblocks.getD (first + n) 0)).map
        (fun i => (nblocks.take (first + n)).sum + i) =
        List.range' (nblocks.take (first + n)).sum (nblocks.getD (first + n) 0) := by
      rw [range_eq_range', map_add_range', Nat.add_zero]
    have hsum := Transforms.sum_take_succ nblocks (first + n)
    rw [range'_concat, flatMap_append, ih, flatMap_singleton, Nat.one_mul, hstep]
    rw [show first + (n + 1) = first + n + 1 by omega, hsum]
    generalize (nblocks.take (first + n)).sum = stop at hle
    obtain ⟨m, rfl⟩ := Nat.exists_eq_add_of_le hle
    rw [Nat.add_sub_cancel_left, range'_append_1, Nat.add_assoc, Nat.add_sub_cancel_left]

theorem map_blockidx_places : s.places.map (·.2.1) = List.range' s.start s.count := by
  have hsteps := blockidxs_steps s.nblocks s.fromStep s.nsteps
  rw [start, count, start, ← hsteps, places, map_flatMap]
  refine congrArg (List.flatMap · _) (funext fun t => ?_)
  rw [map_map]
  rfl

theorem length_places : s.places.length = s.count := by
  have hlength := congrArg List.length (@map_blockidx_places s)
  rwa [length_map, length_range'] at hlength

theorem blockidx_getElem {k : Nat} (h : k < s.places.length) :
    s.places[k].2.1 = s.start + k := by
  have hget := congrArg (·[k]?) (@map_blockidx_places s)
  have hk : k < s.count := by rwa [← length_places]
  simp only [getElem?_map, getElem?_eq_getElem h, Option.map_some] at hget
  rw [getElem?_range' hk, Nat.one_mul] at hget
  exact Option.some.inj hget

theorem blockidx_lt (h : p ∈ s.places) : p.2.1 < s.blockinfo.length := by
  obtain ⟨-, -, hi, hb⟩ := mem_places_iff.mp h
  have hle := sum_take_add_le s.nblocks (lt_length_of_lt_getD hi)
  rw [take_length] at hle
  rw [s.length, hb]
  omega

/-! ## The counters -/

def next (nblocks : List Nat) (c : Nat × Nat) : Nat × Nat :=
  if c.2 + 1 = nblocks.getD c.1 0 then (c.1 + 1, 0) else (c.1, c.2 + 1)

def counters (s : Search) (k : Nat) : Nat × Nat := (next s.nblocks)^[k] (s.fromStep, 0)

theorem counters_succ (k : Nat) : s.counters (k + 1) = next s.nblocks (s.counters k) :=
  Function.iterate_succ_apply' _ _ _

theorem iterate_next {nblocks : List Nat} {i : Nat} (h : i < nblocks.getD t 0) :
    (next nblocks)^[i] (t, 0) = (t, i) := by
  induction i with
  | zero => rfl
  | succ i ih =>
    rw [Function.iterate_succ_apply', ih (by omega), next, if_neg (by simp only; omega)]

theorem iterate_next_step {nblocks : List Nat} (h : 0 < nblocks.getD t 0) :
    (next nblocks)^[nblocks.getD t 0] (t, 0) = (t + 1, 0) := by
  obtain ⟨n, hn⟩ := Nat.exists_eq_succ_of_ne_zero (Nat.ne_of_gt h)
  rw [hn, Function.iterate_succ_apply', iterate_next (by omega), next, if_pos hn.symm]

theorem counters_step {n : Nat}
    (h : ∀ t, s.fromStep ≤ t → t < s.fromStep + n → 0 < s.nblocks.getD t 0) :
    s.counters ((s.nblocks.take (s.fromStep + n)).sum - s.start) = (s.fromStep + n, 0) ∧
      s.start ≤ (s.nblocks.take (s.fromStep + n)).sum := by
  induction n with
  | zero =>
    rw [Nat.add_zero, start, Nat.sub_self]
    exact ⟨rfl, Nat.le_refl _⟩
  | succ n ih =>
    obtain ⟨hcounters, hle⟩ := ih fun t hfrom hlt => h t hfrom (by omega)
    have hsum := Transforms.sum_take_succ s.nblocks (s.fromStep + n)
    have hpos := h (s.fromStep + n) (Nat.le_add_right _ _) (by omega)
    rw [← Nat.add_assoc, hsum]
    refine ⟨?_, by omega⟩
    have hrounds : (s.nblocks.take (s.fromStep + n)).sum + s.nblocks.getD (s.fromStep + n) 0 -
        s.start = s.nblocks.getD (s.fromStep + n) 0 +
          ((s.nblocks.take (s.fromStep + n)).sum - s.start) := by omega
    unfold counters at hcounters ⊢
    rw [hrounds, Function.iterate_add_apply, hcounters, iterate_next_step hpos]

theorem counters_of_full (hp : p ∈ s.places)
    (h : ∀ t, s.fromStep ≤ t → t < p.1 → 0 < s.nblocks.getD t 0) :
    s.counters (p.2.1 - s.start) = (p.1, p.2.2) := by
  obtain ⟨hfrom, -, hi, hb⟩ := mem_places_iff.mp hp
  obtain ⟨n, hn⟩ := Nat.exists_eq_add_of_le hfrom
  rw [hn] at hi hb h
  obtain ⟨hcounters, hle⟩ := counters_step h
  have hrounds : p.2.1 - s.start = p.2.2 + ((s.nblocks.take (s.fromStep + n)).sum - s.start) := by
    omega
  unfold counters at hcounters ⊢
  rw [hrounds, Function.iterate_add_apply, hcounters, iterate_next hi, hn]

theorem counters_le (hfrom : s.fromStep ≤ t) (h : s.nblocks.getD t 0 = 0) (k : Nat) :
    (s.counters k).1 ≤ t := by
  induction k with
  | zero => exact hfrom
  | succ k ih =>
    rw [counters_succ, next]
    split_ifs with hlast
    · -- it is not this step that ends
      have hne : (s.counters k).1 ≠ t := by
        rintro heq
        rw [heq, h] at hlast
        exact absurd hlast (Nat.succ_ne_zero _)
      exact Nat.lt_of_le_of_ne ih hne
    · exact ih

theorem sum_counters_le (k : Nat) :
    s.fromStep ≤ (s.counters k).1 ∧
      (s.nblocks.take (s.counters k).1).sum + (s.counters k).2 ≤ s.start + k := by
  induction k with
  | zero => exact ⟨Nat.le_refl _, Nat.le_refl _⟩
  | succ k ih =>
    rw [counters_succ, next]
    have hsum := Transforms.sum_take_succ s.nblocks (s.counters k).1
    split_ifs with hlast
    · refine ⟨Nat.le_succ_of_le ih.1, ?_⟩
      show (s.nblocks.take ((s.counters k).1 + 1)).sum + 0 ≤ _
      omega
    · refine ⟨ih.1, ?_⟩
      show (s.nblocks.take (s.counters k).1).sum + ((s.counters k).2 + 1) ≤ _
      omega

theorem counters_lt {k : Nat} (h : k < s.count) : (s.counters k).1 < s.nblocks.length := by
  obtain ⟨hfrom, hle⟩ := @sum_counters_le s k
  have hwindow := s.window
  by_contra hge
  have hstop : (s.nblocks.take (s.fromStep + s.nsteps)).sum ≤
      (s.nblocks.take (s.counters k).1).sum := by
    rw [take_of_length_le (Nat.not_lt.mp hge)]
    have hsplit := congrArg List.sum (take_append_drop (s.fromStep + s.nsteps) s.nblocks)
    rw [sum_append] at hsplit
    omega
  unfold count at h
  omega

/-! ## The intersections -/

def inter (s : Search) (b : Nat) : Option Selections.Selection :=
  match intersectGlobal s.mallocZero (.boundingBox (s.block b)) s.sel with
  | .ok r => r
  | .error _ => none

theorem getElem?_blockinfo (h : b < s.blockinfo.length) :
    s.blockinfo[b]? = some (s.block b) := by
  rw [block, getElem?_eq_getElem h, Option.getD_some]

theorem block_mem (h : b < s.blockinfo.length) : s.block b ∈ s.blockinfo :=
  mem_of_getElem? (getElem?_blockinfo h)

theorem exists_pair (h : b < s.blockinfo.length) : ∃ q, s.IsPair b q :=
  ⟨⟨.boundingBox (s.block b), s.sel, s.block_global _ (block_mem h), s.sel_global,
    s.block_ndim _ (block_mem h)⟩, rfl, rfl⟩

theorem intersectGlobal_eq (h : b < s.blockinfo.length) :
    intersectGlobal s.mallocZero (.boundingBox (s.block b)) s.sel = .ok (s.inter b) := by
  have hndim := s.block_ndim _ (block_mem h)
  have hends := s.block_global _ (block_mem h)
  have hglobal := s.sel_global
  suffices hok : ∃ r, intersectGlobal s.mallocZero (.boundingBox (s.block b)) s.sel = .ok r by
    obtain ⟨r, hr⟩ := hok
    rw [inter, hr]
  show ∃ r, intersectBb s.mallocZero (s.block b) s.sel = .ok r
  cases hsel : s.sel with
  | boundingBox bb =>
    rw [hsel] at hndim
    have hndim : ¬(s.block b).length ≠ bb.length := not_not.mpr hndim
    show ∃ r, intersectBbBb s.mallocZero (s.block b) bb = .ok r
    rw [intersectBbBb, if_neg hndim]
    split_ifs
    · exact ⟨_, rfl⟩
    · exact ⟨none, rfl⟩
  | points pts =>
    rw [hsel] at hndim hglobal
    exact exists_intersectBbPts hends hglobal hndim
  | writeblock => exact ⟨none, rfl⟩
  | auto => exact ⟨none, rfl⟩

def RightAt (s : Search) (b : Nat) : Prop :=
  (s.inter b = none ↔ ¬s.Meets b) ∧ ∀ sel, s.inter b = some sel →
    sel.Stored ∧ ∀ q, sel.Has q ↔ Elements (s.block b) q ∧ s.sel.Has q

theorem rightAt_iff (h : b < s.blockinfo.length) :
    s.RightAt b ↔ ∃ q, s.IsPair b q ∧ q.ClearInOrder s.mallocZero := by
  have hright {q : Pair} (hq : s.IsPair b q) :
      q.Right (intersectGlobal s.mallocZero q.s1 q.s2) ↔ s.RightAt b := by
    obtain ⟨h1, h2⟩ := hq
    rw [Pair.Right, h1, h2, intersectGlobal_eq h]
    constructor
    · rintro ⟨r, hr, hresult⟩
      cases hr
      exact hresult
    · exact fun hresult => ⟨_, rfl, hresult⟩
  constructor
  · intro hat
    obtain ⟨q, hq⟩ := exists_pair h
    exact ⟨q, hq, (Pair.right_box_iff hq.1).mp ((hright hq).mpr hat)⟩
  · rintro ⟨q, hq, hclear⟩
    exact (hright hq).mp ((Pair.right_box_iff hq.1).mpr hclear)

end Search

/-! ## The array -/

namespace Results

structure Wf (r : Results) : Prop where
  room : r.intersections.length ≤ r.capacity
  size : ∃ j ≤ 26, r.capacity = 16 * 2 ^ j

theorem wf_initial : initial.Wf := ⟨by decide, 0, by decide, rfl⟩

variable {r r' : Results}

theorem Wf.pos (h : r.Wf) : 0 < r.capacity := by
  obtain ⟨j, -, hsize⟩ := h.size
  have hpow := Nat.two_pow_pos j
  omega

theorem Wf.capacity_le (h : r.Wf) : r.capacity ≤ 1073741824 := by
  obtain ⟨j, hj, hsize⟩ := h.size
  have hpow : 2 ^ j ≤ 2 ^ 26 := Nat.pow_le_pow_right (by decide) hj
  omega

theorem Wf.double (h : r.Wf) (hlt : r.capacity * 2 < 2147483648) :
    ∃ j ≤ 26, r.capacity * 2 = 16 * 2 ^ j := by
  obtain ⟨j, hj, hsize⟩ := h.size
  rcases Nat.eq_or_lt_of_le hj with rfl | hj
  · omega
  · exact ⟨j + 1, hj, by rw [hsize, Nat.pow_succ, Nat.mul_assoc]⟩

theorem store_eq (h : r.Wf) (i : PgIntersection) :
    r.store i =
      if r.intersections.length = r.capacity then
        if 2147483648 ≤ r.capacity * 2 then .error .signedOverflow
        else .ok ⟨r.intersections ++ [i], r.capacity * 2⟩
      else .ok ⟨r.intersections ++ [i], r.capacity⟩ := by
  have hpos := h.pos
  have hroom := h.room
  unfold store
  by_cases hfull : r.intersections.length = r.capacity
  · rw [if_pos hfull, if_pos hfull]
    split_ifs with hover
    · rfl
    · exact if_neg (by omega)
  · rw [if_neg hfull, if_neg hfull]
    exact if_neg (by omega)

theorem Wf.store (h : r.Wf) {i : PgIntersection} (hstore : r.store i = .ok r') :
    r'.Wf ∧ r'.intersections = r.intersections ++ [i] := by
  have hroom := h.room
  have hpos := h.pos
  have hlength : (r.intersections ++ [i]).length = r.intersections.length + 1 := by
    rw [length_append, length_singleton]
  rw [store_eq h] at hstore
  split_ifs at hstore with hfull hover
  · cases hstore
    refine ⟨⟨?_, h.double (Nat.not_le.mp hover)⟩, rfl⟩
    show (r.intersections ++ [i]).length ≤ r.capacity * 2
    omega
  · cases hstore
    refine ⟨⟨?_, h.size⟩, rfl⟩
    show (r.intersections ++ [i]).length ≤ r.capacity
    omega

theorem Wf.exists_store (h : r.Wf) (i : PgIntersection)
    (hlt : r.intersections.length < 1073741824) : ∃ r', r.store i = .ok r' := by
  rw [store_eq h]
  split_ifs with hfull hover
  · omega
  · exact ⟨_, rfl⟩
  · exact ⟨_, rfl⟩

end Results

/-! ## The loop -/

namespace Search

variable {s : Search}

def entry (s : Search) (k : Nat) : Option PgIntersection :=
  (s.inter (s.start + k)).map fun sel =>
    ⟨(s.counters k).1, s.start + k, (s.counters k).2, sel, s.block (s.start + k)⟩

theorem blockidx_lt_of_lt {k : Nat} (h : k < s.count) : s.start + k < s.blockinfo.length := by
  rw [← length_places] at h
  rw [← blockidx_getElem h]
  exact blockidx_lt (getElem_mem h)

theorem visit_eq {k : Nat} (h : k < s.count) (results : Results) :
    s.visit (s.start + k) (s.counters k).1 (s.counters k).2 results =
      match s.entry k with
      | some i => results.store i
      | none => .ok results := by
  have hlt := blockidx_lt_of_lt h
  rw [visit, getElem?_blockinfo hlt]
  dsimp only
  rw [intersectGlobal_eq hlt, ok_bind, entry]
  cases s.inter (s.start + k) <;> rfl

theorem findLoop_succ {k : Nat} (h : k < s.count) (left : Nat) (results : Results) :
    s.findLoop (left + 1) (s.start + k) (s.counters k).1 (s.counters k).2 results =
      s.visit (s.start + k) (s.counters k).1 (s.counters k).2 results >>=
        s.findLoop left (s.start + (k + 1)) (s.counters (k + 1)).1 (s.counters (k + 1)).2 := by
  have hlt := counters_lt h
  rw [findLoop]
  refine congrArg _ (funext fun results => ?_)
  rw [getElem?_eq_getElem hlt, counters_succ, next, getD_eq_getElem?_getD,
    getElem?_eq_getElem hlt, Option.getD_some]
  dsimp only
  split_ifs <;> rfl

theorem findLoop_ok {left k : Nat} {results out : Results} (hle : k + left ≤ s.count)
    (hwf : results.Wf)
    (h : s.findLoop left (s.start + k) (s.counters k).1 (s.counters k).2 results = .ok out) :
    out.Wf ∧ out.intersections =
      results.intersections ++ (List.range' k left).filterMap s.entry := by
  induction left generalizing k results with
  | zero =>
    cases h
    exact ⟨hwf, (append_nil _).symm⟩
  | succ left ih =>
    rw [findLoop_succ (by omega), visit_eq (by omega)] at h
    obtain ⟨results', hvisit, hrest⟩ := exists_of_bind_eq_ok h
    rw [range'_succ]
    cases hentry : s.entry k with
    | none =>
      rw [hentry] at hvisit
      cases hvisit
      rw [filterMap_cons_none hentry]
      exact ih (by omega) hwf hrest
    | some i =>
      rw [hentry] at hvisit
      obtain ⟨hwf', hstored⟩ := hwf.store hvisit
      obtain ⟨hout, hlist⟩ := ih (by omega) hwf' hrest
      rw [filterMap_cons_some hentry, hlist, hstored, append_assoc]
      exact ⟨hout, rfl⟩

theorem exists_findLoop {left k : Nat} {results : Results} (hle : k + left ≤ s.count)
    (hwf : results.Wf) (hroom : results.intersections.length +
      ((List.range' k left).filterMap s.entry).length ≤ 1073741824) :
    ∃ out, s.findLoop left (s.start + k) (s.counters k).1 (s.counters k).2 results = .ok out := by
  induction left generalizing k results with
  | zero => exact ⟨results, rfl⟩
  | succ left ih =>
    rw [findLoop_succ (by omega), visit_eq (by omega)]
    rw [range'_succ] at hroom
    cases hentry : s.entry k with
    | none =>
      rw [filterMap_cons_none hentry] at hroom
      exact ih (by omega) hwf hroom
    | some i =>
      rw [filterMap_cons_some hentry, length_cons] at hroom
      obtain ⟨results', hstore⟩ := hwf.exists_store i (by omega)
      obtain ⟨hwf', hstored⟩ := hwf.store hstore
      dsimp only
      rw [hstore, ok_bind]
      refine ih (by omega) hwf' ?_
      rw [hstored, length_append, length_singleton]
      omega

def found (s : Search) : List PgIntersection := (List.range s.count).filterMap s.entry

theorem computeBlockidxRange_eq (h : 0 < s.nsteps) :
    computeBlockidxRange s.nblocks s.fromStep (s.fromStep + s.nsteps) =
      some (s.start, (s.nblocks.take (s.fromStep + s.nsteps)).sum) :=
  Transforms.computeBlockidxRange_eq (by omega) s.window

theorem findIntersectingPgs_eq (h : 0 < s.nsteps) : s.findIntersectingPgs =
    (s.findLoop s.count (s.start + 0) (s.counters 0).1 (s.counters 0).2 .initial).map
      Results.intersections := by
  rw [findIntersectingPgs, computeBlockidxRange_eq h]
  rfl

theorem findIntersectingPgs_ok (h : 0 < s.nsteps) {result : List PgIntersection}
    (hrun : s.findIntersectingPgs = .ok result) :
    result = s.found ∧ s.found.length ≤ 1073741824 := by
  rw [findIntersectingPgs_eq h] at hrun
  cases hloop : s.findLoop s.count (s.start + 0) (s.counters 0).1 (s.counters 0).2 .initial with
  | error f =>
    rw [hloop] at hrun
    cases hrun
  | ok out =>
    rw [hloop] at hrun
    cases hrun
    obtain ⟨hwf, hlist⟩ := findLoop_ok (by omega) Results.wf_initial hloop
    rw [← range_eq_range'] at hlist
    have hlength := Nat.le_trans hwf.room hwf.capacity_le
    rw [hlist] at hlength
    exact ⟨hlist, hlength⟩

theorem findIntersectingPgs_found (h : 0 < s.nsteps) (hroom : s.found.length ≤ 1073741824) :
    s.findIntersectingPgs = .ok s.found := by
  rw [found, range_eq_range'] at hroom
  obtain ⟨out, hloop⟩ := @exists_findLoop s s.count 0 .initial (by omega) Results.wf_initial
    (by rw [show Results.initial.intersections.length = 0 from rfl]; omega)
  have hrun : s.findIntersectingPgs = .ok out.intersections := by
    rw [findIntersectingPgs_eq h, hloop]
    rfl
  rw [hrun, (findIntersectingPgs_ok h hrun).1]

/-! ## Exactly when -/

theorem mem_found {r : PgIntersection} :
    r ∈ s.found ↔ ∃ k < s.count, s.entry k = some r := by
  simp only [found, mem_filterMap, mem_range]

theorem exists_place {p : Place} (hp : p ∈ s.places) :
    ∃ k, k < s.count ∧ s.places[k]? = some p ∧ p.2.1 = s.start + k := by
  obtain ⟨k, hk, rfl⟩ := getElem_of_mem hp
  exact ⟨k, by rwa [← length_places], getElem?_eq_getElem hk, blockidx_getElem hk⟩

theorem blockidx_entry {k : Nat} {r : PgIntersection} (h : s.entry k = some r) :
    ∃ sel, s.inter (s.start + k) = some sel ∧
      r = ⟨(s.counters k).1, s.start + k, (s.counters k).2, sel, s.block (s.start + k)⟩ := by
  obtain ⟨sel, hsel, hr⟩ := Option.map_eq_some_iff.mp h
  exact ⟨sel, hsel, hr.symm⟩

theorem rightAt_of_finds (h : s.Finds s.found) {p : Place} (hp : p ∈ s.places) :
    s.RightAt p.2.1 ∧ (s.Meets p.2.1 → s.counters (p.2.1 - s.start) = (p.1, p.2.2)) := by
  obtain ⟨k, hk, -, hb⟩ := exists_place hp
  have hcomplete := h.complete p hp
  have hrounds : p.2.1 - s.start = k := by omega
  rw [hrounds]
  cases hinter : s.inter p.2.1 with
  | none =>
    have hnot : p ∉ s.found.map PgIntersection.place := by
      intro hmem
      obtain ⟨r, hr, rfl⟩ := mem_map.mp hmem
      obtain ⟨k', -, hentry⟩ := mem_found.mp hr
      obtain ⟨sel, hsel, rfl⟩ := blockidx_entry hentry
      rw [show (PgIntersection.place _).2.1 = s.start + k' from rfl, hsel] at hinter
      cases hinter
    have hmeets : ¬s.Meets p.2.1 := fun hmeets => hnot (hcomplete.mpr hmeets)
    refine ⟨⟨?_, fun sel hsel => ?_⟩, fun hmeets' => absurd hmeets' hmeets⟩
    · exact ⟨fun _ => hmeets, fun _ => hinter⟩
    · rw [hinter] at hsel
      cases hsel
  | some sel =>
    rw [hb] at hinter
    have hentry : s.entry k = some ⟨(s.counters k).1, s.start + k, (s.counters k).2, sel,
      s.block (s.start + k)⟩ := by
      rw [entry, hinter]
      rfl
    have hmem := mem_found.mpr ⟨k, hk, hentry⟩
    have hplace := h.places.subset (mem_map_of_mem hmem)
    -- the counters make a place with the number of this one
    have hsame := place_unique hp hplace hb
    have hcounters : s.counters k = (p.1, p.2.2) := by
      rw [hsame]
      rfl
    have hmeets : s.Meets p.2.1 := hcomplete.mp (hsame ▸ mem_map_of_mem hmem)
    obtain ⟨-, hstored, hhas⟩ := h.shares _ hmem
    refine ⟨⟨?_, fun sel' hsel' => ?_⟩, fun _ => hcounters⟩
    · rw [hb, hinter]
      exact ⟨fun hnone => (by cases hnone), fun hnot => absurd (hb ▸ hmeets) hnot⟩
    · rw [hb, hinter] at hsel'
      cases hsel'
      rw [hb]
      exact ⟨hstored, hhas⟩

theorem filterMap_sublist {α : Type} {l : List α} {g : Nat → Option α}
    (h : ∀ k a, g k = some a → l[k]? = some a) (k n : Nat) :
    ((List.range' k n).filterMap g).Sublist (l.drop k) := by
  induction n generalizing k with
  | zero => exact nil_sublist _
  | succ n ih =>
    have hrest := ih (k + 1)
    rw [range'_succ]
    cases hg : g k with
    | none =>
      rw [filterMap_cons_none hg]
      rw [← drop_drop] at hrest
      exact hrest.trans (drop_sublist 1 _)
    | some a =>
      obtain ⟨hk, ha⟩ := List.getElem?_eq_some_iff.mp (h k a hg)
      rw [filterMap_cons_some hg, drop_eq_getElem_cons hk, ha]
      exact hrest.cons_cons a

theorem nodup_places : s.places.Nodup := by
  have hnodup : (List.range' s.start s.count).Nodup := nodup_range'
  rw [← map_blockidx_places] at hnodup
  exact List.Pairwise.of_map (·.2.1) (fun _ _ hne heq => hne (congrArg (·.2.1) heq)) hnodup

section Clear

variable (h : s.Clear)
include h

theorem Clear.rightAt {p : Place} (hp : p ∈ s.places) : s.RightAt p.2.1 :=
  (rightAt_iff (blockidx_lt hp)).mpr (h.told p hp)

theorem Clear.place_entry {k : Nat} {r : PgIntersection} (hk : k < s.count)
    (hentry : s.entry k = some r) : s.places[k]? = some r.place ∧ s.Meets r.blockidx := by
  obtain ⟨sel, hsel, rfl⟩ := blockidx_entry hentry
  have hk' : k < s.places.length := by rwa [length_places]
  have hp := getElem_mem hk'
  have hb := blockidx_getElem hk'
  have hright := h.rightAt hp
  rw [hb] at hright
  have hmeets : s.Meets (s.start + k) := by
    by_contra hnot
    rw [hright.1.mpr hnot] at hsel
    cases hsel
  have hcounters := counters_of_full hp (h.full _ hp (by rw [hb]; exact hmeets))
  rw [hb, Nat.add_sub_cancel_left] at hcounters
  refine ⟨?_, hmeets⟩
  rw [getElem?_eq_getElem hk', PgIntersection.place, hcounters]
  exact congrArg some (Prod.ext rfl (Prod.ext hb rfl))

theorem Clear.places_found : (s.found.map PgIntersection.place).Sublist s.places := by
  have hpick (k : Nat) (q : Place) (hq : (if k < s.count then (s.entry k).map PgIntersection.place
      else none) = some q) : s.places[k]? = some q := by
    split_ifs at hq with hk
    obtain ⟨r, hr, rfl⟩ := Option.map_eq_some_iff.mp hq
    exact (h.place_entry hk hr).1
  have hsublist := filterMap_sublist hpick 0 s.count
  rw [drop_zero, ← range_eq_range'] at hsublist
  have hsame : s.found.map PgIntersection.place = (List.range s.count).filterMap fun k =>
      if k < s.count then (s.entry k).map PgIntersection.place else none := by
    rw [found, map_filterMap]
    refine filterMap_congr fun k hk => ?_
    rw [if_pos (mem_range.mp hk)]
  rw [hsame]
  exact hsublist

theorem Clear.meets_of_found {r : PgIntersection} (hr : r ∈ s.found) : s.Meets r.blockidx := by
  obtain ⟨k, hk, hentry⟩ := mem_found.mp hr
  exact (h.place_entry hk hentry).2

theorem Clear.finds : s.Finds s.found := by
  refine ⟨h.places_found, fun p hp => ⟨fun hmem => ?_, fun hmeets => ?_⟩, fun r hr => ?_⟩
  · obtain ⟨r, hr, rfl⟩ := mem_map.mp hmem
    exact h.meets_of_found hr
  · obtain ⟨k, hk, hplace, hb⟩ := exists_place hp
    have hright := h.rightAt hp
    cases hinter : s.inter p.2.1 with
    | none => exact absurd hmeets (hright.1.mp hinter)
    | some sel =>
      rw [hb] at hinter
      have hentry : s.entry k = some ⟨(s.counters k).1, s.start + k, (s.counters k).2, sel,
          s.block (s.start + k)⟩ := by
        rw [entry, hinter]
        rfl
      have hsame := (h.place_entry hk hentry).1
      rw [hplace] at hsame
      rw [Option.some.inj hsame]
      exact mem_map_of_mem (mem_found.mpr ⟨k, hk, hentry⟩)
  · obtain ⟨k, hk, hentry⟩ := mem_found.mp hr
    obtain ⟨sel, hsel, rfl⟩ := blockidx_entry hentry
    have hk' : k < s.places.length := by rwa [length_places]
    have hright := h.rightAt (getElem_mem hk')
    rw [blockidx_getElem hk'] at hright
    exact ⟨rfl, hright.2 sel hsel⟩

theorem Clear.length_found_le : s.found.length ≤ 1073741824 := by
  have hcount := h.count _ h.places_found fun p hp => by
    obtain ⟨r, hr, rfl⟩ := mem_map.mp hp
    exact h.meets_of_found hr
  rwa [length_map] at hcount

end Clear

/-! ### No steps -/

theorem blockidxRangeLoop_passed {n timestep curblocks : Nat} {start : Option Nat}
    {nblocks : List Nat} (h : n < timestep) :
    blockidxRangeLoop n n timestep curblocks start nblocks = none := by
  induction nblocks generalizing timestep curblocks start with
  | nil => rfl
  | cons _ nblocks ih =>
    rw [blockidxRangeLoop, if_neg (by omega)]
    exact ih (by omega)

theorem blockidxRangeLoop_empty {n timestep curblocks : Nat} {nblocks : List Nat}
    (h : timestep ≤ n) : blockidxRangeLoop n n timestep curblocks none nblocks = none := by
  induction nblocks generalizing timestep curblocks with
  | nil => rfl
  | cons _ nblocks ih =>
    rw [blockidxRangeLoop]
    by_cases hlast : timestep + 1 = n
    · rw [if_pos hlast, if_neg (by omega)]
      rfl
    · rw [if_neg hlast]
      rcases Nat.eq_or_lt_of_le h with rfl | hlt
      · exact blockidxRangeLoop_passed (Nat.lt_succ_self _)
      · rw [if_neg (Nat.ne_of_lt hlt)]
        exact ih hlt

theorem steps_of_right (h : s.Right) : 0 < s.nsteps := by
  by_contra hzero
  obtain ⟨result, hrun, -⟩ := h
  have hnone : computeBlockidxRange s.nblocks s.fromStep (s.fromStep + s.nsteps) = none := by
    rw [Nat.eq_zero_of_not_pos hzero]
    exact blockidxRangeLoop_empty (Nat.zero_le _)
  rw [findIntersectingPgs, hnone] at hrun
  cases hrun

/-- Exactly then the blocks that meet the selection are found. -/
theorem intersectingPgs_right_iff (s : Search) : s.Right ↔ s.Clear := by
  constructor
  · intro h
    have hsteps := steps_of_right h
    obtain ⟨result, hrun, hfinds⟩ := h
    obtain ⟨rfl, hlength⟩ := findIntersectingPgs_ok hsteps hrun
    refine ⟨hsteps, fun p hp => ?_, fun p hp hmeets t hfrom hlt => ?_, fun ps hps hmeets => ?_⟩
    · exact (rightAt_iff (blockidx_lt hp)).mp (rightAt_of_finds hfinds hp).1
    · -- the counters would not get past a step without blocks
      have hcounters := (rightAt_of_finds hfinds hp).2 hmeets
      by_contra hempty
      have hle := counters_le hfrom (Nat.eq_zero_of_not_pos hempty) (p.2.1 - s.start)
      rw [hcounters] at hle
      exact absurd hlt (Nat.not_lt.mpr hle)
    · have hsubset : ps ⊆ s.found.map PgIntersection.place := fun p hp =>
        (hfinds.complete p (hps.subset hp)).mpr (hmeets p hp)
      have hle := (subperm_of_subset (nodup_places.sublist hps) hsubset).length_le
      rw [length_map] at hle
      exact Nat.le_trans hle hlength
  · intro h
    exact ⟨s.found, findIntersectingPgs_found h.steps h.length_found_le, h.finds⟩

def emptyFirst : Search where
  mallocZero := true
  nblocks := [0, 1]
  blockinfo := [[⟨0, 4⟩]]
  sel := .boundingBox [⟨0, 4⟩]
  fromStep := 0
  nsteps := 2
  length := rfl
  total := by decide
  block_global := forall_mem_singleton.mpr (forall_mem_singleton.mpr (by decide))
  block_ndim := forall_mem_singleton.mpr rfl
  sel_global := forall_mem_singleton.mpr (by decide)
  window := by decide

/-- The block of the second step is said to be one of the first. -/
theorem not_right_emptyFirst : ¬emptyFirst.Right := by
  rintro ⟨result, hrun, hfinds⟩
  have hfound : emptyFirst.findIntersectingPgs =
      .ok [⟨0, 0, 0, .boundingBox [⟨0, 4⟩], [⟨0, 4⟩]⟩] := by rfl
  rw [hfound] at hrun
  cases hrun
  have hplaces : emptyFirst.places = [(1, 0, 0)] := by decide
  have hmem := hfinds.places.subset (mem_map_of_mem (mem_singleton_self _))
  rw [hplaces] at hmem
  exact absurd hmem (by decide)

end Search

end Adios.IntersectingPgs
