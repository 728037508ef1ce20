import Adios.Amr.AppendKept
import Adios.Lists.Marks

/-!
# MPI_AMR — the groups of the processes

`adios_mpi_amr_set_aggregation_parameters`, for processes that are given no color of their own: the
number of aggregators, the group of each process and its place there, and the marks of the
aggregators, which a loop of its own sets.
-/

namespace Adios.Amr

open List Lists

/-- `md->g_color2` -/
def color2 (nproc aggregators rank : Nat) : Nat :=
  let aggrGroupSize := nproc / aggregators
  let remain := nproc - aggrGroupSize * aggregators
  if remain = 0 then rank % aggrGroupSize
  else if rank < (aggrGroupSize + 1) * remain then rank % (aggrGroupSize + 1)
  else (rank - (aggrGroupSize + 1) * remain) % aggrGroupSize

/-- "`md->g_is_aggregator[index] = 1`" -/
def markAggregator : List Int32 → Nat → Except Fault (List Int32) :=
  mark 1 .outOfBounds fun index => .ok (some index)

/-- What the function leaves in `md`. -/
structure Roles where
  gNumAggregators : Nat
  gIsAggregator : List Int32
  gColor1 : Nat
  gColor2 : Nat

/-- `adios_mpi_amr_set_aggregation_parameters` -/
def setAggregationParameters (nproc : Nat) (gNumAggregators : Int) (rank : Nat) :
    Except Fault Roles := do
  let aggregators := aggregatorCount nproc gNumAggregators
  let aggrGroupSize := nproc / aggregators
  let remain := nproc - aggrGroupSize * aggregators
  let gIsAggregator ← (aggregatorRanks aggrGroupSize remain aggregators 0 0).foldlM markAggregator
    (List.replicate nproc 0)
  return {
    gNumAggregators := aggregators
    gIsAggregator
    gColor1 := color1 nproc aggregators rank
    gColor2 := color2 nproc aggregators rank }

/-! ## What the groups are for -/

structure Job where
  nproc : Nat
  gNumAggregators : Int
  nproc_pos : 0 < nproc
  /-- A rank is an `int`. -/
  nproc_lt : nproc < 2147483648

namespace Job

variable (j : Job)

/-- The number that is asked for, or all processes if it is not from 1 to `nproc`. -/
def aggregators : Nat := aggregatorCount j.nproc j.gNumAggregators

def group (c : Nat) : List Nat :=
  (List.range j.nproc).filter fun rank => color1 j.nproc j.aggregators rank = c

/-- A process is at its place in its group, and knows all marks: that of the first of each group,
and no other. -/
structure RolesRight (rank : Nat) (a : Roles) : Prop where
  number : a.gNumAggregators = j.aggregators
  color_lt : a.gColor1 < j.aggregators
  place : (j.group a.gColor1)[a.gColor2]? = some rank
  length_marks : a.gIsAggregator.length = j.nproc
  marks : ∀ k < j.nproc, a.gIsAggregator[k]? = some
    (if (j.group (color1 j.nproc j.aggregators k)).head? = some k then 1 else 0)

/-- What the processes find is a partition of the ranks into groups of ranks in a row, as many as
there are to be aggregators, with sizes that differ by one at most. -/
structure Partitioned : Prop where
  clamped : 1 ≤ j.aggregators ∧ j.aggregators ≤ j.nproc
  group_eq : ∀ c < j.aggregators, ∃ first size, j.group c = List.range' first size ∧ 0 < size ∧
    ∀ d < j.aggregators, size ≤ (j.group d).length + 1
  found : ∀ rank < j.nproc, ∃ a,
    setAggregationParameters j.nproc j.gNumAggregators rank = .ok a ∧ j.RolesRight rank a

/-- No `int` overflows, in the loop or in the divisions. -/
structure Fits : Prop where
  product : j.nproc / j.aggregators * j.aggregators < 2147483648
  threshold : (j.nproc / j.aggregators + 1) * (j.nproc % j.aggregators) < 2147483648
  index : ∀ i ≤ j.aggregators, shareStart j.nproc j.aggregators i < 2147483648

end Job

/-! ## The three agree -/

theorem color2_eq (nproc aggregators rank : Nat) :
    color2 nproc aggregators rank = placeInShare nproc aggregators rank := by
  rw [placeInShare_eq_ite, ← sub_div_mul_eq_mod]
  rfl

namespace Job

variable (j : Job)

theorem aggregators_pos : 0 < j.aggregators := by
  have hpos := j.nproc_pos
  unfold aggregators aggregatorCount
  split_ifs <;> omega

theorem aggregators_le : j.aggregators ≤ j.nproc := by
  unfold aggregators aggregatorCount
  split_ifs <;> omega

theorem group_eq {c : Nat} (hc : c < j.aggregators) :
    j.group c = List.range' (shareStart j.nproc j.aggregators c)
      (shareSize j.nproc j.aggregators c) := by
  have hranks := filter_shareOf_range j.aggregators_pos j.aggregators_le hc
  rw [← range'_eq_map_range] at hranks
  simp only [group, color1_eq]
  exact hranks

theorem head?_group {c : Nat} (hc : c < j.aggregators) :
    (j.group c).head? = some (shareStart j.nproc j.aggregators c) := by
  have hpos := shareSize_pos j.aggregators_pos j.aggregators_le c
  rw [j.group_eq hc, List.head?_range', if_neg (by omega)]

theorem exists_marks : ∃ marks,
    (aggregatorRanks (j.nproc / j.aggregators) (j.nproc - j.nproc / j.aggregators * j.aggregators)
      j.aggregators 0 0).foldlM markAggregator (List.replicate j.nproc 0) = .ok marks ∧
    marks.length = j.nproc ∧ ∀ k < j.nproc, marks[k]? = some
      (if (j.group (color1 j.nproc j.aggregators k)).head? = some k then 1 else 0) := by
  have hranks := aggregatorRanks_eq j.nproc j.aggregators j.aggregators 0
  rw [shareStart_zero] at hranks
  rw [sub_div_mul_eq_mod, hranks]
  have hstored : ∀ first ∈ (List.range' 0 j.aggregators).map (shareStart j.nproc j.aggregators),
      Markable (fun index => (.ok (some index) : Except Fault (Option Nat)))
        (List.replicate j.nproc (0 : Int32)).length first := by
    intro first hfirst
    obtain ⟨c, hc, rfl⟩ := mem_map.mp hfirst
    rw [mem_range'_1, Nat.zero_add] at hc
    rw [length_replicate]
    exact .inr ⟨_, shareStart_lt j.aggregators_pos j.aggregators_le hc.2, rfl⟩
  obtain ⟨marks, hrun, hlen, hmarks⟩ :=
    @foldlM_mark_of_markable _ _ _ 1 .outOfBounds _ _ _ hstored
  rw [length_replicate] at hlen hmarks
  refine ⟨marks, hrun, hlen, fun k hk => ?_⟩
  have hcolor := shareOf_lt j.aggregators_pos j.aggregators_le hk
  rw [color1_eq, j.head?_group hcolor]
  by_cases hfirst : shareStart j.nproc j.aggregators (shareOf j.nproc j.aggregators k) = k
  · rw [if_pos (congrArg some hfirst)]
    refine (hmarks k hk).1 ⟨k, mem_map.mpr ⟨_, ?_, hfirst⟩, rfl⟩
    rw [mem_range'_1]
    exact ⟨Nat.zero_le _, by omega⟩
  · have hnone : ¬some (shareStart j.nproc j.aggregators (shareOf j.nproc j.aggregators k)) =
        some k := fun h => hfirst (Option.some.inj h)
    rw [if_neg hnone, (hmarks k hk).2, getElem?_replicate_of_lt hk]
    rintro first hmem ⟨⟩
    obtain ⟨c, -, rfl⟩ := mem_map.mp hmem
    rw [shareOf_start j.aggregators_pos j.aggregators_le] at hfirst
    exact hfirst rfl

theorem fits : j.Fits where
  product := Nat.lt_of_le_of_lt (Nat.div_mul_le_self _ _) j.nproc_lt
  threshold := by
    have hmod := Nat.le_of_lt (Nat.mod_lt j.nproc j.aggregators_pos)
    have hmono := @shareStart_mono j.nproc j.aggregators _ _ hmod
    rw [shareStart_all j.aggregators_pos, shareStart_of_le (Nat.le_refl _)] at hmono
    exact Nat.lt_of_le_of_lt hmono j.nproc_lt
  index i hi := by
    have hmono := @shareStart_mono j.nproc j.aggregators _ _ hi
    rw [shareStart_all j.aggregators_pos] at hmono
    exact Nat.lt_of_le_of_lt hmono j.nproc_lt

end Job

end Adios.Amr
