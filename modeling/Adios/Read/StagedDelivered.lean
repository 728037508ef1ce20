import Adios.Read.StagedExchange

/-!
# Staged read — when the exchange delivers

The groups always agree. Whether everything comes where it belongs is a matter of the numbers alone:
each of the two sides keeps its sizes in `int`s and one of them its offsets in an `uint32_t`, so
that the sums decide.
-/

namespace Adios.Staged

open Wire Lists
open Amr (Failure toInt addInt displacements receiveAll)

/-! ## The groups -/

section Groups

theorem groupCount_pos {numAggregators : Int} {size : Nat} (h : 0 < size) :
    0 < groupCount numAggregators size := by
  unfold groupCount
  split_ifs <;> omega

theorem groupCount_le (numAggregators : Int) (size : Nat) :
    groupCount numAggregators size ≤ size := by
  unfold groupCount
  split_ifs <;> omega

theorem rankToGroupMapping_eq (pvt : Pvt) (rank : Nat) :
    pvt.rankToGroupMapping rank = shareOf pvt.size pvt.groups rank := by
  rw [shareOf_eq_ite, ← sub_div_mul_eq_mod]
  rfl

theorem aggregatorRankOf_eq (n t i : Nat) :
    aggregatorRankOf (n / t) (n % t) i = shareStart n t i := by
  unfold aggregatorRankOf
  split_ifs with hzero hlt
  · rw [shareStart, hzero, Nat.min_zero, Nat.add_zero, Nat.mul_comm]
  · exact (shareStart_of_le (Nat.le_of_lt hlt)).symm
  · rw [shareStart_of_ge (Nat.not_lt.mp hlt), Nat.mul_comm (n % t), Nat.mul_comm (n / t)]

/-- What `init_read` makes of a rank, said with shares. -/
structure Belongs (n t r : Nat) (pvt : Pvt) : Prop where
  rank : pvt.rank = r
  size : pvt.size = n
  groups : pvt.groups = t
  group : pvt.group = shareOf n t r
  groupSize : pvt.groupSize = shareSize n t (shareOf n t r)
  aggregatorRank : pvt.aggregatorRank = shareStart n t (shareOf n t r)
  array : pvt.aggregatorRankArray = (List.range t).map (shareStart n t)

theorem initRead_belongs (numAggregators : Int) (n rank : Nat) :
    Belongs n (groupCount numAggregators n) rank (initRead numAggregators n rank) := by
  unfold initRead
  dsimp only
  generalize groupCount numAggregators n = t
  rw [sub_div_mul_eq_mod]
  have harray : (List.range t).map (aggregatorRankOf (n / t) (n % t)) =
      (List.range t).map (shareStart n t) :=
    List.map_congr_left fun i _ => aggregatorRankOf_eq n t i
  have hof := shareOf_eq_ite n t rank
  split_ifs with hzero hlt
  · rw [if_pos hzero] at hof
    refine ⟨rfl, rfl, rfl, hof.symm, ?_, ?_, harray⟩
    · rw [shareSize, hzero, if_neg (Nat.not_lt_zero _)]
    · rw [hof, shareStart, hzero, Nat.min_zero, Nat.add_zero]
  · rw [if_neg hzero, if_pos hlt] at hof
    have hfirst : rank / (n / t + 1) < n % t := (Nat.div_lt_iff_lt_mul (Nat.succ_pos _)).mpr (by
      rw [Nat.mul_comm]
      exact hlt)
    refine ⟨rfl, rfl, rfl, hof.symm, ?_, ?_, harray⟩
    · rw [shareSize, hof, if_pos hfirst]
    · rw [hof, shareStart_of_le (Nat.le_of_lt hfirst), Nat.mul_comm]
  · rw [if_neg hzero, if_neg hlt] at hof
    have hbehind : n % t ≤ n % t + (rank - (n / t + 1) * (n % t)) / (n / t) := Nat.le_add_right _ _
    refine ⟨rfl, rfl, rfl, hof.symm, ?_, ?_, harray⟩
    · rw [shareSize, hof, if_neg (Nat.not_lt.mpr hbehind)]
    · rw [hof, shareStart_of_ge hbehind, Nat.mul_comm (n % t), Nat.mul_comm (n / t)]

variable (job : Job)

theorem Job.size_pos : 0 < job.size := List.length_pos_iff.mpr job.nonempty

theorem Job.groups_pos : 0 < job.groups := groupCount_pos job.size_pos

theorem Job.groups_le : job.groups ≤ job.size := groupCount_le _ _

theorem Job.belongs (rank : Nat) : Belongs job.size job.groups rank (job.pvt rank) :=
  initRead_belongs _ _ rank

theorem Job.newComm_eq {group : Nat} (h : group < job.groups) :
    newComm job.numAggregators job.size group =
      (List.range (shareSize job.size job.groups group)).map
        (shareStart job.size job.groups group + ·) := by
  have hgroup : (fun rank => decide ((initRead job.numAggregators job.size rank).group = group)) =
      fun rank => decide (shareOf job.size job.groups rank = group) := by
    funext rank
    rw [(initRead_belongs _ _ rank).group]
    rfl
  rw [newComm, hgroup]
  exact filter_shareOf_range job.groups_pos job.groups_le h

theorem groupsAgree : GroupsAgree job where
  mapping rank other _ _ := by
    rw [rankToGroupMapping_eq, (job.belongs other).size, (job.belongs other).groups,
      (job.belongs rank).group]
  aggregator rank h := by
    have hlt := shareOf_lt job.groups_pos job.groups_le h
    rw [(job.belongs rank).array, (job.belongs rank).group, (job.belongs rank).aggregatorRank,
      List.getElem?_map, List.getElem?_range hlt]
    rfl
  own rank h := by
    have hlt := shareOf_lt job.groups_pos job.groups_le h
    have hstart := shareOf_start job.groups_pos job.groups_le (shareOf job.size job.groups rank)
    rw [(job.belongs rank).aggregatorRank, (job.belongs rank).group, (job.belongs _).group,
      (job.belongs _).aggregatorRank, hstart]
    exact ⟨shareStart_lt job.groups_pos job.groups_le hlt, rfl, rfl⟩
  comm rank h := by
    have hlt := shareOf_lt job.groups_pos job.groups_le h
    rw [(job.belongs rank).groupSize, (job.belongs rank).aggregatorRank, (job.belongs rank).group]
    exact job.newComm_eq hlt

theorem Job.members_eq (group : Nat) : job.members group = share job.groups job.requests group := by
  have hgroup : (fun r : List Request × Nat => decide ((job.pvt r.2).group = group)) =
      fun r => decide (shareOf job.requests.length job.groups r.2 = group) := by
    funext r
    rw [(job.belongs r.2).group]
    rfl
  rw [members, hgroup]
  exact map_filter_shareOf job.groups_pos job.groups_le group

structure Leads (g : Nat) (pvt : Pvt) : Prop where
  array : pvt.aggregatorRankArray[g]? = some pvt.rank
  aggregator : pvt.aggregatorRank = pvt.rank
  group : pvt.group = g
  groupSize : pvt.groupSize = (job.members g).length
  pos : 0 < (job.members g).length
  mapping (i : Nat) (h : i < (job.members g).length) : pvt.rankToGroupMapping (pvt.rank + i) = g

theorem Job.leads {group : Nat} (h : group < job.groups) :
    Leads job group (job.pvt (shareStart job.size job.groups group)) := by
  have hstart := shareOf_start job.groups_pos job.groups_le group
  have hbelongs := job.belongs (shareStart job.size job.groups group)
  have hlen : (job.members group).length = shareSize job.size job.groups group := by
    rw [job.members_eq]
    exact length_share job.groups_pos h
  refine ⟨?_, ?_, ?_, ?_, ?_, fun i hi => ?_⟩
  · rw [hbelongs.array, hbelongs.rank, List.getElem?_map, List.getElem?_range h]
    rfl
  · rw [hbelongs.aggregatorRank, hbelongs.rank, hstart]
  · rw [hbelongs.group, hstart]
  · rw [hbelongs.groupSize, hstart, hlen]
  · rw [hlen]
    exact shareSize_pos job.groups_pos job.groups_le group
  · rw [hlen] at hi
    rw [rankToGroupMapping_eq, hbelongs.size, hbelongs.groups, hbelongs.rank]
    refine (shareOf_eq_iff job.groups_pos job.groups_le).mpr ⟨Nat.le_add_right _ _, ?_⟩
    rw [shareStart_succ]
    omega

end Groups

end Adios.Staged
