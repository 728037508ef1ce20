import Adios.Heap.Slots
import Adios.Lists.Completion
import Adios.Lists.Results
import Adios.Read.RequestGroupsComplete
import Adios.Transforms.WriteBlockRead

/-!
# Transforms — when a write-block gets to the user
-/

namespace Adios.Transforms

open List CopySubvolume Selections Sieving Subvolume WriteBlocks

/-! ## A range and the whole of a block -/

section

variable {offset n volume : UInt64}

theorem toNat_interEnd (end1 end2 : UInt64) :
    (ofInt (if toInt end1 ≤ toInt end2 then toInt end1 else toInt end2)).toNat =
      cut (if signed end1.toNat ≤ signed end2.toNat then end1.toNat else end2.toNat) := by
  by_cases hle : toInt end1 ≤ toInt end2
  · rw [if_pos hle, if_pos ((toInt_le_iff _ _).mp hle), toNat_ofInt_toInt]
  · rw [if_neg hle, if_neg fun hle' => hle ((toInt_le_iff _ _).mpr hle'), toNat_ofInt_toInt]

theorem intersectSegments_start : intersectSegments 0 n 0 volume =
    if cut n.toNat = 0 then none
    else some (0, UInt64.ofNat
      (cut (if signed n.toNat ≤ signed volume.toNat then n.toNat else volume.toNat))) := by
  unfold intersectSegments intersectOrdered
  rw [if_neg (by decide)]
  dsimp only
  rw [UInt64.zero_add, UInt64.zero_add, UInt64.sub_zero]
  have hnone : ofInt (toInt n) ≤ 0 ↔ cut n.toNat = 0 := by
    rw [UInt64.le_iff_toNat_le, toNat_ofInt_toInt]
    exact Nat.le_zero
  by_cases hcut : cut n.toNat = 0
  · rw [if_pos hcut, if_pos (hnone.mpr hcut)]
  · rw [if_neg hcut, if_neg fun hle => hcut (hnone.mp hle), ← toNat_interEnd, UInt64.ofNat_toNat]

theorem intersectSegments_later (h : 0 < offset) : intersectSegments offset n 0 volume =
    if cut volume.toNat ≤ cut offset.toNat then none
    else some (ofInt (toInt offset), UInt64.ofNat
      (cut (if signed volume.toNat ≤ signed (offset.toNat + n.toNat) then volume.toNat
        else offset.toNat + n.toNat)) - ofInt (toInt offset)) := by
  have hend : ∀ x : UInt64, x = ofInt (toInt offset) + ofInt (toInt n) →
      signed x.toNat = signed (offset.toNat + n.toNat) ∧
        cut x.toNat = cut (offset.toNat + n.toNat) := fun x hx => by
    have hmod : x.toNat % 4294967296 = (offset.toNat + n.toNat) % 4294967296 := by
      have h1 := cut_mod offset.toNat
      have h2 := cut_mod n.toNat
      rw [hx, UInt64.toNat_add, toNat_ofInt_toInt, toNat_ofInt_toInt]
      omega
    exact ⟨signed_congr hmod, cut_congr hmod⟩
  obtain ⟨hsigned, hcut⟩ := hend _ rfl
  unfold intersectSegments intersectOrdered
  rw [if_pos h]
  dsimp only
  have hnone : ofInt (toInt (0 + volume)) ≤ ofInt (toInt offset) ↔
      cut volume.toNat ≤ cut offset.toNat := by
    rw [UInt64.zero_add, UInt64.le_iff_toNat_le, toNat_ofInt_toInt, toNat_ofInt_toInt]
  by_cases hle : cut volume.toNat ≤ cut offset.toNat
  · rw [if_pos hle, if_pos (hnone.mpr hle)]
  · rw [if_neg hle, if_neg fun hle' => hle (hnone.mp hle'), UInt64.zero_add]
    refine congrArg (fun x => some (ofInt (toInt offset), x - ofInt (toInt offset))) ?_
    rw [← UInt64.ofNat_toNat (x := ofInt _), toNat_interEnd, hsigned]
    split_ifs
    · rfl
    · rw [hcut]

theorem copied_of_clear (hpos : 0 < n.toNat) (hint : n.toNat < 2147483648)
    (hle : (n.toNat : Int) ≤ signed volume.toNat) :
    intersectSegments 0 n 0 volume = some (0, n) := by
  have hcut : cut n.toNat = n.toNat := by
    unfold cut
    split_ifs <;> omega
  have hsigned : signed n.toNat = n.toNat := by
    unfold signed
    split_ifs <;> omega
  rw [intersectSegments_start, if_neg (by omega), if_pos (by omega), hcut, UInt64.ofNat_toNat]

theorem skipped_of_clear (h : offset = 0 ∨ cut volume.toNat ≤ cut offset.toNat ∨
    signed offset.toNat ≤ signed volume.toNat) :
    intersectSegments offset 0 0 volume = none ∨
      ∃ x, intersectSegments offset 0 0 volume = some (x, 0) := by
  by_cases hzero : offset = 0
  · left
    rw [hzero, intersectSegments_start]
    rfl
  · have hpos : 0 < offset := by
      rw [UInt64.lt_iff_toNat_lt]
      exact Nat.pos_of_ne_zero fun hc => hzero (UInt64.toNat_inj.mp hc)
    rw [intersectSegments_later hpos]
    by_cases hle : cut volume.toNat ≤ cut offset.toNat
    · exact Or.inl (if_pos hle)
    · right
      have hsigned : signed offset.toNat ≤ signed volume.toNat := by
        rcases h with hc | hc | hc
        · exact absurd hc hzero
        · exact absurd hc hle
        · exact hc
      have hmin : (if signed volume.toNat ≤ signed (offset.toNat + UInt64.toNat 0) then
          volume.toNat else offset.toNat + UInt64.toNat 0) % 4294967296 =
            offset.toNat % 4294967296 := by
        have hzero : UInt64.toNat 0 = 0 := rfl
        rw [hzero, Nat.add_zero]
        split_ifs with hc
        · have heq : signed volume.toNat = signed offset.toNat := Int.le_antisymm hc hsigned
          unfold signed at heq
          split_ifs at heq <;> omega
        · rfl
      refine ⟨ofInt (toInt offset), ?_⟩
      rw [if_neg hle, cut_congr hmin, ← toNat_ofInt_toInt, UInt64.ofNat_toNat, UInt64.sub_self]

theorem exists_of_not_clear (h : ¬(offset = 0 ∨ cut volume.toNat ≤ cut offset.toNat ∨
    signed offset.toNat ≤ signed volume.toNat)) :
    ∃ x m, intersectSegments offset 0 0 volume = some (x, m) ∧
      18446744069414584320 < m.toNat := by
  rw [not_or, not_or] at h
  obtain ⟨hzero, hcut, hsigned⟩ := h
  have hpos : 0 < offset := by
    rw [UInt64.lt_iff_toNat_lt]
    exact Nat.pos_of_ne_zero fun hc => hzero (UInt64.toNat_inj.mp hc)
  have hzero : UInt64.toNat 0 = 0 := rfl
  rw [intersectSegments_later hpos, if_neg hcut, hzero, Nat.add_zero]
  rw [if_pos (by omega)]
  refine ⟨_, _, rfl, ?_⟩
  have hlt : cut volume.toNat < 18446744073709551616 := by
    unfold cut
    split_ifs <;> omega
  have hvol : (UInt64.ofNat (cut volume.toNat)).toNat = cut volume.toNat :=
    UInt64.toNat_ofNat_of_lt' hlt
  rw [UInt64.toNat_sub_of_le _ _ (by
    rw [UInt64.le_iff_toNat_le, toNat_ofInt_toInt, hvol]
    omega), hvol, toNat_ofInt_toInt]
  unfold cut at hcut ⊢
  unfold signed at hsigned
  split_ifs at hcut hsigned ⊢ <;> omega

theorem toNat_mul_eq_zero {x size : UInt64} (hsize : 0 < size.toNat) (h : x * size = 0)
    (hlt : x.toNat * size.toNat < 18446744073709551616) : x = 0 := by
  have hmul := congrArg UInt64.toNat h
  rw [UInt64.toNat_mul, Nat.mod_eq_of_lt hlt] at hmul
  have hzero : x.toNat * size.toNat = 0 := hmul
  exact UInt64.toNat_inj.mp ((Nat.mul_eq_zero.mp hzero).resolve_right (by omega))

theorem clear_of_copied {size x m : UInt64} (hsize : size.toNat ∈ [1, 2, 4, 8, 16])
    (hpos : 0 < n.toNat) (hn : n.toNat * size.toNat < 9223372036854775808)
    (hoffset : offset.toNat * size.toNat < 18446744073709551616)
    (h : intersectSegments offset n 0 volume = some (x, m)) (hsrc : x * size = 0)
    (hdst : (x - offset) * size = 0) (hbytes : (m * size).toNat = n.toNat * size.toNat) :
    offset = 0 ∧ n.toNat < 2147483648 ∧ (n.toNat : Int) ≤ signed volume.toNat := by
  simp only [mem_cons, not_mem_nil, or_false] at hsize
  have hsmall := Nat.le_mul_of_pos_right n.toNat (show 0 < size.toNat by omega)
  have hzero : offset = 0 := by
    refine toNat_mul_eq_zero (by omega) ?_ hoffset
    rw [UInt64.sub_mul, hsrc, UInt64.zero_sub] at hdst
    exact UInt64.neg_inj.mp (hdst.trans UInt64.neg_zero.symm)
  subst hzero
  have hcut : cut n.toNat ≠ 0 := fun hc => by
    rw [intersectSegments_start, if_pos hc] at h
    cases h
  rw [intersectSegments_start, if_neg hcut] at h
  obtain ⟨rfl, rfl⟩ := Prod.mk.inj (Option.some.inj h)
  have hlt : ∀ y, cut y < 18446744073709551616 := fun y => by
    unfold cut
    split_ifs <;> omega
  rw [UInt64.toNat_mul, UInt64.toNat_ofNat_of_lt' (hlt _)] at hbytes
  refine ⟨rfl, ?_⟩
  have hsame : cut (if signed n.toNat ≤ signed volume.toNat then n.toNat else volume.toNat) =
      n.toNat := by
    have hcases : ∀ y, cut y < 2147483648 ∨ 18446744071562067968 ≤ cut y := fun y => by
      unfold cut
      split_ifs <;> omega
    have hside := hcases (if signed n.toNat ≤ signed volume.toNat then n.toNat else volume.toNat)
    have hlast := hlt (if signed n.toNat ≤ signed volume.toNat then n.toNat else volume.toNat)
    generalize cut (if signed n.toNat ≤ signed volume.toNat then n.toNat else volume.toNat) = c
      at hbytes hside hlast ⊢
    rcases hsize with hs | hs | hs | hs | hs <;> rw [hs] at hbytes hn <;> omega
  unfold cut at hsame
  unfold signed at hsame ⊢
  split_ifs at hsame ⊢ <;> omega

end

/-! ## Blocks by their numbers -/

namespace Variable

variable {v : Variable}

theorem absoluteBlockidx_eq {t i : Nat} (h : i < v.nblocks.getD t 0) :
    v.absoluteBlockidx t i = some (((v.nblocks.take t).sum + i : Nat) : Int) := by
  have hlt := lt_length_of_lt_getD h
  unfold absoluteBlockidx
  rw [if_neg (by omega), Int.toNat_natCast, if_neg (by omega)]
  rfl

theorem relativeBlockidxLoop_isSome {blockidx : Int} {nblocks : List Nat} {timestep : Nat}
    {curblocks : Int} (h : blockidx < curblocks + nblocks.sum) (hle : curblocks ≤ blockidx) :
    ∃ t i, relativeBlockidxLoop blockidx timestep curblocks nblocks = some (t, i) := by
  induction nblocks generalizing timestep curblocks with
  | nil =>
    have hsum : (([] : List Nat).sum : Int) = 0 := rfl
    omega
  | cons n nblocks ih =>
    rw [sum_cons] at h
    rw [relativeBlockidxLoop]
    by_cases hlt : blockidx < curblocks + n
    · exact ⟨_, _, if_pos hlt⟩
    · rw [if_neg hlt]
      exact ih (by omega) (by omega)

end Variable

namespace WriteBlockRead

variable {s : WriteBlockRead} {t b : Nat}

def Requested (s : WriteBlockRead) (t b : Nat) : Prop :=
  if s.sel.isAbsoluteIndex ≠ 0 then s.sel.index = b ∧ b < s.v.nblocks.sum
  else ∃ i, s.sel.index = (i : Nat) ∧ i < s.v.nblocks.getD t 0 ∧ b = (s.v.nblocks.take t).sum + i

theorem Requested.lt (h : s.Requested t b) : b < s.v.nblocks.sum := by
  unfold Requested at h
  split_ifs at h with habs
  · exact h.2
  · obtain ⟨i, -, hlt, rfl⟩ := h
    exact Variable.block_lt hlt

theorem createWriteblockBounds_eq (h : s.Requested t b) :
    createWriteblockBounds s.v s.sel t = .ok (s.v.bounds b) := by
  have hlt := h.lt
  unfold Requested at h
  unfold createWriteblockBounds
  split_ifs at h ⊢ with habs
  · rw [h.1, Variable.varblock_eq hlt]
  · obtain ⟨i, hindex, hi, rfl⟩ := h
    rw [hindex, Variable.absoluteBlockidx_eq hi]
    exact Variable.varblock_eq hlt

theorem sharedBlock_eq (h : s.Requested t b) :
    sharedBlock s.v.varinfo t ⟨b, 1, 0, 0, 0⟩ s.sel = some ((b : Int), 1) := by
  have habsolute : s.sel.absolute s.v.varinfo t = b := by
    unfold Requested at h
    unfold WriteBlock.absolute
    split_ifs at h ⊢ with habs
    · exact h.1
    · obtain ⟨i, hindex, hi, rfl⟩ := h
      have hlen := lt_length_of_lt_getD hi
      have hlen' : t < s.v.varinfo.nblocks.length := hlen
      have hi' : i < s.v.varinfo.nblocks.getD t 0 := hi
      rw [hindex, Varinfo.absoluteIndex, if_neg (by omega), Int.toNat_natCast, if_neg (by omega)]
      show (i : Int) + ((s.v.nblocks.take t).sum : Nat) = _
      omega
  unfold sharedBlock
  dsimp only
  by_cases hkind : (1 : Int) = s.sel.isAbsoluteIndex
  · have hindex : s.sel.index = b := by
      unfold WriteBlock.absolute at habsolute
      rwa [← hkind, if_pos (by decide)] at habsolute
    rw [if_pos hkind, hindex, if_neg (not_not.mpr rfl)]
  · have hown : (WriteBlock.mk b 1 0 0 0).absolute s.v.varinfo t = b :=
      if_pos (show (1 : Int) ≠ 0 by decide)
    rw [if_neg hkind, hown, habsolute, if_neg (not_not.mpr rfl)]

def intersection (s : WriteBlockRead) (b : Nat) : WriteBlock :=
  if s.sel.isSubPgSelection = 0 then ⟨b, 1, 0, 0, 0⟩ else s.sel

theorem intersectWbWb_eq (h : s.Requested t b) :
    intersectWbWb s.v.varinfo t ⟨b, 1, 0, 0, 0⟩ s.sel = some (s.intersection b) := by
  rw [intersectWbWb, sharedBlock_eq h, Option.bind_some]
  unfold intersectRanges intersection
  dsimp only
  by_cases hsub : s.sel.isSubPgSelection = 0
  · rw [if_pos hsub, if_pos ⟨rfl, hsub⟩]
  · rw [if_neg hsub, if_neg fun hc => hsub hc.2, if_neg fun hc => hc.1 rfl, if_neg fun hc => hc rfl]

/-! ## The request for a process group -/

theorem reduceOption_map_some {α : Type} (xs : List α) : (xs.map some).reduceOption = xs := by
  unfold List.reduceOption
  rw [filterMap_map]
  exact filterMap_some

def offset (s : WriteBlockRead) : UInt64 :=
  if s.sel.isSubPgSelection ≠ 0 then s.sel.elementOffset else 0

def nelems (s : WriteBlockRead) (b : Nat) : UInt64 :=
  if s.sel.isSubPgSelection ≠ 0 then s.sel.nelements
  else computeVolume ((s.v.bounds b).map Segment.count)

theorem toNat_offset (s : WriteBlockRead) : s.offset.toNat = s.first := by
  unfold offset first
  split_ifs <;> rfl

theorem toNat_nelems (h : b < s.v.nblocks.sum) : (s.nelems b).toNat = s.count b := by
  unfold nelems count
  split_ifs
  · rfl
  · exact Variable.computeVolume_bounds h

def request (s : WriteBlockRead) (t b : Nat) : PgReadRequest × RawReadRequest :=
  (⟨t, b, s.v.rawVarLength b, .writeBlock (s.intersection b), s.v.bounds b⟩,
    ⟨s.offset * getTypeSize s.v.origType none, s.nelems b * getTypeSize s.v.origType none,
      s.offset⟩)

theorem computeSievingOffsets_eq (s : WriteBlockRead) (b : Nat) :
    computeSievingOffsets (.writeBlock (s.intersection b)) (s.v.bounds b) =
      .ok (s.offset, s.offset + s.nelems b) := by
  unfold computeSievingOffsets intersection offset nelems
  by_cases hsub : s.sel.isSubPgSelection = 0
  · simp only [if_pos hsub, if_neg (not_not.mpr hsub), if_neg (not_not.mpr (rfl : (0 : Int) = 0)),
      UInt64.zero_add]
  · simp only [if_neg hsub, if_pos hsub]

theorem generateReadRequestForPg_eq (h : s.Requested t b)
    (hwithin : s.first + s.count b ≤ s.v.volume b) :
    generateReadRequestForPg s.v s.sel t b = .ok (some (s.request t b)) := by
  have hlt := h.lt
  have hoffset := s.toNat_offset
  have hnelems := toNat_nelems hlt
  have hvolume := Variable.volume_lt hlt
  have hsum : (s.offset + s.nelems b).toNat = s.first + s.count b := by
    rw [UInt64.toNat_add, hoffset, hnelems]
    exact Nat.mod_eq_of_lt (by omega)
  have hend : s.offset + s.nelems b - s.offset = s.nelems b := by
    rw [UInt64.add_comm, UInt64.add_sub_cancel]
  have hgenerate := @PgReadRequest.generateSieving_eq s.v b (s.request t b).1 s.offset
    (s.offset + s.nelems b) hlt rfl (s.computeSievingOffsets_eq b) (by omega) (by omega)
  rw [hend] at hgenerate
  unfold generateReadRequestForPg
  rw [Variable.varblock_eq hlt, ok_bind, intersectWbWb_eq h]
  show (PgReadRequest.generateSieving (s.request t b).1 s.v.origType >>= fun subreq =>
    Except.ok (some ((s.request t b).1, subreq))) = _
  rw [hgenerate]
  rfl

theorem exists_populateReadRequest (s : WriteBlockRead)
    (hwithin : ∀ b ∈ s.blocks, s.first + s.count b ≤ s.v.volume b) :
    ∃ pgs, populateReadRequest s.v s.sel s.fromSteps s.nsteps = .ok pgs ∧
      pgs.length = s.blocks.length ∧ ∀ k b, s.blocks[k]? = some b → ∃ t,
        pgs[k]? = some (s.request t b) ∧ s.Requested t b ∧
          (s.sel.isAbsoluteIndex = 0 → t = s.fromSteps + k) := by
  obtain ⟨hindex, hthere⟩ := s.there
  by_cases habs : s.sel.isAbsoluteIndex = 0
  · have hblocks : s.blocks = (List.range s.nsteps).map fun i =>
        (s.v.nblocks.take (s.fromSteps + i)).sum + s.sel.index.toNat :=
      if_neg (not_not.mpr habs)
    rw [if_neg (not_not.mpr habs)] at hthere
    have hrequest : ∀ i < s.nsteps, s.Requested (s.fromSteps + i)
        ((s.v.nblocks.take (s.fromSteps + i)).sum + s.sel.index.toNat) := fun i hi => by
      have hlt := hthere i hi
      unfold Requested
      rw [if_neg (not_not.mpr habs)]
      exact ⟨s.sel.index.toNat, by omega, by omega, rfl⟩
    have hgenerate : ∀ i < s.nsteps, generateReadRequestInStep s.v s.sel (s.fromSteps + i) =
        .ok ((some ∘ fun i => s.request (s.fromSteps + i)
          ((s.v.nblocks.take (s.fromSteps + i)).sum + s.sel.index.toNat)) i) := fun i hi => by
      have hlt := hthere i hi
      have habsolute := @Variable.absoluteBlockidx_eq s.v (s.fromSteps + i) s.sel.index.toNat
        (by omega)
      rw [Int.toNat_of_nonneg hindex] at habsolute
      rw [generateReadRequestInStep, habsolute]
      exact generateReadRequestForPg_eq (hrequest i hi)
        (hwithin _ (hblocks ▸ mem_map_of_mem (mem_range.mpr hi)))
    refine ⟨(List.range s.nsteps).map fun i => s.request (s.fromSteps + i)
      ((s.v.nblocks.take (s.fromSteps + i)).sum + s.sel.index.toNat), ?_, ?_, ?_⟩
    · have hpgs := Lists.mapM_eq_ok_iff.mpr (forall₂_map_right_iff.mpr
        (forall₂_same.mpr fun i hi => hgenerate i (mem_range.mp hi)))
      unfold populateReadRequest
      rw [if_neg (not_not.mpr habs), hpgs, ok_bind, ← map_map]
      exact congrArg Except.ok (reduceOption_map_some _)
    · rw [hblocks, length_map, length_map]
    · intro k b hk
      rw [hblocks, getElem?_map, Option.map_eq_some_iff] at hk
      obtain ⟨i, hi, rfl⟩ := hk
      obtain ⟨hlt, rfl⟩ := List.getElem?_eq_some_iff.mp hi
      rw [length_range] at hlt
      rw [getElem_range] at hi ⊢
      refine ⟨s.fromSteps + k, ?_, hrequest k hlt, fun _ => rfl⟩
      rw [getElem?_map, hi]
      rfl
  · have hblocks : s.blocks = [s.sel.index.toNat] := if_pos habs
    rw [if_pos habs] at hthere
    obtain ⟨t, i, hrelative⟩ := @Variable.relativeBlockidxLoop_isSome s.sel.index s.v.nblocks 0 0
      (by omega) hindex
    have hrequest : s.Requested t s.sel.index.toNat := by
      unfold Requested
      rw [if_pos habs]
      exact ⟨by omega, by omega⟩
    have hgenerate := generateReadRequestForPg_eq hrequest
      (hwithin _ (hblocks ▸ mem_singleton_self _))
    rw [Int.toNat_of_nonneg hindex] at hgenerate
    refine ⟨[s.request t s.sel.index.toNat], ?_, by rw [hblocks]; rfl, ?_⟩
    · unfold populateReadRequest Variable.relativeBlockidx
      rw [if_pos habs, hrelative]
      dsimp only
      rw [hgenerate]
      rfl
    · intro k b hk
      rw [hblocks] at hk
      cases k with
      | zero =>
        obtain rfl := Option.some.inj hk
        exact ⟨t, rfl, hrequest, fun hc => absurd hc habs⟩
      | succ k => cases hk

/-! ## Where the elements of a block go -/

theorem before_succ {k b : Nat} (h : s.blocks[k]? = some b) :
    s.before (k + 1) = s.before k + s.count b := by
  unfold before
  rw [take_add_one, h, map_append, sum_append]
  rfl

theorem before_le {k l : Nat} (h : k ≤ l) : s.before k ≤ s.before l := by
  obtain ⟨d, rfl⟩ := Nat.exists_eq_add_of_le h
  unfold before
  rw [take_add, map_append, sum_append]
  exact Nat.le_add_right _ _

theorem before_add_count_le {k b : Nat} (h : s.blocks[k]? = some b) :
    s.before k + s.count b ≤ s.before s.blocks.length := by
  obtain ⟨hlt, -⟩ := List.getElem?_eq_some_iff.mp h
  rw [← before_succ h]
  exact before_le hlt

theorem selectionSizeInBytes_eq (h : s.Requested t b)
    (hwithin : s.first + s.count b ≤ s.v.volume b) :
    ∃ x, selectionSizeInBytes s.v s.sel t = .ok x ∧ x.toNat = s.count b * s.v.size := by
  have hlt := h.lt
  have hle : s.count b ≤ s.v.volume b := by omega
  unfold selectionSizeInBytes
  dsimp only
  by_cases hsub : s.sel.isSubPgSelection = 0
  · have hindex : (if s.sel.isAbsoluteIndex ≠ 0 then s.sel.index else
        ((s.v.nblocks.take t).sum : Int) + s.sel.index) = b := by
      unfold Requested at h
      split_ifs at h ⊢ with habs
      · exact h.1
      · obtain ⟨i, hindex, -, rfl⟩ := h
        rw [hindex]
        rfl
    have hcount : s.count b = s.v.volume b := if_neg (not_not.mpr hsub)
    rw [if_neg (not_not.mpr hsub), hindex, Variable.varblock_eq hlt, ok_bind]
    refine ⟨_, rfl, ?_⟩
    have hbytes := Variable.volume_mul_size_lt hlt
    have hvolume := hcount.trans (congrArg Grid.volume (sizes_span (s.v.bounds b)))
    rw [foldl_mul_eq, ← hvolume, UInt64.mul_comm]
    exact (Variable.toNat_mul_size hlt (by
      rw [UInt64.toNat_ofNat_of_lt' (Nat.lt_of_le_of_lt hle (Variable.volume_lt hlt))]
      exact hle)).trans (by
        rw [UInt64.toNat_ofNat_of_lt' (Nat.lt_of_le_of_lt hle (Variable.volume_lt hlt))])
  · have hcount : s.count b = s.sel.nelements.toNat := if_pos hsub
    refine ⟨_, if_pos hsub, ?_⟩
    rw [hcount] at hle ⊢
    exact Variable.toNat_mul_size hlt hle

end WriteBlockRead

namespace FittingRead

variable {s : FittingRead} {t b k : Nat}

theorem within (s : FittingRead) (h : s.blocks[k]? = some b) :
    s.first + s.count b ≤ s.v.volume b :=
  s.fits.within b (mem_of_getElem? h)

theorem bytes_le (s : FittingRead) (h : s.blocks[k]? = some b) :
    s.before k * s.v.size + s.count b * s.v.size ≤ s.before s.blocks.length * s.v.size := by
  rw [← Nat.add_mul]
  exact Nat.mul_le_mul_right _ (WriteBlockRead.before_add_count_le h)

theorem outputBufferOffset_eq (h : s.blocks[k]? = some b)
    (ht : s.sel.isAbsoluteIndex = 0 → t = s.fromSteps + k) :
    ∃ x, outputBufferOffset s.v s.sel s.fromSteps t = .ok x ∧
      x.toNat = s.before k * s.v.size := by
  unfold outputBufferOffset
  by_cases habs : s.sel.isAbsoluteIndex = 0
  · have hdiff : t - s.fromSteps = k := by
      have ht := ht habs
      omega
    rw [if_neg (not_not.mpr habs), hdiff]
    refine @Lists.exists_foldlM_range UInt64 Fault _
      (fun i x => x.toNat = s.before i * s.v.size) k 0 ?_ ?_
    · exact (Nat.zero_mul _).symm
    · intro i hi x hx
      obtain ⟨hlt, -⟩ := List.getElem?_eq_some_iff.mp h
      obtain ⟨b', hb'⟩ : ∃ b', s.blocks[i]? = some b' := ⟨_, getElem?_eq_getElem (by omega)⟩
      obtain ⟨pgs, -, -, hrequests⟩ := s.exists_populateReadRequest s.fits.within
      obtain ⟨t', -, hrequested, ht'⟩ := hrequests i b' hb'
      obtain ⟨y, hy, hsize⟩ := WriteBlockRead.selectionSizeInBytes_eq hrequested (s.within hb')
      have hbytes := s.bytes_le hb'
      have hbuffer := s.fits.buffer
      rw [ht' habs] at hy
      refine ⟨x + y, by rw [hy]; rfl, ?_⟩
      rw [UInt64.toNat_add, hx, hsize, WriteBlockRead.before_succ hb', Nat.add_mul]
      exact Nat.mod_eq_of_lt (by omega)
  · refine ⟨0, if_pos habs, ?_⟩
    have hblocks : s.blocks = [s.sel.index.toNat] := if_pos habs
    rw [hblocks] at h
    cases k with
    | zero => exact (Nat.zero_mul _).symm
    | succ k => cases h

/-! ## One process group -/

def call (s : FittingRead) (stored : Contents) (b : Nat) : Call :=
  ⟨s.host, s.v.origType, s.swapEndianness, fun a => stored b ((s.first * s.v.size : Nat) + a)⟩

theorem element_call (s : FittingRead) (stored : Contents) (b e : Nat) :
    element (s.call stored b).src s.v.size e = element (stored b) s.v.size (s.first + e) := by
  refine map_congr_left fun j _ => congrArg (stored b) ?_
  rw [Nat.add_mul]
  omega

theorem complete_eq (stored : Contents) (h : s.blocks[k]? = some b)
    (hrequested : s.Requested t b) (ht : s.sel.isAbsoluteIndex = 0 → t = s.fromSteps + k) :
    ∃ start : UInt64, start.toNat = s.before k * s.v.size ∧
      ∀ mem, s.complete stored (s.request t b) mem =
        if ¬mallocs s.mallocZero (s.count b * s.v.size) then .error .assertion
        else copyCommon (s.call stored b) mem start s.offset 0 (s.count b * s.v.size)
          (intersectSegments s.offset (s.nelems b) 0
            (computeVolume ((s.v.bounds b).map Segment.count))) := by
  have hlt := hrequested.lt
  have hwithin := s.within h
  obtain ⟨start, hoffset, hstart⟩ := s.outputBufferOffset_eq h ht
  have hcount := @Variable.toNat_mul_size s.v b (s.nelems b) hlt (by
    rw [WriteBlockRead.toNat_nelems hlt]
    omega)
  have hfirst := @Variable.toNat_mul_size s.v b s.offset hlt (by
    rw [WriteBlockRead.toNat_offset]
    omega)
  rw [WriteBlockRead.toNat_nelems hlt] at hcount
  rw [WriteBlockRead.toNat_offset] at hfirst
  refine ⟨start, hstart, fun mem => ?_⟩
  unfold WriteBlockRead.complete PgReadRequest.completed WriteBlockRead.request
  dsimp only
  rw [hcount, hfirst, Int.toNat_natCast]
  by_cases hmalloc : mallocs s.mallocZero (s.count b * s.v.size) = true
  · rw [if_neg (not_not.mpr hmalloc), if_neg (not_not.mpr hmalloc), ok_bind]
    unfold WriteBlockRead.applyDatablockToResult
    dsimp only
    rw [hoffset, ok_bind, WriteBlockRead.createWriteblockBounds_eq hrequested, ok_bind]
    rfl
  · rw [if_pos hmalloc, if_pos hmalloc]
    rfl

def Holds (s : FittingRead) (stored : Contents) (k b : Nat) (a : Int) (x : UInt8) : Prop :=
  ∃ e < s.count b, ∃ j < s.v.size, a = ((s.before k + e) * s.v.size + j : Nat) ∧
    (s.moved (element (stored b) s.v.size (s.first + e)))[j]? = some x

theorem cellAt_of_cells_nil {w : Heap.Write UInt8} (hw : w.cells = []) (a : Int) :
    w.cellAt a = none := by
  unfold Heap.Write.cellAt
  rw [hw, getElem?_nil, ite_self]

theorem apply_of_cells_nil {w : Heap.Write UInt8} (hw : w.cells = []) (mem : Memory) :
    w.apply mem = mem := by
  funext a
  rw [Heap.Write.apply, cellAt_of_cells_nil hw]
  rfl

theorem complete_of_clear_empty (stored : Contents) (h : s.blocks[k]? = some b)
    (hrequested : s.Requested t b) (ht : s.sel.isAbsoluteIndex = 0 → t = s.fromSteps + k)
    (hclear : s.Clear b) (hzero : s.count b = 0) (mem : Memory) :
    s.complete stored (s.request t b) mem = .ok mem := by
  obtain ⟨start, -, hcomplete⟩ := s.complete_eq stored h hrequested ht
  rw [WriteBlockRead.Clear, if_pos hzero] at hclear
  obtain ⟨hmalloc, hskip⟩ := hclear
  have hn : s.nelems b = 0 := UInt64.toNat_inj.mp
    ((WriteBlockRead.toNat_nelems (s := s.toWriteBlockRead) hrequested.lt).trans hzero)
  have hmallocs : mallocs s.mallocZero (s.count b * s.v.size) = true := by
    rw [hmalloc]
    exact Bool.or_true _
  rw [← Variable.computeVolume_bounds hrequested.lt, ← s.toNat_offset] at hskip
  have hskip := skipped_of_clear (hskip.imp_left fun hc => UInt64.toNat_inj.mp hc)
  simp only [hn, if_neg (not_not.mpr hmallocs)] at hcomplete
  rw [hcomplete]
  rcases hskip with hskip | ⟨x, hskip⟩
  · rw [hskip]
    rfl
  · rw [hskip, copyCommon, UInt64.zero_mul, if_neg fun hc => hc.1 rfl]
    exact congrArg Except.ok (apply_of_cells_nil (cells_block_zero (s.call stored b)
      (start + (x - s.offset) * getTypeSize s.v.origType none)
      ((x - 0) * getTypeSize s.v.origType none)) mem)

theorem exists_write_of_clear_pos (stored : Contents) (h : s.blocks[k]? = some b)
    (hrequested : s.Requested t b) (ht : s.sel.isAbsoluteIndex = 0 → t = s.fromSteps + k)
    (hclear : s.Clear b) (hzero : s.count b ≠ 0) :
    ∃ w : Heap.Write UInt8,
      (∀ mem, s.complete stored (s.request t b) mem = .ok (w.apply mem)) ∧
      ∀ a x, w.cellAt a = some x ↔ s.Holds stored k b a x := by
  have hlt := hrequested.lt
  have hnelems := WriteBlockRead.toNat_nelems (s := s.toWriteBlockRead) hlt
  have hvolume := Variable.computeVolume_bounds hlt
  obtain ⟨start, hstart, hcomplete⟩ := s.complete_eq stored h hrequested ht
  rw [WriteBlockRead.Clear, if_neg hzero] at hclear
  obtain ⟨hfirst, hint, hle⟩ := hclear
  have hstart0 : s.offset = 0 := UInt64.toNat_inj.mp (s.toNat_offset.trans hfirst)
  have hcopied := @copied_of_clear (s.nelems b)
    (computeVolume ((s.v.bounds b).map Segment.count)) (by omega) (by omega)
    (by rw [hnelems, hvolume]; exact hle)
  have hbytes := @Variable.toNat_mul_size s.v b (s.nelems b) hlt (by
    have hwithin := s.within h
    omega)
  rw [hnelems] at hbytes
  have hmallocs : mallocs s.mallocZero (s.count b * s.v.size) = true :=
    mallocs_of_pos _ (Nat.mul_pos (by omega) s.v.size_pos)
  obtain ⟨hlen, hcells⟩ := @cells_block (s.call stored b) s.v.numeric start 0
    (s.nelems b * getTypeSize s.v.origType none) 0 (s.count b) (Nat.zero_mul _).symm hbytes
  refine ⟨(s.call stored b).block start 0 (s.nelems b * getTypeSize s.v.origType none),
    fun mem => ?_, fun a x => ?_⟩
  · rw [hcomplete, if_neg (not_not.mpr hmallocs), hstart0, hcopied, copyCommon,
      UInt64.sub_self, UInt64.zero_mul, UInt64.add_zero]
    refine if_neg fun hc => ?_
    have hroom := hc.2
    rw [show (s.call stored b).datumType = s.v.origType from rfl, hbytes] at hroom
    have hzero : UInt64.toNat 0 = 0 := rfl
    omega
  · rw [Heap.Write.cellAt_elements_iff hlen hcells]
    have haddr : ((s.call stored b).block start 0
        (s.nelems b * getTypeSize s.v.origType none)).addr = (s.before k * s.v.size : Nat) :=
      congrArg Int.ofNat hstart
    have hsize : (s.call stored b).size = s.v.size := rfl
    rw [haddr, hsize]
    refine exists_congr fun e => and_congr_right fun _ => exists_congr fun j =>
      and_congr_right fun _ => and_congr ?_ ?_
    · rw [Nat.add_mul, Nat.add_assoc, ← Int.natCast_add]
    · rw [Nat.zero_add, element_call]
      rfl

theorem exists_write_of_clear (stored : Contents) (h : s.blocks[k]? = some b)
    (hrequested : s.Requested t b) (ht : s.sel.isAbsoluteIndex = 0 → t = s.fromSteps + k)
    (hclear : s.Clear b) :
    ∃ w : Heap.Write UInt8,
      (∀ mem, s.complete stored (s.request t b) mem = .ok (w.apply mem)) ∧
      ∀ a x, w.cellAt a = some x ↔ s.Holds stored k b a x := by
  by_cases hzero : s.count b = 0
  · refine ⟨⟨0, []⟩, fun mem => ?_, fun a x => iff_of_false (fun hc => ?_) fun hholds => ?_⟩
    · rw [complete_of_clear_empty stored h hrequested ht hclear hzero, apply_of_cells_nil rfl]
    · rw [cellAt_of_cells_nil rfl] at hc
      cases hc
    · obtain ⟨e, he, -⟩ := hholds
      omega
  · exact exists_write_of_clear_pos stored h hrequested ht hclear hzero

/-! ## All process groups -/

variable {stored : Contents} {a : Int} {x x' : UInt8}

theorem Holds.inside (hholds : s.Holds stored k b a x) (h : s.blocks[k]? = some b) :
    0 ≤ a ∧ a < (s.before s.blocks.length * s.v.size : Nat) := by
  obtain ⟨e, he, j, hj, rfl, -⟩ := hholds
  have hle := WriteBlockRead.before_add_count_le h
  have hmul : (s.before k + e + 1) * s.v.size ≤ s.before s.blocks.length * s.v.size :=
    Nat.mul_le_mul_right _ (by omega)
  rw [Nat.add_mul _ 1, Nat.one_mul] at hmul
  omega

theorem Holds.unique {k' b' : Nat} (hholds : s.Holds stored k b a x)
    (h : s.blocks[k]? = some b) (hholds' : s.Holds stored k' b' a x')
    (h' : s.blocks[k']? = some b') : k = k' ∧ x = x' := by
  obtain ⟨e, he, j, hj, rfl, hx⟩ := hholds
  obtain ⟨e', he', j', hj', haddr, hx'⟩ := hholds'
  obtain ⟨hindex, rfl⟩ := Heap.index_unique hj hj' (Int.ofNat.inj haddr)
  have hlt : ∀ {k₁ b₁ k₂ : Nat}, s.blocks[k₁]? = some b₁ → k₁ < k₂ →
      s.before k₁ + s.count b₁ ≤ s.before k₂ := fun hb hlt => by
    rw [← WriteBlockRead.before_succ hb]
    exact WriteBlockRead.before_le hlt
  have hk : k = k' := by
    rcases Nat.lt_trichotomy k k' with hless | heq | hless
    · have hle := hlt h hless
      omega
    · exact heq
    · have hle := hlt h' hless
      omega
  subst hk
  obtain rfl := Option.some.inj (h.symm.trans h')
  obtain rfl : e = e' := by omega
  exact ⟨rfl, Option.some.inj (hx.symm.trans hx')⟩

theorem exists_writes_of_clear {pgs : List (PgReadRequest × RawReadRequest)}
    (hrequests : ∀ k b, s.blocks[k]? = some b → ∃ t, pgs[k]? = some (s.request t b) ∧
      s.Requested t b ∧ (s.sel.isAbsoluteIndex = 0 → t = s.fromSteps + k))
    (hclear : ∀ b ∈ s.blocks, s.Clear b) {order : List Nat}
    (horder : ∀ k ∈ order, k < s.blocks.length) (mem : Memory) :
    ∃ ws : List (Heap.Write UInt8),
      order.foldlM (s.completeAt stored pgs) mem = .ok (Heap.writeAll mem ws) ∧
      Forall₂ (fun k w => ∃ b, s.blocks[k]? = some b ∧
        ∀ a x, w.cellAt a = some x ↔ s.Holds stored k b a x) order ws := by
  induction order generalizing mem with
  | nil => exact ⟨[], rfl, .nil⟩
  | cons k order ih =>
    obtain ⟨hk, horder⟩ := forall_mem_cons.mp horder
    have hb := getElem?_eq_getElem hk
    obtain ⟨t, hpg, hrequested, ht⟩ := hrequests k _ hb
    obtain ⟨w, hcomplete, hcells⟩ := s.exists_write_of_clear stored hb hrequested ht
      (hclear _ (getElem_mem hk))
    obtain ⟨ws, hrun, hws⟩ := ih horder (w.apply mem)
    refine ⟨w :: ws, ?_, .cons ⟨_, hb, hcells⟩ hws⟩
    have hstep : s.completeAt stored pgs mem k = .ok (w.apply mem) := by
      rw [WriteBlockRead.completeAt, hpg]
      exact hcomplete mem
    rw [List.foldlM_cons, hstep, ok_bind, hrun, Heap.writeAll_cons]

theorem length_moved (s : FittingRead) (e : List UInt8) : (s.moved e).length = e.length := by
  unfold WriteBlockRead.moved
  split_ifs
  · exact length_byteSwapped _ e
  · rfl

theorem delivered_of_clear (hclear : ∀ b ∈ s.blocks, s.Clear b) : s.Delivered := by
  intro stored userBuffer order hperm
  obtain ⟨pgs, hpopulate, -, hrequests⟩ := s.exists_populateReadRequest s.fits.within
  have hmem : ∀ k, k ∈ order ↔ k < s.blocks.length := fun k => by
    rw [hperm.mem_iff, mem_range]
  obtain ⟨ws, hrun, hws⟩ := s.exists_writes_of_clear hrequests hclear
    (fun k hk => (hmem k).mp hk) userBuffer
  have hcell : ∀ w ∈ ws, ∃ k b, s.blocks[k]? = some b ∧
      ∀ a x, w.cellAt a = some x ↔ s.Holds stored k b a x := fun w hw => by
    obtain ⟨i, hi, rfl⟩ := mem_iff_getElem.mp hw
    obtain ⟨b, hb, hcells⟩ := hws.get (by rw [hws.length_eq]; exact hi) hi
    exact ⟨_, b, hb, hcells⟩
  refine ⟨Heap.writeAll userBuffer ws, by rw [WriteBlockRead.run, hpopulate, ok_bind, hrun], ?_, ?_⟩
  · intro k b hb e he
    apply ext_getElem?
    intro j
    by_cases hj : j < s.v.size
    · obtain ⟨x, hx⟩ : ∃ x, (s.moved (element (stored b) s.v.size (s.first + e)))[j]? = some x :=
        ⟨_, getElem?_eq_getElem (by rw [length_moved, length_element]; exact hj)⟩
      have hholds : s.Holds stored k b ((s.before k + e) * s.v.size + j : Nat) x :=
        ⟨e, he, j, hj, rfl, hx⟩
      rw [element, getElem?_read hj, hx]
      refine congrArg some (Heap.writeAll_of_agree ?_ ?_)
      · obtain ⟨i, hi, hki⟩ := mem_iff_getElem.mp ((hmem k).mpr
          (List.getElem?_eq_some_iff.mp hb).1)
        obtain ⟨b', hb', hcells⟩ := hws.get hi (by rw [← hws.length_eq]; exact hi)
        have hk : order.get ⟨i, hi⟩ = k := hki
        rw [hk] at hb' hcells
        obtain rfl := Option.some.inj (hb.symm.trans hb')
        exact ⟨_, get_mem ws _, (hcells _ _).mpr hholds⟩
      · intro w hw x' hx'
        obtain ⟨k', b', hb', hcells⟩ := hcell w hw
        exact (((hcells _ _).mp hx').unique hb' hholds hb).2
    · rw [getElem?_eq_none (by rw [length_element]; omega),
        getElem?_eq_none (by rw [length_moved, length_element]; omega)]
  · intro a ha
    refine Heap.writeAll_of_none fun w hw => ?_
    obtain ⟨k, b, hb, hcells⟩ := hcell w hw
    refine Option.eq_none_iff_forall_ne_some.mpr fun x hx => ?_
    have hinside := ((hcells a x).mp hx).inside hb
    omega

/-! ## What goes wrong -/

def marked (b : Nat) : Contents := fun b' _ => if b' = b then 1 else 0

def zeros : Memory := fun _ => 0

theorem moved_replicate (s : FittingRead) (n : Nat) (x : UInt8) :
    s.moved (List.replicate n x) = List.replicate n x := by
  unfold WriteBlockRead.moved byteSwapped
  split_ifs
  · rw [length_replicate, take_replicate, drop_replicate, reverse_replicate,
      reverse_replicate, replicate_append_replicate]
    congr 1
    omega
  · exact reverse_replicate
  · rfl

variable {mem out : Memory} {start : UInt64}

theorem element_const (h : ∀ a, mem a = x) (size n : Nat) :
    element mem size n = List.replicate size x := by
  unfold element CopySubvolume.read
  rw [map_congr_left fun k _ => h _, map_const', length_range]

theorem exists_toNat_mul_size (s : FittingRead) (y : UInt64) :
    ∃ n, (y * getTypeSize s.v.origType none).toNat = n * s.v.size := by
  have hmem := getTypeSize_mem s.v.numeric none
  have hdvd : s.v.size ∣ 18446744073709551616 := by
    simp only [mem_cons, not_mem_nil, or_false] at hmem
    unfold Variable.size
    rcases hmem with h | h | h | h | h <;> rw [h] <;> decide
  rw [UInt64.toNat_mul]
  obtain ⟨n, hn⟩ := (Nat.dvd_mod_iff hdvd).mpr (Nat.dvd_mul_left s.v.size y.toNat)
  exact ⟨n, hn.trans (Nat.mul_comm _ _)⟩

theorem cellAt_block_const (s : FittingRead) (hsrc : ∀ a, (s.call stored b).src a = x)
    (dst y m : UInt64) (h : ((s.call stored b).block dst (y * getTypeSize s.v.origType none)
      (m * getTypeSize s.v.origType none)).cellAt a = some x') :
    x' = x ∧ (dst.toNat : Int) ≤ a ∧
      a < dst.toNat + (m * getTypeSize s.v.origType none).toNat := by
  obtain ⟨ny, hy⟩ := s.exists_toNat_mul_size y
  obtain ⟨nm, hm⟩ := s.exists_toNat_mul_size m
  obtain ⟨hlen, hcells⟩ := @cells_block (s.call stored b) s.v.numeric dst _ _ ny nm hy hm
  have hinside := Heap.Write.lt_of_cellAt h
  obtain ⟨q, -, j, hj, -, hx⟩ := (Heap.Write.cellAt_elements_iff hlen hcells).mp h
  have hmoved : (s.call stored b).moved (List.replicate (s.call stored b).size x) =
      List.replicate (s.call stored b).size x := s.moved_replicate _ x
  rw [element_const hsrc, hmoved, getElem?_replicate, if_pos hj] at hx
  rw [hlen] at hinside
  rw [hm]
  exact ⟨(Option.some.inj hx).symm, hinside⟩

theorem of_copyCommon_eq_ok {offset y m : UInt64} {buflen : Nat}
    (h : copyCommon (s.call stored b) mem start offset 0 buflen (some (y, m)) = .ok out) :
    ((m * getTypeSize s.v.origType none).toNat = 0 ∨ (y * getTypeSize s.v.origType none).toNat +
        (m * getTypeSize s.v.origType none).toNat ≤ buflen) ∧
      out = ((s.call stored b).block (start + (y - offset) * getTypeSize s.v.origType none)
        (y * getTypeSize s.v.origType none) (m * getTypeSize s.v.origType none)).apply mem := by
  have htype : (s.call stored b).datumType = s.v.origType := rfl
  rw [copyCommon, UInt64.sub_zero, htype] at h
  by_cases hover : m * getTypeSize s.v.origType none ≠ 0 ∧
      buflen < (y * getTypeSize s.v.origType none).toNat +
        (m * getTypeSize s.v.origType none).toNat
  · rw [if_pos hover] at h
    cases h
  · rw [if_neg hover] at h
    refine ⟨?_, (Except.ok.inj h).symm⟩
    by_contra hnot
    rw [not_or] at hnot
    exact hover ⟨fun hc => hnot.1 (congrArg UInt64.toNat hc), Nat.not_le.mp hnot.2⟩

theorem eq_zeros_of_copyCommon (hsrc : ∀ a, (s.call stored b).src a = 0) {offset : UInt64}
    {buflen : Nat} {inter : Option (UInt64 × UInt64)}
    (h : copyCommon (s.call stored b) zeros start offset 0 buflen inter = .ok out) :
    out = zeros := by
  cases inter with
  | none => exact (Except.ok.inj h).symm
  | some common =>
    rw [(of_copyCommon_eq_ok h).2]
    funext a
    rw [Heap.Write.apply]
    cases hcell : Heap.Write.cellAt _ a with
    | none => rfl
    | some x => exact (s.cellAt_block_const hsrc _ _ _ hcell).1

theorem clear_of_copy_empty (hzero : s.nelems b = 0) (h : copyCommon (s.call stored b) mem start
      s.offset 0 0 (intersectSegments s.offset (s.nelems b) 0 (computeVolume ((s.v.bounds b).map
      Segment.count))) = .ok out) :
    s.offset.toNat = 0 ∨
      cut (computeVolume ((s.v.bounds b).map Segment.count)).toNat ≤ cut s.offset.toNat ∨
      signed s.offset.toNat ≤ signed (computeVolume ((s.v.bounds b).map Segment.count)).toNat := by
  have hsize := getTypeSize_mem s.v.numeric none
  rw [hzero] at h
  by_contra hnot
  obtain ⟨y, m, hinter, hm⟩ := exists_of_not_clear (fun hc => hnot (hc.imp_left fun hc => by
    rw [hc]
    rfl))
  rw [hinter] at h
  have hroom := (of_copyCommon_eq_ok h).1
  have hmlt := m.toNat_lt
  simp only [mem_cons, not_mem_nil, or_false] at hsize
  rw [UInt64.toNat_mul] at hroom
  rcases hsize with hs | hs | hs | hs | hs <;> rw [hs] at hroom <;> omega

theorem inside_of_ne_zero (hsrc : ∀ a, (s.call stored b).src a = x) {dst y m : UInt64}
    (h : ((s.call stored b).block dst (y * getTypeSize s.v.origType none)
      (m * getTypeSize s.v.origType none)).apply zeros a ≠ 0) :
    (dst.toNat : Int) ≤ a ∧ a < dst.toNat + (m * getTypeSize s.v.origType none).toNat := by
  rw [Heap.Write.apply] at h
  cases hcell : Heap.Write.cellAt ((s.call stored b).block dst
      (y * getTypeSize s.v.origType none) (m * getTypeSize s.v.origType none)) a with
  | none =>
    rw [hcell] at h
    exact absurd rfl h
  | some x => exact (s.cellAt_block_const hsrc _ _ _ hcell).2

theorem clear_of_complete (h : s.blocks[k]? = some b) (hrequested : s.Requested t b)
    (ht : s.sel.isAbsoluteIndex = 0 → t = s.fromSteps + k)
    (hcomplete : s.complete (marked b) (s.request t b) zeros = .ok out)
    (hones : ∀ i < s.count b * s.v.size, out (s.before k * s.v.size + i : Nat) = 1) :
    s.Clear b := by
  have hlt := hrequested.lt
  have hnelems := WriteBlockRead.toNat_nelems (s := s.toWriteBlockRead) hlt
  have hoffset := s.toNat_offset
  have hvolume := Variable.computeVolume_bounds hlt
  have hsize := getTypeSize_mem s.v.numeric none
  obtain ⟨start, hstart, hall⟩ := s.complete_eq (marked b) h hrequested ht
  rw [hall] at hcomplete
  by_cases hmalloc : mallocs s.mallocZero (s.count b * s.v.size) = true
  swap
  · rw [if_pos hmalloc] at hcomplete
    cases hcomplete
  rw [if_neg (not_not.mpr hmalloc)] at hcomplete
  unfold WriteBlockRead.Clear
  rw [← hoffset, ← hvolume, ← hnelems]
  by_cases hzero : (s.nelems b).toNat = 0
  · rw [if_pos hzero]
    rw [← hnelems, hzero, Nat.zero_mul] at hmalloc hcomplete
    exact ⟨hmalloc, clear_of_copy_empty (UInt64.toNat_inj.mp (hzero.trans rfl)) hcomplete⟩
  · rw [if_neg hzero]
    have hsrc : ∀ a, (s.call (marked b) b).src a = 1 := fun a => if_pos rfl
    have hpos : 0 < s.count b * s.v.size := Nat.mul_pos (by omega) s.v.size_pos
    have hcovered : ∀ i < s.count b * s.v.size, out (s.before k * s.v.size + i : Nat) ≠ 0 :=
      fun i hi => by
        rw [hones i hi]
        decide
    have hbytes := s.bytes_le h
    have hbuffer := s.fits.buffer
    cases hinter : intersectSegments s.offset (s.nelems b) 0
        (computeVolume ((s.v.bounds b).map Segment.count)) with
    | none =>
      rw [hinter] at hcomplete
      rw [← Except.ok.inj hcomplete] at hcovered
      exact absurd rfl (hcovered 0 hpos)
    | some common =>
      obtain ⟨y, m⟩ := common
      rw [hinter] at hcomplete
      obtain ⟨hroom, rfl⟩ := of_copyCommon_eq_ok hcomplete
      -- the first and the last byte are copied
      have hfirst := inside_of_ne_zero hsrc (hcovered 0 hpos)
      have hlast := inside_of_ne_zero hsrc (hcovered (s.count b * s.v.size - 1) (by omega))
      have hsrc0 : y * getTypeSize s.v.origType none = 0 := UInt64.toNat_inj.mp (by
        show _ = 0
        omega)
      have hsame : start + (y - s.offset) * getTypeSize s.v.origType none = start :=
        UInt64.toNat_inj.mp (by omega)
      have hdst : (y - s.offset) * getTypeSize s.v.origType none = 0 :=
        (UInt64.add_right_inj start).mp (hsame.trans (UInt64.add_zero start).symm)
      have hwithin := Nat.mul_le_mul_right s.v.size (s.within h)
      have hblock := Variable.volume_mul_size_lt hlt
      rw [Nat.add_mul] at hwithin
      refine And.imp_left (congrArg UInt64.toNat)
        (clear_of_copied hsize (by omega) ?_ ?_ hinter hsrc0 hdst ?_)
      · rw [hnelems]
        exact Nat.lt_of_le_of_lt (Nat.le_of_add_left_le hbytes) hbuffer
      · rw [hoffset]
        exact Nat.lt_of_le_of_lt (Nat.le_of_add_right_le hwithin) hblock
      · rw [hnelems]
        show _ = s.count b * s.v.size
        omega

theorem blocks_injective {k' : Nat} (h : s.blocks[k]? = some b) (h' : s.blocks[k']? = some b) :
    k = k' := by
  obtain ⟨pgs, -, -, hrequests⟩ := s.exists_populateReadRequest s.fits.within
  obtain ⟨t, -, hrequested, ht⟩ := hrequests k b h
  obtain ⟨t', -, hrequested', ht'⟩ := hrequests k' b h'
  by_cases habs : s.sel.isAbsoluteIndex = 0
  · unfold WriteBlockRead.Requested at hrequested hrequested'
    rw [if_neg (not_not.mpr habs)] at hrequested hrequested'
    obtain ⟨i, hi, hlt, hb⟩ := hrequested
    obtain ⟨i', hi', hlt', hb'⟩ := hrequested'
    have ht := ht habs
    have ht' := ht' habs
    obtain ⟨hsame, -⟩ := step_unique hlt hlt' (hb.symm.trans hb')
    omega
  · have hblocks : s.blocks = [s.sel.index.toNat] := if_pos habs
    rw [hblocks] at h h'
    obtain ⟨hk, -⟩ := List.getElem?_eq_some_iff.mp h
    obtain ⟨hk', -⟩ := List.getElem?_eq_some_iff.mp h'
    rw [length_singleton] at hk hk'
    omega

theorem eq_zeros_of_others {pgs : List (PgReadRequest × RawReadRequest)} (hrequests : ∀ k b,
      s.blocks[k]? = some b → ∃ t, pgs[k]? = some (s.request t b) ∧ s.Requested t b ∧
      (s.sel.isAbsoluteIndex = 0 → t = s.fromSteps + k)) {order : List Nat}
    (horder : ∀ k ∈ order, ∃ b', s.blocks[k]? = some b' ∧ b' ≠ b)
    (hrun : order.foldlM (s.completeAt (marked b) pgs) zeros = .ok out) : out = zeros := by
  induction order generalizing out with
  | nil => exact (Except.ok.inj hrun).symm
  | cons k order ih =>
    obtain ⟨⟨b', hb', hne⟩, horder⟩ := forall_mem_cons.mp horder
    obtain ⟨t, hpg, hrequested, ht⟩ := hrequests k b' hb'
    rw [List.foldlM_cons] at hrun
    obtain ⟨mem, hstep, hrun⟩ := exists_of_bind_eq_ok hrun
    have hmem : mem = zeros := by
      obtain ⟨start, -, hall⟩ := s.complete_eq (marked b) hb' hrequested ht
      rw [WriteBlockRead.completeAt, hpg] at hstep
      have hstep := (hall zeros).symm.trans hstep
      split_ifs at hstep
      have hsrc : ∀ a, (s.call (marked b) b').src a = 0 := fun a => if_neg hne
      exact eq_zeros_of_copyCommon hsrc hstep
    rw [hmem] at hrun
    exact ih horder hrun

theorem clear_of_delivered (hdelivered : s.Delivered) (h : s.blocks[k]? = some b) :
    s.Clear b := by
  obtain ⟨hk, -⟩ := List.getElem?_eq_some_iff.mp h
  obtain ⟨pgs, hpopulate, -, hrequests⟩ := s.exists_populateReadRequest s.fits.within
  -- this process group is the last one to complete
  have hperm : (((List.range s.blocks.length).erase k) ++ [k]).Perm
      (List.range s.blocks.length) :=
    (perm_append_singleton k _).trans
      (perm_cons_erase (mem_range.mpr hk)).symm
  obtain ⟨out, hrun, helements, -⟩ := hdelivered (marked b) zeros _ hperm
  rw [WriteBlockRead.run, hpopulate, ok_bind, foldlM_append] at hrun
  obtain ⟨mem, hothers, hlast⟩ := exists_of_bind_eq_ok hrun
  have hmem : mem = zeros := by
    refine eq_zeros_of_others hrequests (fun k' hk' => ?_) hothers
    obtain ⟨hne, hmem⟩ := (List.Nodup.mem_erase_iff nodup_range).mp hk'
    have hb' := getElem?_eq_getElem (mem_range.mp hmem)
    exact ⟨_, hb', fun hc => hne (blocks_injective hb' (hc ▸ h))⟩
  subst hmem
  obtain ⟨t, hpg, hrequested, ht⟩ := hrequests k b h
  rw [List.foldlM_cons, WriteBlockRead.completeAt, hpg] at hlast
  obtain ⟨out', hcomplete, hnil⟩ := exists_of_bind_eq_ok hlast
  rw [Except.ok.inj hnil] at hcomplete
  refine clear_of_complete h hrequested ht hcomplete fun i hi => ?_
  -- a byte of an element
  have hpos := s.v.size_pos
  have hdiv : i / s.v.size < s.count b :=
    Nat.div_lt_of_lt_mul (by rw [Nat.mul_comm]; exact hi)
  have hmod := Nat.mod_lt i hpos
  have helement := helements k b h (i / s.v.size) hdiv
  have hones : ∀ a, marked b b a = 1 := fun a => if_pos rfl
  rw [element_const hones, moved_replicate] at helement
  have hbyte := congrArg (·[i % s.v.size]?) helement
  rw [element, getElem?_read hmod, getElem?_replicate, if_pos hmod] at hbyte
  have haddr : (s.before k + i / s.v.size) * s.v.size + i % s.v.size =
      s.before k * s.v.size + i := by
    rw [Nat.add_mul, Nat.add_assoc, Nat.div_add_mod']
  rw [haddr] at hbyte
  exact Option.some.inj hbyte

/-- **Write-blocks of transformed variables.** They get to the user exactly if what is selected of
each block is clear. -/
theorem writeBlockDelivered_iff (s : FittingRead) : s.Delivered ↔ ∀ b ∈ s.blocks, s.Clear b := by
  constructor
  · intro h b hb
    obtain ⟨k, hk⟩ := getElem?_of_mem hb
    exact clear_of_delivered h hk
  · exact delivered_of_clear

end FittingRead

def twoBytes : Variable where
  nblocks := [1]
  origBlockinfo := [[⟨0, 2⟩]]
  origType := .byte
  total := sum_one_lt
  length := rfl
  numeric := isNumeric_byte
  fits := forall_mem_singleton.mpr (by decide)

def secondByte : FittingRead where
  v := twoBytes
  host := .little
  swapEndianness := .no
  mallocZero := true
  sel := ⟨0, 1, 1, 1, 1⟩
  fromSteps := 0
  nsteps := 1
  steps := by decide
  there := by decide
  fits := ⟨by decide, by decide⟩

/-- It is looked for behind the one byte that has been read. -/
theorem not_delivered_secondByte : ¬secondByte.Delivered := by
  intro h
  obtain ⟨out, hrun, -⟩ := h (fun _ _ => 0) (fun _ => 0) [0] (List.Perm.refl _)
  have herror : secondByte.run (fun _ _ => 0) [0] (fun _ => 0) = .error .outOfBounds := rfl
  rw [herror] at hrun
  cases hrun

/-! ## In whatever order the chunks come back -/

/-- The blocks of a request as its process groups have completed: "LIST_PREPEND" has put the last
one first. -/
def blockOrder (r : RequestGroups.ReadRequest) : List Nat :=
  r.completionOrder.map fun i => r.pgReqgroups.length - 1 - i

theorem blockOrder_perm {r : RequestGroups.ReadRequest} (h : r.Right)
    (hcompleted : r.completed = true) :
    (blockOrder r).Perm (List.range r.pgReqgroups.length) := by
  have hreverse : ((List.range r.pgReqgroups.length).map fun i => r.pgReqgroups.length - 1 - i) =
      (List.range' 0 r.pgReqgroups.length).reverse := by
    rw [reverse_range', Nat.zero_add]
  refine ((h.completionOrder_perm hcompleted).map _).trans ?_
  rw [hreverse, ← range_eq_range']
  exact reverse_perm _

namespace FittingRead

variable (s : FittingRead)

/-- **A request of the system**, in any run that has completed it, whatever came back before
what. -/
theorem delivered_of_reached (hclear : ∀ b ∈ s.blocks, s.Clear b) (g : RequestGroups.Reached)
    {r : RequestGroups.ReadRequest} (hr : r ∈ g.system.reqgroups ++ g.system.freed)
    (hdone : r.completed = true ∨ g.system.inFlight = [])
    (hpgs : r.pgReqgroups.length = s.blocks.length) (stored : Contents) (userBuffer : Memory) :
    ∃ out, s.run stored (blockOrder r) userBuffer = .ok out ∧
      (∀ k b, s.blocks[k]? = some b → ∀ e < s.count b,
        element out s.v.size (s.before k + e) =
          s.moved (element (stored b) s.v.size (s.first + e))) ∧
      ∀ a : Int, a < 0 ∨ (s.before s.blocks.length * s.v.size : Nat) ≤ a →
        out a = userBuffer a := by
  have hright := RequestGroups.System.Inv.right (g.run.invariant RequestGroups.System.inv_initial
    fun _ _ _ h hmeets hstep => h.step hmeets hstep)
  have hcompleted : r.completed = true := hdone.elim id fun hnone => hright.delivered hnone r hr
  have horder := blockOrder_perm (hright.requests r hr) hcompleted
  rw [hpgs] at horder
  exact delivered_of_clear hclear stored userBuffer _ horder

end FittingRead

def bothBytes : FittingRead := { secondByte with
  sel := ⟨0, 1, 0, 0, 0⟩
  there := by decide
  fits := ⟨by decide, by decide⟩ }

theorem delivered_of_reached_bothBytes : ∃ (g : RequestGroups.Reached)
    (r : RequestGroups.ReadRequest) (out : Memory), r ∈ g.system.reqgroups ++ g.system.freed ∧
    bothBytes.run (fun _ _ => 7) (blockOrder r) (fun _ => 0) = .ok out := by
  have hschedule : ∀ pg ∈ [((0 : Int), [bothBytes.sel])], pg.2 ≠ [] := by simp
  let g : RequestGroups.Reached := ⟨_, .step (.step .refl
    (e := .schedule ⟨0, [0], false⟩ 0 [(0, [bothBytes.sel])]) hschedule rfl)
    (e := .performReads false) trivial rfl⟩
  have hclear : ∀ b ∈ bothBytes.blocks, bothBytes.Clear b := by
    intro b hb
    obtain rfl := mem_singleton.mp hb
    unfold WriteBlockRead.Clear
    decide
  obtain ⟨r, hr, hpgs⟩ : ∃ r, r ∈ g.system.reqgroups ++ g.system.freed ∧
      r.pgReqgroups.length = bothBytes.blocks.length := ⟨_, mem_singleton.mpr rfl, rfl⟩
  obtain ⟨out, hrun, -⟩ := bothBytes.delivered_of_reached hclear g hr (.inr rfl) hpgs
    (fun _ _ => 7) fun _ => 0
  exact ⟨g, r, out, hr, hrun⟩

end Adios.Transforms
