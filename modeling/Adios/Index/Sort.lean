import Adios.Index.Struct
import Adios.Lists.Bubble

/-!
# Adios — sorting an index by time

`adios_sort_index_v1`: the process groups are taken one by one to their place in a new list, the
characteristics sets of each variable are sorted where they are. "no need to sort attributes".
-/

namespace Adios

open List Lists

/-- "`while (p2_temp && (*p1)->time_index >= p2_temp->time_index)`" and what is behind it. -/
def insertProcessGroup (item : IndexProcessGroup) : List IndexProcessGroup → List IndexProcessGroup
  | [] => [item]
  | p :: ps =>
    if p.timeIndex ≤ item.timeIndex then p :: insertProcessGroup item ps else item :: p :: ps

/-- One round of "`while (*p1)`". A group older than the first of the new list has the first one as
its next and its previous one: the list is a ring then, of which no loop finds the end. -/
def placeProcessGroup (p2 : List IndexProcessGroup) (item : IndexProcessGroup) :
    Except Fault (List IndexProcessGroup) :=
  match p2 with
  | [] => .ok [item]
  | first :: _ =>
    if first.timeIndex ≤ item.timeIndex then .ok (insertProcessGroup item p2) else .error .endless

/-- `t_var_id` is a `uint16_t`. -/
def IndexCharacteristic.exchanged (c : IndexCharacteristic) : IndexCharacteristic :=
  { c with varId := c.varId.toUInt16.toUInt32 }

def sortSets (v : IndexEntry) : IndexEntry :=
  { v with
    characteristics :=
      bubbleSort (fun c => c.timeIndex.toNat) IndexCharacteristic.exchanged v.characteristics }

/-- `adios_sort_index_v1` -/
def sortIndexV1 (ix : Index) : Except Fault Index := do
  let pgRoot ← ix.pgRoot.foldlM placeProcessGroup []
  return { pgRoot, varsRoot := ix.varsRoot.map sortSets, attrsRoot := ix.attrsRoot }

/-! ## What it does -/

theorem insertProcessGroup_perm (item : IndexProcessGroup) (ps : List IndexProcessGroup) :
    (insertProcessGroup item ps).Perm (item :: ps) := by
  induction ps with
  | nil => exact .refl _
  | cons p ps ih =>
    rw [insertProcessGroup]
    split_ifs
    · exact (ih.cons p).trans (.swap _ _ _)
    · exact .refl _

theorem insertProcessGroup_pairwise {item : IndexProcessGroup} {ps : List IndexProcessGroup}
    (h : ps.Pairwise fun p q => p.timeIndex ≤ q.timeIndex) :
    (insertProcessGroup item ps).Pairwise fun p q => p.timeIndex ≤ q.timeIndex := by
  induction ps with
  | nil => exact pairwise_singleton _ _
  | cons p ps ih =>
    obtain ⟨hp, hps⟩ := pairwise_cons.mp h
    rw [insertProcessGroup]
    split_ifs with hle
    · refine pairwise_cons.mpr ⟨fun q hq => ?_, ih hps⟩
      rcases mem_cons.mp ((insertProcessGroup_perm item ps).subset hq) with rfl | hq
      · exact hle
      · exact hp q hq
    · have hitem : item.timeIndex ≤ p.timeIndex := by
        rw [UInt32.le_iff_toNat_le] at hle ⊢
        omega
      refine pairwise_cons.mpr ⟨fun q hq => ?_, h⟩
      rcases mem_cons.mp hq with rfl | hq
      · exact hitem
      · exact UInt32.le_trans hitem (hp q hq)

def OldestFirst (pgs : List IndexProcessGroup) : Prop :=
  ∀ first ∈ pgs.head?, ∀ pg ∈ pgs, first.timeIndex ≤ pg.timeIndex

theorem foldlM_placeProcessGroup (first : IndexProcessGroup) (pgs acc : List IndexProcessGroup)
    (hacc : (first :: acc).Pairwise fun p q => p.timeIndex ≤ q.timeIndex)
    (hpgs : ∀ pg ∈ pgs, first.timeIndex ≤ pg.timeIndex) :
    ∃ out, pgs.foldlM placeProcessGroup (first :: acc) = .ok out ∧
      out.Pairwise (fun p q => p.timeIndex ≤ q.timeIndex) ∧ out.Perm (first :: acc ++ pgs) := by
  induction pgs generalizing acc with
  | nil =>
    refine ⟨first :: acc, rfl, hacc, ?_⟩
    rw [append_nil]
  | cons pg pgs ih =>
    have hle := hpgs pg mem_cons_self
    have hinsert : insertProcessGroup pg (first :: acc) = first :: insertProcessGroup pg acc :=
      if_pos hle
    have hstep : placeProcessGroup (first :: acc) pg =
        .ok (first :: insertProcessGroup pg acc) := by
      rw [← hinsert]
      exact if_pos hle
    have hnext := @insertProcessGroup_pairwise pg _ hacc
    rw [hinsert] at hnext
    obtain ⟨out, hout, hsorted, hperm⟩ :=
      ih (insertProcessGroup pg acc) hnext fun q hq => hpgs q (mem_cons_of_mem pg hq)
    refine ⟨out, ?_, hsorted, hperm.trans ?_⟩
    · rw [List.foldlM_cons, hstep, ok_bind]
      exact hout
    · have hmiddle : (pg :: acc ++ pgs).Perm (acc ++ pg :: pgs) := perm_middle.symm
      exact (((insertProcessGroup_perm pg acc).append_right pgs).trans hmiddle).cons first

theorem foldlM_placeProcessGroup_error {first old : IndexProcessGroup}
    {pgs acc : List IndexProcessGroup} (hmem : old ∈ pgs)
    (hold : ¬first.timeIndex ≤ old.timeIndex) :
    pgs.foldlM placeProcessGroup (first :: acc) = .error .endless := by
  induction pgs generalizing acc with
  | nil => cases hmem
  | cons pg pgs ih =>
    rw [List.foldlM_cons]
    by_cases hle : first.timeIndex ≤ pg.timeIndex
    · have hstep : placeProcessGroup (first :: acc) pg =
          .ok (first :: insertProcessGroup pg acc) := by
        have hinsert : insertProcessGroup pg (first :: acc) = first :: insertProcessGroup pg acc :=
          if_pos hle
        rw [← hinsert]
        exact if_pos hle
      rw [hstep, ok_bind]
      rcases mem_cons.mp hmem with rfl | hmem
      · exact absurd hle hold
      · exact ih hmem
    · have hstep : placeProcessGroup (first :: acc) pg = .error .endless := if_neg hle
      rw [hstep]
      rfl

structure SortedFrom (ix ix' : Index) : Prop where
  pgs : ix'.pgRoot.Perm ix.pgRoot
  pgsAscending : ix'.pgRoot.Pairwise fun p q => p.timeIndex ≤ q.timeIndex
  vars : ix'.varsRoot = ix.varsRoot.map sortSets
  attrs : ix'.attrsRoot = ix.attrsRoot

theorem sortSets_spec (v : IndexEntry) :
    ((sortSets v).characteristics.Pairwise fun c d => c.timeIndex.toNat ≤ d.timeIndex.toNat) ∧
      ∀ {β : Type} (f : IndexCharacteristic → β),
        (∀ c : IndexCharacteristic, f c.exchanged = f c) →
        ((sortSets v).characteristics.map f).Perm (v.characteristics.map f) :=
  ⟨@pairwise_bubbleSort _ (fun c => c.timeIndex.toNat) IndexCharacteristic.exchanged
      (fun _ => rfl) v.characteristics,
    fun _ hf => map_bubbleSort_perm hf v.characteristics⟩

theorem sortIndexV1_spec {ix : Index} (h : OldestFirst ix.pgRoot) :
    ∃ ix', sortIndexV1 ix = .ok ix' ∧ SortedFrom ix ix' := by
  unfold sortIndexV1
  cases hpgs : ix.pgRoot with
  | nil => exact ⟨_, rfl, by rw [hpgs], List.Pairwise.nil, rfl, rfl⟩
  | cons first pgs =>
    rw [hpgs] at h
    have hfirst := h first rfl
    obtain ⟨out, hout, hsorted, hperm⟩ := foldlM_placeProcessGroup first pgs []
      (pairwise_singleton _ _) fun pg hpg => hfirst pg (mem_cons_of_mem first hpg)
    refine ⟨{ pgRoot := out, varsRoot := ix.varsRoot.map sortSets, attrsRoot := ix.attrsRoot },
      ?_, ?_, hsorted, rfl, rfl⟩
    · have hplace : placeProcessGroup [] first = .ok [first] := rfl
      rw [List.foldlM_cons, hplace, ok_bind, hout]
      rfl
    · rw [hpgs]
      exact hperm

theorem sortIndexV1_ok_iff (ix : Index) :
    (∃ ix', sortIndexV1 ix = .ok ix') ↔ OldestFirst ix.pgRoot := by
  constructor
  · rintro ⟨ix', hix'⟩
    by_contra hyoung
    cases hpgs : ix.pgRoot with
    | nil =>
      rw [hpgs] at hyoung
      exact hyoung fun first hfirst => by cases hfirst
    | cons first pgs =>
      obtain ⟨old, hmem, hold⟩ : ∃ old ∈ pgs, ¬first.timeIndex ≤ old.timeIndex := by
        by_contra hall
        refine hyoung fun first' hfirst' pg hpg => ?_
        rw [hpgs] at hfirst' hpg
        obtain rfl : first = first' := by simpa using hfirst'
        rcases mem_cons.mp hpg with rfl | hpg
        · exact UInt32.le_refl _
        · by_contra hlt
          exact hall ⟨pg, hpg, hlt⟩
      have hplace : placeProcessGroup [] first = .ok [first] := rfl
      rw [sortIndexV1, hpgs, List.foldlM_cons, hplace, ok_bind,
        foldlM_placeProcessGroup_error hmem hold] at hix'
      cases hix'
  · intro h
    obtain ⟨ix', hix', -⟩ := sortIndexV1_spec h
    exact ⟨ix', hix'⟩

end Adios
