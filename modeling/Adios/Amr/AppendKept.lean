import Adios.Amr.Append
import Adios.Index.Keeps
import Mathlib.Algebra.Ring.Int.Defs
import Mathlib.Algebra.Ring.Nat

/-!
# MPI_AMR — what a run that appends keeps

A run goes on from what every subfile holds, so the invariant is about each subfile by itself: its
index is that of all blocks in it, the blocks lie before its end, and the newest of them is of the
last step. Collecting the subfiles then gives what all runs have written.
-/

namespace Adios.Amr

open List Wire Lists
open Bpmeta (OneGroup setsOf)

/-! ## The groups -/

theorem color1_eq (nproc aggregators rank : Nat) :
    color1 nproc aggregators rank = shareOf nproc aggregators rank := by
  rw [shareOf_eq_ite, ← sub_div_mul_eq_mod]
  rfl

theorem aggregatorRanks_eq (nproc aggregators rounds i : Nat) :
    aggregatorRanks (nproc / aggregators) (nproc % aggregators) rounds i
        (shareStart nproc aggregators i) =
      (List.range' i rounds).map (shareStart nproc aggregators) := by
  induction rounds generalizing i with
  | zero => rfl
  | succ rounds ih =>
    have hnext : (if i < nproc % aggregators
        then shareStart nproc aggregators i + (nproc / aggregators + 1)
        else shareStart nproc aggregators i + nproc / aggregators) =
        shareStart nproc aggregators (i + 1) := by
      rw [shareStart_succ, shareSize]
      split_ifs <;> rfl
    rw [aggregatorRanks, hnext, ih, range'_succ, map_cons]

section

variable (r : Run)

theorem Run.aggregators_pos : 0 < r.aggregators := by
  have hlen := length_pos_iff.mpr r.nonempty
  unfold aggregators aggregatorCount
  split_ifs with h
  · exact hlen
  · omega

theorem Run.aggregators_le : r.aggregators ≤ r.tasks.length := by
  unfold aggregators aggregatorCount
  split_ifs with h
  · exact Nat.le_refl _
  · omega

theorem Run.members_eq (c : Nat) : r.members c = share r.aggregators r.tasks c := by
  unfold members
  simp only [color1_eq]
  exact map_filter_shareOf r.aggregators_pos r.aggregators_le c

theorem Run.members_ne_nil {c : Nat} (hc : c < r.aggregators) : r.members c ≠ [] := by
  have hlen := @length_share _ _ r.aggregators_pos r.tasks _ hc
  have hpos := shareSize_pos r.aggregators_pos r.aggregators_le c
  intro hnil
  rw [← r.members_eq, hnil, length_nil] at hlen
  omega

end

/-! ## The largest time -/

theorem foldl_maxTimeIndex (pgs : List IndexProcessGroup) (m : UInt32) :
    m ≤ pgs.foldl (fun max p => if p.timeIndex > max then p.timeIndex else max) m ∧
      (∀ pg ∈ pgs, pg.timeIndex ≤
        pgs.foldl (fun max p => if p.timeIndex > max then p.timeIndex else max) m) ∧
      (pgs.foldl (fun max p => if p.timeIndex > max then p.timeIndex else max) m = m ∨
        ∃ pg ∈ pgs, pg.timeIndex =
          pgs.foldl (fun max p => if p.timeIndex > max then p.timeIndex else max) m) := by
  induction pgs generalizing m with
  | nil => exact ⟨UInt32.le_refl m, forall_mem_nil _, Or.inl rfl⟩
  | cons pg pgs ih =>
    rw [foldl_cons]
    obtain ⟨hle, hall, hsome⟩ := ih (if pg.timeIndex > m then pg.timeIndex else m)
    generalize pgs.foldl _ _ = top at hle hall hsome ⊢
    have hm : m ≤ (if pg.timeIndex > m then pg.timeIndex else m) ∧
        pg.timeIndex ≤ (if pg.timeIndex > m then pg.timeIndex else m) := by
      split_ifs with hgt
      · exact ⟨UInt32.le_of_lt hgt, UInt32.le_refl _⟩
      · exact ⟨UInt32.le_refl _, UInt32.not_lt.mp hgt⟩
    refine ⟨UInt32.le_trans hm.1 hle, fun q hq => ?_, ?_⟩
    · rcases mem_cons.mp hq with rfl | hq
      · exact UInt32.le_trans hm.2 hle
      · exact hall q hq
    · rcases hsome with htop | ⟨q, hq, htop⟩
      · split_ifs at htop with hgt
        · exact Or.inr ⟨pg, mem_cons_self, htop.symm⟩
        · exact Or.inl htop
      · exact Or.inr ⟨q, mem_cons_of_mem pg hq, htop⟩

theorem maxTimeIndex_eq {pgs : List IndexProcessGroup} {t : UInt32}
    (hall : ∀ pg ∈ pgs, pg.timeIndex ≤ t)
    (hsome : ∃ pg ∈ pgs, pg.timeIndex = t) : maxTimeIndex pgs = t := by
  obtain ⟨-, hle, htop⟩ := foldl_maxTimeIndex pgs 0
  have hmax : maxTimeIndex pgs ≤ t := by
    rcases htop with htop | ⟨pg, hpg, htop⟩
    · unfold maxTimeIndex
      rw [htop]
      exact UInt32.le_iff_toNat_le.mpr (Nat.zero_le _)
    · unfold maxTimeIndex
      rw [← htop]
      exact hall pg hpg
  obtain ⟨pg, hpg, rfl⟩ := hsome
  exact UInt32.le_antisymm hmax (hle pg hpg)

variable {pg : IndexProcessGroup}

theorem le_maxTimeIndex {pgs : List IndexProcessGroup} (h : pg ∈ pgs) :
    pg.timeIndex ≤ maxTimeIndex pgs := (foldl_maxTimeIndex pgs 0).2.1 pg h

theorem maxTimeIndex_bare (pgs : List IndexProcessGroup) :
    maxTimeIndex (pgs.map IndexProcessGroup.bare) = maxTimeIndex pgs := by
  unfold maxTimeIndex
  rw [foldl_map]
  rfl

/-! ## The blocks of a run -/

structure Continues (before : List Block) (disk : Disk) (r : Run) (o : Output) (t : UInt32) :
    Prop where
  append : o.append = r.append
  count : o.groups.length = r.aggregators
  files (b : Block) (hb : b ∈ before) : b.file < r.aggregators
  old (c : Nat) (a : Aggregation) (h : o.groups[c]? = some a) : a.old.bare =
    (mergeIndexes ((before.filter fun b => b.file = c).map Block.placed)).bare
  below (c : Nat) (a : Aggregation) (h : o.groups[c]? = some a) (b : Block) (hb : b ∈ before)
    (hc : b.file = c) : b.start + b.buffer.length ≤ a.base.toNat ∧
      ∀ k : Nat, k < b.buffer.length →
        some (r.bytesBefore (disk.subfiles c) (b.start + k)) = b.buffer[k]?
  writers (c : Nat) (a : Aggregation) (h : o.groups[c]? = some a) :
    a.writers = (r.members c).map fun τ => τ.writer (UInt32.ofNat c) t

def Task.block (τ : Task) (c : Nat) (t : UInt32) (start : Nat) : Block :=
  ⟨c, start, τ.buffer, (τ.writer (UInt32.ofNat c) t).index⟩

section

variable {before : List Block} {disk : Disk} {r : Run} {o : Output} {t : UInt32} {c : Nat}
  {a : Aggregation} {b : Block}

theorem Continues.groupBlocks_eq (h : Continues before disk r o t) (ha : o.groups[c]? = some a) :
    r.groupBlocks c a = (r.members c).zipIdx.map fun τ => τ.1.block c t (a.start τ.2) := by
  refine ext_getElem? fun k => ?_
  rw [Run.groupBlocks, h.writers c a ha, getElem?_map, getElem?_map,
    getElem?_zipIdx, getElem?_zipIdx, zip_map_right, getElem?_map]
  cases hτ : (r.members c)[k]? with
  | none =>
    have hle := List.getElem?_eq_none_iff.mp hτ
    rw [List.getElem?_eq_none_iff.mpr (by rw [length_zip]; omega)]
    rfl
  | some τ =>
    rw [(getElem?_zip_eq_some (z := (τ, τ))).mpr ⟨hτ, hτ⟩, Nat.zero_add]
    rfl

theorem file_of_mem_groupBlocks (hb : b ∈ r.groupBlocks c a) : b.file = c := by
  obtain ⟨_, -, rfl⟩ := mem_map.mp hb
  rfl

theorem Run.mem_blocks : b ∈ r.blocks o ↔ ∃ a, o.groups[b.file]? = some a ∧
    b ∈ r.groupBlocks b.file a := by
  rw [blocks, mem_flatMap]
  constructor
  · rintro ⟨⟨a, c⟩, hmem, hb⟩
    obtain rfl := file_of_mem_groupBlocks hb
    exact ⟨a, mem_zipIdx_iff_getElem?.mp hmem, hb⟩
  · rintro ⟨a, ha, hb⟩
    exact ⟨(a, b.file), mem_zipIdx_iff_getElem?.mpr ha, hb⟩

theorem Run.filter_blocks (ha : o.groups[c]? = some a) :
    ((r.blocks o).filter fun b => b.file = c) = r.groupBlocks c a := by
  suffices h : ∀ (gs : List Aggregation) (i : Nat), i ≤ c → gs[c - i]? = some a →
      (((gs.zipIdx i).flatMap fun g => r.groupBlocks g.2 g.1).filter fun b => b.file = c) =
        r.groupBlocks c a from h o.groups 0 (Nat.zero_le c) ha
  -- the groups before the one of this number, and those behind it, have other numbers
  have hother : ∀ (gs : List Aggregation) (i : Nat), c < i →
      (((gs.zipIdx i).flatMap fun g => r.groupBlocks g.2 g.1).filter fun b => b.file = c) = [] := by
    intro gs i hi
    refine filter_eq_nil_iff.mpr fun b hb => ?_
    obtain ⟨g, hg, hb⟩ := mem_flatMap.mp hb
    have hle := le_snd_of_mem_zipIdx hg
    have hfile := file_of_mem_groupBlocks hb
    simp only [decide_eq_true_eq]
    omega
  intro gs
  induction gs with
  | nil => exact fun i _ h => by cases h
  | cons g gs ih =>
    intro i hi hget
    rw [zipIdx_cons, flatMap_cons, filter_append]
    by_cases heq : i = c
    · subst heq
      rw [Nat.sub_self] at hget
      obtain rfl : g = a := Option.some.inj hget
      rw [hother gs (i + 1) (Nat.lt_succ_self i), append_nil]
      exact filter_eq_self.mpr fun b hb => decide_eq_true (file_of_mem_groupBlocks hb)
    · have hnone : ((r.groupBlocks i g).filter fun b => b.file = c) = [] :=
        filter_eq_nil_iff.mpr fun b hb => by
          have hfile := file_of_mem_groupBlocks hb
          simp only [decide_eq_true_eq]
          omega
      have hidx : c - i = c - (i + 1) + 1 := by omega
      rw [hidx, getElem?_cons_succ] at hget
      rw [hnone, nil_append]
      exact ih (i + 1) (by omega) hget

theorem Continues.file_lt (h : Continues before disk r o t) (hb : b ∈ before ++ r.blocks o) :
    b.file < o.groups.length := by
  rcases mem_append.mp hb with hb | hb
  · rw [h.count]
    exact h.files b hb
  · obtain ⟨a, ha, -⟩ := Run.mem_blocks.mp hb
    exact (List.getElem?_eq_some_iff.mp ha).1

theorem Continues.mem_blocks (h : Continues before disk r o t) (hb : b ∈ r.blocks o) :
    ∃ (a : Aggregation) (k : Nat) (τ : Task), o.groups[b.file]? = some a ∧
      (r.members b.file)[k]? = some τ ∧ b = τ.block b.file t (a.start k) := by
  obtain ⟨a, ha, hb⟩ := Run.mem_blocks.mp hb
  rw [h.groupBlocks_eq ha] at hb
  obtain ⟨⟨τ, k⟩, hτ, hbτ⟩ := mem_map.mp hb
  exact ⟨a, k, τ, ha, mem_zipIdx_iff_getElem?.mp hτ, hbτ.symm⟩

theorem Continues.mem_blocks_of (h : Continues before disk r o t)
    (ha : o.groups[b.file]? = some a) (hb : b ∈ r.blocks o) :
    ∃ (k : Nat) (τ : Task), (r.members b.file)[k]? = some τ ∧ b.start = a.start k ∧
      b.buffer = τ.buffer := by
  obtain ⟨a', k, τ, ha', hτ, hbτ⟩ := h.mem_blocks hb
  obtain rfl : a' = a := Option.some.inj (ha'.symm.trans ha)
  exact ⟨k, τ, hτ, by rw [hbτ]; rfl, by rw [hbτ]; rfl⟩

theorem Task.block_at (τ : Task) (c : Nat) (t : UInt32) (start : Nat) :
    (τ.block c t start).At t := by
  refine ⟨fun pg hpg => ?_, fun e he s hs => ?_⟩
  · obtain ⟨_, -, rfl⟩ := mem_map.mp hpg
    rfl
  · have hall :
        e ∈ (τ.index.varsRoot ++ τ.index.attrsRoot).map (stampEntry (UInt32.ofNat c) t) := by
      rw [map_append]
      exact he
    obtain ⟨e', -, rfl⟩ := mem_map.mp hall
    obtain ⟨_, -, rfl⟩ := mem_map.mp hs
    rfl

theorem Continues.at (h : Continues before disk r o t) (hb : b ∈ r.blocks o) : b.At t := by
  obtain ⟨a, k, τ, -, -, hτ⟩ := h.mem_blocks hb
  rw [hτ]
  exact τ.block_at _ t _

theorem Continues.numbered (h : Continues before disk r o t) (hb : b ∈ r.blocks o)
    (e : IndexEntry) (he : e ∈ b.index.varsRoot ++ b.index.attrsRoot) (s : IndexCharacteristic)
    (hs : s ∈ e.characteristics) : s.fileIndex.toNat = b.file := by
  obtain ⟨a, k, τ, ha, -, hτ⟩ := h.mem_blocks hb
  have hlt : b.file < o.groups.length := (List.getElem?_eq_some_iff.mp ha).1
  have hle := r.aggregators_le
  have hranks := r.ranks
  rw [h.count] at hlt
  have hfile : s.fileIndex = UInt32.ofNat b.file := by
    rw [hτ] at he
    have hall : e ∈ (τ.index.varsRoot ++ τ.index.attrsRoot).map
        (stampEntry (UInt32.ofNat b.file) t) := by
      rw [map_append]
      exact he
    obtain ⟨e', -, rfl⟩ := mem_map.mp hall
    obtain ⟨_, -, rfl⟩ := mem_map.mp hs
    rfl
  rw [hfile, UInt32.toNat_ofNat_of_lt' (by show b.file < 4294967296; omega)]

theorem Continues.exists_block (h : Continues before disk r o t) (hc : c < r.aggregators) :
    ∃ b ∈ r.blocks o, b.file = c ∧ b.index.pgRoot ≠ [] := by
  obtain ⟨a, ha⟩ : ∃ a, o.groups[c]? = some a :=
    ⟨_, getElem?_eq_getElem (by rw [h.count]; exact hc)⟩
  obtain ⟨τ, τs, hτ⟩ := exists_cons_of_ne_nil (r.members_ne_nil hc)
  refine ⟨τ.block c t (a.start 0), Run.mem_blocks.mpr ⟨a, ha, ?_⟩, rfl, ?_⟩
  · rw [show (τ.block c t (a.start 0)).file = c from rfl, h.groupBlocks_eq ha, hτ]
    exact mem_cons_self
  · exact (τ.writer (UInt32.ofNat c) t).hasGroup

end

/-! ## The bytes -/

theorem position_of_laid {a : Int} {bs : List UInt8} {fh : List (Heap.Write UInt8)}
    (h : Heap.Laid a bs fh) (hne : fh ≠ []) : position fh = a + bs.length := by
  induction h with
  | nil a => exact absurd rfl hne
  | @cons w bs ws hrest ih =>
    cases ws with
    | nil =>
      obtain rfl : [] = bs := hrest.cells_eq
      rw [append_nil]
      rfl
    | cons v vs =>
      have hlast : position (w :: v :: vs) = position (v :: vs) := by
        unfold position
        rw [List.getLast?_cons_cons]
      rw [hlast, ih (cons_ne_nil v vs), length_append]
      omega

theorem laid_behind {a : Int} {bs footer : List UInt8} {fh file : List (Heap.Write UInt8)}
    {len : UInt64} (hfh : Heap.Laid a bs fh) (hne : fh ≠ [])
    (h : stripingUnitWrite fh (UInt64.ofInt (-1)) footer len = .ok file) :
    ∃ cs, Heap.Laid a (bs ++ cs) file := by
  unfold stripingUnitWrite at h
  split_ifs at h with hzero hlen hoffset
  · obtain rfl := Except.ok.inj h
    exact ⟨[], by rw [append_nil]; exact hfh⟩
  · obtain rfl := Except.ok.inj h
    rw [position_of_laid hfh hne]
    exact ⟨_, hfh.append (laid_fileWrites _ _)⟩
  · exact absurd rfl hoffset

section

variable {before : List Block} {disk : Disk} {r : Run} {o : Output} {t : UInt32} {c : Nat}
  {a : Aggregation} {b : Block} {host : Endian} {version : Version} {junk : UInt64}

theorem Task.toNat_bytesWritten (τ : Task) (fileIndex t : UInt32) :
    (τ.writer fileIndex t).bytesWritten.toNat = τ.buffer.length :=
  UInt64.toNat_ofNat_of_lt' τ.counted

def Run.data (r : Run) (c : Nat) : List UInt8 := ((r.members c).map Task.buffer).flatten

theorem Continues.sum_eq (h : Continues before disk r o t) (ha : o.groups[c]? = some a) :
    (a.writers.map fun w => w.bytesWritten.toNat).sum = (r.data c).length := by
  rw [h.writers c a ha, Run.data, List.length_flatten, map_map, map_map]
  congr 1
  exact map_congr_left fun τ _ => τ.toNat_bytesWritten _ t

theorem Continues.start_eq (h : Continues before disk r o t) (ha : o.groups[c]? = some a)
    (k : Nat) :
    a.start k = a.base.toNat + (((r.members c).take k).map Task.buffer).flatten.length := by
  rw [Aggregation.start, h.writers c a ha, ← map_take, List.length_flatten, map_map, map_map]
  congr 2
  exact map_congr_left fun τ _ => τ.toNat_bytesWritten _ t

theorem Run.data_ne_nil (hc : c < r.aggregators) : r.data c ≠ [] := by
  obtain ⟨τ, τs, hτ⟩ := exists_cons_of_ne_nil (r.members_ne_nil hc)
  rw [Run.data, hτ, map_cons, flatten_cons]
  exact fun hnil => τ.header (append_eq_nil_iff.mp hnil).1

theorem Closed.laid {old : Option Subfile} {s : Subfile}
    (hclosed : Closed host version junk r c old a s) (hsmall : (r.data c).length < 2147483648)
    (hc : c < r.aggregators) :
    ∃ cs file, Heap.Laid a.base.toNat (r.data c ++ cs) file ∧
      s.bytes = Heap.writeAll (r.bytesBefore old) file := by
  obtain ⟨g, eager, net, footer, file, -, hbuffers, hbase, -, hreach, hend, hfile, hbytes⟩ :=
    hclosed.data
  have hflat : g.buffers.flatten = r.data c := by rw [hbuffers, Run.data]
  have hlt : g.buffers.flatten.length < 2147483648 := by
    rw [hflat]
    exact hsmall
  have hcollects := collects_of_counted (counted_of_small hlt) (messages_of_small hlt) eager
  obtain ⟨-, -, hlaid⟩ := hcollects.complete net hreach hend
  rw [hflat, hbase] at hlaid
  have hne : (net.procs 0).written ≠ [] := fun hnil => by
    rw [hnil] at hlaid
    exact Run.data_ne_nil hc hlaid.cells_eq.symm
  obtain ⟨cs, hall⟩ := laid_behind hlaid hne hfile
  exact ⟨cs, file, hall, hbytes⟩

theorem Run.getElem?_data {k j : Nat} {τ : Task} (hτ : (r.members c)[k]? = some τ)
    (hj : j < τ.buffer.length) (cs : List UInt8) :
    (((r.members c).take k).map Task.buffer).flatten.length + j < (r.data c ++ cs).length ∧
      (r.data c ++ cs)[(((r.members c).take k).map Task.buffer).flatten.length + j]? =
        τ.buffer[j]? := by
  have hsplit : r.data c ++ cs = (((r.members c).take k).map Task.buffer).flatten ++
      (τ.buffer ++ ((((r.members c).drop (k + 1)).map Task.buffer).flatten ++ cs)) := by
    have hmembers : r.members c = (r.members c).take k ++ τ :: (r.members c).drop (k + 1) := by
      obtain ⟨hk, rfl⟩ := List.getElem?_eq_some_iff.mp hτ
      rw [← drop_eq_getElem_cons hk, take_append_drop]
    rw [Run.data]
    conv_lhs => rw [hmembers]
    rw [map_append, flatten_append, map_cons, flatten_cons, append_assoc, append_assoc]
  rw [hsplit]
  refine ⟨?_, ?_⟩
  · simp only [length_append]
    omega
  · rw [getElem?_append_right (Nat.le_add_right _ _), Nat.add_sub_cancel_left,
      getElem?_append_left hj]

theorem Continues.bytes (h : Continues before disk r o t) (ha : o.groups[c]? = some a)
    {s : Subfile} (hclosed : Closed host version junk r c (disk.subfiles c) a s)
    (hsmall : (r.data c).length < 2147483648) (hb : b ∈ before ++ r.blocks o) (hfile : b.file = c)
    (j : Nat) (hj : j < b.buffer.length) :
    some (s.bytes (b.start + j)) = b.buffer[j]? := by
  have hc : c < r.aggregators := by
    rw [← h.count]
    exact (List.getElem?_eq_some_iff.mp ha).1
  obtain ⟨cs, file, hlaid, hbytes⟩ := hclosed.laid hsmall hc
  rw [hbytes]
  rcases mem_append.mp hb with hb | hb
  · -- nothing is written before the base
    obtain ⟨hle, hold⟩ := h.below c a ha b hb hfile
    rw [hlaid.writeAll_of_outside (Or.inl (by omega))]
    exact hold j hj
  · subst hfile
    obtain ⟨k, τ, hτ, hstart, hbuffer⟩ := h.mem_blocks_of ha hb
    rw [hbuffer] at hj ⊢
    obtain ⟨hlt, hget⟩ := Run.getElem?_data hτ hj cs
    rw [← hget, hstart, h.start_eq ha, Int.natCast_add, Int.add_assoc, ← Int.natCast_add,
      hlaid.writeAll_add hlt, getElem?_eq_getElem hlt]

theorem Continues.end_le (h : Continues before disk r o t) (ha : o.groups[c]? = some a)
    (hb : b ∈ before ++ r.blocks o) (hfile : b.file = c) :
    b.start + b.buffer.length ≤ a.start a.writers.length := by
  rw [a.start_all, h.sum_eq ha]
  rcases mem_append.mp hb with hb | hb
  · have hle := (h.below c a ha b hb hfile).1
    omega
  · subst hfile
    obtain ⟨k, τ, hτ, hstart, hbuffer⟩ := h.mem_blocks_of ha hb
    have hpos : 0 < τ.buffer.length := length_pos_iff.mpr τ.header
    have hin := (@Run.getElem?_data r _ k (τ.buffer.length - 1) τ hτ (by omega) []).1
    rw [append_nil] at hin
    rw [hstart, hbuffer, h.start_eq ha]
    omega

end

/-! ## The indexes -/

def placedIn (blocks : List Block) (c : Nat) : List Index :=
  (blocks.filter fun b => b.file = c).map Block.placed

section

variable {before : List Block} {disk : Disk} {r : Run} {o : Output} {t : UInt32} {c : Nat}
  {a : Aggregation}

theorem Continues.placed_groupBlocks (h : Continues before disk r o t)
    (ha : o.groups[c]? = some a) :
    (r.groupBlocks c a).map Block.placed = a.writers.zipIdx.map fun w => a.placed w.1 w.2 := by
  rw [h.groupBlocks_eq ha, h.writers c a ha, zipIdx_map, map_map, map_map]
  rfl

theorem Continues.bare_parts (h : Continues before disk r o t) (ha : o.groups[c]? = some a) :
    (mergeIndexes a.parts).bare = (mergeIndexes (placedIn (before ++ r.blocks o) c)).bare := by
  have hplaced : placedIn (before ++ r.blocks o) c = placedIn before c ++
      a.writers.zipIdx.map fun w => a.placed w.1 w.2 := by
    rw [placedIn, filter_append, map_append, Run.filter_blocks ha, h.placed_groupBlocks ha]
    rfl
  have hold : a.old.bare = mergeIndexes ((placedIn before c).map Index.bare) := by
    rw [← bare_mergeIndexes]
    exact h.old c a ha
  rw [hplaced, bare_mergeIndexes, bare_mergeIndexes, Aggregation.parts, map_cons, hold,
    mergeIndexes_cons, map_append]

theorem oneGroup_bare {ixs : List Index} (h : OneGroup (ixs.flatMap Index.varsRoot)) :
    OneGroup ((ixs.map Index.bare).flatMap Index.varsRoot) := by
  have hmem : ∀ e ∈ (ixs.map Index.bare).flatMap Index.varsRoot,
      ∃ v ∈ ixs.flatMap Index.varsRoot, varKey v = varKey e ∧ v.groupName = e.groupName :=
    fun e he => by
      obtain ⟨ix', hix', he⟩ := mem_flatMap.mp he
      obtain ⟨ix, hix, rfl⟩ := mem_map.mp hix'
      obtain ⟨v, hv, rfl⟩ := mem_map.mp he
      exact ⟨v, mem_flatMap.mpr ⟨ix, hix, hv⟩, rfl, rfl⟩
  intro e he e' he' hkey
  obtain ⟨v, hv, hvkey, hvgroup⟩ := hmem e he
  obtain ⟨v', hv', hvkey', hvgroup'⟩ := hmem e' he'
  rw [← hvgroup, ← hvgroup']
  exact h v hv v' hv' (by rw [hvkey, hvkey', hkey])

def bySubfile (blocks : List Block) (n : Nat) : List Index :=
  ((List.range n).map (placedIn blocks)).flatten

theorem bySubfile_perm {blocks : List Block} {n : Nat} (h : ∀ b ∈ blocks, b.file < n) :
    (bySubfile blocks n).Perm (blocks.map Block.placed) := by
  have hmap : bySubfile blocks n =
      ((List.range n).flatMap fun c => blocks.filter fun b => b.file = c).map Block.placed := by
    rw [bySubfile, ← flatMap_def, map_flatMap]
    rfl
  rw [hmap]
  exact (flatMap_filter_perm Block.file blocks h).map _

theorem Continues.bare_output (h : Continues before disk r o t)
    (hgroup : OneGroup ((before ++ r.blocks o).flatMap fun b => b.placed.varsRoot)) :
    (mergeIndexes o.parts).bare =
      (mergeIndexes (bySubfile (before ++ r.blocks o) o.groups.length)).bare := by
  have hpos := r.aggregators_pos
  obtain ⟨a, as, hgroups⟩ : ∃ a as, o.groups = a :: as := exists_cons_of_length_pos (by
    rw [h.count]
    exact hpos)
  -- merging the parts of the first group first makes no difference
  have hfirst : (mergeIndexes o.parts).bare =
      mergeIndexes (o.groups.map fun a => (mergeIndexes a.parts).bare) := by
    rw [bare_mergeIndexes, Output.parts, hgroups]
    show mergeIndexes (List.map Index.bare (([a].flatMap Aggregation.parts) ++
      as.map fun a => mergeIndexes a.parts)) = _
    rw [flatMap_singleton, map_append, map_map, ← mergeIndexes_cons, ← bare_mergeIndexes]
    rfl
  have hmap : (o.groups.map fun a => (mergeIndexes a.parts).bare) =
      ((List.range o.groups.length).map fun c =>
        (placedIn (before ++ r.blocks o) c).map Index.bare).map mergeIndexes := by
    refine ext_getElem? fun c => ?_
    rw [getElem?_map, getElem?_map, getElem?_map]
    cases ha : o.groups[c]? with
    | none =>
      rw [List.getElem?_eq_none_iff.mpr]
      · rfl
      · rw [length_range]
        exact List.getElem?_eq_none_iff.mp ha
    | some a =>
      rw [getElem?_range (List.getElem?_eq_some_iff.mp ha).1]
      show some (mergeIndexes a.parts).bare = some (mergeIndexes _)
      rw [h.bare_parts ha, bare_mergeIndexes]
  have hflat : ((List.range o.groups.length).map fun c =>
      (placedIn (before ++ r.blocks o) c).map Index.bare).flatten =
      (bySubfile (before ++ r.blocks o) o.groups.length).map Index.bare := by
    rw [bySubfile, map_flatten, map_map]
    rfl
  have hone : OneGroup ((bySubfile (before ++ r.blocks o) o.groups.length).flatMap
      Index.varsRoot) := by
    refine hgroup.mono fun e he => ?_
    have hperm := (bySubfile_perm fun b hb => h.file_lt hb).flatMap_right Index.varsRoot
    have hmem := hperm.subset he
    rw [flatMap_map] at hmem
    exact hmem
  rw [hfirst, hmap, mergeIndexes_map (by rw [hflat]; exact oneGroup_bare hone), hflat,
    ← bare_mergeIndexes]

end

/-! ## The metadata -/

theorem gathers_of_keeps {parts parts' : List Index} {m ix : Index} (h : Keeps parts m)
    (hperm : parts.Perm parts') (hpgs : ix.pgRoot.Perm m.pgRoot) {f : IndexEntry → IndexEntry}
    (hvars : ix.varsRoot = m.varsRoot.map f)
    (hf : ∀ v, varKey (f v) = varKey v ∧ (f v).groupName = v.groupName ∧
      ((f v).characteristics.map IndexCharacteristic.bare).Perm
        (v.characteristics.map IndexCharacteristic.bare))
    (hattrs : ix.attrsRoot = m.attrsRoot)
    (hpgsAscending : ix.pgRoot.Pairwise fun p q => p.timeIndex ≤ q.timeIndex)
    (hsetsAscending : ∀ e ∈ ix.varsRoot ++ ix.attrsRoot,
      e.characteristics.Pairwise fun c d => c.timeIndex ≤ d.timeIndex) : Gathers parts' ix := by
  have hsets : ∀ {κ : Type} [DecidableEq κ] (key : IndexEntry → κ) (k : κ)
      (root : Index → List IndexEntry), ((setsOf key k (parts.flatMap root)).map
        IndexCharacteristic.bare).Perm ((setsOf key k (parts'.flatMap root)).map
          IndexCharacteristic.bare) := fun key k root =>
    (((hperm.flatMap_right root).filter _).flatMap_right _).map _
  refine ⟨?_, fun v hv => ?_, fun e he => ?_, fun a ha => ?_, fun e he => ?_, ⟨?_, ?_⟩,
    hpgsAscending, hsetsAscending⟩
  · refine (hpgs.map _).trans ?_
    rw [h.pgs]
    exact (hperm.flatMap_right _).map _
  · obtain ⟨e, he, hkey, hgroup⟩ := h.vars v ((hperm.flatMap_right _).mem_iff.mpr hv)
    refine ⟨f e, ?_, (hf e).1.trans hkey, (hf e).2.1.trans hgroup⟩
    rw [hvars]
    exact mem_map_of_mem he
  · rw [hvars] at he
    obtain ⟨v, hv, rfl⟩ := mem_map.mp he
    refine (hf v).2.2.trans ?_
    rw [h.varSets v hv, (hf v).1]
    exact hsets varKey (varKey v) Index.varsRoot
  · obtain ⟨e, he, hkey⟩ := h.attrs a ((hperm.flatMap_right _).mem_iff.mpr ha)
    rw [hattrs]
    exact ⟨e, he, hkey⟩
  · rw [hattrs] at he
    rw [h.attrSets e he]
    exact hsets attrKey (attrKey e) Index.attrsRoot
  · have hkeys : ix.varsRoot.map varKey = m.varsRoot.map varKey := by
      rw [hvars, map_map]
      exact map_congr_left fun v _ => (hf v).1
    rw [hkeys]
    exact h.once.vars
  · rw [hattrs]
    exact h.once.attrs

theorem ascending_of_bare {cs ds : List IndexCharacteristic}
    (h : cs.map IndexCharacteristic.bare = ds.map IndexCharacteristic.bare)
    (hds : ds.Pairwise fun c d => c.timeIndex ≤ d.timeIndex) :
    cs.Pairwise fun c d => c.timeIndex ≤ d.timeIndex := by
  have hbare : ∀ xs : List IndexCharacteristic, xs.Pairwise (fun c d => c.timeIndex ≤ d.timeIndex) ↔
      (xs.map IndexCharacteristic.bare).Pairwise fun c d => c.timeIndex ≤ d.timeIndex :=
        fun xs => by
    rw [pairwise_map]
    rfl
  rw [hbare, h, ← hbare]
  exact hds

theorem pgs_ascending_of_bare {ps qs : List IndexProcessGroup}
    (h : ps.map IndexProcessGroup.bare = qs.map IndexProcessGroup.bare)
    (hqs : qs.Pairwise fun p q => p.timeIndex ≤ q.timeIndex) :
    ps.Pairwise fun p q => p.timeIndex ≤ q.timeIndex := by
  have hbare : ∀ xs : List IndexProcessGroup, xs.Pairwise (fun p q => p.timeIndex ≤ q.timeIndex) ↔
      (xs.map IndexProcessGroup.bare).Pairwise fun p q => p.timeIndex ≤ q.timeIndex := fun xs => by
    rw [pairwise_map]
    rfl
  rw [hbare, h, ← hbare]
  exact hqs

theorem mem_bySubfile {blocks : List Block} {n : Nat} {ix : Index} (h : ix ∈ bySubfile blocks n) :
    ∃ b ∈ blocks, ix = b.placed := by
  obtain ⟨l, hl, hix⟩ := mem_flatten.mp h
  obtain ⟨c, -, rfl⟩ := mem_map.mp hl
  obtain ⟨b, hb, rfl⟩ := mem_map.mp hix
  exact ⟨b, mem_of_mem_filter hb, rfl⟩

theorem Block.At.placed {b : Block} {t : UInt32} (h : b.At t) {e : IndexEntry}
    (he : e ∈ b.placed.varsRoot ++ b.placed.attrsRoot) {c : IndexCharacteristic}
    (hc : c ∈ e.characteristics) : c.timeIndex = t := by
  have hall : e ∈ (b.index.varsRoot ++ b.index.attrsRoot).map
      (addToAll (UInt64.ofNat b.start)) := by
    rw [map_append]
    exact he
  obtain ⟨e', he', rfl⟩ := mem_map.mp hall
  obtain ⟨c', hc', rfl⟩ := mem_map.mp hc
  exact h.sets e' he' c' hc'

theorem Block.At.placed_pgs {b : Block} {t : UInt32} (h : b.At t) (hpg : pg ∈ b.placed.pgRoot) :
    pg.timeIndex = t := by
  obtain ⟨pg', hpg', rfl⟩ := mem_map.mp hpg
  exact h.pgs pg' hpg'

section

variable {host : Endian} {version : Version} {junk : UInt64} {before : List Block}
  {steps : List (List Block)} {disk : Disk} {r : Run} {o : Output} {t : UInt32} {m ix : Index}

theorem Continues.keeps (h : Continues before disk r o t)
    (hgroup : OneGroup ((before ++ r.blocks o).flatMap fun b => b.placed.varsRoot))
    (hm : m.bare = (mergeIndexes o.parts).bare) :
    Keeps (bySubfile (before ++ r.blocks o) o.groups.length) m := by
  have hone : OneGroup ((bySubfile (before ++ r.blocks o) o.groups.length).flatMap
      Index.varsRoot) := by
    refine hgroup.mono fun e he => ?_
    obtain ⟨ix, hix, he⟩ := mem_flatMap.mp he
    obtain ⟨b, hb, rfl⟩ := mem_bySubfile hix
    exact mem_flatMap.mpr ⟨b, hb, he⟩
  refine keeps_of_bare hone ?_
  rw [hm]
  exact h.bare_output hgroup

theorem Continues.gathers_write (h : Continues [] disk r o t) (hmode : r.append = false)
    (hgroup : OneGroup ((r.blocks o).flatMap fun b => b.placed.varsRoot))
    (hm : m.bare = (mergeIndexes o.parts).bare) (hix : o.sorted m = .ok ix) :
    Gathers ((r.blocks o).map Block.placed) ix := by
  have hkeeps := h.keeps hgroup hm
  rw [nil_append] at hkeeps
  have happend : ¬o.append = true := by
    rw [h.append, hmode]
    exact Bool.false_ne_true
  rw [Output.sorted, if_neg happend] at hix
  obtain rfl := Except.ok.inj hix
  have htime : ∀ jx ∈ bySubfile (r.blocks o) o.groups.length, ∃ b : Block, b.At t ∧ jx = b.placed :=
    fun jx hjx => by
      obtain ⟨b, hb, rfl⟩ := mem_bySubfile hjx
      exact ⟨b, h.at hb, rfl⟩
  refine gathers_of_keeps hkeeps (bySubfile_perm fun b hb => h.file_lt hb) (.refl _)
    (map_id _).symm (fun v => ⟨rfl, rfl, .refl _⟩) rfl ?_ fun e he => ?_
  · refine pgs_ascending_of_bare hkeeps.pgs (pairwise_of_forall_mem_list fun p hp q hq => ?_)
    have hall : ∀ pg ∈ (bySubfile (r.blocks o) o.groups.length).flatMap Index.pgRoot,
        pg.timeIndex = t := fun pg hpg => by
      obtain ⟨jx, hjx, hpg⟩ := mem_flatMap.mp hpg
      obtain ⟨b, hb, rfl⟩ := htime jx hjx
      exact hb.placed_pgs hpg
    rw [hall p hp, hall q hq]
    exact UInt32.le_refl t
  · have hsets : ∀ {κ : Type} [DecidableEq κ] (key : IndexEntry → κ) (k : κ)
        (root : Index → List IndexEntry),
        (∀ jx : Index, ∀ e ∈ root jx, e ∈ jx.varsRoot ++ jx.attrsRoot) →
        (setsOf key k ((bySubfile (r.blocks o) o.groups.length).flatMap root)).Pairwise
          fun c d => c.timeIndex ≤ d.timeIndex := fun key k root hroot => by
      have hall : ∀ c ∈ setsOf key k ((bySubfile (r.blocks o) o.groups.length).flatMap root),
          c.timeIndex = t := fun c hc => by
        obtain ⟨e, he, hc⟩ := mem_flatMap.mp hc
        obtain ⟨jx, hjx, he⟩ := mem_flatMap.mp (mem_of_mem_filter he)
        obtain ⟨b, hb, rfl⟩ := htime jx hjx
        exact hb.placed (hroot _ e he) hc
      refine pairwise_of_forall_mem_list fun c hc d hd => ?_
      rw [hall c hc, hall d hd]
      exact UInt32.le_refl t
    rcases mem_append.mp he with he | he
    · exact ascending_of_bare (hkeeps.varSets e he) (hsets varKey (varKey e) Index.varsRoot
        fun jx e he => mem_append_left _ he)
    · exact ascending_of_bare (hkeeps.attrSets e he) (hsets attrKey (attrKey e) Index.attrsRoot
        fun jx e he => mem_append_right _ he)

theorem oldestFirst_bySubfile {blocks rest : List Block} {b₀ : Block} {n : Nat} (hn : 0 < n)
    (hblocks : blocks = b₀ :: rest) (hfile : b₀.file = 0) (hpgs : b₀.index.pgRoot ≠ [])
    (hle : ∀ pg₀ ∈ b₀.index.pgRoot, ∀ b ∈ blocks, ∀ pg ∈ b.index.pgRoot,
      pg₀.timeIndex ≤ pg.timeIndex) :
    OldestFirst ((bySubfile blocks n).flatMap Index.pgRoot) := by
  obtain ⟨pg₀, pgs, hroot⟩ := exists_cons_of_ne_nil hpgs
  obtain ⟨more, hmore⟩ : ∃ more, (bySubfile blocks n).flatMap Index.pgRoot =
      addToGroup (UInt64.ofNat b₀.start) pg₀ :: more := by
    obtain ⟨k, rfl⟩ := Nat.exists_eq_succ_of_ne_zero (Nat.pos_iff_ne_zero.mp hn)
    have hfirst : ∃ others, placedIn blocks 0 = b₀.placed :: others := by
      rw [placedIn, hblocks, filter_cons, if_pos (decide_eq_true hfile), map_cons]
      exact ⟨_, rfl⟩
    obtain ⟨others, hothers⟩ := hfirst
    have hpgRoot : b₀.placed.pgRoot = addToGroup (UInt64.ofNat b₀.start) pg₀ ::
        pgs.map (addToGroup (UInt64.ofNat b₀.start)) := by
      show b₀.index.pgRoot.map _ = _
      rw [hroot, map_cons]
    rw [bySubfile, range_succ_eq_map, map_cons, flatten_cons, hothers,
      cons_append, flatMap_cons, hpgRoot, cons_append]
    exact ⟨_, rfl⟩
  intro first hfirst pg hpg
  rw [hmore, List.head?_cons] at hfirst
  obtain rfl := Option.some.inj hfirst
  obtain ⟨jx, hjx, hpg⟩ := mem_flatMap.mp hpg
  obtain ⟨b, hb, rfl⟩ := mem_bySubfile hjx
  obtain ⟨pg', hpg', rfl⟩ := mem_map.mp hpg
  exact hle pg₀ (by rw [hroot]; exact mem_cons_self) b hb pg' hpg'

theorem Continues.gathers_append (h : Continues before disk r o t) (hmode : r.append = true)
    (hgroup : OneGroup ((before ++ r.blocks o).flatMap fun b => b.placed.varsRoot))
    (hattrs : ∀ k, (setsOf attrKey k (o.parts.flatMap Index.attrsRoot)).Pairwise
      fun c d => c.timeIndex ≤ d.timeIndex)
    (hold : OldestFirst ((bySubfile (before ++ r.blocks o) o.groups.length).flatMap Index.pgRoot))
    (hm : m.bare = (mergeIndexes o.parts).bare) :
    ∃ ix, o.sorted m = .ok ix ∧ Gathers ((before ++ r.blocks o).map Block.placed) ix := by
  have hkeeps := h.keeps hgroup hm
  have hfirst : OldestFirst m.pgRoot := by
    rw [← oldestFirst_bare, hkeeps.pgs, oldestFirst_bare]
    exact hold
  obtain ⟨ix, hix, hsorted⟩ := sortIndexV1_spec hfirst
  refine ⟨ix, ?_, ?_⟩
  · rw [Output.sorted, if_pos (by rw [h.append, hmode]), hix]
  · refine gathers_of_keeps hkeeps (bySubfile_perm fun b hb => h.file_lt hb) hsorted.pgs
      hsorted.vars (fun v => ⟨rfl, rfl, (sortSets_spec v).2 IndexCharacteristic.bare fun _ => rfl⟩)
      hsorted.attrs hsorted.pgsAscending fun e he => ?_
    rcases mem_append.mp he with he | he
    · rw [hsorted.vars] at he
      obtain ⟨v, -, rfl⟩ := mem_map.mp he
      exact (sortSets_spec v).1.imp fun hle => UInt32.le_iff_toNat_le.mpr hle
    · rw [hsorted.attrs] at he
      have hcollected : m.attrsRoot.map IndexEntry.bare =
          (collect attrKey appendEntry (o.parts.flatMap Index.attrsRoot)).map IndexEntry.bare :=
        congrArg Index.attrsRoot hm
      exact ascending_of_bare (sets_of_collect attrKey_appendEntry attrKey_bare hcollected he)
        (hattrs (attrKey e))

end

/-! ## Run after run -/

structure Inv (steps : List (List Block)) (disk : Disk) : Prop extends Kept steps disk where
  file (b : Block) (hb : b ∈ steps.flatten) : ∃ s, disk.subfiles b.file = some s ∧
    s.index.bare = (mergeIndexes (placedIn steps.flatten b.file)).bare ∧
    ∀ b' ∈ steps.flatten, b'.file = b.file → b'.start + b'.buffer.length ≤ s.endOfPgs.toNat
  newest (b : Block) (hb : b ∈ steps.flatten) : ∃ b' ∈ steps.flatten, b'.file = b.file ∧
    b'.index.pgRoot ≠ [] ∧ b'.At (latest steps.flatten)
  oldest : ∃ b₀ rest, steps.flatten = b₀ :: rest ∧ b₀.file = 0 ∧ b₀.index.pgRoot ≠ [] ∧
    ∀ pg₀ ∈ b₀.index.pgRoot, ∀ b ∈ steps.flatten, ∀ pg ∈ b.index.pgRoot,
      pg₀.timeIndex ≤ pg.timeIndex

theorem le_latest {blocks : List Block} {b : Block} (hb : b ∈ blocks) (hpg : pg ∈ b.index.pgRoot) :
    pg.timeIndex ≤ latest blocks :=
  le_maxTimeIndex (mem_flatMap.mpr ⟨b, hb, hpg⟩)

section

variable {host : Endian} {version : Version} {junk : UInt64} {steps : List (List Block)}
  {disk disk' : Disk} {r : Run} {o : Output} {t : UInt32} {c : Nat} {a : Aggregation}

theorem Fits.continues (h : Fits host version junk [] disk r o) (hmode : r.append = false) :
    Continues [] disk r o r.opened := by
  have hnew : ∀ sub op, r.openSubfile host version junk sub = .ok op → op = r.newFile :=
    fun sub op hop => by
      cases sub with
      | none => exact (Except.ok.inj hop).symm
      | some s =>
        rw [Run.openSubfile, hmode] at hop
        exact (Except.ok.inj hop).symm
  refine ⟨h.opened.append, h.opened.count, forall_mem_nil _, fun c a ha => ?_,
    fun _ _ _ => forall_mem_nil _, fun c a ha => ?_⟩
  · obtain ⟨op, hop, -, hold, -⟩ := h.opened.group c a ha
    rw [hold, hnew _ op hop]
    rfl
  · obtain ⟨op, hop, -, -, -, hwriters⟩ := h.opened.group c a ha
    rw [hwriters, hnew _ op hop]
    rfl

theorem Inv.maxTimeIndex_eq (h : Inv steps disk) {b : Block} (hb : b ∈ steps.flatten)
    {ix : Index} (hix : ix.bare = (mergeIndexes (placedIn steps.flatten b.file)).bare) :
    maxTimeIndex ix.pgRoot = latest steps.flatten := by
  have hpgs : ix.pgRoot.map IndexProcessGroup.bare =
      ((placedIn steps.flatten b.file).flatMap Index.pgRoot).map IndexProcessGroup.bare :=
    congrArg Index.pgRoot hix
  rw [← maxTimeIndex_bare, hpgs, maxTimeIndex_bare]
  refine Amr.maxTimeIndex_eq (fun pg hpg => ?_) ?_
  · obtain ⟨jx, hjx, hpg⟩ := mem_flatMap.mp hpg
    obtain ⟨b', hb', rfl⟩ := mem_map.mp hjx
    obtain ⟨pg', hpg', rfl⟩ := mem_map.mp hpg
    show pg'.timeIndex ≤ latest steps.flatten
    exact le_latest (mem_of_mem_filter hb') hpg'
  · obtain ⟨b', hb', hfile, hne, hat⟩ := h.newest b hb
    obtain ⟨pg, pgs, hroot⟩ := exists_cons_of_ne_nil hne
    have hmem : pg ∈ b'.index.pgRoot := by
      rw [hroot]
      exact mem_cons_self
    refine ⟨addToGroup (UInt64.ofNat b'.start) pg, mem_flatMap.mpr ⟨b'.placed,
      mem_map_of_mem (mem_filter.mpr ⟨hb', decide_eq_true hfile⟩),
      mem_map_of_mem hmem⟩, hat.pgs pg hmem⟩

theorem Inv.continues (hinv : Inv steps disk) (h : FitsAppend host version junk steps disk r o)
    (hmode : r.append = true) :
    Continues steps.flatten disk r o (latest steps.flatten + 1) := by
  have hgroup : ∀ c a, o.groups[c]? = some a →
      a.old.bare = (mergeIndexes (placedIn steps.flatten c)).bare ∧
      (∀ b ∈ steps.flatten, b.file = c → b.start + b.buffer.length ≤ a.base.toNat ∧
        ∀ k : Nat, k < b.buffer.length →
          some (r.bytesBefore (disk.subfiles c) (b.start + k)) = b.buffer[k]?) ∧
      a.writers = (r.members c).map fun τ =>
        τ.writer (UInt32.ofNat c) (latest steps.flatten + 1) := fun c a ha => by
    obtain ⟨op, hop, hbase, hold, -, hwriters⟩ := h.opened.group c a ha
    have hc : c < r.aggregators := by
      rw [← h.opened.count]
      exact (List.getElem?_eq_some_iff.mp ha).1
    by_cases hex : ∃ b ∈ steps.flatten, b.file = c
    · obtain ⟨b, hb, rfl⟩ := hex
      obtain ⟨s, hs, hindex, hends⟩ := hinv.file b hb
      obtain ⟨old, hreread, hbare⟩ := h.rereads b hb s hs
      have hop' : op = ⟨s.endOfPgs, old, maxTimeIndex old.pgRoot + 1⟩ := by
        rw [hs, Run.openSubfile, if_pos hmode, hreread] at hop
        exact (Except.ok.inj hop).symm
      subst hop'
      rw [hbase, hold, hwriters, hinv.maxTimeIndex_eq hb (hbare.trans hindex)]
      refine ⟨hbare.trans hindex, fun b' hb' hfile => ⟨hends b' hb' hfile, fun k hk => ?_⟩, rfl⟩
      obtain ⟨s', hs', hbytes⟩ := hinv.bytes b' hb'
      rw [hfile, hs] at hs'
      obtain rfl := Option.some.inj hs'
      rw [hs, Run.bytesBefore, if_pos hmode]
      exact hbytes k hk
    · have hnone : ∀ b ∈ steps.flatten, b.file ≠ c := fun b hb heq => hex ⟨b, hb, heq⟩
      obtain ⟨hsub, hopened⟩ := h.fresh c hc hnone
      have hop' : op = r.newFile := by
        rw [hsub] at hop
        exact (Except.ok.inj hop).symm
      subst hop'
      have hempty : placedIn steps.flatten c = [] := by
        rw [placedIn, filter_eq_nil_iff.mpr fun b hb => by simpa using hnone b hb]
        rfl
      have htime : r.opened = latest steps.flatten + 1 := by
        refine UInt32.toNat_inj.mp ?_
        have hlt := h.time
        rw [hopened, UInt32.toNat_add]
        show _ = ((latest steps.flatten).toNat + 1) % 4294967296
        omega
      rw [hold, hwriters, hempty]
      refine ⟨rfl, fun b hb hfile => absurd hfile (hnone b hb), ?_⟩
      rw [← htime]
      rfl
  exact ⟨h.opened.append, h.opened.count, h.subfiles, fun c a ha => (hgroup c a ha).1,
    fun c a ha => (hgroup c a ha).2.1, fun c a ha => (hgroup c a ha).2.2⟩

section

variable (h : Continues steps.flatten disk r o t) (fits : Fits host version junk steps disk r o)
  (ends : Ends host version junk disk r o disk')

include h fits ends

theorem Continues.file {b : Block} (hb : b ∈ steps.flatten ++ r.blocks o) :
    ∃ s, disk'.subfiles b.file = some s ∧
      s.index.bare = (mergeIndexes (placedIn (steps.flatten ++ r.blocks o) b.file)).bare ∧
      (∀ b' ∈ steps.flatten ++ r.blocks o, b'.file = b.file →
        b'.start + b'.buffer.length ≤ s.endOfPgs.toNat) ∧
      ∀ k : Nat, k < b.buffer.length → some (s.bytes (b.start + k)) = b.buffer[k]? := by
  obtain ⟨a, ha⟩ : ∃ a, o.groups[b.file]? = some a := ⟨_, getElem?_eq_getElem (h.file_lt hb)⟩
  obtain ⟨s, hs, hclosed⟩ := ends.closed b.file a ha
  have hrelocatable := fits.groups a (mem_of_getElem? ha)
  have hpoints := hrelocatable.pointsAtData
  have hsmall : (r.data b.file).length < 2147483648 := by
    rw [← h.sum_eq ha]
    exact hrelocatable.small
  refine ⟨s, hs, ?_, fun b' hb' hfile => ?_, fun k hk => h.bytes ha hclosed hsmall hb rfl k hk⟩
  · obtain ⟨ix, hix, hbare⟩ := hpoints.subfile
    obtain rfl := Except.ok.inj (hclosed.index.symm.trans hix)
    rw [hbare, h.bare_parts ha]
  · obtain ⟨disp, total, hdisp, hend⟩ := hclosed.endOfPgs
    obtain ⟨disp', total', hdisp', -, hstart⟩ := hpoints.counted
    obtain ⟨-, rfl⟩ := Prod.mk.inj (Except.ok.inj (hdisp.symm.trans hdisp'))
    rw [hend, hstart]
    exact h.end_le ha hb' hfile

theorem Continues.inv (hmetadata : ∃ ix, disk'.metadata = some ix ∧
      Gathers ((steps.flatten ++ r.blocks o).map Block.placed) ix)
    (htimes : ∀ before after step, steps = before ++ step :: after →
      ∃ t, (∀ b ∈ step, Block.At b t) ∧
      (before ≠ [] → t.toNat = (latest before.flatten).toNat + 1))
    (htime : steps ≠ [] → t.toNat = (latest steps.flatten).toNat + 1)
    (hnumbered : ∀ b ∈ steps.flatten, ∀ e ∈ b.index.varsRoot ++ b.index.attrsRoot,
      ∀ c ∈ e.characteristics, c.fileIndex.toNat = b.file)
    (holdest : ∃ b₀ rest, steps.flatten ++ r.blocks o = b₀ :: rest ∧ b₀.file = 0 ∧
      b₀.index.pgRoot ≠ [] ∧ ∀ pg₀ ∈ b₀.index.pgRoot, ∀ b ∈ steps.flatten ++ r.blocks o,
        ∀ pg ∈ b.index.pgRoot, pg₀.timeIndex ≤ pg.timeIndex) :
    Inv (steps ++ [r.blocks o]) disk' := by
  have hflat : (steps ++ [r.blocks o]).flatten = steps.flatten ++ r.blocks o := by
    rw [flatten_append, flatten_singleton]
  -- the step that has come is the latest one
  have hle : ∀ b ∈ steps.flatten ++ r.blocks o, ∀ pg ∈ b.index.pgRoot, pg.timeIndex ≤ t :=
    fun b hb pg hpg => by
      rcases mem_append.mp hb with hb | hb
      · have hne : steps ≠ [] := fun hnil => by
          rw [hnil] at hb
          cases hb
        have hmax := UInt32.le_iff_toNat_le.mp (le_latest hb hpg)
        have ht := htime hne
        exact UInt32.le_iff_toNat_le.mpr (by omega)
      · rw [(h.at hb).pgs pg hpg]
        exact UInt32.le_refl t
  have hlatest : latest (steps.flatten ++ r.blocks o) = t := by
    refine maxTimeIndex_eq (fun pg hpg => ?_) ?_
    · obtain ⟨b, hb, hpg⟩ := mem_flatMap.mp hpg
      exact hle b hb pg hpg
    · obtain ⟨b, hb, -, hne⟩ := h.exists_block r.aggregators_pos
      obtain ⟨pg, pgs, hroot⟩ := exists_cons_of_ne_nil hne
      have hmem : pg ∈ b.index.pgRoot := by
        rw [hroot]
        exact mem_cons_self
      exact ⟨pg, mem_flatMap.mpr ⟨b, mem_append_right _ hb, hmem⟩, (h.at hb).pgs pg hmem⟩
  refine ⟨⟨?_, ?_, ?_, ?_⟩, ?_, ?_, ?_⟩
  · rw [hflat]
    exact hmetadata
  · intro before after step hsplit
    rcases eq_nil_or_concat after with rfl | ⟨after', last, rfl⟩
    · obtain ⟨rfl, hstep⟩ := append_inj' hsplit rfl
      obtain rfl : r.blocks o = step := by simpa using hstep
      exact ⟨t, fun b hb => h.at hb, htime⟩
    · rw [concat_eq_append, ← cons_append, ← append_assoc] at hsplit
      obtain ⟨hsteps, -⟩ := append_inj' hsplit rfl
      exact htimes before after' step hsteps
  · rw [hflat]
    intro b hb
    rcases mem_append.mp hb with hb | hb
    · exact hnumbered b hb
    · exact h.numbered hb
  · rw [hflat]
    intro b hb
    obtain ⟨s, hs, -, -, hbytes⟩ := h.file fits ends hb
    exact ⟨s, hs, hbytes⟩
  · rw [hflat]
    intro b hb
    obtain ⟨s, hs, hindex, hend, -⟩ := h.file fits ends hb
    exact ⟨s, hs, hindex, hend⟩
  · rw [hflat, hlatest]
    intro b hb
    have hlt := h.file_lt hb
    rw [h.count] at hlt
    obtain ⟨b', hb', hfile, hne⟩ := h.exists_block hlt
    exact ⟨b', mem_append_right _ hb', hfile, hne, h.at hb'⟩
  · rw [hflat]
    exact holdest

end

end

section

variable {host : Endian} {version : Version} {junk : UInt64} {steps : List (List Block)}
  {before : List Block} {disk disk' : Disk} {r : Run} {o : Output} {t : UInt32} {c : Nat}
  {a : Aggregation}

theorem Continues.exists_closed (h : Continues before disk r o t)
    (fits : Fits host version junk steps disk r o) (ha : o.groups[c]? = some a) :
    ∃ s, Closed host version junk r c (disk.subfiles c) a s := by
  have hmem := mem_of_getElem? ha
  have hrelocatable := fits.groups a hmem
  have hpoints := hrelocatable.pointsAtData
  have hc : c < r.aggregators := by
    rw [← h.count]
    exact (List.getElem?_eq_some_iff.mp ha).1
  have hsum := h.sum_eq ha
  obtain ⟨ix, hix, -⟩ := hpoints.subfile
  obtain ⟨footer, hfooter⟩ := fits.written a hmem ix hix
  obtain ⟨disp, total, htotal, -⟩ := hpoints.counted
  have hfits := fits.offsets a hmem
  let g : Group :=
    { buffers := (r.members c).map Task.buffer
      base := a.base
      index := []
      nonempty := fun hnil => r.members_ne_nil hc (map_eq_nil_iff.mp hnil)
      fits := by
        have hlen : ((r.members c).map Task.buffer).flatten.length = (r.data c).length := rfl
        rw [hlen, length_nil]
        omega }
  have hsmall : g.buffers.flatten.length < 2147483648 := by
    show (r.data c).length < 2147483648
    rw [← hsum]
    exact hrelocatable.small
  obtain ⟨net, hreach, hend, -, -, -⟩ := exists_end (counted_of_small hsmall) (fun _ _ => true)
  obtain ⟨file, hfile⟩ : ∃ file, stripingUnitWrite (net.procs 0).written (UInt64.ofInt (-1)) footer
      (UInt64.ofNat footer.length) = .ok file := by
    have hlen : ¬footer.length < (UInt64.ofNat footer.length).toNat := by
      rw [UInt64.toNat_ofNat']
      exact Nat.not_lt.mpr (Nat.mod_le _ _)
    unfold stripingUnitWrite
    split_ifs
    · exact ⟨_, rfl⟩
    · exact ⟨_, rfl⟩
    · exact ⟨_, rfl⟩
  exact ⟨⟨Heap.writeAll (r.bytesBefore (disk.subfiles c)) file, a.indexStart total, ix⟩,
    ⟨g, fun _ _ => true, net, footer, file, hfooter, rfl, rfl, rfl, hreach, hend, hfile, rfl⟩,
    ⟨disp, total, htotal, rfl⟩, hix⟩

theorem Continues.exists_ends (h : Continues before disk r o t)
    (fits : Fits host version junk steps disk r o)
    (hmetadata : ∃ ix, o.metadata host version junk (fun a => a.relocated host) = .ok ix) :
    ∃ disk', Ends host version junk disk r o disk' := by
  have hall : ∀ c, ∃ sub : Option Subfile, (∀ a, o.groups[c]? = some a →
      ∃ s, sub = some s ∧ Closed host version junk r c (disk.subfiles c) a s) ∧
      (r.aggregators ≤ c → sub = disk.subfiles c) := fun c => by
    cases ha : o.groups[c]? with
    | none => exact ⟨disk.subfiles c, fun _ h => (by cases h), fun _ => rfl⟩
    | some a =>
      obtain ⟨s, hs⟩ := h.exists_closed fits ha
      have hlt := (List.getElem?_eq_some_iff.mp ha).1
      rw [h.count] at hlt
      refine ⟨some s, fun a' ha' => ?_, fun hge => absurd hlt (Nat.not_lt.mpr hge)⟩
      obtain rfl := Option.some.inj ha'
      exact ⟨s, rfl, hs⟩
  choose subfiles hsubfiles using hall
  obtain ⟨ix, hix⟩ := hmetadata
  obtain ⟨bytes, hbytes⟩ := fits.metadata ix hix
  exact ⟨⟨subfiles, some ix⟩, fits.opened, fun c => (hsubfiles c).1, fun c => (hsubfiles c).2,
    ⟨ix, bytes, hix, hbytes, rfl⟩⟩

/-! ## The whole history -/

theorem Continues.exists_first (h : Continues before disk r o t) :
    ∃ b₀ rest, r.blocks o = b₀ :: rest ∧ b₀.file = 0 ∧ b₀.index.pgRoot ≠ [] := by
  have hpos := r.aggregators_pos
  obtain ⟨a, as, hgroups⟩ : ∃ a as, o.groups = a :: as := exists_cons_of_length_pos (by
    rw [h.count]
    exact hpos)
  have ha : o.groups[0]? = some a := by
    rw [hgroups]
    rfl
  obtain ⟨τ, τs, hτ⟩ := exists_cons_of_ne_nil (r.members_ne_nil hpos)
  rw [Run.blocks, hgroups, zipIdx_cons, flatMap_cons, h.groupBlocks_eq ha, hτ,
    zipIdx_cons, map_cons, cons_append]
  exact ⟨_, _, rfl, rfl, (τ.writer (UInt32.ofNat 0) t).hasGroup⟩

theorem Fits.inv (fits : Fits host version junk [] disk r o) (mode : r.append = false)
    (ends : Ends host version junk disk r o disk') : Inv [r.blocks o] disk' := by
  have hcont := fits.continues mode
  obtain ⟨m, hm, hbare⟩ := o.metadata_eq fits.groups fits.deliverable
  obtain ⟨ix, _, hix, -, hdisk⟩ := ends.metadata
  rw [hm] at hix
  have hgroup := fits.oneGroup
  obtain ⟨b₀, rest, hblocks, hfile, hpgs⟩ := hcont.exists_first
  have hfirst : b₀ ∈ r.blocks o := by
    rw [hblocks]
    exact mem_cons_self
  refine @Continues.inv host version junk [] disk disk' r o r.opened hcont fits ends
    ⟨ix, hdisk, hcont.gathers_write mode hgroup hbare hix⟩ (fun before after step hsplit => ?_)
    (fun hne => absurd rfl hne) (fun b hb => by cases hb)
    ⟨b₀, rest, hblocks, hfile, hpgs, fun pg₀ hpg₀ b hb pg hpg => ?_⟩
  · cases before <;> cases hsplit
  · rw [(hcont.at hfirst).pgs pg₀ hpg₀, (hcont.at hb).pgs pg hpg]
    exact UInt32.le_refl _

theorem Inv.exists_metadata (hinv : Inv steps disk)
    (fits : FitsAppend host version junk steps disk r o) (mode : r.append = true) :
    ∃ ix, o.metadata host version junk (fun a => a.relocated host) = .ok ix ∧
      Gathers ((steps.flatten ++ r.blocks o).map Block.placed) ix ∧
      ∃ b₀ rest, steps.flatten ++ r.blocks o = b₀ :: rest ∧ b₀.file = 0 ∧
        b₀.index.pgRoot ≠ [] ∧ ∀ pg₀ ∈ b₀.index.pgRoot, ∀ b ∈ steps.flatten ++ r.blocks o,
          ∀ pg ∈ b.index.pgRoot, pg₀.timeIndex ≤ pg.timeIndex := by
  have hcont := hinv.continues fits mode
  obtain ⟨m, hm, hbare⟩ := o.metadata_eq fits.groups fits.deliverable
  obtain ⟨b₀, rest, hflat, hfile, hpgs, hold⟩ := hinv.oldest
  have hfirst : b₀ ∈ steps.flatten := by
    rw [hflat]
    exact mem_cons_self
  have hle : ∀ pg₀ ∈ b₀.index.pgRoot, ∀ b ∈ steps.flatten ++ r.blocks o,
      ∀ pg ∈ b.index.pgRoot, pg₀.timeIndex ≤ pg.timeIndex := fun pg₀ hpg₀ b hb pg hpg => by
    rcases mem_append.mp hb with hb | hb
    · exact hold pg₀ hpg₀ b hb pg hpg
    · have hmax := UInt32.le_iff_toNat_le.mp (le_latest hfirst hpg₀)
      have htime := fits.time
      rw [(hcont.at hb).pgs pg hpg, UInt32.le_iff_toNat_le, UInt32.toNat_add]
      show _ ≤ ((latest steps.flatten).toNat + 1) % 4294967296
      omega
  have hall : steps.flatten ++ r.blocks o = b₀ :: (rest ++ r.blocks o) := by
    rw [hflat, cons_append]
  have hpos : 0 < o.groups.length := by
    rw [hcont.count]
    exact r.aggregators_pos
  obtain ⟨ix, hix, hgathers⟩ := hcont.gathers_append mode fits.oneGroup fits.attributes
    (oldestFirst_bySubfile hpos hall hfile hpgs hle) hbare
  rw [← hm] at hix
  exact ⟨ix, hix, hgathers, b₀, _, hall, hfile, hpgs, hle⟩

theorem FitsAppend.inv (fits : FitsAppend host version junk steps disk r o) (hinv : Inv steps disk)
    (mode : r.append = true) (ends : Ends host version junk disk r o disk') :
    Inv (steps ++ [r.blocks o]) disk' := by
  have hcont := hinv.continues fits mode
  obtain ⟨ix, hix, hgathers, holdest⟩ := hinv.exists_metadata fits mode
  obtain ⟨ix', _, hix', -, hdisk⟩ := ends.metadata
  obtain rfl := Except.ok.inj (hix.symm.trans hix')
  refine hcont.inv fits.toFits ends ⟨ix, hdisk, hgathers⟩ hinv.times (fun _ => ?_) hinv.numbered
    holdest
  have htime := fits.time
  rw [UInt32.toNat_add]
  show ((latest steps.flatten).toNat + 1) % 4294967296 = _
  omega

theorem Chain.inv (h : Chain host version junk steps disk) : Inv steps disk := by
  induction h with
  | write mode fits ends => exact fits.inv mode ends
  | append _ mode fits ends ih => exact fits.inv ih mode ends

/-- **Everything is kept** by runs that fit, and they come to their end. -/
theorem keepsEverything (host : Endian) (version : Version) (junk : UInt64) :
    (∀ disk r o, r.append = false → Fits host version junk [] disk r o →
      ∃ disk', Ends host version junk disk r o disk') ∧
    ∀ h : History host version junk, KeepsEverything host version junk h := by
  refine ⟨fun disk r o mode fits => ?_, fun h => ⟨h.chain.inv.toKept, fun r o mode fits => ?_⟩⟩
  · have hcont := fits.continues mode
    obtain ⟨m, hm, -⟩ := o.metadata_eq fits.groups fits.deliverable
    refine hcont.exists_ends fits ⟨m, ?_⟩
    have happend : ¬o.append = true := by
      rw [hcont.append, mode]
      exact Bool.false_ne_true
    rw [hm, Output.sorted, if_neg happend]
  · obtain ⟨ix, hix, -⟩ := h.chain.inv.exists_metadata fits mode
    exact (h.chain.inv.continues fits mode).exists_ends fits.toFits ⟨ix, hix⟩

end

/-! ## A subfile that is not there yet -/

def stepGroup : IndexProcessGroup where
  groupName := CString.empty
  hostLanguageFortran := .no
  processId := 0
  timeIndexName := none
  timeIndex := 0
  offsetInFile := 0

def stepTask : Task where
  buffer := [0]
  index := ⟨[stepGroup], [], []⟩
  slack := []
  header := cons_ne_nil _ _
  counted := by decide
  hasGroup := cons_ne_nil _ _
  written := forall_mem_nil _

def writeRun : Run where
  append := false
  opened := 1
  gNumAggregators := 1
  tasks := [stepTask]
  slack := fun _ => []
  nonempty := cons_ne_nil _ _
  ranks := by decide

def secondRun : Run where
  append := true
  opened := 1
  gNumAggregators := 2
  tasks := [stepTask, stepTask]
  slack := fun _ => []
  nonempty := cons_ne_nil _ _
  ranks := by decide

theorem once_nil : Index.Once ⟨[], [], []⟩ := ⟨nodup_nil, nodup_nil⟩

theorem firstGroup_fits : (0 : UInt64).toNat +
    ([stepTask.writer 0 1].map fun w => w.bytesWritten.toNat).sum < 18446744073709551616 := by
  decide

def firstGroup : Aggregation where
  base := 0
  old := ⟨[], [], []⟩
  writers := [stepTask.writer 0 1]
  slack := []
  nonempty := cons_ne_nil _ _
  oldOnce := once_nil
  fits := firstGroup_fits

def firstOutput : Output where
  groups := [firstGroup]
  append := false

def firstIndex : Index := ⟨[{ stepGroup with timeIndex := 1 }], [], []⟩

theorem readable_firstIndex (host : Endian) : firstIndex.Readable host where
  groups := fun pg hpg => by
    obtain rfl := mem_singleton.mp hpg
    exact ⟨by decide, by decide⟩
  count := by decide
  wf := forall_mem_nil _
  varStrings := forall_mem_nil _
  vars := ⟨by decide, forall_mem_nil _, forall_mem_nil _, forall_mem_nil _,
    forall_mem_nil _⟩
  attrWf := forall_mem_nil _
  attrSets := forall_mem_nil _
  attrs := ⟨by decide, forall_mem_nil _⟩

section

variable (host : Endian) (version : Version) (junk : UInt64)

theorem reread_firstIndex : ∃ old, reread host version junk firstIndex = .ok old ∧
    old.bare = firstIndex.bare := by
  obtain ⟨bytes, hbytes, hread⟩ := (readable_firstIndex host).readsBack version junk
  obtain ⟨old, hold, hbare⟩ := parseSegment_of_readsBack (hread [])
  rw [append_nil] at hold
  refine ⟨old, ?_, hbare⟩
  rw [reread, hbytes]
  exact hold

theorem subfileIndex_firstGroup :
    firstGroup.subfileIndex host version junk (firstGroup.relocated host) = .ok firstIndex := by
  cases host <;> rfl

theorem fits_firstOutput :
    Fits host version junk [] ⟨fun _ => none, none⟩ writeRun firstOutput := by
  obtain ⟨bytes, hbytes, -⟩ := (readable_firstIndex host).readsBack version junk
  refine ⟨⟨rfl, rfl, fun c a ha => ?_⟩, fun a ha => ?_, fun a ha => ?_, ⟨[], rfl, ?_⟩,
    fun a ha ix hix => ?_, fun ix hix => ?_, fun v hv => ?_, fun k => ?_⟩
  · match c with
    | 0 =>
      obtain rfl := Option.some.inj ha
      exact ⟨writeRun.newFile, rfl, rfl, rfl, rfl, rfl⟩
    | c + 1 => cases ha
  · obtain rfl := mem_singleton.mp ha
    decide
  · obtain rfl := mem_singleton.mp ha
    refine ⟨by decide, Or.inl rfl, fun w rank hw => ?_, ⟨[], rfl, ⟨?_, ?_⟩, .nil⟩⟩
    · match rank with
      | 0 => exact Or.inl rfl
      | rank + 1 => cases hw
    · exact forall_mem_nil _
    · exact fun i hi => absurd hi (Nat.not_lt_zero i)
  · exact ⟨[], rfl, ⟨forall_mem_nil _, fun i hi => absurd hi (Nat.not_lt_zero i)⟩, .nil⟩
  · obtain rfl := mem_singleton.mp ha
    obtain rfl := Except.ok.inj ((subfileIndex_firstGroup host version junk).symm.trans hix)
    exact ⟨bytes, hbytes⟩
  · have hmetadata : firstOutput.metadata host version junk (fun a => a.relocated host) =
        .ok firstIndex := by
      cases host <;> rfl
    obtain rfl := Except.ok.inj (hmetadata.symm.trans hix)
    exact ⟨bytes, hbytes⟩
  · cases hv
  · exact List.Pairwise.nil

end

/-- The process that makes a new subfile takes the time it has counted itself. -/
theorem not_kept_secondRun : ∃ (h : History .little ⟨chars "1.9.0", 1, 9, 0⟩ 0) (o : Output),
    Opened .little ⟨chars "1.9.0", 1, 9, 0⟩ 0 h.disk secondRun o ∧
      ∀ disk', ¬Kept (h.steps ++ [secondRun.blocks o]) disk' := by
  have hfits := fits_firstOutput .little ⟨chars "1.9.0", 1, 9, 0⟩ 0
  obtain ⟨disk, hends⟩ := (hfits.continues rfl).exists_ends hfits ⟨_, rfl⟩
  obtain ⟨s, hs, hclosed⟩ := hends.closed 0 firstGroup rfl
  have hindex := Except.ok.inj (hclosed.index.symm.trans
    (subfileIndex_firstGroup .little ⟨chars "1.9.0", 1, 9, 0⟩ 0))
  have hend : s.endOfPgs = 1 := by
    obtain ⟨disp, total, hdisp, hend⟩ := hclosed.endOfPgs
    obtain ⟨disp', total', hdisp', -, hstart⟩ :=
      (hfits.groups firstGroup mem_cons_self).pointsAtData.counted
    obtain ⟨-, rfl⟩ := Prod.mk.inj (Except.ok.inj (hdisp.symm.trans hdisp'))
    rw [hend]
    exact UInt64.toNat_inj.mp (hstart.trans (by decide))
  have hnone : disk.subfiles 1 = none := hends.others 1 (by decide)
  obtain ⟨old, hold, hbare⟩ := reread_firstIndex .little ⟨chars "1.9.0", 1, 9, 0⟩ 0
  have hvars : old.varsRoot = [] := map_eq_nil_iff.mp (congrArg Index.varsRoot hbare)
  have hattrs : old.attrsRoot = [] := map_eq_nil_iff.mp (congrArg Index.attrsRoot hbare)
  let o : Output :=
    { groups :=
        [{ base := 1, old := old, slack := []
           writers := [stepTask.writer 0 (maxTimeIndex old.pgRoot + 1)]
           nonempty := cons_ne_nil _ _
           oldOnce := ⟨by rw [hvars]; exact nodup_nil, by rw [hattrs]; exact nodup_nil⟩
           fits := (by decide : 2 < 18446744073709551616) },
          { base := 0, old := ⟨[], [], []⟩, slack := []
            writers := [stepTask.writer 1 1]
            nonempty := cons_ne_nil _ _
            oldOnce := once_nil
            fits := by decide }]
      append := true }
  refine ⟨⟨_, disk, .write rfl hfits hends⟩, o, ⟨rfl, rfl, fun c a ha => ?_⟩, fun disk' hkept => ?_⟩
  · match c with
    | 0 =>
      obtain rfl := Option.some.inj ha
      refine ⟨⟨1, old, maxTimeIndex old.pgRoot + 1⟩, ?_, rfl, rfl, rfl, rfl⟩
      show secondRun.openSubfile _ _ _ (disk.subfiles 0) = _
      have hmode : secondRun.append = true := rfl
      rw [hs, Run.openSubfile, if_pos hmode, hindex, hold, hend]
      rfl
    | 1 =>
      obtain rfl := Option.some.inj ha
      refine ⟨secondRun.newFile, ?_, rfl, rfl, rfl, rfl⟩
      show secondRun.openSubfile _ _ _ (disk.subfiles 1) = _
      rw [hnone]
      rfl
    | c + 2 => cases ha
  · obtain ⟨t, hat, htime⟩ := hkept.times [writeRun.blocks firstOutput] [] (secondRun.blocks o) rfl
    have hlatest : (latest [writeRun.blocks firstOutput].flatten).toNat = 1 := rfl
    have hnext := htime (cons_ne_nil _ _)
    -- the second process has the time 1
    have hsecond := (hat (stepTask.block 1 1 0) (mem_cons_of_mem _ mem_cons_self)).pgs
      { stepGroup with timeIndex := 1 } mem_cons_self
    rw [← hsecond, hlatest] at hnext
    exact absurd hnext (by decide)

end Adios.Amr
