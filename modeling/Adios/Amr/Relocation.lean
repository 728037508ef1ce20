import Adios.Amr.SentIndexes
import Adios.Index.Sort
import Mathlib.Algebra.Order.BigOperators.Group.List
import Mathlib.Algebra.Ring.Int.Defs
import Mathlib.Algebra.Ring.Nat

/-!
# MPI_AMR — offsets in the indexes of an aggregation group

Each process of a group builds its index as if its process group were at the start of a file; the
aggregator's `fd->base_offset` is where the old process groups of its subfile end. At the close the
others add what comes before their process group (`adios_mpi_amr_add_offset`), and the aggregator
collects the indexes for its subfile, as rank 0 does those of the subfiles for the metadata.
-/

namespace Adios.Amr

open List Wire Lists UInt64

/-! ## Adding to offsets -/

/-- "`offset += …`" and "`payload_offset += …`" -/
def shift (n : UInt64) (c : IndexCharacteristic) : IndexCharacteristic :=
  { c with offset := c.offset + n, payloadOffset := c.payloadOffset + n }

/-- What `adios_mpi_amr_add_offset` does to an entry: it adds to `characteristics [0]`. -/
def addToFirst (n : UInt64) (e : IndexEntry) : IndexEntry :=
  { e with characteristics := e.characteristics.modifyHead (shift n) }

def addToGroup (n : UInt64) (pg : IndexProcessGroup) : IndexProcessGroup :=
  { pg with offsetInFile := pg.offsetInFile + n }

/-- `adios_mpi_amr_add_offset` -/
def addOffset (pgOffsetToAdd varOffsetToAdd attrOffsetToAdd : UInt64) (index : Index) : Index where
  pgRoot := index.pgRoot.map (addToGroup pgOffsetToAdd)
  varsRoot := index.varsRoot.map (addToFirst varOffsetToAdd)
  attrsRoot := index.attrsRoot.map (addToFirst attrOffsetToAdd)

def addToAll (n : UInt64) (e : IndexEntry) : IndexEntry :=
  { e with characteristics := e.characteristics.map (shift n) }

/-- The index of what is written `n` bytes further back in the file. -/
def rebase (n : UInt64) (index : Index) : Index where
  pgRoot := index.pgRoot.map (addToGroup n)
  varsRoot := index.varsRoot.map (addToAll n)
  attrsRoot := index.attrsRoot.map (addToAll n)

/-! ## An aggregation group -/

structure Writer where
  bytesWritten : UInt64
  /-- The index that `adios_build_index_v1` makes of it with a `base_offset` of zero. -/
  index : Index
  /-- What its buffer for the index has behind it: `buffer_size` bytes are sent. -/
  slack : List UInt8
  hasGroup : index.pgRoot ≠ []
  /-- Each copy of a variable or attribute makes a set of its entry. -/
  written : ∀ e ∈ index.varsRoot ++ index.attrsRoot, e.characteristics ≠ []

/-- The index it builds: `fd->base_offset` is in each `write_offset` and in `pg_start_in_file`. -/
def Writer.builtAt (w : Writer) (baseOffset : UInt64) : Index := rebase baseOffset w.index

structure Aggregation where
  /-- The aggregator's `md->b.pg_index_offset`: where the old process groups end. -/
  base : UInt64
  /-- The index that the subfile has had. -/
  old : Index
  writers : List Writer
  /-- What the aggregator's buffer for the index of the subfile has behind it. -/
  slack : List UInt8
  nonempty : writers ≠ []
  /-- An index in a file has one entry for each path and name. -/
  oldOnce : old.Once
  fits : base.toNat + (writers.map fun w => w.bytesWritten.toNat).sum < 18446744073709551616

/-- `MPI_Bcast (&md->b.pg_index_offset, 1, MPI_INT, …)`, to a process where it is zero. -/
def bcastInt (host : Endian) (x : UInt64) : UInt64 :=
  match host with
  | .little => UInt64.ofNat (x.toNat % 4294967296)
  | .big => UInt64.ofNat (x.toNat / 4294967296 * 4294967296)

namespace Aggregation

variable (host : Endian) (version : Version) (junk : UInt64) (a : Aggregation)

/-- `pg_sizes` -/
def pgSizes : List Int := a.writers.map fun w => toInt w.bytesWritten.toNat

/-- "`for (i = 0; i < new_rank; i++)`": what a process adds to its offsets. -/
def offsetToAdd (rank : Nat) : UInt64 :=
  (a.pgSizes.take rank).foldl (fun n size => n + UInt64.ofInt size) (bcastInt host a.base)

/-- `md->index` of a process, but for the old index, when the indexes are collected. -/
def relocated (w : Writer) (rank : Nat) : Index :=
  if rank = 0 then w.builtAt a.base
  else addOffset (a.offsetToAdd host rank) (a.offsetToAdd host rank) (a.offsetToAdd host rank)
    (w.builtAt 0)

/-- The aggregator's own index, and what the other processes send to it; `index` is what each
process has in its `md->index` by then. -/
def own (index : Writer → Nat → Index) : List Index :=
  (a.writers.zipIdx.take 1).map fun w => index w.1 w.2

def sent (index : Writer → Nat → Index) : List Parcel :=
  (a.writers.zipIdx.drop 1).map fun w => ⟨index w.1 w.2, w.1.slack⟩

def collected (index : Writer → Nat → Index) : Except Failure (List Index) := do
  let news ← gatherNews host version junk (a.sent index)
  return a.old :: a.own index ++ news

def subfileIndex (index : Writer → Nat → Index) : Except Failure Index := do
  let ixs ← a.collected host version junk index
  return mergeIndexes ixs

/-- `index_start`; `total_data_size` is an `int`. -/
def indexStart (totalDataSize : Int) : UInt64 := a.base + UInt64.ofInt totalDataSize

end Aggregation

/-- One step of the output: the groups by the ranks of their aggregators, of which the first is
rank 0. -/
structure Output where
  groups : List Aggregation
  append : Bool

namespace Output

variable (host : Endian) (version : Version) (junk : UInt64) (o : Output)

def sent (index : Aggregation → Writer → Nat → Index) : Except Failure (List Parcel) :=
  (o.groups.drop 1).mapM fun a => do
    let ix ← a.subfileIndex host version junk (index a)
    return ⟨ix, a.slack⟩

def collected (index : Aggregation → Writer → Nat → Index) : Except Failure (List Index) := do
  let firsts ← (o.groups.take 1).mapM fun a => a.collected host version junk (index a)
  let parcels ← o.sent host version junk index
  let news ← gatherNews host version junk parcels
  return firsts.flatten ++ news

/-- "`if (fd->mode == adios_mode_append) adios_sort_index_v1 (…)`" -/
def sorted (ix : Index) : Except Failure Index :=
  if o.append then
    match sortIndexV1 ix with
    | .ok ix => .ok ix
    | .error f => .error (.fault f)
  else .ok ix

def metadata (index : Aggregation → Writer → Nat → Index) : Except Failure Index := do
  let ixs ← o.collected host version junk index
  o.sorted (mergeIndexes ixs)

end Output

/-! ## What is asked of the indexes -/

namespace Aggregation

variable (a : Aggregation)

def start (rank : Nat) : Nat :=
  a.base.toNat + ((a.writers.take rank).map fun w => w.bytesWritten.toNat).sum

def placed (w : Writer) (rank : Nat) : Index := rebase (UInt64.ofNat (a.start rank)) w.index

def parts : List Index := a.old :: a.writers.zipIdx.map fun w => a.placed w.1 w.2

end Aggregation

def Output.parts (o : Output) : List Index :=
  (o.groups.take 1).flatMap Aggregation.parts ++
    (o.groups.drop 1).map fun a => mergeIndexes a.parts

structure PointsAtData (host : Endian) (version : Version) (junk : UInt64) (a : Aggregation) :
    Prop where
  /-- The sizes are counts that MPI takes, and the index starts behind all of the data. -/
  counted : ∃ disp total, displacements 0 a.pgSizes = .ok (disp, total) ∧
    (∀ size ∈ a.pgSizes, 0 ≤ size) ∧ (a.indexStart total).toNat = a.start a.writers.length
  relocated (w : Writer) (rank : Nat) (h : a.writers[rank]? = some w) :
    a.relocated host w rank = a.placed w rank
  delivered : Delivered host version junk (a.sent (a.relocated host))
  subfile : ∃ ix, a.subfileIndex host version junk (a.relocated host) = .ok ix ∧
    ix.bare = (mergeIndexes a.parts).bare

structure SameEntries (ix ix' : Index) : Prop where
  pgs : (ix'.pgRoot.map IndexProcessGroup.bare).Perm (ix.pgRoot.map IndexProcessGroup.bare)
  vars : Forall₂ (fun v v' =>
    { v' with characteristics := [] } = { v with characteristics := [] } ∧
      (v'.characteristics.map IndexCharacteristic.bare).Perm
        (v.characteristics.map IndexCharacteristic.bare)) ix.varsRoot ix'.varsRoot
  attrs : ix'.attrsRoot.map IndexEntry.bare = ix.attrsRoot.map IndexEntry.bare

structure AllPoint (host : Endian) (version : Version) (junk : UInt64) (o : Output) : Prop where
  groups (a : Aggregation) (h : a ∈ o.groups) : PointsAtData host version junk a
  delivered : ∃ parcels, o.sent host version junk (fun a => a.relocated host) = .ok parcels ∧
    Delivered host version junk parcels
  metadata : ∃ ix, o.metadata host version junk (fun a => a.relocated host) = .ok ix ∧
    SameEntries (mergeIndexes o.parts) ix

/-- The sizes and the base fit an `int` where they are made into one, only the first sets of the
entries have to be moved, and the indexes can be sent. -/
structure Relocatable (host : Endian) (version : Version) (junk : UInt64) (a : Aggregation) :
    Prop where
  small : (a.writers.map fun w => w.bytesWritten.toNat).sum < 2147483648
  base : a.writers.length = 1 ∨ bcastInt host a.base = a.base
  single (w : Writer) (rank : Nat) (h : a.writers[rank]? = some w) :
    rank = 0 ∨ a.start rank = 0 ∨
      ∀ e ∈ w.index.varsRoot ++ w.index.attrsRoot, e.characteristics.length = 1
  deliverable : Deliverable host version junk (a.sent a.placed)

/-- So are the groups of a step, the indexes of the subfiles can be sent as well, and no process
group is older than the first one when they are to be sorted. -/
structure AllRelocatable (host : Endian) (version : Version) (junk : UInt64) (o : Output) :
    Prop where
  groups (a : Aggregation) (h : a ∈ o.groups) : Relocatable host version junk a
  deliverable : ∃ parcels, o.sent host version junk Aggregation.placed = .ok parcels ∧
    Deliverable host version junk parcels
  oldestFirst : o.append = true → OldestFirst (mergeIndexes o.parts).pgRoot

/-! ## Adding -/

theorem shift_zero (c : IndexCharacteristic) : shift 0 c = c := by
  rw [shift, UInt64.add_zero, UInt64.add_zero]

theorem rebase_zero (ix : Index) : rebase 0 ix = ix := by
  have hgroup : addToGroup 0 = id := by
    funext pg
    rw [addToGroup, UInt64.add_zero]
    rfl
  have hset : shift 0 = id := funext shift_zero
  have hentry : addToAll 0 = id := by
    funext e
    rw [addToAll, hset, map_id]
    rfl
  rw [rebase, hgroup, hentry, map_id, map_id, map_id]

variable {n : UInt64} {ix ix' : Index}

theorem addToFirst_eq {e : IndexEntry} (h : e.characteristics.length = 1) :
    addToFirst n e = addToAll n e := by
  obtain ⟨c, hc⟩ := length_eq_one_iff.mp h
  rw [addToFirst, addToAll, hc]
  rfl

theorem eq_zero_of_addToFirst {e : IndexEntry} (hne : e.characteristics ≠ [])
    (hlen : e.characteristics.length ≠ 1) (h : addToFirst n e = addToAll n e) : n = 0 := by
  have hsets := congrArg IndexEntry.characteristics h
  rw [addToFirst, addToAll] at hsets
  match hcs : e.characteristics with
  | [] => exact absurd hcs hne
  | [_] => exact absurd (by rw [hcs]; rfl) hlen
  | c :: d :: cs =>
    rw [hcs] at hsets
    injection hsets with _ hsets
    injection hsets with hd _
    have hoffset : d.offset = d.offset + n := congrArg IndexCharacteristic.offset hd
    exact UInt64.add_eq_left.mp hoffset.symm

theorem addToFirst_zero (e : IndexEntry) : addToFirst 0 e = addToAll 0 e := by
  have hset : shift 0 = id := funext shift_zero
  rw [addToFirst, addToAll, hset, map_id]
  cases hcs : e.characteristics with
  | nil => rfl
  | cons c cs => rfl

theorem addOffset_eq (h : n = 0 ∨ ∀ e ∈ ix.varsRoot ++ ix.attrsRoot, e.characteristics.length = 1) :
    addOffset n n n ix = rebase n ix := by
  have hentry : ∀ e ∈ ix.varsRoot ++ ix.attrsRoot, addToFirst n e = addToAll n e := fun e he => by
    rcases h with rfl | hone
    · exact addToFirst_zero e
    · exact addToFirst_eq (hone e he)
  rw [addOffset, rebase, map_congr_left fun e he => hentry e (mem_append_left ix.attrsRoot he),
    map_congr_left fun e he => hentry e (mem_append_right ix.varsRoot he)]

/-! ## The sizes -/

theorem displacements_ok {sizes : List Nat} {d : Nat} (h : d + sizes.sum < 2147483648) :
    ∃ disp, displacements d (sizes.map Nat.cast) = .ok (disp, ((d + sizes.sum : Nat) : Int)) := by
  induction sizes generalizing d with
  | nil => exact ⟨[], rfl⟩
  | cons size sizes ih =>
    rw [sum_cons] at h ⊢
    obtain ⟨disp, hdisp⟩ := @ih (d + size) (by omega)
    have hadd : addInt d size = .ok ((d + size : Nat) : Int) := if_pos (by omega)
    refine ⟨d :: disp, ?_⟩
    rw [map_cons, displacements, hadd, ok_bind, hdisp, ok_bind, Nat.add_assoc]

theorem displacements_sum {sizes disp : List Int} {d total : Int}
    (h : displacements d sizes = .ok (disp, total)) (hd : d < 2147483648)
    (hnonneg : ∀ size ∈ sizes, 0 ≤ size) :
    total = d + (sizes.map Int.toNat).sum ∧ total < 2147483648 := by
  induction sizes generalizing d disp with
  | nil =>
    injection h with h
    injection h with _ htotal
    rw [← htotal]
    exact ⟨(Int.add_zero d).symm, hd⟩
  | cons size sizes ih =>
    have hsize := hnonneg size mem_cons_self
    obtain ⟨next, hnext, h⟩ := exists_of_bind_eq_ok h
    obtain ⟨rest, hrest, h⟩ := exists_of_bind_eq_ok h
    injection h with h
    injection h with _ htotal
    unfold addInt at hnext
    split_ifs at hnext with hrange
    injection hnext with hnext
    obtain ⟨hsum, hlt⟩ := @ih rest.1 next (by rw [hrest, ← htotal]) (by omega)
      fun s hs => hnonneg s (mem_cons_of_mem size hs)
    rw [map_cons, sum_cons]
    omega

section

variable {host : Endian} {version : Version} {junk : UInt64} {a : Aggregation} {w : Writer}
  {rank : Nat}

theorem Aggregation.start_all (a : Aggregation) : a.start a.writers.length =
    a.base.toNat + (a.writers.map fun w => w.bytesWritten.toNat).sum := by
  rw [Aggregation.start, take_length]

theorem Aggregation.start_le (a : Aggregation) (rank : Nat) :
    a.start rank ≤ a.start a.writers.length := by
  have hsplit : (a.writers.map fun w => w.bytesWritten.toNat).sum =
      ((a.writers.take rank).map fun w => w.bytesWritten.toNat).sum +
        ((a.writers.drop rank).map fun w => w.bytesWritten.toNat).sum := by
    rw [← sum_append, ← map_append, take_append_drop]
  rw [a.start_all, Aggregation.start, hsplit]
  omega

theorem Aggregation.start_lt (a : Aggregation) (rank : Nat) :
    a.start rank < 18446744073709551616 := by
  have hfits := a.fits
  have hle := a.start_le rank
  rw [a.start_all] at hle
  omega

theorem Aggregation.pgSizes_of_small
    (h : (a.writers.map fun w => w.bytesWritten.toNat).sum < 2147483648) :
    a.pgSizes = (a.writers.map fun w => w.bytesWritten.toNat).map Nat.cast := by
  rw [map_map]
  refine map_congr_left fun w hw => ?_
  have hle := le_sum_of_mem (mem_map_of_mem (f := fun w => w.bytesWritten.toNat) hw)
  exact toInt_of_lt (by omega)

theorem foldl_ofInt (sizes : List Nat) (n : UInt64) :
    (sizes.map Nat.cast).foldl (fun n (size : Int) => n + UInt64.ofInt size) n =
      n + UInt64.ofNat sizes.sum := by
  induction sizes generalizing n with
  | nil => exact (UInt64.add_zero n).symm
  | cons size sizes ih =>
    have hsize : UInt64.ofInt (size : Int) = UInt64.ofNat size := by
      refine UInt64.toNat_inj.mp ?_
      rw [toNat_ofInt, toNat_ofNat']
      omega
    rw [map_cons, foldl_cons, ih, hsize, sum_cons, ofNat_add, UInt64.add_assoc]

theorem Aggregation.offsetToAdd_eq
    (h : (a.writers.map fun w => w.bytesWritten.toNat).sum < 2147483648) (rank : Nat) :
    a.offsetToAdd host rank = bcastInt host a.base +
      UInt64.ofNat ((a.writers.take rank).map fun w => w.bytesWritten.toNat).sum := by
  rw [offsetToAdd, a.pgSizes_of_small h, ← map_take, foldl_ofInt, ← map_take]

theorem Aggregation.ofNat_start (a : Aggregation) (rank : Nat) :
    UInt64.ofNat (a.start rank) =
      a.base + UInt64.ofNat ((a.writers.take rank).map fun w => w.bytesWritten.toNat).sum := by
  rw [start, ofNat_add, UInt64.ofNat_toNat]

/-! ## Enough -/

theorem Relocatable.counted (h : Relocatable host version junk a) :
    ∃ disp total, displacements 0 a.pgSizes = .ok (disp, total) ∧
      (∀ size ∈ a.pgSizes, 0 ≤ size) ∧ (a.indexStart total).toNat = a.start a.writers.length := by
  have hsmall := h.small
  obtain ⟨disp, hdisp⟩ := @displacements_ok (a.writers.map fun w => w.bytesWritten.toNat) 0
    (by omega)
  rw [Nat.zero_add] at hdisp
  refine ⟨disp, ((a.writers.map fun w => w.bytesWritten.toNat).sum : Nat), ?_, fun size hsize => ?_,
    ?_⟩
  · rw [a.pgSizes_of_small hsmall]
    exact hdisp
  · rw [a.pgSizes_of_small hsmall] at hsize
    obtain ⟨n, -, rfl⟩ := mem_map.mp hsize
    exact Int.natCast_nonneg n
  · have hfits := a.fits
    rw [Aggregation.indexStart, UInt64.toNat_add, toNat_ofInt_of_nonneg (by omega) (by omega), a.start_all]
    omega

theorem Relocatable.relocated (h : Relocatable host version junk a)
    (hw : a.writers[rank]? = some w) : a.relocated host w rank = a.placed w rank := by
  rw [Aggregation.relocated, Aggregation.placed]
  by_cases hzero : rank = 0
  · subst hzero
    have hstart : UInt64.ofNat (a.start 0) = a.base := by
      rw [a.ofNat_start]
      exact UInt64.add_zero a.base
    rw [if_pos rfl, hstart, Writer.builtAt]
  · have hrank : rank < a.writers.length := (List.getElem?_eq_some_iff.mp hw).1
    have hbase : bcastInt host a.base = a.base := by
      rcases h.base with hone | hbase
      · omega
      · exact hbase
    have hadd : a.offsetToAdd host rank = UInt64.ofNat (a.start rank) := by
      rw [a.offsetToAdd_eq h.small, hbase, a.ofNat_start]
    rw [if_neg hzero, hadd, Writer.builtAt, rebase_zero]
    refine addOffset_eq ?_
    rcases h.single w rank hw with hrank | hstart | hone
    · exact absurd hrank hzero
    · rw [hstart]
      exact Or.inl rfl
    · exact Or.inr hone

section

variable (h : ∀ w rank, a.writers[rank]? = some w → a.relocated host w rank = a.placed w rank)

include h

theorem Aggregation.sent_eq : a.sent (a.relocated host) = a.sent a.placed := by
  refine map_congr_left fun w hw => ?_
  have hmem := mem_zipIdx_iff_getElem?.mp (mem_of_mem_drop hw)
  rw [h w.1 w.2 hmem]

theorem Aggregation.own_eq : a.own (a.relocated host) = a.own a.placed := by
  refine map_congr_left fun w hw => ?_
  have hmem := mem_zipIdx_iff_getElem?.mp (mem_of_mem_take hw)
  exact h w.1 w.2 hmem

end

theorem Aggregation.collected_of_delivered (h : Delivered host version junk (a.sent a.placed)) :
    ∃ ixs, a.collected host version junk a.placed = .ok ixs ∧
      ixs.map Index.bare = a.parts.map Index.bare := by
  obtain ⟨news, hnews, hbare⟩ := h.news
  refine ⟨a.old :: a.own a.placed ++ news, ?_, ?_⟩
  · rw [collected, hnews]
    rfl
  · rw [map_append, map_cons, hbare, parts, map_cons, cons_append]
    congr 1
    rw [own, sent, map_map, map_map, map_map]
    have hall := (@map_append _ _ (fun w : Writer × Nat => (a.placed w.1 w.2).bare)
      (a.writers.zipIdx.take 1) (a.writers.zipIdx.drop 1)).symm
    rw [take_append_drop] at hall
    exact hall

theorem Aggregation.subfileIndex_of_delivered
    (h : Delivered host version junk (a.sent a.placed)) :
    ∃ ix, a.subfileIndex host version junk a.placed = .ok ix ∧
      ix.bare = (mergeIndexes a.parts).bare := by
  obtain ⟨ixs, hixs, hbare⟩ := a.collected_of_delivered h
  refine ⟨mergeIndexes ixs, ?_, ?_⟩
  · rw [subfileIndex, hixs]
    rfl
  · rw [bare_mergeIndexes, hbare, bare_mergeIndexes]

theorem Aggregation.collected_eq (h : ∀ w rank, a.writers[rank]? = some w →
    a.relocated host w rank = a.placed w rank) :
    a.collected host version junk (a.relocated host) = a.collected host version junk a.placed := by
  rw [collected, collected, a.sent_eq h, a.own_eq h]

theorem Relocatable.pointsAtData (h : Relocatable host version junk a) :
    PointsAtData host version junk a := by
  have hplaced : ∀ w rank, a.writers[rank]? = some w →
      a.relocated host w rank = a.placed w rank := fun w rank hw => h.relocated hw
  have hdelivered := delivered_iff.mpr h.deliverable
  refine ⟨h.counted, hplaced, ?_, ?_⟩
  · rw [a.sent_eq hplaced]
    exact hdelivered
  · obtain ⟨ix, hix, hbare⟩ := a.subfileIndex_of_delivered hdelivered
    refine ⟨ix, ?_, hbare⟩
    rw [Aggregation.subfileIndex, a.collected_eq hplaced]
    exact hix

theorem PointsAtData.small (h : PointsAtData host version junk a) :
    (a.writers.map fun w => w.bytesWritten.toNat).sum < 2147483648 := by
  obtain ⟨disp, total, hdisp, hnonneg, hstart⟩ := h.counted
  obtain ⟨htotal, hlt⟩ := displacements_sum hdisp (by decide) hnonneg
  have hfits := a.fits
  rw [Aggregation.indexStart, UInt64.toNat_add, toNat_ofInt, a.start_all] at hstart
  omega

theorem PointsAtData.relocatable (h : PointsAtData host version junk a) :
    Relocatable host version junk a := by
  have hsmall := h.small
  -- what is added to the offset of a process group
  have hadd : ∀ w rank, a.writers[rank]? = some w → rank ≠ 0 →
      a.offsetToAdd host rank = UInt64.ofNat (a.start rank) := fun w rank hw hrank => by
    have hix := h.relocated w rank hw
    rw [Aggregation.relocated, if_neg hrank, Writer.builtAt, rebase_zero] at hix
    have hpgs := congrArg Index.pgRoot hix
    match hroot : w.index.pgRoot with
    | [] => exact absurd hroot w.hasGroup
    | pg :: pgs =>
      rw [addOffset, Aggregation.placed, rebase, hroot] at hpgs
      injection hpgs with hpg _
      have hoffset : pg.offsetInFile + a.offsetToAdd host rank =
          pg.offsetInFile + UInt64.ofNat (a.start rank) :=
        congrArg IndexProcessGroup.offsetInFile hpg
      exact (UInt64.add_right_inj pg.offsetInFile).mp hoffset
  refine ⟨hsmall, ?_, fun w rank hw => ?_, ?_⟩
  · by_cases hone : a.writers.length = 1
    · exact Or.inl hone
    · have hlen := length_pos_iff.mpr a.nonempty
      have hsecond : 1 < a.writers.length := by omega
      have hoffset := hadd a.writers[1] 1 (getElem?_eq_getElem hsecond) Nat.one_ne_zero
      rw [a.offsetToAdd_eq hsmall, a.ofNat_start] at hoffset
      exact Or.inr ((UInt64.add_left_inj _).mp hoffset)
  · by_cases hrank : rank = 0
    · exact Or.inl hrank
    · have hix := h.relocated w rank hw
      rw [Aggregation.relocated, if_neg hrank, Writer.builtAt, rebase_zero, hadd w rank hw hrank,
        Aggregation.placed, addOffset, rebase] at hix
      have hlt := a.start_lt rank
      by_cases hstart : a.start rank = 0
      · exact Or.inr (Or.inl hstart)
      · refine Or.inr (Or.inr fun e he => ?_)
        by_contra hlen
        -- the second set stays where it is
        have hentry : addToFirst (UInt64.ofNat (a.start rank)) e =
            addToAll (UInt64.ofNat (a.start rank)) e := by
          rcases mem_append.mp he with he | he
          · exact map_inj_left.mp (congrArg Index.varsRoot hix) e he
          · exact map_inj_left.mp (congrArg Index.attrsRoot hix) e he
        have hzero := congrArg UInt64.toNat (eq_zero_of_addToFirst (w.written e he) hlen hentry)
        rw [toNat_ofNat_of_lt' hlt] at hzero
        exact hstart hzero
  · have hdelivered := h.delivered
    rw [a.sent_eq h.relocated] at hdelivered
    exact delivered_iff.mp hdelivered

end

/-! ## All subfiles and the metadata -/

theorem sameEntries_of_bare (h : ix'.bare = ix.bare) : SameEntries ix ix' := by
  have hvars :
      Forall₂ (fun v v' : IndexEntry => v'.bare = v.bare) ix.varsRoot ix'.varsRoot := by
    have heq : ix'.varsRoot.map IndexEntry.bare = ix.varsRoot.map IndexEntry.bare :=
      congrArg Index.varsRoot h
    rw [← forall₂_eq_eq_eq, forall₂_map_left_iff, forall₂_map_right_iff] at heq
    exact heq.flip
  refine ⟨.of_eq (congrArg Index.pgRoot h), hvars.imp fun v v' hv => ⟨?_, ?_⟩,
    congrArg Index.attrsRoot h⟩
  · exact congrArg (fun e : IndexEntry => { e with characteristics := [] }) hv
  · exact .of_eq (congrArg IndexEntry.characteristics hv)

theorem sameEntries_of_sorted (h : SortedFrom ix ix') : SameEntries ix ix' := by
  refine ⟨h.pgs.map _, ?_, by rw [h.attrs]⟩
  rw [h.vars, forall₂_map_right_iff, forall₂_same]
  exact fun v _ => ⟨rfl, (sortSets_spec v).2 IndexCharacteristic.bare fun _ => rfl⟩

theorem SameEntries.trans {ix'' : Index} (h : SameEntries ix ix') (h' : SameEntries ix' ix'') :
    SameEntries ix ix'' := by
  refine ⟨h'.pgs.trans h.pgs, ?_, h'.attrs.trans h.attrs⟩
  have hvars := h.vars
  have hvars' := h'.vars
  generalize ix.varsRoot = vs, ix'.varsRoot = vs', ix''.varsRoot = vs'' at hvars hvars'
  induction hvars generalizing vs'' with
  | nil =>
    cases hvars'
    exact .nil
  | cons hv _ ih =>
    cases hvars' with
    | cons hv' hrest => exact .cons ⟨hv'.1.trans hv.1, hv'.2.trans hv.2⟩ (ih _ hrest)

theorem oldestFirst_bare (pgs : List IndexProcessGroup) :
    OldestFirst (pgs.map IndexProcessGroup.bare) ↔ OldestFirst pgs := by
  unfold OldestFirst
  rw [List.head?_map]
  constructor
  · intro h first hfirst pg hpg
    exact h first.bare (Option.mem_map_of_mem _ hfirst) pg.bare (mem_map_of_mem hpg)
  · intro h first hfirst pg hpg
    obtain ⟨first', hfirst', rfl⟩ := Option.mem_map.mp hfirst
    obtain ⟨pg', hpg', rfl⟩ := mem_map.mp hpg
    exact h first' hfirst' pg' hpg'

section

variable {host : Endian} {version : Version} {junk : UInt64} {o : Output}

def Output.Moved (host : Endian) (o : Output) : Prop :=
  ∀ a ∈ o.groups, ∀ w rank, a.writers[rank]? = some w → a.relocated host w rank = a.placed w rank

theorem Output.sent_eq (h : o.Moved host) :
    o.sent host version junk (fun a => a.relocated host) =
      o.sent host version junk Aggregation.placed := by
  refine mapM_congr fun a ha => ?_
  rw [Aggregation.subfileIndex, a.collected_eq (h a (mem_of_mem_drop ha))]
  rfl

theorem Output.collected_eq (h : o.Moved host) :
    o.collected host version junk (fun a => a.relocated host) =
      o.collected host version junk Aggregation.placed := by
  rw [collected, collected, o.sent_eq h]
  congr 1
  exact mapM_congr fun a ha => a.collected_eq (h a (mem_of_mem_take ha))

theorem Output.collected_of_delivered
    (hgroups : ∀ a ∈ o.groups, Delivered host version junk (a.sent a.placed))
    (h : ∃ parcels, o.sent host version junk Aggregation.placed = .ok parcels ∧
      Delivered host version junk parcels) :
    ∃ ixs, o.collected host version junk Aggregation.placed = .ok ixs ∧
      ixs.map Index.bare = o.parts.map Index.bare := by
  obtain ⟨parcels, hparcels, hdelivered⟩ := h
  obtain ⟨firsts, hfirsts, hfirstsBare⟩ := @exists_mapM_map _ _ _
    (fun a : Aggregation => a.collected host version junk a.placed) _
    (fun a => a.parts.map Index.bare) (fun ixs => ixs.map Index.bare) (o.groups.take 1)
    fun a ha => a.collected_of_delivered (hgroups a (mem_of_mem_take ha))
  obtain ⟨parcels', hparcels', hparcelsBare⟩ := @exists_mapM_map _ _ _
    (fun a : Aggregation => do
      let ix ← a.subfileIndex host version junk a.placed
      return (⟨ix, a.slack⟩ : Parcel)) _
    (fun a => (mergeIndexes a.parts).bare) (fun p => p.index.bare) (o.groups.drop 1)
    fun a ha => by
      obtain ⟨ix, hix, hbare⟩ :=
        a.subfileIndex_of_delivered (hgroups a (mem_of_mem_drop ha))
      refine ⟨⟨ix, a.slack⟩, ?_, hbare⟩
      rw [hix]
      rfl
  obtain rfl : parcels' = parcels := by
    have heq := hparcels'.symm.trans hparcels
    injection heq
  obtain ⟨news, hnews, hnewsBare⟩ := hdelivered.news
  refine ⟨firsts.flatten ++ news, ?_, ?_⟩
  · rw [collected, hfirsts, ok_bind, hparcels, ok_bind, hnews]
    rfl
  · rw [map_append, hnewsBare, parts, map_append, map_flatten, hfirstsBare,
      map_flatMap, hparcelsBare, map_map]
    rfl

theorem Output.moved_of_relocatable (h : ∀ a ∈ o.groups, Relocatable host version junk a) :
    o.Moved host := fun a ha => (h a ha).pointsAtData.relocated

theorem Output.metadata_eq (h : ∀ a ∈ o.groups, Relocatable host version junk a)
    (hsent : ∃ parcels, o.sent host version junk Aggregation.placed = .ok parcels ∧
      Deliverable host version junk parcels) :
    ∃ ix, o.metadata host version junk (fun a => a.relocated host) = o.sorted ix ∧
      ix.bare = (mergeIndexes o.parts).bare := by
  obtain ⟨parcels, hparcels, hdeliverable⟩ := hsent
  obtain ⟨ixs, hixs, hbare⟩ := o.collected_of_delivered
    (fun a ha => delivered_iff.mpr (h a ha).deliverable)
    ⟨parcels, hparcels, delivered_iff.mpr hdeliverable⟩
  refine ⟨mergeIndexes ixs, ?_, ?_⟩
  · rw [Output.metadata, o.collected_eq (o.moved_of_relocatable h), hixs]
    rfl
  · rw [bare_mergeIndexes, hbare, bare_mergeIndexes]

theorem oldestFirst_of_bare {ix ix' : Index} (h : ix.bare = ix'.bare) :
    OldestFirst ix.pgRoot ↔ OldestFirst ix'.pgRoot := by
  have hpgs : ix.pgRoot.map IndexProcessGroup.bare = ix'.pgRoot.map IndexProcessGroup.bare :=
    congrArg Index.pgRoot h
  rw [← oldestFirst_bare, hpgs, oldestFirst_bare]

theorem AllRelocatable.allPoint (h : AllRelocatable host version junk o) :
    AllPoint host version junk o := by
  have hmoved := o.moved_of_relocatable h.groups
  obtain ⟨parcels, hparcels, hdeliverable⟩ := h.deliverable
  obtain ⟨m, hm, hmerged⟩ := o.metadata_eq h.groups h.deliverable
  refine ⟨fun a ha => (h.groups a ha).pointsAtData,
    ⟨parcels, ?_, delivered_iff.mpr hdeliverable⟩, ?_⟩
  · rw [o.sent_eq hmoved]
    exact hparcels
  · rw [hm, Output.sorted]
    by_cases happend : o.append = true
    · obtain ⟨ix, hix, hsorted⟩ :=
        sortIndexV1_spec ((oldestFirst_of_bare hmerged).mpr (h.oldestFirst happend))
      rw [if_pos happend, hix]
      exact ⟨ix, rfl, (sameEntries_of_bare hmerged).trans (sameEntries_of_sorted hsorted)⟩
    · rw [if_neg happend]
      exact ⟨_, rfl, sameEntries_of_bare hmerged⟩

theorem AllPoint.allRelocatable (h : AllPoint host version junk o) :
    AllRelocatable host version junk o := by
  have hmoved : o.Moved host := fun a ha => (h.groups a ha).relocated
  have hgroups : ∀ a ∈ o.groups, Relocatable host version junk a :=
    fun a ha => (h.groups a ha).relocatable
  obtain ⟨parcels, hparcels, hdelivered⟩ := h.delivered
  rw [o.sent_eq hmoved] at hparcels
  have hdeliverable := delivered_iff.mp hdelivered
  refine ⟨hgroups, ⟨parcels, hparcels, hdeliverable⟩, fun happend => ?_⟩
  obtain ⟨m, hm, hmerged⟩ := o.metadata_eq hgroups ⟨parcels, hparcels, hdeliverable⟩
  obtain ⟨ix, hix, -⟩ := h.metadata
  rw [hm, Output.sorted, if_pos happend] at hix
  rw [← oldestFirst_of_bare hmerged, ← sortIndexV1_ok_iff]
  cases hsort : sortIndexV1 m with
  | ok ix' => exact ⟨ix', rfl⟩
  | error f =>
    rw [hsort] at hix
    cases hix

/-- **The indexes point at the data** exactly if sizes, bases and buffers fit, and no more than the
first set of an entry has to be moved. -/
theorem allPoint_iff (host : Endian) (version : Version) (junk : UInt64) (o : Output) :
    AllPoint host version junk o ↔ AllRelocatable host version junk o :=
  ⟨fun h => h.allRelocatable, fun h => h.allPoint⟩

end

/-! ## A variable that is written twice -/

def twiceVar : IndexEntry where
  id := 1
  groupName := CString.empty
  name := CString.empty
  path := CString.empty
  type := .double
  characteristics :=
    [{ IndexCharacteristic.zero with offset := 30, payloadOffset := 40, timeIndex := 1 },
      { IndexCharacteristic.zero with offset := 60, payloadOffset := 70, timeIndex := 1 }]

def twiceIndex : Index where
  pgRoot :=
    [{ groupName := CString.empty, hostLanguageFortran := .no, processId := 0
       timeIndexName := none, timeIndex := 1, offsetInFile := 0 }]
  varsRoot := [twiceVar]
  attrsRoot := []

theorem twiceIndex_written (e : IndexEntry) (he : e ∈ twiceIndex.varsRoot ++ twiceIndex.attrsRoot) :
    e.characteristics ≠ [] := by
  obtain rfl : e = twiceVar := mem_singleton.mp he
  exact cons_ne_nil _ _

def twiceWriter : Writer where
  bytesWritten := 100
  index := twiceIndex
  slack := []
  hasGroup := cons_ne_nil _ _
  written := twiceIndex_written

def twiceOutput : Output where
  groups :=
    [{ base := 0, old := ⟨[], [], []⟩, writers := [twiceWriter, twiceWriter], slack := []
       nonempty := cons_ne_nil _ _, oldOnce := ⟨nodup_nil, nodup_nil⟩
       fits := by decide }]
  append := false

theorem not_allPoint_twiceOutput :
    ¬AllPoint .little ⟨chars "1.9.0", 1, 9, 0⟩ 0 twiceOutput := fun h => by
  have hgroup := (h.groups _ mem_cons_self).relocatable
  rcases hgroup.single twiceWriter 1 rfl with hrank | hstart | hone
  · exact absurd hrank (by decide)
  · exact absurd hstart (by decide)
  · exact absurd (hone _ (mem_append_left _ mem_cons_self)) (by decide)

end Adios.Amr
