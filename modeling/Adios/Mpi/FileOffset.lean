import Adios.Amr.Relocation
import Adios.Index.Keeps
import Mathlib.Algebra.Ring.Nat

/-!
# MPI — where the processes write

`adios_mpi_build_file_offset` of `write/adios_mpi.c`: rank 0 gathers what each process is going to
write, makes the sizes into offsets in their own array and scatters them. At the close every process
writes its buffer to its offset, and rank 0 the index of all of them behind the last one. The base
is zero for a new file and the end of the old process groups otherwise.
-/

namespace Adios.Mpi

open List Wire Lists UInt64
open Amr (Failure GatherFits IndexGather Separated fileWrites gatherIndexes rebase)
open Bpmeta (OneGroup)

/-- "`for (i = 1; i < md->size; i++)`", with `offsets` and `last_offset`. -/
def offsetsFrom : Nat → Nat → List UInt64 → UInt64 → List UInt64 × UInt64
  | 0, _, offsets, lastOffset => (offsets, lastOffset)
  | rounds + 1, i, offsets, lastOffset =>
    let thisOffset := offsets.getD i 0
    offsetsFrom rounds (i + 1) (offsets.set i (offsets.getD (i - 1) 0 + lastOffset)) thisOffset

/-- What rank 0 scatters, and its `md->b.pg_index_offset`. -/
def scatteredOffsets (baseOffset : UInt64) (sizes : List UInt64) : List UInt64 × UInt64 :=
  let lastOffset := sizes.getD 0 0
  let (offsets, lastOffset) := offsetsFrom (sizes.length - 1) 1 (sizes.set 0 baseOffset) lastOffset
  (offsets, offsets.getD (sizes.length - 1) 0 + lastOffset)

/-! ## The processes -/

structure Process where
  /-- `fd->write_size_bytes` -/
  writeSizeBytes : UInt64
  /-- The `bytes_written` bytes of `fd->buffer`. -/
  buffer : List UInt8
  /-- The index that `adios_build_index_v1` makes with a `base_offset` of zero. -/
  index : Index
  /-- Where a buffer "exceeds pg bound" the library reports that the file is corrupted. -/
  bound : buffer.length ≤ writeSizeBytes.toNat

structure Output where
  /-- `md->group_comm != MPI_COMM_NULL` -/
  comm : Bool
  /-- `fd->base_offset` of rank 0. -/
  base : UInt64
  /-- The index that the file has had. -/
  old : Index
  processes : List Process
  nonempty : processes ≠ []
  /-- A process on its own. An append needs the communicator for its broadcasts. -/
  alone : comm = false → processes.length = 1 ∧ base = 0
  /-- The data end where an `MPI_Offset` can be. -/
  fits : base.toNat + (processes.map fun p => p.writeSizeBytes.toNat).sum < 9223372036854775808
  /-- An index in a file has one entry for each path and name. -/
  oldOnce : old.Once

namespace Output

variable (host : Endian) (version : Version) (junk : UInt64) (o : Output)

def sizes : List UInt64 := o.processes.map Process.writeSizeBytes

/-- `adios_mpi_build_file_offset`: the `base_offset` of each process, and the `pg_index_offset` of
rank 0. -/
def buildFileOffset : List UInt64 × UInt64 :=
  if o.comm then scatteredOffsets o.base o.sizes else ([o.base], o.sizes.getD 0 0)

/-- The writes of a process at the close, which are not longer than `MAX_MPIWRITE_SIZE`. -/
def dataWrites (baseOffset : UInt64) (buffer : List UInt8) : List (Heap.Write UInt8) :=
  if buffer = [] then [] else fileWrites baseOffset.toNat buffer

def writes (footer : List UInt8) : List (Heap.Write UInt8) :=
  (o.processes.zip o.buildFileOffset.1).flatMap (fun p => dataWrites p.2 p.1.buffer) ++
    dataWrites o.buildFileOffset.2 footer

/-! ## The index -/

/-- The indexes that the processes build; `fd->base_offset` is in each `write_offset`. -/
def built : List Index := (o.processes.zip o.buildFileOffset.1).map fun p => rebase p.2 p.1.index

/-- "do not merge attributes from other processes from 1.4" -/
def parseOther : Parser Fault Index := do
  let pgRoot ← parseProcessGroupIndexV1 ⟨host, false, junk⟩
  let varsRoot ← parseVarsIndexV1 ⟨host, false, junk⟩
  return { pgRoot, varsRoot, attrsRoot := [] }

def parseSegment (segment : List UInt8) : Except Failure Index :=
  match parseOther host junk segment with
  | .ok (ix, _) => .ok ix
  | .error f => .error (.fault f)

def imageOf (ix : Index) : Except Failure (List UInt8) :=
  match ix.image host version with
  | .ok bytes => .ok bytes
  | .error f => .error (.fault f)

/-- The index at rank 0. The size of an index goes through a `uint32_t`, so that its low bytes are
what `MPI_INT` takes on any host. -/
def mergedIndex : Except Failure Index := do
  let bufs ← (o.built.drop 1).mapM (imageOf host version)
  let g ← gatherIndexes .little bufs
  let news ← g.places.mapM fun place => parseSegment host junk (g.segment place)
  return mergeIndexes (o.old :: o.built.take 1 ++ news)

end Output

/-! ## What is asked of the file -/

namespace Output

variable (o : Output)

def start (i : Nat) : Nat :=
  o.base.toNat + ((o.processes.take i).map fun p => p.writeSizeBytes.toNat).sum

def placed : List Index :=
  o.processes.zipIdx.map fun p => rebase (UInt64.ofNat (o.start p.2)) p.1.index

def withoutAttrs (ix : Index) : Index := { ix with attrsRoot := [] }

def parts : List Index := o.old :: o.placed.take 1 ++ (o.placed.drop 1).map withoutAttrs

def ReadsBack (host : Endian) (junk : UInt64) (buf : List UInt8) (ix : Index) : Prop :=
  ∃ ix', parseSegment host junk buf = .ok ix' ∧ ix'.bare = (withoutAttrs ix).bare

end Output

structure Regions (o : Output) : Prop where
  starts : o.buildFileOffset.1.map UInt64.toNat = (List.range o.processes.length).map o.start
  disjoint (i j : Nat) (p : Process) (h : i < j) (hp : o.processes[i]? = some p) :
    o.start i + p.writeSizeBytes.toNat ≤ o.start j
  covered (a : Nat) : (∃ i p, o.processes[i]? = some p ∧ o.start i ≤ a ∧
      a < o.start i + p.writeSizeBytes.toNat) ↔
    o.base.toNat ≤ a ∧ a < o.start o.processes.length
  indexStart : o.buildFileOffset.2.toNat = o.start o.processes.length
  /-- Whatever the order of the writes, nothing of the old process groups is overwritten, and the
  data of each process are in its region. -/
  written (footer : List UInt8) (ws : List (Heap.Write UInt8)) (file : Int → UInt8)
    (h : ws.Perm (o.writes footer)) :
    (∀ a : Int, a < o.base.toNat → Heap.writeAll file ws a = file a) ∧
      ∀ i p, o.processes[i]? = some p → ∀ k : Nat, k < p.buffer.length →
        some (Heap.writeAll file ws (o.start i + k)) = p.buffer[k]?

structure Indexed (host : Endian) (version : Version) (junk : UInt64) (o : Output) : Prop where
  /-- The index of each other process is parsed from its own bytes, with its places. -/
  delivered : ∃ bufs g, (o.built.drop 1).mapM (Output.imageOf host version) = .ok bufs ∧
    gatherIndexes .little bufs = .ok g ∧ Separated bufs g ∧
    Forall₂ (fun place ix => Output.ReadsBack host junk (g.segment place) ix) g.places
      (o.placed.drop 1)
  index : ∃ ix, o.mergedIndex host version junk = .ok ix ∧ Keeps o.parts ix

structure Fitting (host : Endian) (version : Version) (junk : UInt64) (o : Output) : Prop where
  sent : ∃ bufs, (o.placed.drop 1).mapM (Output.imageOf host version) = .ok bufs ∧
    GatherFits .little bufs ∧
    Forall₂ (fun buf ix => Output.ReadsBack host junk buf ix) bufs (o.placed.drop 1)
  groups : OneGroup (o.parts.flatMap Index.varsRoot)

def offsetsAfter (offset : UInt64) : List UInt64 → List UInt64
  | [] => []
  | size :: sizes => offset :: offsetsAfter (offset + size) sizes

theorem offsetsFrom_eq (sizes done : List UInt64) (offset lastOffset : UInt64) :
    (offsetsFrom sizes.length (done.length + 1) (done ++ offset :: sizes) lastOffset).1 =
      done ++ offset :: offsetsAfter (offset + lastOffset) sizes ∧
    (offsetsFrom sizes.length (done.length + 1) (done ++ offset :: sizes) lastOffset).1.getD
        (done.length + sizes.length) 0 +
      (offsetsFrom sizes.length (done.length + 1) (done ++ offset :: sizes) lastOffset).2 =
      sizes.foldl (· + ·) (offset + lastOffset) := by
  induction sizes generalizing done offset lastOffset with
  | nil =>
    refine ⟨rfl, ?_⟩
    show (done ++ [offset]).getD (done.length + 0) 0 + lastOffset = offset + lastOffset
    rw [getD_eq_getElem?_getD, Nat.add_zero, getElem?_concat_length]
    rfl
  | cons size sizes ih =>
    have hthis : (done ++ offset :: size :: sizes).getD (done.length + 1) 0 = size := by
      rw [getD_eq_getElem?_getD, getElem?_append_right (by omega), Nat.add_sub_cancel_left]
      rfl
    have hbefore : (done ++ offset :: size :: sizes).getD (done.length + 1 - 1) 0 = offset := by
      rw [getD_eq_getElem?_getD, Nat.add_sub_cancel, getElem?_append_right (by omega), Nat.sub_self]
      rfl
    have hset : (done ++ offset :: size :: sizes).set (done.length + 1) (offset + lastOffset) =
        (done ++ [offset]) ++ (offset + lastOffset) :: sizes := by
      rw [set_append_right _ _ (by omega), Nat.add_sub_cancel_left, append_assoc]
      rfl
    have hlen : (done ++ [offset]).length = done.length + 1 := length_append
    have hrest := ih (done ++ [offset]) (offset + lastOffset) size
    rw [hlen] at hrest
    have hstep : offsetsFrom (size :: sizes).length (done.length + 1)
        (done ++ offset :: size :: sizes) lastOffset =
        offsetsFrom sizes.length (done.length + 1 + 1)
          ((done ++ [offset]) ++ (offset + lastOffset) :: sizes) size := by
      rw [length_cons, offsetsFrom, hthis, hbefore, hset]
    rw [hstep]
    refine ⟨?_, ?_⟩
    · rw [hrest.1, append_assoc]
      rfl
    · have hcount : done.length + (size :: sizes).length = done.length + 1 + sizes.length := by
        rw [length_cons]
        omega
      rw [hcount, hrest.2]
      rfl

theorem scatteredOffsets_eq (baseOffset : UInt64) {sizes : List UInt64} (h : sizes ≠ []) :
    scatteredOffsets baseOffset sizes =
      (offsetsAfter baseOffset sizes, sizes.foldl (· + ·) baseOffset) := by
  match sizes, h with
  | size :: sizes, _ =>
    obtain ⟨hoffsets, htotal⟩ := offsetsFrom_eq sizes [] baseOffset size
    rw [nil_append] at hoffsets htotal
    rw [length_nil, Nat.zero_add sizes.length] at htotal
    exact Prod.ext hoffsets htotal

/-! ## Sums -/

section

variable (sizes : List UInt64) (offset : UInt64)
  (h : offset.toNat + (sizes.map UInt64.toNat).sum < 18446744073709551616)

include sizes offset h

theorem map_toNat_offsetsAfter :
    (offsetsAfter offset sizes).map UInt64.toNat =
      (List.range sizes.length).map fun i =>
        offset.toNat + ((sizes.take i).map UInt64.toNat).sum := by
  induction sizes generalizing offset with
  | nil => rfl
  | cons size sizes ih =>
    rw [map_cons, sum_cons] at h
    have hadd : (offset + size).toNat = offset.toNat + size.toNat := by
      rw [UInt64.toNat_add]
      omega
    have hrest := ih (offset + size) (by omega)
    rw [offsetsAfter, map_cons, hrest, hadd, length_cons, range_succ_eq_map, map_cons, map_map]
    congr 1
    refine map_congr_left fun i _ => ?_
    show offset.toNat + size.toNat + ((sizes.take i).map UInt64.toNat).sum =
      offset.toNat + (((size :: sizes).take (i + 1)).map UInt64.toNat).sum
    rw [take_succ_cons, map_cons, sum_cons, Nat.add_assoc]

theorem toNat_foldl :
    (sizes.foldl (· + ·) offset).toNat = offset.toNat + (sizes.map UInt64.toNat).sum := by
  induction sizes generalizing offset with
  | nil => rfl
  | cons size sizes ih =>
    rw [map_cons, sum_cons] at h ⊢
    have hadd : (offset + size).toNat = offset.toNat + size.toNat := by
      rw [UInt64.toNat_add]
      omega
    rw [foldl_cons, ih (offset + size) (by omega), hadd, Nat.add_assoc]

end

section

variable (ls : List Nat)

theorem sum_take_succ {i l : Nat} (h : ls[i]? = some l) :
    (ls.take (i + 1)).sum = (ls.take i).sum + l := by
  rw [take_add_one, h, sum_append]
  rfl

theorem sum_take_mono {i j : Nat} (h : i ≤ j) : (ls.take i).sum ≤ (ls.take j).sum := by
  have hsplit : ls.take i ++ (ls.take j).drop i = ls.take j := by
    have htake : ls.take i = (ls.take j).take i := by rw [take_take, Nat.min_eq_left h]
    rw [htake, take_append_drop]
  rw [← hsplit, sum_append]
  exact Nat.le_add_right _ _

theorem exists_section (b a : Nat) : (∃ i l, ls[i]? = some l ∧ b + (ls.take i).sum ≤ a ∧
    a < b + (ls.take i).sum + l) ↔ b ≤ a ∧ a < b + ls.sum := by
  induction ls generalizing b with
  | nil =>
    constructor
    · rintro ⟨i, l, hi, -⟩
      cases hi
    · rintro ⟨hle, hlt⟩
      exact absurd hlt (Nat.not_lt.mpr hle)
  | cons l ls ih =>
    have hrest := ih (b + l)
    rw [sum_cons]
    constructor
    · rintro ⟨i, l', hi, hle, hlt⟩
      match i with
      | 0 =>
        injection hi with hi
        rw [take_zero, sum_nil] at hle hlt
        omega
      | i + 1 =>
        rw [take_succ_cons, sum_cons] at hle hlt
        have hin := hrest.mp ⟨i, l', hi, by omega, by omega⟩
        omega
    · rintro ⟨hle, hlt⟩
      by_cases hfirst : a < b + l
      · exact ⟨0, l, rfl, hle, hfirst⟩
      · obtain ⟨i, l', hi, hle', hlt'⟩ := hrest.mpr ⟨by omega, by omega⟩
        refine ⟨i + 1, l', hi, ?_, ?_⟩
        · rw [take_succ_cons, sum_cons]
          omega
        · rw [take_succ_cons, sum_cons]
          omega

end

/-! ## The regions -/

section

variable (o : Output)

def Output.lengths : List Nat := o.processes.map fun p => p.writeSizeBytes.toNat

theorem Output.start_eq (i : Nat) : o.start i = o.base.toNat + (o.lengths.take i).sum := by
  rw [start, lengths, map_take]

theorem Output.start_all : o.start o.processes.length = o.base.toNat + o.lengths.sum := by
  rw [start, take_length, lengths]

theorem Output.map_sizes : o.sizes.map UInt64.toNat = o.lengths := map_map

theorem Output.getElem?_lengths {i : Nat} {p : Process} (h : o.processes[i]? = some p) :
    o.lengths[i]? = some p.writeSizeBytes.toNat := by
  rw [lengths, getElem?_map, h]
  rfl

theorem Output.start_succ {i : Nat} {p : Process} (h : o.processes[i]? = some p) :
    o.start (i + 1) = o.start i + p.writeSizeBytes.toNat := by
  rw [o.start_eq, o.start_eq, sum_take_succ _ (o.getElem?_lengths h), Nat.add_assoc]

theorem Output.start_mono {i j : Nat} (h : i ≤ j) : o.start i ≤ o.start j := by
  rw [o.start_eq, o.start_eq]
  exact Nat.add_le_add_left (sum_take_mono _ h) _

theorem Output.start_lt (i : Nat) : o.start i < 9223372036854775808 := by
  have hfits := o.fits
  have hle : (o.lengths.take i).sum ≤ o.lengths.sum := by
    by_cases hi : i ≤ o.lengths.length
    · have hmono := sum_take_mono o.lengths hi
      rw [take_length] at hmono
      exact hmono
    · rw [take_of_length_le (by omega)]
  have hsum : (o.processes.map fun p => p.writeSizeBytes.toNat).sum = o.lengths.sum := rfl
  rw [o.start_eq]
  omega

theorem Output.buildFileOffset_eq :
    o.buildFileOffset.1.map UInt64.toNat = (List.range o.processes.length).map o.start ∧
      o.buildFileOffset.2.toNat = o.start o.processes.length := by
  have hfits : o.base.toNat + (o.sizes.map UInt64.toNat).sum < 9223372036854775808 := by
    rw [o.map_sizes]
    exact o.fits
  cases hcomm : o.comm with
  | true =>
    have hne : o.sizes ≠ [] := fun h => o.nonempty (map_eq_nil_iff.mp h)
    have hbuild : o.buildFileOffset = scatteredOffsets o.base o.sizes := by
      rw [buildFileOffset, if_pos hcomm]
    have hlen : o.sizes.length = o.processes.length := length_map _
    rw [hbuild, scatteredOffsets_eq _ hne]
    refine ⟨?_, ?_⟩
    · rw [map_toNat_offsetsAfter _ _ (by omega), hlen]
      refine map_congr_left fun i _ => ?_
      rw [o.start_eq, ← o.map_sizes, map_take]
    · rw [toNat_foldl _ _ (by omega), o.start_all, o.map_sizes]
  | false =>
    obtain ⟨hone, hbase⟩ := o.alone hcomm
    obtain ⟨p, hp⟩ := length_eq_one_iff.mp hone
    have hbuild : o.buildFileOffset = ([o.base], p.writeSizeBytes) := by
      rw [buildFileOffset, hcomm, sizes, hp]
      rfl
    have hstarts : (List.range o.processes.length).map o.start = [o.base.toNat] := by
      rw [hp]
      rfl
    have htotal : o.start o.processes.length = p.writeSizeBytes.toNat := by
      rw [o.start_all, lengths, hp, hbase]
      show 0 + (p.writeSizeBytes.toNat + 0) = p.writeSizeBytes.toNat
      omega
    rw [hbuild, hstarts, htotal]
    exact ⟨rfl, rfl⟩

theorem Output.getElem?_offsets {i : Nat} (h : i < o.processes.length) :
    o.buildFileOffset.1[i]? = some (UInt64.ofNat (o.start i)) := by
  have hmap := congrArg (fun xs => xs[i]?) o.buildFileOffset_eq.1
  rw [getElem?_map, getElem?_map, getElem?_range h] at hmap
  obtain ⟨x, hx, hstart⟩ := Option.map_eq_some_iff.mp hmap
  rw [hx, ← hstart, UInt64.ofNat_toNat]

theorem Output.getElem?_zip_offsets (i : Nat) :
    (o.processes.zip o.buildFileOffset.1)[i]? =
      o.processes[i]?.map fun p => (p, UInt64.ofNat (o.start i)) := by
  cases hp : o.processes[i]? with
  | none =>
    have hle := List.getElem?_eq_none_iff.mp hp
    rw [List.getElem?_eq_none_iff.mpr]
    · rfl
    · rw [length_zip]
      omega
  | some p =>
    have hlt := (List.getElem?_eq_some_iff.mp hp).1
    exact getElem?_zip_eq_some.mpr ⟨hp, o.getElem?_offsets hlt⟩

theorem Output.laid_dataWrites (baseOffset : UInt64) (buffer : List UInt8) :
    Heap.Laid baseOffset.toNat buffer (dataWrites baseOffset buffer) := by
  unfold dataWrites
  split_ifs with hempty
  · rw [hempty]
    exact .nil _
  · exact Amr.laid_fileWrites _ _

theorem Output.toNat_start (i : Nat) : (UInt64.ofNat (o.start i)).toNat = o.start i := by
  have hlt := o.start_lt i
  have hsize : o.start i < 18446744073709551616 := by omega
  exact toNat_ofNat_of_lt' hsize

theorem Output.mem_writes {footer : List UInt8} {w : Heap.Write UInt8} :
    w ∈ o.writes footer ↔
      (∃ i p, o.processes[i]? = some p ∧ w ∈ dataWrites (UInt64.ofNat (o.start i)) p.buffer) ∨
        w ∈ dataWrites o.buildFileOffset.2 footer := by
  rw [writes, mem_append, mem_flatMap]
  refine or_congr_left ⟨?_, ?_⟩
  · rintro ⟨⟨p, offset⟩, hmem, hw⟩
    obtain ⟨i, hi⟩ := mem_iff_getElem?.mp hmem
    rw [o.getElem?_zip_offsets] at hi
    obtain ⟨p', hp', heq⟩ := Option.map_eq_some_iff.mp hi
    injection heq with hpp hoffset
    subst hpp hoffset
    exact ⟨i, p', hp', hw⟩
  · rintro ⟨i, p, hp, hw⟩
    refine ⟨(p, UInt64.ofNat (o.start i)), mem_iff_getElem?.mpr ⟨i, ?_⟩, hw⟩
    rw [o.getElem?_zip_offsets, hp]
    rfl

theorem Output.cellAt_writes {footer : List UInt8} {w : Heap.Write UInt8} {a : Int} {b : UInt8}
    (hw : w ∈ o.writes footer) (h : w.cellAt a = some b) :
    (∃ i p, o.processes[i]? = some p ∧ w ∈ dataWrites (UInt64.ofNat (o.start i)) p.buffer ∧
      (o.start i : Int) ≤ a ∧ a < o.start i + p.buffer.length) ∨
    (o.start o.processes.length : Int) ≤ a := by
  rcases o.mem_writes.mp hw with ⟨i, p, hp, hw⟩ | hw
  · have hlaid := laid_dataWrites (UInt64.ofNat (o.start i)) p.buffer
    rw [o.toNat_start] at hlaid
    refine Or.inl ⟨i, p, hp, hw, ?_⟩
    by_contra hout
    have hnone := hlaid.cellAt_eq_none (i := a) (by omega) w hw
    rw [hnone] at h
    cases h
  · have hlaid := laid_dataWrites o.buildFileOffset.2 footer
    rw [o.buildFileOffset_eq.2] at hlaid
    refine Or.inr ?_
    by_contra hout
    have hnone := hlaid.cellAt_eq_none (i := a) (by omega) w hw
    rw [hnone] at h
    cases h

theorem Output.regions : Regions o := by
  have hend : ∀ i p, o.processes[i]? = some p →
      o.start i + p.writeSizeBytes.toNat ≤ o.start o.processes.length := fun i p hp => by
    rw [← o.start_succ hp]
    exact o.start_mono (List.getElem?_eq_some_iff.mp hp).1
  have hbase : ∀ i, o.base.toNat ≤ o.start i := fun i => by
    rw [o.start_eq]
    exact Nat.le_add_right _ _
  refine ⟨o.buildFileOffset_eq.1, fun i j p hij hp => ?_, fun a => ?_, o.buildFileOffset_eq.2,
    fun footer ws file hperm => ⟨fun a ha => ?_, fun i p hp k hk => ?_⟩⟩
  · rw [← o.start_succ hp]
    exact o.start_mono hij
  · rw [o.start_all, ← exists_section o.lengths]
    constructor
    · rintro ⟨i, p, hp, hle, hlt⟩
      rw [o.start_eq] at hle hlt
      exact ⟨i, _, o.getElem?_lengths hp, hle, hlt⟩
    · rintro ⟨i, l, hl, hle, hlt⟩
      rw [lengths, getElem?_map] at hl
      obtain ⟨p, hp, rfl⟩ := Option.map_eq_some_iff.mp hl
      refine ⟨i, p, hp, ?_⟩
      rw [o.start_eq]
      exact ⟨hle, hlt⟩
  · -- no region and no index is before the base
    refine Heap.writeAll_of_none fun w hw => ?_
    cases hcell : w.cellAt a with
    | none => rfl
    | some b =>
      rcases o.cellAt_writes (hperm.mem_iff.mp hw) hcell with ⟨i, p, -, -, hle, -⟩ | hle
      · have hi := hbase i
        omega
      · have hi := hbase o.processes.length
        omega
  · have hlaid := laid_dataWrites (UInt64.ofNat (o.start i)) p.buffer
    rw [o.toNat_start] at hlaid
    have hbuf := p.bound
    have hin := hend i p hp
    rw [getElem?_eq_getElem hk]
    congr 1
    obtain ⟨⟨w, hw, hcell⟩, hown⟩ := hlaid.cellAt_add hk
    refine Heap.writeAll_of_agree ⟨w, ?_, hcell⟩ fun v hv b hb => ?_
    · exact hperm.mem_iff.mpr (o.mem_writes.mpr (Or.inl ⟨i, p, hp, hw⟩))
    · rcases o.cellAt_writes (hperm.mem_iff.mp hv) hb with ⟨j, q, hq, hv', hle, hlt⟩ | hle
      · -- the regions of other processes end before this one or begin behind it
        have hbufq := q.bound
        rcases Nat.lt_trichotomy i j with hij | rfl | hij
        · have hnext := o.start_mono hij
          rw [o.start_succ hp] at hnext
          omega
        · obtain rfl : q = p := Option.some.inj (hq.symm.trans hp)
          exact hown v hv' b hb
        · have hnext := o.start_mono hij
          rw [o.start_succ hq] at hnext
          omega
      · omega

end

/-! ## The index -/

section

variable {host : Endian} {version : Version} {junk : UInt64} {o : Output}

theorem Output.built_eq (o : Output) : o.built = o.placed := by
  refine ext_getElem? fun i => ?_
  rw [built, placed, getElem?_map, getElem?_map, o.getElem?_zip_offsets,
    getElem?_zipIdx, Option.map_map, Option.map_map, Nat.zero_add]
  rfl

theorem Fitting.indexed (h : Fitting host version junk o) : Indexed host version junk o := by
  obtain ⟨bufs, hbufs, hfits, hread⟩ := h.sent
  obtain ⟨g, hg, hsep⟩ := hfits.gather
  have hsegments := (hsep.forall₂_iff (o.placed.drop 1)).mpr hread
  obtain ⟨news, hnews, hbare⟩ := @exists_mapM_of_forall₂ _ _ _
    (fun place => Output.parseSegment host junk (g.segment place)) _ _
    (fun ix => (Output.withoutAttrs ix).bare) Index.bare _ _ hsegments
  refine ⟨⟨bufs, g, ?_, hg, hsep, hsegments⟩, mergeIndexes (o.old :: o.placed.take 1 ++ news), ?_,
    keeps_of_bare h.groups ?_⟩
  · rw [o.built_eq]
    exact hbufs
  · rw [Output.mergedIndex, o.built_eq, hbufs, ok_bind, hg, ok_bind, hnews]
    rfl
  · rw [bare_mergeIndexes, bare_mergeIndexes, Output.parts, map_append, map_append, hbare, map_map]
    rfl

theorem Indexed.fitting (h : Indexed host version junk o) : Fitting host version junk o := by
  obtain ⟨bufs, g, hbufs, hg, hsep, hsegments⟩ := h.delivered
  obtain ⟨ix, -, hkeeps⟩ := h.index
  rw [o.built_eq] at hbufs
  exact ⟨⟨bufs, hbufs, (Amr.gather_iff .little bufs).mp ⟨g, hg, hsep⟩,
    (hsep.forall₂_iff (o.placed.drop 1)).mp hsegments⟩, hkeeps.oneGroup⟩

/-- **The regions** of the processes are disjoint for all sizes, and the index has everything at
its place exactly if the indexes of the other processes come through and no variable is refused. -/
theorem regions_and_indexed_iff (host : Endian) (version : Version) (junk : UInt64) (o : Output) :
    Regions o ∧ (Indexed host version junk o ↔ Fitting host version junk o) :=
  ⟨o.regions, fun h => h.fitting, fun h => h.indexed⟩

end

def groupVar (groupName : CString) : IndexEntry where
  id := 1
  groupName := groupName
  name := CString.empty
  path := CString.empty
  type := .double
  characteristics :=
    [{ IndexCharacteristic.zero with offset := 30, payloadOffset := 40, timeIndex := 1 }]

def secondGroup : Output where
  comm := true
  base := 100
  old := ⟨[], [groupVar CString.empty], []⟩
  processes := [⟨50, [], ⟨[], [groupVar (CString.ofBuffer (chars "g"))], []⟩, Nat.zero_le _⟩]
  nonempty := cons_ne_nil _ _
  alone := fun h => by cases h
  fits := by decide
  oldOnce := ⟨nodup_singleton _, nodup_nil⟩

/-- Its variable is in no entry of the index. -/
theorem not_indexed_secondGroup : ¬Indexed .little ⟨chars "1.9.0", 1, 9, 0⟩ 0 secondGroup :=
  fun h => by
    have hgroups := h.fitting.groups
    have hsame : CString.empty = CString.ofBuffer (chars "g") :=
      hgroups (groupVar CString.empty) mem_cons_self
        (Amr.addToAll (UInt64.ofNat (secondGroup.start 0))
        (groupVar (CString.ofBuffer (chars "g"))))
        (mem_cons_of_mem (groupVar CString.empty) (mem_singleton_self _)) rfl
    exact absurd hsame (by decide)

end Adios.Mpi
