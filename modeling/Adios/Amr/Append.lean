import Adios.Amr.Relocation
import Adios.Lists.Shares
import Adios.Utils.BpmetaComplete

/-!
# MPI_AMR — appending to subfiles

One run of the output, from `adios_open` to the close: each process finds its group, the aggregator
of a group opens the subfile of its number and goes on behind what is there, and the metadata file
is made anew of what the aggregators hold. What is on the disk is what the next run finds.
-/

namespace Adios.Amr

open List Wire Lists Runs

/-- `md->g_num_aggregators`; "no aggregation" unless the number is one of the processes. -/
def aggregatorCount (nproc : Nat) (gNumAggregators : Int) : Nat :=
  if gNumAggregators > nproc ∨ gNumAggregators ≤ 0 then nproc else gNumAggregators.toNat

/-- `md->g_color1` -/
def color1 (nproc aggregators rank : Nat) : Nat :=
  let aggrGroupSize := nproc / aggregators
  let remain := nproc - aggrGroupSize * aggregators
  if remain = 0 then rank / aggrGroupSize
  else if rank < (aggrGroupSize + 1) * remain then rank / (aggrGroupSize + 1)
  else remain + (rank - (aggrGroupSize + 1) * remain) / aggrGroupSize

/-- The ranks that "`md->g_is_aggregator[index] = 1`" marks in the rounds of its loop. -/
def aggregatorRanks (aggrGroupSize remain : Nat) : Nat → Nat → Nat → List Nat
  | 0, _, _ => []
  | rounds + 1, i, index =>
    index :: aggregatorRanks aggrGroupSize remain rounds (i + 1)
      (if i < remain then index + (aggrGroupSize + 1) else index + aggrGroupSize)

/-! ## A run -/

/-- What the assignments of `adios_build_index_v1` put into a set. -/
def stampSet (fileIndex timeIndex : UInt32) (c : IndexCharacteristic) : IndexCharacteristic :=
  { c with fileIndex := fileIndex, timeIndex := timeIndex }

def stampEntry (fileIndex timeIndex : UInt32) (e : IndexEntry) : IndexEntry :=
  { e with characteristics := e.characteristics.map (stampSet fileIndex timeIndex) }

/-- `fd->subfile_index` and `g->time_index` in the index that `adios_build_index_v1` makes. -/
def stamp (fileIndex timeIndex : UInt32) (ix : Index) : Index where
  pgRoot := ix.pgRoot.map fun pg => { pg with timeIndex := timeIndex }
  varsRoot := ix.varsRoot.map (stampEntry fileIndex timeIndex)
  attrsRoot := ix.attrsRoot.map (stampEntry fileIndex timeIndex)

structure Task where
  /-- The `bytes_written` bytes of `fd->buffer`: a process group has its header at least. -/
  buffer : List UInt8
  /-- The index that `adios_build_index_v1` makes of it, but for the file and the time. -/
  index : Index
  /-- What its buffer for the index has behind it. -/
  slack : List UInt8
  header : buffer ≠ []
  /-- `fd->bytes_written` is a `uint64_t`. -/
  counted : buffer.length < 18446744073709551616
  hasGroup : index.pgRoot ≠ []
  written : ∀ e ∈ index.varsRoot ++ index.attrsRoot, e.characteristics ≠ []

structure Run where
  append : Bool
  /-- What `common_adios_open` has made of `g->time_index`. -/
  opened : UInt32
  gNumAggregators : Int
  tasks : List Task
  /-- What the aggregators' buffers for the indexes of the subfiles have behind them. -/
  slack : Nat → List UInt8
  nonempty : tasks ≠ []
  /-- A rank is an `int`. -/
  ranks : tasks.length < 2147483648

namespace Run

variable (r : Run)

def aggregators : Nat := aggregatorCount r.tasks.length r.gNumAggregators

/-- `md->g_comm1` of a color: "`MPI_Comm_split (md->group_comm, md->g_color1, md->rank, …)`" -/
def members (color : Nat) : List Task :=
  (r.tasks.zipIdx.filter fun t => color1 r.tasks.length r.aggregators t.2 = color).map Prod.fst

end Run

/-! ## The disk -/

structure Subfile where
  bytes : Int → UInt8
  endOfPgs : UInt64
  index : Index

structure Disk where
  subfiles : Nat → Option Subfile
  metadata : Option Index

section

variable (host : Endian) (version : Version) (junk : UInt64)

def reread (ix : Index) : Except Failure Index :=
  match ix.image host version with
  | .ok bytes => parseSegment host junk bytes
  | .error f => .error (.fault f)

/-- "find the largest time index so we can append properly" -/
def maxTimeIndex (pgRoot : List IndexProcessGroup) : UInt32 :=
  pgRoot.foldl (fun max p => if p.timeIndex > max then p.timeIndex else max) 0

structure Opening where
  base : UInt64
  old : Index
  timeIndex : UInt32

/-- A file that is opened for the first time: `fd->base_offset = 0`, and `g->time_index` stays as
it is. -/
def Run.newFile (r : Run) : Opening := ⟨0, ⟨[], [], []⟩, r.opened⟩

/-- `adios_mpi_amr_do_open_thread` and `adios_mpi_amr_do_reopen_thread`. The time index and the end
of the process groups go to the members of the group with `MPI_Bcast (…, md->g_comm1)`. -/
def Run.openSubfile (r : Run) : Option Subfile → Except Failure Opening
  | none => .ok r.newFile
  | some s =>
    if r.append then do
      let old ← reread host version junk s.index
      return ⟨s.endOfPgs, old, maxTimeIndex old.pgRoot + 1⟩
    else .ok r.newFile

def Run.bytesBefore (r : Run) : Option Subfile → Int → UInt8
  | none => fun _ => 0
  | some s => if r.append then s.bytes else fun _ => 0

def Task.writer (t : Task) (fileIndex timeIndex : UInt32) : Writer where
  bytesWritten := UInt64.ofNat t.buffer.length
  index := stamp fileIndex timeIndex t.index
  slack := t.slack
  hasGroup := fun h => t.hasGroup (map_eq_nil_iff.mp h)
  written := fun e he => by
    have hall :
        e ∈ (t.index.varsRoot ++ t.index.attrsRoot).map (stampEntry fileIndex timeIndex) := by
      rw [map_append]
      exact he
    obtain ⟨e', he', rfl⟩ := mem_map.mp hall
    exact fun h => t.written e' he' (map_eq_nil_iff.mp h)

structure Opened (disk : Disk) (r : Run) (o : Output) : Prop where
  append : o.append = r.append
  count : o.groups.length = r.aggregators
  group (c : Nat) (a : Aggregation) (h : o.groups[c]? = some a) :
    ∃ op, r.openSubfile host version junk (disk.subfiles c) = .ok op ∧ a.base = op.base ∧
      a.old = op.old ∧ a.slack = r.slack c ∧
      a.writers = (r.members c).map fun t => t.writer (UInt32.ofNat c) op.timeIndex

structure Closed (r : Run) (c : Nat) (before : Option Subfile) (a : Aggregation)
    (after : Subfile) : Prop where
  data : ∃ (g : Group) (eager : Nat → Nat → Bool) (net : Network Nat Member (List UInt8))
      (footer : List UInt8) (file : List (Heap.Write UInt8)),
    after.index.image host version = .ok footer ∧ g.buffers = (r.members c).map Task.buffer ∧
      g.base = a.base ∧ g.index = [] ∧
    Runs.Reaches (Network.Moves (brigade g eager)) g.start net ∧
    Ended (Network.Moves (brigade g eager)) net ∧
    stripingUnitWrite (net.procs 0).written (UInt64.ofInt (-1)) footer
      (UInt64.ofNat footer.length) = .ok file ∧
    after.bytes = Heap.writeAll (r.bytesBefore before) file
  endOfPgs : ∃ disp total, displacements 0 a.pgSizes = .ok (disp, total) ∧
    after.endOfPgs = a.indexStart total
  index : a.subfileIndex host version junk (a.relocated host) = .ok after.index

structure Ends (disk : Disk) (r : Run) (o : Output) (disk' : Disk) : Prop where
  opened : Opened host version junk disk r o
  closed (c : Nat) (a : Aggregation) (h : o.groups[c]? = some a) :
    ∃ s, disk'.subfiles c = some s ∧ Closed host version junk r c (disk.subfiles c) a s
  others (c : Nat) (h : r.aggregators ≤ c) : disk'.subfiles c = disk.subfiles c
  metadata : ∃ ix bytes, o.metadata host version junk (fun a => a.relocated host) = .ok ix ∧
    ix.image host version = .ok bytes ∧ disk'.metadata = some ix

end

/-! ## What is asked of a run -/

structure Block where
  file : Nat
  start : Nat
  buffer : List UInt8
  index : Index

def Block.placed (b : Block) : Index := rebase (UInt64.ofNat b.start) b.index

def Run.groupBlocks (r : Run) (c : Nat) (a : Aggregation) : List Block :=
  ((r.members c).zip a.writers).zipIdx.map fun t => ⟨c, a.start t.2, t.1.1.buffer, t.1.2.index⟩

def Run.blocks (r : Run) (o : Output) : List Block :=
  o.groups.zipIdx.flatMap fun g => r.groupBlocks g.2 g.1

def latest (blocks : List Block) : UInt32 := maxTimeIndex (blocks.flatMap fun b => b.index.pgRoot)

structure Block.At (b : Block) (t : UInt32) : Prop where
  pgs (pg : IndexProcessGroup) (h : pg ∈ b.index.pgRoot) : pg.timeIndex = t
  sets (e : IndexEntry) (he : e ∈ b.index.varsRoot ++ b.index.attrsRoot)
    (c : IndexCharacteristic) (hc : c ∈ e.characteristics) : c.timeIndex = t

structure Gathers (parts : List Index) (ix : Index) : Prop where
  pgs : (ix.pgRoot.map IndexProcessGroup.bare).Perm
    ((parts.flatMap Index.pgRoot).map IndexProcessGroup.bare)
  vars (v : IndexEntry) (h : v ∈ parts.flatMap Index.varsRoot) :
    ∃ e ∈ ix.varsRoot, varKey e = varKey v ∧ e.groupName = v.groupName
  varSets (e : IndexEntry) (h : e ∈ ix.varsRoot) :
    (e.characteristics.map IndexCharacteristic.bare).Perm
      ((Bpmeta.setsOf varKey (varKey e) (parts.flatMap Index.varsRoot)).map
        IndexCharacteristic.bare)
  attrs (a : IndexEntry) (h : a ∈ parts.flatMap Index.attrsRoot) :
    ∃ e ∈ ix.attrsRoot, attrKey e = attrKey a
  attrSets (e : IndexEntry) (h : e ∈ ix.attrsRoot) :
    (e.characteristics.map IndexCharacteristic.bare).Perm
      ((Bpmeta.setsOf attrKey (attrKey e) (parts.flatMap Index.attrsRoot)).map
        IndexCharacteristic.bare)
  once : ix.Once
  pgsAscending : ix.pgRoot.Pairwise fun p q => p.timeIndex ≤ q.timeIndex
  setsAscending (e : IndexEntry) (h : e ∈ ix.varsRoot ++ ix.attrsRoot) :
    e.characteristics.Pairwise fun c d => c.timeIndex ≤ d.timeIndex

structure Kept (steps : List (List Block)) (disk : Disk) : Prop where
  metadata : ∃ ix, disk.metadata = some ix ∧ Gathers (steps.flatten.map Block.placed) ix
  /-- The processes of a step have one time, which comes after those of the steps before. -/
  times (before after : List (List Block)) (step : List Block)
      (h : steps = before ++ step :: after) :
    ∃ t, (∀ b ∈ step, b.At t) ∧ (before ≠ [] → t.toNat = (latest before.flatten).toNat + 1)
  /-- The file index is the number of the subfile, and the bytes are there. -/
  numbered (b : Block) (hb : b ∈ steps.flatten) (e : IndexEntry)
    (he : e ∈ b.index.varsRoot ++ b.index.attrsRoot) (c : IndexCharacteristic)
    (hc : c ∈ e.characteristics) : c.fileIndex.toNat = b.file
  bytes (b : Block) (hb : b ∈ steps.flatten) : ∃ s, disk.subfiles b.file = some s ∧
    ∀ k : Nat, k < b.buffer.length → some (s.bytes (b.start + k)) = b.buffer[k]?

/-! ## When everything is kept -/

section

variable (host : Endian) (version : Version) (junk : UInt64)

/-- A run whose sizes and indexes fit, as in a single step; no path and name is used in two groups,
and the sets of an attribute are in the order of time, subfile after subfile. -/
structure Fits (steps : List (List Block)) (disk : Disk) (r : Run) (o : Output) : Prop where
  opened : Opened host version junk disk r o
  offsets (a : Aggregation) (h : a ∈ o.groups) :
    a.base.toNat + (a.writers.map fun w => w.bytesWritten.toNat).sum < 9223372036854775808
  groups (a : Aggregation) (h : a ∈ o.groups) : Relocatable host version junk a
  deliverable : ∃ parcels, o.sent host version junk Aggregation.placed = .ok parcels ∧
    Deliverable host version junk parcels
  /-- The indexes can be written. -/
  written (a : Aggregation) (h : a ∈ o.groups) (ix : Index)
    (hix : a.subfileIndex host version junk (a.relocated host) = .ok ix) :
    ∃ bytes, ix.image host version = .ok bytes
  metadata (ix : Index) (h : o.metadata host version junk (fun a => a.relocated host) = .ok ix) :
    ∃ bytes, ix.image host version = .ok bytes
  oneGroup : Bpmeta.OneGroup
    ((steps.flatten ++ r.blocks o).flatMap fun b => b.placed.varsRoot)
  attributes (k : List UInt8 × List UInt8 × List UInt8) :
    (Bpmeta.setsOf attrKey k (o.parts.flatMap Index.attrsRoot)).Pairwise
      fun c d => c.timeIndex ≤ d.timeIndex

/-- An append that fits: there are as many aggregators as subfiles, whose indexes come back from
their bytes. With more aggregators the new subfiles must not be there yet, and the processes must
have counted the steps themselves. -/
structure FitsAppend (steps : List (List Block)) (disk : Disk) (r : Run) (o : Output) : Prop
    extends Fits host version junk steps disk r o where
  subfiles (b : Block) (hb : b ∈ steps.flatten) : b.file < r.aggregators
  rereads (b : Block) (hb : b ∈ steps.flatten) (s : Subfile)
    (hs : disk.subfiles b.file = some s) :
    ∃ old, reread host version junk s.index = .ok old ∧ old.bare = s.index.bare
  fresh (c : Nat) (hc : c < r.aggregators) (h : ∀ b ∈ steps.flatten, b.file ≠ c) :
    disk.subfiles c = none ∧ r.opened.toNat = (latest steps.flatten).toNat + 1
  time : (latest steps.flatten).toNat + 1 < 4294967296

inductive Chain : List (List Block) → Disk → Prop where
  | write {disk : Disk} {r : Run} {o : Output} {disk' : Disk} (mode : r.append = false)
      (fits : Fits host version junk [] disk r o) (ends : Ends host version junk disk r o disk') :
      Chain [r.blocks o] disk'
  | append {steps : List (List Block)} {disk : Disk} {r : Run} {o : Output} {disk' : Disk}
      (chain : Chain steps disk) (mode : r.append = true)
      (fits : FitsAppend host version junk steps disk r o)
      (ends : Ends host version junk disk r o disk') : Chain (steps ++ [r.blocks o]) disk'

structure History where
  steps : List (List Block)
  disk : Disk
  chain : Chain host version junk steps disk

structure KeepsEverything (h : History host version junk) : Prop where
  kept : Kept h.steps h.disk
  goesOn (r : Run) (o : Output) (mode : r.append = true)
    (fits : FitsAppend host version junk h.steps h.disk r o) :
    ∃ disk', Ends host version junk h.disk r o disk'

end

end Adios.Amr
