import Adios.Read.StagedRequests

/-!
# Staged read — the exchange of requests and data in a group

`adios_read_bp_staged_perform_reads`: the members of a group send their requests to the aggregator,
which reads for all of them and scatters the data. What is read, `do_read` decides; here it is
given.
-/

namespace Adios.Staged

open Wire Lists
open Amr (Failure toInt addInt displacements receiveAll)

/-! ## The aggregator's side -/

/-- A request with the `datasize` bytes that `do_read` has put behind its `data`. -/
structure Filled where
  entry : Entry
  data : List UInt8
  length_data : data.length = entry.request.datasize.toNat

/-- What `do_read` puts there for the requests of a list. -/
structure Reads where
  data : Nat → Entry → List UInt8
  length_data (k : Nat) (e : Entry) : (data k e).length = e.request.datasize.toNat

def Reads.fill (reads : Reads) (k : Nat) : List Entry → List Filled
  | [] => []
  | e :: es => ⟨e, reads.data k e, reads.length_data k e⟩ :: reads.fill (k + 1) es

/-- `b`, `buffer_size` and `offset` in `send_read_data`; `bufferSize` is `none` while `b` is 0. -/
structure SendBuffer where
  bytes : List UInt8
  bufferSize : Option UInt32
  offset : UInt32

/-- The size behind "`if (*buffer_offset + size > *buffer_size || *buffer == 0)`". -/
def SendBuffer.grown (b : SendBuffer) (size : UInt32) : UInt32 :=
  match b.bufferSize with
  | none => b.offset + size + 1000
  | some bufferSize =>
    if b.offset + size > bufferSize then b.offset + size + 1000 else bufferSize

/-- `_buffer_write32`. The sum for `realloc` is one of `uint32_t`s, so that the buffer can become
smaller. -/
def SendBuffer.write32 (b : SendBuffer) (data : List UInt8) (size : UInt32) :
    Except Failure SendBuffer :=
  if (b.grown size).toNat < b.offset.toNat + size.toNat then .error (.fault .outOfBounds)
  else .ok
    { bytes := b.bytes.take b.offset.toNat ++ data.take size.toNat ++
        b.bytes.drop (b.offset.toNat + size.toNat)
      bufferSize := some (b.grown size)
      offset := b.offset + size }

/-- The locals of `send_read_data`. -/
structure Sends where
  sizes : List Int
  offsets : List Int
  buffer : SendBuffer

/-- The body of the loop of `send_read_data`. -/
def Pvt.sendRequest (pvt : Pvt) (s : Sends) (r : Filled) : Except Failure Sends :=
  if pvt.rankToGroupMapping r.entry.rank = pvt.group ∧ pvt.rank ≠ r.entry.rank then
    let i := r.entry.rank - pvt.aggregatorRank
    match s.offsets[i]?, s.sizes[i]? with
    | some offset, some size => do
      let offsets :=
        if offset = -1 then s.offsets.set i (toInt s.buffer.offset.toNat) else s.offsets
      let datasize := r.entry.request.datasize
      let sizes := s.sizes.set i (toInt (UInt64.ofInt size + datasize).toNat)
      let buffer ← s.buffer.write32 r.data datasize.toUInt32
      .ok { sizes, offsets, buffer }
    | _, _ => .error (.fault .outOfBounds)
  else .ok s

/-- `send_read_data` before its `MPI_Scatterv`; `size` is that of `pvt->new_comm`. -/
def Pvt.sendReadData (pvt : Pvt) (size : Nat) (list : List Filled) : Except Failure Sends :=
  list.foldlM pvt.sendRequest
    { sizes := List.replicate size 0, offsets := List.replicate size (-1),
      buffer := { bytes := [], bufferSize := none, offset := 0 } }

/-! ## The side of the others -/

/-- `size` in `get_read_data` -/
def receiveSize (requests : List Request) : Int :=
  requests.foldl (fun size r => toInt (UInt64.ofInt size + r.datasize).toNat) 0

/-- What `MPI_Scatterv` puts into the buffer of a member for which the root has this size and
offset. -/
def Sends.segment (s : Sends) (offset size : Int) (count : Int) : Except Failure (List UInt8) :=
  if size ≠ count ∨ count < 0 then .error .mpiError
  else if count = 0 then .ok []
  else if offset < 0 ∨ (s.buffer.bytes.length : Int) < offset + count then
    .error (.fault .outOfBounds)
  else .ok ((s.buffer.bytes.drop offset.toNat).take count.toNat)

/-- "`memcpy (r->data, b, r->datasize); b += r->datasize;`" -/
def copyOut (b : List UInt8) : List Request → Except Failure (List (List UInt8))
  | [] => .ok []
  | r :: next =>
    if b.length < r.datasize.toNat then .error (.fault .outOfBounds)
    else do
      let rest ← copyOut (b.drop r.datasize.toNat) next
      .ok (b.take r.datasize.toNat :: rest)

/-- `get_read_data` of the member `i` of a group. -/
def getReadData (host : Host) (s : Sends) (i : Nat) (requests : List Request) :
    Except Failure (List (List UInt8)) :=
  let size := receiveSize requests
  -- "Warning: the size of data is 0"
  if ¬host.Mallocs size then .error .returned
  else match s.offsets[i]?, s.sizes[i]? with
    | some offset, some sent => do
      let recvBuff ← s.segment offset sent size
      copyOut recvBuff requests
    | _, _ => .error .mpiError

structure Outcome where
  list : List Filled
  received : List (List (List UInt8))

/-- What `parse_buffer` makes of the bytes from an offset on. -/
def parseAt (host : Host) (recvBuffer : List UInt8) (offset : Int) (src : Nat) :
    Except Failure (List Entry) :=
  match parseBuffer host src (recvBuffer.drop offset.toNat) with
  | .ok (entries, _) => .ok entries
  | .error f => .error (.fault f)

/-- `adios_read_bp_staged_perform_reads` of the group of an aggregator. -/
def performReads (host : Host) (pvt : Pvt) (members : List (List Request)) (reads : Reads) :
    Except Failure Outcome := do
  let bufs ← members.mapM (pack host)
  let sizes := bufs.map fun buf => (buf.length : Int)
  -- "`malloc (pvt->group_size * 4)`" for the sizes and the offsets
  if sizes.length ≠ pvt.groupSize then .error (.fault .outOfBounds)
  else do
    let (offsets, totalSize) ← displacements 0 sizes
    let recvBuffer ← receiveAll (List.replicate totalSize.toNat 0) (offsets.zip sizes) bufs
    let parsed ← (offsets.zipIdx.drop 1).mapM fun p =>
      parseAt host recvBuffer p.1 (pvt.aggregatorRank + p.2)
    let own := (members.headD []).map (Entry.mk pvt.rank)
    let list := reads.fill 0 (own ++ parsed.flatten)
    let sends ← pvt.sendReadData members.length list
    let received ← (members.zipIdx.drop 1).mapM fun m => getReadData host sends m.2 m.1
    .ok { list, received }

/-! ## The property -/

structure Job where
  numAggregators : Int
  requests : List (List Request)
  nonempty : requests ≠ []

namespace Job

variable (job : Job)

def size : Nat := job.requests.length

def groups : Nat := groupCount job.numAggregators job.size

def pvt (rank : Nat) : Pvt := initRead job.numAggregators job.size rank

def members (group : Nat) : List (List Request) :=
  (job.requests.zipIdx.filter fun r => (job.pvt r.2).group = group).map Prod.fst

end Job

structure GroupsAgree (job : Job) : Prop where
  mapping (rank other : Nat) (h : rank < job.size) (h' : other < job.size) :
    (job.pvt other).rankToGroupMapping rank = (job.pvt rank).group
  aggregator (rank : Nat) (h : rank < job.size) :
    (job.pvt rank).aggregatorRankArray[(job.pvt rank).group]? = some (job.pvt rank).aggregatorRank
  own (rank : Nat) (h : rank < job.size) : (job.pvt rank).aggregatorRank < job.size ∧
    (job.pvt (job.pvt rank).aggregatorRank).group = (job.pvt rank).group ∧
    (job.pvt (job.pvt rank).aggregatorRank).aggregatorRank = (job.pvt rank).aggregatorRank
  comm (rank : Nat) (h : rank < job.size) :
    newComm job.numAggregators job.size (job.pvt rank).group =
      (List.range (job.pvt rank).groupSize).map ((job.pvt rank).aggregatorRank + ·)

structure Delivered (host : Host) (aggregator : Nat) (members : List (List Request)) (o : Outcome) :
    Prop where
  /-- The bytes that a member packs are enough for its requests. -/
  parsed (i : Nat) (requests : List Request) (hi : 0 < i) (h : members[i]? = some requests) :
    ∃ buf rest, pack host requests = .ok buf ∧ parseBuffer host (aggregator + i) buf =
      .ok (requests.map (Entry.mk (aggregator + i)), rest)
  /-- The aggregator has all requests, in their order and with their ranks. -/
  entries : o.list.map Filled.entry =
    members.zipIdx.flatMap fun m => m.1.map (Entry.mk (aggregator + m.2))
  /-- Each of the others has the data of its requests. -/
  received : o.received = (members.zipIdx.drop 1).map fun m =>
    (o.list.filter fun r => r.entry.rank = aggregator + m.2).map Filled.data

structure Exchanges (host : Host) (job : Job) : Prop where
  agree : GroupsAgree job
  delivered (group : Nat) (h : group < job.groups) (reads : Reads) :
    ∃ aggregator, (job.pvt aggregator).aggregatorRankArray[group]? = some aggregator ∧
      ∃ o, performReads host (job.pvt aggregator) (job.members group) reads = .ok o ∧
        Delivered host aggregator (job.members group) o

/-! ## When it does -/

def dataLength (requests : List Request) : Nat :=
  (requests.map fun r => r.datasize.toNat).sum

/-- Whether `_buffer_write32` always has a buffer that is large enough: one that has to grow has
1000 bytes more than what is in it then, and an `uint32_t` holds this. -/
def Room : Option Nat → Nat → List Nat → Prop
  | _, _, [] => True
  | none, offset, size :: sizes => offset + size + 1000 < 4294967296 ∧
      Room (some (offset + size + 1000)) (offset + size) sizes
  | some bufferSize, offset, size :: sizes =>
    if offset + size ≤ bufferSize then Room (some bufferSize) (offset + size) sizes
    else offset + size + 1000 < 4294967296 ∧
      Room (some (offset + size + 1000)) (offset + size) sizes

structure Fits (host : Host) (members : List (List Request)) : Prop where
  /-- An `int` holds the bytes of all requests. -/
  packed : (members.map fun requests => 4 + (requests.map Request.calcSize).sum).sum < 2147483648
  /-- Where `malloc (0)` is `NULL`, nothing that is allocated is empty. -/
  filled (h : host.mallocZero = false) (requests : List Request) (hr : requests ∈ members.drop 1) :
    requests ≠ [] ∧ ∀ r ∈ requests, r.box ≠ [] ∧ r.datasize ≠ 0
  /-- An `int` holds the bytes for a member. -/
  sizes (requests : List Request) (hr : requests ∈ members.drop 1) :
    dataLength requests < 2147483648
  /-- An `int` holds the place where they start. -/
  offsets (i : Nat) (requests : List Request) (hr : (members.drop 1)[i]? = some requests)
    (hpos : 0 < dataLength requests) : dataLength ((members.drop 1).take i).flatten < 2147483648
  room : Room none 0 ((members.drop 1).flatten.map fun r => r.datasize.toNat)

def gigabyte : Request where
  varid := 0
  fromSteps := 0
  nsteps := 1
  box := [(0, 1073741824)]
  datasize := 1073741824

def twoGigabytes : Job where
  numAggregators := 1
  requests := [[], [gigabyte, gigabyte]]
  nonempty := List.cons_ne_nil _ _

end Adios.Staged
