import Adios.Lists.StableInsert
import Adios.Read.BoxRead
import Mathlib.Data.Prod.Lex

/-!
# Staged read — requests that are read together

`get_data_addr`, `sort_read_requests` and `do_read` of `read_bp_staged.c`: the split requests of an
aggregator are sorted, and those that are close to each other in a subfile become one read. How far
the read goes depends on what `get_data_addr` finds for the last one.
-/

namespace Adios.StagedChunks

open Lists

/-! ## The code -/

/-- What `get_data_addr` knows of the file and of the reader; a variable of `fh->vars_table` by its
id. -/
structure Setting where
  fh : BpFile
  fileIsFortran : Bool
  streaming : Bool
  currentStep : Int
  varsTable : Int → Option IndexEntry

/-- A `read_request` of `split_read_request_list` with its `rr_pvt_struct`: the part that was asked
for of one block. The size of the payload of that block is not kept in the request; the code never
reads it. -/
structure SplitRequest where
  varid : Int
  start : List UInt64
  count : List UInt64
  fromSteps : Int
  nsteps : Int
  fileIdx : Int
  offset : UInt64
  payload : UInt64
  deriving DecidableEq

/-- `file_idx`, `offset` and `payload_size` -/
structure Address where
  fileIdx : UInt32
  offset : UInt64
  payloadSize : UInt64
  deriving DecidableEq

inductive Found where
  /-- no block has data of the box -/
  | nothing
  /-- "out of bound", and `return` without an address -/
  | outOfBound
  | block (a : Address)

def addressOf (v : IndexEntry) (c : IndexCharacteristic) (ldims : List UInt64) : Address where
  fileIdx := c.fileIndex
  offset := c.payloadOffset
  payloadSize := ldims.foldl (· * ·) (BoxRead.typeSize v.type c.value)

/-- "loop over the list of pgs to read from one-by-one" -/
def findBlock (s : Setting) (v : IndexEntry) (start count : List UInt64) :
    List IndexCharacteristic → Except Fault Found
  | [] => return .nothing
  | c :: cs => do
    let a ← bpGetDimensionGenericNotime c.dims s.fileIsFortran
    let ds ← BoxRead.boxDims start count a
    if ds.any (·.outOfBound) then return .outOfBound
    else if ds.all (·.flag) then return .block (addressOf v c (ds.map (·.ldim)))
    else findBlock s v start count cs

/-- "`for (t = …; t < …; t++)`", where a step without data is reported and passed over. -/
def findStep (s : Setting) (v : IndexEntry) (start count : List UInt64) :
    List Int → Except Fault (Option Address)
  | [] => return none
  | t :: ts => do
    let time ← if s.streaming then .ok (t + 1) else VarSteps.getTime v t
    let startIdx := VarSteps.getVarStartIndex v time
    let stopIdx := VarSteps.getVarStopIndex v time
    if startIdx < 0 ∨ stopIdx < 0 then findStep s v start count ts
    else
      let blocks :=
        (v.characteristics.drop startIdx.toNat).take (stopIdx - startIdx + 1).toNat
      if start = [] then
        -- "THIS IS A SCALAR VARIABLE"
        match blocks with
        | [] => throw .outOfBounds
        | c :: _ => return some (addressOf v c [])
      else
        match ← findBlock s v start count blocks with
        | .nothing => findStep s v start count ts
        | .outOfBound => return none
        | .block a => return some a

/-- `get_data_addr`; it may leave what its arguments point to as it is. -/
def getDataAddr (s : Setting) (r : SplitRequest) : Except Fault (Option Address) :=
  match s.varsTable r.varid with
  | none => throw .wildPointer
  | some v => do
    let stream := if s.streaming then some (UInt32.ofInt (s.currentStep + 1)) else none
    let dims ← bpGetDimensionsGeneric s.fh v stream false
    let first := s.currentStep + r.fromSteps
    let steps := (List.range r.nsteps.toNat).map fun k : Nat => first + k
    if dims.ndim ≠ r.start.length then throw .assertion
    else findStep s v r.start r.count steps

/-- The inner loop of `sort_read_requests`, which goes on to the place of a request, and its
insertion there. -/
def insertRequest (r : SplitRequest) : List SplitRequest → List SplitRequest
  | [] => [r]
  | t :: ts =>
    if t.fileIdx > r.fileIdx ∨ t.fileIdx = r.fileIdx ∧ t.offset > r.offset then r :: t :: ts
    else t :: insertRequest r ts

/-- `sort_read_requests` -/
def sortReadRequests (list : List SplitRequest) : List SplitRequest :=
  list.foldl (fun n r => insertRequest r n) []

/-- A `read_chunk` of `do_read`, and the requests that `read_buffer` is called for behind it. -/
structure Chunk where
  fileIdx : Int
  offset : UInt64
  size : UInt64
  requests : List SplitRequest
  deriving DecidableEq

/-- "`while (o_start != f_end)`" for the requests up to `f_end`, with the `payload_size` so far, if it
has a value. -/
def chunkLoop (s : Setting) (chunkBufferSize : Int) :
    Nat → List SplitRequest → Option UInt64 → Except Fault (List Chunk × Option UInt64)
  | _, [], payloadSize => return ([], payloadSize)
  | 0, _ :: _, _ => throw .endless
  | fuel + 1, oStart :: rest, payloadSize => do
    -- "Find a set of requests that fall into chunk size, i.e., [o_start, o_end)"
    let near := fun r : SplitRequest =>
      decide (r.offset - oStart.offset ≤ UInt64.ofInt chunkBufferSize)
    let requests := (oStart :: rest).takeWhile near
    let oEnd := (oStart :: rest).dropWhile near
    match requests.getLast? with
    | none => throw .wildPointer
    | some oPrevEnd =>
      let payloadSize := ((← getDataAddr s oPrevEnd).map Address.payloadSize).or payloadSize
      match payloadSize with
      | none => throw .wildPointer
      | some size =>
        let (chunks, payloadSize) ← chunkLoop s chunkBufferSize fuel oEnd (some size)
        return ({
          fileIdx := oStart.fileIdx
          offset := oStart.offset
          size := oPrevEnd.offset - oStart.offset + size
          requests } :: chunks, payloadSize)

/-- "`while (f_start)`" -/
def fileLoop (s : Setting) (chunkBufferSize : Int) :
    Nat → List SplitRequest → Option UInt64 → Except Fault (List Chunk)
  | _, [], _ => return []
  | 0, _ :: _, _ => throw .endless
  | fuel + 1, fStart :: rest, payloadSize => do
    -- "Find a set of reqeusts that fall into the same file, i.e., [f_start, f_end)"
    let inFile := fun r : SplitRequest => decide (r.fileIdx = fStart.fileIdx)
    let fEnd := (fStart :: rest).dropWhile inFile
    let (chunks, payloadSize) ← chunkLoop s chunkBufferSize (fuel + 1)
      ((fStart :: rest).takeWhile inFile) payloadSize
    let others ← fileLoop s chunkBufferSize fuel fEnd payloadSize
    return chunks ++ others

/-- `do_read`, whose loops are given some rounds: a loop that never ends is out of them however many
there are. -/
def doRead (s : Setting) (chunkBufferSize : Int) (fuel : Nat) (list : List SplitRequest) :
    Except Fault (List Chunk) :=
  fileLoop s chunkBufferSize fuel list none

/-! ## What it is for -/

def SplitRequest.key (r : SplitRequest) : Int ×ₗ Nat := toLex (r.fileIdx, r.offset.toNat)

/-- The list is a permutation in the order of subfile and offset, and requests for the same place
keep their order. -/
structure Sorted (list sorted : List SplitRequest) : Prop where
  perm : sorted.Perm list
  ordered : sorted.Pairwise fun r r' =>
    r.fileIdx < r'.fileIdx ∨ r.fileIdx = r'.fileIdx ∧ r.offset ≤ r'.offset
  stable (fileIdx : Int) (offset : UInt64) :
    sorted.filter (fun r => r.fileIdx = fileIdx ∧ r.offset = offset) =
      list.filter fun r => r.fileIdx = fileIdx ∧ r.offset = offset

/-- The requests of a chunk: at least one, all of its subfile, and not further from the first one
than the size of a chunk. -/
structure Chunk.Grouped (chunkBufferSize : Int) (c : Chunk) : Prop where
  nonempty : c.requests ≠ []
  file : ∀ r ∈ c.requests, r.fileIdx = c.fileIdx
  span : ∀ r ∈ c.requests, c.offset.toNat ≤ r.offset.toNat ∧
    (r.offset.toNat : Int) - c.offset.toNat ≤ chunkBufferSize

def Chunk.Contains (c : Chunk) : Prop :=
  ∀ r ∈ c.requests, c.offset.toNat ≤ r.offset.toNat ∧
    r.offset.toNat + r.payload.toNat ≤ c.offset.toNat + c.size.toNat

structure Input where
  setting : Setting
  chunkBufferSize : Int
  positive : 0 < chunkBufferSize
  isInt : chunkBufferSize < 2147483648
  list : List SplitRequest

namespace Input

variable (i : Input)

/-- The requests are sorted, the loops come to their end, and each request is in one chunk, which is
right about it. -/
def Right : Prop :=
  Sorted i.list (sortReadRequests i.list) ∧
    ∃ chunks, (∀ fuel, i.list.length ≤ fuel →
        doRead i.setting i.chunkBufferSize fuel (sortReadRequests i.list) = .ok chunks) ∧
      chunks.flatMap Chunk.requests = sortReadRequests i.list ∧
      ∀ c ∈ chunks, c.Grouped i.chunkBufferSize ∧ c.Contains

end Input

/-! ## The condition -/

def Together (chunkBufferSize : Int) (o r : SplitRequest) : Prop :=
  r.fileIdx = o.fileIdx ∧ (r.offset.toNat : Int) - o.offset.toNat ≤ chunkBufferSize

/-- The groups of a list: each has the first request that is left and goes on as long as the requests
are together with it. -/
inductive Grouping (chunkBufferSize : Int) : List SplitRequest → List (List SplitRequest) → Prop
  | nil : Grouping chunkBufferSize [] []
  | cons {o : SplitRequest} {group behind : List SplitRequest} {groups : List (List SplitRequest)}
      (together : ∀ r ∈ group, Together chunkBufferSize o r)
      (apart : ∀ r ∈ behind.head?, ¬Together chunkBufferSize o r)
      (others : Grouping chunkBufferSize behind groups) :
      Grouping chunkBufferSize (o :: group ++ behind) ((o :: group) :: groups)

/-- The block that `get_data_addr` finds for the last request of a group, or the one that it has
found last if it finds none, is so large that it would end behind each payload of the group, if it
started where that request does. -/
def Reaches (s : Setting) : Option UInt64 → List (List SplitRequest) → Prop
  | _, [] => True
  | before, group :: groups => ∃ o ∈ group.head?, ∃ l ∈ group.getLast?, ∃ a size,
      getDataAddr s l = .ok a ∧ (a.map Address.payloadSize).or before = some size ∧
      l.offset.toNat - o.offset.toNat + size.toNat < 18446744073709551616 ∧
      (∀ r ∈ group, r.offset.toNat + r.payload.toNat ≤ l.offset.toNat + size.toNat) ∧
      Reaches s (some size) groups

def Input.Clear (i : Input) : Prop :=
  ∃ groups, Grouping i.chunkBufferSize (sortReadRequests i.list) groups ∧
    Reaches i.setting none groups

end Adios.StagedChunks
