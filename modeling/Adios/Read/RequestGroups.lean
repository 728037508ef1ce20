import Adios.Core.WriteBlocks
import Adios.Types

/-!
# Reading — the tree of the requests of a transformed variable

A scheduled read of a transformed variable is a request group. Below it there is a group for each
process group that it touches, and below those are the raw reads. Each level counts its completed
children, and the hooks of the transform are called as the levels get completed: a chunk at a time,
or for all of a blocking call. What the hooks return, and what is made of it for the user, is not
part of the model.
-/

namespace Adios.RequestGroups

open WriteBlocks

/-! ## The tree -/

inductive Callback where
  /-- `adios_transform_subrequest_completed` -/
  | subrequest (i j : Nat)
  /-- `adios_transform_pg_reqgroup_completed` -/
  | pgReqgroup (i : Nat)
  /-- `adios_transform_read_reqgroup_completed` -/
  | readReqgroup
  deriving DecidableEq

/-- `adios_transform_raw_read_request` -/
structure RawReadRequest where
  completed : Bool
  rawSel : WriteBlock
  deriving DecidableEq

/-- `adios_transform_pg_read_request` -/
structure PgReadRequest where
  completed : Bool
  timestep : Int
  numSubreqs : Nat
  numCompletedSubreqs : Nat
  subreqs : List RawReadRequest
  deriving DecidableEq

/-- `adios_transform_read_request`; `varid` is that of `raw_varinfo`. -/
structure ReadRequest where
  completed : Bool
  varid : Int
  numPgReqgroups : Nat
  numCompletedPgReqgroups : Nat
  pgReqgroups : List PgReadRequest
  /-- The history of the hooks that have been called. -/
  fired : List Callback
  deriving DecidableEq

/-- `adios_transform_raw_read_request_append`, with "LIST_PREPEND" -/
def PgReadRequest.append (pgReqgroup : PgReadRequest) (sel : WriteBlock) : PgReadRequest :=
  { pgReqgroup with
    subreqs := ⟨false, sel⟩ :: pgReqgroup.subreqs, numSubreqs := pgReqgroup.numSubreqs + 1 }

/-- `adios_transform_pg_read_request_new`, and what `adios_transform_generate_read_subrequests`
appends to it: the raw reads that the transform asks for. -/
def PgReadRequest.new (timestep : Int) (sels : List WriteBlock) : PgReadRequest :=
  sels.foldl PgReadRequest.append ⟨false, timestep, 0, 0, []⟩

/-- `adios_transform_pg_read_request_append` -/
def ReadRequest.append (reqgroup : ReadRequest) (pgReqgroup : PgReadRequest) : ReadRequest :=
  { reqgroup with
    pgReqgroups := pgReqgroup :: reqgroup.pgReqgroups
    numPgReqgroups := reqgroup.numPgReqgroups + 1 }

/-- `adios_transform_generate_read_reqgroup`; the process groups that the selection touches come
with their steps. "If this read request does not intersect any PGs", there is none. -/
def generateReadReqgroup (varid : Int) (pgs : List (Int × List WriteBlock)) : Option ReadRequest :=
  let reqgroup := pgs.foldl (fun r pg => r.append (.new pg.1 pg.2)) ⟨false, varid, 0, 0, [], []⟩
  if reqgroup.numPgReqgroups = 0 then none else some reqgroup

namespace ReadRequest

variable (r : ReadRequest)

def subreqs (i : Nat) : List RawReadRequest :=
  match r.pgReqgroups[i]? with
  | some pg => pg.subreqs
  | none => []

def subreqCompleted (i j : Nat) : Bool := (r.subreqs i)[j]?.any (·.completed)

def pgCompleted (i : Nat) : Bool := r.pgReqgroups[i]?.any (·.completed)

def call (c : Callback) : ReadRequest := { r with fired := r.fired ++ [c] }

/-- `adios_transform_raw_read_request_mark_complete`; the places stand for the pointers. -/
def markComplete (i j : Nat) : ReadRequest :=
  match r.pgReqgroups[i]? with
  | none => r
  | some pg =>
    match pg.subreqs[j]? with
    | none => r
    | some subreq =>
      if subreq.completed then r
      else
        let pg := { pg with
          subreqs := pg.subreqs.set j { subreq with completed := true }
          numCompletedSubreqs := pg.numCompletedSubreqs + 1 }
        if pg.numCompletedSubreqs = pg.numSubreqs then
          let r := { r with
            pgReqgroups := r.pgReqgroups.set i { pg with completed := true }
            numCompletedPgReqgroups := r.numCompletedPgReqgroups + 1 }
          if r.numCompletedPgReqgroups = r.numPgReqgroups then { r with completed := true } else r
        else { r with pgReqgroups := r.pgReqgroups.set i pg }

/-- `finish_subreq` -/
def finishSubreq (i j : Nat) : Except Fault ReadRequest :=
  if r.subreqCompleted i j ∨ r.pgCompleted i ∨ r.completed then .error .assertion
  else
    let r := (r.markComplete i j).call (.subrequest i j)
    let r := if r.pgCompleted i then r.call (.pgReqgroup i) else r
    .ok (if r.completed then r.call .readReqgroup else r)

/-! ### "Complete each read reqgroup in turn" -/

/-- A round of the loop over "every child subreq". -/
def completeSubreq (i : Nat) (r : ReadRequest) (j : Nat) : Except Fault ReadRequest :=
  -- "Skip completed subreqs"
  if r.subreqCompleted i j then .ok r
  else
    let r := r.markComplete i j
    if ¬r.subreqCompleted i j then .error .assertion else .ok (r.call (.subrequest i j))

/-- A round of the loop over "every child PG reqgroup". -/
def completePg (r : ReadRequest) (i : Nat) : Except Fault ReadRequest :=
  -- "Skip completed PG reqgroups"
  if r.pgCompleted i then .ok r
  else do
    let r ← (List.range (r.subreqs i).length).foldlM (completeSubreq i) r
    if ¬r.pgCompleted i then .error .assertion else .ok (r.call (.pgReqgroup i))

/-- What `adios_transform_process_all_reads` does with a request group that it has popped. -/
def process : Except Fault ReadRequest :=
  -- "Free leftover read request groups immediately, with no further processing"
  if r.completed then .ok r
  else do
    let r ← (List.range r.pgReqgroups.length).foldlM completePg r
    if ¬r.completed then .error .assertion else .ok (r.call .readReqgroup)

end ReadRequest

/-! ## Chunks -/

/-- `ADIOS_VARCHUNK`; the selection of a chunk that is no write-block is left out. -/
structure Chunk where
  varid : Int
  fromSteps : Int
  sel : Option WriteBlock
  deriving DecidableEq

/-- `common_adios_selection_equal` for two write-blocks -/
def selectionEqual (wb1 wb2 : WriteBlock) : Bool :=
  wb1.index = wb2.index ∧ wb1.isAbsoluteIndex = wb2.isAbsoluteIndex ∧
    wb1.isSubPgSelection = wb2.isSubPgSelection ∧
    (wb1.isSubPgSelection = 0 ∨
      wb1.elementOffset = wb2.elementOffset ∧ wb1.nelements = wb2.nelements)

/-- `adios_transform_pg_read_request_match_chunk` with `skip_completed` -/
def PgReadRequest.matchChunk (pg : PgReadRequest) (chunk : Chunk) : Option Nat :=
  pg.subreqs.findIdx? fun subreq =>
    ¬subreq.completed ∧ chunk.sel.any fun sel => selectionEqual subreq.rawSel sel

/-- "Search all PG request groups", from the one at place `i` on. -/
def matchPgs (chunk : Chunk) : Nat → List PgReadRequest → Option (Nat × Nat)
  | _, [] => none
  | i, pg :: pgs =>
    -- "Skip PG reqgroups that are for other timesteps"
    if pg.completed ∨ pg.timestep ≠ chunk.fromSteps then matchPgs chunk (i + 1) pgs
    else
      match pg.matchChunk chunk with
      | some j => some (i, j)
      | none => matchPgs chunk (i + 1) pgs

/-- `adios_transform_read_request_match_chunk` with `skip_completed` -/
def ReadRequest.matchChunk (r : ReadRequest) (chunk : Chunk) : Option (Nat × Nat) :=
  if r.varid ≠ chunk.varid then none else matchPgs chunk 0 r.pgReqgroups

/-- `adios_transform_process_read_chunk`: `adios_transform_read_request_list_match_chunk`, and
`finish_subreq` for what it finds. -/
def processReadChunk (chunk : Chunk) : List ReadRequest → Except Fault (List ReadRequest)
  -- "it must correspond to a non-transformed variable"
  | [] => .ok []
  | r :: rs =>
    match r.matchChunk chunk with
    | some (i, j) => do
      let r ← r.finishSubreq i j
      return r :: rs
    | none => do
      let rs ← processReadChunk chunk rs
      return r :: rs

/-! ## The system -/

structure FileView where
  groupVaridOffset : Int
  varidMapping : List Int
  streaming : Bool

/-- "`p->varid_mapping[varid]`" -/
def FileView.mapped (f : FileView) (varid : Int) : Int :=
  f.varidMapping.getD (varid + f.groupVaridOffset).toNat 0

structure ScheduledRead where
  /-- the id in `raw_varinfo` and the step of the process group, when it is a raw read -/
  owner : Option (Int × Int)
  /-- what comes back for it -/
  chunk : Chunk
  deriving DecidableEq

/-- The raw reads of a request group: `adios_read_bp_schedule_read_byid` for each of them. -/
def ReadRequest.rawReads (f : FileView) (r : ReadRequest) : List ScheduledRead :=
  r.pgReqgroups.flatMap fun pg => pg.subreqs.map fun subreq =>
    ⟨some (r.varid, pg.timestep),
      f.mapped r.varid, if f.streaming then 0 else pg.timestep, some subreq.rawSel⟩

structure System where
  /-- `transform_reqgroups` -/
  reqgroups : List ReadRequest
  /-- The request groups that have been freed, as they were then. -/
  freed : List ReadRequest
  /-- The reads that have not been delivered yet. -/
  inFlight : List ScheduledRead
  fault : Option Fault

inductive Event where
  /-- `common_read_schedule_read_byid` for a variable that is transformed -/
  | schedule (file : FileView) (varid : Int) (pgs : List (Int × List WriteBlock))
  /-- and for one that is not -/
  | scheduleOther (chunk : Chunk)
  /-- A scheduled read is delivered as a chunk, in whatever order. -/
  | arrive (n : Nat)
  /-- `common_read_perform_reads` with `blocking`; the read method may refuse to read. -/
  | performReads (refused : Bool)
  /-- `adios_transform_cleanup_from_previous_check_reads` -/
  | cleanup

namespace System

variable (s : System)

def arriveChunk (chunk : Chunk) : System :=
  match processReadChunk chunk s.reqgroups with
  | .ok reqgroups => { s with reqgroups }
  | .error f => { s with fault := some f }

/-- `adios_transform_process_all_reads` -/
def processAllReads : System :=
  match s.reqgroups.mapM ReadRequest.process with
  | .ok done => { s with reqgroups := [], freed := s.freed ++ done }
  | .error f => { s with fault := some f }

def step (e : Event) : Option System :=
  if s.fault ≠ none then none
  else
    match e with
    | .schedule file varid pgs =>
      match generateReadReqgroup varid pgs with
      | some r => some { s with
          reqgroups := r :: s.reqgroups, inFlight := r.rawReads file ++ s.inFlight }
      | none => some s
    | .scheduleOther chunk => some { s with inFlight := ⟨none, chunk⟩ :: s.inFlight }
    | .arrive n =>
      match s.inFlight[n]? with
      | some read => some (arriveChunk { s with inFlight := s.inFlight.eraseIdx n } read.chunk)
      | none => none
    | .performReads refused =>
      some (processAllReads { s with inFlight := if refused then s.inFlight else [] })
    | .cleanup => some { s with
        reqgroups := s.reqgroups.filter fun r => ¬r.completed
        freed := s.freed ++ s.reqgroups.filter fun r => r.completed }

def initial : System := ⟨[], [], [], none⟩

end System

/-! ## The statement -/

namespace ReadRequest

variable (r : ReadRequest)

def Flag : Callback → Prop
  | .subrequest i j => r.subreqCompleted i j = true
  | .pgReqgroup i => r.pgCompleted i = true
  | .readReqgroup => r.completed = true

def Child : Callback → Callback → Prop
  | .subrequest i j, .pgReqgroup i' => i = i' ∧ j < (r.subreqs i).length
  | .pgReqgroup i, .readReqgroup => i < r.pgReqgroups.length
  | _, _ => False

structure Right : Prop where
  numCompletedSubreqs : ∀ pg ∈ r.pgReqgroups,
    pg.numCompletedSubreqs = pg.subreqs.countP (·.completed)
  pgCompleted : ∀ pg ∈ r.pgReqgroups,
    pg.completed = true ↔ ∀ subreq ∈ pg.subreqs, subreq.completed = true
  numCompletedPgReqgroups : r.numCompletedPgReqgroups = r.pgReqgroups.countP (·.completed)
  completed : r.completed = true ↔ ∀ pg ∈ r.pgReqgroups, pg.completed = true
  fired : ∀ c, c ∈ r.fired ↔ r.Flag c
  once : r.fired.Nodup
  /-- only after the children's -/
  behind : ∀ before c after, r.fired = before ++ c :: after → ∀ d, r.Child d c → d ∈ before

end ReadRequest

namespace System

variable (s : System)

structure Right : Prop where
  /-- No assertion has failed. -/
  alive : s.fault = none
  requests : ∀ r ∈ s.reqgroups ++ s.freed, r.Right
  delivered : s.inFlight = [] → ∀ r ∈ s.reqgroups ++ s.freed, r.completed = true

def Returns (read : ScheduledRead) : Prop :=
  (∀ owner, read.owner = some owner → owner = (read.chunk.varid, read.chunk.fromSteps)) ∧
    (read.owner = none → ∀ r ∈ s.reqgroups, r.varid ≠ read.chunk.varid)

def Meets : Event → Prop
  | .schedule _ _ pgs => ∀ pg ∈ pgs, pg.2 ≠ []
  | .arrive n => ∀ read, s.inFlight[n]? = some read → s.Returns read
  | _ => True

end System

end Adios.RequestGroups
