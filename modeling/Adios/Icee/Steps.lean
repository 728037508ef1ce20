import Adios.Runs.Every
import Adios.Types
import Mathlib.Algebra.Ring.Nat

/-!
# ICEE — the steps of a file

The list of records that `icee_fileinfo_handler` of `read/read_icee.c` fills and the reader empties,
for one file: the entry of another file in `icee_filelist` is another list. The handler processes a
message at once; of the reader, a step is what it does up to the next access to the list.
-/

namespace Adios.Icee

/-! ## Messages and records -/

/-- What is used of `icee_varinfo_rec_t`. -/
structure Varinfo where
  varname : List UInt8
  data : List UInt8
  deriving DecidableEq

/-- A message of a writer: its `icee_fileinfo_rec_t`. -/
structure Message where
  timestep : Int
  nchunks : Nat
  varinfo : List Varinfo
  deriving DecidableEq

/-- An `icee_fileinfo_rec_t` of the reader; `next` is the next one of the list. -/
structure Record where
  timestep : Int
  nchunks : Nat
  mergeCount : Nat
  varinfo : List Varinfo
  deriving DecidableEq

def Message.record (m : Message) : Record := ⟨m.timestep, m.nchunks, 1, m.varinfo⟩

/-- `icee_fileinfo_append` to the list from the head on, or `icee_llist_create`. -/
def fileinfoAppend : List Record → Record → Except Fault (List Record)
  | [], fp => .ok [fp]
  | p :: records, fp =>
    if p.timestep = fp.timestep then
      -- "`while (v->next != NULL)`" from `v = p->varinfo` on
      if p.varinfo = [] then .error .wildPointer
      else .ok ({ p with
        varinfo := p.varinfo ++ fp.varinfo, mergeCount := p.mergeCount + 1 } :: records)
    else do
      let records ← fileinfoAppend records fp
      return p :: records

/-! ## The reader -/

inductive Phase where
  | closed
  /-- in the loop of `adios_read_icee_open` that waits for "the rest of blocks" -/
  | opening
  /-- No call is under way. -/
  | ready
  /-- in the loop of `adios_read_icee_advance_step` -/
  | advancing
  /-- in front of "`head->item = next`" -/
  | moving
  /-- in front of "`icee_fileinfo_free(fp)`" -/
  | freeing
  /-- in the loop of `adios_read_icee_schedule_read_byid` that waits for "the rest of blocks" -/
  | waiting
  /-- copying data to the user -/
  | reading
  deriving DecidableEq

structure System where
  /-- What each writer has yet to send, or what is under way from it. -/
  pending : List (List Message)
  /-- All messages that have arrived so far. -/
  arrived : List Message
  /-- The list from `head->item` on. -/
  records : List Record
  /-- The steps that the reader has left. -/
  left : List Int
  phase : Phase
  fault : Option Fault

inductive Event where
  /-- The next message of a writer arrives at the handler. -/
  | arrive (writer : Nat)
  | openFile
  | advanceStep
  | scheduleRead (varname : List UInt8)
  /-- The reader goes on; `expired` is "`waited_sec > timeout_sec`". -/
  | go (expired : Bool)

namespace System

variable (s : System)

/-- `icee_fileinfo_handler` -/
def handle (m : Message) : System :=
  match fileinfoAppend s.records m.record with
  | .ok records => { s with records, arrived := s.arrived ++ [m] }
  | .error f => { s with fault := some f, arrived := s.arrived ++ [m] }

/-- "`fp->merge_count != fp->nchunks`" does not hold of the reader's record. -/
def merged : Bool :=
  match s.records with
  | r :: _ => r.mergeCount = r.nchunks
  | [] => false

def go (expired : Bool) : Option System :=
  match s.phase with
  | .closed | .ready => none
  | .opening => some { s with phase := if s.merged then .ready else .opening }
  | .advancing =>
    match s.records with
    | _ :: _ :: _ => some { s with phase := .moving }
    | _ => some { s with phase := if expired then .ready else .advancing }
  | .moving =>
    match s.records with
    | fp :: records => some { s with records, left := s.left ++ [fp.timestep], phase := .freeing }
    | [] => none
  | .freeing => some { s with phase := .ready }
  | .waiting => some { s with phase := if s.merged then .reading else .waiting }
  | .reading => some { s with phase := .ready }

/-- `icee_varinfo_search_byname` in the reader's record. -/
def hasVar (varname : List UInt8) : Bool :=
  match s.records with
  | r :: _ => r.varinfo.any fun v => v.varname = varname
  | [] => false

def step (e : Event) : Option System :=
  if s.fault ≠ none then none
  else
    match e with
    | .arrive writer =>
      match s.pending[writer]? with
      | some (m :: queue) => some (handle { s with pending := s.pending.set writer queue } m)
      | _ => none
    | .openFile =>
      if s.phase = .closed ∧ s.records ≠ [] then some { s with phase := .opening } else none
    | .advanceStep => if s.phase = .ready then some { s with phase := .advancing } else none
    | .scheduleRead varname =>
      if s.phase = .ready then
        -- "Invalid variable id" otherwise
        some { s with phase := if s.hasVar varname then .waiting else .ready }
      else none
    | .go expired => s.go expired

end System

/-! ## The writers -/

/-- The writers of a file: the steps, and for each writer and step the messages that it sends, each
with its variables. -/
structure Writers where
  steps : List Int
  messages : List (Int → List (List Varinfo))
  /-- "Will be increased by 1 at each adios_open", of any file -/
  increasing : steps.Pairwise (· < ·)

namespace Writers

variable (w : Writers)

/-- The number of messages of a step: "`comm_size`", or "`comm_nvars`" with several connections. -/
def nchunks (t : Int) : Nat := (w.messages.map fun f => (f t).length).sum

def stream (f : Int → List (List Varinfo)) : List Message :=
  w.steps.flatMap fun t => (f t).map fun varinfo => ⟨t, w.nchunks t, varinfo⟩

def initial : System where
  pending := w.messages.map w.stream
  arrived := []
  records := []
  left := []
  phase := .closed
  fault := none

def Steady : Prop := ∀ f ∈ w.messages, ∀ t ∈ w.steps, f t ≠ []

end Writers

/-! ## The statement -/

namespace System

variable (w : Writers) (s : System)

def arrivedOf (t : Int) : List Message := s.arrived.filter fun m => m.timestep = t

def visited : List Int :=
  if s.phase = .closed ∨ s.phase = .opening then s.left
  else s.left ++ (s.records.take 1).map (·.timestep)

structure Right : Prop where
  alive : s.fault = none
  /-- Steps are visited in their order, none twice and none left out. -/
  visited : s.visited <+: w.steps
  /-- A step has one record, as long as the reader has not left it. -/
  unique : (s.left ++ s.records.map (·.timestep)).Nodup
  /-- A record holds what has arrived of its step. -/
  record : ∀ r ∈ s.records, r.nchunks = w.nchunks r.timestep ∧
    r.mergeCount = (s.arrivedOf r.timestep).length ∧
    r.varinfo = (s.arrivedOf r.timestep).flatMap (·.varinfo)
  /-- No message is dropped: it is in the record of its step, which the reader has left only when
  all messages were in it. -/
  kept : ∀ m ∈ s.arrived, (∃ r ∈ s.records, r.timestep = m.timestep) ∨ m.timestep ∈ s.left
  left : ∀ t ∈ s.left, (s.arrivedOf t).length = w.nchunks t
  reading : s.phase = .reading → ∃ r records, s.records = r :: records ∧
    (s.arrivedOf r.timestep).length = w.nchunks r.timestep

/-- No message arrives for a record without variables, and no record is left before all its messages
have arrived. -/
def Meets : Event → Prop
  | .arrive writer => ∀ m queue, s.pending[writer]? = some (m :: queue) →
      ∀ r ∈ s.records, r.timestep = m.timestep → r.varinfo ≠ []
  | .go _ => s.phase = .moving → s.merged = true
  | _ => True

end System

end Adios.Icee
