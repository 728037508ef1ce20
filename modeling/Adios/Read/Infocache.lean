import Adios.Heap.Objects
import Adios.Read.GroupView
import Adios.Runs.Every

/-!
# Adios — the information cache of an open file

`core/adios_infocache.c`, with the functions of `core/common_read.c` that use it or change what an
inquiry returns. The cache has an entry for each id: the physical and the logical information on
the variable and that on its transform. What a read method finds for an id is behind its hooks.
-/

namespace Adios.Infocache

/-! ## What an inquiry returns -/

/-- `data_view_t` -/
inductive DataView where
  | logical | physical
  deriving DecidableEq, Repr

/-- `ADIOS_VARBLOCK` -/
structure VarBlock where
  start : List UInt64
  count : List UInt64
  deriving DecidableEq, Repr

/-- `ADIOS_VARINFO`, but for the statistics and the mesh, which are NULL from every inquiry. -/
structure VarInfo where
  varid : Int
  type : Datatype
  ndim : Int
  dims : List UInt64
  nsteps : Int
  value : Option (List UInt8)
  global : Bool
  nblocks : List Int
  sumNblocks : Int
  blockinfo : Option (List VarBlock)
  deriving DecidableEq, Repr

/-- `ADIOS_TRANSINFO` -/
structure TransInfo where
  transformType : TransformType
  transformMetadata : List UInt8
  shouldFreeTransformMetadata : Bool
  origType : Datatype
  origNdim : Int
  origDims : List UInt64
  origGlobal : Bool
  origBlockinfo : Option (List VarBlock)
  transformMetadatas : Option (List (List UInt8))
  deriving DecidableEq, Repr

/-- The inquiries of a read method; `none` is NULL. -/
structure ReadHooks where
  inqVarByid : AdiosFile → Nat → Except Fault (Option VarInfo)
  inqVarTransinfo : AdiosFile → VarInfo → Except Fault (Option TransInfo)
  inqVarBlockinfo : AdiosFile → VarInfo → Except Fault VarInfo
  inqVarTransBlockinfo : AdiosFile → VarInfo → TransInfo → Except Fault TransInfo

section Inquiries

variable (hooks : ReadHooks) (fp : AdiosFile)

/-- `common_read_inq_var_raw_byid` -/
def commonReadInqVarRawByid (varid : Int) : Except Fault (Option VarInfo) :=
  if 0 ≤ varid ∧ varid < fp.nvars then do
    let vi ← hooks.inqVarByid fp (varid.toNat + fp.internals.groupVaridOffset)
    -- "Translate real varid to the group varid presented to the user"
    return vi.map fun vi => { vi with varid := varid }
  else .ok none

/-- `common_read_inq_transinfo` -/
def commonReadInqTransinfo : Option VarInfo → Except Fault (Option TransInfo)
  | none => .ok none
  | some vi => hooks.inqVarTransinfo fp vi

/-- `patch_varinfo_with_transinfo`, of a variable that is transformed. -/
def patchVarinfoWithTransinfo (vi : VarInfo) : Option TransInfo → VarInfo
  | none => vi
  | some ti =>
    if ti.transformType ≠ .none then
      { vi with
        type := ti.origType
        ndim := ti.origNdim
        global := ti.origGlobal
        dims := ti.origDims
        blockinfo := ti.origBlockinfo }
    else vi

/-- `common_read_inq_var_byid`, in a view of the data. -/
def commonReadInqVarByid (view : DataView) (varid : Int) : Except Fault (Option VarInfo) := do
  let vi ← commonReadInqVarRawByid hooks fp varid
  match vi, view with
  | none, _ => return none
  | some vi, .physical => return some vi
  | some vi, .logical =>
    let ti ← commonReadInqTransinfo hooks fp (some vi)
    return some (patchVarinfoWithTransinfo vi ti)

def freshTransinfo (varid : Int) : Except Fault (Option TransInfo) := do
  let vi ← commonReadInqVarByid hooks fp .physical varid
  commonReadInqTransinfo hooks fp vi

/-- `common_read_inq_var_blockinfo_raw`: the id is that of the full list for the time of the
call. -/
def commonReadInqVarBlockinfoRaw (vi : VarInfo) : Except Fault VarInfo := do
  let vi' ← hooks.inqVarBlockinfo fp { vi with varid := vi.varid + fp.internals.groupVaridOffset }
  return { vi' with varid := vi.varid }

end Inquiries

/-! ## The cache -/

structure InfoSlot where
  physicalVarinfo : Option Nat
  logicalVarinfo : Option Nat
  transinfo : Option Nat

def InfoSlot.empty : InfoSlot := ⟨none, none, none⟩

/-- `varinfos [varid]` of the array that belongs to the view. -/
def InfoSlot.varinfo (slot : InfoSlot) : DataView → Option Nat
  | .physical => slot.physicalVarinfo
  | .logical => slot.logicalVarinfo

/-- Store to `varinfos [varid]`. -/
def InfoSlot.setVarinfo (slot : InfoSlot) (p : Nat) : DataView → InfoSlot
  | .physical => { slot with physicalVarinfo := some p }
  | .logical => { slot with logicalVarinfo := some p }

/-- Store to `transinfos [varid]`. -/
def InfoSlot.setTransinfo (slot : InfoSlot) (q : Nat) :
    InfoSlot := { slot with transinfo := some q }

/-- The three arrays of `adios_infocache`, of `capacity` elements each. -/
abbrev Slots := List InfoSlot

inductive CacheFault where
  /-- an object that was freed before is used or freed -/
  | freed
  /-- an array is indexed outside its capacity -/
  | outOfBounds
  /-- `assert` failed -/
  | assertion
  | reader (fault : Fault)
  deriving DecidableEq, Repr

/-- `INITIAL_INFOCACHE_SIZE` -/
def initialInfocacheSize : Int := 16

/-- `expand_infocache`; `newcap` is an `int`. -/
def expandInfocache (slots : Slots) (varCapacity : Int) : Slots :=
  let oldcap : Int := slots.length
  let newcap := max (max (Int.bmod (oldcap * 2) 4294967296) varCapacity) initialInfocacheSize
  slots.take newcap.toNat ++ List.replicate (newcap.toNat - slots.length) .empty

/-- "`if (varid >= cache->capacity) expand_infocache (cache, varid + 1)`" -/
def expandFor (slots : Slots) (varid : Int) : Slots :=
  if slots.length ≤ varid then expandInfocache slots (Int.bmod (varid + 1) 4294967296) else slots

def slotAt (slots : Slots) (varid : Int) : Except CacheFault InfoSlot :=
  if 0 ≤ varid then
    match slots[varid.toNat]? with
    | some slot => .ok slot
    | none => .error .outOfBounds
  else .error .outOfBounds

structure InfoHeap where
  varinfos : Heap.Objects VarInfo
  transinfos : Heap.Objects TransInfo

def InfoHeap.loadVarinfo (h : InfoHeap) : Option Nat → Except CacheFault (Option VarInfo)
  | none => .ok none
  | some p =>
    match h.varinfos.get p with
    | some vi => .ok (some vi)
    | none => .error .freed

def InfoHeap.loadTransinfo (h : InfoHeap) : Option Nat → Except CacheFault (Option TransInfo)
  | none => .ok none
  | some p =>
    match h.transinfos.get p with
    | some ti => .ok (some ti)
    | none => .error .freed

/-- `invalidate_varinfo` -/
def InfoHeap.invalidateVarinfo (h : InfoHeap) : Option Nat → Except CacheFault InfoHeap
  | none => .ok h
  | some p =>
    match h.varinfos.free p with
    | some varinfos => .ok { h with varinfos := varinfos }
    | none => .error .freed

/-- `invalidate_transinfo`: the number of the blocks is that of the physical variable. -/
def InfoHeap.invalidateTransinfo (h : InfoHeap) (physVarinfo : Nat) :
    Option Nat → Except CacheFault InfoHeap
  | none => .ok h
  | some p =>
    match h.varinfos.get physVarinfo, h.transinfos.free p with
    | some _, some transinfos => .ok { h with transinfos := transinfos }
    | _, _ => .error .freed

def InfoSlot.invalidateTransinfo (slot : InfoSlot) (h : InfoHeap) :
    Except CacheFault (InfoHeap × InfoSlot) :=
  match slot.physicalVarinfo with
  | none => .ok (h, slot)
  | some p => do
    let h ← h.invalidateTransinfo p slot.transinfo
    return (h, { slot with transinfo := none })

/-- The body of the loop of `adios_infocache_invalidate`. -/
def InfoSlot.invalidate (slot : InfoSlot) (h : InfoHeap) :
    Except CacheFault (InfoHeap × InfoSlot) := do
  let (h, slot) ← slot.invalidateTransinfo h
  let h ← h.invalidateVarinfo slot.physicalVarinfo
  let h ← h.invalidateVarinfo slot.logicalVarinfo
  return (h, { slot with physicalVarinfo := none, logicalVarinfo := none })

/-- `adios_infocache_invalidate` -/
def adiosInfocacheInvalidate : Slots → InfoHeap → Except CacheFault (InfoHeap × Slots)
  | [], h => .ok (h, [])
  | slot :: slots, h => do
    let (h, slot) ← slot.invalidate h
    let (h, slots) ← adiosInfocacheInvalidate slots h
    return (h, slot :: slots)

/-! ## An open file with its cache -/

structure CachedFile where
  fp : AdiosFile
  isStreaming : Bool
  dataView : DataView
  infocache : Slots
  heap : InfoHeap

/-- The data view "by default starts in logical view mode", and the cache is
`adios_infocache_new ()`. -/
def CachedFile.opened (fp : AdiosFile) (isStreaming : Bool) : CachedFile where
  fp := fp
  isStreaming := isStreaming
  dataView := .logical
  infocache := expandInfocache [] initialInfocacheSize
  heap := ⟨.empty, .empty⟩

/-- `common_read_set_data_view` -/
def CachedFile.setDataView (s : CachedFile) (view : DataView) : CachedFile :=
  { s with dataView := view }

def CachedFile.setFile (s : CachedFile) (fp : AdiosFile) : CachedFile := { s with fp := fp }

def CachedFile.expandFor (s : CachedFile) (varid : Int) : CachedFile :=
  { s with infocache := Infocache.expandFor s.infocache varid }

/-- "`return *varinfo = …`" -/
def CachedFile.storeVarinfo (s : CachedFile) (varid : Int) (slot : InfoSlot) :
    Option VarInfo → Option Nat × CachedFile
  | none => (none, s)
  | some vi => (some s.heap.varinfos.next, { s with
      infocache :=
        s.infocache.set varid.toNat (slot.setVarinfo s.heap.varinfos.next s.dataView)
      heap := { s.heap with varinfos := s.heap.varinfos.alloc vi } })

/-- "`return cache->transinfos[varid] = …`" -/
def CachedFile.storeTransinfo (s : CachedFile) (varid : Int) (slot : InfoSlot) :
    Option TransInfo → Option Nat × CachedFile
  | none => (none, s)
  | some ti => (some s.heap.transinfos.next, { s with
      infocache := s.infocache.set varid.toNat (slot.setTransinfo s.heap.transinfos.next)
      heap := { s.heap with transinfos := s.heap.transinfos.alloc ti } })

section Operations

variable (hooks : ReadHooks) (s : CachedFile)

/-- `adios_infocache_inq_varinfo` -/
def adiosInfocacheInqVarinfo (varid : Int) : Except CacheFault (Option Nat × CachedFile) := do
  let s := s.expandFor varid
  let slot ← slotAt s.infocache varid
  match slot.varinfo s.dataView with
  | some p => return (some p, s)
  | none =>
    let vi ← (commonReadInqVarByid hooks s.fp s.dataView varid).mapError .reader
    return s.storeVarinfo varid slot vi

/-- The information for the transport layer: in the physical view of the data, which is set back
behind the inquiry. -/
def inqPhysicalVarinfo (varid : Int) : Except CacheFault (Option Nat × CachedFile) := do
  let (vi, s') ← adiosInfocacheInqVarinfo hooks (s.setDataView .physical) varid
  return (vi, s'.setDataView s.dataView)

/-- `adios_infocache_inq_transinfo` -/
def adiosInfocacheInqTransinfo (varid : Int) : Except CacheFault (Option Nat × CachedFile) := do
  let s := s.expandFor varid
  let slot ← slotAt s.infocache varid
  match slot.transinfo with
  | some q => return (some q, s)
  | none =>
    let (p, s) ← inqPhysicalVarinfo hooks s varid
    let vi ← s.heap.loadVarinfo p
    let ti ← (commonReadInqTransinfo hooks s.fp vi).mapError .reader
    let slot ← slotAt s.infocache varid
    return s.storeTransinfo varid slot ti

/-- "Invalidate infocache, since all varinfos may have changed now", where the method has made the
step. -/
def afterStep (retval : Int) (fp : AdiosFile) : Except CacheFault (Int × CachedFile) :=
  if retval ≠ 0 then .ok (retval, s.setFile fp)
  else do
    let (heap, infocache) ← adiosInfocacheInvalidate s.infocache s.heap
    return (retval, { s with fp := fp, infocache := infocache, heap := heap })

/-- `common_read_advance_step` -/
def advanceStep (showHiddenAttrs last : Bool) (poll : Option BpIndex) :
    Except CacheFault (Int × CachedFile) := do
  let (retval, fp) ← (commonReadAdvanceStep showHiddenAttrs last poll s.fp).mapError .reader
  afterStep s retval fp

end Operations

/-! ## Scheduling a read -/

/-- "In streaming mode, ignore the user's from_steps/nsteps arguments" -/
def CachedFile.stepsToRead (s : CachedFile) (fromSteps nsteps : Int) : Int × Int :=
  if s.isStreaming then (0, 1) else (fromSteps, nsteps)

/-- The assertions of `adios_transform_generate_read_reqgroup`. -/
def requestFits (s : CachedFile) (fromSteps nsteps : Int) (vi : VarInfo) (ti : TransInfo) : Bool :=
  let (fromSteps, nsteps) := s.stepsToRead fromSteps nsteps
  ti.transformType ≠ .unknown && 0 ≤ fromSteps && fromSteps + nsteps ≤ vi.nsteps

/-- "Retrieve blockinfos, if they haven't been done retrieved", into the objects of the cache. -/
def retrieveBlockinfos (hooks : ReadHooks) (fp : AdiosFile) (vi : VarInfo) (ti : TransInfo) :
    Except Fault (VarInfo × TransInfo) := do
  let vi ← vi.blockinfo.elim (commonReadInqVarBlockinfoRaw hooks fp vi) fun _ => .ok vi
  let ti ← ti.origBlockinfo.elim (hooks.inqVarTransBlockinfo fp vi ti) fun _ => .ok ti
  return (vi, ti)

def delegates (view : DataView) (ti : TransInfo) : Bool :=
  view = .logical && ti.transformType ≠ .none

/-- `adios_transform_generate_read_reqgroup`, as far as it has to do with the objects of the
cache. -/
def generateReadReqgroup (hooks : ReadHooks) (s : CachedFile) (p q : Nat) (vi : VarInfo)
    (ti : TransInfo) (fromSteps nsteps : Int) : Except CacheFault CachedFile :=
  if requestFits s fromSteps nsteps vi ti then do
    let (vi, ti) ← (retrieveBlockinfos hooks s.fp vi ti).mapError .reader
    return { s with heap :=
      ⟨s.heap.varinfos.write p vi, s.heap.transinfos.write q ti⟩ }
  else .error .assertion

/-- "`assert (raw_varinfo && transinfo)`", and the transform is asked where the read is
delegated. -/
def delegateRead (hooks : ReadHooks) (s : CachedFile) (fromSteps nsteps : Int) :
    Option Nat → Option Nat → Except CacheFault CachedFile
  | some p, some q =>
    match s.heap.varinfos.get p, s.heap.transinfos.get q with
    | some vi, some ti =>
      if delegates s.dataView ti then generateReadReqgroup hooks s p q vi ti fromSteps nsteps
      else .ok s
    | _, _ => .error .freed
  | _, _ => .error .assertion

/-- `common_read_schedule_read_byid`, up to the requests that are sent. -/
def scheduleReadByid (hooks : ReadHooks) (s : CachedFile) (varid fromSteps nsteps : Int) :
    Except CacheFault CachedFile :=
  if 0 ≤ varid ∧ varid < s.fp.nvars then do
    let (rawVarinfo, s) ← inqPhysicalVarinfo hooks s varid
    let (transinfo, s) ← adiosInfocacheInqTransinfo hooks s varid
    delegateRead hooks s fromSteps nsteps rawVarinfo transinfo
  else .ok s

/-! ## Runs -/

inductive Call where
  | groupView (groupid : Int)
  | advanceStep (last : Bool) (poll : Option BpIndex)
  | setDataView (view : DataView)
  | inqVarinfo (varid : Int)
  | inqTransinfo (varid : Int)
  | scheduleReadByid (varid fromSteps nsteps : Int)

inductive Returned where
  | status (retval : Int)
  | varinfo (vi : Option VarInfo)
  | transinfo (ti : Option TransInfo)
  deriving DecidableEq, Repr

/-- An inquiry through the cache, and a look at the object that it returns. -/
def returnedVarinfo (hooks : ReadHooks) (s : CachedFile) (varid : Int) :
    Except CacheFault (CachedFile × Returned) := do
  let (p, s) ← adiosInfocacheInqVarinfo hooks s varid
  let vi ← s.heap.loadVarinfo p
  return (s, .varinfo vi)

@[inherit_doc returnedVarinfo]
def returnedTransinfo (hooks : ReadHooks) (s : CachedFile) (varid : Int) :
    Except CacheFault (CachedFile × Returned) := do
  let (p, s) ← adiosInfocacheInqTransinfo hooks s varid
  let ti ← s.heap.loadTransinfo p
  return (s, .transinfo ti)

def Call.run (hooks : ReadHooks) (showHiddenAttrs : Bool) (s : CachedFile) :
    Call → Except CacheFault (CachedFile × Returned)
  | groupView groupid =>
    let (retval, fp) := commonReadGroupView groupid s.fp
    .ok (s.setFile fp, .status retval)
  | advanceStep last poll =>
    (Infocache.advanceStep s showHiddenAttrs last poll).map fun r => (r.2, .status r.1)
  | setDataView view => .ok (s.setDataView view, .status 0)
  | inqVarinfo varid => returnedVarinfo hooks s varid
  | inqTransinfo varid => returnedTransinfo hooks s varid
  | scheduleReadByid varid fromSteps nsteps =>
    (Infocache.scheduleReadByid hooks s varid fromSteps nsteps).map fun s => (s, .status 0)

def step (hooks : ReadHooks) (showHiddenAttrs : Bool) :
    Runs.Step CachedFile Call Returned CacheFault :=
  fun s call => (call.run hooks showHiddenAttrs s).map some

end Adios.Infocache
