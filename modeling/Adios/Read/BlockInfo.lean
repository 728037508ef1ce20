import Adios.Read.Dimensions
import Adios.Read.SeekStep

/-!
# Adios — the blocks of a variable

`inq_var_blockinfo` of `read_bp.c`, with the two functions that call it. The blocks are looked at
one after the other with the same three arrays and one number of dimensions, which becomes smaller
by one where the last counted length is 0. A variable is given as its id is resolved.
-/

namespace Adios.BlockInfo

open Lists VarSteps Wire WrittenArray

/-! ## The code -/

structure Setting where
  streaming : Bool
  currentStep : Int
  fileIsFortran : Bool
  calledFromFortran : Bool
  deriving DecidableEq, Repr

/-- `ADIOS_VARBLOCK`: the places that nothing is copied to have no value. -/
structure VarBlock where
  start : List (Option UInt64)
  count : List (Option UInt64)
  deriving DecidableEq, Repr

/-- "Only use pre-transform dimensions if A) pre-transform dimensions were requested, and B) this
varblock is actually transformed." -/
def blockDims (usePretransform : Bool) (c : IndexCharacteristic) : Dims :=
  if usePretransform = true ∧ c.transform.transformType ≠ .none then
    c.transform.preTransformDimensions
  else c.dims

structure Shared where
  dimcount : Nat
  ldims : List (Option UInt64)
  gdims : List (Option UInt64)
  offsets : List (Option UInt64)
  deriving DecidableEq, Repr

def overwrite (array : List (Option UInt64)) (numbers : List UInt64) :
    Except Fault (List (Option UInt64)) :=
  if numbers.length ≤ array.length then .ok (numbers.map some ++ array.drop numbers.length)
  else .error .outOfBounds

/-- "`bp_get_dimension_generic_notime(blk_dims, ldims, gdims, offsets, file_is_fortran)`", if there
is a block. -/
def Shared.fill (st : Shared) (s : Setting) : Option Dims → Except Fault Shared
  -- "shoudn't be here."
  | none => .ok st
  | some dims => do
    let a ← bpGetDimensionGenericNotime dims s.fileIsFortran
    let ldims ← overwrite st.ldims a.ldims
    let gdims ← overwrite st.gdims a.gdims
    let offsets ← overwrite st.offsets a.offsets
    return { st with ldims, gdims, offsets }

/-- "`if (ldims[dimcount - 1] == 0) dimcount--;`" -/
def Shared.shorten (st : Shared) : Except Fault Shared :=
  if st.dimcount = 0 then .error .outOfBounds
  else
    match st.ldims[st.dimcount - 1]? with
    | some (some l) => .ok (if l = 0 then { st with dimcount := st.dimcount - 1 } else st)
    -- a place that nothing was stored in
    | _ => .error .outOfBounds

/-- `swap_order` for the first `n` places. -/
def swapFirst (n : Nat) (array : List (Option UInt64)) : List (Option UInt64) :=
  exchangeEnds (array.take n) (n / 2) ++ array.drop n

/-- "For Fortran callers, we have to swap it back here" -/
def Shared.toCaller (st : Shared) (s : Setting) : Shared :=
  if s.calledFromFortran then
    { st with ldims := swapFirst st.dimcount st.ldims
              offsets := swapFirst st.dimcount st.offsets }
  else st

/-- `n` places copied to an array of `room` places. -/
def copied (room n : Nat) (array : List (Option UInt64)) : List (Option UInt64) :=
  array.take n ++ List.replicate (room - n) none

def blockRound (s : Setting) (dims : Option Dims) (st : Shared) :
    Except Fault (Shared × VarBlock) := do
  let filled ← st.fill s dims
  let shorter ← filled.shorten
  let last := shorter.toCaller s
  return (last, { start := copied st.dimcount last.dimcount last.offsets
                  count := copied st.dimcount last.dimcount last.ldims })

def fileLoop (s : Setting) : List Dims → Shared → Except Fault (List VarBlock)
  | [], _ => .ok []
  | dims :: rest, st => do
    let r ← blockRound s (some dims) st
    let blocks ← fileLoop s rest r.1
    return r.2 :: blocks

/-- "`while (j < var_root->characteristics_count && ….time_index != time) j++;`" -/
def seekTime (time : UInt32) :
    Nat → List IndexCharacteristic → Except Fault (Nat × List IndexCharacteristic)
  | j, [] => .ok (j, [])
  | j, c :: cs =>
    if c.timeIndex ≠ time then do
      let j ← incr j
      seekTime time j cs
    else .ok (j, c :: cs)

/-- The loop over the blocks of a step, with the sets from `j` on. -/
def streamLoop (s : Setting) (usePretransform : Bool) (time : UInt32) :
    Nat → Nat → List IndexCharacteristic → Shared → Except Fault (List VarBlock)
  | 0, _, _, _ => .ok []
  | n + 1, j, cs, st => do
    match ← seekTime time j cs with
    | (j, []) =>
      let r ← blockRound s none st
      let blocks ← streamLoop s usePretransform time n j [] r.1
      return r.2 :: blocks
    | (j, c :: cs) =>
      let r ← blockRound s (some (blockDims usePretransform c)) st
      let j ← incr j
      let blocks ← streamLoop s usePretransform time n j cs r.1
      return r.2 :: blocks

/-- `nblks`, which is also `sum_nblocks` of `bp_inq_var_byid`: for a stream one step is counted. -/
def nblks (s : Setting) (v : IndexEntry) : Except Fault Int :=
  if s.streaming then do
    match ← getVarNblocks true v 1 with
    | n :: _ => .ok n
    | [] => .error .outOfBounds
  else .ok (cut32 v.characteristics.length)

/-- `inq_var_blockinfo` -/
def inqVarBlockinfo (s : Setting) (v : IndexEntry) (usePretransform : Bool) :
    Except Fault (List VarBlock) := do
  let n ← nblks s v
  -- no memory is as large as "`nblks * sizeof (ADIOS_VARBLOCK)`"
  if n < 0 then .error .assertion
  else
    match v.characteristics with
    | [] => .error .outOfBounds
    | root :: _ => do
      let dimcount := (blockDims usePretransform root).count.toNat
      let fresh := List.replicate dimcount none
      let st : Shared := { dimcount, ldims := fresh, gdims := fresh, offsets := fresh }
      let time ← SeekStep.stepToTime s.streaming s.currentStep 0 v
      if s.streaming then
        streamLoop s usePretransform (UInt32.ofInt time) n.toNat 0 v.characteristics st
      else fileLoop s ((v.characteristics.take n.toNat).map (blockDims usePretransform)) st

/-- `adios_read_bp_inq_var_blockinfo` -/
def adiosReadBpInqVarBlockinfo (s : Setting) (v : IndexEntry) : Except Fault (List VarBlock) :=
  inqVarBlockinfo s v false

/-- `orig_blockinfo` and `transform_metadatas` of `ADIOS_TRANSINFO`. -/
structure TransBlockinfo where
  origBlockinfo : List VarBlock
  transformMetadatas : List (UInt16 × List UInt8)
  deriving DecidableEq, Repr

/-- `streaming_block_offset` -/
def streamingBlockOffset (s : Setting) (v : IndexEntry) : Except Fault Int :=
  if s.streaming then do
    let time ← SeekStep.stepToTime s.streaming s.currentStep 0 v
    return getVarStartIndex v time
  else .ok 0

/-- `adios_read_bp_inq_var_trans_blockinfo` -/
def adiosReadBpInqVarTransBlockinfo (s : Setting) (v : IndexEntry) :
    Except Fault TransBlockinfo := do
  let blocks ← inqVarBlockinfo s v true
  let sumNblocks ← nblks s v
  let offset ← streamingBlockOffset s v
  -- an `int` below 0 is a large `uint64_t`
  if offset < 0 ∨ v.characteristics.length ≤ offset ∨
      (v.characteristics.length : Int) < offset + sumNblocks then .error .assertion
  else
    return { origBlockinfo := blocks
             transformMetadatas :=
              ((v.characteristics.drop offset.toNat).take sumNblocks.toNat).map fun c =>
                (c.transform.transformMetadataLen, c.transform.transformMetadata) }

/-! ## What the writer put -/

inductive TimeEnd where
  | first | last
  deriving DecidableEq, Repr

def TimeEnd.at : TimeEnd → List UInt64 → Option UInt64
  | first, array => array.head?
  | last, array => array.getLast?

def TimeEnd.without : TimeEnd → List UInt64 → List UInt64
  | first, array => array.tail
  | last, array => array.dropLast

/-- A variable as it is written, all of it with the same dimensions: the sets have the dimensions
that the view shows, the time is a dimension of length 1, and the offsets have a place for it or end
with a number too many. -/
structure WrittenVar where
  var : IndexEntry
  usePretransform : Bool
  count : UInt8
  nonempty : var.characteristics ≠ []
  same : ∀ c ∈ var.characteristics,
    (blockDims usePretransform c).count = count ∧ (blockDims usePretransform c).Wf
  time : Option TimeEnd
  one : ∀ e ∈ time, ∀ c ∈ var.characteristics,
    e.at ((blockDims usePretransform c).numbers 0) = some 1
  offsetsTimed : Bool

namespace WrittenVar

variable (w : WrittenVar) (s : Setting)

def ldims (c : IndexCharacteristic) : List UInt64 := (blockDims w.usePretransform c).numbers 0

def gdims (c : IndexCharacteristic) : List UInt64 := (blockDims w.usePretransform c).numbers 1

def offsets (c : IndexCharacteristic) : List UInt64 := (blockDims w.usePretransform c).numbers 2

def writtenCount (c : IndexCharacteristic) : List UInt64 :=
  match w.time with
  | none => w.ldims c
  | some e => e.without (w.ldims c)

def writtenStart (c : IndexCharacteristic) : List UInt64 :=
  match w.time with
  | none => w.offsets c
  | some e => if w.offsetsTimed then e.without (w.offsets c) else (w.offsets c).dropLast

def callerOrder (numbers : List UInt64) : List UInt64 :=
  cOrder s.calledFromFortran (cOrder s.fileIsFortran numbers)

structure BlockRight (c : IndexCharacteristic) (b : VarBlock) : Prop where
  start : (callerOrder s (w.writtenStart c)).map some <+: b.start
  count : (callerOrder s (w.writtenCount c)).map some <+: b.count

def sets : List IndexCharacteristic :=
  if s.streaming then
    w.var.characteristics.filter (·.timeIndex = UInt32.ofInt (s.currentStep + 1))
  else w.var.characteristics

def blocks : Except Fault (List VarBlock) :=
  if w.usePretransform then do
    let r ← adiosReadBpInqVarTransBlockinfo s w.var
    return r.origBlockinfo
  else adiosReadBpInqVarBlockinfo s w.var

def Right : Prop := ∃ blocks, w.blocks s = .ok blocks ∧
  List.Forall₂ (w.BlockRight s) (w.sets s) blocks

/-! ## Where that is so -/

def cCount (c : IndexCharacteristic) : List UInt64 := cOrder s.fileIsFortran (w.ldims c)

def cStart (c : IndexCharacteristic) : List UInt64 := cOrder s.fileIsFortran (w.offsets c)

/-- `has_time`: the last global number is 0, and the slowest dimension has length 1. -/
def LooksTimed (c : IndexCharacteristic) : Prop :=
  (w.gdims c).getLast? = some 0 ∧ (w.cCount s c).head? = some 1

instance (c : IndexCharacteristic) : Decidable (w.LooksTimed s c) :=
  inferInstanceAs (Decidable (_ ∧ _))

def IsGlobal (c : IndexCharacteristic) : Prop := ∃ g ∈ w.gdims c, g ≠ 0

instance (c : IndexCharacteristic) : Decidable (w.IsGlobal c) :=
  inferInstanceAs (Decidable (∃ g ∈ w.gdims c, g ≠ 0))

def AllEqual (numbers : List UInt64) : Prop := ∀ m ∈ numbers, ∀ n ∈ numbers, m = n

def slowest (e : TimeEnd) : Bool := (e = .first) ≠ (s.fileIsFortran = true)

def startSlowest (e : TimeEnd) : Bool :=
  if w.offsetsTimed then slowest s e else s.fileIsFortran

/-- The last of the lengths is 0: it is made so where a time is taken out of a block of a global
array. -/
def LastZero (c : IndexCharacteristic) : Prop :=
  w.LooksTimed s c ∧ w.IsGlobal c ∨ (w.cCount s c).getLast? = some 0

instance (c : IndexCharacteristic) : Decidable (w.LastZero s c) :=
  inferInstanceAs (Decidable (_ ∨ _))

structure Fits (e : TimeEnd) (c : IndexCharacteristic) : Prop where
  count : (w.LooksTimed s c ↔ slowest s e = true) ∨ AllEqual (w.cCount s c)
  start : (w.LooksTimed s c ∧ w.IsGlobal c ∧ s.fileIsFortran = true ↔ w.startSlowest s e = true) ∨
    AllEqual (w.cStart s c)

/-- The same for a number behind the others that the caller takes for the first: the slowest
dimension is left out in any case, and another one if the time is found. -/
structure FitsBehind (e : TimeEnd) (c : IndexCharacteristic) : Prop where
  count : if w.LooksTimed s c then
      AllEqual (if slowest s e then (w.cCount s c).tail else w.cCount s c)
    else slowest s e = true ∨ AllEqual (w.cCount s c)
  start : w.startSlowest s e = true ∨ AllEqual (w.cStart s c)

/-- Without a time, no block has 0 as its fastest dimension or seems to have a time. With a time it
fits in all blocks, and behind the first block with 0 as the last length the fastest dimension is
not 0. Up to that block a caller in Fortran sees one number more. -/
def SizesFit : Prop :=
  match w.time with
  | none => ∀ c ∈ w.sets s, (w.cCount s c).getLast? ≠ some 0 ∧
      (w.LooksTimed s c → ¬w.IsGlobal c ∧ AllEqual (w.cCount s c))
  | some e =>
    (∀ c ∈ (w.sets s).takeWhile fun c => ¬w.LastZero s c,
      if s.calledFromFortran then w.FitsBehind s e c else w.Fits s e c) ∧
    (∀ c ∈ (w.sets s).dropWhile fun c => ¬w.LastZero s c, w.Fits s e c) ∧
    ∀ c ∈ ((w.sets s).dropWhile fun c => ¬w.LastZero s c).tail,
      (cOrder s.fileIsFortran (w.writtenCount c)).getLast? ≠ some 0

def firstBlocks (ts : List UInt32) : Nat :=
  match ts with
  | [] => 0
  | t :: _ => (ts.takeWhile (· = t)).length

/-- An `int` counts the sets, and the current step has as many as the first one. -/
def Counted : Prop :=
  if s.streaming then
    (times w.var).head? ≠ some 0xffffffff ∧
    firstBlocks (times w.var) = (w.sets s).length ∧
    ∀ i, (times w.var)[i]? = some (UInt32.ofInt (s.currentStep + 1)) → i + 1 < 2147483648
  else w.var.characteristics.length < 2147483648

structure Clear : Prop where
  counted : w.Counted s
  dims : w.count ≠ 0
  sizes : w.SizesFit s

end WrittenVar

end Adios.BlockInfo
