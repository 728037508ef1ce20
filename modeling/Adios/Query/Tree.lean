import Adios.Query.Bitmap

/-!
# Adios — query trees

`ADIOS_QUERY`: leaves with a selection of a variable, combined two by two. A combination and the
check for a time step compare the leftmost leaves of the two sides.
-/

namespace Adios

/-- `ADIOS_VARINFO` with its blocks: the extents of each block of each step. `nblocks` and
`blockinfo` are arrays made from these. -/
structure QueryVarInfo where
  typeSize : UInt64
  dims : List UInt64
  steps : List (List (List UInt64))
  steps_ne_nil : steps ≠ []
  count_length : ∀ step ∈ steps, ∀ count ∈ step, count.length = dims.length

def QueryVarInfo.nblocks (v : QueryVarInfo) : List Int :=
  v.steps.map fun blocks => (blocks.length : Int)

def QueryVarInfo.blockinfo (v : QueryVarInfo) : List (List UInt64) := v.steps.flatten

/-- What a query uses of an `ADIOS_FILE`; `vars` is what `common_read_inq_var` finds. -/
structure QueryFile where
  isStreaming : Bool
  currentStep : Nat
  vars : List (String × QueryVarInfo)

/-- The selections that `common_query_create` takes. -/
inductive Selection where
  | boundingBox (bb : BoundingBox)
  | points (npoints : UInt64) (points : List (List UInt64))
  | writeBlock (index : Int)
  deriving DecidableEq, Repr

/-- `ADIOS_QUERY` without subqueries; `file` and `varName` are never `NULL`. -/
structure LeafQuery where
  file : QueryFile
  varName : String
  sel : Option Selection
  rawDataSize : UInt64

/-- `ADIOS_CLAUSE_OP_MODE` -/
inductive ClauseOp where
  | and
  | or
  deriving DecidableEq, Repr

/-- `ADIOS_QUERY` -/
inductive Query where
  | leaf (q : LeafQuery)
  | node (combineOp : ClauseOp) (left right : Query)

/-! ## Sizes -/

/-- `*total_byte_size *= count [j]` and `*dataSize *= count [j]` for all `j`. -/
def scaleSizes (sizes : UInt64 × UInt64) (count : List UInt64) : UInt64 × UInt64 :=
  count.foldl (fun sizes c => (sizes.1 * c, sizes.2 * c)) sizes

def boundingBoxSizes : (dims start count : List UInt64) → UInt64 × UInt64 →
    Except Fault (Option (UInt64 × UInt64))
  | [], _, _, sizes => .ok (some sizes)
  | d :: dims, s :: start, c :: count, sizes =>
    if s + c > d then .ok none
    else boundingBoxSizes dims start count (sizes.1 * c, sizes.2 * c)
  | _ :: _, _, _, _ => .error .outOfBounds

/-- The least number of blocks of a step, and `absBlockCounter`. -/
def blockCounters (nblocks : List Int) (index timestep : Int) : Int × Int :=
  let first := nblocks.headD 0
  if 1 < nblocks.length then
    (nblocks.foldl (fun least n => if n < least then n else least) first,
      (nblocks.take timestep.toNat).foldl (· + ·) index)
  else (first, index)

def writeBlockSizes (v : QueryVarInfo) (index timestep : Int) (sizes : UInt64 × UInt64) :
    Except Fault (Option (UInt64 × UInt64)) :=
  let (least, absBlockCounter) := blockCounters v.nblocks index timestep
  if index > least then .ok none
  else if v.dims = [] then .ok (some sizes)
  else if absBlockCounter < 0 then .error .outOfBounds
  else
    match v.blockinfo[absBlockCounter.toNat]? with
    | none => .error .outOfBounds
    | some count => .ok (some (scaleSizes sizes count))

/-- `getTotalByteSize`: the two sizes, or nothing for `-1`. -/
def getTotalByteSize (v : QueryVarInfo) (sel : Option Selection) (timestep : Int) :
    Except Fault (Option (UInt64 × UInt64)) :=
  match sel with
  | none => .ok (some (scaleSizes (v.typeSize, 1) v.dims))
  | some (.boundingBox bb) => boundingBoxSizes v.dims bb.start bb.count (v.typeSize, 1)
  | some (.points npoints _) => .ok (some (v.typeSize * npoints, npoints))
  | some (.writeBlock index) => writeBlockSizes v index timestep (v.typeSize, 1)

/-! ## Compatibility -/

/-- `isSelectionCompatible` -/
def isSelectionCompatible (first second : Option Selection) : Int :=
  match first, second with
  | none, _ => 0
  | _, none => 0
  | some (.boundingBox _), some (.boundingBox _) => 0
  | some (.points npoints _), some (.points npoints' _) => if npoints ≠ npoints' then -1 else 1
  | some (.writeBlock _), some (.writeBlock _) => 0
  | _, _ => -1

/-- `isCompatible`: 0 if yes -/
def isCompatible : Query → Query → Int
  | .leaf q1, .leaf q2 =>
    if q1.rawDataSize ≠ q2.rawDataSize then -1
    else if q1.sel.isSome ∧ q2.sel.isSome then isSelectionCompatible q1.sel q2.sel
    else 0
  | .node _ left _, q2 => isCompatible left q2
  | .leaf q1, .node _ left _ => isCompatible (.leaf q1) left

/-- `common_query_combine` -/
def commonQueryCombine (q1 : Query) (operator : ClauseOp) (q2 : Query) : Option Query :=
  if isCompatible q1 q2 ≠ 0 then none else some (.node operator q1 q2)

/-- `adios_check_query_at_timestep` for a leaf -/
def checkLeafAtTimestep (q : LeafQuery) (timeStep : Int) : Except Fault (Int × LeafQuery) :=
  if timeStep < 0 then .ok (-1, q)
  else if q.file.isStreaming ∧ timeStep ≠ 0 then .ok (-1, q)
  else
    let timeStep : Int := if q.file.isStreaming then q.file.currentStep else timeStep
    match q.file.vars.lookup q.varName with
    | none => .ok (-1, q)
    | some v => do
      match ← getTotalByteSize v q.sel timeStep with
      | none => return (-1, q)
      | some (_, dataSize) => return (timeStep, { q with rawDataSize := dataSize })

/-- `adios_check_query_at_timestep`: the time step or -1, and the query with the sizes of its
leaves. -/
def checkQueryAtTimestep : Query → Int → Except Fault (Int × Query)
  | .leaf q, timeStep => do
    let (result, q) ← checkLeafAtTimestep q timeStep
    return (result, .leaf q)
  | .node op left right, timeStep =>
    if timeStep < 0 then .ok (-1, .node op left right)
    else do
      let (leftTimeStep, left) ← checkQueryAtTimestep left timeStep
      let (rightTimeStep, right) ← checkQueryAtTimestep right timeStep
      if rightTimeStep = -1 ∨ leftTimeStep = -1 then return (-1, .node op left right)
      else if isCompatible left right ≠ 0 then return (-1, .node op left right)
      else return (leftTimeStep, .node op left right)

end Adios
