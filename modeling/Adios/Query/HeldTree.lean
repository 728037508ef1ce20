import Adios.Heap.Objects
import Adios.Query.PgBounds

/-!
# Adios — what a query tree holds

The leaves of a query tree point to variable information and to a data slice. A check for a time
step frees both and allocates them again; an estimate and an evaluation begin with such a check,
and what a query method does afterwards is a parameter. `common_query_free` is called for each node.
-/

namespace Adios.HeldQuery

open Heap
open PgBounds (VarBlock LeafVarinfo computePgBounds)

/-! ## Variables and files -/

/-- `ADIOS_VARINFO` with the blocks of each step. -/
structure VarInfo where
  typeSize : UInt64
  dims : List UInt64
  steps : List (List VarBlock)
  steps_ne_nil : steps ≠ []
  start_length : ∀ blocks ∈ steps, ∀ b ∈ blocks, b.start.length = dims.length
  count_length : ∀ blocks ∈ steps, ∀ b ∈ blocks, b.count.length = dims.length
  /-- `sum_nblocks` is an `int`. -/
  total : (steps.map List.length).sum < 2147483648

def VarInfo.extents (v : VarInfo) : QueryVarInfo where
  typeSize := v.typeSize
  dims := v.dims
  steps := v.steps.map fun blocks => blocks.map (·.count)
  steps_ne_nil h := v.steps_ne_nil (List.map_eq_nil_iff.mp h)
  count_length := by
    intro step hstep count hcount
    obtain ⟨blocks, hblocks, rfl⟩ := List.mem_map.mp hstep
    obtain ⟨b, hb, rfl⟩ := List.mem_map.mp hcount
    exact v.count_length blocks hblocks b hb

/-- The part in which `computePGBounds` looks for a block. -/
def VarInfo.bounds (v : VarInfo) : LeafVarinfo where
  ndim := v.dims.length
  steps := v.steps
  start_length := v.start_length
  count_length := v.count_length
  total := v.total

/-- What a query uses of an `ADIOS_FILE`; `vars` is what `common_read_inq_var` finds. -/
structure File where
  path : String
  isStreaming : Bool
  currentStep : Nat
  vars : List (String × VarInfo)

inductive Object where
  | varinfo (v : VarInfo)
  | dataSlice (totalByteSize : UInt64)

abbrev Memory : Type := Objects Object

/-- `free` and `common_read_free_varinfo`, which do nothing for `NULL`. -/
def release (p : Option Nat) (m : Memory) : Except Fault Memory :=
  match p with
  | none => .ok m
  | some p =>
    match m.free p with
    | none => .error .wildPointer
    | some m => .ok m

/-! ## Trees -/

/-- `ADIOS_QUERY` without subqueries; `file` and `varName` are never `NULL`. -/
structure Leaf where
  file : File
  varName : String
  sel : Option Selection
  varinfo : Option Nat
  dataSlice : Option Nat
  rawDataSize : UInt64

/-- `ADIOS_QUERY` -/
inductive Tree where
  | leaf (q : Leaf)
  | node (combineOp : ClauseOp) (left right : Tree)

/-- A leaf as `common_query_create` makes it. -/
def Leaf.fresh (q : Leaf) : Leaf := { q with varinfo := none, dataSlice := none, rawDataSize := 0 }

def Tree.mapLeaves (f : Leaf → Leaf) : Tree → Tree
  | .leaf q => .leaf (f q)
  | .node op left right => .node op (left.mapLeaves f) (right.mapLeaves f)

def Tree.fresh (t : Tree) : Tree := t.mapLeaves Leaf.fresh

def Tree.leaves : Tree → List Leaf
  | .leaf q => [q]
  | .node _ left right => left.leaves ++ right.leaves

def Tree.names (t : Tree) : List (String × String) := t.leaves.map fun q => (q.file.path, q.varName)

/-- What `isCompatible` compares in a leaf. -/
def Leaf.sized (q : Leaf) : LeafQuery where
  file := ⟨q.file.isStreaming, q.file.currentStep, q.file.vars.map fun v => (v.1, v.2.extents)⟩
  varName := q.varName
  sel := q.sel
  rawDataSize := q.rawDataSize

def Tree.sized : Tree → Query
  | .leaf q => .leaf q.sized
  | .node op left right => .node op left.sized right.sized

inductive Variables where
  | leaf (v : VarInfo)
  | node (left right : Variables)

def Variables.bounds : Variables → PgBounds.Query
  | .leaf v => .leaf v.bounds
  | .node left right => .node left.bounds right.bounds

/-- `q->varinfo` of each leaf, followed. -/
def Tree.vars (m : Memory) : Tree → Except Fault Variables
  | .leaf q =>
    match q.varinfo.bind m.get with
    | some (.varinfo v) => .ok (.leaf v)
    | _ => .error .wildPointer
  | .node _ left right => do
    let left ← left.vars m
    let right ← right.vars m
    return .node left right

/-- There is a `q->varinfo` to follow in each leaf. -/
def Tree.followable (m : Memory) (t : Tree) : Bool :=
  t.leaves.all fun q => (q.varinfo.bind m.get).isSome

/-- The time step of the file and what `common_read_inq_var` finds. -/
def Leaf.lookUp (q : Leaf) (timeStep : Int) : Option (Int × VarInfo) :=
  if timeStep < 0 then none
  else if q.file.isStreaming ∧ timeStep ≠ 0 then none
  else
    (q.file.vars.lookup q.varName).map fun v =>
      (if q.file.isStreaming then (q.file.currentStep : Int) else timeStep, v)

/-- `adios_check_query_at_timestep` for a leaf -/
def checkLeafAtTimestep (q : Leaf) (timeStep : Int) (m : Memory) :
    Except Fault (Int × Leaf × Memory) :=
  match q.lookUp timeStep with
  | none => .ok (-1, q, m)
  | some (timeStep, v) => do
    let varinfo := m.next
    let m ← release q.varinfo (m.alloc (.varinfo v))
    let q := { q with varinfo := some varinfo }
    let m ← release q.dataSlice m
    match ← getTotalByteSize v.extents q.sel timeStep with
    -- `q->dataSlice` stays as it is
    | none => return (-1, q, m)
    | some (totalByteSize, dataSize) =>
      return (timeStep, { q with dataSlice := some m.next, rawDataSize := dataSize },
        m.alloc (.dataSlice totalByteSize))

/-- `adios_check_query_at_timestep`: the time step or -1. -/
def checkQueryAtTimestep : Tree → Int → Memory → Except Fault (Int × Tree × Memory)
  | .leaf q, timeStep, m => do
    let (result, q, m) ← checkLeafAtTimestep q timeStep m
    return (result, .leaf q, m)
  | .node op left right, timeStep, m =>
    if timeStep < 0 then .ok (-1, .node op left right, m)
    else do
      let (leftTimeStep, left, m) ← checkQueryAtTimestep left timeStep m
      let (rightTimeStep, right, m) ← checkQueryAtTimestep right timeStep m
      if rightTimeStep = -1 ∨ leftTimeStep = -1 then return (-1, .node op left right, m)
      else if isCompatible left.sized right.sized ≠ 0 then return (-1, .node op left right, m)
      else return (leftTimeStep, .node op left right, m)

/-! ## Query methods -/

/-- `ADIOS_QUERY_METHOD` -/
inductive QueryMethod where
  | fastbit
  | alacrity
  deriving DecidableEq, Repr

/-- `outputBoundary` -/
inductive OutputBoundary where
  | boundingBox (start count : List UInt64)
  | points (npoints : UInt64) (points : List (List UInt64))
  | auto
  | writeBlock (index : Int) (isAbsoluteIndex isSubPgSelection : Bool)
  deriving DecidableEq, Repr

/-- `adios_query_can_evaluate_fn`: what it says of the files and variables of a tree, and if it
follows `q->varinfo` of the leaves for that. -/
structure CanEvaluate where
  readsVarinfo : Bool
  found : List (String × String) → Bool

/-- What a method leaves: its own data, and for each leaf whose data slice it frees the size of a
new one. -/
structure Reply (σ α : Type) where
  result : α
  state : σ
  newSlice : Leaf → Option UInt64

/-- `adios_query_hooks_struct` of a method. It keeps data of its own beside the tree, and sees the
leaves, their variables and sizes. -/
structure Hooks (σ ρ : Type) where
  canEvaluate : Option CanEvaluate
  estimate : Option (Query → Variables → Int → σ → Reply σ Int)
  evaluate : Option (Query → Variables → Int → UInt64 → Option OutputBoundary → σ →
    Reply σ (Int × Option ρ))

structure State (σ : Type) where
  tree : Tree
  method : Option QueryMethod
  memory : Memory
  data : σ

section Calls

variable {σ ρ : Type} (hooks : QueryMethod → Hooks σ ρ)

/-- The values of `ADIOS_QUERY_METHOD` before `ADIOS_QUERY_METHOD_COUNT`. -/
def methods : List QueryMethod := [.fastbit, .alacrity]

def findMethod (t : Tree) (m : Memory) : List QueryMethod → Except Fault QueryMethod
  | [] => .ok .fastbit
  | method :: methods =>
    match (hooks method).canEvaluate with
    | none => findMethod t m methods
    | some can =>
      if can.readsVarinfo ∧ ¬t.followable m then .error .wildPointer
      else if can.found t.names then .ok method
      else findMethod t m methods

/-- `detect_and_set_query_method` -/
def detectAndSetQueryMethod (s : State σ) : Except Fault (QueryMethod × State σ) :=
  match s.method with
  | some method => .ok (method, s)
  | none => do
    let method ← findMethod hooks s.tree s.memory methods
    return (method, { s with method := some method })

def resliceLeaf (newSlice : Leaf → Option UInt64) (q : Leaf) (m : Memory) :
    Except Fault (Leaf × Memory) :=
  match newSlice q.fresh with
  | none => .ok (q, m)
  | some size => do
    let m ← release q.dataSlice m
    return ({ q with dataSlice := some m.next }, m.alloc (.dataSlice size))

def reslice (newSlice : Leaf → Option UInt64) : Tree → Memory → Except Fault (Tree × Memory)
  | .leaf q, m => do
    let (q, m) ← resliceLeaf newSlice q m
    return (.leaf q, m)
  | .node op left right, m => do
    let (left, m) ← reslice newSlice left m
    let (right, m) ← reslice newSlice right m
    return (.node op left right, m)

def finish {α : Type} (s : State σ) (reply : Reply σ α) : Except Fault (α × State σ) := do
  let (tree, memory) ← reslice reply.newSlice s.tree s.memory
  return (reply.result, { s with tree := tree, memory := memory, data := reply.state })

/-- `common_query_estimate` -/
def estimate (timestep : Int) (s : State σ) : Except Fault (Int × State σ) := do
  let (method, s) ← detectAndSetQueryMethod hooks s
  match (hooks method).estimate with
  | none => return (-1, s)
  | some estimateFn =>
    let (actualTimeStep, tree, memory) ← checkQueryAtTimestep s.tree timestep s.memory
    let s := { s with tree := tree, memory := memory }
    if actualTimeStep = -1 then return (-1, s)
    let vars ← s.tree.vars s.memory
    finish s (estimateFn s.tree.sized vars timestep s.data)

/-- `convertWriteblockToBoundingBox` and the use of its result: the message about `NULL` follows the
pointer that is `NULL`. -/
def convertOutputBoundary (outputBoundary : Option OutputBoundary) (timeStep : Int)
    (vars : Except Fault Variables) : Except Fault (Option OutputBoundary) :=
  match outputBoundary with
  | some (.writeBlock index isAbsoluteIndex isSubPgSelection) =>
    if isAbsoluteIndex ∨ isSubPgSelection then .error .assertion
    else do
      let vars ← vars
      match ← computePgBounds index timeStep vars.bounds with
      | none => .error .wildPointer
      | some (_, block) => return some (.boundingBox block.start block.count)
  | outputBoundary => .ok outputBoundary

/-- `common_query_evaluate` -/
def evaluate (outputBoundary : Option OutputBoundary) (timeStep : Int) (batchSize : UInt64)
    (s : State σ) : Except Fault ((Int × Option ρ) × State σ) := do
  let (actualTimeStep, tree, memory) ← checkQueryAtTimestep s.tree timeStep s.memory
  let s := { s with tree := tree, memory := memory }
  if actualTimeStep = -1 then return ((-1, none), s)
  let outputBoundary ← convertOutputBoundary outputBoundary timeStep (s.tree.vars s.memory)
  let (method, s) ← detectAndSetQueryMethod hooks s
  match (hooks method).evaluate with
  | none => return ((-1, none), s)
  | some evaluateFn =>
    let vars ← s.tree.vars s.memory
    finish s (evaluateFn s.tree.sized vars timeStep batchSize outputBoundary s.data)

def Leaf.advance (next : String → Nat × List (String × VarInfo)) (q : Leaf) : Leaf :=
  if q.file.isStreaming then
    { q with file := { q.file with
        currentStep := (next q.file.path).1
        vars := (next q.file.path).2 } }
  else q

/-! ## Runs -/

inductive Call where
  | estimate (timestep : Int)
  | evaluate (outputBoundary : Option OutputBoundary) (timeStep : Int) (batchSize : UInt64)
  | advance (next : String → Nat × List (String × VarInfo))

def call (s : State σ) : Call → Except Fault (State σ)
  | .estimate timestep => do
    let (_, s) ← estimate hooks timestep s
    return s
  | .evaluate outputBoundary timeStep batchSize => do
    let (_, s) ← evaluate hooks outputBoundary timeStep batchSize s
    return s
  | .advance next => .ok { s with tree := s.tree.mapLeaves (Leaf.advance next) }

def callAll : State σ → List Call → Except Fault (State σ)
  | s, [] => .ok s
  | s, c :: calls => do
    let s ← call hooks s c
    callAll s calls

end Calls

/-- `freeQuery`, what it does to the two pointers. -/
def freeQuery (q : Leaf) (m : Memory) : Except Fault Memory := do
  let m ← release q.varinfo m
  release q.dataSlice m

/-- `common_query_free` of the leaves in some order. -/
def freeAll : List Leaf → Memory → Except Fault Memory
  | [], m => .ok m
  | q :: leaves, m => do
    let m ← freeQuery q m
    freeAll leaves m

end Adios.HeldQuery
