import Adios.Runs.Every
import Adios.Types
import Mathlib.Algebra.Ring.Int.Defs

/-!
# Adios — the control thread of the Flexpath writer

The state of a writer's file, the messages that its control thread takes from the control queue
one after the other, and what it sends for each of them.
-/

namespace Adios.Flexpath

/-- `FlexpathStone`: what is kept of a reader. -/
structure FlexpathStone where
  step : Int
  opened : Bool
  created : Bool
  condition : Int
  deriving DecidableEq, Repr

/-- A buffer of `FMformat` fields. -/
abbrev Buffer := List (String × List UInt8)

/-- `FlexpathVarNode` -/
structure FlexpathVarNode where
  varName : String
  dimensions : List String
  rank : Int
  deriving DecidableEq, Repr

/-- `FlexpathWriteFileData`; a queue is a list whose head is its newest node. -/
structure FlexpathWriteFileData where
  bridges : List FlexpathStone
  maxQueueSize : Int
  openCount : Int
  readerStep : Int
  askedVars : List FlexpathVarNode
  formatVars : List FlexpathVarNode
  dataQueue : List Buffer
  deriving DecidableEq, Repr

inductive ControlMsg where
  | var (varName : String) (processId : Nat)
  | dataFlush (id : Int) (processId : Nat)
  | open (processId : Nat) (step condition : Int)
  | close (processId : Nat) (step condition : Int)
  deriving DecidableEq, Repr

inductive Submitted where
  | data (dstRank : Nat) (flushId : Int) (buffer : Buffer)
  | ack (dstRank : Nat) (step condition : Int)
  | dropEvgroup (step : Int)
  deriving DecidableEq, Repr

/-- `n++` of an `int` -/
def incrInt (n : Int) : Except Fault Int :=
  if n = 2 ^ 31 - 1 then .error .signedOverflow else .ok (n + 1)

/-- `n--` of an `int` -/
def decrInt (n : Int) : Except Fault Int :=
  if n = -2 ^ 31 then .error .signedOverflow else .ok (n - 1)

/-- `queue_contains` -/
def queueContains (queue : List FlexpathVarNode) (name : String) (rank : Int) :
    Option FlexpathVarNode :=
  queue.find? fun node => node.varName = name ∧ (0 ≤ rank → node.rank = rank)

def clearField (buffer : Buffer) (name : String) : Buffer :=
  buffer.map fun field => if field.1 = name then (field.1, field.2.map fun _ => 0) else field

/-- `copy_buffer`: arrays that the rank did not ask for are zeroed, and their dimensions. -/
def copyBuffer (fileData : FlexpathWriteFileData) (buffer : Buffer) (rank : Int) : Buffer :=
  buffer.foldl (fun temp field =>
    if (queueContains fileData.askedVars field.1 rank).isSome then temp
    else
      match queueContains fileData.formatVars field.1 (-1) with
      | some node =>
        if node.dimensions = [] then temp
        else clearField (node.dimensions.foldl clearField temp) field.1
      | none => temp) buffer

/-! ## Messages -/

/-- `process_var_msg` -/
def processVarMsg (fileData : FlexpathWriteFileData) (varName : String) (processId : Nat) :
    FlexpathWriteFileData :=
  { fileData with askedVars := fileData.askedVars ++ [⟨varName, [], processId⟩] }

/-- `process_data_flush` with the node at the end of the data queue -/
def processDataFlush (fileData : FlexpathWriteFileData) (id : Int) (processId : Nat)
    (dataNode : Buffer) : Except Fault (FlexpathWriteFileData × List Submitted) := do
  let temp := copyBuffer fileData dataNode processId
  match fileData.bridges[processId]? with
  | none => .error .outOfBounds
  | some bridge =>
    if bridge.opened then return (fileData, [.data processId id temp])
    else
      let openCount ← incrInt fileData.openCount
      return ({ fileData with
        bridges := fileData.bridges.set processId { bridge with opened := true }
        openCount := openCount }, [.data processId id temp])

/-- `process_open_msg` -/
def processOpenMsg (fileData : FlexpathWriteFileData) (processId : Nat) (step condition : Int) :
    Except Fault (FlexpathWriteFileData × List Submitted) :=
  match fileData.bridges[processId]? with
  | none => .error .outOfBounds
  | some bridge =>
    let bridge := { bridge with step := step, condition := condition, created := true }
    if step = fileData.readerStep then do
      let openCount ← incrInt fileData.openCount
      return ({ fileData with
        bridges := fileData.bridges.set processId { bridge with opened := true }
        openCount := openCount }, [.ack (processId + 1) fileData.readerStep condition])
    else .ok ({ fileData with bridges := fileData.bridges.set processId bridge }, [])

/-- The data of the step is dropped when nobody has it open; without data the control thread
waits. -/
def dropStep (fileData : FlexpathWriteFileData) :
    Except Fault (Option (FlexpathWriteFileData × List Submitted)) :=
  if fileData.openCount ≠ 0 then .ok (some (fileData, []))
  else if fileData.dataQueue = [] then .ok none
  else do
    let readerStep ← incrInt fileData.readerStep
    return some
      ({ fileData with dataQueue := fileData.dataQueue.dropLast, readerStep := readerStep },
      [.dropEvgroup fileData.readerStep])

/-- `process_close_msg` -/
def processCloseMsg (fileData : FlexpathWriteFileData) (processId : Nat) (condition : Int) :
    Except Fault (Option (FlexpathWriteFileData × List Submitted)) := do
  let openCount ← decrInt fileData.openCount
  match fileData.bridges[processId]? with
  | none => .error .outOfBounds
  | some bridge =>
    let dropped ← dropStep { fileData with
      openCount := openCount
      bridges := fileData.bridges.set processId
        { bridge with opened := false, condition := condition } }
    return dropped.map fun (fileData, submitted) =>
      (fileData, submitted ++ [.ack (processId + 1) fileData.readerStep condition])

/-- A turn of the loop of `control_thread`, taken as one step; it waits for data where the
conditions of the data queue are waited for. -/
def controlThread (fileData : FlexpathWriteFileData) :
    ControlMsg → Except Fault (Option (FlexpathWriteFileData × List Submitted))
  | .var varName processId => .ok (some (processVarMsg fileData varName processId, []))
  | .dataFlush id processId =>
    match fileData.dataQueue.getLast? with
    | none => .ok none
    | some dataNode => (processDataFlush fileData id processId dataNode).map some
  | .open processId step condition => (processOpenMsg fileData processId step condition).map some
  | .close processId _ condition => processCloseMsg fileData processId condition

inductive Event where
  | publish (buffer : Buffer)
  | handle (msg : ControlMsg)
  deriving DecidableEq, Repr

/-- `adios_flexpath_close` puts the step's buffer into the data queue; with too many buffers there
it waits. -/
def handleEvent (fileData : FlexpathWriteFileData) :
    Event → Except Fault (Option (FlexpathWriteFileData × List Submitted))
  | .publish buffer =>
    if 0 < fileData.maxQueueSize ∧ fileData.maxQueueSize < fileData.dataQueue.length then .ok none
    else .ok (some ({ fileData with dataQueue := buffer :: fileData.dataQueue }, []))
  | .handle msg => controlThread fileData msg

end Adios.Flexpath
