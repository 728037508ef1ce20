import Adios.Grid.RowMajor
import Adios.Heap.Writes
import Adios.Types
import Mathlib.Algebra.Ring.Int.Defs

/-!
# Adios — reading a bounding box with Flexpath

`read/read_flexpath.c`: which writers a reader asks for the data of a bounding box, and what it
takes from the raw message of a writer. Neither the network nor the other kinds of selections are
part of it.
-/

namespace Adios.Flexpath

/-! ## Blocks and boxes -/

/-- The start and the size of a block or a box in one dimension. The end is a `uint64_t` too. -/
structure Extent where
  start : UInt64
  count : UInt64
  fits : start.toNat + count.toNat < 18446744073709551616

def counts (es : List Extent) : List UInt64 := es.map (·.count)

/-- `field_size` of the elements of an array, by `set_format` of the writer; other types it does not
know. -/
def fieldSize : Datatype → Option Nat
  | .integer => some 4
  | .unsignedInteger => some 4
  | .unsignedLong => some 8
  | .real => some 4
  | .string => some 1
  | .double => some 8
  | .byte => some 1
  | .complex => some 8
  | .doubleComplex => some 16
  | _ => none

/-- What a writer has of an array: its block, from `local_offsets` and `local_dimensions`, and the
elements of the block, one after the other. -/
structure Writer where
  block : List Extent
  data : List UInt8

/-- The tests of `need_writer` for one dimension. -/
def needDim (sel rank : Extent) : Bool :=
  (rank.start ≤ sel.start && sel.start ≤ rank.start + rank.count - 1) ||
    (rank.start ≤ sel.start + sel.count - 1 &&
      sel.start + sel.count - 1 ≤ rank.start + rank.count) ||
    (sel.start ≤ rank.start && rank.start + rank.count ≤ sel.start + sel.count - 1)

/-- `need_writer` -/
def needWriter : List Extent → List Extent → Bool
  | s :: sel, r :: block => if needDim s r then needWriter sel block else false
  | _, _ => true

/-- The writers that `adios_read_flexpath_schedule_read_byid` asks; of these it keeps the
displacements. -/
def askedWriters (writers : List Writer) (sel : List Extent) : List Nat :=
  (writers.zipIdx.filter fun w => needWriter sel w.1.block).map (·.2)

/-! ## What is taken from a message -/

/-- `increment_index`, the fastest dimension first. -/
def incrementIndex : List UInt64 → List UInt64 → Bool × List UInt64
  | dimen :: dimens, i :: index =>
    let (more, index) := incrementIndex dimens index
    if more then (true, i :: index)
    else if i + 1 < dimen then (true, (i + 1) :: index)
    else (false, 0 :: index)
  | _, _ => (false, [])

/-- `map_local_to_global_index` -/
def mapLocalToGlobalIndex (index : List UInt64) (block : List Extent) : List UInt64 :=
  List.zipWith (fun i e => i + e.start) index block

/-- `map_global_to_local_index` -/
def mapGlobalToLocalIndex (index : List UInt64) (sel : List Extent) : List UInt64 :=
  List.zipWith (fun i e => i - e.start) index sel

/-- `index_in_selection` -/
def indexInSelection : List UInt64 → List Extent → Bool
  | i :: index, e :: sel =>
    if i < e.start || e.start + e.count ≤ i then false else indexInSelection index sel
  | _, _ => true

/-- A `uint64_t` or an `int` product as an `int`. -/
def toInt (n : Int) : Int := Int.bmod n 4294967296

/-- The body of the loop of `find_offset`; `offset` is an `int`. -/
def nextOffset (offset : Int) (size i : UInt64) : Int :=
  toInt (i + size * UInt64.ofInt offset).toNat

/-- `find_offset` -/
def findOffset (sizes index : List UInt64) : Int :=
  (sizes.zip index).foldl (fun offset e => nextOffset offset e.1 e.2) 0

abbrev Memory := Int → UInt8

/-- "`memcpy (selection + offset * element_size, data, element_size)`" -/
def copyElement (elementSize : Nat) (offset : Int) (data : List UInt8) (mem : Memory) :
    Except Fault Memory :=
  if elementSize ≤ data.length then
    .ok (Heap.Write.apply ⟨toInt (offset * elementSize), data.take elementSize⟩ mem)
  else .error .outOfBounds

def extractElement (elementSize : Nat) (block sel : List Extent) (index : List UInt64)
    (data : List UInt8) (mem : Memory) : Except Fault Memory :=
  let globalIndex := mapLocalToGlobalIndex index block
  if indexInSelection globalIndex sel then
    let selectionIndex := mapGlobalToLocalIndex globalIndex sel
    copyElement elementSize (findOffset (counts sel) selectionIndex) data mem
  else .ok mem

/-- The loop of `extract_selection_from_partial`, with at most so many rounds. -/
def extractLoop (elementSize : Nat) (block sel : List Extent) :
    Nat → List UInt64 → List UInt8 → Memory → Except Fault Memory
  | 0, _, _, _ => .error .endless
  | rounds + 1, index, data, mem => do
    let mem ← extractElement elementSize block sel index data mem
    let (more, index) := incrementIndex (counts block) index
    if more then extractLoop elementSize block sel rounds index (data.drop elementSize) mem
    else .ok mem

/-- `extract_selection_from_partial`. A dimension of the size 0 takes a round as well. -/
def extractSelectionFromPartial (elementSize : Nat) (block sel : List Extent) (data : List UInt8)
    (mem : Memory) : Except Fault Memory :=
  let rounds := Grid.volume ((counts block).map fun count => max 1 count.toNat)
  extractLoop elementSize block sel rounds (List.replicate block.length 0) data mem

/-- `raw_handler`, for an array that is read with a bounding box: the message of a writer without
displacements is passed over. -/
def rawHandler (elementSize : Nat) (writers : List Writer) (sel : List Extent) (asked : List Nat)
    (mem : Memory) (writerRank : Nat) : Except Fault Memory :=
  if writerRank ∈ asked then
    match writers[writerRank]? with
    | some w => extractSelectionFromPartial elementSize w.block sel w.data mem
    | none => .error .wildPointer
  else .ok mem

def rawMessages (elementSize : Nat) (writers : List Writer) (sel : List Extent) (asked : List Nat)
    (ranks : List Nat) (mem : Memory) : Except Fault Memory :=
  ranks.foldlM (rawHandler elementSize writers sel asked) mem

end Adios.Flexpath
