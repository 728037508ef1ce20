import Adios.Lists.Removed
import Adios.Lists.Results
import Adios.Read.BpVars
import Adios.Read.VarSteps

/-!
# Adios — dimensions without the time

`bp_get_dimension_generic`, `bp_get_dimension_generic_notime` and `bp_get_dimensions_generic` of
`core/bp_utils.c`. The time is a dimension of length 1 that has no mark: the one function tells it
by the last global dimension and the slowest local one, the other, in a local array, by its length.
-/

namespace Adios

open List Lists

/-- `ADIOS_VERSION_HAVE_TIME_INDEX_CHARACTERISTIC` -/
def haveTimeIndexCharacteristic : UInt32 := 0x00000200

/-- The arrays `ldims`, `gdims` and `offsets`, and whether the array is a global one. -/
structure DimArrays where
  isGlobal : Bool
  ldims : List UInt64
  gdims : List UInt64
  offsets : List UInt64
  deriving DecidableEq, Repr

/-! ## The functions -/

/-- The numbers at `dims->dims[k * 3 + c]`. -/
def Dims.column (dims : Dims) (c : Nat) : Except Fault (List UInt64) :=
  (List.range dims.count.toNat).mapM fun k =>
    match dims.dims[k * 3 + c]? with
    | some n => .ok n
    | none => .error .outOfBounds

/-- `bp_get_dimension_generic` -/
def bpGetDimensionGeneric (dims : Dims) : Except Fault DimArrays := do
  let ldims ← dims.column 0
  let gdims ← dims.column 1
  let offsets ← dims.column 2
  .ok { isGlobal := gdims.any (· ≠ 0), ldims := ldims, gdims := gdims, offsets := offsets }

/-- `swap_order` -/
def swapOrder (array : List UInt64) : List UInt64 := exchangeEnds array (array.length / 2)

/-- "`for (k = 0; k < ndim - 1; k++) to[k] = from[k + 1];`" for arrays of one length, or one
array. -/
def shiftInto : List UInt64 → List UInt64 → List UInt64
  | _ :: y :: src, _ :: dst => y :: shiftInto (y :: src) dst
  | _, dst => dst

/-- `has_time` -/
def DimArrays.hasTime (a : DimArrays) (fileIsFortran : Bool) : Bool :=
  if fileIsFortran then a.gdims.getLast? = some 0 ∧ a.ldims.getLast? = some 1
  else a.gdims.getLast? = some 0 ∧ a.ldims.head? = some 1

/-- "change all the stuff to C ordering" -/
def DimArrays.toC (a : DimArrays) (fileIsFortran : Bool) : DimArrays :=
  if fileIsFortran then
    { a with gdims := swapOrder a.gdims, ldims := swapOrder a.ldims,
             offsets := swapOrder a.offsets }
  else a

/-- The shifts of `bp_get_dimension_generic_notime`, once the order is that of C. -/
def DimArrays.extract (a : DimArrays) (fileIsFortran hasTime : Bool) : DimArrays :=
  if a.isGlobal = false then
    if hasTime = false then { a with gdims := a.ldims }
    else { a with gdims := shiftInto a.ldims a.gdims, ldims := shiftInto a.ldims a.ldims }
  else if hasTime = true then
    if fileIsFortran = false then
      { a with ldims := (shiftInto a.ldims a.ldims).set (a.ldims.length - 1) 0 }
    else
      { a with gdims := (shiftInto a.gdims a.gdims).set (a.gdims.length - 1) 0
               ldims := (shiftInto a.ldims a.ldims).set (a.ldims.length - 1) 0
               offsets := (shiftInto a.offsets a.offsets).set (a.offsets.length - 1) 0 }
  else a

/-- `bp_get_dimension_generic_notime`, with arrays of `dims->count` places. -/
def bpGetDimensionGenericNotime (dims : Dims) (fileIsFortran : Bool) :
    Except Fault DimArrays := do
  let a ← bpGetDimensionGeneric dims
  -- `gdims[ndim - 1]`
  if dims.count = 0 then .error .outOfBounds
  else .ok ((a.toC fileIsFortran).extract fileIsFortran (a.hasTime fileIsFortran))

/-- The loop over a local array, which goes up to `*ndim`, with the numbers it stores in `*dims`. -/
def keepLocal (several : Bool) : Nat → Nat → List UInt64 → List UInt64 → Nat × List UInt64
  | _, ndim, dims, [] => (ndim, dims)
  | i, ndim, dims, l :: ldims =>
    if i < ndim then
      if l = 1 ∧ several = true then keepLocal several (i + 1) (ndim - 1) dims ldims
      else keepLocal several (i + 1) ndim (dims ++ [l]) ldims
    else (ndim, dims)

/-- The set of characteristics that has the dimensions: the first, or the one of the time of the
step when the file is read as a stream. -/
def varDims (v : IndexEntry) (stream : Option UInt32) (usePretransform : Bool) :
    Except Fault Dims :=
  let pick (c : IndexCharacteristic) : Dims :=
    if usePretransform then c.transform.preTransformDimensions else c.dims
  match stream with
  | none =>
    match v.characteristics with
    | [] => .error .outOfBounds
    | c :: _ => .ok (pick c)
  | some time =>
    match v.characteristics.find? (·.timeIndex = time) with
    | some c => .ok (pick c)
    -- "shouldn't be here": `var_dims` has no value
    | none => .error .wildPointer

/-- What `bp_get_dimensions_generic` fills out; `dims` is a null pointer for a scalar. -/
structure VarDimensions where
  ndim : Nat
  dims : Option (List UInt64)
  nsteps : Int
  deriving DecidableEq, Repr

/-- The number of steps, an `int`: by the time index characteristics, or the process groups. -/
def stepsOf (fh : BpFile) (v : IndexEntry) : Except Fault Int :=
  if fh.version &&& haveTimeIndexCharacteristic ≠ 0 then do
    let nsteps ← VarSteps.getVarNsteps v
    .ok (nsteps : Int)
  else .ok (Wire.cut32 (fh.tidxStop - fh.tidxStart + 1).toNat)

/-- `*ndim`, and the numbers stored in `*dims`. -/
def DimArrays.report (a : DimArrays) (several : Bool) (ndim : Nat) : Nat × List UInt64 :=
  if a.isGlobal = false then keepLocal several 0 ndim [] a.ldims
  -- "with time"
  else if a.gdims.getLast? = some 0 then (ndim - 1, a.gdims.take (ndim - 1))
  else (ndim, a.gdims)

/-- `bp_get_dimensions_generic`, where `file_is_fortran` only chooses the text of an error. -/
def bpGetDimensionsGeneric (fh : BpFile) (v : IndexEntry) (stream : Option UInt32)
    (usePretransform : Bool) : Except Fault VarDimensions := do
  let dims ← varDims v stream usePretransform
  let nsteps ← stepsOf fh v
  let ndim := dims.count.toNat
  if ndim = 0 then .ok { ndim := 0, dims := none, nsteps := nsteps }
  -- "`uint64_t ldims[32]`"
  else if 32 < ndim then .error .outOfBounds
  else do
    let a ← bpGetDimensionGeneric dims
    let r := a.report (1 < v.characteristics.length) ndim
    .ok { ndim := r.1, dims := some (r.2 ++ List.replicate (ndim - r.2.length) 0),
          nsteps := nsteps }

/-! ## What the writer put -/

/-- The place of the time among the dimensions, and whether the global bounds have it too: the
bounds without it stand one place too far to the front, and end with a 0 that the writer adds. -/
inductive WrittenTime where
  | none
  | bounded (p : Nat)
  | unbounded (p : Nat)
  deriving DecidableEq, Repr

def WrittenTime.place : WrittenTime → Option Nat
  | .none => .none
  | .bounded p | .unbounded p => some p

def Dims.numbers (dims : Dims) (c : Nat) : List UInt64 :=
  (List.range dims.count.toNat).map fun k => dims.dims.getD (k * 3 + c) 0

/-- A variable that is an array as a writer puts it in the index, with the set of dimensions that
its readers choose. -/
structure WrittenArray where
  var : IndexEntry
  stream : Option UInt32
  usePretransform : Bool
  dims : Dims
  chosen : varDims var stream usePretransform = .ok dims
  wf : dims.Wf
  time : WrittenTime
  one : ∀ p, time.place = some p → (dims.numbers 0)[p]? = some 1
  short : ∀ p, time = .unbounded p → (dims.numbers 1).getLast? = some 0

namespace WrittenArray

variable (w : WrittenArray)

abbrev ldims : List UInt64 := w.dims.numbers 0

abbrev gdims : List UInt64 := w.dims.numbers 1

/-- "global dims when any global dim is nonzero" -/
def isGlobal : Bool := w.gdims.any (· ≠ 0)

def cOrder (fileIsFortran : Bool) (array : List UInt64) : List UInt64 :=
  if fileIsFortran = true then array.reverse else array

def cPlace (fileIsFortran : Bool) (p : Nat) : Nat :=
  if fileIsFortran = true then w.dims.count.toNat - 1 - p else p

def expected : List UInt64 :=
  if w.isGlobal = true then
    match w.time with
    | .none => w.gdims
    | .bounded p => w.gdims.eraseIdx p
    | .unbounded _ => w.gdims.dropLast
  else
    match w.time.place with
    | none => w.ldims
    | some p => w.ldims.eraseIdx p

/-- `bp_get_dimension_generic_notime` gives them in C order, and 0 in the place that is left. -/
def NotimeRight (fileIsFortran : Bool) : Prop :=
  ∃ a, bpGetDimensionGenericNotime w.dims fileIsFortran = .ok a ∧
    a.gdims = cOrder fileIsFortran w.expected ++
      List.replicate (w.dims.count.toNat - w.expected.length) 0

/-- `bp_get_dimensions_generic` gives them in the order of the file. -/
def GenericRight (fh : BpFile) : Prop :=
  ∃ r, bpGetDimensionsGeneric fh w.var w.stream w.usePretransform = .ok r ∧
    r.ndim = w.expected.length ∧ (r.dims.getD []).take r.ndim = w.expected

structure Extracted (fh : BpFile) (fileIsFortran : Bool) : Prop where
  notime : w.NotimeRight fileIsFortran
  generic : w.isGlobal = false → w.GenericRight fh

/-! ## Where that is so -/

def LooksTimed (fileIsFortran : Bool) : Prop :=
  (cOrder fileIsFortran w.gdims).head? = some 0 ∧ (cOrder fileIsFortran w.ldims).head? = some 1

instance (fileIsFortran : Bool) : Decidable (w.LooksTimed fileIsFortran) :=
  inferInstanceAs (Decidable (_ ∧ _))

/-- A local array: the slowest dimension is 1 only with a time, and then all are from there to the
time. -/
def LocalFits (fileIsFortran : Bool) : Prop :=
  match w.time.place with
  | none => (cOrder fileIsFortran w.ldims).head? ≠ some 1
  | some p => ∀ l ∈ (cOrder fileIsFortran w.ldims).take (w.cPlace fileIsFortran p + 1), l = 1

/-- A global array in C, whose bounds stay as they are: from the time on they are 0 if they have
it. -/
def GlobalFitsC : Prop :=
  match w.time with
  | .bounded p => ∀ g ∈ w.gdims.drop p, g = 0
  | .none | .unbounded _ => True

/-- A global array in Fortran, whose bounds move to the front if the slowest dimension looks like
the time. -/
def GlobalFitsFortran : Prop :=
  match w.time with
  | .none => ¬w.LooksTimed true
  | .bounded p =>
    if w.LooksTimed true then ∀ g ∈ (cOrder true w.gdims).take (w.cPlace true p + 1), g = 0
    else ∀ g ∈ (cOrder true w.gdims).drop (w.cPlace true p), g = 0
  | .unbounded _ => (cOrder true w.ldims).head? = some 1

/-- The loop over a local array: with one set of characteristics it keeps every dimension, with
several it leaves out the dimensions of length 1, and by then the last one is not looked at. -/
def LocalKept : Prop :=
  if w.var.characteristics.length ≤ 1 then w.time.place = none
  else
    match w.time.place with
    | none => ∀ l ∈ w.ldims, l ≠ 1
    | some p => (∀ i, w.ldims[i]? = some 1 → i = p) ∧
        (p + 1 = w.dims.count.toNat ∨ w.ldims.getLast? = some 0)

/-- An `int` counts the times of the characteristics, if it is they that count. -/
def StepsFit (fh : BpFile) : Prop :=
  fh.version &&& haveTimeIndexCharacteristic ≠ 0 →
    ((VarSteps.times w.var).destutter' (· ≠ ·) 0xffffffff).length ≤ 2147483648

/-- The arrays of 32 places hold the dimensions, an `int` holds the number of steps, and the loop
keeps the right dimensions. -/
def GenericFits (fh : BpFile) : Prop :=
  w.dims.count.toNat ≤ 32 ∧ w.StepsFit fh ∧ w.LocalKept

def NotimeFits (fileIsFortran : Bool) : Prop :=
  w.dims.count ≠ 0 ∧
    if w.isGlobal = false then w.LocalFits fileIsFortran
    else if fileIsFortran = true then w.GlobalFitsFortran
    else w.GlobalFitsC

end WrittenArray

/-! ## The arrays -/

@[simp] theorem Dims.length_numbers (dims : Dims) (c : Nat) :
    (dims.numbers c).length = dims.count.toNat := by
  rw [numbers, length_map, length_range]

theorem Dims.column_of_wf {dims : Dims} (h : dims.Wf) {c : Nat} (hc : c < 3) :
    dims.column c = .ok (dims.numbers c) := by
  rw [column, mapM_eq_ok_iff, numbers, forall₂_map_right_iff, forall₂_same]
  intro k hk
  have hlt : k * 3 + c < dims.dims.length := by
    rw [h]
    have := mem_range.mp hk
    omega
  rw [getD_eq_getElem?_getD, getElem?_eq_getElem hlt]
  rfl

theorem bpGetDimensionGeneric_of_wf {dims : Dims} (h : dims.Wf) :
    bpGetDimensionGeneric dims =
      .ok { isGlobal := (dims.numbers 1).any (· ≠ 0), ldims := dims.numbers 0,
            gdims := dims.numbers 1, offsets := dims.numbers 2 } := by
  rw [bpGetDimensionGeneric, Dims.column_of_wf h (by decide), ok_bind,
    Dims.column_of_wf h (by decide), ok_bind, Dims.column_of_wf h (by decide), ok_bind]

theorem swapOrder_eq (array : List UInt64) : swapOrder array = array.reverse :=
  exchangeEnds_half array

theorem shiftInto_eq {src dst : List UInt64} (h : dst.length = src.length) :
    shiftInto src dst = src.tail ++ dst.drop (src.length - 1) := by
  induction src generalizing dst with
  | nil => rw [length_eq_zero_iff.mp h]; rfl
  | cons x src ih =>
    obtain ⟨d, dst, rfl⟩ := exists_cons_of_length_eq_add_one h
    cases src with
    | nil => rfl
    | cons y src =>
      rw [shiftInto, ih (Nat.succ.inj h)]
      rfl

theorem shiftInto_set {array : List UInt64} (hne : array ≠ []) :
    (shiftInto array array).set (array.length - 1) 0 = array.tail ++ [0] := by
  have hpos := length_pos_of_ne_nil hne
  rw [shiftInto_eq rfl, set_append_right _ _ (by rw [length_tail]), length_tail, Nat.sub_self]
  congr 1
  apply ext_getElem
  · rw [length_set, length_drop, length_singleton]
    omega
  · intro i hi _
    rw [length_set, length_drop] at hi
    obtain rfl : i = 0 := by omega
    rw [getElem_set_self]
    rfl

def Dims.arrays (dims : Dims) : DimArrays :=
  { isGlobal := (dims.numbers 1).any (· ≠ 0), ldims := dims.numbers 0, gdims := dims.numbers 1,
    offsets := dims.numbers 2 }

theorem bpGetDimensionGenericNotime_of_wf {dims : Dims} (h : dims.Wf) (hcount : dims.count ≠ 0)
    (fileIsFortran : Bool) : bpGetDimensionGenericNotime dims fileIsFortran =
      .ok ((dims.arrays.toC fileIsFortran).extract fileIsFortran
        (dims.arrays.hasTime fileIsFortran)) := by
  rw [bpGetDimensionGenericNotime, bpGetDimensionGeneric_of_wf h, ok_bind, if_neg hcount]
  rfl

/-! ## Without the time -/

theorem extract_gdims_of_local (fileIsFortran hasTime : Bool) {a : DimArrays}
    (h : a.isGlobal = false) : (a.extract fileIsFortran hasTime).gdims =
      if hasTime = false then a.ldims else shiftInto a.ldims a.gdims := by
  rw [DimArrays.extract, if_pos h]
  split <;> rfl

theorem extract_gdims_of_global (fileIsFortran hasTime : Bool) {a : DimArrays}
    (h : a.isGlobal = true) : (a.extract fileIsFortran hasTime).gdims =
      if hasTime = true ∧ fileIsFortran = true then
        (shiftInto a.gdims a.gdims).set (a.gdims.length - 1) 0
      else a.gdims := by
  rw [DimArrays.extract, if_neg (by rw [h]; decide)]
  cases hasTime <;> cases fileIsFortran <;> rfl

namespace WrittenArray

@[simp] theorem length_cOrder (fileIsFortran : Bool) (array : List UInt64) :
    (cOrder fileIsFortran array).length = array.length := by
  unfold cOrder
  split
  · exact length_reverse
  · rfl

theorem mem_cOrder {fileIsFortran : Bool} {array : List UInt64} {n : UInt64} :
    n ∈ cOrder fileIsFortran array ↔ n ∈ array := by
  unfold cOrder
  split
  · exact mem_reverse
  · rfl

theorem swapOrder_eq_cOrder (array : List UInt64) : swapOrder array = cOrder true array := by
  rw [swapOrder_eq, cOrder, if_pos rfl]

variable (w : WrittenArray)

theorem isGlobal_eq_false_iff : w.isGlobal = false ↔ ∀ g ∈ w.gdims, g = 0 := by
  simp [isGlobal]

theorem exists_nonzero (h : w.isGlobal = true) : ∃ g ∈ w.gdims, g ≠ 0 := by
  simpa [isGlobal] using h

def arrays : DimArrays :=
  { isGlobal := w.isGlobal, ldims := w.ldims, gdims := w.gdims, offsets := w.dims.numbers 2 }

theorem hasTime_arrays (fileIsFortran : Bool) :
    w.arrays.hasTime fileIsFortran = decide (w.gdims.getLast? = some 0 ∧
      (cOrder fileIsFortran w.ldims).head? = some 1) := by
  cases fileIsFortran with
  | false => rfl
  | true =>
    rw [DimArrays.hasTime, if_pos rfl, cOrder, if_pos rfl, List.head?_reverse]
    rfl

theorem toC_arrays (fileIsFortran : Bool) : w.arrays.toC fileIsFortran =
    { isGlobal := w.isGlobal, ldims := cOrder fileIsFortran w.ldims,
      gdims := cOrder fileIsFortran w.gdims,
      offsets := cOrder fileIsFortran (w.dims.numbers 2) } := by
  cases fileIsFortran with
  | false => rfl
  | true =>
    rw [DimArrays.toC, if_pos rfl, swapOrder_eq_cOrder, swapOrder_eq_cOrder, swapOrder_eq_cOrder]
    rfl

theorem notimeRight_iff (hcount : w.dims.count ≠ 0) (fileIsFortran : Bool) :
    w.NotimeRight fileIsFortran ↔
      ((w.arrays.toC fileIsFortran).extract fileIsFortran (w.arrays.hasTime fileIsFortran)).gdims =
        cOrder fileIsFortran w.expected ++
          List.replicate (w.dims.count.toNat - w.expected.length) 0 := by
  have hrun : bpGetDimensionGenericNotime w.dims fileIsFortran = .ok
      ((w.arrays.toC fileIsFortran).extract fileIsFortran (w.arrays.hasTime fileIsFortran)) :=
    bpGetDimensionGenericNotime_of_wf w.wf hcount fileIsFortran
  constructor
  · rintro ⟨a, ha, hdims⟩
    obtain rfl := Except.ok.inj (hrun.symm.trans ha)
    exact hdims
  · intro hdims
    exact ⟨_, hrun, hdims⟩

theorem not_notimeRight_of_count {fileIsFortran : Bool} (hcount : w.dims.count = 0) :
    ¬w.NotimeRight fileIsFortran := by
  rintro ⟨a, ha, -⟩
  rw [bpGetDimensionGenericNotime, bpGetDimensionGeneric_of_wf w.wf, ok_bind, if_pos hcount] at ha
  cases ha

theorem length_pos (hcount : w.dims.count ≠ 0) : 0 < w.dims.count.toNat := by
  rcases Nat.eq_zero_or_pos w.dims.count.toNat with h | h
  · exact absurd (UInt8.toNat_inj.mp h) hcount
  · exact h

theorem extract_local (hcount : w.dims.count ≠ 0) (hlocal : w.isGlobal = false)
    (fileIsFortran : Bool) :
    ((w.arrays.toC fileIsFortran).extract fileIsFortran (w.arrays.hasTime fileIsFortran)).gdims =
      if (cOrder fileIsFortran w.ldims).head? = some 1 then
        (cOrder fileIsFortran w.ldims).tail ++ [0]
      else cOrder fileIsFortran w.ldims := by
  have hpos := w.length_pos hcount
  have hzero := w.isGlobal_eq_false_iff.mp hlocal
  have hne : w.gdims ≠ [] := ne_nil_of_length_pos (by rw [Dims.length_numbers]; exact hpos)
  have hlast : w.gdims.getLast? = some 0 := by
    rw [List.getLast?_eq_some_getLast hne, hzero _ (getLast_mem hne)]
  -- nothing is left of the global numbers but a 0
  have hdrop : (cOrder fileIsFortran w.gdims).drop (w.dims.count.toNat - 1) = [0] := by
    obtain ⟨g, hg⟩ := length_eq_one_iff.mp
      (show ((cOrder fileIsFortran w.gdims).drop (w.dims.count.toNat - 1)).length = 1 by
        rw [length_drop, length_cOrder, Dims.length_numbers]
        omega)
    have hmem : g ∈ cOrder fileIsFortran w.gdims :=
      mem_of_mem_drop (hg ▸ mem_singleton_self g)
    rw [hg, hzero g (mem_cOrder.mp hmem)]
  rw [hasTime_arrays, hlast, toC_arrays, extract_gdims_of_local _ _ hlocal]
  show (if decide _ = false then cOrder fileIsFortran w.ldims
    else shiftInto (cOrder fileIsFortran w.ldims) (cOrder fileIsFortran w.gdims)) = _
  rw [shiftInto_eq (by simp only [length_cOrder, Dims.length_numbers]), length_cOrder,
    Dims.length_numbers, hdrop]
  by_cases htime : (cOrder fileIsFortran w.ldims).head? = some 1
  · rw [if_pos htime, if_neg (by simpa using htime)]
  · rw [if_neg htime, if_pos (by simpa using htime)]

theorem extract_global (hcount : w.dims.count ≠ 0) (hglobal : w.isGlobal = true)
    (fileIsFortran : Bool) :
    ((w.arrays.toC fileIsFortran).extract fileIsFortran (w.arrays.hasTime fileIsFortran)).gdims =
      if fileIsFortran = true ∧ w.LooksTimed true then
        (cOrder fileIsFortran w.gdims).tail ++ [0]
      else cOrder fileIsFortran w.gdims := by
  rw [toC_arrays, extract_gdims_of_global _ _ hglobal]
  cases fileIsFortran with
  | false =>
    rw [if_neg fun h => Bool.noConfusion h.2, if_neg fun h => Bool.noConfusion h.1]
  | true =>
    have hne : cOrder true w.gdims ≠ [] := ne_nil_of_length_pos (by
      rw [length_cOrder, Dims.length_numbers]
      exact w.length_pos hcount)
    rw [hasTime_arrays, shiftInto_set hne]
    by_cases htime : w.LooksTimed true
    · have hlast := htime.1
      rw [cOrder, if_pos rfl, List.head?_reverse] at hlast
      rw [if_pos ⟨decide_eq_true ⟨hlast, htime.2⟩, rfl⟩, if_pos ⟨rfl, htime⟩]
    · rw [if_neg fun h => ?_, if_neg fun h => htime h.2]
      obtain ⟨hlast, hone⟩ := of_decide_eq_true h.1
      refine htime ⟨?_, hone⟩
      rw [cOrder, if_pos rfl, List.head?_reverse]
      exact hlast

section

variable {array : List UInt64} {p : Nat} (hlen : array.length = w.dims.count.toNat)
  (hp : p < array.length) (fileIsFortran : Bool)

include hlen hp fileIsFortran

theorem cOrder_eraseIdx :
    cOrder fileIsFortran (array.eraseIdx p) =
      (cOrder fileIsFortran array).eraseIdx (w.cPlace fileIsFortran p) := by
  cases fileIsFortran with
  | false => rfl
  | true =>
    show (array.eraseIdx p).reverse = array.reverse.eraseIdx (w.dims.count.toNat - 1 - p)
    rw [reverse_eraseIdx hp, hlen]

theorem getElem?_cPlace :
    (cOrder fileIsFortran array)[w.cPlace fileIsFortran p]? = array[p]? := by
  cases fileIsFortran with
  | false => rfl
  | true =>
    show array.reverse[w.dims.count.toNat - 1 - p]? = array[p]?
    rw [getElem?_reverse (by omega)]
    congr 1
    omega

end

theorem expected_of_local (h : w.isGlobal = false) : w.expected =
    match w.time.place with
    | none => w.ldims
    | some p => w.ldims.eraseIdx p := by
  rw [expected, if_neg (by rw [h]; decide)]

theorem notimeRight_local_iff (hcount : w.dims.count ≠ 0) (hlocal : w.isGlobal = false)
    (fileIsFortran : Bool) : w.NotimeRight fileIsFortran ↔ w.LocalFits fileIsFortran := by
  rw [w.notimeRight_iff hcount, w.extract_local hcount hlocal, w.expected_of_local hlocal,
    LocalFits]
  cases hplace : w.time.place with
  | none =>
    show _ = cOrder fileIsFortran w.ldims ++ List.replicate (_ - w.ldims.length) 0 ↔ _
    rw [Dims.length_numbers, Nat.sub_self, replicate_zero, append_nil]
    exact shifted_eq_self_iff fun h => ⟨1, mem_of_mem_head? h, by decide⟩
  | some p =>
    have hone : w.ldims[p]? = some 1 := w.one p hplace
    have hp := (List.getElem?_eq_some_iff.mp hone).1
    have hlen : w.dims.count.toNat - (w.ldims.eraseIdx p).length = 1 := by
      have hpos := w.length_pos hcount
      rw [length_eraseIdx_of_lt hp, Dims.length_numbers]
      omega
    have hget : (cOrder fileIsFortran w.ldims)[w.cPlace fileIsFortran p]? = some 1 :=
      (w.getElem?_cPlace (w.dims.length_numbers 0) hp fileIsFortran).trans hone
    show _ = cOrder fileIsFortran (w.ldims.eraseIdx p) ++ List.replicate
      (_ - (w.ldims.eraseIdx p).length) 0 ↔ _
    rw [hlen, replicate_one, w.cOrder_eraseIdx (w.dims.length_numbers 0) hp,
      shifted_eq_eraseIdx_iff hget]
    by_cases htime : (cOrder fileIsFortran w.ldims).head? = some 1
    · rw [if_pos htime]
    · -- the time is seen only in the first place
      rw [if_neg htime]
      have hq := (List.getElem?_eq_some_iff.mp hget).1
      constructor
      · intro h
        have hmem : 1 ∈ (cOrder fileIsFortran w.ldims).drop (w.cPlace fileIsFortran p) :=
          mem_drop_iff_getElem.mpr ⟨0, by omega, (List.getElem?_eq_some_iff.mp hget).2⟩
        exact absurd (h 1 hmem) (by decide)
      · intro h
        refine absurd ?_ htime
        rw [List.head?_eq_getElem?, getElem?_eq_getElem (Nat.zero_lt_of_lt hq)]
        exact congrArg some (h _ (mem_take_iff_getElem.mpr ⟨0, by omega, rfl⟩))

theorem cOrder_dropLast (array : List UInt64) :
    cOrder true array.dropLast = (cOrder true array).tail := by
  show array.dropLast.reverse = array.reverse.tail
  rw [tail_reverse]

theorem place_lt {p : Nat} (h : w.time.place = some p) : p < w.dims.count.toNat := by
  have hlt := (List.getElem?_eq_some_iff.mp (w.one p h)).1
  rwa [Dims.length_numbers] at hlt

theorem length_gdims : w.gdims.length = w.dims.count.toNat := w.dims.length_numbers 1

section

variable (hcount : w.dims.count ≠ 0) (hglobal : w.isGlobal = true)

include hcount hglobal

theorem notimeRight_global_iff (fileIsFortran : Bool) : w.NotimeRight fileIsFortran ↔
      (if fileIsFortran = true ∧ w.LooksTimed true then (cOrder fileIsFortran w.gdims).tail ++ [0]
        else cOrder fileIsFortran w.gdims) =
      match w.time with
      | .none => cOrder fileIsFortran w.gdims
      | .bounded p =>
        (cOrder fileIsFortran w.gdims).eraseIdx (w.cPlace fileIsFortran p) ++ [0]
      | .unbounded _ => cOrder fileIsFortran w.gdims.dropLast ++ [0] := by
  have hpos := w.length_pos hcount
  have hlength := w.length_gdims
  rw [w.notimeRight_iff hcount, w.extract_global hcount hglobal, expected, if_pos hglobal]
  cases htime : w.time with
  | none =>
    show _ = cOrder fileIsFortran w.gdims ++ List.replicate (_ - w.gdims.length) 0 ↔ _
    rw [hlength, Nat.sub_self, replicate_zero, append_nil]
  | bounded p =>
    have hp : p < w.gdims.length := hlength ▸ w.place_lt (htime ▸ rfl)
    have hlen : w.dims.count.toNat - (w.gdims.eraseIdx p).length = 1 := by
      rw [length_eraseIdx_of_lt hp]
      omega
    show _ = cOrder fileIsFortran (w.gdims.eraseIdx p) ++ List.replicate
      (_ - (w.gdims.eraseIdx p).length) 0 ↔ _
    rw [hlen, replicate_one, w.cOrder_eraseIdx hlength hp]
  | unbounded p =>
    have hlen : w.dims.count.toNat - w.gdims.dropLast.length = 1 := by
      rw [length_dropLast]
      omega
    show _ = cOrder fileIsFortran w.gdims.dropLast ++ List.replicate
      (_ - w.gdims.dropLast.length) 0 ↔ _
    rw [hlen, replicate_one]

theorem notimeRight_globalC_iff :
    w.NotimeRight false ↔ w.GlobalFitsC := by
  rw [w.notimeRight_global_iff hcount hglobal, if_neg fun h => Bool.noConfusion h.1, GlobalFitsC]
  cases htime : w.time with
  | none => exact iff_of_true rfl trivial
  | bounded p =>
    exact eq_eraseIdx_append_iff (w.length_gdims ▸ w.place_lt (htime ▸ rfl))
  | unbounded p =>
    have hlast : w.gdims.getLast? = some 0 := w.short p htime
    obtain ⟨pre, hpre⟩ := List.getLast?_eq_some_iff.mp hlast
    refine iff_of_true ?_ trivial
    show w.gdims = w.gdims.dropLast ++ [0]
    rw [hpre, dropLast_concat]

theorem notimeRight_globalFortran_iff :
    w.NotimeRight true ↔ w.GlobalFitsFortran := by
  have hnonzero : ∃ g ∈ cOrder true w.gdims, g ≠ 0 := by
    obtain ⟨g, hg, hne⟩ := w.exists_nonzero hglobal
    exact ⟨g, mem_cOrder.mpr hg, hne⟩
  rw [w.notimeRight_global_iff hcount hglobal, GlobalFitsFortran]
  simp only [true_and]
  cases htime : w.time with
  | none => exact shifted_eq_self_iff fun _ => hnonzero
  | bounded p =>
    have hp : p < w.gdims.length := w.length_gdims ▸ w.place_lt (htime ▸ rfl)
    have hget := w.getElem?_cPlace w.length_gdims hp true
    rw [getElem?_eq_getElem hp] at hget
    rw [shifted_eq_eraseIdx_iff hget]
    dsimp only
    by_cases hlooks : w.LooksTimed true
    · -- the first bound is 0
      rw [if_pos hlooks, if_pos hlooks]
      have hzero : 0 ∈ (cOrder true w.gdims).take (w.cPlace true p + 1) :=
        mem_of_mem_head? (by rw [List.head?_take, if_neg (Nat.succ_ne_zero _)]; exact hlooks.1)
      have hself : w.gdims[p] ∈ (cOrder true w.gdims).take (w.cPlace true p + 1) := by
        obtain ⟨hq, hq'⟩ := List.getElem?_eq_some_iff.mp hget
        exact mem_take_iff_getElem.mpr ⟨_, by omega, hq'⟩
      constructor
      · intro h g hg
        rw [h g hg, h 0 hzero]
      · intro h g hg
        rw [h g hg, h _ hself]
    · rw [if_neg hlooks, if_neg hlooks]
  | unbounded p =>
    have hlast : (cOrder true w.gdims).head? = some 0 := by
      rw [cOrder, if_pos rfl, List.head?_reverse]
      exact w.short p htime
    show _ = cOrder true w.gdims.dropLast ++ [0] ↔ _
    rw [cOrder_dropLast, shifted_eq_tail_iff fun _ => hnonzero]
    exact and_iff_right hlast

end

theorem notimeRight_iff_fits (fileIsFortran : Bool) :
    w.NotimeRight fileIsFortran ↔ w.NotimeFits fileIsFortran := by
  unfold NotimeFits
  by_cases hcount : w.dims.count = 0
  · exact iff_of_false (w.not_notimeRight_of_count hcount) fun h => h.1 hcount
  · rw [and_iff_right hcount]
    cases hglobal : w.isGlobal with
    | false => exact w.notimeRight_local_iff hcount hglobal fileIsFortran
    | true =>
      cases fileIsFortran with
      | false => exact w.notimeRight_globalC_iff hcount hglobal
      | true => exact w.notimeRight_globalFortran_iff hcount hglobal

end WrittenArray

/-! ## The loop over a local array -/

section KeepLocal

variable {several : Bool} {i ndim : Nat} {dims ldims : List UInt64}

theorem keepLocal_le : (keepLocal several i ndim dims ldims).1 ≤ ndim := by
  induction ldims generalizing i ndim dims with
  | nil => exact Nat.le_refl _
  | cons l ldims ih =>
    rw [keepLocal]
    split_ifs
    · exact Nat.le_trans ih (Nat.sub_le _ _)
    · exact ih
    · exact Nat.le_refl _

theorem keepLocal_of_kept (h : several = true → ∀ l ∈ ldims.take (ndim - i), l ≠ 1) :
    keepLocal several i ndim dims ldims = (ndim, dims ++ ldims.take (ndim - i)) := by
  induction ldims generalizing i dims with
  | nil => rw [keepLocal, take_nil, append_nil]
  | cons l ldims ih =>
    rw [keepLocal]
    by_cases hi : i < ndim
    · have hsucc : ndim - i = ndim - (i + 1) + 1 := by omega
      rw [hsucc, take_succ_cons] at h ⊢
      have hone : ¬(l = 1 ∧ several = true) := fun hl =>
        h hl.2 l mem_cons_self hl.1
      rw [if_pos hi, if_neg hone, ih fun hseveral l hl => h hseveral l (mem_cons_of_mem _ hl),
        append_assoc]
      rfl
    · rw [if_neg hi, Nat.sub_eq_zero_of_le (by omega), take_zero, append_nil]

variable {as bs : List UInt64} {r : Nat × List UInt64}

theorem keepLocal_append (has : ∀ a ∈ as, a ≠ 1) (hlt : i + as.length < ndim) :
    keepLocal true i ndim dims (as ++ 1 :: bs) =
      keepLocal true (i + as.length + 1) (ndim - 1) (dims ++ as) bs := by
  induction as generalizing i dims with
  | nil =>
    rw [nil_append, keepLocal, if_pos (by simpa using hlt), if_pos ⟨rfl, rfl⟩, append_nil]
    rfl
  | cons a as ih =>
    obtain ⟨ha, has⟩ := forall_mem_cons.mp has
    rw [length_cons] at hlt
    rw [cons_append, keepLocal, if_pos (by omega), if_neg fun h => ha h.1,
      ih has (by omega), append_assoc, length_cons]
    congr 1
    omega

theorem keepLocal_lt (h : 1 ∈ ldims.take (ndim - i)) :
    (keepLocal true i ndim dims ldims).1 < ndim := by
  obtain ⟨as, bs, hsplit, has⟩ := eq_append_cons_of_mem h
  have hlen : as.length < ndim - i := by
    have hle := congrArg List.length hsplit
    rw [length_take, length_append, length_cons] at hle
    omega
  have hldims : ldims = as ++ 1 :: (bs ++ ldims.drop (ndim - i)) := by
    rw [← cons_append, ← append_assoc, ← hsplit, take_append_drop]
  rw [hldims, keepLocal_append (fun a ha hone => has (hone ▸ ha)) (by omega)]
  exact Nat.lt_of_le_of_lt keepLocal_le (by omega)

def reported (n : Nat) (r : Nat × List UInt64) : List UInt64 :=
  (r.2 ++ List.replicate (n - r.2.length) 0).take r.1

theorem keepLocal_all_iff (hr : r = keepLocal true 0 ldims.length [] ldims) :
    (r.1 = ldims.length ∧ reported ldims.length r = ldims) ↔ ∀ l ∈ ldims, l ≠ 1 := by
  have htake : ldims.take (ldims.length - 0) = ldims := take_length
  constructor
  · rintro ⟨hlen, -⟩ l hl rfl
    have hlt : (keepLocal true 0 ldims.length [] ldims).1 < ldims.length :=
      keepLocal_lt (htake.symm ▸ hl)
    rw [← hr, hlen] at hlt
    exact Nat.lt_irrefl _ hlt
  · intro h
    rw [keepLocal_of_kept fun _ => htake.symm ▸ h, htake, nil_append] at hr
    subst hr
    refine ⟨rfl, ?_⟩
    rw [reported, Nat.sub_self, replicate_zero, append_nil, take_length]

theorem keepLocal_rest (hr : r = keepLocal true (as.length + 1) (as.length + bs.length) as bs)
    (hlen : r.1 = as.length + bs.length) : 1 ∉ bs.dropLast ∧ r.2 = as ++ bs.dropLast := by
  have hreach : as.length + bs.length - (as.length + 1) = bs.length - 1 := by omega
  have hnot : 1 ∉ bs.dropLast := fun hmem => by
    rw [dropLast_eq_take, ← hreach] at hmem
    have hlt : (keepLocal true (as.length + 1) (as.length + bs.length) as bs).1 <
        as.length + bs.length := keepLocal_lt hmem
    rw [← hr, hlen] at hlt
    exact Nat.lt_irrefl _ hlt
  refine ⟨hnot, ?_⟩
  rw [hr, keepLocal_of_kept fun _ l hl hone => ?_, hreach, dropLast_eq_take]
  rw [hreach, ← dropLast_eq_take] at hl
  exact hnot (hone ▸ hl)

theorem reported_iff (hlen : r.1 = as.length + bs.length) (hkept : r.2 = as ++ bs.dropLast) :
    reported (as.length + bs.length + 1) r = as ++ bs ↔
      as.length + 1 = as.length + bs.length + 1 ∨ (as ++ 1 :: bs).getLast? = some 0 := by
  rw [reported, hlen, hkept]
  rcases eq_nil_or_concat bs with rfl | ⟨cs, z, rfl⟩
  · exact iff_of_true (by simp) (Or.inl rfl)
  · have hzeros : as.length + (cs ++ [z]).length + 1 - (as ++ cs).length = 2 := by
      rw [length_append, length_append, length_singleton]
      omega
    have hplace : as.length + 1 ≠ (as ++ cs).length + 1 + 1 := by
      rw [length_append]
      omega
    have htake : as.length + (cs ++ [z]).length = (as ++ cs).length + 1 := by
      rw [length_append, length_append, length_singleton, Nat.add_assoc]
    have hlast : (as ++ 1 :: (cs ++ [z])).getLast? = some z := by
      rw [← cons_append, ← append_assoc, List.getLast?_concat]
    rw [concat_eq_append, dropLast_concat, hzeros, htake, take_length_add_append, hlast,
      or_iff_right hplace, ← append_assoc, append_cancel_left_eq, Option.some.injEq]
    show [0] = [z] ↔ z = 0
    rw [List.cons.injEq, and_iff_left rfl]
    exact eq_comm

theorem keepLocal_erase_iff {p : Nat} (hr : r = keepLocal true 0 ldims.length [] ldims)
    (hp : ldims[p]? = some 1) :
    (r.1 = ldims.length - 1 ∧ reported ldims.length r = ldims.eraseIdx p) ↔
      (∀ i, ldims[i]? = some 1 → i = p) ∧ (p + 1 = ldims.length ∨ ldims.getLast? = some 0) := by
  rw [← notMem_eraseIdx_iff]
  obtain ⟨as, bs, rfl, has⟩ := eq_append_cons_of_mem (mem_of_getElem? hp)
  have hlength : (as ++ 1 :: bs).length = as.length + bs.length + 1 := by
    rw [length_append, length_cons, Nat.add_assoc]
  rw [keepLocal_append (fun a ha hone => has (hone ▸ ha)) (by omega), nil_append, Nat.zero_add,
    hlength, Nat.add_sub_cancel] at hr
  rw [hlength, Nat.add_sub_cancel]
  by_cases hother : 1 ∈ (as ++ 1 :: bs).eraseIdx p
  · -- another dimension of length 1 is left out too
    refine iff_of_false ?_ fun h => h.1 hother
    rintro ⟨hlen, heq⟩
    obtain ⟨hnot, hkept⟩ := keepLocal_rest hr hlen
    rw [← heq, reported, hkept] at hother
    rcases mem_append.mp (mem_of_mem_take hother) with hmem | hmem
    · rcases mem_append.mp hmem with hmem | hmem
      · exact has hmem
      · exact hnot hmem
    · exact absurd (eq_of_mem_replicate hmem) (by decide)
  · obtain rfl : as.length = p := notMem_eraseIdx_iff.mp hother _ (by
      rw [getElem?_append_right (Nat.le_refl _), Nat.sub_self]
      rfl)
    rw [and_iff_right hother]
    rw [eraseIdx_append_of_length_le (Nat.le_refl _), Nat.sub_self, eraseIdx_cons_zero]
      at hother ⊢
    have hnot : 1 ∉ bs := fun hmem => hother (mem_append_right _ hmem)
    have hlen : r.1 = as.length + bs.length := by
      rw [hr, keepLocal_of_kept fun _ l hl hone => hnot (hone ▸ mem_of_mem_take hl)]
    rw [and_iff_right hlen]
    exact reported_iff hlen (keepLocal_rest hr hlen).2

end KeepLocal

/-! ## A local array -/

theorem exists_nstepsLoop_iff {prevStep : UInt32} {nsteps : Nat} {ts : List UInt32}
    (h : nsteps < 2147483648) : (∃ n, VarSteps.nstepsLoop prevStep nsteps ts = .ok n) ↔
      nsteps + (ts.destutter' (· ≠ ·) prevStep).length ≤ 2147483648 := by
  induction ts generalizing prevStep nsteps with
  | nil => exact iff_of_true ⟨nsteps, rfl⟩ h
  | cons t ts ih =>
    rw [VarSteps.nstepsLoop]
    by_cases ht : t = prevStep
    · rw [if_neg (not_not.mpr ht), destutter'_cons_neg _ (not_not.mpr ht.symm)]
      exact ih h
    · rw [if_pos ht, destutter'_cons_pos _ (Ne.symm ht), length_cons, VarSteps.incr]
      have hpos : 0 < (ts.destutter' (· ≠ ·) t).length :=
        length_pos_of_ne_nil (destutter'_ne_nil _ _)
      show _ ↔ nsteps + ((ts.destutter' (· ≠ ·) t).length + 1) ≤ _
      by_cases hfits : nsteps + 1 < 2147483648
      · rw [if_pos hfits, ok_bind, ih hfits]
        omega
      · rw [if_neg hfits]
        refine iff_of_false ?_ (by omega)
        rintro ⟨n, hn⟩
        cases hn

namespace WrittenArray

variable (w : WrittenArray)

theorem exists_stepsOf_iff (fh : BpFile) :
    (∃ n, stepsOf fh w.var = .ok n) ↔ w.StepsFit fh := by
  unfold stepsOf StepsFit
  by_cases hversion : fh.version &&& haveTimeIndexCharacteristic ≠ 0
  · rw [if_pos hversion]
    have hloop := @exists_nstepsLoop_iff 0xffffffff 0 (VarSteps.times w.var) (by decide)
    rw [Nat.zero_add] at hloop
    constructor
    · rintro ⟨n, hn⟩ -
      obtain ⟨m, hm, -⟩ := exists_of_bind_eq_ok hn
      exact hloop.mp ⟨m, hm⟩
    · intro h
      obtain ⟨m, hm⟩ := hloop.mpr (h hversion)
      refine ⟨m, ?_⟩
      rw [VarSteps.getVarNsteps, hm]
      rfl
  · rw [if_neg hversion]
    exact iff_of_true ⟨_, rfl⟩ fun h => absurd h hversion

def kept : Nat × List UInt64 :=
  keepLocal (1 < w.var.characteristics.length) 0 w.dims.count.toNat [] w.ldims

theorem localKept_iff (hlocal : w.isGlobal = false) :
    (w.kept.1 = w.expected.length ∧ reported w.dims.count.toNat w.kept = w.expected) ↔
      w.LocalKept := by
  have hlength : w.ldims.length = w.dims.count.toNat := w.dims.length_numbers 0
  rw [w.expected_of_local hlocal, LocalKept, ← hlength]
  by_cases hone : w.var.characteristics.length ≤ 1
  · have hkept : w.kept = (w.ldims.length, w.ldims) := by
      rw [kept, decide_eq_false (by omega), keepLocal_of_kept fun h => Bool.noConfusion h,
        ← hlength, Nat.sub_zero, take_length, nil_append]
    rw [if_pos hone, hkept, reported, Nat.sub_self, replicate_zero, append_nil, take_length]
    cases hplace : w.time.place with
    | none => exact iff_of_true ⟨rfl, rfl⟩ rfl
    | some p =>
      have hp : p < w.ldims.length := hlength ▸ w.place_lt hplace
      refine iff_of_false ?_ (Option.some_ne_none p)
      rintro ⟨hlen, -⟩
      rw [length_eraseIdx_of_lt hp] at hlen
      omega
  · have hkept : w.kept = keepLocal true 0 w.ldims.length [] w.ldims := by
      rw [kept, decide_eq_true (by omega), hlength]
    rw [if_neg hone]
    cases hplace : w.time.place with
    | none => exact keepLocal_all_iff hkept
    | some p =>
      have hp : p < w.ldims.length := hlength ▸ w.place_lt hplace
      show (_ = (w.ldims.eraseIdx p).length ∧ _) ↔ _
      rw [length_eraseIdx_of_lt hp]
      exact keepLocal_erase_iff hkept (w.one p hplace)

theorem generic_of_local (hlocal : w.isGlobal = false) {fh : BpFile} {nsteps : Int}
    (hsteps : stepsOf fh w.var = .ok nsteps) :
    bpGetDimensionsGeneric fh w.var w.stream w.usePretransform =
      if w.dims.count.toNat = 0 then .ok { ndim := 0, dims := none, nsteps := nsteps }
      else if 32 < w.dims.count.toNat then .error .outOfBounds
      else .ok { ndim := w.kept.1
                 dims := some (w.kept.2 ++
                   List.replicate (w.dims.count.toNat - w.kept.2.length) 0)
                 nsteps := nsteps } := by
  have hkept : w.arrays.report (1 < w.var.characteristics.length) w.dims.count.toNat = w.kept :=
    if_pos hlocal
  rw [bpGetDimensionsGeneric, w.chosen, ok_bind, hsteps, ok_bind, bpGetDimensionGeneric_of_wf w.wf,
    ← hkept]
  rfl

theorem reported_of_scalar (hzero : w.dims.count.toNat = 0) :
    (w.kept.1 = w.expected.length ∧ reported w.dims.count.toNat w.kept = w.expected) ↔
      0 = w.expected.length ∧ [] = w.expected := by
  have hnil : w.ldims = [] := length_eq_zero_iff.mp ((w.dims.length_numbers 0).trans hzero)
  rw [kept, hzero, hnil]
  rfl

theorem genericRight_iff_fits (hlocal : w.isGlobal = false) (fh : BpFile) :
    w.GenericRight fh ↔ w.GenericFits fh := by
  rw [GenericFits, ← w.localKept_iff hlocal, ← w.exists_stepsOf_iff fh]
  constructor
  · rintro ⟨r, hr, hright⟩
    obtain ⟨dims, hdims, hr'⟩ := exists_of_bind_eq_ok hr
    obtain ⟨nsteps, hsteps, -⟩ := exists_of_bind_eq_ok hr'
    rw [w.generic_of_local hlocal hsteps] at hr
    split_ifs at hr with hzero hmany
    · obtain rfl := Except.ok.inj hr
      exact ⟨by omega, ⟨nsteps, hsteps⟩, (w.reported_of_scalar hzero).mpr hright⟩
    · obtain rfl := Except.ok.inj hr
      exact ⟨by omega, ⟨nsteps, hsteps⟩, hright⟩
  · rintro ⟨hmany, ⟨nsteps, hsteps⟩, hright⟩
    rw [GenericRight, w.generic_of_local hlocal hsteps, if_neg (Nat.not_lt.mpr hmany)]
    by_cases hzero : w.dims.count.toNat = 0
    · rw [if_pos hzero]
      exact ⟨_, rfl, (w.reported_of_scalar hzero).mp hright⟩
    · rw [if_neg hzero]
      exact ⟨_, rfl, hright⟩

/-- **The dimensions are the written ones** exactly if the time is found at its place, and in a
local array if the loop keeps the right dimensions. -/
theorem extracted_iff (fh : BpFile) (fileIsFortran : Bool) :
    w.Extracted fh fileIsFortran ↔
      w.NotimeFits fileIsFortran ∧ (w.isGlobal = false → w.GenericFits fh) := by
  rw [← w.notimeRight_iff_fits]
  constructor
  · intro h
    exact ⟨h.notime, fun hlocal => (w.genericRight_iff_fits hlocal fh).mp (h.generic hlocal)⟩
  · rintro ⟨hnotime, hgeneric⟩
    exact ⟨hnotime, fun hlocal => (w.genericRight_iff_fits hlocal fh).mpr (hgeneric hlocal)⟩

end WrittenArray

def fileOfThree : BpFile where
  version := 0x203
  pgsCount := 0
  tidxStart := 1
  tidxStop := 1

def timeByFive (τ : UInt32) : IndexCharacteristic :=
  { IndexCharacteristic.zero with dims := ⟨2, [1, 0, 0, 5, 0, 0]⟩, timeIndex := τ }

def fiveTwice : WrittenArray where
  var := { id := 0, groupName := CString.empty, name := CString.empty, path := CString.empty,
           type := .byte, characteristics := [timeByFive 1, timeByFive 2] }
  stream := none
  usePretransform := false
  dims := ⟨2, [1, 0, 0, 5, 0, 0]⟩
  chosen := rfl
  wf := rfl
  time := .bounded 0
  one := fun p hp => by
    obtain rfl := Option.some.inj hp
    rfl
  short := fun p hp => by cases hp

/-- The loop ends before the 5: one dimension is left, and it is 0. -/
theorem not_extracted_fiveTwice : ¬fiveTwice.Extracted fileOfThree false := fun h => by
  obtain ⟨r, hr, hndim, hdims⟩ := h.generic (by decide)
  have hrun : bpGetDimensionsGeneric fileOfThree fiveTwice.var none false =
      .ok { ndim := 1, dims := some [0, 0], nsteps := 2 } := by decide
  obtain rfl := Except.ok.inj (hrun.symm.trans hr)
  exact absurd hdims (by decide)

end Adios
