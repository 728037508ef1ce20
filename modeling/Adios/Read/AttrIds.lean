import Adios.Read.BoxRead
import Adios.Read.VarIds
import Mathlib.Data.List.DropRight

/-!
# Adios — attributes by id

`common_read_get_attr_byid` with `adios_read_bp_get_attr_byid`. The list of names has the attributes
of a step; an id is looked for in the list of all attributes, or of those that are not hidden, and
what is returned is from the last step. With what is returned the model says which entries of the
index it is from.
-/

namespace Adios.AttrIds

open BoxRead Wire

/-! ## The code -/

/-- A variable that an attribute stands for: the places of its entry and of its characteristics set,
and for an array of bytes the step that is read. -/
structure VarSource where
  var : Nat
  set : Nat
  step : Option Int
  deriving DecidableEq, Repr

structure Source where
  attr : Nat
  set : Nat
  var : Option VarSource
  deriving DecidableEq, Repr

/-- `type`, `size` and `data` -/
structure AttrData where
  type : Datatype
  size : Int
  data : List UInt8
  deriving DecidableEq, Repr

/-- `err_invalid_attribute_reference`, and that a variable could not be read. -/
inductive AttrError where
  | notFound (path name group : CString) (varId : UInt32)
  | array (path name group : CString) (type : Datatype) (count : UInt8) (varPath varName : CString)
      (varType : Datatype)
  | canNotRead (varPath varName path name group : CString)
  deriving DecidableEq, Repr

/-- "`show_hidden_attrs`": whether one of the first names of the list is that of a hidden
attribute. -/
def showsHidden (f : AdiosFile) : Nat → Nat → Except Fault Bool
  | _, 0 => .ok false
  | i, n + 1 => do
    let name ← f.name f.attrNamelist i
    if isHidden name then .ok true else showsHidden f (i + 1) n

/-- The attribute with an id among those that are counted: "`while (i < attrid && attr_root)`", and
behind it the attributes that are not counted. -/
def walk (counted : IndexEntry → Bool) : Nat → List (IndexEntry × Nat) → Option (IndexEntry × Nat)
  | _, [] => none
  | 0, a :: as => if counted a.1 then some a else walk counted 0 as
  | i + 1, a :: as => if counted a.1 then walk counted i as else walk counted (i + 1) as

/-- `attr_c_index` and `var_c_index`: "`time_index - 1 == last_step`", or the first set. -/
def setAt (lastStep : Int) (e : IndexEntry) : Nat :=
  (e.characteristics.findIdx? fun c => c.timeIndex - 1 = UInt32.ofInt lastStep).getD 0

/-- The variable that is meant by an id: with the path and the group of the attribute, with its
group, or any. -/
def varOf (fh : BpIndex) (a : IndexEntry) (varId : UInt32) : Option Nat :=
  (fh.varsRoot.findIdx? fun v => v.id = varId ∧ v.path = a.path ∧ v.groupName = a.groupName).or
    ((fh.varsRoot.findIdx? fun v => v.id = varId ∧ v.groupName = a.groupName).or
      (fh.varsRoot.findIdx? fun v => v.id = varId))

/-- `malloc (*size)` and `memcpy` of a value. -/
def copyValue (type : Datatype) (value : Option (List UInt8)) : Except Fault AttrData :=
  match value with
  | none => .error .wildPointer
  | some bytes =>
    let size := typeSize type value
    if bytes.length < size.toNat then .error .outOfBounds
    else .ok { type, size := cut32 size.toNat, data := bytes.take size.toNat }

/-- `futils_fstr_to_cstr`; "`strncpy`" stops at a NUL and fills up with them. -/
def fstrToCstr (fs : List UInt8) : List UInt8 :=
  let cs := fs.rdropWhile (· = 32)
  let text := cs.takeWhile (· ≠ 0)
  text ++ List.replicate (cs.length - text.length + 1) 0

/-- "1D byte arrays are converted to string". The memory is that of `tmpdata`. -/
def readBytes (s : Setting) (f : AdiosFile) (a v : IndexEntry) (count : UInt64) (tmpdata : Mem) :
    Except Fault (Except AttrError AttrData) := do
  let (vc, p) ← readVarBb s v [0] [count] f.lastStep.toNat 1
    { mem := tmpdata, data := 0, errors := [] }
  if vc = false then return .error (.canNotRead v.path v.name a.path a.name a.groupName)
  else if s.fileIsFortran then
    let data := fstrToCstr (p.mem.read 0 (cut32 count.toNat).toNat)
    return .ok { type := .string, size := strlen data, data }
  else
    let data := p.mem.read 0 count.toNat ++ [0]
    return .ok { type := .string, size := cut32 data.length, data }

/-- "1D byte arrays" that an attribute may stand for. -/
def isText (a v : IndexEntry) (c : IndexCharacteristic) : Bool :=
  (a.type = .unknown || a.type = .string) && (v.type = .byte || v.type = .unsignedByte)
    && c.dims.count = 1

def takenSet (lastStep : Int) (e : IndexEntry) : Except Fault IndexCharacteristic :=
  match e.characteristics[setAt lastStep e]? with
  | none => .error .outOfBounds
  | some c => .ok c

def readVariable (s : Setting) (f : AdiosFile) (a v : IndexEntry) (c : IndexCharacteristic)
    (tmpdata : Mem) : Except Fault (Option Int × Except AttrError AttrData) :=
  if isText a v c then
    match c.dims.dims[0]? with
    | none => .error .outOfBounds
    | some count => do
      let out ← readBytes s f a v count tmpdata
      return (some (f.currentStep + f.lastStep), out)
  else if 0 < c.dims.count then
    .ok (none, .error (.array a.path a.name a.groupName a.type c.dims.count v.path v.name v.type))
  else do
    let out ← copyValue v.type c.value
    return (none, .ok out)

/-- "Attribute is a reference to a variable" -/
def readReference (s : Setting) (f : AdiosFile) (fh : BpIndex) (a : IndexEntry) (varId : UInt32)
    (tmpdata : Mem) : Except Fault (Option VarSource × Except AttrError AttrData) :=
  match varOf fh a varId with
  | none => .ok (none, .error (.notFound a.path a.name a.groupName varId))
  | some k =>
    match fh.varsRoot[k]? with
    | none => .error .wildPointer
    | some v => do
      let c ← takenSet f.lastStep v
      let (step, out) ← readVariable s f a v c tmpdata
      return (some ⟨k, setAt f.lastStep v, step⟩, out)

/-- What an attribute has, or the variable that it stands for. Without a value and a variable the
caller's `data` is left as it is. -/
def readAttr (s : Setting) (f : AdiosFile) (fh : BpIndex) (a : IndexEntry) (k : Nat)
    (tmpdata : Mem) : Except Fault (Source × Except AttrError (Option AttrData)) := do
  let c ← takenSet f.lastStep a
  if c.value.isSome then do
    let out ← copyValue a.type c.value
    return (⟨k, setAt f.lastStep a, none⟩, .ok (some out))
  else if c.varId ≠ 0 then do
    let (var, out) ← readReference s f fh a c.varId tmpdata
    return (⟨k, setAt f.lastStep a, var⟩, out.map some)
  else .ok (⟨k, setAt f.lastStep a, none⟩, .ok none)

/-- `adios_read_bp_get_attr_byid` -/
def adiosReadBpGetAttrByid (s : Setting) (f : AdiosFile) (tmpdata : Mem) (attrid : Nat) :
    Except Fault (Source × Except AttrError (Option AttrData)) := do
  let showHiddenAttrs ← showsHidden f 0 f.nattrs
  match f.fh with
  | none => .error .wildPointer
  | some fh =>
    match walk (fun a => showHiddenAttrs || !isHidden a.path.val) attrid fh.attrsRoot.zipIdx with
    | none => .error .assertion
    | some (a, k) => readAttr s f fh a k tmpdata

/-- `common_read_get_attr_byid`; without a result it is `err_invalid_attrid`. -/
def commonReadGetAttrByid (s : Setting) (f : AdiosFile) (tmpdata : Mem) (attrid : Int) :
    Except Fault (Option (Source × Except AttrError (Option AttrData))) :=
  if 0 ≤ attrid ∧ attrid < f.nattrs then do
    let out ← adiosReadBpGetAttrByid s f tmpdata (attrid.toNat + f.internals.groupAttridOffset)
    return some out
  else .ok none

/-! ## The statement -/

inductive OpenIn (showHiddenAttrs streaming : Bool) : AdiosFile → Prop
  | opened {fh f} :
      commonReadOpen showHiddenAttrs streaming fh = .ok f → OpenIn showHiddenAttrs streaming f
  | groupView {f} (groupid : Int) :
      OpenIn showHiddenAttrs streaming f →
      OpenIn showHiddenAttrs streaming (commonReadGroupView groupid f).2
  | advanceStep {last poll f f' retval} :
      streaming = true → OpenIn showHiddenAttrs streaming f →
      commonReadAdvanceStep showHiddenAttrs last poll f = .ok (retval, f') →
      OpenIn showHiddenAttrs streaming f'

/-- A file that is open, with what reads find in it. The index has the values of its entries and the
numbers of their dimensions. -/
structure Handle where
  showHiddenAttrs : Bool
  s : Setting
  f : AdiosFile
  opened : OpenIn showHiddenAttrs s.streaming f
  currentStep : (s.currentStep : Int) = f.currentStep
  lastStep : 0 ≤ f.lastStep
  tidxStart : ∀ fh ∈ f.fh, s.fh.tidxStart = fh.tidxStart
  values : ∀ fh ∈ f.fh, ∀ e ∈ fh.attrsRoot ++ fh.varsRoot, ∀ c ∈ e.characteristics,
    ∀ bytes ∈ c.value, (typeSize e.type c.value).toNat ≤ bytes.length
  dims_wf : ∀ fh ∈ f.fh, ∀ v ∈ fh.varsRoot, ∀ c ∈ v.characteristics, c.dims.Wf

def OfTime (time : UInt32) (e : IndexEntry) (c : IndexCharacteristic) : Prop :=
  time ∈ VarSteps.times e → c.timeIndex = time

namespace Handle

variable (h : Handle) (fh : BpIndex)

def shownTime : Option UInt32 :=
  if h.s.streaming then
    match fh.timeOfStep h.f.currentStep with
    | .ok time => time
    | .error _ => none
  else none

def time : UInt32 := (h.shownTime fh).getD fh.tidxStop

def shown (a : IndexEntry) : Bool :=
  (h.showHiddenAttrs || !isHidden a.path.val) && atTime (h.shownTime fh) a

def listed : List (IndexEntry × Nat) := fh.attrsRoot.zipIdx.filter fun a => h.shown fh a.1

/-- The variable is the one that is meant, and what is returned is from it at the time of the
step. -/
structure VarBelongs (a : IndexEntry) (varId : UInt32) (w : VarSource) : Prop where
  var : varOf fh a varId = some w.var
  set : ∃ v c, fh.varsRoot[w.var]? = some v ∧ v.characteristics[w.set]? = some c ∧
    OfTime (h.time fh) v c ∧ ∀ step ∈ w.step, h.time fh ∈ VarSteps.times v →
      ∃ time, stepTime h.s v step = .ok time ∧ UInt32.ofInt time = h.time fh

/-- What is returned is from the attribute, at the time of the step, or from the variable that it
stands for at that time. -/
structure Belongs (a : IndexEntry) (k : Nat) (src : Source) : Prop where
  attr : src.attr = k
  set : ∃ c, a.characteristics[src.set]? = some c ∧ OfTime (h.time fh) a c ∧
    ∀ w ∈ src.var, h.VarBelongs fh a c.varId w

def Answers : Except AttrError (Option AttrData) → Prop
  | .error (.canNotRead ..) => False
  | _ => True

def Right : Prop :=
  ∀ i < h.f.nattrs, ∃ fh ptr a k, h.f.fh = some fh ∧ h.f.attrNamelist = some ptr ∧
    (h.listed fh)[ptr.offset + i]? = some (a, k) ∧
    h.f.name h.f.attrNamelist i = .ok (fullName a) ∧
    ∀ tmpdata, ∃ src out, commonReadGetAttrByid h.s h.f tmpdata i = .ok (some (src, out)) ∧
      h.Belongs fh a k src ∧ Answers out

def namesHidden (ptr : NamelistPtr) : Bool :=
  (((h.listed fh).drop ptr.offset).take h.f.nattrs).any fun a => isHidden (fullName a.1)

def counted (ptr : NamelistPtr) (a : IndexEntry) : Bool :=
  h.namesHidden fh ptr || !isHidden a.path.val

/-- The entry has no set at the time; or the set that is taken is at the time: that of the time
`last_step + 1`, or the first set if there is none. -/
def Timely (e : IndexEntry) : Prop :=
  h.time fh ∈ VarSteps.times e →
    if UInt32.ofInt (h.f.lastStep + 1) ∈ VarSteps.times e then
      UInt32.ofInt (h.f.lastStep + 1) = h.time fh
    else (VarSteps.times e).head? = some (h.time fh)

/-- A variable that an attribute stands for: a scalar with a value, an array of bytes whose read is
one of the step, or an array that is refused. -/
structure VarClear (a v : IndexEntry) (c : IndexCharacteristic) : Prop where
  timely : h.Timely fh v
  step : isText a v c = true → h.time fh ∈ VarSteps.times v → ∃ time,
    stepTime h.s v (h.f.currentStep + h.f.lastStep) = .ok time ∧ UInt32.ofInt time = h.time fh
  bytes : isText a v c = true → ∀ tmpdata, ∃ p, readVarBb h.s v [0] [c.dims.dims.headD 0]
    h.f.lastStep.toNat 1 { mem := tmpdata, data := 0, errors := [] } = .ok (true, p)
  value : c.dims.count = 0 → c.value.isSome

/-- An attribute in view: as many attributes are counted before it as its id says, and the sets that
are taken are at the time. -/
structure AttrClear (ptr : NamelistPtr) (a : IndexEntry) (k i : Nat) : Prop where
  counted : h.counted fh ptr a = true
  rank : (fh.attrsRoot.take k).countP (h.counted fh ptr) = i + h.f.internals.groupAttridOffset
  timely : h.Timely fh a
  var : ∀ c, a.characteristics[setAt h.f.lastStep a]? = some c → c.value = none → c.varId ≠ 0 →
    ∀ j v, varOf fh a c.varId = some j → fh.varsRoot[j]? = some v →
      ∃ d, v.characteristics[setAt h.f.lastStep v]? = some d ∧ h.VarClear fh a v d

/-- There are no attributes in view; or the file is open, its list has not been freed, and all the
attributes in view are clear. -/
def Clear : Prop :=
  h.f.nattrs = 0 ∨ ∃ fh ptr, h.f.fh = some fh ∧ h.f.attrNamelist = some ptr ∧
    ptr.seek = h.f.seeks ∧ ptr.offset + h.f.nattrs ≤ (h.listed fh).length ∧
    ∀ i < h.f.nattrs, ∀ a k, (h.listed fh)[ptr.offset + i]? = some (a, k) →
      h.AttrClear fh ptr a k i

end Handle

end Adios.AttrIds
