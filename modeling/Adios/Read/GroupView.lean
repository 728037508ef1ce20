import Adios.Read.Steps

/-!
# Adios — group views and variable ids

`core/common_read.c`: opening a file, group views, step advances, the search for a name, and the
functions that take a variable id. A view points into the list of the full file and adds an offset
to the ids; the table of the names is that of the full list.

A function that takes a variable id is modelled by the entries of the index it works on, as their
places in `vars_table`.
-/

namespace Adios

/-! ## The hash table of the names -/

/-- The loop that puts `i + 1` for `var_namelist [i]`. Of no names, there is no table. -/
def hashtblOfNames (names : List Name) : Option (Name → Nat) :=
  if names = [] then none
  else some (names.zipIdx.foldl
    (fun tbl (name, i) => fun s => if s = name then i + 1 else tbl s) fun _ => 0)

/-- The `n` names of a list behind the first `i`. -/
def AdiosFile.names (f : AdiosFile) (namelist : Option NamelistPtr) :
    Nat → Nat → Except Fault (List Name)
  | _, 0 => .ok []
  | i, n + 1 => do
    let name ← f.name namelist i
    let names ← f.names namelist (i + 1) n
    return name :: names

def AdiosFile.renew (f : AdiosFile) (showHiddenAttrs : Bool) (fh : BpIndex) (names : List Name) :
    AdiosFile :=
  { f with internals := { f.internals with
    hashtblVars := hashtblOfNames names
    nvarsPerGroup := fh.countsPerGroup fh.varsRoot
    nattrsPerGroup := fh.nattrsPerGroup showHiddenAttrs } }

def updateInternals (showHiddenAttrs : Bool) (fh : BpIndex) (f : AdiosFile) :
    Except Fault AdiosFile := do
  let names ← f.names f.varNamelist 0 f.nvars
  return f.renew showHiddenAttrs fh names

/-! ## Views -/

/-- `err_invalid_group` -/
def errInvalidGroup : Int := -5

/-- "save complete list if first done" -/
def AdiosFile.saveFullView (f : AdiosFile) : AdiosFile :=
  if f.internals.groupInView = none then
    { f with internals := { f.internals with
      fullNvars := f.nvars
      fullVarnamelist := f.varNamelist
      fullNattrs := f.nattrs
      fullAttrnamelist := f.attrNamelist } }
  else f

def NamelistPtr.add (p : NamelistPtr) (n : Nat) : NamelistPtr := { p with offset := p.offset + n }

/-- "Set view to this group" -/
def AdiosFile.setView (f : AdiosFile) (g : Nat) : AdiosFile :=
  let varidOffset := (f.internals.nvarsPerGroup.take g).sum
  let attridOffset := (f.internals.nattrsPerGroup.take g).sum
  { f with
    nvars := f.internals.nvarsPerGroup.getD g 0
    varNamelist := f.internals.fullVarnamelist.map (·.add varidOffset)
    nattrs := f.internals.nattrsPerGroup.getD g 0
    attrNamelist := f.internals.fullAttrnamelist.map (·.add attridOffset)
    internals := { f.internals with
      groupVaridOffset := varidOffset
      groupAttridOffset := attridOffset
      groupInView := some g } }

/-- "Reset to full view" -/
def AdiosFile.resetView (f : AdiosFile) : AdiosFile :=
  { f with
    nvars := f.internals.fullNvars
    varNamelist := f.internals.fullVarnamelist
    nattrs := f.internals.fullNattrs
    attrNamelist := f.internals.fullAttrnamelist
    internals := { f.internals with
      groupVaridOffset := 0, groupAttridOffset := 0, groupInView := none } }

/-- `common_read_group_view` -/
def commonReadGroupView (groupid : Int) (f : AdiosFile) : Int × AdiosFile :=
  if 0 ≤ groupid ∧ groupid < f.internals.nvarsPerGroup.length then
    (0, f.saveFullView.setView groupid.toNat)
  else if groupid = -1 then (0, f.resetView)
  else (errInvalidGroup, f)

/-! ## Open and advance -/

/-- `calloc` of the internals. -/
def ReadInternals.new : ReadInternals where
  groupInView := none
  groupVaridOffset := 0
  groupAttridOffset := 0
  fullNvars := 0
  fullVarnamelist := none
  fullNattrs := 0
  fullAttrnamelist := none
  nvarsPerGroup := []
  nattrsPerGroup := []
  hashtblVars := none

def AdiosFile.new (fh : BpIndex) : AdiosFile where
  fh := some fh
  varidMapping := []
  seeks := 0
  nvars := 0
  varNamelist := none
  nattrs := 0
  attrNamelist := none
  currentStep := 0
  lastStep := 0
  internals := .new

/-- `common_read_open_file` and `common_read_open` with the BP method: the first sees all steps,
the second the first one. -/
def commonReadOpen (showHiddenAttrs streaming : Bool) (fh : BpIndex) : Except Fault AdiosFile := do
  let f ← bpSeekToStep showHiddenAttrs fh (if streaming then 0 else -1) (.new fh)
  updateInternals showHiddenAttrs fh
    { f with currentStep := 0, lastStep := intOfU32 (fh.tidxStop - fh.tidxStart) }

/-- "we have the full view at this moment", and the view that was active is set again. -/
def AdiosFile.reenterView (f : AdiosFile) : AdiosFile :=
  match f.internals.groupInView with
  | none => f
  | some g =>
    (commonReadGroupView g { f with internals := { f.internals with groupInView := none } }).2

/-- `common_read_advance_step` -/
def commonReadAdvanceStep (showHiddenAttrs last : Bool) (poll : Option BpIndex) (f : AdiosFile) :
    Except Fault (Int × AdiosFile) := do
  let (retval, f) ← adiosReadBpAdvanceStep showHiddenAttrs last poll f
  if retval ≠ 0 then return (retval, f)
  else
    match f.fh with
    | none => .error .wildPointer
    | some fh =>
      let f ← updateInternals showHiddenAttrs fh f
      return (retval, f.reenterView)

inductive OpenFile (showHiddenAttrs : Bool) : AdiosFile → Prop
  | opened {streaming fh f} :
      commonReadOpen showHiddenAttrs streaming fh = .ok f → OpenFile showHiddenAttrs f
  | groupView {f} (groupid : Int) :
      OpenFile showHiddenAttrs f → OpenFile showHiddenAttrs (commonReadGroupView groupid f).2
  | advanceStep {last poll f f' retval} :
      OpenFile showHiddenAttrs f →
      commonReadAdvanceStep showHiddenAttrs last poll f = .ok (retval, f') →
      OpenFile showHiddenAttrs f'

/-- `common_read_find_var`: `none` is an error and -1. -/
def commonReadFindVar (f : AdiosFile) (name : Name) : Except Fault (Option Nat) :=
  match f.internals.hashtblVars with
  | none => .error .wildPointer
  | some tbl => .ok (if tbl name = 0 then none else some (tbl name - 1))

/-! ## Variable ids in the BP layer -/

/-- `map_req_varid` -/
def mapReqVarid (f : AdiosFile) (varid : Nat) : Except Fault Nat :=
  match f.varidMapping[varid]? with
  | some k => .ok k
  | none => .error .wildPointer

/-- `bp_find_var_byid` -/
def bpFindVarByid (f : AdiosFile) (varid : Nat) : Except Fault Nat :=
  match f.fh with
  | none => .error .wildPointer
  | some fh => if varid < fh.varsRoot.length then .ok varid else .error .wildPointer

def bpFindMapped (f : AdiosFile) (varid : Nat) : Except Fault Nat := do
  let mappedId ← mapReqVarid f varid
  bpFindVarByid f mappedId

/-- `adios_read_bp_inq_var_byid` -/
def adiosReadBpInqVarByid (f : AdiosFile) (varid : Nat) : Except Fault Nat := bpFindMapped f varid

/-- `adios_read_bp_inq_var_stat` -/
def adiosReadBpInqVarStat (f : AdiosFile) (varid : Nat) : Except Fault Nat := bpFindVarByid f varid

/-- `adios_read_bp_inq_var_blockinfo` -/
def adiosReadBpInqVarBlockinfo (f : AdiosFile) (varid : Nat) : Except Fault Nat :=
  bpFindMapped f varid

/-- `adios_read_bp_inq_var_transinfo` -/
def adiosReadBpInqVarTransinfo (f : AdiosFile) (varid : Nat) : Except Fault Nat :=
  bpFindMapped f varid

/-- `adios_read_bp_inq_var_trans_blockinfo` -/
def adiosReadBpInqVarTransBlockinfo (f : AdiosFile) (varid : Nat) : Except Fault Nat :=
  bpFindMapped f varid

/-- `adios_read_bp_schedule_read_byid` -/
def adiosReadBpScheduleReadByid (f : AdiosFile) (varid : Nat) : Except Fault Nat :=
  bpFindMapped f varid

/-- `adios_read_bp_is_var_timed` -/
def adiosReadBpIsVarTimed (f : AdiosFile) (varid : Nat) : Except Fault Nat := bpFindVarByid f varid

/-! ## Variable ids in the common layer -/

/-- `common_read_inq_transinfo`, of what an inquiry for the id has returned. -/
def commonReadInqTransinfo (f : AdiosFile) (varid : Nat) : Except Fault Nat :=
  adiosReadBpInqVarTransinfo f varid

/-- "`ti && ti->transform_type != adios_transform_none`" of the entry at a place. -/
def isTransformed (f : AdiosFile) (k : Nat) : Bool :=
  match f.fh.bind (·.varsRoot[k]?) with
  | some e => e.characteristics.head?.any fun c => c.transform.transformType ≠ .none
  | none => false

/-- `common_read_inq_var_raw_byid`. An id that is not valid has no entries. -/
def commonReadInqVarRawByid (f : AdiosFile) (varid : Nat) : Except Fault (List Nat) :=
  if varid < f.nvars then do
    let k ← adiosReadBpInqVarByid f (varid + f.internals.groupVaridOffset)
    return [k]
  else .ok []

/-- `common_read_inq_var_byid`, in the logical view of the data. -/
def commonReadInqVarByid (f : AdiosFile) (varid : Nat) : Except Fault (List Nat) := do
  let vi ← commonReadInqVarRawByid f varid
  if vi = [] then return []
  else
    let ti ← commonReadInqTransinfo f varid
    return vi ++ [ti]

/-- `common_read_inq_var_stat` -/
def commonReadInqVarStat (f : AdiosFile) (varid : Nat) : Except Fault (List Nat) := do
  let k ← adiosReadBpInqVarStat f (varid + f.internals.groupVaridOffset)
  return [k]

/-- `common_read_inq_var_blockinfo`, in the logical view of the data. -/
def commonReadInqVarBlockinfo (f : AdiosFile) (varid : Nat) : Except Fault (List Nat) := do
  let ti ← commonReadInqTransinfo f varid
  if isTransformed f ti then
    -- `common_read_inq_trans_blockinfo`
    let k ← adiosReadBpInqVarTransBlockinfo f varid
    return [ti, k]
  else
    -- `common_read_inq_var_blockinfo_raw`
    let k ← adiosReadBpInqVarBlockinfo f (varid + f.internals.groupVaridOffset)
    return [ti, k]

/-- `common_read_schedule_read_byid`: the raw variable and the transform decide how the read is
scheduled. -/
def commonReadScheduleReadByid (f : AdiosFile) (varid : Nat) : Except Fault (List Nat) :=
  if varid < f.nvars then do
    let vi ← commonReadInqVarRawByid f varid
    let ti ← commonReadInqTransinfo f varid
    let k ← adiosReadBpScheduleReadByid f (varid + f.internals.groupVaridOffset)
    return vi ++ [ti, k]
  else .ok []

/-- `common_read_is_var_timed` -/
def commonReadIsVarTimed (f : AdiosFile) (varid : Nat) : Except Fault (List Nat) := do
  let k ← adiosReadBpIsVarTimed f (varid + f.internals.groupVaridOffset)
  return [k]

/-- `common_read_inq_transinfo` and `common_read_inq_trans_blockinfo` of a variable inquired
before. -/
def commonReadInqTransBlockinfo (f : AdiosFile) (varid : Nat) : Except Fault (List Nat) := do
  let ti ← commonReadInqTransinfo f varid
  let k ← adiosReadBpInqVarTransBlockinfo f varid
  return [ti, k]

/-- `common_read_inq_var` -/
def commonReadInqVar (f : AdiosFile) (varname : Name) : Except Fault (List Nat) := do
  match ← commonReadFindVar f varname with
  | some varid => commonReadInqVarByid f varid
  | none => return []

/-- `common_read_schedule_read` -/
def commonReadScheduleRead (f : AdiosFile) (varname : Name) : Except Fault (List Nat) := do
  match ← commonReadFindVar f varname with
  | some varid => commonReadScheduleReadByid f varid
  | none => return []

end Adios
