import Adios.Index.Struct
import Mathlib.Data.List.Basic
import Mathlib.Data.List.Infix
import Mathlib.Algebra.Ring.Int.Defs
import Mathlib.Algebra.Ring.Nat

/-!
# Adios — the steps of an open file

`bp_seek_to_step` and the step functions of the BP reader: the list of the variables that are
visible at a step, with the table that maps their ids to the entries of the index, and the list of
the attributes. The lists are memory that the next step frees.
-/

namespace Adios

/-! ## The index of a file -/

/-- What a `BP_FILE` has of its index: the names of the groups and the entries. -/
structure BpIndex where
  groups : List CString
  varsRoot : List IndexEntry
  attrsRoot : List IndexEntry
  tidxStart : UInt32
  tidxStop : UInt32

abbrev Name := List UInt8

/-- "Full name of variable: concatenate var_path and var_name" -/
def fullName (e : IndexEntry) : Name :=
  if e.path.val = [] then e.name.val
  else if e.path.val.getLast? = some 47 then e.path.val ++ e.name.val
  else e.path.val ++ 47 :: e.name.val

/-- `strstr (s, "__adios__")` -/
def isHidden (s : Name) : Bool := decide (chars "__adios__" <:+: s)

/-- The loop of `get_time`. -/
def getTimeLoop (step : Int) : List UInt32 → UInt32 → Int → UInt32
  | [], _, _ => 0xffffffff
  | t :: ts, prevTi, counter =>
    if t ≠ prevTi then
      if counter + 1 = step + 1 then t else getTimeLoop step ts t (counter + 1)
    else getTimeLoop step ts prevTi counter

/-- `get_time`: the time index of a step, by the steps a variable was written in; -1 if there are
not so many. -/
def getTime (v : IndexEntry) (step : Int) : UInt32 :=
  getTimeLoop step (v.characteristics.map (·.timeIndex)) 0 0

def atTime (time : Option UInt32) (e : IndexEntry) : Bool :=
  e.characteristics.any fun c => time.all (c.timeIndex = ·)

/-- The variables at a time, each with its place in `vars_table`. -/
def BpIndex.visibleVars (fh : BpIndex) (time : Option UInt32) : List (IndexEntry × Nat) :=
  fh.varsRoot.zipIdx.filter fun e => atTime time e.1

def BpIndex.visibleAttrs (fh : BpIndex) (showHiddenAttrs : Bool) (time : Option UInt32) :
    List IndexEntry :=
  fh.attrsRoot.filter fun a => (showHiddenAttrs || !isHidden a.path.val) && atTime time a

def BpIndex.grpid (fh : BpIndex) (e : IndexEntry) : Option Nat :=
  fh.groups.findIdx? (· = e.groupName)

/-- `var_counts_per_group` and `attr_counts_per_group` -/
def BpIndex.countsPerGroup (fh : BpIndex) (es : List IndexEntry) : List Nat :=
  (List.range fh.groups.length).map fun g => es.countP fun e => fh.grpid e = some g

/-- `adios_read_bp_get_groupinfo`: the attributes of a group are looked for behind as many as the
groups before it have. -/
def BpIndex.nattrsPerGroup (fh : BpIndex) (showHiddenAttrs : Bool) : List Nat :=
  let counts := fh.countsPerGroup fh.attrsRoot
  (List.range fh.groups.length).map fun i =>
    (((fh.attrsRoot.map fullName).drop (counts.take i).sum).take (counts.getD i 0)).countP
      fun name => showHiddenAttrs || !isHidden name

/-! ## An open file -/

structure NamelistPtr where
  seek : Nat
  names : List Name
  offset : Nat

/-- `struct common_read_internals_struct`. `none` for the group in view is -1; the hash table has
0 for what is not in it. -/
structure ReadInternals where
  groupInView : Option Nat
  groupVaridOffset : Nat
  groupAttridOffset : Nat
  fullNvars : Nat
  fullVarnamelist : Option NamelistPtr
  fullNattrs : Nat
  fullAttrnamelist : Option NamelistPtr
  nvarsPerGroup : List Nat
  nattrsPerGroup : List Nat
  hashtblVars : Option (Name → Nat)

/-- `ADIOS_FILE` with its `BP_PROC`. `seeks` counts the seeks: of the namelists only those of the
last one have not been freed. -/
structure AdiosFile where
  fh : Option BpIndex
  varidMapping : List Nat
  seeks : Nat
  nvars : Nat
  varNamelist : Option NamelistPtr
  nattrs : Nat
  attrNamelist : Option NamelistPtr
  currentStep : Int
  lastStep : Int
  internals : ReadInternals

/-- `namelist [i]` -/
def AdiosFile.name (f : AdiosFile) (namelist : Option NamelistPtr) (i : Nat) :
    Except Fault Name :=
  match namelist with
  | none => .error .wildPointer
  | some p =>
    if p.seek = f.seeks then
      match p.names[p.offset + i]? with
      | some name => .ok name
      | none => .error .wildPointer
    else .error .wildPointer

/-- `free_namelist`: only the start of a list can be freed. -/
def AdiosFile.freeNamelist (f : AdiosFile) (namelist : Option NamelistPtr) (n : Nat) :
    Except Fault Unit :=
  match namelist with
  | none => .ok ()
  | some p =>
    if p.seek = f.seeks ∧ p.offset = 0 ∧ n ≤ p.names.length then .ok () else .error .wildPointer

/-- `release_step` -/
def releaseStep (f : AdiosFile) : Except Fault AdiosFile := do
  f.freeNamelist f.varNamelist f.nvars
  f.freeNamelist f.attrNamelist f.nattrs
  return { f with
    varidMapping := [], varNamelist := none, nvars := 0, attrNamelist := none, nattrs := 0 }

/-- The time that `bp_seek_to_step` looks for: that of the first variable at the step. -/
def BpIndex.timeOfStep (fh : BpIndex) (tostep : Int) : Except Fault (Option UInt32) :=
  if tostep = -1 then .ok none
  else
    match fh.varsRoot with
    | [] => .error .wildPointer
    | v :: _ => .ok (some (getTime v tostep))

/-- `bp_seek_to_step` -/
def bpSeekToStep (showHiddenAttrs : Bool) (fh : BpIndex) (tostep : Int) (f : AdiosFile) :
    Except Fault AdiosFile := do
  let time ← fh.timeOfStep tostep
  let vars := fh.visibleVars time
  let attrs := fh.visibleAttrs showHiddenAttrs time
  let seek := f.seeks + 1
  return { f with
    fh := some fh
    varidMapping := vars.map (·.2)
    seeks := seek
    nvars := vars.length
    varNamelist := some ⟨seek, vars.map fun e => fullName e.1, 0⟩
    nattrs := attrs.length
    attrNamelist := some ⟨seek, attrs.map fullName, 0⟩
    currentStep := tostep }

/-- A `uint32_t` as an `int`. -/
def intOfU32 (n : UInt32) : Int := Int.bmod n.toNat (2 ^ 32)

/-- `err_step_notready` -/
def errStepNotready : Int := -22

/-- `adios_read_bp_advance_step`; `poll` is the file that `get_new_step` finds, if it finds more
steps in it before the time is out. -/
def adiosReadBpAdvanceStep (showHiddenAttrs : Bool) (last : Bool) (poll : Option BpIndex)
    (f : AdiosFile) : Except Fault (Int × AdiosFile) :=
  match f.fh with
  | none => .error .wildPointer
  | some fh =>
    -- the name of the file is taken from the `BP_FILE` that was closed
    if last then .error .wildPointer
    else if f.currentStep < f.lastStep then do
      let f ← releaseStep f
      let f ← bpSeekToStep showHiddenAttrs fh (f.currentStep + 1) f
      return (0, f)
    else
      match poll with
      | none => .ok (errStepNotready, { f with fh := none })
      | some fh => do
        -- `build_ADIOS_FILE_struct`
        let f := { f with varidMapping := [], lastStep := intOfU32 fh.tidxStop - 1 }
        let f ← releaseStep f
        let f ← bpSeekToStep showHiddenAttrs fh 0 f
        let f ← releaseStep f
        let f ← bpSeekToStep showHiddenAttrs fh (f.lastStep + 1) f
        return (0, f)

end Adios
