import Adios.Core.CopySubvolume
import Adios.Index.Struct
import Adios.Wire.Signed
import Mathlib.Algebra.Ring.Nat

/-!
# DataSpaces — the metadata of a group

`ds_pack_group_info` of `write/adios_dataspaces.c` and `ds_unpack_group_info` and
`ds_dimension_ordering` of `read/read_dataspaces.c`. An `int` is the number that it holds; what does
not fit is cut when it is assigned.
-/

namespace Adios.DataSpaces

open Wire

/-- `MAX_DS_NDIM` -/
def maxDsNdim : Nat := 10

/-- `ds_dimension_ordering`: the places of `didx`. -/
def dsDimensionOrdering (ndims : Nat) (isAppFortran : Bool) : List Nat :=
  (List.range maxDsNdim).map fun i =>
    if i < ndims then if isAppFortran then i else ndims - 1 - i else i

/-! ## The writer -/

/-- `ds_get_full_name_len` -/
def dsGetFullNameLen (path name : CString) : Int :=
  if path.val = [] then cut32 name.val.length
  else if path.val = [47] then cut32 (name.val.length + 1)
  else cut32 (path.val.length + name.val.length + 1)

/-- The characters that `strncpy` writes. -/
def strncpy (s : CString) (n : Nat) : List UInt8 :=
  s.val.take n ++ List.replicate (n - s.val.length) 0

/-- `ds_get_full_name`: what is in `out`, and the length. -/
def dsGetFullName (path name : CString) (maxlen : Nat) : Except Fault (List UInt8 × Int) :=
  if path.val = [] ∨ path.val = [47] then .ok (strncpy name maxlen, cut32 name.val.length)
  else if path.val = [47] then
    .ok (47 :: strncpy name (maxlen - 1), cut32 (name.val.length + 1))
  else
    let len := cut32 path.val.length
    -- "`out[len] = '/'`"
    if 0 ≤ len ∧ len < maxlen then
      .ok ((strncpy path (maxlen - 1)).take len.toNat ++
        47 :: strncpy name (maxlen - len.toNat - 1), cut32 (len + name.val.length + 1))
    else .error .outOfBounds

/-- What `memcpy` reads behind a pointer. -/
def memcpy (ptr : Option (List UInt8)) (n : Int) : Except Fault (List UInt8) :=
  if n = 0 then .ok []
  else
    match ptr with
    | none => .error .wildPointer
    | some bs => if 0 ≤ n ∧ n ≤ bs.length then .ok (bs.take n.toNat) else .error .outOfBounds

/-- `v->characteristics->…` -/
def firstCharacteristic (e : IndexEntry) : Except Fault IndexCharacteristic :=
  match e.characteristics with
  | c :: _ => .ok c
  | [] => .error .wildPointer

def valueSize (type : Datatype) (value : Option (List UInt8)) : Int :=
  if type ≠ .string then (getTypeSize type none).toNat
  else (getTypeSize type value).toNat + 4

def varSize (v : IndexEntry) : Except Fault Int := do
  let c ← firstCharacteristic v
  let size := 4 * 4 + dsGetFullNameLen v.path v.name + maxDsNdim * 8
  return if c.dims.count = 0 then size + valueSize v.type c.value else size

def attrSize (a : IndexEntry) : Except Fault Int := do
  let c ← firstCharacteristic a
  return 4 + dsGetFullNameLen a.path a.name + 4 + valueSize a.type c.value

/-- "`char name[256]`" -/
def nameSize : Nat := 256

section

variable (host : Endian)

/-- "length of full path" and "full path". -/
def packName (e : IndexEntry) : Except Fault (List UInt8) := do
  let (name, namelen) ← dsGetFullName e.path e.name nameSize
  let bytes ← memcpy (some name) namelen
  return host.i32 namelen ++ bytes

/-- "store scalar value too" -/
def packValue (type : Datatype) (value : Option (List UInt8)) : Except Fault (List UInt8) :=
  if type ≠ .string then memcpy value (cut32 (getTypeSize type none).toNat)
  else do
    let size := cut32 (getTypeSize type value).toNat
    let bytes ← memcpy value size
    return host.i32 size ++ bytes

/-- The loop over the dimensions: what is in `ldims` and `gdims` up to `j`, and `hastime`. -/
def scanDims (dims : List UInt64) :
    Nat → List (UInt64 × UInt64) × Bool → Except Fault (List (UInt64 × UInt64) × Bool)
  | 0, s => .ok s
  | n + 1, (kept, hastime) =>
    let j := kept.length
    match dims[j * 3]?, dims[j * 3 + 1]? with
    | some ldim, some gdim =>
      -- "`ldims[j] = …`"
      if maxDsNdim ≤ j then .error .outOfBounds
      else if gdim = 0 ∧ ldim = 1 then
        -- "time dimension's global=0, local=1, skip"
        scanDims dims n (kept, true)
      else scanDims dims n (kept ++ [(ldim, gdim)], hastime)
    | _, _ => .error .outOfBounds

/-- "a local variable has no global dimensions" -/
def extent (ldim gdim : UInt64) : UInt64 := if gdim ≠ 0 then gdim else ldim

def packVar (isAppFortran : Bool) (v : IndexEntry) : Except Fault (List UInt8) := do
  let name ← packName host v
  let c ← firstCharacteristic v
  let (kept, hastime) ← scanDims c.dims.dims c.dims.count.toNat ([], false)
  let filled := kept ++ List.replicate (maxDsNdim - kept.length) (1, 1)
  let ndims := if kept.length < maxDsNdim then kept.length else maxDsNdim
  let didx := dsDimensionOrdering ndims isAppFortran
  let value ← if c.dims.count = 0 then packValue host v.type c.value else .ok []
  return name ++ host.i32 v.type.toInt ++ host.i32 (if hastime then 1 else 0) ++ host.i32 ndims ++
    (didx.flatMap fun i =>
      let d := filled.getD i (1, 1)
      host.u64 (extent d.1 d.2)) ++ value

def packAttr (a : IndexEntry) : Except Fault (List UInt8) := do
  let name ← packName host a
  let c ← firstCharacteristic a
  let value ← packValue host a.type c.value
  return name ++ host.i32 a.type.toInt ++ value

/-- The size of the buffer by the first cycle, and "number of extra bytes at the end". -/
def groupInfoSize (varsRoot attrsRoot : List IndexEntry) : Except Fault (Int × Int) := do
  let vars ← varsRoot.mapM varSize
  let attrs ← attrsRoot.mapM attrSize
  -- "`(*nvars)++`", "`(*nattrs)++`"
  if 2147483648 ≤ varsRoot.length ∨ 2147483648 ≤ attrsRoot.length then .error .signedOverflow
  else
    let size := (vars ++ attrs).foldl (fun size n => cut32 (size + n)) (3 * 4)
    let alignBytes := if size.tmod 8 = 0 then 0 else 8 - size.tmod 8
    if 2147483648 ≤ size + alignBytes then .error .signedOverflow
    else .ok (size + alignBytes, alignBytes)

/-- `ds_pack_group_info`: the buffer up to the final `*buffer_size`. -/
def dsPackGroupInfo (isAppFortran : Bool) (varsRoot attrsRoot : List IndexEntry) :
    Except Fault (List UInt8) := do
  let (size, alignBytes) ← groupInfoSize varsRoot attrsRoot
  -- `malloc` of a negative size
  if size < 0 then .error .wildPointer
  else
    let vars ← varsRoot.mapM (packVar host isAppFortran)
    let attrs ← attrsRoot.mapM (packAttr host)
    let content := host.i32 varsRoot.length ++ host.i32 attrsRoot.length ++ vars.flatten ++
      attrs.flatten ++ List.replicate alignBytes.toNat 0
    -- a `memcpy` behind the end of the buffer
    if size < 4 + content.length then .error .outOfBounds
    else .ok (host.i32 (4 + content.length) ++ content)

end

/-! ## The reader -/

/-- `struct dataspaces_var_struct`; the first `ndims` of `dims` are in the list. -/
structure UnpackedVar where
  name : CString
  type : Datatype
  hastime : Int
  ndims : Int
  dims : List UInt64
  value : Option (List UInt8)
  deriving DecidableEq

/-- `struct dataspaces_attr_struct` -/
structure UnpackedAttr where
  name : CString
  type : Datatype
  value : List UInt8
  deriving DecidableEq

structure GroupInfo where
  vars : List UnpackedVar
  attrs : List UnpackedAttr
  deriving DecidableEq

/-- `*(enum ADIOS_DATATYPES*)b`; a number of more than a byte is not one of the constants. -/
def datatypeOf (n : Int) : Datatype :=
  if 0 ≤ n ∧ n < 256 then .ofCode (UInt8.ofNat n.toNat) else .unknown

/-- What stands for `futils_is_called_from_fortran ()`, and whether `malloc (0)` is a pointer. -/
structure Caller where
  fortran : Bool
  mallocZero : Bool

section

variable (host : Endian) (caller : Caller)

/-- "`malloc (n + extrabyte)`" and `memcpy` of `n` bytes. -/
def copied (n : Int) (extrabyte : Int) : Parser Fault (List UInt8) :=
  if 2147483648 ≤ n + extrabyte then Parser.fail .signedOverflow
  else if n + extrabyte < 0 ∨ n + extrabyte = 0 ∧ caller.mallocZero = false then
    Parser.fail .invalidBuffer
  else if n < 0 then Parser.fail .outOfBounds
  else Parser.take .outOfBounds n.toNat

def unpackName : Parser Fault CString := do
  let namelen ← Parser.int32 host .outOfBounds
  let name ← copied caller namelen 1
  return .ofBuffer name

/-- "need to get scalar value too" -/
def unpackValue (type : Datatype) : Parser Fault (List UInt8) :=
  if type ≠ .string then
    copied caller (cut32 (CopySubvolume.bpGetTypeSize type).toNat) 0
  else do
    let datasize ← Parser.int32 host .outOfBounds
    let value ← copied caller datasize 1
    return value ++ [0]

/-- The dimensions that a variable keeps, of the `MAX_DS_NDIM` in the buffer. -/
def reorder (ndims : Int) (dims : List UInt64) : Except Fault (List UInt64) :=
  -- behind `didx`
  if maxDsNdim < ndims then .error .outOfBounds
  else .ok ((List.range ndims.toNat).map fun j =>
    dims.getD ((dsDimensionOrdering ndims.toNat caller.fortran).getD j 0) 0)

def unpackVar : Parser Fault UnpackedVar := do
  let name ← unpackName host caller
  let type ← Parser.int32 host .outOfBounds
  let hastime ← Parser.int32 host .outOfBounds
  let ndims ← Parser.int32 host .outOfBounds
  let dims ← Parser.loop maxDsNdim
    (fun dims => do
      let d ← Parser.uint64 host .outOfBounds
      return dims ++ [d]) []
  let kept ← reorder caller ndims dims
  if ndims = 0 ∧ hastime = 0 then do
    let value ← unpackValue host caller (datatypeOf type)
    return ⟨name, datatypeOf type, hastime, ndims, kept, some value⟩
  else return ⟨name, datatypeOf type, hastime, ndims, kept, none⟩

def unpackAttr : Parser Fault UnpackedAttr := do
  let name ← unpackName host caller
  let type ← Parser.int32 host .outOfBounds
  let value ← unpackValue host caller (datatypeOf type)
  return ⟨name, datatypeOf type, value⟩

/-- The arrays of `n` elements are allocated. -/
def allocated (n : Int) : Parser Fault Unit :=
  if n < 0 ∨ n = 0 ∧ caller.mallocZero = false then Parser.fail .invalidBuffer else pure ()

def unpackGroup : Parser Fault GroupInfo := do
  -- a length other than expected is a warning
  let _ ← Parser.int32 host .outOfBounds
  let varsCount ← Parser.int32 host .outOfBounds
  let attrsCount ← Parser.int32 host .outOfBounds
  allocated caller varsCount
  allocated caller attrsCount
  let vars ← Parser.loop varsCount.toNat
    (fun vars => do
      let v ← unpackVar host caller
      return vars ++ [v]) []
  let attrs ← Parser.loop attrsCount.toNat
    (fun attrs => do
      let a ← unpackAttr host caller
      return attrs ++ [a]) []
  return ⟨vars, attrs⟩

/-- `ds_unpack_group_info`: what is unpacked, and the bytes behind the last one that is read. -/
def dsUnpackGroupInfo (buf : List UInt8) : Except Fault (GroupInfo × List UInt8) :=
  if buf.length < 12 then .error .invalidBuffer else unpackGroup host caller buf

end

/-! ## The statement -/

structure Dimension where
  ldim : UInt64
  gdim : UInt64
  offset : UInt64
  deriving DecidableEq

inductive Time where
  | absent
  | last
  | first
  /-- first in the dimensions of a global variable, whose bounds and offsets leave it out -/
  | firstUnbounded
  deriving DecidableEq

/-- The dimensions in the index: each with the bound and the offset at its place in their lists, and
0 where these are shorter. -/
def Time.layout : Time → List Dimension → List Dimension
  | .absent, dims => dims
  | .last, dims => dims ++ [⟨1, 0, 0⟩]
  | .first, dims => ⟨1, 0, 0⟩ :: dims
  | .firstUnbounded, dims =>
    List.zipWith (fun ldim d => { d with ldim }) (1 :: dims.map (·.ldim)) (dims ++ [⟨0, 0, 0⟩])

def Holds (type : Datatype) (value : Option (List UInt8)) : Prop :=
  ∃ bytes, value = some bytes ∧
    if type = .string then ∀ c ∈ bytes, c ≠ 0 else bytes.length = (getTypeSize type none).toNat

structure Var where
  entry : IndexEntry
  first : IndexCharacteristic
  rest : List IndexCharacteristic
  characteristics : entry.characteristics = first :: rest
  isDefined : entry.type.IsDefined
  time : Time
  /-- The dimensions without time, in the writer's order. -/
  dims : List Dimension
  few : dims.length ≤ maxDsNdim
  global : time = .firstUnbounded → ∀ d ∈ dims, d.gdim ≠ 0
  dims_eq : first.dims = ⟨UInt8.ofNat (time.layout dims).length,
    (time.layout dims).flatMap fun d => [d.ldim, d.gdim, d.offset]⟩
  holds : time.layout dims = [] → Holds entry.type first.value

structure Attr where
  entry : IndexEntry
  first : IndexCharacteristic
  rest : List IndexCharacteristic
  characteristics : entry.characteristics = first :: rest
  isDefined : entry.type.IsDefined
  holds : Holds entry.type first.value

/-- The full name, of the length that `ds_get_full_name_len` says. -/
def fullPath (e : IndexEntry) : CString :=
  if e.path.val = [] then e.name
  else if e.path.val = [47] then .ofBuffer (47 :: e.name.val)
  else .ofBuffer (e.path.val ++ 47 :: e.name.val)

def storedValue (type : Datatype) (value : Option (List UInt8)) : List UInt8 :=
  if type = .string then value.getD [] ++ [0] else value.getD []

def Var.unpacked (v : Var) : UnpackedVar where
  name := fullPath v.entry
  type := v.entry.type
  hastime := if v.time = .absent then 0 else 1
  ndims := v.dims.length
  dims := v.dims.map fun d => extent d.ldim d.gdim
  value := if v.time.layout v.dims = [] then some (storedValue v.entry.type v.first.value) else none

def Attr.unpacked (a : Attr) : UnpackedAttr where
  name := fullPath a.entry
  type := a.entry.type
  value := storedValue a.entry.type a.first.value

structure Group where
  vars : List Var
  attrs : List Attr

section

variable (host : Endian) (caller : Caller) (g : Group)

/-- The reader gets the group back and reads what is packed, but for some zeros at the end; the
buffer is not longer than the first cycle says. -/
def Group.RoundTrip : Prop :=
  ∃ buffer size alignBytes pad,
    dsPackGroupInfo host caller.fortran (g.vars.map (·.entry)) (g.attrs.map (·.entry)) =
      .ok buffer ∧
    groupInfoSize (g.vars.map (·.entry)) (g.attrs.map (·.entry)) = .ok (size, alignBytes) ∧
    buffer.length ≤ size ∧
    dsUnpackGroupInfo host caller buffer =
      .ok (⟨g.vars.map Var.unpacked, g.attrs.map Attr.unpacked⟩, List.replicate pad 0) ∧
    pad < 8

end

/-! ## The condition -/

/-- The full name is in `name`, and it is the one that is written. -/
def NameKept (e : IndexEntry) : Prop := e.path.val ≠ [47] ∧ (fullPath e).val.length ≤ nameSize

/-- "This is true for a local array of length 1" -/
def Dimension.LikeTime (d : Dimension) : Prop := d.gdim = 0 ∧ d.ldim = 1

instance (d : Dimension) : Decidable d.LikeTime := inferInstanceAs (Decidable (_ ∧ _))

/-- No dimension is taken for the time dimension but the last one, and `ldims` has room for it. -/
def Time.Kept : Time → List Dimension → Prop
  | .absent, dims => ∀ d ∈ dims, ¬d.LikeTime
  | .last, dims => (∀ d ∈ dims, ¬d.LikeTime) ∧ dims.length < maxDsNdim
  | .first, dims => dims = []
  | .firstUnbounded, dims =>
    dims = [] ∨ (∃ d, dims.getLast? = some d ∧ d.ldim = 1) ∧ dims.length < maxDsNdim

def valueLength (type : Datatype) (value : Option (List UInt8)) : Nat :=
  if type = .string then 4 + (value.getD []).length else (value.getD []).length

def Var.size (v : Var) : Nat :=
  4 * 4 + (fullPath v.entry).val.length + maxDsNdim * 8 +
    if v.time.layout v.dims = [] then valueLength v.entry.type v.first.value else 0

def Attr.size (a : Attr) : Nat :=
  4 + (fullPath a.entry).val.length + 4 + valueLength a.entry.type a.first.value

def Group.size (g : Group) : Nat :=
  3 * 4 + (g.vars.map Var.size).sum + (g.attrs.map Attr.size).sum

/-- Names and dimensions are kept, an `int` holds the size up to a multiple of 8, and no array of no
elements is refused. -/
structure Group.Kept (caller : Caller) (g : Group) : Prop where
  names : (∀ v ∈ g.vars, NameKept v.entry) ∧ ∀ a ∈ g.attrs, NameKept a.entry
  dims : ∀ v ∈ g.vars, v.time.Kept v.dims
  size : (g.size + 7) / 8 * 8 < 2147483648
  allocated : caller.mallocZero = true ∨ g.vars ≠ [] ∧ g.attrs ≠ []

end Adios.DataSpaces
