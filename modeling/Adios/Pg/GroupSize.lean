import Adios.Pg.WriteVar

/-!
# Adios — opening and closing a process group

`adios_group_size` and `adios_close` for a file that is written through the buffer: the attributes
that the library adds, the size that the group is expected to take, the process group header, and
the sections that are closed in the end. What plugins expect the data to grow to is a parameter.
-/

namespace Adios

open Wire

/-- What `common_adios_group_size` and `common_adios_close` look at beside the group. -/
structure GroupEnv where
  host : Endian
  mode : Mode
  /-- `fd->subfile_index != -1` -/
  ownSubfile : Bool
  /-- `VERSION` and the time of day, as an `int` -/
  version : CString
  epoch : List UInt8
  memberCount : UInt32
  attrIdUpdateEpoch : UInt32
  /-- `adios_transform_worst_case_transformed_group_size` -/
  worstCaseTransformedGroupSize : UInt64 → Group → UInt64

/-- An attribute that `adios_common_define_attribute` makes for the library itself. -/
def internalAttribute (id : UInt32) (name : List UInt8) (type : Datatype) (value : List UInt8) :
    Attribute where
  id := id
  name := CString.ofBuffer name
  path := CString.ofBuffer (chars "/__adios__")
  type := type
  value := some value
  var := none
  writeOffset := 0

/-- "from ADIOS 1.4, only rank 0 writes attributes (or to subfiles)" -/
def GroupEnv.WritesAttributes (env : GroupEnv) (g : Group) : Prop :=
  g.processId = 0 ∨ env.ownSubfile = true

instance (env : GroupEnv) (g : Group) : Decidable (env.WritesAttributes g) :=
  inferInstanceAs (Decidable (_ ∨ _))

def setAttributeValue (id : UInt32) (value : List UInt8) : List Attribute → List Attribute
  | [] => []
  | a :: as =>
    if a.id = id then { a with value := some value } :: as else a :: setAttributeValue id value as

/-- "Add ADIOS internal attributes now": "if we append/update, define these attributes only at the
first step". -/
def defineInternalAttributes (env : GroupEnv) (g : Group) : Group :=
  if env.mode ≠ .read ∧ env.WritesAttributes g then
    if env.mode ≠ .write ∧ 1 < g.timeIndex then
      { g with attributes := setAttributeValue env.attrIdUpdateEpoch env.epoch g.attributes }
    else
      { g with attributes := g.attributes ++
          [internalAttribute (env.memberCount + 1) (chars "version") .string
              (env.version.val ++ [0]),
            internalAttribute (env.memberCount + 2) (chars "create_time_epoch") .integer env.epoch,
            internalAttribute (env.memberCount + 3) (chars "update_time_epoch") .integer
              env.epoch] }
  else g

/-- `common_adios_group_size` when the buffer is used: the group with its attributes, `*total_size`
and the file with header and open section of variables. -/
def commonAdiosGroupSize (env : GroupEnv) (g : Group) (dataSize : UInt64) (fd : File) :
    Except Fault (Group × UInt64 × File) := do
  let g := defineInternalAttributes env g
  let overhead ← calcOverheadV1 g
  let wcTransformedSize := env.worstCaseTransformedGroupSize dataSize g
  let totalSize := dataSize + overhead
    + if dataSize < wcTransformedSize then wcTransformedSize - dataSize else 0
  let fd := { fd with buf := ⟨fd.buf.mem, 0⟩, bytesWritten := 0 }
  return (g, totalSize, writeOpenVarsV1 (writeProcessGroupHeaderV1 env.host g totalSize fd))

/-- `while (a)` of `common_adios_close` -/
def writeAttributes (host : Endian) : List Attribute → File → Except Fault File
  | [], fd => .ok fd
  | a :: as, fd => do
    let (_, fd) ← writeAttributeV1 host a fd
    writeAttributes host as fd

/-- `common_adios_close` up to the methods: the sections of the variables and of the attributes. -/
def commonAdiosClose (env : GroupEnv) (g : Group) (fd : File) : Except Fault File := do
  let fd := writeOpenAttributesV1 (writeCloseSectionV1 env.host fd)
  let fd ← writeAttributes env.host (if env.WritesAttributes g then g.attributes else []) fd
  return writeCloseSectionV1 env.host fd

end Adios
