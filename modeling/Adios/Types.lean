import Mathlib.Data.List.TakeWhile
import Mathlib.Tactic.Common

/-!
# Adios — data types, statistics and transform methods

The enumerations of `public/adios_types.h` and `core/adios_bp_v1.h`, the sizes the writer and
both readers compute from them, and the registry of transform plugins. A value behind a
`void *` is the list of the bytes it occupies; a string is the list of its characters, and
`strlen` counts up to the first NUL.
-/

namespace Adios

/-! ## Data types -/

/-- `enum ADIOS_DATATYPES`. An enum variable assigned from a file byte can hold any number, so
`other` stands for a byte that is none of the constants. -/
inductive Datatype where
  | byte | short | integer | long
  | unsignedByte | unsignedShort | unsignedInteger | unsignedLong
  | real | double | longDouble
  | string
  | complex | doubleComplex
  | unknown
  | other (code : UInt8)
  deriving DecidableEq, Repr

namespace Datatype

def toInt : Datatype → Int
  | byte => 0
  | short => 1
  | integer => 2
  | long => 4
  | unsignedByte => 50
  | unsignedShort => 51
  | unsignedInteger => 52
  | unsignedLong => 54
  | real => 5
  | double => 6
  | longDouble => 7
  | string => 9
  | complex => 10
  | doubleComplex => 11
  | unknown => -1
  | other code => code.toNat

/-- The type as an index byte: `flag = var->type` with `uint8_t flag`. -/
def code (t : Datatype) : UInt8 := UInt8.ofNat (t.toInt % 256).toNat

/-- `(enum ADIOS_DATATYPES) flag` for a byte read from a file. -/
def ofCode (c : UInt8) : Datatype :=
  if c = 0 then byte
  else if c = 1 then short
  else if c = 2 then integer
  else if c = 4 then long
  else if c = 5 then real
  else if c = 6 then double
  else if c = 7 then longDouble
  else if c = 9 then string
  else if c = 10 then complex
  else if c = 11 then doubleComplex
  else if c = 50 then unsignedByte
  else if c = 51 then unsignedShort
  else if c = 52 then unsignedInteger
  else if c = 54 then unsignedLong
  else other c

def IsDefined : Datatype → Prop
  | unknown | other _ => False
  | _ => True

instance (t : Datatype) : Decidable t.IsDefined := by
  cases t <;> first | exact isTrue trivial | exact isFalse id

theorem ofCode_code {t : Datatype} (h : t.IsDefined) : ofCode t.code = t := by
  cases t with
  | unknown => exact absurd h id
  | other c => exact absurd h id
  | _ => rfl

def IsNumeric (t : Datatype) : Prop := t.IsDefined ∧ t ≠ string

instance (t : Datatype) : Decidable t.IsNumeric := inferInstanceAs (Decidable (_ ∧ _))

end Datatype

/-- `enum ADIOS_FLAG` -/
inductive Flag where
  | unknown | yes | no
  deriving DecidableEq, Repr

/-- What stops a run of the C code: the error return of a parser, a failed `assert`, and the
undefined behaviours it can run into. -/
inductive Fault where
  /-- `adios_error` with a buffer too short to start with, and `return 1` -/
  | invalidBuffer
  /-- `assert` failed -/
  | assertion
  /-- a read past the end of the buffer -/
  | outOfBounds
  /-- a null pointer, or a pointer to something else, followed -/
  | wildPointer
  /-- a signed loop counter incremented past its maximum -/
  | signedOverflow
  /-- an integer divided by zero -/
  | divisionByZero
  /-- a loop that has no end -/
  | endless
  deriving DecidableEq, Repr

variable {ε α β : Type} {t : Datatype}

theorem exists_of_bind_eq_ok {x : Except ε α} {f : α → Except ε β} {b : β} (h : (x >>= f) = .ok b) :
    ∃ a, x = .ok a ∧ f a = .ok b := by
  cases x with
  | error e => cases h
  | ok a => exact ⟨a, rfl, h⟩

@[simp] theorem ok_bind (a : α) (f : α → Except ε β) : (.ok a >>= f) = f a := rfl

@[simp] theorem error_bind (e : ε) (f : α → Except ε β) :
    (.error e >>= f) = .error e := rfl

/-- `strlen` of the characters behind a `char *` -/
def strlen (s : List UInt8) : Nat := (s.takeWhile (· ≠ 0)).length

theorem strlen_of_forall {s : List UInt8} (h : ∀ c ∈ s, c ≠ 0) : strlen s = s.length := by
  rw [strlen, List.takeWhile_eq_self_iff.mpr (by simpa using h)]

def chars (s : String) : List UInt8 := s.toList.map fun c => UInt8.ofNat c.toNat

/-- `adios_get_type_size` -/
def getTypeSize (type : Datatype) (var : Option (List UInt8)) : UInt64 :=
  match type with
  | .byte | .unsignedByte => 1
  | .string =>
    match var with
    | none => 0
    | some s => UInt64.ofNat (strlen s)
  | .short | .unsignedShort => 2
  | .integer | .unsignedInteger => 4
  | .long | .unsignedLong => 8
  | .real => 4
  | .double => 8
  | .longDouble => 16
  | .complex => 2 * 4
  | .doubleComplex => 2 * 8
  | .unknown | .other _ => -1

theorem getTypeSize_eq (h : t ≠ .string) (v w : Option (List UInt8)) :
    getTypeSize t v = getTypeSize t w := by
  cases t <;> first | rfl | exact absurd rfl h

theorem getTypeSize_mem (h : t.IsNumeric) (v : Option (List UInt8)) :
    (getTypeSize t v).toNat ∈ [1, 2, 4, 8, 16] := by
  obtain ⟨hdef, hstr⟩ := h
  rw [getTypeSize_eq hstr v none]
  cases t <;> first | (exact absurd rfl hstr) | (exact absurd hdef id) | decide

/-! ## Statistics -/

/-- `enum ADIOS_STAT`: the bits of the statistics bitmap. -/
inductive Statistic where
  | min | max | cnt | sum | sumSquare | hist | finite
  deriving DecidableEq, Repr

namespace Statistic

def bit : Statistic → Nat
  | min => 0
  | max => 1
  | cnt => 2
  | sum => 3
  | sumSquare => 4
  | hist => 5
  | finite => 6

def ofBit : Nat → Option Statistic
  | 0 => some min
  | 1 => some max
  | 2 => some cnt
  | 3 => some sum
  | 4 => some sumSquare
  | 5 => some hist
  | 6 => some finite
  | _ => none

end Statistic

/-- `ADIOS_STAT_LENGTH` -/
def statLength : Nat := 7

/-- `struct adios_hist_struct`. The two arrays have the lengths that `num_breaks` says; a
`double` is its bit pattern. -/
structure Hist where
  min : UInt64
  max : UInt64
  numBreaks : UInt32
  frequencies : List UInt32
  breaks : List UInt64
  deriving DecidableEq, Repr

/-- What the `data` pointer of a statistic points to. -/
inductive StatData where
  | raw (bytes : List UInt8)
  | hist (h : Hist)
  deriving DecidableEq, Repr

/-- `adios_get_stat_size`. `num_breaks + 1` is computed in 32 bits and the products in 64. A
null `data` is followed only for a histogram of a type that is not complex. -/
def getStatSize (data : Option Hist) (type : Datatype) (stat : Option Statistic) :
    Except Fault UInt64 :=
  match type, stat with
  | .complex, some .min | .complex, some .max | .complex, some .sum
  | .complex, some .sumSquare => .ok (getTypeSize .double (some []))
  | .doubleComplex, some .min | .doubleComplex, some .max | .doubleComplex, some .sum
  | .doubleComplex, some .sumSquare => .ok (getTypeSize .longDouble (some []))
  -- "this is not supported"
  | .complex, some .hist | .doubleComplex, some .hist => .ok 0
  | _, some .min | _, some .max => .ok (getTypeSize type (some []))
  | _, some .sum | _, some .sumSquare => .ok (getTypeSize .double (some []))
  | _, some .finite => .ok (getTypeSize .byte (some []))
  | _, some .cnt => .ok (getTypeSize .unsignedInteger (some []))
  | _, some .hist =>
    match data with
    | none => .error .wildPointer
    | some h =>
      .ok (getTypeSize .unsignedInteger (some []) + getTypeSize .double (some [])
        + getTypeSize .double (some [])
        + (h.numBreaks + 1).toUInt64 * getTypeSize .unsignedInteger (some [])
        + h.numBreaks.toUInt64 * getTypeSize .double (some []))
  | _, none => .ok 0

theorem getStatSize_mem {stat : Option Statistic} {size : UInt64} (ht : t.IsDefined)
    (hstat : stat ≠ some .hist) (h : getStatSize none t stat = .ok size) :
    size.toNat ∈ [0, 1, 2, 4, 8, 16] := by
  cases t <;> first
    | (exact absurd ht id)
    | (rcases stat with _ | _ | _ <;> first
        | (exact absurd rfl hstat)
        | (cases h; decide))

/-- `adios_get_stat_set_count`: complex numbers carry their statistics three times. -/
def getStatSetCount (type : Datatype) : UInt8 :=
  if type = .complex ∨ type = .doubleComplex then 3 else 1

/-! ## Transform methods -/

/-- `enum ADIOS_TRANSFORM_TYPE` -/
inductive TransformType where
  | unknown | none | identity | zlib | bzip2 | szip | isobar | aplod | alacrity
  deriving DecidableEq, Repr

/-- `ADIOS_TRANSFORM_METHOD_INFOS`: the registered plugins and their unique ids. -/
def transformMethodInfos : List (TransformType × List UInt8) :=
  [(.none, chars "none"), (.identity, chars "identity"), (.zlib, chars "zlib"),
    (.bzip2, chars "bzip2"), (.szip, chars "szip"), (.isobar, chars "ncsu-isobar"),
    (.aplod, chars "ncsu-aplod"), (.alacrity, chars "ncsu-alacrity")]

/-- `adios_transform_plugin_uid` -/
def transformPluginUid (t : TransformType) : Option (List UInt8) :=
  (transformMethodInfos.find? fun info => info.1 = t).map (·.2)

/-- `adios_transform_find_type_by_uid`: `strcmp` against each registered id. -/
def transformFindTypeByUid (uid : List UInt8) : TransformType :=
  match transformMethodInfos.find? fun info => uid.takeWhile (· ≠ 0) = info.2 with
  | some info => info.1
  | none => .unknown

theorem transformFindTypeByUid_uid {t : TransformType} {uid : List UInt8}
    (h : transformPluginUid t = some uid) : transformFindTypeByUid uid = t := by
  cases t <;> revert h <;> rw [show transformPluginUid _ = _ from rfl] <;> rintro ⟨⟩ <;> decide

theorem transformPluginUid_of_known {t : TransformType} (h : t ≠ .unknown) :
    ∃ uid, transformPluginUid t = some uid ∧ uid.length < 256 ∧ ∀ c ∈ uid, c ≠ 0 := by
  have hids : ∀ info ∈ transformMethodInfos, info.2.length < 256 ∧ ∀ c ∈ info.2, c ≠ 0 := by
    simp [transformMethodInfos, chars]
  cases t with
  | unknown => exact absurd rfl h
  | _ => exact ⟨_, rfl, hids _ (by simp [transformMethodInfos])⟩

end Adios
