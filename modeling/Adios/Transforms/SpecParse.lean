import Adios.Core.Strings
import Adios.Wire.Signed

/-!
# Transforms — the text of a transform

`adios_transform_parse_spec` and `adios_transform_spec_copy` of `adios_transforms_specparse.c`. The
text is copied to the heap once and cut there; a pointer of the result is an address, and the
characters are those in the block that it points into.
-/

namespace Adios.SpecParse

open Wire

/-! ## The plugins -/

/-- `ADIOS_TRANSFORM_METHOD_ALIASES` -/
def transformMethodAliases : List (TransformType × List UInt8) :=
  [(.none, chars "none"), (.identity, chars "identity"), (.zlib, chars "zlib"),
    (.bzip2, chars "bzip2"), (.szip, chars "szip"), (.isobar, chars "isobar"),
    (.aplod, chars "aplod"), (.alacrity, chars "alacrity")]

/-- `tolower` -/
def toLower (c : UInt8) : UInt8 := if 65 ≤ c ∧ c ≤ 90 then c + 32 else c

/-- "`strcasecmp (..) == 0`" -/
def sameIgnoringCase (a b : List UInt8) : Bool := a.map toLower = b.map toLower

/-- `adios_transform_find_type_by_xml_alias` -/
def findTypeByXmlAlias (xmlAlias : List UInt8) : TransformType :=
  match transformMethodAliases.find? fun a => sameIgnoringCase xmlAlias a.2 with
  | some a => a.1
  | none => .unknown

/-! ## Strings on the heap -/

structure Block where
  addr : Int
  bytes : List UInt8

def Block.at (b : Block) (p : Int) : Except Fault (List UInt8) :=
  if p < b.addr then .error .outOfBounds else .ok (b.bytes.drop (p - b.addr).toNat)

def Block.text (b : Block) (p : Int) : List UInt8 :=
  (b.bytes.drop (p - b.addr).toNat).takeWhile (· ≠ 0)

/-- "`*pos = '\0'`" -/
def Block.terminate (b : Block) (pos : Int) : Block :=
  { b with bytes := b.bytes.set (pos - b.addr).toNat 0 }

/-- `strsplit` -/
def strsplit (b : Block) (input : Int) (split : UInt8) : Except Fault (Block × Option Int) := do
  let pos ← strchr split (← b.at input)
  match pos with
  | none => return (b, none)
  | some pos => return (b.terminate (input + pos), some (input + pos + 1))

/-- One more, in an `int`. -/
def increment (n : Int) : Except Fault Int :=
  if n < 2147483647 then .ok (n + 1) else .error .signedOverflow

/-- `strcount`, with the count so far -/
def strcount (chr : UInt8) : Nat → List UInt8 → Int → Except Fault Int
  | 0, _, _ => .error .endless
  | fuel + 1, input, count => do
    match ← strchr chr input with
    | none => return count
    | some pos => strcount chr fuel (input.drop (pos + 1)) (← increment count)

/-! ## The specification -/

/-- `struct adios_transform_spec_kv_pair` -/
structure KvPair where
  key : Option Int
  value : Option Int

/-- `struct adios_transform_spec`; of `params`, those that are filled in. -/
structure Spec where
  transformType : TransformType
  transformTypeStr : Option Int
  paramCount : Int
  params : Option (List KvPair)
  backingStrLen : Int
  backingStr : Option Block

/-- "`a blank spec`", which is also what `adios_transform_clear_spec` leaves. -/
def blank : Spec := ⟨.none, none, 0, none, 0, none⟩

/-- `adios_transform_clear_spec`: it frees what the fields point to, and zeroes them. -/
def clearSpec (_ : Spec) : Spec := blank

/-- "`while (param_list)`", with the number of pairs that there is memory for. -/
def paramLoop : Nat → Block → Option Int → Except Fault (Block × List KvPair)
  | _, b, none => .ok (b, [])
  | 0, _, some _ => .error .outOfBounds
  | room + 1, b, some curParam => do
    let (b, paramList) ← strsplit b curParam 44
    let (b, value) ← strsplit b curParam 61
    let (b, kvs) ← paramLoop room b paramList
    return (b, ⟨some curParam, value⟩ :: kvs)

/-- `adios_transform_parse_spec`; `addr` is the address that `strdup` gives. -/
def parseSpec (addr : Int) (specStr : Option CString) : Except Fault Spec :=
  match specStr with
  | none => .ok blank
  | some s =>
    if s.val = [] then .ok blank
    else do
      let backing : Block := ⟨addr, s.val ++ [0]⟩
      let backingStrLen := cut32 s.val.length
      let (backing, paramList) ← strsplit backing addr 58
      let type := findTypeByXmlAlias (backing.text addr)
      if type = .unknown ∨ type = .none then
        return ⟨type, some addr, 0, none, backingStrLen, some backing⟩
      else
        match paramList with
        | none => return ⟨type, some addr, 0, none, backingStrLen, some backing⟩
        | some paramList =>
          let commas ← strcount 44 (s.val.length + 1) (← backing.at paramList) 0
          let paramCount ← increment commas
          let (backing, kvs) ← paramLoop paramCount.toNat backing (some paramList)
          return ⟨type, some addr, paramCount, some kvs, backingStrLen, some backing⟩

/-- `REBASE_OR_DUP`: the same place in the copied backing string, or a string of its own, at the
address that `strdup` gives. -/
def rebaseOrDup (src dst : Option Block) (strdup : Int → Int) (str : Int) : Int :=
  match src, dst with
  | some src, some dst => str - src.addr + dst.addr
  | _, _ => strdup str

/-- `bufdup` of the backing string: as many bytes as its length says, and one. -/
def bufdup (addr : Int) (b : Block) (len : Int) : Except Fault Block := do
  let count := ((← increment len) % 18446744073709551616).toNat
  if count ≤ b.bytes.length then .ok ⟨addr, b.bytes.take count⟩ else .error .outOfBounds

/-- `adios_transform_spec_copy`; `addr` is the address of the new backing string. -/
def specCopy (addr : Int) (strdup : Int → Int) (dst src : Spec) : Except Fault Spec := do
  let dst := clearSpec dst
  let backing ← match src.backingStr with
    | none => pure none
    | some b => do
      let copy ← bufdup addr b src.backingStrLen
      pure (some copy)
  let rebase := Option.map (rebaseOrDup src.backingStr backing strdup)
  let dst := { dst with
    transformType := src.transformType
    backingStrLen := src.backingStrLen
    backingStr := backing
    transformTypeStr := rebase src.transformTypeStr }
  match src.params with
  | none => return { dst with params := none }
  | some kvs =>
    return { dst with
      paramCount := src.paramCount
      params := some ((kvs.take src.paramCount.toNat).map fun kv =>
        ⟨rebase kv.key, rebase kv.value⟩) }

end Adios.SpecParse
