import Adios.Index.Write
import Adios.Wire.Field

/-!
# Adios — the index format

What an index image says, apart from the code that writes and reads it. A *record* is one entry
of the variables or attributes index: its identity and, for each characteristics set, a list of
*items*. `Record.fields` lays a record out as a list of fields, each a word or a text, so that
`render false` is the image a machine writes and `render true` the image with every multi-byte
field byte-reversed. `Item.apply` is what an item means: how it changes a characteristic that
starts as zeros.
-/

namespace Adios

open Wire

inductive Item where
  | value (bytes : List UInt8)
  | offset (n : UInt64)
  | payloadOffset (n : UInt64)
  | fileIndex (n : UInt32)
  | timeIndex (n : UInt32)
  | dimensions (d : Dims)
  | bitmap (n : UInt32)
  | stat (sets : List (List StatData))
  | transform (t : Transform)
  | varId (n : UInt32)
  deriving DecidableEq, Repr

namespace Item

def id : Item → CharacteristicId
  | value _ => .value
  | offset _ => .offset
  | payloadOffset _ => .payloadOffset
  | fileIndex _ => .fileIndex
  | timeIndex _ => .timeIndex
  | dimensions _ => .dimensions
  | bitmap _ => .bitmap
  | stat _ => .stat
  | transform _ => .transformType
  | varId _ => .varId

def apply (c : IndexCharacteristic) : Item → IndexCharacteristic
  | value bytes => { c with value := some bytes }
  | offset n => { c with offset := n }
  | payloadOffset n => { c with payloadOffset := n }
  | fileIndex n => { c with fileIndex := n }
  | timeIndex n => { c with timeIndex := n }
  | dimensions d => { c with dims := d }
  | bitmap n => { c with bitmap := n }
  | stat sets => { c with stats := some (sets.map padStats) }
  | transform t => { c with transform := t }
  | varId n => { c with varId := n }

end Item

/-! ## Layout -/

section Layout

variable (host : Endian)

/-- The fields of a value: a string with its length, the two components of a complex number,
or one word. -/
def valueFields (type : Datatype) (bytes : List UInt8) : List Field :=
  match type with
  | .string => [.word (host.u16 (UInt16.ofNat bytes.length)), .text bytes]
  | .complex => [.word (bytes.take 4), .word (bytes.drop 4)]
  | .doubleComplex => [.word (bytes.take 8), .word (bytes.drop 8)]
  | _ => [.word bytes]

def StatData.fields : StatData → List Field
  | .raw bytes => [.word bytes]
  | .hist h =>
    [.word (host.u32 h.numBreaks), .word (host.u64 h.min), .word (host.u64 h.max)]
      ++ h.frequencies.map (fun n => .word (host.u32 n))
      ++ h.breaks.map (fun n => .word (host.u64 n))

def Dims.fields (d : Dims) : List Field :=
  .text [d.count] :: .word (host.u16 (UInt16.ofNat (8 * d.dims.length)))
    :: d.dims.map fun n => .word (host.u64 n)

def Transform.fields (t : Transform) : List Field :=
  let uid := (transformPluginUid t.transformType).getD []
  [.text [UInt8.ofNat uid.length], .text uid, .text [t.preTransformType.code]]
    ++ t.preTransformDimensions.fields host
    ++ [.word (host.u16 t.transformMetadataLen), .text t.transformMetadata]

/-- The fields of an item behind its flag; `type` is the type of the entry. -/
def Item.dataFields (type : Datatype) : Item → List Field
  | .value bytes => valueFields host type bytes
  | .offset n | .payloadOffset n => [.word (host.u64 n)]
  | .fileIndex n | .timeIndex n | .bitmap n | .varId n => [.word (host.u32 n)]
  | .dimensions d => d.fields host
  | .stat sets => sets.flatMap fun stats => stats.flatMap (StatData.fields host)
  | .transform t => t.fields host

def Item.fields (type : Datatype) (it : Item) : List Field :=
  .text [it.id.flag] :: it.dataFields host type

def setFields (type : Datatype) (items : List Item) : List Field :=
  let body := items.flatMap (Item.fields host type)
  .text [UInt8.ofNat items.length] :: .word (host.u32 (UInt32.ofNat (imageSize body))) :: body

def stringFields (s : CString) : List Field :=
  [.word (host.u16 (UInt16.ofNat s.val.length)), .text s.val]

end Layout

structure Record where
  id : UInt32
  groupName : CString
  name : CString
  path : CString
  type : Datatype
  sets : List (List Item)
  deriving DecidableEq, Repr

namespace Record

variable (host : Endian)

def bodyFields (r : Record) : List Field :=
  .word (host.u32 r.id) :: (stringFields host r.groupName ++ stringFields host r.name
    ++ stringFields host r.path
    ++ [.text [r.type.code], .word (host.u64 (UInt64.ofNat r.sets.length))]
    ++ r.sets.flatMap (setFields host r.type))

def fields (r : Record) : List Field :=
  .word (host.u32 (UInt32.ofNat (imageSize (r.bodyFields host)))) :: r.bodyFields host

end Record

/-- The fields of a section of records: how many there are, their bytes without the length of
each, and the records. -/
def sectionFields (host : Endian) (rs : List Record) : List Field :=
  .word (host.u32 (UInt32.ofNat rs.length))
    :: .word (host.u64 (UInt64.ofNat (rs.map fun r => imageSize (r.bodyFields host)).sum))
    :: rs.flatMap (Record.fields host)

/-! ## Well-formed images -/

def StatData.Fits (type : Datatype) (j : Nat) : StatData → Prop
  | .raw bytes => j ≠ Statistic.hist.bit ∧
      ∃ size, getStatSize none type (Statistic.ofBit j) = .ok size ∧ bytes.length = size.toNat
  | .hist h => j = Statistic.hist.bit ∧ h.frequencies.length = h.numBreaks.toNat + 1 ∧
      h.breaks.length = h.numBreaks.toNat

def StatData.Writable : StatData → Prop
  | .raw _ => True
  | .hist h => h.numBreaks.toNat < 2 ^ 29

structure Transform.Wf (t : Transform) : Prop where
  known : t.transformType ≠ .unknown
  defined : t.preTransformType.IsDefined
  dims : t.preTransformDimensions.Wf
  metadata : t.transformMetadata.length = t.transformMetadataLen.toNat

def ValueFits (type : Datatype) (bytes : List UInt8) : Prop :=
  if type = .string then bytes.length < 2 ^ 16
  else bytes.length = (getTypeSize type none).toNat

/-- An item is well formed behind the items before it, which said that the statistics are of
type `orig` and which of them there are. -/
def Item.Wf (type orig : Datatype) (bitmap : UInt32) : Item → Prop
  | .value bytes => ValueFits type bytes
  | .dimensions d => d.Wf
  | .stat sets =>
    orig.IsDefined ∧ bitmap.toNat < 2 ^ statLength ∧
      sets.length = (getStatSetCount orig).toNat ∧
      ∀ stats ∈ sets, List.Forall₂ (StatData.Fits orig) (statBits bitmap) stats ∧
        ∀ s ∈ stats, s.Writable
  | .transform t => t.Wf
  | _ => True

def decodeSet (items : List Item) : IndexCharacteristic := items.foldl Item.apply .zero

/-- The items of a set are well formed one after the other; `c` is what the items before them
have said and `first` the first set of the entry, if this is a later one. -/
def ItemsWf (type : Datatype) (first : Option IndexCharacteristic) :
    IndexCharacteristic → List Item → Prop
  | _, [] => True
  | c, it :: items =>
    it.Wf type (originalTypeIndex type (first.getD c)) c.bitmap ∧
      ItemsWf type first (it.apply c) items

structure SetWf (type : Datatype) (first : Option IndexCharacteristic) (items : List Item) :
    Prop where
  count : items.length < 2 ^ 8
  nodup : (items.map Item.id).Nodup
  items : ItemsWf type first .zero items

theorem ItemsWf.append_iff {type : Datatype} {first : Option IndexCharacteristic}
    {c : IndexCharacteristic} {xs ys : List Item} :
    ItemsWf type first c (xs ++ ys) ↔
      ItemsWf type first c xs ∧ ItemsWf type first (xs.foldl Item.apply c) ys := by
  induction xs generalizing c with
  | nil => simp [ItemsWf]
  | cons x xs ih => simp [ItemsWf, ih, and_assoc]

namespace Record

def decode (r : Record) : IndexEntry :=
  { id := r.id, groupName := r.groupName, name := r.name, path := r.path, type := r.type
    characteristics := r.sets.map decodeSet }

structure Wf (r : Record) : Prop where
  defined : r.type.IsDefined
  groupName : r.groupName.val.length < 2 ^ 16
  name : r.name.val.length < 2 ^ 16
  path : r.path.val.length < 2 ^ 16
  count : r.sets.length < 2 ^ 64
  sets : ∀ pre items post, r.sets = pre ++ items :: post →
    SetWf r.type (pre.map decodeSet).head? items

end Record

def valueRecord (type : Datatype) (bytes : List UInt8) : Record where
  id := 3
  groupName := CString.empty
  name := ⟨chars "x", by simp [chars]⟩
  path := CString.empty
  type := type
  sets := [[.offset 64, .value bytes]]

theorem valueRecord_wf {type : Datatype} {bytes : List UInt8} (ht : type.IsDefined)
    (h : ValueFits type bytes) : (valueRecord type bytes).Wf where
  defined := ht
  groupName := by simp [valueRecord, CString.empty]
  name := by simp [valueRecord, chars]
  path := by simp [valueRecord, CString.empty]
  count := by simp [valueRecord]
  sets := by
    intro pre items post hsets
    cases pre with
    | cons items₀ pre => simp [valueRecord] at hsets
    | nil =>
      obtain ⟨rfl, -⟩ := List.cons.inj hsets
      exact ⟨by simp, by simp [Item.id], ⟨trivial, h, trivial⟩⟩

end Adios
