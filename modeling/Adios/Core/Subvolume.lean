import Adios.Grid.Boxes

/-!
# Core — intersections of volumes

`intersect_segments` and `intersect_volumes`, and when they report what two volumes have in common.
The ends of the segments are 64-bit numbers that pass through variables of type `int` on their way.
-/

namespace Adios.Subvolume

open Grid

/-! ## Numbers through an `int` -/

/-- A `uint64_t` assigned to an `int`. -/
def toInt (x : UInt64) : Int32 := x.toUInt32.toInt32

/-- An `int` assigned to a `uint64_t`, or compared with one. -/
def ofInt (x : Int32) : UInt64 := x.toInt64.toUInt64

/-- The `int` that a number becomes. -/
def signed (x : Nat) : Int :=
  if x % 4294967296 < 2147483648 then x % 4294967296 else x % 4294967296 - 4294967296

/-- The `uint64_t` that this becomes in turn. -/
def cut (x : Nat) : Nat :=
  if x % 4294967296 < 2147483648 then x % 4294967296 else x % 4294967296 + 18446744069414584320

theorem toNat_ofInt_toInt (x : UInt64) : (ofInt (toInt x)).toNat = cut x.toNat := by
  show ((x.toBitVec.setWidth 32).signExtend 64).toNat = cut x.toNat
  rw [BitVec.toNat_signExtend, BitVec.toNat_setWidth_of_le (by decide), BitVec.msb_eq_decide,
    BitVec.toNat_setWidth]
  unfold cut
  show x.toNat % 4294967296 + _ = _
  by_cases h : x.toNat % 4294967296 < 2147483648
  · rw [if_pos h, if_neg (by simpa using h)]
    rfl
  · rw [if_neg h, if_pos (by simpa using h)]

theorem toInt_toInt (x : UInt64) : (toInt x).toInt = signed x.toNat := by
  show (x.toBitVec.setWidth 32).toInt = signed x.toNat
  rw [BitVec.toInt_setWidth]
  show Int.bmod x.toNat 4294967296 = signed x.toNat
  unfold signed Int.bmod
  dsimp only
  split_ifs <;> omega

theorem toInt_le_iff (x y : UInt64) : toInt x ≤ toInt y ↔ signed x.toNat ≤ signed y.toNat := by
  rw [Int32.le_iff_toInt_le, toInt_toInt, toInt_toInt]

theorem cut_congr {x y : Nat} (h : x % 4294967296 = y % 4294967296) : cut x = cut y := by
  unfold cut
  rw [h]

theorem signed_congr {x y : Nat} (h : x % 4294967296 = y % 4294967296) : signed x = signed y := by
  have hint : (x : Int) % 4294967296 = (y : Int) % 4294967296 := by omega
  unfold signed
  rw [h, hint]

theorem cut_mod (x : Nat) : cut x % 4294967296 = x % 4294967296 := by
  unfold cut
  split_ifs <;> omega

/-! ## The code -/

/-- One dimension of a volume: `offset` and `dims`. -/
structure Segment where
  start : UInt64
  count : UInt64
  deriving DecidableEq

/-- `intersect_segments` once the first segment does not start after the second one. -/
def intersectOrdered (start1 len1 start2 len2 : UInt64) : Option (UInt64 × UInt64) :=
  let end1 := toInt (start1 + len1)
  let end2 := toInt (start2 + len2)
  if ofInt end1 ≤ start2 then none
  else
    let interEnd := if end1 ≤ end2 then end1 else end2
    some (start2, ofInt interEnd - start2)

/-- `intersect_segments`. "`int tmps = start1; int tmpl = len1;`" when they are swapped. -/
def intersectSegments (start1 len1 start2 len2 : UInt64) : Option (UInt64 × UInt64) :=
  if start1 > start2 then
    intersectOrdered start2 len2 (ofInt (toInt start1)) (ofInt (toInt len1))
  else intersectOrdered start1 len1 start2 len2

/-- What `intersect_volumes` reports about a dimension. -/
structure Common where
  dims : UInt64
  offset : UInt64
  offsetRel1 : UInt64
  offsetRel2 : UInt64
  deriving DecidableEq

/-- `intersect_volumes`; a volume is the list of its dimensions. -/
def intersectVolumes : List Segment → List Segment → Option (List Common)
  | s1 :: vol1, s2 :: vol2 => do
    let (offset, dims) ← intersectSegments s1.start s1.count s2.start s2.count
    let rest ← intersectVolumes vol1 vol2
    some ({
      dims, offset, offsetRel1 := offset - s1.start, offsetRel2 := offset - s2.start } :: rest)
  | _, _ => some []

end Adios.Subvolume
