import Adios.Types
import Mathlib.Algebra.Order.Ring.Int

/-!
# Adios — statistics of integer arrays

The macro `ADIOS_STATISTICS` of `adios_generate_var_characteristics_v1` for the eight integer types.
The accumulators `sum` and `sum_square` are doubles, here exact numbers; a square is computed in the
type that an element is promoted to.
-/

namespace Adios

open List

/-! ## Integer types -/

inductive IntType where
  | int8 | uint8 | int16 | uint16 | int32 | uint32 | int64 | uint64
  deriving DecidableEq, Repr

namespace IntType

def ofDatatype : Datatype → Option IntType
  | .byte => some int8
  | .unsignedByte => some uint8
  | .short => some int16
  | .unsignedShort => some uint16
  | .integer => some int32
  | .unsignedInteger => some uint32
  | .long => some int64
  | .unsignedLong => some uint64
  | _ => none

def lowest : IntType → Int
  | int8 => -128
  | int16 => -32768
  | int32 => -2147483648
  | int64 => -9223372036854775808
  | uint8 | uint16 | uint32 | uint64 => 0

def highest : IntType → Int
  | int8 => 127
  | uint8 => 255
  | int16 => 32767
  | uint16 => 65535
  | int32 => 2147483647
  | uint32 => 4294967295
  | int64 => 9223372036854775807
  | uint64 => 18446744073709551615

/-- The integer promotions: what is narrower than an `int` becomes one. -/
def promoted : IntType → IntType
  | int8 | uint8 | int16 | uint16 | int32 => int32
  | t => t

/-- `x * x` in a type: an unsigned product is cut, a signed one must fit. -/
def mulSelf (t : IntType) (x : Int) : Except Fault Int :=
  if t.lowest = 0 then .ok (x * x % (t.highest + 1))
  else if x * x ≤ t.highest then .ok (x * x) else .error .signedOverflow

/-- `data [size] * data [size]` -/
def square (t : IntType) (x : Int) : Except Fault Int := t.promoted.mulSelf x

end IntType

/-! ## The loop -/

structure IntStats where
  min : Int
  max : Int
  cnt : UInt32
  sum : Int
  sumSquare : Int
  deriving DecidableEq, Repr

/-- One element, which is finite; `finite` says if there was one before. -/
def IntStats.element (t : IntType) (finite : Bool) (s : IntStats) (x : Int) :
    Except Fault IntStats := do
  let sq ← t.square x
  if finite then
    .ok { min := if x < s.min then x else s.min
          max := if x > s.max then x else s.max
          cnt := s.cnt + 1
          sum := s.sum + x
          sumSquare := s.sumSquare + sq }
  else .ok { min := x, max := x, cnt := s.cnt + 1, sum := x, sumSquare := sq }

/-- "`while ((size * b) < total_size)`" -/
def IntStats.loop (t : IntType) : Bool → IntStats → List Int → Except Fault IntStats
  | _, s, [] => .ok s
  | finite, s, x :: xs => do
    let s ← s.element t finite x
    loop t true s xs

/-- An array of one of the types, by "`switch (original_var_type)`". -/
structure IntArray where
  originalVarType : Datatype
  type : IntType
  expanded : IntType.ofDatatype originalVarType = some type
  data : List Int
  inType : ∀ x ∈ data, type.lowest ≤ x ∧ x ≤ type.highest

/-- `adios_generate_var_characteristics_v1` with what `malloc` leaves in the statistics. -/
def IntArray.generate (a : IntArray) (garbage : IntStats) : Except Fault IntStats :=
  IntStats.loop a.type false { garbage with cnt := 0 } a.data

/-! ## What is recorded -/

structure IntStats.Right (s : IntStats) (data : List Int) : Prop where
  min : data ≠ [] → s.min ∈ data ∧ ∀ x ∈ data, s.min ≤ x
  max : data ≠ [] → s.max ∈ data ∧ ∀ x ∈ data, x ≤ s.max
  cnt : s.cnt.toNat = data.length
  sum : s.sum = data.sum
  sumSquare : s.sumSquare = (data.map fun x => x * x).sum

def IntArray.Recorded (a : IntArray) : Prop :=
  ∀ garbage, ∃ s, a.generate garbage = .ok s ∧ s.Right a.data

namespace IntType

theorem square_of_le {t : IntType} {x : Int} (h : x * x ≤ t.promoted.highest) :
    t.square x = .ok (x * x) := by
  have hnonneg : 0 ≤ x * x := mul_self_nonneg x
  rw [square, mulSelf]
  split_ifs
  · rw [Int.emod_eq_of_lt hnonneg (by omega)]
  · rfl

theorem square_lt {t : IntType} {x v : Int} (h : ¬x * x ≤ t.promoted.highest)
    (hv : t.square x = .ok v) : v < x * x := by
  have hpos : 0 < t.promoted.highest + 1 := by cases t <;> decide
  rw [square, mulSelf, if_neg h] at hv
  split_ifs at hv
  obtain rfl := Except.ok.inj hv
  have hlt := Int.emod_lt_of_pos (x * x) hpos
  omega

end IntType

/-! ## Runs -/

def IntStats.add (s : IntStats) (x : Int) : IntStats where
  min := if x < s.min then x else s.min
  max := if x > s.max then x else s.max
  cnt := s.cnt + 1
  sum := s.sum + x
  sumSquare := s.sumSquare + x * x

def IntStats.single (s : IntStats) (x : Int) : IntStats :=
  { min := x, max := x, cnt := s.cnt + 1, sum := x, sumSquare := x * x }

section

variable {t : IntType}

theorem loop_true_of_fits {xs : List Int} (h : ∀ x ∈ xs, x * x ≤ t.promoted.highest)
    (s : IntStats) : IntStats.loop t true s xs = .ok (xs.foldl IntStats.add s) := by
  induction xs generalizing s with
  | nil => rfl
  | cons x xs ih =>
    obtain ⟨hx, hxs⟩ := forall_mem_cons.mp h
    rw [IntStats.loop, IntStats.element, IntType.square_of_le hx, ok_bind, if_pos rfl, ok_bind,
      ih hxs]
    rfl

structure IntStats.Summed (s : IntStats) (data : List Int) : Prop where
  min : s.min ∈ data ∧ ∀ x ∈ data, s.min ≤ x
  max : s.max ∈ data ∧ ∀ x ∈ data, x ≤ s.max
  cnt : s.cnt = UInt32.ofNat data.length
  sum : s.sum = data.sum
  sumSquare : s.sumSquare = (data.map fun x => x * x).sum

theorem IntStats.Summed.add {s : IntStats} {data : List Int} (h : s.Summed data) (x : Int) :
    (s.add x).Summed (data ++ [x]) := by
  obtain ⟨hmin, hle⟩ := h.min
  obtain ⟨hmax, hge⟩ := h.max
  refine ⟨?_, ?_, ?_, ?_, ?_⟩
  · show (if x < s.min then x else s.min) ∈ _ ∧ ∀ y ∈ _, (if x < s.min then x else s.min) ≤ y
    simp only [mem_append, mem_singleton]
    split_ifs with hlt
    · refine ⟨.inr rfl, fun y hy => ?_⟩
      rcases hy with hy | rfl
      · exact Int.le_trans (Int.le_of_lt hlt) (hle y hy)
      · exact Int.le_refl _
    · refine ⟨.inl hmin, fun y hy => ?_⟩
      rcases hy with hy | rfl
      · exact hle y hy
      · exact Int.not_lt.mp hlt
  · show (if x > s.max then x else s.max) ∈ _ ∧ ∀ y ∈ _, y ≤ (if x > s.max then x else s.max)
    simp only [mem_append, mem_singleton]
    split_ifs with hlt
    · refine ⟨.inr rfl, fun y hy => ?_⟩
      rcases hy with hy | rfl
      · exact Int.le_trans (hge y hy) (Int.le_of_lt hlt)
      · exact Int.le_refl _
    · refine ⟨.inl hmax, fun y hy => ?_⟩
      rcases hy with hy | rfl
      · exact hge y hy
      · exact Int.not_lt.mp hlt
  · show s.cnt + 1 = _
    rw [h.cnt, length_append, UInt32.ofNat_add]
    rfl
  · show s.sum + x = _
    rw [h.sum, sum_append, sum_singleton]
  · show s.sumSquare + x * x = _
    rw [h.sumSquare, map_append, sum_append]
    exact congrArg (_ + ·) (sum_singleton).symm

theorem IntStats.Summed.foldl {s : IntStats} {data : List Int} (h : s.Summed data)
    (xs : List Int) : (xs.foldl IntStats.add s).Summed (data ++ xs) := by
  induction xs generalizing s data with
  | nil => rw [append_nil]; exact h
  | cons x xs ih =>
    rw [← singleton_append, ← append_assoc]
    exact ih (h.add x)

theorem loop_true_sumSquare {xs : List Int} {s s' : IntStats}
    (h : IntStats.loop t true s xs = .ok s') :
    s'.sumSquare ≤ s.sumSquare + (xs.map fun x => x * x).sum ∧
      (s'.sumSquare = s.sumSquare + (xs.map fun x => x * x).sum →
        ∀ x ∈ xs, x * x ≤ t.promoted.highest) ∧
      s'.cnt = s.cnt + UInt32.ofNat xs.length := by
  induction xs generalizing s with
  | nil =>
    obtain rfl := Except.ok.inj h
    refine ⟨by rw [map_nil, sum_nil]; omega, fun _ => forall_mem_nil _, ?_⟩
    exact (UInt32.add_zero _).symm
  | cons x xs ih =>
    rw [IntStats.loop] at h
    obtain ⟨s₁, helement, hrest⟩ := exists_of_bind_eq_ok h
    obtain ⟨sq, hsq, hs₁⟩ := exists_of_bind_eq_ok helement
    rw [if_pos rfl] at hs₁
    obtain rfl := Except.ok.inj hs₁
    obtain ⟨hle, hfits, hcnt⟩ := ih hrest
    rw [map_cons, sum_cons]
    dsimp only at hle hfits hcnt
    have hcount : s'.cnt = s.cnt + UInt32.ofNat (x :: xs).length := by
      rw [hcnt, length_cons, Nat.add_comm, UInt32.ofNat_add, ← UInt32.add_assoc]
      rfl
    by_cases hx : x * x ≤ t.promoted.highest
    · obtain rfl := Except.ok.inj ((IntType.square_of_le hx).symm.trans hsq)
      exact ⟨by omega, fun heq => forall_mem_cons.mpr ⟨hx, hfits (by omega)⟩, hcount⟩
    · have hlt := IntType.square_lt hx hsq
      exact ⟨by omega, fun heq => by omega, hcount⟩

end

/-- **The statistics are right** exactly if there is an element, 32 bits hold their number, and the
promoted type holds each square. -/
theorem recorded_iff (a : IntArray) : a.Recorded ↔ a.data ≠ [] ∧ a.data.length < 4294967296 ∧
    ∀ x ∈ a.data, x * x ≤ a.type.promoted.highest := by
  constructor
  · intro h
    cases hdata : a.data with
    | nil =>
      -- the sum stays what it was
      obtain ⟨s, hs, hright⟩ := h ⟨0, 0, 0, 1, 0⟩
      rw [IntArray.generate, hdata] at hs
      obtain rfl := Except.ok.inj hs
      have hsum := hright.sum
      rw [hdata] at hsum
      cases hsum
    | cons x xs =>
      obtain ⟨s, hs, hright⟩ := h ⟨0, 0, 0, 0, 0⟩
      rw [IntArray.generate, hdata, IntStats.loop] at hs
      obtain ⟨s₁, helement, hrest⟩ := exists_of_bind_eq_ok hs
      obtain ⟨sq, hsq, hs₁⟩ := exists_of_bind_eq_ok helement
      obtain rfl := Except.ok.inj hs₁
      obtain ⟨hle, hfits, hcnt⟩ := loop_true_sumSquare hrest
      dsimp only at hle hfits hcnt
      have hsquares := hright.sumSquare
      have hcount := hright.cnt
      rw [hdata, map_cons, sum_cons] at hsquares
      rw [hdata] at hcount
      refine ⟨cons_ne_nil x xs, ?_, ?_⟩
      · rw [← hcount]
        exact s.cnt.toNat_lt
      · by_cases hx : x * x ≤ a.type.promoted.highest
        · obtain rfl := Except.ok.inj ((IntType.square_of_le hx).symm.trans hsq)
          exact forall_mem_cons.mpr ⟨hx, hfits hsquares⟩
        · have hlt := IntType.square_lt hx hsq
          omega
  · rintro ⟨hne, hlen, hfits⟩ garbage
    obtain ⟨x, xs, hdata⟩ := exists_cons_of_ne_nil hne
    rw [hdata] at hfits hlen
    obtain ⟨hx, hxs⟩ := forall_mem_cons.mp hfits
    have hsingle : (IntStats.single { garbage with cnt := 0 } x).Summed [x] :=
      ⟨⟨mem_singleton.mpr rfl, fun y hy => Int.le_of_eq (mem_singleton.mp hy).symm⟩,
        ⟨mem_singleton.mpr rfl, fun y hy => Int.le_of_eq (mem_singleton.mp hy)⟩, rfl,
        sum_singleton.symm, sum_singleton.symm⟩
    have hall := hsingle.foldl xs
    refine ⟨xs.foldl IntStats.add (IntStats.single { garbage with cnt := 0 } x), ?_, fun _ => ?_,
      fun _ => ?_, ?_, ?_, ?_⟩
    · rw [IntArray.generate, hdata, IntStats.loop, IntStats.element, IntType.square_of_le hx,
        ok_bind]
      exact loop_true_of_fits hxs _
    · rw [hdata]
      exact hall.min
    · rw [hdata]
      exact hall.max
    · rw [hdata]
      exact (congrArg UInt32.toNat hall.cnt).trans (UInt32.toNat_ofNat_of_lt' hlen)
    · rw [hdata]
      exact hall.sum
    · rw [hdata]
      exact hall.sumSquare

def oneLargeElement : IntArray where
  originalVarType := .unsignedInteger
  type := .uint32
  expanded := rfl
  data := [65536]
  inType := by decide

/-- Its square is cut to 0. -/
theorem not_recorded_largeElement : ¬oneLargeElement.Recorded := fun h => by
  obtain ⟨s, hs, hright⟩ := h ⟨0, 0, 0, 0, 0⟩
  obtain rfl := Except.ok.inj hs
  exact absurd hright.sumSquare (by decide)

end Adios
