import Adios.Core.CopiedSubvolume
import Adios.Index.Struct
import Adios.Wire.Signed
import Mathlib.Logic.ExistsUnique

/-!
# Transforms — the components of an element

The component vector that `adios_transform_aplod_apply` of `adios_transform_aplod_write.c` builds
from the parameters of a transform: how many bytes of each element go into each component.
-/

namespace Adios.Aplod

open List CopySubvolume Wire

/-! ## The code -/

/-- `isspace` -/
def isSpace (c : UInt8) : Bool := c = 32 || (9 ≤ c && c ≤ 13)

def digits (n : Nat) : List UInt8 → Nat
  | [] => n
  | c :: cs => if 48 ≤ c ∧ c ≤ 57 then digits (n * 10 + (c.toNat - 48)) cs else n

def textValue (text : List UInt8) : Int :=
  match text.dropWhile isSpace with
  | [] => 0
  | c :: cs =>
    -- a minus, a plus
    if c = 45 then -(digits 0 cs : Nat)
    else if c = 43 then (digits 0 cs : Nat)
    else (digits 0 (c :: cs) : Nat)

/-- A number that an `int` has. -/
def IsInt (n : Int) : Prop := -2147483648 ≤ n ∧ n < 2147483648

instance (n : Int) : Decidable (IsInt n) := inferInstanceAs (Decidable (_ ∧ _))

/-- A number in an `int`. -/
def toInt (n : Int) : Except Fault Int := if IsInt n then .ok n else .error .signedOverflow

/-- `atoi` -/
def atoi (text : List UInt8) : Except Fault Int := toInt (textValue text)

/-- `MAX_COMPONENTS` -/
def maxComponents : Nat := 8

/-- The loop over the parameters: `componentVector` with its `numComponents` places, and
`componentTotals`. -/
def paramLoop (componentVector : List Int) (componentTotals : Int) :
    List CString → Except Fault (List Int × Int)
  | [] => .ok (componentVector, componentTotals)
  | comp :: params => do
    let compInt ← atoi comp.val
    if compInt ≤ 0 ∨ maxComponents ≤ componentVector.length then
      -- "`numComponents = 0`"; `componentTotals` stays
      return ([], componentTotals)
    else
      let componentTotals ← toInt (componentTotals + compInt)
      paramLoop (componentVector ++ [compInt]) componentTotals params

/-- The loop that fills the vector with twos, with the number of places that are left, and the
component behind it. -/
def defaultLoop (preTransformTypeSize : UInt32) : Nat → Int → Except Fault (List Int)
  | 0, _ => .error .outOfBounds
  | room + 1, componentTotals =>
    if UInt32.ofInt componentTotals < preTransformTypeSize - 2 then do
      let componentTotals ← toInt (componentTotals + 2)
      let rest ← defaultLoop preTransformTypeSize room componentTotals
      return 2 :: rest
    else .ok [cut32 ((preTransformTypeSize - UInt32.ofInt componentTotals).toNat)]

/-- The component vector of `adios_transform_aplod_apply`. -/
def componentVector (preTransformType : Datatype) (params : List CString) :
    Except Fault (List Int) := do
  let (vector, componentTotals) ← paramLoop [] 0 params
  let preTransformTypeSize := (bpGetTypeSize preTransformType).toUInt32
  if vector = [] ∨ UInt32.ofInt componentTotals ≠ preTransformTypeSize then
    if preTransformType = .double then .ok [2, 2, 2, 2]
    else if preTransformType = .real then .ok [2, 2]
    else defaultLoop preTransformTypeSize maxComponents componentTotals
  else .ok vector

/-! ## The statement -/

def total (components : List Int) : Int := components.foldr (· + ·) 0

structure Partition (size : Nat) (components : List Int) : Prop where
  nonempty : components ≠ []
  room : components.length ≤ maxComponents
  positive : ∀ c ∈ components, 0 < c
  total_eq : total components = size
  covers : ∀ b : Int, 0 ≤ b → b < size → ∃! i, i < components.length ∧
    total (components.take i) ≤ b ∧ b < total (components.take (i + 1))

structure AplodVar where
  type : Datatype
  numeric : type.IsNumeric
  params : List CString

namespace AplodVar

variable (v : AplodVar)

def size : Nat := (getTypeSize v.type none).toNat

def numbers : List Int := v.params.map fun comp => textValue comp.val

/-- The components that are taken over: as many as there is room for, up to a number that is not
positive. -/
def taken : List Int := (v.numbers.take maxComponents).takeWhile (0 < ·)

def Builds : Prop :=
  ∃ components, componentVector v.type v.params = .ok components ∧ Partition v.size components

/-- `int`s have the numbers that are looked at and the sum of those that are taken over; and the
type has a vector of its own, or the parameters are all taken over and have the right sum, or none
is taken over and the elements are of more than one byte. -/
structure Clear : Prop where
  numbers : ∀ n ∈ v.numbers.take (v.taken.length + 1), IsInt n
  total_lt : total v.taken < 2147483648
  vector : v.type = .double ∨ v.type = .real ∨ (v.taken = v.numbers ∧ total v.taken = v.size) ∨
    (v.taken = [] ∧ v.size ≠ 1)

end AplodVar

/-! ## Partitions -/

@[simp] theorem total_nil : total [] = 0 := rfl

@[simp] theorem total_cons (c : Int) (cs : List Int) : total (c :: cs) = c + total cs := rfl

theorem total_nonneg {cs : List Int} (h : ∀ c ∈ cs, 0 < c) : 0 ≤ total cs := by
  induction cs with
  | nil => exact Int.le_refl 0
  | cons c cs ih =>
    obtain ⟨hc, hcs⟩ := forall_mem_cons.mp h
    have hrest := ih hcs
    rw [total_cons]
    omega

theorem existsUnique_of_positive {cs : List Int} (h : ∀ c ∈ cs, 0 < c) {b : Int} (hb : 0 ≤ b)
    (hlt : b < total cs) : ∃! i, i < cs.length ∧ total (cs.take i) ≤ b ∧
      b < total (cs.take (i + 1)) := by
  induction cs generalizing b with
  | nil =>
    rw [total_nil] at hlt
    omega
  | cons c cs ih =>
    obtain ⟨hc, hcs⟩ := forall_mem_cons.mp h
    rw [total_cons] at hlt
    by_cases hfirst : b < c
    · -- the byte is in the first of them
      refine ⟨0, ⟨Nat.zero_lt_succ _, hb, ?_⟩, fun i hi => ?_⟩
      · rw [take_succ_cons, take_zero, total_cons, total_nil]
        omega
      · cases i with
        | zero => rfl
        | succ i =>
          have hle := hi.2.1
          have hrest := @total_nonneg (cs.take i) fun d hd => hcs d (mem_of_mem_take hd)
          rw [take_succ_cons, total_cons] at hle
          exact absurd (Int.le_trans (Int.le_add_of_nonneg_right hrest) hle)
            (Int.not_le.mpr hfirst)
    · obtain ⟨i, ⟨hi, hle, hlt'⟩, hunique⟩ := @ih hcs (b - c) (by omega) (by omega)
      refine ⟨i + 1, ⟨Nat.succ_lt_succ hi, ?_, ?_⟩, fun j hj => ?_⟩
      · rw [take_succ_cons, total_cons]
        omega
      · rw [take_succ_cons, total_cons]
        omega
      · obtain ⟨hlen, hle', hlt''⟩ := hj
        cases j with
        | zero =>
          rw [take_succ_cons, take_zero, total_cons, total_nil] at hlt''
          omega
        | succ j =>
          rw [take_succ_cons, total_cons] at hle' hlt''
          exact congrArg (· + 1) (hunique j ⟨Nat.lt_of_succ_lt_succ hlen, by omega, by omega⟩)

theorem Partition.of_total {size : Nat} {cs : List Int} (hne : cs ≠ [])
    (hroom : cs.length ≤ maxComponents) (hpositive : ∀ c ∈ cs, 0 < c) (htotal : total cs = size) :
    Partition size cs :=
  ⟨hne, hroom, hpositive, htotal, fun _ hb hlt =>
    existsUnique_of_positive hpositive hb (htotal.symm ▸ hlt)⟩

/-! ## The parameters -/

theorem toInt_of_isInt {n : Int} (h : IsInt n) : toInt n = .ok n := if_pos h

def outcome (vector : List Int) (totals : Int) (numbers : List Int) : List Int × Int :=
  let taken := (numbers.take (maxComponents - vector.length)).takeWhile (0 < ·)
  (if taken = numbers then vector ++ taken else [], totals + total taken)

def Counted (vector : List Int) (totals : Int) (numbers : List Int) : Prop :=
  let taken := (numbers.take (maxComponents - vector.length)).takeWhile (0 < ·)
  (∀ n ∈ numbers.take (taken.length + 1), IsInt n) ∧ totals + total taken < 2147483648

section

variable {vector : List Int} {totals n : Int} {numbers : List Int}

theorem taken_stop (h : n ≤ 0 ∨ maxComponents ≤ vector.length) :
    ((n :: numbers).take (maxComponents - vector.length)).takeWhile (fun n : Int => 0 < n) =
      [] := by
  rcases h with h | h
  · cases maxComponents - vector.length with
    | zero => rfl
    | succ k => rw [take_succ_cons, takeWhile_cons_of_neg (by simpa using h)]
  · rw [Nat.sub_eq_zero_of_le h]
    rfl

theorem taken_go (h : ¬(n ≤ 0 ∨ maxComponents ≤ vector.length)) :
    ((n :: numbers).take (maxComponents - vector.length)).takeWhile (fun n : Int => 0 < n) =
      n :: (numbers.take (maxComponents - (vector ++ [n]).length)).takeWhile
        (fun n : Int => 0 < n) := by
  obtain ⟨hpos, hroom⟩ := not_or.mp h
  have hsub : maxComponents - vector.length = maxComponents - (vector ++ [n]).length + 1 := by
    rw [length_append, length_singleton]
    omega
  rw [hsub, take_succ_cons, takeWhile_cons_of_pos (by simpa using hpos)]

end

theorem paramLoop_eq {params : List CString} {vector : List Int} {totals : Int}
    (hcounted : Counted vector totals (params.map fun comp => textValue comp.val))
    (htotals : 0 ≤ totals) :
    paramLoop vector totals params =
      .ok (outcome vector totals (params.map fun comp => textValue comp.val)) := by
  induction params generalizing vector totals with
  | nil =>
    have htaken : (([] : List Int).take (maxComponents - vector.length)).takeWhile
        (fun n : Int => 0 < n) = [] := by rw [take_nil]; rfl
    show Except.ok (vector, totals) = .ok (outcome vector totals [])
    unfold outcome
    dsimp only
    rw [htaken, if_pos rfl, append_nil, total_nil, Int.add_zero]
  | cons comp params ih =>
    rw [map_cons] at hcounted ⊢
    generalize hn : textValue comp.val = n at hcounted ⊢
    generalize hnumbers : (params.map fun comp => textValue comp.val) = numbers at hcounted ih ⊢
    unfold Counted at hcounted
    rw [paramLoop, atoi, hn]
    by_cases hstop : n ≤ 0 ∨ maxComponents ≤ vector.length
    · rw [taken_stop hstop] at hcounted
      have hint : IsInt n := hcounted.1 n (by rw [length_nil, take_succ_cons]; simp)
      rw [toInt_of_isInt hint, ok_bind, if_pos hstop]
      unfold outcome
      dsimp only
      rw [taken_stop hstop, if_neg (cons_ne_nil _ _).symm, total_nil, Int.add_zero]
      rfl
    · rw [taken_go hstop] at hcounted
      obtain ⟨hints, hlt⟩ := hcounted
      rw [length_cons, take_succ_cons] at hints
      obtain ⟨hint, hints⟩ := forall_mem_cons.mp hints
      have hpos := (not_or.mp hstop).1
      rw [total_cons] at hlt
      have hnonneg := @total_nonneg ((numbers.take
        (maxComponents - (vector ++ [n]).length)).takeWhile (fun n : Int => 0 < n)) fun c hc => by
          simpa using mem_takeWhile_imp hc
      have hsum : IsInt (totals + n) := ⟨by omega, by omega⟩
      rw [toInt_of_isInt hint, ok_bind, if_neg hstop, toInt_of_isInt hsum, ok_bind,
        ih ⟨hints, by omega⟩ (by omega)]
      unfold outcome
      dsimp only
      rw [taken_go hstop, total_cons, Int.add_assoc, append_assoc, singleton_append]
      simp only [List.cons.injEq, true_and]

theorem counted_of_paramLoop {params : List CString} {vector : List Int} {totals : Int}
    {r : List Int × Int} (hrun : paramLoop vector totals params = .ok r) (htotals : IsInt totals) :
    Counted vector totals (params.map fun comp => textValue comp.val) := by
  induction params generalizing vector totals with
  | nil =>
    have htaken : (([] : List Int).take (maxComponents - vector.length)).takeWhile
        (fun n : Int => 0 < n) = [] := by rw [take_nil]; rfl
    show Counted vector totals []
    unfold Counted
    dsimp only
    rw [htaken, take_nil, total_nil, Int.add_zero]
    exact ⟨forall_mem_nil _, htotals.2⟩
  | cons comp params ih =>
    rw [paramLoop, atoi] at hrun
    rw [map_cons]
    generalize textValue comp.val = n at hrun ⊢
    generalize hnumbers : (params.map fun comp => textValue comp.val) = numbers at ih ⊢
    obtain ⟨compInt, hcomp, hrun⟩ := exists_of_bind_eq_ok hrun
    have hint : IsInt n := by
      by_contra hc
      rw [toInt, if_neg hc] at hcomp
      cases hcomp
    obtain rfl : n = compInt := by
      rw [toInt_of_isInt hint] at hcomp
      exact Except.ok.inj hcomp
    unfold Counted
    dsimp only
    by_cases hstop : n ≤ 0 ∨ maxComponents ≤ vector.length
    · rw [taken_stop hstop, length_nil, take_succ_cons, take_zero, total_nil, Int.add_zero]
      exact ⟨forall_mem_singleton.mpr hint, htotals.2⟩
    · rw [if_neg hstop] at hrun
      obtain ⟨totals', hsum, hrun⟩ := exists_of_bind_eq_ok hrun
      have hsumInt : IsInt (totals + n) := by
        by_contra hc
        rw [toInt, if_neg hc] at hsum
        cases hsum
      obtain rfl : totals + n = totals' := by
        rw [toInt_of_isInt hsumInt] at hsum
        exact Except.ok.inj hsum
      obtain ⟨hints, hlt⟩ := ih hrun hsumInt
      rw [taken_go hstop, length_cons, take_succ_cons, total_cons]
      exact ⟨forall_mem_cons.mpr ⟨hint, hints⟩, by rwa [← Int.add_assoc]⟩

theorem toNat_ofInt (n : Int) : ((UInt32.ofInt n).toNat : Int) = n % 4294967296 := by
  have hpow : (2 : Int) ^ 32 = 4294967296 := rfl
  rw [UInt32.ofInt, hpow, UInt32.toNat_ofNat_of_lt' (show (n % 4294967296).toNat < 4294967296 by
    omega)]
  omega

theorem total_of_defaultLoop {size : UInt32} {room : Nat} {totals : Int} {cs : List Int}
    (h : defaultLoop size room totals = .ok cs) :
    (total cs + totals) % 4294967296 = size.toNat := by
  induction room generalizing totals cs with
  | zero => cases h
  | succ room ih =>
    rw [defaultLoop] at h
    by_cases hlt : UInt32.ofInt totals < size - 2
    · rw [if_pos hlt] at h
      obtain ⟨totals', hsum, h⟩ := exists_of_bind_eq_ok h
      obtain ⟨rest, hrest, h⟩ := exists_of_bind_eq_ok h
      obtain rfl := Except.ok.inj h
      have htotals : totals' = totals + 2 := by
        unfold toInt at hsum
        split_ifs at hsum
        exact (Except.ok.inj hsum).symm
      have htotal := ih hrest
      rw [total_cons, ← htotal, htotals]
      refine congrArg (· % 4294967296) ?_
      omega
    · rw [if_neg hlt] at h
      obtain rfl := Except.ok.inj h
      have hsize := size.toNat_lt
      have hcast := toNat_ofInt totals
      have hsub : (size - UInt32.ofInt totals).toNat =
          (4294967296 - (UInt32.ofInt totals).toNat + size.toNat) % 4294967296 :=
        UInt32.toNat_sub _ _
      have hbound := (UInt32.ofInt totals).toNat_lt
      rw [total_cons, total_nil, hsub]
      unfold cut32
      omega

theorem defaultLoop_zero {type : Datatype} (h : type.IsNumeric) :
    (getTypeSize type none ≠ 1 →
      ∃ cs, defaultLoop (bpGetTypeSize type).toUInt32 maxComponents 0 = .ok cs ∧ cs ≠ [] ∧
        cs.length ≤ maxComponents ∧ (∀ c ∈ cs, 0 < c) ∧
        total cs = (getTypeSize type none).toNat) ∧
    (getTypeSize type none = 1 →
      defaultLoop (bpGetTypeSize type).toUInt32 maxComponents 0 = .error .outOfBounds) := by
  cases type with
  | byte | unsignedByte => exact ⟨fun hc => absurd rfl hc, fun _ => by decide +kernel⟩
  | short | unsignedShort =>
    exact ⟨fun _ => ⟨[2], by decide +kernel, by decide⟩, fun hc => absurd hc (by decide)⟩
  | integer | unsignedInteger | real =>
    exact ⟨fun _ => ⟨[2, 2], by decide +kernel, by decide⟩, fun hc => absurd hc (by decide)⟩
  | long | unsignedLong | double | complex =>
    exact ⟨fun _ => ⟨[2, 2, 2, 2], by decide +kernel, by decide⟩, fun hc => absurd hc (by decide)⟩
  | longDouble | doubleComplex =>
    exact ⟨fun _ => ⟨[2, 2, 2, 2, 2, 2, 2, 2], by decide +kernel, by decide⟩,
      fun hc => absurd hc (by decide)⟩
  | string => exact absurd rfl h.2
  | unknown => exact absurd h.1 id
  | other code => exact absurd h.1 id

/-! ## The vector -/

namespace AplodVar

variable (v : AplodVar)

theorem toNat_typeSize : (bpGetTypeSize v.type).toUInt32.toNat = v.size := by
  rw [bpGetTypeSize_eq v.numeric, UInt64.toNat_toUInt32]
  have hmem := getTypeSize_mem v.numeric none
  simp only [mem_cons, not_mem_nil, or_false] at hmem
  refine Nat.mod_eq_of_lt ?_
  omega

theorem taken_positive : ∀ c ∈ v.taken, 0 < c := fun c hc => by
  simpa using mem_takeWhile_imp hc

theorem length_taken_le : v.taken.length ≤ maxComponents :=
  Nat.le_trans (List.takeWhile_prefix _).length_le (length_take_le _ _)

theorem size_pos : 0 < v.size := getTypeSize_pos v.numeric

theorem componentVector_eq (hcounted : Counted [] 0 v.numbers) :
    componentVector v.type v.params =
      if v.taken = v.numbers ∧ total v.taken = v.size then .ok v.taken
      else if v.type = .double then .ok [2, 2, 2, 2]
      else if v.type = .real then .ok [2, 2]
      else defaultLoop (bpGetTypeSize v.type).toUInt32 maxComponents (total v.taken) := by
  have hloop : paramLoop [] 0 v.params =
      .ok (if v.taken = v.numbers then v.taken else [], 0 + total v.taken) :=
    paramLoop_eq hcounted (Int.le_refl 0)
  have hlt : 0 + total v.taken < 2147483648 := hcounted.2
  have hnonneg := total_nonneg v.taken_positive
  have hsize : UInt32.ofInt (total v.taken) = (bpGetTypeSize v.type).toUInt32 ↔
      total v.taken = v.size := by
    have hcast := toNat_ofInt (total v.taken)
    rw [← UInt32.toNat_inj, v.toNat_typeSize]
    omega
  have hpos := v.size_pos
  unfold componentVector
  rw [hloop, ok_bind, Int.zero_add]
  dsimp only
  by_cases hvalid : v.taken = v.numbers ∧ total v.taken = v.size
  · have hne : v.taken ≠ [] := fun hc => by
      have htotal := hvalid.2
      rw [hc, total_nil] at htotal
      omega
    rw [if_pos hvalid.1, if_pos hvalid, if_neg (not_or.mpr ⟨hne, not_not.mpr (hsize.mpr hvalid.2)⟩)]
  · rw [if_neg hvalid]
    refine if_pos ?_
    by_cases hall : v.taken = v.numbers
    · exact .inr fun hc => hvalid ⟨hall, hsize.mp hc⟩
    · exact .inl (if_neg hall)

theorem builds_of_clear (h : v.Clear) : v.Builds := by
  have hcounted : Counted [] 0 v.numbers := ⟨h.numbers, by
    rw [Int.zero_add]
    exact h.total_lt⟩
  unfold Builds
  rw [v.componentVector_eq hcounted]
  by_cases hvalid : v.taken = v.numbers ∧ total v.taken = v.size
  · rw [if_pos hvalid]
    refine ⟨_, rfl, .of_total (fun hc => ?_) v.length_taken_le v.taken_positive hvalid.2⟩
    have hpos := v.size_pos
    have htotal := hvalid.2
    rw [hc, total_nil] at htotal
    omega
  · rw [if_neg hvalid]
    rcases h.vector with hdouble | hreal | htaken | ⟨hempty, hsize⟩
    · rw [if_pos hdouble]
      refine ⟨_, rfl, .of_total (by decide) (by decide) (by decide) ?_⟩
      rw [size, hdouble]
      rfl
    · rw [if_neg (by rw [hreal]; decide), if_pos hreal]
      refine ⟨_, rfl, .of_total (by decide) (by decide) (by decide) ?_⟩
      rw [size, hreal]
      rfl
    · exact absurd htaken hvalid
    · by_cases hdouble : v.type = .double
      · rw [if_pos hdouble]
        refine ⟨_, rfl, .of_total (by decide) (by decide) (by decide) ?_⟩
        rw [size, hdouble]
        rfl
      · by_cases hreal : v.type = .real
        · rw [if_neg hdouble, if_pos hreal]
          refine ⟨_, rfl, .of_total (by decide) (by decide) (by decide) ?_⟩
          rw [size, hreal]
          rfl
        · rw [if_neg hdouble, if_neg hreal, hempty, total_nil]
          obtain ⟨cs, hcs, hne, hroom, hpositive, htotal⟩ := (defaultLoop_zero v.numeric).1
            fun hc => hsize (by rw [size, hc]; rfl)
          exact ⟨cs, hcs, .of_total hne hroom hpositive htotal⟩

theorem clear_of_builds (h : v.Builds) : v.Clear := by
  obtain ⟨cs, hrun, hpartition⟩ := h
  have hcounted : Counted [] 0 v.numbers := by
    unfold componentVector at hrun
    obtain ⟨r, hloop, -⟩ := exists_of_bind_eq_ok hrun
    exact counted_of_paramLoop hloop (by decide)
  rw [v.componentVector_eq hcounted] at hrun
  have hlt : 0 + total v.taken < 2147483648 := hcounted.2
  rw [Int.zero_add] at hlt
  refine ⟨hcounted.1, hlt, ?_⟩
  by_cases hvalid : v.taken = v.numbers ∧ total v.taken = v.size
  · exact .inr (.inr (.inl hvalid))
  by_cases hdouble : v.type = .double
  · exact .inl hdouble
  by_cases hreal : v.type = .real
  · exact .inr (.inl hreal)
  rw [if_neg hvalid, if_neg hdouble, if_neg hreal] at hrun
  -- the total of a vector that has been given up is missing from the default
  have hmod := total_of_defaultLoop hrun
  have hnonneg := total_nonneg v.taken_positive
  rw [v.toNat_typeSize, hpartition.total_eq] at hmod
  have hsize : v.size < 4294967296 := by
    rw [← v.toNat_typeSize]
    exact UInt32.toNat_lt _
  have hzero : total v.taken = 0 := by omega
  have hempty : v.taken = [] := by
    cases htaken : v.taken with
    | nil => rfl
    | cons c cs =>
      have hpositive := v.taken_positive
      rw [htaken] at hzero hpositive
      obtain ⟨hc, hcs⟩ := forall_mem_cons.mp hpositive
      have hrest := total_nonneg hcs
      rw [total_cons] at hzero
      omega
  refine .inr (.inr (.inr ⟨hempty, fun hone => ?_⟩))
  have hone : getTypeSize v.type none = 1 := UInt64.toNat_inj.mp hone
  rw [hzero, (defaultLoop_zero v.numeric).2 hone] at hrun
  cases hrun

/-- The components are a partition of the bytes of an element exactly where the parameters are one,
or nothing of them is taken over and the type is not of one byte, or the type has a vector of its
own. -/
theorem builds_iff : v.Builds ↔ v.Clear := ⟨v.clear_of_builds, v.builds_of_clear⟩

end AplodVar

theorem byte_numeric : Datatype.byte.IsNumeric := by decide

def plainBytes : AplodVar := ⟨.byte, byte_numeric, []⟩

/-- The loop runs out of the vector: "`pre_transform_type_size - 2`" is not below zero. -/
theorem not_builds_plainBytes : ¬plainBytes.Builds := by
  rintro ⟨cs, hrun, -⟩
  have herror : componentVector plainBytes.type plainBytes.params = .error .outOfBounds := by decide
  rw [herror] at hrun
  cases hrun

end Adios.Aplod
