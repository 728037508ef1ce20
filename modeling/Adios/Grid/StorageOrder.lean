import Adios.Grid.Boxes

/-!
# Grid — row-major and column-major order

The linear orders of an array in which the last coordinate runs fastest, or the first one.
-/

namespace Grid

open List

def slowestFirst {α : Type*} (rowMajor : Bool) (l : List α) : List α :=
  if rowMajor then l else l.reverse

def linearIn (rowMajor : Bool) (dims p : List Nat) : Nat :=
  linear (slowestFirst rowMajor dims) (slowestFirst rowMajor p)

def coordsIn (rowMajor : Bool) (dims : List Nat) (n : Nat) : List Nat :=
  slowestFirst rowMajor (coords (slowestFirst rowMajor dims) n)

section SlowestFirst

variable {α β : Type*} (rowMajor : Bool) (l : List α)

@[simp] theorem slowestFirst_slowestFirst : slowestFirst rowMajor (slowestFirst rowMajor l) = l := by
  cases rowMajor
  · exact reverse_reverse l
  · rfl

@[simp] theorem length_slowestFirst : (slowestFirst rowMajor l).length = l.length := by
  cases rowMajor
  · exact length_reverse
  · rfl

theorem map_slowestFirst (f : α → β) :
    (slowestFirst rowMajor l).map f = slowestFirst rowMajor (l.map f) := by
  cases rowMajor
  · exact map_reverse
  · rfl

theorem zip_slowestFirst {l' : List β} (h : l.length = l'.length) :
    (slowestFirst rowMajor l).zip (slowestFirst rowMajor l') = slowestFirst rowMajor (l.zip l') := by
  cases rowMajor
  · exact (reverse_zipWith h).symm
  · rfl

theorem forall₂_slowestFirst_iff {R : α → β → Prop} {l' : List β} :
    Forall₂ R (slowestFirst rowMajor l) (slowestFirst rowMajor l') ↔ Forall₂ R l l' := by
  cases rowMajor
  · exact forall₂_reverse_iff
  · exact Iff.rfl

end SlowestFirst

variable (rowMajor : Bool) {dims p q : List Nat}

@[simp] theorem volume_slowestFirst (dims : List Nat) :
    volume (slowestFirst rowMajor dims) = volume dims := by
  cases rowMajor
  · exact volume_reverse dims
  · rfl

theorem linearIn_lt (h : Within p dims) : linearIn rowMajor dims p < volume dims := by
  rw [← volume_slowestFirst rowMajor dims]
  exact linear_lt ((forall₂_slowestFirst_iff rowMajor p).mpr h)

theorem coordsIn_linearIn (h : Within p dims) :
    coordsIn rowMajor dims (linearIn rowMajor dims p) = p := by
  rw [coordsIn, linearIn, coords_linear ((forall₂_slowestFirst_iff rowMajor p).mpr h),
    slowestFirst_slowestFirst]

theorem within_coordsIn {n : Nat} (h : n < volume dims) :
    Within (coordsIn rowMajor dims n) dims := by
  rw [← volume_slowestFirst rowMajor dims] at h
  have hwithin := (forall₂_slowestFirst_iff rowMajor _).mpr (within_coords h)
  rwa [slowestFirst_slowestFirst] at hwithin

theorem linearIn_coordsIn {n : Nat} (h : n < volume dims) :
    linearIn rowMajor dims (coordsIn rowMajor dims n) = n := by
  rw [← volume_slowestFirst rowMajor dims] at h
  rw [linearIn, coordsIn, slowestFirst_slowestFirst, linear_coords h]

/-! ## Boxes -/

def placeIn (box : List Span) (p : List Nat) : Nat :=
  linearIn rowMajor (sizes box) (localCoords box p)

def elementIn (box : List Span) (n : Nat) : List Nat :=
  globalCoords box (coordsIn rowMajor (sizes box) n)

variable {box : List Span} {n : Nat}

theorem placeIn_lt (h : Contains box p) : placeIn rowMajor box p < volume (sizes box) :=
  linearIn_lt rowMajor (within_localCoords h)

theorem contains_elementIn (h : n < volume (sizes box)) :
    Contains box (elementIn rowMajor box n) :=
  contains_globalCoords (within_coordsIn rowMajor h)

theorem placeIn_elementIn (h : n < volume (sizes box)) :
    placeIn rowMajor box (elementIn rowMajor box n) = n := by
  rw [placeIn, elementIn, localCoords_globalCoords (within_coordsIn rowMajor h),
    linearIn_coordsIn rowMajor h]

theorem elementIn_placeIn (h : Contains box p) :
    elementIn rowMajor box (placeIn rowMajor box p) = p := by
  rw [elementIn, placeIn, coordsIn_linearIn rowMajor (within_localCoords h),
    globalCoords_localCoords h]

theorem foldl_linear (hlen : p.length = dims.length) (n : Nat) :
    (dims.zip p).foldl (fun n d => n * d.1 + d.2) n = n * volume dims + linear dims p := by
  induction dims generalizing p n with
  | nil => exact (Nat.mul_one n).symm
  | cons d dims ih =>
    match p, hlen with
    | i :: p, hlen =>
      rw [zip_cons_cons, foldl_cons, ih (Nat.succ.inj hlen), linear, volume_cons,
        Nat.add_mul, Nat.mul_assoc, Nat.add_assoc]

end Grid
