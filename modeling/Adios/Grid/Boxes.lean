import Adios.Grid.RowMajor

/-!
# Grid — boxes in an array

A box takes consecutive coordinates in every dimension. `place box p` is the place of the element
`p` in the linear order of the box, `elementAt box n` the element at the place `n`.
-/

namespace Grid

open List

structure Span where
  start : Nat
  count : Nat
  deriving DecidableEq

def Span.stop (s : Span) : Nat := s.start + s.count

def Contains (box : List Span) (p : List Nat) : Prop :=
  Forall₂ (fun s x => s.start ≤ x ∧ x < s.stop) box p

def sizes (box : List Span) : List Nat := box.map (·.count)

def localCoords (box : List Span) (p : List Nat) : List Nat :=
  List.zipWith (fun s x => x - s.start) box p

def globalCoords (box : List Span) (q : List Nat) : List Nat :=
  List.zipWith (fun s x => x + s.start) box q

def place (box : List Span) (p : List Nat) : Nat := linear (sizes box) (localCoords box p)

def elementAt (box : List Span) (n : Nat) : List Nat := globalCoords box (coords (sizes box) n)

def whole (dims : List Nat) : List Span := dims.map (⟨0, ·⟩)

def Inside (box : List Span) (dims : List Nat) : Prop :=
  Forall₂ (fun s d => s.stop ≤ d) box dims

structure Decomposes (dims : List Nat) (boxes : List (List Span)) : Prop where
  inside : ∀ box ∈ boxes, Inside box dims
  existsUnique : ∀ p, Within p dims → ∃! i : Nat, ∃ box, boxes[i]? = some box ∧ Contains box p

variable {box : List Span} {p p' q dims : List Nat} {n : Nat}

theorem sizes_cons (s : Span) (box : List Span) : sizes (s :: box) = s.count :: sizes box := rfl

theorem sizes_whole (dims : List Nat) : sizes (whole dims) = dims := by
  rw [sizes, whole, map_map]
  exact map_id dims

theorem contains_cons {s : Span} {x : Nat} :
    Contains (s :: box) (x :: p) ↔ (s.start ≤ x ∧ x < s.stop) ∧ Contains box p :=
  forall₂_cons

instance decidableContains : (box : List Span) → (p : List Nat) → Decidable (Contains box p)
  | [], [] => .isTrue .nil
  | [], _ :: _ => .isFalse fun h => by cases h
  | _ :: _, [] => .isFalse fun h => by cases h
  | s :: box, x :: p =>
    have := decidableContains box p
    decidable_of_iff ((s.start ≤ x ∧ x < s.stop) ∧ Contains box p) contains_cons.symm

theorem inside_whole (dims : List Nat) : Inside (whole dims) dims := by
  rw [Inside, whole, forall₂_map_left_iff, forall₂_same]
  intro d _
  show 0 + d ≤ d
  omega

theorem within_of_contains (hbox : Inside box dims) (h : Contains box p) : Within p dims := by
  induction hbox generalizing p with
  | nil =>
    cases h
    exact .nil
  | cons hstop _ ih =>
    cases h with
    | cons hx hrest => exact .cons (Nat.lt_of_lt_of_le hx.2 hstop) (ih hrest)

theorem sizes_le_of_inside (h : Inside box dims) : Forall₂ (· ≤ ·) (sizes box) dims := by
  rw [sizes, forall₂_map_left_iff]
  refine h.imp fun s d hstop => ?_
  unfold Span.stop at hstop
  omega

theorem length_of_contains (h : Contains box p) : p.length = box.length :=
  (Forall₂.length_eq h).symm

theorem within_localCoords (h : Contains box p) : Within (localCoords box p) (sizes box) := by
  induction h with
  | nil => exact .nil
  | @cons s x box p hx _ ih =>
    refine .cons ?_ ih
    unfold Span.stop at hx
    show x - s.start < s.count
    omega

theorem globalCoords_localCoords (h : Contains box p) :
    globalCoords box (localCoords box p) = p := by
  induction h with
  | nil => rfl
  | @cons s x box p hx _ ih =>
    show (x - s.start + s.start) :: globalCoords box (localCoords box p) = x :: p
    rw [ih, Nat.sub_add_cancel hx.1]

theorem contains_globalCoords (h : Within q (sizes box)) : Contains box (globalCoords box q) := by
  induction box generalizing q with
  | nil =>
    cases h
    exact .nil
  | cons s box ih =>
    rw [sizes_cons] at h
    cases h with
    | @cons x _ q _ hx hq =>
      refine .cons ?_ (ih hq)
      show s.start ≤ x + s.start ∧ x + s.start < s.start + s.count
      omega

theorem localCoords_globalCoords (h : Within q (sizes box)) :
    localCoords box (globalCoords box q) = q := by
  induction box generalizing q with
  | nil =>
    cases h
    rfl
  | cons s box ih =>
    rw [sizes_cons] at h
    cases h with
    | @cons x _ q _ hx hq =>
      show (x + s.start - s.start) :: localCoords box (globalCoords box q) = x :: q
      rw [ih hq, Nat.add_sub_cancel]

theorem place_lt (h : Contains box p) : place box p < volume (sizes box) :=
  linear_lt (within_localCoords h)

theorem place_injective (h : Contains box p) (h' : Contains box p')
    (heq : place box p = place box p') : p = p' := by
  have hlocal := linear_injective (within_localCoords h) (within_localCoords h') heq
  rw [← globalCoords_localCoords h, hlocal, globalCoords_localCoords h']

theorem contains_elementAt (h : n < volume (sizes box)) : Contains box (elementAt box n) :=
  contains_globalCoords (within_coords h)

theorem length_elementAt (box : List Span) (n : Nat) : (elementAt box n).length = box.length := by
  rw [elementAt, globalCoords, length_zipWith, length_coords, sizes, length_map, Nat.min_self]

theorem place_elementAt (h : n < volume (sizes box)) : place box (elementAt box n) = n := by
  rw [place, elementAt, localCoords_globalCoords (within_coords h), linear_coords h]

theorem elementAt_place (h : Contains box p) : elementAt box (place box p) = p := by
  rw [elementAt, place, coords_linear (within_localCoords h), globalCoords_localCoords h]

theorem sum_elementAt_le (hbox : Inside box dims) (hpos : 0 < volume dims)
    (hcount : ∀ s ∈ box.tail, s.count ≠ 0) (n : Nat) :
    (elementAt box n).sum ≤ n + volume dims := by
  cases hbox with
  | nil => exact Nat.zero_le _
  | @cons s d box dims hstop hrest =>
    have hsizes : 0 < volume (sizes box) := by
      have hall : ∀ c ∈ sizes box, 0 < c := by
        intro c hc
        obtain ⟨s', hs', rfl⟩ := mem_map.mp hc
        have hne := hcount s' hs'
        omega
      exact volume_pos hall
    have hin : Contains box (elementAt box (n % volume (sizes box))) :=
      contains_elementAt (Nat.mod_lt n hsizes)
    have hsum := sum_lt_volume (within_of_contains hrest hin)
    have hfirst : n / volume (sizes box) ≤ n := Nat.div_le_self _ _
    rw [volume_cons] at hpos
    have hmul := add_le_mul_add_one (Nat.pos_of_mul_pos_right hpos) (Nat.pos_of_mul_pos_left hpos)
    show n / volume (sizes box) + s.start + (elementAt box (n % volume (sizes box))).sum ≤
      n + d * volume dims
    unfold Span.stop at hstop
    omega

/-! ## The last dimension -/

theorem sizes_append (box box' : List Span) : sizes (box ++ box') = sizes box ++ sizes box' :=
  map_append

theorem length_sizes (box : List Span) : (sizes box).length = box.length := length_map _

theorem elementAt_append_singleton (hne : box ≠ []) (s : Span) (n : Nat) :
    elementAt (box ++ [s]) n = elementAt box (n / s.count) ++ [n % s.count + s.start] := by
  have hsizes : sizes box ≠ [] := fun h => hne (map_eq_nil_iff.mp h)
  have hcoords : coords (sizes (box ++ [s])) n =
      coords (sizes box) (n / s.count) ++ [n % s.count] := by
    rw [sizes_append]
    exact coords_append_singleton hsizes s.count n
  have hlen : box.length = (coords (sizes box) (n / s.count)).length := by
    rw [length_coords, length_sizes]
  rw [elementAt, hcoords, globalCoords, zipWith_append hlen]
  rfl

theorem place_append_singleton (hlen : p.length = box.length) (s : Span) (x : Nat) :
    place (box ++ [s]) (p ++ [x]) = place box p * s.count + (x - s.start) := by
  have hlocal : localCoords (box ++ [s]) (p ++ [x]) = localCoords box p ++ [x - s.start] := by
    rw [localCoords, zipWith_append hlen.symm]
    rfl
  rw [place, hlocal, sizes_append]
  refine linear_append_singleton ?_ _ _
  rw [localCoords, length_zipWith, length_sizes, hlen, Nat.min_self]

theorem eq_of_contains_iff {box' : List Span} (hlen : box.length = box'.length)
    (hp : Contains box p) (h : ∀ q, Contains box q ↔ Contains box' q) : box = box' := by
  induction box generalizing box' p with
  | nil => exact (length_eq_zero_iff.mp hlen.symm).symm
  | cons s box ih =>
    match box', p, hlen, hp with
    | s' :: box', x :: p, hlen, hp =>
      obtain ⟨hx, hp⟩ := contains_cons.mp hp
      have hp' := (contains_cons.mp ((h (x :: p)).mp (contains_cons.mpr ⟨hx, hp⟩))).2
      have hbox : box = box' := ih (Nat.succ.inj hlen) hp fun q => by
        have hx' := (contains_cons.mp ((h (x :: p)).mp (contains_cons.mpr ⟨hx, hp⟩))).1
        have hq := h (x :: q)
        rw [contains_cons, contains_cons] at hq
        exact ⟨fun hc => (hq.mp ⟨hx, hc⟩).2, fun hc => (hq.mpr ⟨hx', hc⟩).2⟩
      have hspan : ∀ y, (s.start ≤ y ∧ y < s.stop) ↔ s'.start ≤ y ∧ y < s'.stop := fun y => by
        have hy := h (y :: p)
        rw [contains_cons, contains_cons] at hy
        exact ⟨fun hc => (hy.mp ⟨hc, hp⟩).1, fun hc => (hy.mpr ⟨hc, hp'⟩).1⟩
      obtain ⟨a, n⟩ := s
      obtain ⟨a', n'⟩ := s'
      unfold Span.stop at hx hspan
      dsimp only at hx hspan
      have hfirst := hspan a
      have hfirst' := hspan a'
      have hlast := hspan (a + n)
      have hlast' := hspan (a' + n')
      have hstart : a = a' := by omega
      have hcount : n = n' := by omega
      rw [hstart, hcount, hbox]

/-! ## Corners -/

def firstCorner (box : List Span) : List Nat := box.map (·.start)

def lastCorner (box : List Span) : List Nat := box.map fun s => s.stop - 1

theorem between_corners (h : Contains box p) :
    Forall₂ (· ≤ ·) (firstCorner box) p ∧ Forall₂ (· ≤ ·) p (lastCorner box) := by
  induction h with
  | nil => exact ⟨.nil, .nil⟩
  | @cons s x box p hx _ ih =>
    exact ⟨.cons hx.1 ih.1, .cons (show x ≤ s.stop - 1 from Nat.le_sub_one_of_lt hx.2) ih.2⟩

theorem contains_corners (h : Contains box p) :
    Contains box (firstCorner box) ∧ Contains box (lastCorner box) := by
  induction h with
  | nil => exact ⟨.nil, .nil⟩
  | @cons s x box p hx _ ih =>
    have hlt : s.start < s.stop := Nat.lt_of_le_of_lt hx.1 hx.2
    refine ⟨.cons ⟨Nat.le_refl _, hlt⟩ ih.1, .cons ?_ ih.2⟩
    show s.start ≤ s.stop - 1 ∧ s.stop - 1 < s.stop
    omega

theorem place_mono (h : Forall₂ (· ≤ ·) p q) : place box p ≤ place box q := by
  refine linear_mono ?_
  induction h generalizing box with
  | nil => cases box <;> exact .nil
  | @cons x y p q hxy _ ih =>
    cases box with
    | nil => exact .nil
    | cons s box => exact .cons (Nat.sub_le_sub_right hxy _) ih

end Grid
