import Adios.Query.FastBit

/-!
# Adios — positions in blocks and boxes

What the recursions over the dimensions compute, in terms of boxes with the slowest dimension first:
`getCoordinateFromBlock` gives the element at a position, `getPosInBox` its place in a box.
-/

namespace Adios.FastBit

open List UInt64

def spans (slices : List (UInt64 × UInt64)) : List Grid.Span :=
  slices.map fun s => ⟨s.1.toNat, s.2.toNat⟩

def layout (fortran : Bool) (b : BoundingBox) : List Grid.Span := (spans (slices fortran b)).reverse

variable {slices : List (UInt64 × UInt64)} {coordinates dims : List UInt64} {pos : UInt64}

theorem spans_cons (s : UInt64 × UInt64) (slices : List (UInt64 × UInt64)) :
    spans (s :: slices) = ⟨s.1.toNat, s.2.toNat⟩ :: spans slices := rfl

theorem spans_reverse_ne_nil (h : slices ≠ []) : (spans slices).reverse ≠ [] := by
  intro hnil
  rw [reverse_eq_nil_iff] at hnil
  exact h (map_eq_nil_iff.mp hnil)

/-! ## From positions to elements -/

theorem getCoordinateFromBlock_nil (pos : UInt64) :
    getCoordinateFromBlock [] pos = .error .outOfBounds := rfl

theorem getCoordinateFromBlock_cons (s : UInt64 × UInt64) (hne : slices ≠ []) (pos : UInt64) :
    getCoordinateFromBlock (s :: slices) pos =
      if s.2 = 0 then .error .divisionByZero
      else getCoordinateFromBlock slices ((pos - pos % s.2) / s.2) >>= fun coordinates =>
        .ok ((pos % s.2 + s.1) :: coordinates) := by
  cases slices with
  | nil => exact absurd rfl hne
  | cons s' slices => rfl

theorem stepUp_toNat {count : UInt64} (hcount : count ≠ 0) (pos : UInt64) :
    ((pos - pos % count) / count).toNat = pos.toNat / count.toNat := by
  have hpos : 0 < count.toNat := by
    have hne : count.toNat ≠ 0 := fun h => hcount (UInt64.toNat_inj.mp h)
    omega
  have hle : pos % count ≤ pos := by
    rw [le_iff_toNat_le, UInt64.toNat_mod]
    exact Nat.mod_le _ _
  have hdiv := Nat.div_add_mod pos.toNat count.toNat
  have hsub : pos.toNat - pos.toNat % count.toNat = count.toNat * (pos.toNat / count.toNat) := by
    omega
  rw [UInt64.toNat_div, UInt64.toNat_sub_of_le _ _ hle, UInt64.toNat_mod, hsub, Nat.mul_div_cancel_left _ hpos]

theorem getCoordinateFromBlock_of_ne_zero (hne : slices ≠ [])
    (hcount : ∀ s ∈ slices.dropLast, s.2 ≠ 0)
    (hstop : ∀ s ∈ slices, s.1.toNat + s.2.toNat < 18446744073709551616)
    (hpos : ∀ s ∈ slices, pos.toNat + s.1.toNat < 18446744073709551616) :
    ∃ coordinates, getCoordinateFromBlock slices pos = .ok coordinates ∧
      coordinates.map UInt64.toNat = (Grid.elementAt (spans slices).reverse pos.toNat).reverse := by
  induction slices generalizing pos with
  | nil => exact absurd rfl hne
  | cons s slices ih =>
    by_cases hlast : slices = []
    · subst hlast
      refine ⟨[pos + s.1], rfl, ?_⟩
      have hsum := hpos s mem_cons_self
      show [(pos + s.1).toNat] = [pos.toNat / 1 + s.1.toNat]
      rw [UInt64.toNat_add, Nat.mod_eq_of_lt hsum, Nat.div_one]
    · have hs : s.2 ≠ 0 := by
        refine hcount s ?_
        rw [dropLast_cons_of_ne_nil hlast]
        exact mem_cons_self
      have hup := stepUp_toNat hs pos
      have hle : pos.toNat / s.2.toNat ≤ pos.toNat := Nat.div_le_self _ _
      obtain ⟨coordinates, hrun, hmap⟩ := @ih ((pos - pos % s.2) / s.2) hlast
        (fun t ht => hcount t (by
          rw [dropLast_cons_of_ne_nil hlast]
          exact mem_cons_of_mem s ht))
        (fun t ht => hstop t (mem_cons_of_mem s ht))
        (fun t ht => by
          have hsum := hpos t (mem_cons_of_mem s ht)
          omega)
      refine ⟨(pos % s.2 + s.1) :: coordinates, ?_, ?_⟩
      · rw [getCoordinateFromBlock_cons s hlast, if_neg hs, hrun]
        rfl
      · have hfit := hstop s mem_cons_self
        have hpositive : 0 < s.2.toNat := by
          have hzero : s.2.toNat ≠ 0 := fun h => hs (UInt64.toNat_inj.mp h)
          omega
        have hrem := Nat.mod_lt pos.toNat hpositive
        rw [map_cons, hmap, hup, spans_cons, reverse_cons,
          Grid.elementAt_append_singleton (spans_reverse_ne_nil hlast), reverse_append,
          UInt64.toNat_add, UInt64.toNat_mod, Nat.mod_eq_of_lt (by omega)]
        rfl

theorem getCoordinateFromBlock_of_eq_zero (h : ∃ s ∈ slices.dropLast, s.2 = 0) (pos : UInt64) :
    ∃ e, getCoordinateFromBlock slices pos = .error e := by
  induction slices generalizing pos with
  | nil => simp at h
  | cons s slices ih =>
    have hne : slices ≠ [] := by
      rintro rfl
      simp at h
    rw [getCoordinateFromBlock_cons s hne]
    by_cases hs : s.2 = 0
    · exact ⟨_, if_pos hs⟩
    · rw [dropLast_cons_of_ne_nil hne] at h
      obtain ⟨t, ht, hzero⟩ := h
      have hrest : ∃ t ∈ slices.dropLast, t.2 = 0 := by
        cases ht with
        | head => exact absurd hzero hs
        | tail _ ht => exact ⟨t, ht, hzero⟩
      obtain ⟨e, he⟩ := ih hrest ((pos - pos % s.2) / s.2)
      exact ⟨e, by rw [if_neg hs, he]; rfl⟩

/-! ## From elements to places -/

theorem insideBox_iff (hlen : coordinates.length = slices.length)
    (hstop : ∀ s ∈ slices, s.1.toNat + s.2.toNat < 18446744073709551616) :
    insideBox slices coordinates = true ↔
      Grid.Contains (spans slices) (coordinates.map UInt64.toNat) := by
  induction slices generalizing coordinates with
  | nil =>
    rw [eq_nil_of_length_eq_zero hlen]
    exact iff_of_true rfl .nil
  | cons s slices ih =>
    cases coordinates with
    | nil => cases hlen
    | cons x coordinates =>
      have hsum : (s.2 + s.1).toNat = s.1.toNat + s.2.toNat := by
        have hfit := hstop s mem_cons_self
        rw [UInt64.toNat_add, Nat.mod_eq_of_lt (by omega), Nat.add_comm]
      have hhead : (!decide (x ≥ s.2 + s.1) && !decide (x < s.1)) = true ↔
          s.1.toNat ≤ x.toNat ∧ x.toNat < s.1.toNat + s.2.toNat := by
        rw [Bool.and_eq_true, Bool.not_eq_true', Bool.not_eq_true', decide_eq_false_iff_not,
          decide_eq_false_iff_not, ge_iff_le, le_iff_toNat_le, lt_iff_toNat_lt, hsum]
        omega
      have hrest := ih (Nat.succ.inj hlen) fun t ht => hstop t (mem_cons_of_mem s ht)
      rw [spans_cons, map_cons, Grid.contains_cons, ← hrest]
      show (_ && insideBox slices coordinates) = true ↔ _
      rw [Bool.and_eq_true]
      exact and_congr_left fun _ => hhead

theorem posInBox_cons (s : UInt64 × UInt64) (x : UInt64) (slices : List (UInt64 × UInt64))
    (coordinates : List UInt64) :
    posInBox (s :: slices) (x :: coordinates) = (x - s.1) + s.2 * posInBox slices coordinates := by
  cases slices with
  | nil =>
    cases coordinates with
    | nil =>
      show x - s.1 = x - s.1 + s.2 * 0
      rw [UInt64.mul_zero, UInt64.add_zero]
    | cons y coordinates => rfl
  | cons t slices => rfl

theorem posInBox_toNat (h : Grid.Contains (spans slices) (coordinates.map UInt64.toNat))
    (hsmall : Grid.volume (Grid.sizes (spans slices)) < 18446744073709551616) :
    (posInBox slices coordinates).toNat =
      Grid.place (spans slices).reverse (coordinates.map UInt64.toNat).reverse := by
  induction slices generalizing coordinates with
  | nil =>
    cases coordinates with
    | nil => rfl
    | cons x coordinates => cases h
  | cons s slices ih =>
    cases coordinates with
    | nil => cases h
    | cons x coordinates =>
      rw [spans_cons, map_cons, Grid.contains_cons] at h
      obtain ⟨⟨hstart, hstop⟩, hrest⟩ := h
      have hfirst : s.1.toNat ≤ x.toNat := hstart
      have hx : x.toNat - s.1.toNat < s.2.toNat := by
        have hcount : x.toNat < s.1.toNat + s.2.toNat := hstop
        omega
      have hvolume : Grid.volume (Grid.sizes (spans (s :: slices))) =
          s.2.toNat * Grid.volume (Grid.sizes (spans slices)) := rfl
      rw [hvolume] at hsmall
      have hrestSmall : Grid.volume (Grid.sizes (spans slices)) < 18446744073709551616 :=
        Nat.lt_of_le_of_lt (Nat.le_mul_of_pos_left _ (Nat.zero_lt_of_lt hx)) hsmall
      have hrec := ih hrest hrestSmall
      have hlen := Grid.length_of_contains hrest
      have hplace : Grid.place (spans slices).reverse (coordinates.map UInt64.toNat).reverse <
          Grid.volume (Grid.sizes (spans slices)) := by
        have hlt := Grid.place_lt (forall₂_reverse_iff.mpr hrest)
        rwa [Grid.sizes, map_reverse, Grid.volume_reverse] at hlt
      rw [posInBox_cons, spans_cons, reverse_cons, map_cons, reverse_cons,
        Grid.place_append_singleton (by rw [length_reverse, length_reverse, hlen]), ← hrec]
      rw [← hrec] at hplace
      generalize posInBox slices coordinates = r at hplace
      -- the sum is below the volume
      have htotal : r.toNat * s.2.toNat + (x.toNat - s.1.toNat) <
          s.2.toNat * Grid.volume (Grid.sizes (spans slices)) := by
        calc r.toNat * s.2.toNat + (x.toNat - s.1.toNat) < r.toNat * s.2.toNat + s.2.toNat := by
              omega
          _ = (r.toNat + 1) * s.2.toNat := (Nat.succ_mul _ _).symm
          _ ≤ Grid.volume (Grid.sizes (spans slices)) * s.2.toNat := Nat.mul_le_mul_right _ hplace
          _ = _ := Nat.mul_comm _ _
      have hle : s.1 ≤ x := le_iff_toNat_le.mpr hstart
      have hmul : (s.2 * r).toNat = r.toNat * s.2.toNat := by
        rw [UInt64.toNat_mul, Nat.mul_comm s.2.toNat]
        exact Nat.mod_eq_of_lt (by omega)
      rw [UInt64.toNat_add, UInt64.toNat_sub_of_le _ _ hle, hmul]
      show (x.toNat - s.1.toNat + r.toNat * s.2.toNat) % 18446744073709551616 =
        r.toNat * s.2.toNat + (x.toNat - s.1.toNat)
      rw [Nat.mod_eq_of_lt (by omega), Nat.add_comm]

theorem posInVariable_cons (d x : UInt64) (dims coordinates : List UInt64) :
    posInVariable (d :: dims) (x :: coordinates) = x + d * posInVariable dims coordinates := by
  cases dims with
  | nil =>
    cases coordinates with
    | nil =>
      show x = x + d * 0
      rw [UInt64.mul_zero, UInt64.add_zero]
    | cons y coordinates => rfl
  | cons d' dims => rfl

theorem posInVariable_toNat (hlen : coordinates.length = dims.length) :
    (posInVariable dims coordinates).toNat =
      Grid.linear (dims.map UInt64.toNat).reverse (coordinates.map UInt64.toNat).reverse %
        18446744073709551616 := by
  induction dims generalizing coordinates with
  | nil =>
    rw [eq_nil_of_length_eq_zero hlen]
    rfl
  | cons d dims ih =>
    cases coordinates with
    | nil => cases hlen
    | cons x coordinates =>
      have hlen' := Nat.succ.inj hlen
      rw [posInVariable_cons, map_cons, map_cons, reverse_cons, reverse_cons,
        Grid.linear_append_singleton (by simpa using hlen'), UInt64.toNat_add, UInt64.toNat_mul, ih hlen']
      generalize Grid.linear (dims.map UInt64.toNat).reverse
        (coordinates.map UInt64.toNat).reverse = r
      show (x.toNat + d.toNat * (r % 18446744073709551616) % 18446744073709551616) %
        18446744073709551616 = (r * d.toNat + x.toNat) % 18446744073709551616
      rw [Nat.mul_comm r, Nat.add_mod_mod, Nat.add_comm x.toNat, Nat.add_mod, Nat.mul_mod_mod,
        ← Nat.add_mod]

theorem toInt64_of_lt {x : UInt64} (h : x.toNat < 9223372036854775808) : toInt64 x = x.toNat :=
  if_pos (lt_iff_toNat_lt.mpr h)

end Adios.FastBit
