import Mathlib.Algebra.Order.Ring.Nat
import Mathlib.Data.List.Basic
import Mathlib.Data.List.Forall2
import Mathlib.Tactic.Common

/-!
# Grid — the elements of an array in their linear order

An array of the shape `dims` has `volume dims` elements. `linear dims p` is the place of the
element with the coordinates `p` when the last coordinate runs fastest, and `coords dims n` are the
coordinates of the element at place `n`. `increment` counts the coordinates up.
-/

namespace Grid

open List

def volume : List Nat → Nat
  | [] => 1
  | d :: dims => d * volume dims

abbrev Within (p dims : List Nat) : Prop := Forall₂ (· < ·) p dims

def linear : List Nat → List Nat → Nat
  | _ :: dims, i :: p => i * volume dims + linear dims p
  | _, _ => 0

def coords : List Nat → Nat → List Nat
  | [], _ => []
  | _ :: dims, n => n / volume dims :: coords dims (n % volume dims)

@[simp] theorem volume_nil : volume [] = 1 := rfl

@[simp] theorem volume_cons (d : Nat) (dims : List Nat) : volume (d :: dims) = d * volume dims :=
  rfl

theorem volume_append (dims dims' : List Nat) :
    volume (dims ++ dims') = volume dims * volume dims' := by
  induction dims with
  | nil => simp
  | cons d dims ih => rw [cons_append, volume_cons, volume_cons, ih, Nat.mul_assoc]

variable {dims dims' p q : List Nat} {n : Nat}

theorem volume_mono (h : Forall₂ (· ≤ ·) dims dims') :
    volume dims ≤ volume dims' := by
  induction h with
  | nil => exact Nat.le_refl 1
  | cons hd _ ih => exact Nat.mul_le_mul hd ih

theorem volume_reverse (dims : List Nat) : volume dims.reverse = volume dims := by
  induction dims with
  | nil => rfl
  | cons d dims ih =>
    rw [reverse_cons, volume_append, ih, volume_cons, volume_cons, volume_nil, Nat.mul_one,
      Nat.mul_comm]

theorem volume_pos_of_within (h : Within p dims) : 0 < volume dims := by
  induction h with
  | nil => decide
  | cons hlt _ ih => exact Nat.mul_pos (Nat.lt_of_le_of_lt (Nat.zero_le _) hlt) ih

theorem pos_of_volume_pos (h : 0 < volume dims) : ∀ d ∈ dims, 0 < d := by
  induction dims with
  | nil => simp
  | cons d dims ih =>
    rw [volume_cons] at h
    intro d' hd'
    cases hd' with
    | head => exact Nat.pos_of_mul_pos_right h
    | tail _ hd' => exact ih (Nat.pos_of_mul_pos_left h) d' hd'

theorem volume_pos (h : ∀ d ∈ dims, 0 < d) : 0 < volume dims := by
  induction dims with
  | nil => decide
  | cons d dims ih =>
    exact Nat.mul_pos (h d mem_cons_self) (ih fun d' hd' => h d' (mem_cons_of_mem d hd'))

theorem le_volume (h : 0 < volume dims) : ∀ d ∈ dims, d ≤ volume dims := by
  induction dims with
  | nil => simp
  | cons d dims ih =>
    rw [volume_cons] at h ⊢
    have hrest : 0 < volume dims := Nat.pos_of_mul_pos_left h
    intro d' hd'
    cases hd' with
    | head => exact Nat.le_mul_of_pos_right _ hrest
    | tail _ hd' =>
      exact Nat.le_trans (ih hrest d' hd') (Nat.le_mul_of_pos_left _ (Nat.pos_of_mul_pos_right h))

theorem linear_lt (h : Within p dims) : linear dims p < volume dims := by
  induction h with
  | nil => decide
  | @cons i d p dims hlt hp ih =>
    rw [linear, volume_cons]
    calc i * volume dims + linear dims p < i * volume dims + volume dims := by omega
      _ = (i + 1) * volume dims := (Nat.succ_mul i _).symm
      _ ≤ d * volume dims := Nat.mul_le_mul_right _ hlt

theorem coords_linear (h : Within p dims) :
    coords dims (linear dims p) = p := by
  induction h with
  | nil => rfl
  | @cons i d p dims hlt hp ih =>
    have hpos := volume_pos_of_within hp
    have hsmall := linear_lt hp
    rw [linear, coords, Nat.add_comm, Nat.add_mul_div_right _ _ hpos, Nat.div_eq_of_lt hsmall,
      Nat.add_mul_mod_self_right, Nat.mod_eq_of_lt hsmall, ih, Nat.zero_add]

theorem within_coords (h : n < volume dims) :
    Within (coords dims n) dims := by
  induction dims generalizing n with
  | nil => exact .nil
  | cons d dims ih =>
    rw [volume_cons] at h
    have hpos : 0 < volume dims := Nat.pos_of_mul_pos_left (Nat.lt_of_le_of_lt (Nat.zero_le n) h)
    refine .cons ?_ (ih (Nat.mod_lt n hpos))
    exact (Nat.div_lt_iff_lt_mul hpos).mpr h

theorem linear_coords (h : n < volume dims) :
    linear dims (coords dims n) = n := by
  induction dims generalizing n with
  | nil =>
    have hzero : n = 0 := Nat.lt_one_iff.mp h
    rw [hzero]
    rfl
  | cons d dims ih =>
    rw [volume_cons] at h
    have hpos : 0 < volume dims := Nat.pos_of_mul_pos_left (Nat.lt_of_le_of_lt (Nat.zero_le n) h)
    rw [coords, linear, ih (Nat.mod_lt n hpos), Nat.mul_comm]
    exact Nat.div_add_mod n _

theorem linear_injective (hp : Within p dims) (hq : Within q dims)
    (h : linear dims p = linear dims q) : p = q := by
  rw [← coords_linear hp, h, coords_linear hq]

@[simp] theorem length_coords (dims : List Nat) (n : Nat) :
    (coords dims n).length = dims.length := by
  induction dims generalizing n with
  | nil => rfl
  | cons d dims ih => rw [coords, length_cons, ih, length_cons]

/-! ## Coordinates peeled off one after the other -/

def digits : List Nat → Nat → List Nat
  | [], _ => []
  | d :: dims, n => n % d :: digits dims (n / d)

theorem digits_append_singleton (dims : List Nat) (d n : Nat) :
    digits (dims ++ [d]) n = digits dims n ++ [n / volume dims % d] := by
  induction dims generalizing n with
  | nil => simp [digits]
  | cons d' dims ih =>
    rw [cons_append, digits, digits, ih, Nat.div_div_eq_div_mul, volume_cons]
    rfl

theorem digits_mod (dims : List Nat) (n : Nat) : digits dims (n % volume dims) = digits dims n := by
  induction dims generalizing n with
  | nil => rfl
  | cons d dims ih =>
    have hdiv : n % (d * volume dims) / d = n / d % volume dims := Nat.mod_mul_right_div_self n d _
    have hmod : n % (d * volume dims) % d = n % d := Nat.mod_mul_right_mod n d _
    rw [volume_cons, digits, digits, hdiv, hmod, ih]

theorem coords_append_singleton (hne : dims ≠ []) (d n : Nat) :
    coords (dims ++ [d]) n = coords dims (n / d) ++ [n % d] := by
  induction dims generalizing n with
  | nil => exact absurd rfl hne
  | cons d' dims ih =>
    have hvolume : volume (dims ++ [d]) = volume dims * d := by
      rw [volume_append, volume_cons, volume_nil, Nat.mul_one]
    have hfirst : n / (volume dims * d) = n / d / volume dims := by
      rw [Nat.div_div_eq_div_mul, Nat.mul_comm d]
    rw [cons_append, coords, coords, hvolume, hfirst]
    by_cases hdims : dims = []
    · subst hdims
      show [_, n % (1 * d) / 1] = _
      rw [Nat.one_mul, Nat.div_one]
      rfl
    · have hrest : n % (volume dims * d) / d = n / d % volume dims := by
        rw [Nat.mul_comm]
        exact Nat.mod_mul_right_div_self n d _
      have hlast : n % (volume dims * d) % d = n % d := by
        rw [Nat.mul_comm]
        exact Nat.mod_mul_right_mod n d _
      rw [ih hdims, hrest, hlast, cons_append]

theorem linear_append_singleton (hlen : p.length = dims.length) (i d : Nat) :
    linear (dims ++ [d]) (p ++ [i]) = linear dims p * d + i := by
  induction dims generalizing p with
  | nil =>
    rw [eq_nil_of_length_eq_zero hlen]
    show i * 1 + 0 = 0 * d + i
    omega
  | cons d' dims ih =>
    cases p with
    | nil => cases hlen
    | cons x p =>
      rw [cons_append, cons_append, linear, linear, ih (Nat.succ.inj hlen), volume_append,
        volume_cons, volume_nil, Nat.mul_one, Nat.add_mul, Nat.mul_assoc, Nat.add_assoc]

theorem linear_append (hlen : p.length = dims.length) (p' dims' : List Nat) :
    linear (dims ++ dims') (p ++ p') = linear dims p * volume dims' + linear dims' p' := by
  induction dims generalizing p with
  | nil =>
    rw [eq_nil_of_length_eq_zero hlen]
    show linear dims' p' = 0 * volume dims' + _
    omega
  | cons d dims ih =>
    cases p with
    | nil => cases hlen
    | cons x p =>
      rw [cons_append, cons_append, linear, linear, ih (Nat.succ.inj hlen),
        volume_append, Nat.add_mul, Nat.mul_assoc, Nat.add_assoc]

theorem linear_zipWith_add (hp : p.length = dims.length) (hq : q.length = dims.length) :
    linear dims (List.zipWith (· + ·) p q) = linear dims p + linear dims q := by
  induction dims generalizing p q with
  | nil => rfl
  | cons d dims ih =>
    match p, q, hp, hq with
    | x :: p, y :: q, hp, hq =>
      rw [zipWith_cons_cons, linear, linear, linear, ih (Nat.succ.inj hp) (Nat.succ.inj hq),
        Nat.add_mul]
      omega

theorem within_append (hp : Within p dims) (hq : Within q dims') :
    Within (p ++ q) (dims ++ dims') := by
  induction hp with
  | nil => exact hq
  | cons hx _ ih => exact .cons hx ih

theorem exists_of_within_append (h : Within p (dims ++ dims')) :
    ∃ q r, p = q ++ r ∧ Within q dims ∧ Within r dims' := by
  induction dims generalizing p with
  | nil => exact ⟨[], p, rfl, .nil, h⟩
  | cons d dims ih =>
    cases h with
    | @cons x _ p _ hx h =>
      obtain ⟨q, r, rfl, hq, hr⟩ := ih h
      exact ⟨x :: q, r, rfl, .cons hx hq, hr⟩

theorem linear_mono (h : Forall₂ (· ≤ ·) p q) :
    linear dims p ≤ linear dims q := by
  induction h generalizing dims with
  | nil => exact Nat.le_refl _
  | @cons i j p q hij _ ih =>
    cases dims with
    | nil => exact Nat.le_refl _
    | cons d dims => exact Nat.add_le_add (Nat.mul_le_mul_right _ hij) ih

theorem linear_replicate_zero (dims : List Nat) (n : Nat) :
    linear dims (List.replicate n 0) = 0 := by
  induction dims generalizing n with
  | nil => cases n <;> rfl
  | cons d dims ih =>
    cases n with
    | zero => rfl
    | succ n =>
      show 0 * volume dims + linear dims (List.replicate n 0) = 0
      rw [ih, Nat.zero_mul]

theorem linear_le_of_dims (h : Forall₂ (· ≤ ·) dims dims') (p : List Nat) :
    linear dims p ≤ linear dims' p := by
  induction h generalizing p with
  | nil => exact Nat.le_refl _
  | cons _ hrest ih =>
    cases p with
    | nil => exact Nat.le_refl _
    | cons i p => exact Nat.add_le_add (Nat.mul_le_mul_left i (volume_mono hrest)) (ih p)

theorem linear_le (hpos : ∀ d ∈ dims, 0 < d) (p : List Nat) :
    linear dims p ≤ p.sum * volume dims := by
  induction dims generalizing p with
  | nil => exact Nat.zero_le _
  | cons d dims ih =>
    cases p with
    | nil => exact Nat.zero_le _
    | cons i p =>
      have hd : volume dims ≤ d * volume dims :=
        Nat.le_mul_of_pos_left _ (hpos d mem_cons_self)
      have hrest := ih (fun d' hd' => hpos d' (mem_cons_of_mem d hd')) p
      calc i * volume dims + linear dims p ≤ i * volume dims + p.sum * volume dims := by omega
        _ = (i + p.sum) * volume dims := (Nat.add_mul _ _ _).symm
        _ ≤ (i + p.sum) * (d * volume dims) := Nat.mul_le_mul_left _ hd
        _ = (i :: p).sum * volume (d :: dims) := by rw [sum_cons, volume_cons]

theorem add_le_mul_add_one {m n : Nat} (hm : 0 < m) (hn : 0 < n) : m + n ≤ m * n + 1 := by
  obtain ⟨m', rfl⟩ : ∃ m', m = m' + 1 := ⟨m - 1, by omega⟩
  obtain ⟨n', rfl⟩ : ∃ n', n = n' + 1 := ⟨n - 1, by omega⟩
  rw [Nat.mul_succ, Nat.succ_mul]
  omega

theorem sum_lt_volume (h : Within p dims) : p.sum < volume dims := by
  induction h with
  | nil => decide
  | @cons i d p dims hlt hp ih =>
    rw [sum_cons, volume_cons]
    have hmul := add_le_mul_add_one (Nat.zero_lt_of_lt hlt) (volume_pos_of_within hp)
    omega

theorem coords_eq_digits (h : n < volume dims) :
    coords dims n = (digits dims.reverse n).reverse := by
  induction dims generalizing n with
  | nil => rfl
  | cons d dims ih =>
    rw [volume_cons] at h
    have hpos : 0 < volume dims := Nat.pos_of_mul_pos_left (Nat.lt_of_le_of_lt (Nat.zero_le n) h)
    have hfirst : n / volume dims < d := (Nat.div_lt_iff_lt_mul hpos).mpr h
    have hrest : digits dims.reverse (n % volume dims) = digits dims.reverse n := by
      rw [← volume_reverse dims, digits_mod]
    rw [coords, ih (Nat.mod_lt n hpos), hrest, reverse_cons, digits_append_singleton,
      reverse_append, volume_reverse, Nat.mod_eq_of_lt hfirst]
    rfl

/-! ## Coordinates counted up -/

/-- The coordinates of the next element, with the last coordinate first, and whether there is one;
behind the last element all coordinates are 0 again. -/
def increment : List Nat → List Nat → Bool × List Nat
  | d :: dims, i :: p =>
    let (more, p) := increment dims p
    if more then (true, i :: p)
    else if i + 1 < d then (true, (i + 1) :: p)
    else (false, 0 :: p)
  | _, _ => (false, [])

theorem coords_zero (dims : List Nat) : coords dims 0 = List.replicate dims.length 0 := by
  induction dims with
  | nil => rfl
  | cons d dims ih => rw [coords, Nat.zero_div, Nat.zero_mod, ih, length_cons, replicate_succ]

theorem coords_cons_add {r : Nat} (d q : Nat) (hr : r < volume dims) :
    coords (d :: dims) (volume dims * q + r) = q :: coords dims r := by
  rw [coords, Nat.mul_add_div (Nat.zero_lt_of_lt hr), Nat.mul_add_mod, Nat.div_eq_of_lt hr,
    Nat.mod_eq_of_lt hr, Nat.add_zero]

theorem increment_coords (h : n < volume dims) :
    increment dims (coords dims n) =
      if n + 1 < volume dims then (true, coords dims (n + 1)) else (false, coords dims 0) := by
  induction dims generalizing n with
  | nil =>
    have hn : n = 0 := Nat.lt_one_iff.mp h
    rw [hn]
    rfl
  | cons d dims ih =>
    rw [volume_cons] at h ⊢
    have hpos : 0 < volume dims := Nat.pos_of_mul_pos_left (Nat.lt_of_le_of_lt (Nat.zero_le n) h)
    have hrem := Nat.mod_lt n hpos
    have hquot : n / volume dims < d := (Nat.div_lt_iff_lt_mul hpos).mpr h
    obtain ⟨q, hq⟩ : ∃ q, n / volume dims = q := ⟨_, rfl⟩
    obtain ⟨r, hr⟩ : ∃ r, n % volume dims = r := ⟨_, rfl⟩
    have hn : n = volume dims * q + r := by rw [← hq, ← hr, Nat.div_add_mod]
    rw [hr] at hrem
    rw [hq] at hquot
    have hle : (q + 1) * volume dims ≤ d * volume dims := Nat.mul_le_mul_right _ hquot
    have hsucc : (q + 1) * volume dims = volume dims * q + volume dims := by
      rw [Nat.succ_mul, Nat.mul_comm]
    subst hn
    rw [coords_cons_add d q hrem, increment, ih hrem]
    by_cases hlast : r + 1 < volume dims
    · -- the fast coordinates go on
      have hlt : volume dims * q + r + 1 < d * volume dims := by omega
      rw [if_pos hlast, if_pos hlt, Nat.add_assoc, coords_cons_add d q hlast]
      rfl
    · have hnext : volume dims * q + r + 1 = (q + 1) * volume dims := by omega
      rw [if_neg hlast, hnext]
      by_cases hcarry : q + 1 < d
      · have hlt := Nat.mul_lt_mul_of_pos_right hcarry hpos
        have hcoords := coords_cons_add d (q + 1) hpos
        rw [Nat.add_zero, Nat.mul_comm] at hcoords
        rw [if_pos hlt, hcoords]
        exact if_pos hcarry
      · have heq : q + 1 = d := by omega
        rw [heq, if_neg (Nat.lt_irrefl _), coords, Nat.zero_div, Nat.zero_mod]
        exact if_neg (Nat.lt_irrefl d)

end Grid
