import Mathlib.Tactic.Common

/-!
# Lists — shares

Some things in a row among some owners, each of which gets as many as the others or one more: the
first ones get one more.
-/

namespace Lists

open List

variable (n t : Nat)

def shareStart (i : Nat) : Nat := i * (n / t) + min i (n % t)

def shareSize (i : Nat) : Nat := if i < n % t then n / t + 1 else n / t

def shareOf (k : Nat) : Nat :=
  if k < (n / t + 1) * (n % t) then k / (n / t + 1)
  else n % t + (k - (n / t + 1) * (n % t)) / (n / t)

def placeInShare (k : Nat) : Nat :=
  if k < (n / t + 1) * (n % t) then k % (n / t + 1)
  else (k - (n / t + 1) * (n % t)) % (n / t)

variable {n t}

theorem sub_div_mul_eq_mod (n t : Nat) : n - n / t * t = n % t := by
  have hdiv := Nat.div_add_mod n t
  rw [Nat.mul_comm] at hdiv
  omega

theorem shareOf_eq_ite (n t k : Nat) : shareOf n t k =
    if n % t = 0 then k / (n / t)
    else if k < (n / t + 1) * (n % t) then k / (n / t + 1)
    else n % t + (k - (n / t + 1) * (n % t)) / (n / t) := by
  unfold shareOf
  by_cases hzero : n % t = 0
  · rw [if_pos hzero, hzero, Nat.mul_zero, if_neg (Nat.not_lt_zero k), Nat.zero_add, Nat.sub_zero]
  · rw [if_neg hzero]

theorem shareStart_zero : shareStart n t 0 = 0 := by
  rw [shareStart, Nat.zero_mul, Nat.zero_min]

theorem shareStart_succ (i : Nat) :
    shareStart n t (i + 1) = shareStart n t i + shareSize n t i := by
  unfold shareStart shareSize
  rw [Nat.succ_mul]
  split_ifs <;> omega

theorem shareStart_all (ht : 0 < t) : shareStart n t t = n := by
  have hmod := Nat.mod_lt n ht
  rw [shareStart, Nat.min_eq_right (by omega)]
  exact Nat.div_add_mod n t

theorem shareStart_mono {i j : Nat} (h : i ≤ j) : shareStart n t i ≤ shareStart n t j := by
  induction h with
  | refl => exact Nat.le_refl _
  | step _ ih =>
    rw [shareStart_succ]
    omega

theorem shareSize_pos (ht : 0 < t) (h : t ≤ n) (i : Nat) : 0 < shareSize n t i := by
  have hdiv : 0 < n / t := Nat.div_pos h ht
  unfold shareSize
  split_ifs <;> omega

theorem shareStart_of_le {i : Nat} (h : i ≤ n % t) : shareStart n t i = (n / t + 1) * i := by
  rw [shareStart, Nat.min_eq_left h, Nat.add_mul, Nat.one_mul, Nat.mul_comm]

theorem shareStart_of_ge {i : Nat} (h : n % t ≤ i) :
    shareStart n t i = (n / t + 1) * (n % t) + (n / t) * (i - n % t) := by
  obtain ⟨d, rfl⟩ := Nat.exists_eq_add_of_le h
  rw [shareStart, Nat.min_eq_right h, Nat.add_sub_cancel_left, Nat.add_mul, Nat.add_mul,
    Nat.one_mul, Nat.mul_comm (n % t), Nat.mul_comm d]
  omega

section

variable (ht : 0 < t) (hn : t ≤ n)

include ht hn

theorem shareOf_eq_iff {k i : Nat} :
    shareOf n t k = i ↔ shareStart n t i ≤ k ∧ k < shareStart n t (i + 1) := by
  have hdiv : 0 < n / t := Nat.div_pos hn ht
  -- a thing is in the share of its owner, and the shares do not overlap
  have hown : shareStart n t (shareOf n t k) ≤ k ∧ k < shareStart n t (shareOf n t k + 1) := by
    unfold shareOf
    split_ifs with hk
    · have hlt : k / (n / t + 1) < n % t := (Nat.div_lt_iff_lt_mul (Nat.succ_pos _)).mpr (by
        rw [Nat.mul_comm]
        exact hk)
      rw [shareStart_of_le (by omega), shareStart_of_le hlt]
      exact ⟨Nat.mul_div_le k _, Nat.lt_mul_div_succ k (by omega)⟩
    · have hle := Nat.mul_div_le (k - (n / t + 1) * (n % t)) (n / t)
      have hlt := Nat.lt_mul_div_succ (k - (n / t + 1) * (n % t)) hdiv
      rw [shareStart_of_ge (Nat.le_add_right _ _), Nat.add_assoc (n % t),
        shareStart_of_ge (Nat.le_add_right _ _), Nat.add_sub_cancel_left, Nat.add_sub_cancel_left]
      generalize (n / t) * ((k - (n / t + 1) * (n % t)) / (n / t)) = done at hle ⊢
      generalize (n / t) * ((k - (n / t + 1) * (n % t)) / (n / t) + 1) = next at hlt ⊢
      omega
  constructor
  · rintro rfl
    exact hown
  · rintro ⟨hle, hlt⟩
    rcases Nat.lt_trichotomy (shareOf n t k) i with h | h | h
    · have hmono : shareStart n t (shareOf n t k + 1) ≤ shareStart n t i := shareStart_mono h
      omega
    · exact h
    · have hmono : shareStart n t (i + 1) ≤ shareStart n t (shareOf n t k) := shareStart_mono h
      omega

theorem shareOf_lt {k : Nat} (hk : k < n) : shareOf n t k < t := by
  by_contra hge
  have hown := (shareOf_eq_iff ht hn).mp (rfl : shareOf n t k = shareOf n t k)
  have hmono := @shareStart_mono n t _ _ (Nat.not_lt.mp hge)
  rw [shareStart_all ht] at hmono
  omega

theorem shareStart_lt {i : Nat} (hi : i < t) : shareStart n t i < n := by
  have hmono : shareStart n t (i + 1) ≤ shareStart n t t := shareStart_mono hi
  have hpos := shareSize_pos ht hn i
  rw [shareStart_all ht, shareStart_succ] at hmono
  omega

theorem shareOf_start (i : Nat) : shareOf n t (shareStart n t i) = i := by
  have hpos := shareSize_pos ht hn i
  refine (shareOf_eq_iff ht hn).mpr ⟨Nat.le_refl _, ?_⟩
  rw [shareStart_succ]
  omega

end

theorem shareStart_add_place (k : Nat) :
    shareStart n t (shareOf n t k) + placeInShare n t k = k := by
  unfold shareOf placeInShare
  split_ifs with hk
  · have hlt : k / (n / t + 1) < n % t := (Nat.div_lt_iff_lt_mul (Nat.succ_pos _)).mpr (by
      rw [Nat.mul_comm]
      exact hk)
    rw [shareStart_of_le (Nat.le_of_lt hlt)]
    exact Nat.div_add_mod k _
  · have hmod := Nat.div_add_mod (k - (n / t + 1) * (n % t)) (n / t)
    rw [shareStart_of_ge (Nat.le_add_right _ _), Nat.add_sub_cancel_left, Nat.add_assoc, hmod]
    omega

theorem filter_shareOf_range {i : Nat} (ht : 0 < t) (hn : t ≤ n) (hi : i < t) :
    ((List.range n).filter fun k => shareOf n t k = i) =
      (List.range (shareSize n t i)).map (shareStart n t i + ·) := by
  have hend : shareStart n t i + shareSize n t i ≤ n := by
    have hmono : shareStart n t (i + 1) ≤ shareStart n t t := shareStart_mono hi
    rw [shareStart_all ht, shareStart_succ] at hmono
    exact hmono
  have hown := fun k => @shareOf_eq_iff n t ht hn k i
  rw [shareStart_succ] at hown
  generalize shareStart n t i = lo at hend hown ⊢
  generalize shareSize n t i = len at hend hown ⊢
  have hsplit : List.range n = List.range' 0 lo ++ (List.range' lo len ++
      List.range' (lo + len) (n - (lo + len))) := by
    have hall : n = lo + (len + (n - (lo + len))) := by omega
    have hrange := @range'_append_1 0 lo (len + (n - (lo + len)))
    rw [Nat.zero_add, ← hall] at hrange
    rw [range'_append_1, hrange, range_eq_range']
  have hbefore : (List.range' 0 lo).filter (fun k => shareOf n t k = i) = [] :=
    filter_eq_nil_iff.mpr fun k hk => by
      have hlt := (mem_range'_1.mp hk).2
      rw [decide_eq_true_eq, hown]
      omega
  have hin : (List.range' lo len).filter (fun k => shareOf n t k = i) = List.range' lo len :=
    filter_eq_self.mpr fun k hk => by
      have hmem := mem_range'_1.mp hk
      rw [decide_eq_true_eq, hown]
      exact hmem
  have hbehind :
      (List.range' (lo + len) (n - (lo + len))).filter (fun k => shareOf n t k = i) = [] :=
    filter_eq_nil_iff.mpr fun k hk => by
      have hle := (mem_range'_1.mp hk).1
      rw [decide_eq_true_eq, hown]
      omega
  rw [hsplit, filter_append, filter_append, hbefore, hin, hbehind, nil_append,
    append_nil, range'_eq_map_range]

theorem placeInShare_lt (ht : 0 < t) (hn : t ≤ n) (k : Nat) :
    placeInShare n t k < shareSize n t (shareOf n t k) := by
  have hown := ((shareOf_eq_iff ht hn).mp (rfl : shareOf n t k = shareOf n t k)).2
  rw [shareStart_succ] at hown
  have hplace := @shareStart_add_place n t k
  omega

theorem placeInShare_eq_ite (n t k : Nat) : placeInShare n t k =
    if n % t = 0 then k % (n / t)
    else if k < (n / t + 1) * (n % t) then k % (n / t + 1)
    else (k - (n / t + 1) * (n % t)) % (n / t) := by
  unfold placeInShare
  by_cases hzero : n % t = 0
  · rw [if_pos hzero, hzero, Nat.mul_zero, if_neg (Nat.not_lt_zero k), Nat.sub_zero]
  · rw [if_neg hzero]

/-! ## The things of an owner -/

variable {α : Type}

theorem map_filter_zipIdx (xs : List α) (lo hi i : Nat) :
    ((xs.zipIdx i).filter fun x => lo ≤ x.2 ∧ x.2 < hi).map Prod.fst =
      (xs.take (hi - i)).drop (lo - i) := by
  induction xs generalizing i with
  | nil => rw [take_nil, drop_nil]; rfl
  | cons x xs ih =>
    have hrest := ih (i + 1)
    rw [zipIdx_cons, filter_cons]
    by_cases hhi : i < hi
    · have htake : hi - i = hi - (i + 1) + 1 := by omega
      rw [htake, take_succ_cons]
      by_cases hlo : lo ≤ i
      · have hdrop : lo - i = 0 := by omega
        have hdrop' : lo - (i + 1) = 0 := by omega
        rw [if_pos (by simp [hlo, hhi]), map_cons, hrest, hdrop, hdrop']
        rfl
      · have hdrop : lo - i = lo - (i + 1) + 1 := by omega
        rw [if_neg (by simp [hlo]), hrest, hdrop, drop_succ_cons]
    · have htake : hi - i = 0 := by omega
      have htake' : hi - (i + 1) = 0 := by omega
      rw [htake'] at hrest
      rw [if_neg (by simp [hhi]), hrest, htake, take_zero, take_zero, drop_nil, drop_nil]

def share (t : Nat) (xs : List α) (i : Nat) : List α :=
  (xs.take (shareStart xs.length t (i + 1))).drop (shareStart xs.length t i)

theorem map_filter_shareOf (ht : 0 < t) {xs : List α} (hn : t ≤ xs.length) (i : Nat) :
    (xs.zipIdx.filter fun x => shareOf xs.length t x.2 = i).map Prod.fst = share t xs i := by
  have hown : (fun x : α × Nat => decide (shareOf xs.length t x.2 = i)) = fun x =>
      decide (shareStart xs.length t i ≤ x.2 ∧ x.2 < shareStart xs.length t (i + 1)) := by
    funext x
    exact decide_eq_decide.mpr (shareOf_eq_iff ht hn)
  rw [hown, map_filter_zipIdx, Nat.sub_zero, Nat.sub_zero]
  rfl

theorem length_share (ht : 0 < t) {xs : List α} {i : Nat} (hi : i < t) :
    (share t xs i).length = shareSize xs.length t i := by
  have hmono : shareStart xs.length t (i + 1) ≤ shareStart xs.length t t := shareStart_mono hi
  rw [shareStart_all ht] at hmono
  rw [share, length_drop, length_take, Nat.min_eq_left hmono, shareStart_succ]
  omega

theorem flatMap_filter_perm (f : α → Nat) (xs : List α) {n : Nat} (h : ∀ x ∈ xs, f x < n) :
    ((List.range n).flatMap fun i => xs.filter fun x => f x = i).Perm xs := by
  have hfirst : ∀ m, ((List.range m).flatMap fun i => xs.filter fun x => f x = i).Perm
      (xs.filter fun x => f x < m) := fun m => by
    induction m with
    | zero =>
      have hnone : (xs.filter fun x => f x < 0) = [] :=
        filter_eq_nil_iff.mpr fun x _ => by simp
      rw [hnone]
      exact .refl _
    | succ m ih =>
      have hsplit := filter_append_perm (fun x => decide (f x < m))
        (xs.filter fun x => f x < m + 1)
      rw [filter_filter, filter_filter] at hsplit
      have hlt : (xs.filter fun x => decide (f x < m) && decide (f x < m + 1)) =
          xs.filter fun x => f x < m := filter_congr fun x _ => by
        rw [← Bool.decide_and]
        exact decide_eq_decide.mpr (by omega)
      have heq : (xs.filter fun x => !decide (f x < m) && decide (f x < m + 1)) =
          xs.filter fun x => f x = m := filter_congr fun x _ => by
        rw [← decide_not, ← Bool.decide_and]
        exact decide_eq_decide.mpr (by omega)
      rw [hlt, heq] at hsplit
      rw [range_succ, flatMap_append, flatMap_singleton]
      exact (ih.append_right _).trans hsplit
  have hall : (xs.filter fun x => f x < n) = xs :=
    filter_eq_self.mpr fun x hx => decide_eq_true (h x hx)
  have hperm := hfirst n
  rw [hall] at hperm
  exact hperm

end Lists
