import Mathlib.Data.List.Basic
import Mathlib.Data.List.Destutter
import Mathlib.Tactic.Common

/-!
# Lists — one element taken out

When a list without its first element, or a list that is one longer, is the list without the
element at a place.
-/

namespace Lists

open List

variable {α : Type}

/-! ## Tails -/

theorem eq_tail_append_iff {xs : List α} {z : α} (hne : xs ≠ []) :
    xs = xs.tail ++ [z] ↔ ∀ x ∈ xs, x = z := by
  induction xs with
  | nil => exact absurd rfl hne
  | cons a xs ih =>
    cases xs with
    | nil => simp
    | cons b xs =>
      have hih := ih (cons_ne_nil b xs)
      rw [tail_cons, cons_append, List.cons.injEq]
      rw [tail_cons] at hih
      constructor
      · rintro ⟨rfl, hxs⟩
        have hall := hih.mp hxs
        exact forall_mem_cons.mpr ⟨hall a mem_cons_self, hall⟩
      · intro h
        obtain ⟨ha, hall⟩ := forall_mem_cons.mp h
        exact ⟨ha.trans (hall b mem_cons_self).symm, hih.mpr hall⟩

theorem eq_drop_append_replicate_iff {xs : List α} {k : Nat} {z : α} (hpos : 0 < k)
    (hk : k ≤ xs.length) : xs = xs.drop k ++ List.replicate k z ↔ ∀ x ∈ xs, x = z := by
  constructor
  · intro heq
    -- from the end of the list to its front, `k` places at a time
    have hget : ∀ n i, xs.length - i ≤ n → ∀ x, xs[i]? = some x → x = z := by
      intro n
      induction n with
      | zero =>
        intro i hi x hx
        have hlt := (List.getElem?_eq_some_iff.mp hx).1
        omega
      | succ n ih =>
        intro i hi x hx
        have hlt := (List.getElem?_eq_some_iff.mp hx).1
        rw [heq] at hx
        by_cases hlast : i < (xs.drop k).length
        · rw [getElem?_append_left hlast, getElem?_drop] at hx
          exact ih (k + i) (by omega) x hx
        · rw [getElem?_append_right (by omega), getElem?_replicate] at hx
          split_ifs at hx
          exact (Option.some.inj hx).symm
    intro x hx
    obtain ⟨i, hi⟩ := getElem?_of_mem hx
    exact hget xs.length i (Nat.sub_le _ _) x hi
  · intro hall
    have hxs : xs = List.replicate xs.length z := eq_replicate_of_mem hall
    rw [hxs, drop_replicate, replicate_append_replicate]
    congr 1
    omega

theorem tail_eq_dropLast_iff {xs : List α} :
    xs.tail = xs.dropLast ↔ ∀ x ∈ xs, ∀ y ∈ xs, x = y := by
  rcases eq_nil_or_concat xs with rfl | ⟨ys, z, rfl⟩
  · simp
  · rw [concat_eq_append, dropLast_concat]
    have hcancel : (ys ++ [z]).tail = ys ↔ ys ++ [z] = (ys ++ [z]).tail ++ [z] := by
      rw [append_cancel_right_eq]
      exact eq_comm
    rw [hcancel, eq_tail_append_iff (append_ne_nil_of_right_ne_nil _ (cons_ne_nil _ _))]
    have hz : z ∈ ys ++ [z] := mem_append_right _ (mem_singleton_self z)
    exact ⟨fun h x hx y hy => (h x hx).trans (h y hy).symm, fun h x hx => h x hx z hz⟩

theorem end_eq_end_iff {p q : Prop} [Decidable p] [Decidable q] {xs : List α} :
    (if p then xs.tail else xs.dropLast) = (if q then xs.tail else xs.dropLast) ↔
      (p ↔ q) ∨ ∀ x ∈ xs, ∀ y ∈ xs, x = y := by
  by_cases hp : p <;> by_cases hq : q
  · exact iff_of_true (by rw [if_pos hp, if_pos hq]) (.inl ⟨fun _ => hq, fun _ => hp⟩)
  · rw [if_pos hp, if_neg hq, tail_eq_dropLast_iff, or_iff_right fun h => hq (h.mp hp)]
  · rw [if_neg hp, if_pos hq, eq_comm, tail_eq_dropLast_iff, or_iff_right fun h => hp (h.mpr hq)]
  · exact iff_of_true (by rw [if_neg hp, if_neg hq]) (.inl ⟨fun h => absurd h hp, fun h => absurd h hq⟩)

/-- The first element goes instead of the one at `p`: they and those between are equal. -/
theorem tail_eq_eraseIdx_iff {xs : List α} {p : Nat} {x : α} (hx : xs[p]? = some x) :
    xs.tail = xs.eraseIdx p ↔ ∀ y ∈ xs.take (p + 1), y = x := by
  induction xs generalizing p with
  | nil => cases hx
  | cons a xs ih =>
    cases p with
    | zero =>
      obtain rfl := Option.some.inj hx
      simp
    | succ p =>
      rw [getElem?_cons_succ] at hx
      rw [tail_cons, eraseIdx_cons_succ, take_succ_cons, forall_mem_cons]
      cases xs with
      | nil => cases hx
      | cons b xs =>
        have hih := ih hx
        rw [tail_cons] at hih
        rw [List.cons.injEq, hih]
        constructor
        · rintro ⟨hb, hall⟩
          refine ⟨?_, hall⟩
          rw [← hb]
          exact hall b (by rw [take_succ_cons]; exact mem_cons_self)
        · rintro ⟨rfl, hall⟩
          exact ⟨hall b (by rw [take_succ_cons]; exact mem_cons_self), hall⟩

theorem eq_eraseIdx_append_iff {xs : List α} {p : Nat} {z : α} (hp : p < xs.length) :
    xs = xs.eraseIdx p ++ [z] ↔ ∀ x ∈ xs.drop p, x = z := by
  induction xs generalizing p with
  | nil => cases hp
  | cons a xs ih =>
    cases p with
    | zero => exact eq_tail_append_iff (cons_ne_nil a xs)
    | succ p =>
      rw [eraseIdx_cons_succ, cons_append, List.cons.injEq, drop_succ_cons,
        ← ih (Nat.lt_of_succ_lt_succ hp)]
      exact and_iff_right rfl

theorem notMem_eraseIdx_iff {xs : List α} {x : α} {p : Nat} :
    x ∉ xs.eraseIdx p ↔ ∀ i, xs[i]? = some x → i = p := by
  rw [mem_eraseIdx_iff_getElem?]
  constructor
  · intro h i hi
    by_contra hne
    exact h ⟨i, hne, hi⟩
  · rintro h ⟨i, hne, hi⟩
    exact hne (h i hi)

theorem reverse_eraseIdx {xs : List α} {p : Nat} (hp : p < xs.length) :
    (xs.eraseIdx p).reverse = xs.reverse.eraseIdx (xs.length - 1 - p) := by
  rw [eraseIdx_eq_take_drop_succ, eraseIdx_eq_take_drop_succ, reverse_append,
    take_reverse, drop_reverse]
  congr 3 <;> omega

section Shifted

variable {t : Prop} [Decidable t] {xs : List α} {z : α}

theorem shifted_eq_self_iff (h : t → ∃ x ∈ xs, x ≠ z) :
    (if t then xs.tail ++ [z] else xs) = xs ↔ ¬t := by
  constructor
  · intro heq ht
    obtain ⟨x, hx, hne⟩ := h ht
    rw [if_pos ht] at heq
    exact hne ((eq_tail_append_iff (ne_nil_of_mem hx)).mp heq.symm x hx)
  · intro ht
    rw [if_neg ht]

theorem shifted_eq_tail_iff (h : ¬t → ∃ x ∈ xs, x ≠ z) :
    (if t then xs.tail ++ [z] else xs) = xs.tail ++ [z] ↔ t := by
  constructor
  · intro heq
    by_contra ht
    obtain ⟨x, hx, hne⟩ := h ht
    rw [if_neg ht] at heq
    exact hne ((eq_tail_append_iff (ne_nil_of_mem hx)).mp heq x hx)
  · intro ht
    rw [if_pos ht]

theorem shifted_eq_eraseIdx_iff {p : Nat} {x : α} (hx : xs[p]? = some x) :
    (if t then xs.tail ++ [z] else xs) = xs.eraseIdx p ++ [z] ↔
      if t then ∀ y ∈ xs.take (p + 1), y = x else ∀ y ∈ xs.drop p, y = z := by
  by_cases ht : t
  · rw [if_pos ht, if_pos ht, append_cancel_right_eq]
    exact tail_eq_eraseIdx_iff hx
  · rw [if_neg ht, if_neg ht]
    exact eq_eraseIdx_append_iff (List.getElem?_eq_some_iff.mp hx).1

end Shifted

/-! ## Exchanges from both ends -/

def exchange (xs : List α) (i j : Nat) : List α :=
  match xs[i]?, xs[j]? with
  | some a, some b => (xs.set i b).set j a
  | _, _ => xs

theorem exchange_eq {xs : List α} {i j : Nat} {a b : α} (ha : xs[i]? = some a)
    (hb : xs[j]? = some b) : exchange xs i j = (xs.set i b).set j a := by
  rw [exchange, ha, hb]

def exchangeEnds (xs : List α) : Nat → List α
  | 0 => xs
  | k + 1 => exchange (exchangeEnds xs k) k (xs.length - 1 - k)

@[simp] theorem length_exchange (xs : List α) (i j : Nat) :
    (exchange xs i j).length = xs.length := by
  unfold exchange
  split <;> simp

@[simp] theorem length_exchangeEnds (xs : List α) (k : Nat) :
    (exchangeEnds xs k).length = xs.length := by
  induction k with
  | zero => rfl
  | succ k ih => rw [exchangeEnds, length_exchange, ih]

/-- After `k` rounds the first and the last `k` places are those of the reversed list. -/
theorem getElem?_exchangeEnds {xs : List α} {k : Nat} (hk : k ≤ xs.length / 2) {j : Nat}
    (hj : j < xs.length) :
    (exchangeEnds xs k)[j]? =
      if j < k ∨ xs.length - k ≤ j then xs[xs.length - 1 - j]? else xs[j]? := by
  induction k generalizing j with
  | zero => rw [exchangeEnds, if_neg (by omega)]
  | succ k ih =>
    have hlow := ih (by omega) (j := k) (by omega)
    have hhigh := ih (by omega) (j := xs.length - 1 - k) (by omega)
    -- neither of the two places has been reached before
    rw [if_neg (by omega)] at hlow hhigh
    obtain ⟨a, ha⟩ : ∃ a, xs[k]? = some a := ⟨_, getElem?_eq_getElem (by omega)⟩
    obtain ⟨b, hb⟩ : ∃ b, xs[xs.length - 1 - k]? = some b :=
      ⟨_, getElem?_eq_getElem (by omega)⟩
    have hrest := ih (by omega) hj
    rw [exchangeEnds, exchange_eq (hlow.trans ha) (hhigh.trans hb), getElem?_set, getElem?_set]
    simp only [length_set, length_exchangeEnds]
    by_cases hjhigh : xs.length - 1 - k = j
    · rw [if_pos hjhigh, if_pos (by omega), if_pos (Or.inr (by omega)), ← ha]
      congr 1
      omega
    · rw [if_neg hjhigh]
      by_cases hjlow : k = j
      · rw [if_pos hjlow, if_pos (by omega), if_pos (Or.inl (by omega)), ← hb, hjlow]
      · rw [if_neg hjlow, hrest]
        congr 1
        exact propext (by omega)

theorem exchangeEnds_half (xs : List α) : exchangeEnds xs (xs.length / 2) = xs.reverse := by
  apply ext_getElem?
  intro j
  by_cases hj : j < xs.length
  · rw [getElem?_exchangeEnds (Nat.le_refl _) hj, getElem?_reverse hj]
    split_ifs with h
    · rfl
    · -- the middle of a list of odd length
      congr 1
      omega
  · rw [getElem?_eq_none (by rw [length_exchangeEnds]; omega),
      getElem?_eq_none (by rw [length_reverse]; omega)]

end Lists
