import Adios.Query.Bitmap
import Mathlib.Algebra.Order.Ring.Nat
import Mathlib.Data.List.Basic
import Mathlib.Data.Nat.Bitwise

/-!
# Adios — the bits that are set

What the tables say about 16 bits, and what the loops over words and quarters find: the elements
whose bits are set, in increasing order (`hits`).
-/

namespace Adios

open List

/-- The positions below `n` of the bits that are set. -/
def bitsBelow (n w : Nat) : List Nat := (List.range n).filter w.testBit

def hits (words : List UInt64) : List Nat :=
  (List.range (64 * words.length)).filter fun r => (words.getD (r / 64) 0).toNat.testBit (r % 64)

/-! ## Bits of a number -/

theorem bitsBelow_add (m n w : Nat) :
    bitsBelow (m + n) w = bitsBelow m w ++ (bitsBelow n (w / 2 ^ m)).map (m + ·) := by
  unfold bitsBelow
  rw [range_add, filter_append, filter_map]
  congr 2
  refine filter_congr fun k _ => ?_
  rw [Nat.testBit_div_two_pow, Function.comp_apply, Nat.add_comm]

theorem bitsBelow_mul (n m w : Nat) :
    bitsBelow (n * m) w =
      (List.range n).flatMap fun j => (bitsBelow m (w / 2 ^ (m * j))).map (j * m + ·) := by
  induction n with
  | zero => simp [bitsBelow]
  | succ n ih =>
    rw [Nat.succ_mul, bitsBelow_add, ih, range_succ, flatMap_append,
      flatMap_singleton, Nat.mul_comm n m]

theorem bitsBelow_mod (n w : Nat) : bitsBelow n (w % 2 ^ n) = bitsBelow n w := by
  refine filter_congr fun k hk => ?_
  rw [Nat.testBit_mod_two_pow, decide_eq_true (mem_range.mp hk), Bool.true_and]

theorem bitsBelow_succ (j w : Nat) :
    bitsBelow (j + 1) w = bitsBelow j w ++ if w.testBit j then [j] else [] := by
  unfold bitsBelow
  rw [range_succ, filter_append]
  congr 1
  cases h : w.testBit j <;> simp [h]

theorem length_bitsBelow_le (n w : Nat) : (bitsBelow n w).length ≤ n := by
  simpa [bitsBelow] using length_filter_le w.testBit (List.range n)

/-! ## Tables -/

theorem bitsInChar_eq : ∀ c < 256, bitsInChar c = (bitsBelow 8 c).length := by decide +kernel

theorem bitsInChar_mod (w : Nat) : bitsInChar (w % 256) = (bitsBelow 8 w).length := by
  have hbits : bitsBelow 8 (w % 256) = bitsBelow 8 w := bitsBelow_mod 8 w
  rw [bitsInChar_eq _ (Nat.mod_lt _ (by decide)), hbits]

theorem setBitCount_eq {i : Nat} (h : i < 2 ^ 16) : setBitCount i = (bitsBelow 16 i).length := by
  have hhigh : i / 2 ^ 16 = 0 ∧ i / 2 ^ 24 = 0 := by omega
  have hzero : bitsInChar 0 = 0 := by decide
  have hsplit : bitsBelow 16 i = bitsBelow 8 i ++ (bitsBelow 8 (i / 2 ^ 8)).map (8 + ·) :=
    bitsBelow_add 8 8 i
  unfold setBitCount
  rw [hhigh.1, hhigh.2, bitsInChar_mod, bitsInChar_mod, hsplit, length_append, length_map,
    Nat.zero_mod, hzero]
  rfl

theorem fillSetBitPosition_eq (i j : Nat) {row : List Nat}
    (h : (bitsBelow j i).length ≤ row.length) :
    fillSetBitPosition i j (bitsBelow j i).length row =
      .ok (bitsBelow j i ++ row.drop (bitsBelow j i).length) := by
  induction j generalizing row with
  | zero => rfl
  | succ j ih =>
    rw [bitsBelow_succ] at h ⊢
    cases hbit : i.testBit j with
    | true =>
      simp only [hbit, if_true, length_append, length_singleton] at h ⊢
      have hlt : (bitsBelow j i).length < row.length := h
      -- the position goes to the last free place, which the later positions leave alone
      have hset : (row.set (bitsBelow j i).length j).drop (bitsBelow j i).length =
          j :: row.drop ((bitsBelow j i).length + 1) := by
        rw [drop_eq_getElem_cons (by rwa [length_set]), getElem_set_self,
          drop_set_of_lt (Nat.lt_succ_self _)]
      simp only [fillSetBitPosition, hbit, if_true]
      rw [ih (by rw [length_set]; exact Nat.le_of_lt hlt), hset, append_assoc,
        singleton_append]
    | false =>
      simp only [hbit, Bool.false_eq_true, if_false, append_nil] at h ⊢
      cases hcount : (bitsBelow j i).length with
      | zero =>
        simpa only [fillSetBitPosition, hbit, hcount, Bool.false_eq_true, if_false] using ih h
      | succ n =>
        simpa only [fillSetBitPosition, hbit, hcount, Bool.false_eq_true, if_false] using ih h

theorem setBitPosition_eq {i : Nat} (h : i < 2 ^ 16) :
    ∃ row, setBitPosition i = .ok row ∧ row.take (setBitCount i) = bitsBelow 16 i := by
  unfold setBitPosition
  rw [setBitCount_eq h, fillSetBitPosition_eq i 16 (by simpa using length_bitsBelow_le 16 i)]
  exact ⟨_, rfl, take_left⟩

/-! ## Words -/

@[simp] theorem hits_nil : hits [] = [] := rfl

theorem hits_cons (word : UInt64) (words : List UInt64) :
    hits (word :: words) = bitsBelow 64 word.toNat ++ (hits words).map (64 + ·) := by
  have hlength : 64 * (word :: words).length = 64 + 64 * words.length := by
    rw [length_cons]
    omega
  have hfirst : (List.range 64).filter (fun r =>
      ((word :: words).getD (r / 64) 0).toNat.testBit (r % 64)) = bitsBelow 64 word.toNat := by
    refine filter_congr fun r hr => ?_
    have hsmall : r / 64 = 0 ∧ r % 64 = r := by
      have := mem_range.mp hr
      omega
    rw [hsmall.1, hsmall.2, getD_cons_zero]
  have hnext : ∀ r, (64 + r) / 64 = r / 64 + 1 ∧ (64 + r) % 64 = r % 64 := by omega
  unfold hits
  rw [hlength, range_add, filter_append, filter_map, hfirst]
  simp only [Function.comp_def, hnext, getD_cons_succ]

theorem pairwise_hits (words : List UInt64) : (hits words).Pairwise (· < ·) :=
  List.Pairwise.filter _ pairwise_lt_range

theorem hits_drop (words : List UInt64) (k : Nat) :
    (hits (words.drop k)).map (64 * k + ·) = (hits words).filter (64 * k ≤ ·) := by
  induction k generalizing words with
  | zero => simp
  | succ k ih =>
    cases words with
    | nil => rfl
    | cons word words =>
      have hword : (bitsBelow 64 word.toNat).filter (64 * (k + 1) ≤ ·) = [] := by
        refine filter_eq_nil_iff.mpr fun r hr => ?_
        have hlt : r < 64 := mem_range.mp (mem_of_mem_filter hr)
        simp only [decide_eq_true_eq]
        omega
      rw [drop_succ_cons, hits_cons, filter_append, hword, nil_append, filter_map]
      calc (hits (words.drop k)).map (64 * (k + 1) + ·)
          = ((hits (words.drop k)).map (64 * k + ·)).map (64 + ·) := by
            rw [map_map]
            refine map_congr_left fun r _ => ?_
            simp only [Function.comp_apply]
            omega
        _ = ((hits words).filter (64 * k ≤ ·)).map (64 + ·) := by rw [ih]
        _ = _ := by
            congr 1
            refine filter_congr fun r _ => ?_
            simp only [Function.comp_apply, decide_eq_decide]
            omega

/-! ## The loops over quarters and words -/

theorem ridsOfQuarter_eq (off : Nat) (word : UInt64) (j : Nat) :
    ridsOfQuarter off word j =
      .ok ((bitsBelow 16 (word.toNat / 2 ^ (16 * j))).map fun position =>
        UInt64.ofNat (off * 64 + j * 16 + position)) := by
  have hlt : word.toNat / 2 ^ (16 * j) % 2 ^ 16 < 2 ^ 16 := Nat.mod_lt _ (by decide)
  obtain ⟨row, hrow, htake⟩ := setBitPosition_eq hlt
  unfold ridsOfQuarter
  simp only [hrow, bind, Except.bind, pure, Except.pure]
  rw [htake, bitsBelow_mod]

theorem ridsFrom_eq (off : Nat) (words : List UInt64) :
    ridsFrom off words = .ok ((hits words).map fun r => UInt64.ofNat (64 * off + r)) := by
  induction words generalizing off with
  | nil => rfl
  | cons word words ih =>
    have hquarter : ridsOfQuarter off word = fun j => pure ((bitsBelow 16
        (word.toNat / 2 ^ (16 * j))).map fun position =>
          UInt64.ofNat (off * 64 + j * 16 + position)) :=
      funext fun j => ridsOfQuarter_eq off word j
    have hword : bitsBelow 64 word.toNat = (List.range 4).flatMap fun j =>
        (bitsBelow 16 (word.toNat / 2 ^ (16 * j))).map (j * 16 + ·) := bitsBelow_mul 4 16 word.toNat
    rw [ridsFrom, hquarter, mapM_pure, ih, hits_cons, hword]
    simp only [bind, Except.bind, pure, Except.pure, map_append, map_flatMap,
      map_map, ← flatMap_def]
    congr 2
    · refine flatMap_congr fun j _ => map_congr_left fun r _ => ?_
      rw [Function.comp_apply, Nat.mul_comm off, Nat.add_assoc]
    · refine map_congr_left fun r _ => ?_
      rw [Function.comp_apply, Nat.mul_succ, Nat.add_assoc]

theorem ridsFrom_drop (words : List UInt64) (off : Nat) :
    ridsFrom off (words.drop off) =
      .ok (((hits words).filter (64 * off ≤ ·)).map UInt64.ofNat) := by
  rw [ridsFrom_eq, ← hits_drop, map_map]
  rfl

theorem length_bitsBelow_word (w : Nat) :
    (bitsBelow 64 w).length =
    ((List.range 8).map fun k => bitsInChar (w / 2 ^ (8 * k) % 256)).sum := by
  have hbytes : bitsBelow 64 w = (List.range 8).flatMap fun j =>
      (bitsBelow 8 (w / 2 ^ (8 * j))).map (j * 8 + ·) := bitsBelow_mul 8 8 w
  rw [hbytes, length_flatMap]
  simp only [length_map, bitsInChar_mod]

theorem calSetBitsNum_eq (b : AlacBitmap) :
    calSetBitsNum b = UInt64.ofNat (hits b.words).length := by
  have hfold : ∀ (words : List UInt64) (total : UInt64),
      words.foldl (fun total word => total + UInt64.ofNat (((List.range 8).map fun k =>
        bitsInChar (word.toNat / 2 ^ (8 * k) % 256)).sum)) total =
      total + UInt64.ofNat (hits words).length := by
    intro words
    induction words with
    | nil => intro total; simp
    | cons word words ih =>
      intro total
      rw [foldl_cons, ih, hits_cons, ← length_bitsBelow_word, length_append,
        length_map, UInt64.ofNat_add, UInt64.add_assoc]
  rw [calSetBitsNum, hfold, UInt64.zero_add]

end Adios
