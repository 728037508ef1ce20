import Mathlib

/-!
# Numbers — doubles

The rationals that a double has, and the one that a rational is rounded to. The significand has 53
bits; the exponent is not bounded.
-/

namespace Doubles

def IsDouble (q : ℚ) : Prop := ∃ (n : ℕ) (e : ℤ), n < 9007199254740992 ∧ q = n * 2 ^ e

def ulp (q : ℚ) : ℚ := 2 ^ (Int.log 2 q - 52)

def roundEven (q : ℚ) : ℤ :=
  if q - ⌊q⌋ < 1 / 2 then ⌊q⌋
  else if 1 / 2 < q - ⌊q⌋ then ⌊q⌋ + 1
  else if ⌊q⌋ % 2 = 0 then ⌊q⌋
  else ⌊q⌋ + 1

def toDouble (q : ℚ) : ℚ := if q = 0 then 0 else roundEven (q / ulp q) * ulp q

theorem roundEven_intCast (n : ℤ) : roundEven n = n := by
  rw [roundEven, Int.floor_intCast, sub_self, if_pos (by norm_num)]

theorem ulp_pos (q : ℚ) : 0 < ulp q := zpow_pos (by norm_num) _

theorem exists_mul_ulp {q : ℚ} (h : IsDouble q) (hq : q ≠ 0) : ∃ n : ℕ, q = n * ulp q := by
  obtain ⟨n, e, hn, rfl⟩ := h
  have hn0 : 0 < n := Nat.pos_of_ne_zero fun hc => hq (by rw [hc, Nat.cast_zero, zero_mul])
  have hpos : (0 : ℚ) < n * 2 ^ e := mul_pos (Nat.cast_pos.mpr hn0) (zpow_pos (by norm_num) e)
  -- the significand has 53 bits, so the exponent of the distance is not above its own
  have hle : Int.log 2 ((n : ℚ) * 2 ^ e) - 52 ≤ e := by
    by_contra hc
    have hlog : e + 53 ≤ Int.log 2 ((n : ℚ) * 2 ^ e) := by omega
    have hlow : (2 : ℚ) ^ (e + 53) ≤ n * 2 ^ e :=
      (zpow_le_zpow_right₀ (by norm_num) hlog).trans
        (by exact_mod_cast Int.zpow_log_le_self (b := 2) (by norm_num) hpos)
    rw [zpow_add₀ (by norm_num), mul_comm] at hlow
    have hbits : (2 : ℚ) ^ (53 : ℤ) ≤ n := le_of_mul_le_mul_right hlow (zpow_pos (by norm_num) e)
    have hlt : (n : ℚ) < 9007199254740992 := by exact_mod_cast hn
    norm_num at hbits
    linarith
  obtain ⟨k, hk⟩ := Int.eq_ofNat_of_zero_le (sub_nonneg.mpr hle)
  refine ⟨n * 2 ^ k, ?_⟩
  have hexp : e = k + (Int.log 2 ((n : ℚ) * 2 ^ e) - 52) := by omega
  conv_lhs => rw [hexp, zpow_add₀ (by norm_num), zpow_natCast, ← mul_assoc]
  rw [Nat.cast_mul, Nat.cast_pow, Nat.cast_ofNat]
  rfl

theorem toDouble_of_isDouble {q : ℚ} (h : IsDouble q) : toDouble q = q := by
  unfold toDouble
  split
  · rename_i hq
    exact hq.symm
  · rename_i hq
    obtain ⟨n, hn⟩ := exists_mul_ulp h hq
    have hdiv : q / ulp q = ((n : ℤ) : ℚ) := by
      rw [div_eq_iff (ulp_pos q).ne']
      exact_mod_cast hn
    rw [hdiv, roundEven_intCast]
    exact_mod_cast hn.symm

theorem isDouble_natCast {n : ℕ} (h : n < 9007199254740992) : IsDouble n :=
  ⟨n, 0, h, by rw [zpow_zero, mul_one]⟩

end Doubles
