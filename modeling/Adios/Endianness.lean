import Adios.Types
import Adios.Wire.Endian
import Mathlib.Tactic.Ring

/-!
# Adios — byte swapping

`core/adios_endianness.c`: the swaps of 16-, 32-, 64- and 128-bit words, each written with its
own masks and shifts. The result of the file is that every one of them reverses the bytes of
its word in memory, on a machine of either byte order (`swapPtr_eq_reverse`), so that a
reader's `if (change_endianness) swap` undoes what a machine of the other byte order wrote.
-/

namespace Adios

open List Wire UInt64

/-! ## The four swaps -/

/-- The expression of `swap_16_ptr`. -/
def swap16 (d : UInt16) : UInt16 := d >>> 8 ||| d <<< 8

/-- The expression of `swap_32_ptr`. -/
def swap32 (d : UInt32) : UInt32 :=
  ((d &&& 0x000000FF) <<< 24) + ((d &&& 0x0000FF00) <<< 8)
    + ((d &&& 0x00FF0000) >>> 8) + ((d &&& 0xFF000000) >>> 24)

/-- The expression of `swap_64_ptr`, used twice by `swap_128_ptr`. -/
def swap64 (d : UInt64) : UInt64 :=
  ((d &&& 0x00000000000000FF) <<< 56) + ((d &&& 0x000000000000FF00) <<< 40)
    + ((d &&& 0x0000000000FF0000) <<< 24) + ((d &&& 0x00000000FF000000) <<< 8)
    + ((d &&& 0x000000FF00000000) >>> 8) + ((d &&& 0x0000FF0000000000) >>> 24)
    + ((d &&& 0x00FF000000000000) >>> 40) + ((d &&& 0xFF00000000000000) >>> 56)

section Ptr

variable (host : Endian)

/-- `swap_16_ptr` on the two bytes at `data`. -/
def swap16Ptr (data : List UInt8) : List UInt8 :=
  host.u16 (swap16 (host.toU16 data))

/-- `swap_32_ptr` -/
def swap32Ptr (data : List UInt8) : List UInt8 :=
  host.u32 (swap32 (host.toU32 data))

/-- `swap_64_ptr` -/
def swap64Ptr (data : List UInt8) : List UInt8 :=
  host.u64 (swap64 (host.toU64 data))

/-- `swap_128_ptr`: the two halves change places and each is swapped. -/
def swap128Ptr (data : List UInt8) : List UInt8 :=
  swap64Ptr host (data.drop 8) ++ swap64Ptr host (data.take 8)

/-- `swap_ptr`, with the size in bits; a size it does not know leaves the data as it is. -/
def swapPtr (data : List UInt8) (size : Nat) : List UInt8 :=
  if size = 16 then swap16Ptr host data
  else if size = 32 then swap32Ptr host data
  else if size = 64 then swap64Ptr host data
  else if size = 128 then swap128Ptr host data
  else data

/-- `swap_adios_type`: a complex number is swapped as one word of its size. -/
def swapAdiosType (data : List UInt8) (type : Datatype) : List UInt8 :=
  if type = .string then data
  else
    let size := getTypeSize type (some [])
    if size = 1 then data
    else if size = 2 then swap16Ptr host data
    else if size = 4 then swap32Ptr host data
    else if size = 8 then swap64Ptr host data
    else if size = 16 then swap128Ptr host data
    else data

end Ptr

/-! ## A swap reverses the bytes of its word -/

theorem and_byte_mask (d k : Nat) :
    d &&& (0xFF <<< (8 * k)) = d / 256 ^ k % 256 * 256 ^ k := by
  have hpow : (256 : Nat) ^ k = 2 ^ (8 * k) := by rw [Nat.pow_mul]
  have hmod : d >>> (8 * k) % 256 = d >>> (8 * k) &&& 0xFF :=
    (Nat.and_two_pow_sub_one_eq_mod _ 8).symm
  rw [hpow, ← Nat.shiftRight_eq_div_pow, ← Nat.shiftLeft_eq, hmod]
  apply Nat.eq_of_testBit_eq
  intro i
  simp only [Nat.testBit_and, Nat.testBit_shiftLeft, Nat.testBit_shiftRight]
  by_cases h : i ≥ 8 * k
  · simp [h, show 8 * k + (i - 8 * k) = i by omega]
  · simp [h]

theorem toNat_swap16 (d : UInt16) :
    (swap16 d).toNat = d.toNat % 256 * 256 + d.toNat / 256 := by
  have hd := d.toNat_lt
  have hor : d.toNat / 256 ||| d.toNat * 256 % 65536 = d.toNat % 256 * 256 + d.toNat / 256 := by
    rw [Nat.or_comm, show d.toNat * 256 % 65536 = (d.toNat % 256) <<< 8 by
      rw [Nat.shiftLeft_eq]; omega,
      ← Nat.shiftLeft_add_eq_or_of_lt (show d.toNat / 256 < 2 ^ 8 by omega), Nat.shiftLeft_eq]
  unfold swap16
  simp only [UInt16.toNat_or, UInt16.toNat_shiftLeft, UInt16.toNat_shiftRight, UInt16.reduceToNat,
    Nat.shiftLeft_eq, Nat.shiftRight_eq_div_pow, Nat.reduceMod, Nat.reducePow]
  exact hor

theorem toNat_swap32 (d : UInt32) :
    (swap32 d).toNat = d.toNat % 256 * 256 ^ 3 + d.toNat / 256 % 256 * 256 ^ 2
      + d.toNat / 256 ^ 2 % 256 * 256 + d.toNat / 256 ^ 3 % 256 := by
  have hd := d.toNat_lt
  have h0 : d.toNat &&& 0xFF = d.toNat % 256 := Nat.and_two_pow_sub_one_eq_mod _ 8
  have h1 : d.toNat &&& 0xFF00 = d.toNat / 256 % 256 * 256 := and_byte_mask d.toNat 1
  have h2 : d.toNat &&& 0xFF0000 = d.toNat / 256 ^ 2 % 256 * 256 ^ 2 := and_byte_mask d.toNat 2
  have h3 : d.toNat &&& 0xFF000000 = d.toNat / 256 ^ 3 % 256 * 256 ^ 3 :=
    and_byte_mask d.toNat 3
  unfold swap32
  simp only [UInt32.toNat_add, UInt32.toNat_and, UInt32.toNat_shiftLeft,
    UInt32.toNat_shiftRight, UInt32.reduceToNat, h0, h1, h2, h3, Nat.shiftLeft_eq,
    Nat.shiftRight_eq_div_pow, Nat.reduceMod, Nat.reducePow]
  omega

theorem toNat_swap64 (d : UInt64) :
    (swap64 d).toNat = d.toNat % 256 * 256 ^ 7 + d.toNat / 256 % 256 * 256 ^ 6
      + d.toNat / 256 ^ 2 % 256 * 256 ^ 5 + d.toNat / 256 ^ 3 % 256 * 256 ^ 4
      + d.toNat / 256 ^ 4 % 256 * 256 ^ 3 + d.toNat / 256 ^ 5 % 256 * 256 ^ 2
      + d.toNat / 256 ^ 6 % 256 * 256 + d.toNat / 256 ^ 7 % 256 := by
  have hd := d.toNat_lt
  have h0 : d.toNat &&& 0xFF = d.toNat % 256 := Nat.and_two_pow_sub_one_eq_mod _ 8
  have h1 : d.toNat &&& 0xFF00 = d.toNat / 256 % 256 * 256 := and_byte_mask d.toNat 1
  have h2 : d.toNat &&& 0xFF0000 = d.toNat / 256 ^ 2 % 256 * 256 ^ 2 := and_byte_mask d.toNat 2
  have h3 : d.toNat &&& 0xFF000000 = d.toNat / 256 ^ 3 % 256 * 256 ^ 3 :=
    and_byte_mask d.toNat 3
  have h4 : d.toNat &&& 0xFF00000000 = d.toNat / 256 ^ 4 % 256 * 256 ^ 4 :=
    and_byte_mask d.toNat 4
  have h5 : d.toNat &&& 0xFF0000000000 = d.toNat / 256 ^ 5 % 256 * 256 ^ 5 :=
    and_byte_mask d.toNat 5
  have h6 : d.toNat &&& 0xFF000000000000 = d.toNat / 256 ^ 6 % 256 * 256 ^ 6 :=
    and_byte_mask d.toNat 6
  have h7 : d.toNat &&& 0xFF00000000000000 = d.toNat / 256 ^ 7 % 256 * 256 ^ 7 :=
    and_byte_mask d.toNat 7
  unfold swap64
  simp only [UInt64.toNat_add, UInt64.toNat_and, UInt64.toNat_shiftLeft,
    UInt64.toNat_shiftRight, UInt64.reduceToNat, h0, h1, h2, h3, h4, h5, h6, h7,
    Nat.shiftLeft_eq, Nat.shiftRight_eq_div_pow, Nat.reduceMod, Nat.reducePow]
  omega

theorem bytes_eq_reverse_of_leBytes (host : Endian) {w a b : Nat}
    (h : leBytes w a = (leBytes w b).reverse) :
    host.bytes w a = (host.bytes w b).reverse := by
  cases host <;> simp [Endian.bytes, h]

theorem u16_swap16 (host : Endian) (d : UInt16) :
    host.u16 (swap16 d) = (host.u16 d).reverse := by
  apply bytes_eq_reverse_of_leBytes
  apply leNat_inj (by simp)
  have hd : d.toNat / 256 % 256 = d.toNat / 256 := Nat.mod_eq_of_lt (by have := d.toNat_lt; omega)
  have hlt : (swap16 d).toNat < 256 ^ 2 := (swap16 d).toNat_lt
  rw [leNat_leBytes, Nat.mod_eq_of_lt hlt, toNat_swap16]
  simp only [leBytes_succ, leBytes_zero, reverse_cons, reverse_nil, nil_append,
    cons_append, leNat_cons, leNat_nil, UInt8.toNat_ofNat', Nat.reducePow, hd]
  ring

theorem u32_swap32 (host : Endian) (d : UInt32) :
    host.u32 (swap32 d) = (host.u32 d).reverse := by
  apply bytes_eq_reverse_of_leBytes
  apply leNat_inj (by simp)
  have hlt : (swap32 d).toNat < 256 ^ 4 := (swap32 d).toNat_lt
  rw [leNat_leBytes, Nat.mod_eq_of_lt hlt, toNat_swap32]
  simp only [leBytes_succ, leBytes_zero, reverse_cons, reverse_nil, nil_append, cons_append,
    leNat_cons, leNat_nil, UInt8.toNat_ofNat', Nat.div_div_eq_div_mul, Nat.reduceMul, Nat.reducePow]
  ring

theorem u64_swap64 (host : Endian) (d : UInt64) :
    host.u64 (swap64 d) = (host.u64 d).reverse := by
  apply bytes_eq_reverse_of_leBytes
  apply leNat_inj (by simp)
  have hlt : (swap64 d).toNat < 256 ^ 8 := (swap64 d).toNat_lt
  rw [leNat_leBytes, Nat.mod_eq_of_lt hlt, toNat_swap64]
  simp only [leBytes_succ, leBytes_zero, reverse_cons, reverse_nil, nil_append, cons_append,
    leNat_cons, leNat_nil, UInt8.toNat_ofNat', Nat.div_div_eq_div_mul, Nat.reduceMul, Nat.reducePow]
  ring

theorem swap16_toU16_reverse (host : Endian) (d : UInt16) :
    swap16 (host.toU16 (host.u16 d).reverse) = d := by
  rw [← u16_swap16, Endian.toU16_u16]
  apply (host.toU16_u16 _).symm.trans
  rw [u16_swap16, u16_swap16, reverse_reverse, Endian.toU16_u16]

theorem swap32_toU32_reverse (host : Endian) (d : UInt32) :
    swap32 (host.toU32 (host.u32 d).reverse) = d := by
  rw [← u32_swap32, Endian.toU32_u32]
  apply (host.toU32_u32 _).symm.trans
  rw [u32_swap32, u32_swap32, reverse_reverse, Endian.toU32_u32]

theorem swap64_toU64_reverse (host : Endian) (d : UInt64) :
    swap64 (host.toU64 (host.u64 d).reverse) = d := by
  rw [← u64_swap64, Endian.toU64_u64]
  apply (host.toU64_u64 _).symm.trans
  rw [u64_swap64, u64_swap64, reverse_reverse, Endian.toU64_u64]

/-! ## Swapping memory -/

variable {data : List UInt8}

theorem swap16Ptr_eq_reverse (host : Endian) (h : data.length = 2) :
    swap16Ptr host data = data.reverse := by
  rw [swap16Ptr, u16_swap16, host.u16_toU16 h]

theorem swap32Ptr_eq_reverse (host : Endian) (h : data.length = 4) :
    swap32Ptr host data = data.reverse := by
  rw [swap32Ptr, u32_swap32, host.u32_toU32 h]

theorem swap64Ptr_eq_reverse (host : Endian) (h : data.length = 8) :
    swap64Ptr host data = data.reverse := by
  rw [swap64Ptr, u64_swap64, host.u64_toU64 h]

theorem swap128Ptr_eq_reverse (host : Endian) (h : data.length = 16) :
    swap128Ptr host data = data.reverse := by
  rw [swap128Ptr, swap64Ptr_eq_reverse host (by simp [h]), swap64Ptr_eq_reverse host (by simp [h]),
    ← reverse_append, take_append_drop]

/-- **`swap_ptr`** reverses a word of 1, 2, 4, 8 or 16 bytes. -/
theorem swapPtr_eq_reverse (host : Endian) (h : data.length ∈ [0, 1, 2, 4, 8, 16]) :
    swapPtr host data (data.length * 8) = data.reverse := by
  simp only [mem_cons, not_mem_nil, or_false] at h
  rcases h with h | h | h | h | h | h
  · obtain rfl := length_eq_zero_iff.mp h
    rfl
  · obtain ⟨b, rfl⟩ := length_eq_one_iff.mp h
    rfl
  · rw [h]; exact swap16Ptr_eq_reverse host h
  · rw [h]; exact swap32Ptr_eq_reverse host h
  · rw [h]; exact swap64Ptr_eq_reverse host h
  · rw [h]; exact swap128Ptr_eq_reverse host h

end Adios
