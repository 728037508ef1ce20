import Adios.Wire.Endian
import Adios.Wire.Parser

/-!
# Wire — signed words

A signed 32-bit integer in memory, and the same read back.
-/

namespace Wire

def cut32 (n : Int) : Int :=
  if n % 4294967296 < 2147483648 then n % 4294967296 else n % 4294967296 - 4294967296

theorem cut32_of_fits {n : Int} (hlo : -2147483648 ≤ n) (hhi : n < 2147483648) : cut32 n = n := by
  unfold cut32
  omega

theorem cut32_fits (n : Int) : -2147483648 ≤ cut32 n ∧ cut32 n < 2147483648 := by
  unfold cut32
  omega

namespace Endian

def i32 (e : Endian) (n : Int) : List UInt8 := e.bytes 4 (n % 4294967296).toNat

def toI32 (e : Endian) (bs : List UInt8) : Int := cut32 (e.nat bs)

@[simp] theorem length_i32 (e : Endian) (n : Int) : (e.i32 n).length = 4 := e.length_bytes 4 _

theorem toI32_i32 (e : Endian) (n : Int) : e.toI32 (e.i32 n) = cut32 n := by
  have hlt : (n % 4294967296).toNat < 256 ^ 4 := by
    show _ < 4294967296
    omega
  rw [toI32, i32, e.nat_bytes_of_lt hlt]
  unfold cut32
  omega

theorem toI32_i32_of_fits (e : Endian) {n : Int} (hlo : -2147483648 ≤ n) (hhi : n < 2147483648) :
    e.toI32 (e.i32 n) = n := by
  rw [toI32_i32, cut32_of_fits hlo hhi]

end Endian

namespace Parser

variable {ε α : Type}

def int32 (e : Endian) (fault : ε) : Parser ε Int := do
  let bs ← take fault 4
  return e.toI32 bs

def uint64 (e : Endian) (fault : ε) : Parser ε UInt64 := do
  let bs ← take fault 8
  return e.toU64 bs

theorem Parses.int32 (e : Endian) (fault : ε) {n : Int} (hlo : -2147483648 ≤ n)
    (hhi : n < 2147483648) : Parses (Parser.int32 e fault) (e.i32 n) n :=
  (Parses.take fault (e.length_i32 n)).bind_pure (e.toI32_i32_of_fits hlo hhi)

theorem Parses.uint64 (e : Endian) (fault : ε) (x : UInt64) :
    Parses (Parser.uint64 e fault) (e.u64 x) x :=
  (Parses.take fault (e.length_u64 x)).bind_pure (e.toU64_u64 x)

end Parser

end Wire
