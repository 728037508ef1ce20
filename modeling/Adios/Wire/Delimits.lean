import Adios.Wire.Endian
import Adios.Wire.Memory

/-!
# Wire — lengths in front of what they count

A word of a buffer *delimits* what is behind it when it holds the number of bytes from its own end
to the cursor. It can have been filled in afterwards, or written in front.
-/

namespace Wire

open List

theorem Mem.read_write_mid (m : Mem) (o : Nat) (x y z : List UInt8) :
    (m.write o (x ++ y ++ z)).read (o + x.length) y.length = y := by
  have hall := m.read_write o (x ++ y ++ z)
  rw [length_append, length_append, read_append, read_append] at hall
  exact (append_inj (append_inj hall (by simp)).1 (by simp)).2

namespace Buffer

/-- The word of `w` bytes at `start` is the number of bytes from its end to `stop`. -/
structure DelimitsTo (host : Endian) (b : Buffer) (start w stop : Nat) : Prop where
  le : start + w ≤ stop
  counts : host.nat (b.mem.read start w) = stop - (start + w)

abbrev Delimits (host : Endian) (b : Buffer) (start w : Nat) : Prop :=
  b.DelimitsTo host start w b.offset

variable {host : Endian} {b : Buffer} {w x : Nat}

theorem delimits_patch_iff {start n : Nat} (h : b.offset = start + w + n) :
    (b.patch start (host.bytes w x)).Delimits host start w ↔ x % 256 ^ w = n := by
  have hread : (b.patch start (host.bytes w x)).mem.read start w = host.bytes w x := by
    have hmid := b.mem.read_write start (host.bytes w x)
    rwa [Endian.length_bytes] at hmid
  have hrest : (b.patch start (host.bytes w x)).offset - (start + w) = n := by
    rw [patch_offset]
    omega
  constructor
  · rintro ⟨-, hcounts⟩
    rwa [hread, hrest, Endian.nat_bytes] at hcounts
  · intro hx
    refine ⟨by rw [patch_offset]; omega, ?_⟩
    rw [hread, hrest, Endian.nat_bytes, hx]

theorem delimitsTo_write_iff (front body back : List UInt8) :
    (b.write (front ++ host.bytes w x ++ (body ++ back))).DelimitsTo host (b.offset + front.length)
        w (b.offset + front.length + w + body.length) ↔ x % 256 ^ w = body.length := by
  have hread := b.mem.read_write_mid b.offset front (host.bytes w x) (body ++ back)
  rw [Endian.length_bytes] at hread
  have hrest : b.offset + front.length + w + body.length - (b.offset + front.length + w) =
      body.length := by
    omega
  constructor
  · rintro ⟨-, hcounts⟩
    rw [hrest] at hcounts
    rw [← hcounts, ← Endian.nat_bytes]
    exact congrArg host.nat hread.symm
  · intro hx
    refine ⟨Nat.le_add_right _ _, ?_⟩
    rw [hrest, ← hx, ← Endian.nat_bytes]
    exact congrArg host.nat hread

theorem delimits_write_iff (front body : List UInt8) :
    (b.write (front ++ host.bytes w x ++ body)).Delimits host (b.offset + front.length) w ↔
      x % 256 ^ w = body.length := by
  have hiff : (b.write (front ++ host.bytes w x ++ (body ++ []))).DelimitsTo host
      (b.offset + front.length) w (b.offset + front.length + w + body.length) ↔
      x % 256 ^ w = body.length := delimitsTo_write_iff front body []
  rw [append_nil] at hiff
  have hoffset : (b.write (front ++ host.bytes w x ++ body)).offset =
      b.offset + front.length + w + body.length := by
    simp [Nat.add_assoc]
  rwa [Delimits, hoffset]

end Buffer

end Wire
