import Adios.Index.Struct
import Adios.Lists.Separated

/-!
# Adios — searching in strings

`strchr`, and where it finds a character.
-/

namespace Adios

open List Separated

/-- `strchr`: how far behind the pointer the character stands. -/
def strchr (chr : UInt8) : List UInt8 → Except Fault (Option Nat)
  | [] => .error .outOfBounds
  | c :: cs =>
    if c = chr then .ok (some 0)
    else if c = 0 then .ok none
    else do
      let pos ← strchr chr cs
      return pos.map (· + 1)

variable {c : UInt8} {rest tail : List UInt8}

theorem strchr_eq (hc : c ≠ 0) (hrest : ∀ a ∈ rest, a ≠ 0) :
    strchr c (rest ++ 0 :: tail) = .ok ((behind c rest).map fun _ => (before c rest).length) := by
  induction rest with
  | nil =>
    rw [nil_append, strchr, if_neg hc.symm, if_pos rfl]
    rfl
  | cons a rest ih =>
    obtain ⟨ha, hrest⟩ := forall_mem_cons.mp hrest
    rw [cons_append, strchr, behind, before]
    by_cases hac : a = c
    · rw [if_pos hac, if_pos hac, if_pos hac]
      rfl
    · rw [if_neg hac, if_neg ha, if_neg hac, if_neg hac, ih hrest, ok_bind]
      cases behind c rest <;> rfl

theorem takeWhile_string (hrest : ∀ a ∈ rest, a ≠ 0) :
    (rest ++ 0 :: tail).takeWhile (· ≠ 0) = rest := by
  rw [takeWhile_append_of_pos (fun a ha => by simpa using hrest a ha)]
  exact (congrArg (rest ++ ·) (by rfl)).trans (append_nil rest)

end Adios
