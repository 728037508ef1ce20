import Adios.Read.VarSteps
import Mathlib.Data.List.MinMax

/-!
# Adios — the number of subfiles

`get_num_subfiles` of `bp_utils.c`: how many subfiles the characteristics of the variables name. The
largest index so far is an `int`, which is compared with the `uint32_t` of a characteristic, so it
is kept here as the 32 bits it has.
-/

namespace Adios

open List VarSteps Wire

/-! ## The code -/

def fileIndexLoop (j : Nat) (n : UInt32) : List UInt32 → Except Fault UInt32
  | [] => .ok n
  | fileIndex :: rest => do
    let n := if n < fileIndex then fileIndex else n
    let j ← incr j
    fileIndexLoop j n rest

def fileIndexes (v : IndexEntry) : List UInt32 := v.characteristics.map (·.fileIndex)

/-- The loop over the variables, with the number of them that are left: `root` stays where it is. -/
def subfilesLoop (root : IndexEntry) (i : Nat) (n : UInt32) : Nat → Except Fault UInt32
  | 0 => .ok n
  | left + 1 => do
    let n ← fileIndexLoop 0 n (fileIndexes root)
    let i ← incr i
    subfilesLoop root i n left

/-- "`return n + 1`" -/
def afterLast (n : UInt32) : Except Fault Int :=
  if n = 0x7fffffff then .error .signedOverflow else .ok (cut32 n.toNat + 1)

/-- `get_num_subfiles` of a list of variables, which `vars_count` counts. -/
def getNumSubfiles (varsRoot : List IndexEntry) : Except Fault Int :=
  match varsRoot with
  | [] => afterLast 0
  | root :: _ => do
    let n ← subfilesLoop root 0 0 varsRoot.length
    afterLast n

/-! ## The statement -/

/-- The `file_index` of a characteristic that names no subfile, `(uint32_t) -1`. -/
def noSubfile : UInt32 := 0xffffffff

def subfiles (vars : List IndexEntry) : List Nat :=
  (vars.flatMap fun v => (fileIndexes v).filter (· ≠ noSubfile)).map UInt32.toNat

def lastSubfile (vars : List IndexEntry) : Nat := (subfiles vars).foldr max 0

/-- The first variable of the list has the largest index; nothing in it is without a subfile or has
an index that an `int` does not count, and `int`s count the characteristics and the variables. -/
structure FirstHasLast (root : IndexEntry) (vars : List IndexEntry) : Prop where
  varsCount : (root :: vars).length < 2147483648
  characteristicsCount : root.characteristics.length < 2147483648
  counted : ∀ n ∈ fileIndexes root, n.toNat < 2147483647
  last : ∀ m ∈ subfiles vars, m = 0 ∨ ∃ n ∈ fileIndexes root, m ≤ n.toNat

def LastFirst : List IndexEntry → Prop
  | [] => True
  | root :: vars => FirstHasLast root vars

/-! ## The two loops -/

def largest (n : UInt32) (fs : List UInt32) : Nat := (fs.map UInt32.toNat).foldr max n.toNat

theorem largest_cons (n f : UInt32) (fs : List UInt32) :
    largest (if n < f then f else n) fs = largest n (f :: fs) := by
  unfold largest
  rw [map_cons]
  induction fs with
  | nil =>
    show (if n < f then f else n).toNat = max f.toNat n.toNat
    by_cases h : n < f
    · rw [if_pos h, Nat.max_eq_left (Nat.le_of_lt (UInt32.lt_iff_toNat_lt.mp h))]
    · rw [if_neg h, Nat.max_eq_right (Nat.not_lt.mp fun hc => h (UInt32.lt_iff_toNat_lt.mpr hc))]
  | cons g fs ih =>
    rw [map_cons, foldr_cons, ih, foldr_cons, foldr_cons, foldr_cons, Nat.max_left_comm]

variable {fs : List UInt32} {root : IndexEntry}

theorem fileIndexLoop_eq {j : Nat} (n : UInt32) (h : j + fs.length < 2147483648) :
    ∃ n', fileIndexLoop j n fs = .ok n' ∧ n'.toNat = largest n fs := by
  induction fs generalizing j n with
  | nil => exact ⟨n, rfl, rfl⟩
  | cons f fs ih =>
    rw [length_cons] at h
    obtain ⟨n', hrun, hlast⟩ := @ih (j + 1) (if n < f then f else n) (by omega)
    refine ⟨n', ?_, hlast.trans (largest_cons n f fs)⟩
    rw [fileIndexLoop, incr_of_lt (by omega), ok_bind, hrun]

theorem fileIndexLoop_overflow {j : Nat} (n : UInt32) (hj : j < 2147483648)
    (h : 2147483648 ≤ j + fs.length) : fileIndexLoop j n fs = .error .signedOverflow := by
  induction fs generalizing j n with
  | nil =>
    rw [length_nil] at h
    omega
  | cons f fs ih =>
    rw [length_cons] at h
    rw [fileIndexLoop]
    by_cases hnext : j + 1 < 2147483648
    · rw [incr_of_lt hnext, ok_bind, ih _ hnext (by omega)]
    · rw [incr, if_neg hnext]
      rfl

theorem largest_largest {n n' : UInt32} (h : n'.toNat = largest n fs) :
    largest n' fs = largest n fs := by
  have hself : ∀ (ms : List Nat) (m : Nat), (ms.foldr max (ms.foldr max m)) = ms.foldr max m := by
    intro ms m
    induction ms with
    | nil => rfl
    | cons k ms ih =>
      have hmono : ∀ (ms : List Nat) (a b : Nat), ms.foldr max (max a b) =
          max a (ms.foldr max b) := by
        intro ms a b
        induction ms with
        | nil => rfl
        | cons k ms ih => rw [foldr_cons, ih, foldr_cons, Nat.max_left_comm]
      rw [foldr_cons, foldr_cons, hmono, ih, ← Nat.max_assoc, Nat.max_self]
  rw [largest, h]
  exact hself _ _

theorem subfilesLoop_eq (hroot : root.characteristics.length < 2147483648) {i left : Nat}
    (n : UInt32) (h : i + (left + 1) < 2147483648) :
    ∃ n', subfilesLoop root i n (left + 1) = .ok n' ∧ n'.toNat = largest n (fileIndexes root) := by
  have hlen : 0 + (fileIndexes root).length < 2147483648 := by
    rw [Nat.zero_add, fileIndexes, length_map]
    exact hroot
  induction left generalizing i n with
  | zero =>
    obtain ⟨n', hrun, hlast⟩ := fileIndexLoop_eq n hlen
    refine ⟨n', ?_, hlast⟩
    rw [subfilesLoop, hrun, ok_bind, incr_of_lt (by omega), ok_bind, subfilesLoop]
  | succ left ih =>
    obtain ⟨n', hrun, hlast⟩ := fileIndexLoop_eq n hlen
    obtain ⟨n'', hrest, hlast'⟩ := @ih (i + 1) n' (by omega)
    refine ⟨n'', ?_, hlast'.trans (largest_largest hlast)⟩
    rw [subfilesLoop, hrun, ok_bind, incr_of_lt (by omega), ok_bind, hrest]

theorem subfilesLoop_overflow (hroot : root.characteristics.length < 2147483648) {i left : Nat}
    (n : UInt32) (hi : i < 2147483648) (h : 2147483648 ≤ i + left) :
    subfilesLoop root i n left = .error .signedOverflow := by
  induction left generalizing i n with
  | zero => omega
  | succ left ih =>
    have hlen : 0 + (fileIndexes root).length < 2147483648 := by
      rw [Nat.zero_add, fileIndexes, length_map]
      exact hroot
    obtain ⟨n', hrun, -⟩ := fileIndexLoop_eq n hlen
    rw [subfilesLoop, hrun, ok_bind]
    by_cases hnext : i + 1 < 2147483648
    · rw [incr_of_lt hnext, ok_bind, ih n' hnext (by omega)]
    · rw [incr, if_neg hnext]
      rfl

/-! ## The largest index -/

theorem foldr_max_le_iff {ms : List Nat} {k : Nat} : ms.foldr max 0 ≤ k ↔ ∀ m ∈ ms, m ≤ k := by
  induction ms with
  | nil => exact ⟨fun _ => forall_mem_nil _, fun _ => Nat.zero_le k⟩
  | cons m ms ih => rw [foldr_cons, Nat.max_le, ih, forall_mem_cons]

theorem le_foldr_max_iff {ms : List Nat} {k : Nat} :
    k ≤ ms.foldr max 0 ↔ k = 0 ∨ ∃ m ∈ ms, k ≤ m := by
  induction ms with
  | nil => exact ⟨fun h => .inl (Nat.le_zero.mp h), fun h => by
      rcases h with rfl | ⟨m, hm, -⟩
      · exact Nat.le_refl 0
      · cases hm⟩
  | cons m ms ih =>
    rw [foldr_cons, le_max_iff, ih]
    constructor
    · rintro (h | h | ⟨m', hm', h⟩)
      · exact .inr ⟨m, mem_cons_self, h⟩
      · exact .inl h
      · exact .inr ⟨m', mem_cons_of_mem m hm', h⟩
    · rintro (h | ⟨m', hm', h⟩)
      · exact .inr (.inl h)
      · cases hm' with
        | head => exact .inl h
        | tail _ hm' => exact .inr (.inr ⟨m', hm', h⟩)

theorem largest_zero (fs : List UInt32) : largest 0 fs = (fs.map UInt32.toNat).foldr max 0 := rfl

theorem mem_subfiles_iff {vars : List IndexEntry} {m : Nat} :
    m ∈ subfiles vars ↔ ∃ v ∈ vars, ∃ n ∈ fileIndexes v, n ≠ noSubfile ∧ n.toNat = m := by
  unfold subfiles
  constructor
  · intro h
    obtain ⟨n, hn, rfl⟩ := mem_map.mp h
    obtain ⟨v, hv, hn⟩ := mem_flatMap.mp hn
    obtain ⟨hn, hne⟩ := mem_filter.mp hn
    exact ⟨v, hv, n, hn, of_decide_eq_true hne, rfl⟩
  · rintro ⟨v, hv, n, hn, hne, rfl⟩
    exact mem_map_of_mem (mem_flatMap.mpr
      ⟨v, hv, mem_filter.mpr ⟨hn, decide_eq_true hne⟩⟩)

theorem largest_eq_lastSubfile_iff {vars : List IndexEntry}
    (hcounted : ∀ n ∈ fileIndexes root, n.toNat < 2147483647) :
    largest 0 (fileIndexes root) = lastSubfile (root :: vars) ↔
      ∀ m ∈ subfiles vars, m = 0 ∨ ∃ n ∈ fileIndexes root, m ≤ n.toNat := by
  have hle : largest 0 (fileIndexes root) ≤ lastSubfile (root :: vars) := by
    rw [largest_zero, foldr_max_le_iff]
    intro m hm
    obtain ⟨n, hn, rfl⟩ := mem_map.mp hm
    refine le_foldr_max_iff.mpr (.inr ⟨_, mem_subfiles_iff.mpr
      ⟨root, mem_cons_self, n, hn, ?_, rfl⟩, Nat.le_refl _⟩)
    rintro rfl
    exact absurd (hcounted _ hn) (by decide)
  have hge : lastSubfile (root :: vars) ≤ largest 0 (fileIndexes root) ↔
      ∀ m ∈ subfiles vars, m = 0 ∨ ∃ n ∈ fileIndexes root, m ≤ n.toNat := by
    rw [lastSubfile, foldr_max_le_iff]
    have hmem : ∀ m, m ≤ largest 0 (fileIndexes root) ↔
        m = 0 ∨ ∃ n ∈ fileIndexes root, m ≤ n.toNat := fun m => by
      rw [largest_zero, le_foldr_max_iff]
      refine or_congr_right ⟨fun ⟨k, hk, hle⟩ => ?_, fun ⟨n, hn, hle⟩ =>
        ⟨_, mem_map_of_mem hn, hle⟩⟩
      obtain ⟨n, hn, rfl⟩ := mem_map.mp hk
      exact ⟨n, hn, hle⟩
    constructor
    · intro h m hm
      obtain ⟨v, hv, hn⟩ := mem_subfiles_iff.mp hm
      exact (hmem m).mp (h m (mem_subfiles_iff.mpr ⟨v, mem_cons_of_mem root hv, hn⟩))
    · intro h m hm
      obtain ⟨v, hv, n, hn, hne, rfl⟩ := mem_subfiles_iff.mp hm
      cases hv with
      | head => exact (hmem _).mpr (.inr ⟨n, hn, Nat.le_refl _⟩)
      | tail _ hv => exact (hmem _).mpr (h _ (mem_subfiles_iff.mpr ⟨v, hv, n, hn, hne, rfl⟩))
  rw [← hge]
  omega

/-- No word of the first variable is too large for the `int`, where the largest is not. -/
theorem largest_lt_iff :
    largest 0 fs < 2147483647 ↔ ∀ n ∈ fs, n.toNat < 2147483647 := by
  have hle := @foldr_max_le_iff (fs.map UInt32.toNat) 2147483646
  rw [← largest_zero] at hle
  rw [show largest 0 fs < 2147483647 ↔ largest 0 fs ≤ 2147483646 from Nat.lt_succ_iff, hle]
  constructor
  · intro h n hn
    exact Nat.lt_succ_of_le (h _ (mem_map_of_mem hn))
  · intro h m hm
    obtain ⟨n, hn, rfl⟩ := mem_map.mp hm
    exact Nat.le_of_lt_succ (h n hn)

theorem afterLast_eq_iff {n : UInt32} {m : Nat} :
    afterLast n = .ok ((m + 1 : Nat) : Int) ↔ n.toNat < 2147483647 ∧ n.toNat = m := by
  have hlt := n.toNat_lt
  have hnum : (0x7fffffff : UInt32).toNat = 2147483647 := by decide
  have hmax : n = 0x7fffffff ↔ n.toNat = 2147483647 :=
    ⟨fun h => (congrArg UInt32.toNat h).trans hnum,
      fun h => UInt32.toNat_inj.mp (h.trans hnum.symm)⟩
  unfold afterLast
  by_cases hlast : n = 0x7fffffff
  · rw [if_pos hlast]
    have hn := hmax.mp hlast
    exact ⟨fun h => (by cases h), fun h => absurd h.1 (by omega)⟩
  · rw [if_neg hlast]
    have hne : n.toNat ≠ 2147483647 := fun hc => hlast (hmax.mpr hc)
    constructor
    · intro h
      have hcut := Except.ok.inj h
      unfold cut32 at hcut
      omega
    · rintro ⟨hsmall, rfl⟩
      rw [cut32_of_fits (by omega) (by omega)]
      rfl

/-- The number of subfiles is one more than the largest index exactly where the first variable has
the largest one. -/
theorem getNumSubfiles_eq_iff (vars : List IndexEntry) :
    getNumSubfiles vars = .ok ((lastSubfile vars + 1 : Nat) : Int) ↔ LastFirst vars := by
  cases vars with
  | nil => exact ⟨fun _ => trivial, fun _ => by decide⟩
  | cons root vars =>
    have hrounds : getNumSubfiles (root :: vars) =
        subfilesLoop root 0 0 (vars.length + 1) >>= afterLast := rfl
    rw [hrounds]
    by_cases hroot : root.characteristics.length < 2147483648
    · by_cases hvars : vars.length + 1 < 2147483648
      · obtain ⟨n, hrun, hlast⟩ := subfilesLoop_eq hroot 0 (by rwa [Nat.zero_add])
        rw [hrun, ok_bind, afterLast_eq_iff, hlast, largest_lt_iff]
        constructor
        · rintro ⟨hcounted, heq⟩
          exact ⟨hvars, hroot, hcounted, (largest_eq_lastSubfile_iff hcounted).mp heq⟩
        · rintro ⟨-, -, hcounted, hfirst⟩
          exact ⟨hcounted, (largest_eq_lastSubfile_iff hcounted).mpr hfirst⟩
      · rw [subfilesLoop_overflow hroot 0 (by omega) (by omega)]
        exact ⟨fun h => (by cases h), fun h => absurd h.varsCount hvars⟩
    · have hlen : 2147483648 ≤ 0 + (fileIndexes root).length := by
        rw [Nat.zero_add, fileIndexes, length_map]
        exact Nat.not_lt.mp hroot
      rw [subfilesLoop, fileIndexLoop_overflow 0 (by omega) hlen]
      exact ⟨fun h => (by cases h), fun h => absurd h.characteristicsCount hroot⟩

def inSubfile (fileIndex : UInt32) : IndexEntry where
  id := 0
  groupName := CString.empty
  name := CString.empty
  path := CString.empty
  type := .byte
  characteristics := [{ IndexCharacteristic.zero with fileIndex := fileIndex }]

/-- Only the first variable is looked at. -/
theorem getNumSubfiles_secondVar :
    getNumSubfiles [inSubfile 0, inSubfile 1] ≠
      .ok ((lastSubfile [inSubfile 0, inSubfile 1] + 1 : Nat) : Int) := by
  have hcode : getNumSubfiles [inSubfile 0, inSubfile 1] = .ok 1 := by decide
  have hlast : lastSubfile [inSubfile 0, inSubfile 1] = 1 := by decide
  rw [hcode, hlast]
  decide

end Adios
