import Mathlib.Data.List.Perm.Basic
import Mathlib.Tactic.Common

/-!
# Heap — objects that are allocated and freed

Objects at addresses. An address that has been given out is not given out again, so that a use of
an object behind its `free` is seen. `Owned h ps` says that the pointers `ps` are those of objects
that are allocated, each one once: then each of them can be freed, and only once. `Holds h ps` says
that they are those of all objects there are.
-/

namespace Heap

open List

/-- Objects; the addresses from `next` on have not been given out. -/
structure Objects (α : Type) where
  get : Nat → Option α
  next : Nat

namespace Objects

variable {α : Type}

def empty : Objects α := ⟨fun _ => none, 0⟩

/-- Allocate an object, at `next`. -/
def alloc (h : Objects α) (a : α) : Objects α where
  get p := if p = h.next then some a else h.get p
  next := h.next + 1

def free (h : Objects α) (p : Nat) : Option (Objects α) :=
  if (h.get p).isSome then some { h with get := fun q => if q = p then none else h.get q } else none

def write (h : Objects α) (p : Nat) (a : α) : Objects α :=
  { h with get := fun q => if q = p then some a else h.get q }

@[simp] theorem next_alloc (h : Objects α) (a : α) : (h.alloc a).next = h.next + 1 := rfl

@[simp] theorem get_alloc_self (h : Objects α) (a : α) : (h.alloc a).get h.next = some a :=
  if_pos rfl

variable {p : Nat}

theorem get_alloc_of_lt (h : Objects α) (a : α) (hp : p < h.next) :
    (h.alloc a).get p = h.get p :=
  if_neg (Nat.ne_of_lt hp)

@[simp] theorem get_write_self (h : Objects α) (p : Nat) (a : α) : (h.write p a).get p = some a :=
  if_pos rfl

theorem get_write_of_ne (h : Objects α) {q : Nat} (a : α) (hne : q ≠ p) :
    (h.write p a).get q = h.get q :=
  if_neg hne

theorem write_of_get {h : Objects α} {a : α} (hp : h.get p = some a) :
    h.write p a = h := by
  obtain ⟨get, next⟩ := h
  rw [write, Objects.mk.injEq]
  refine ⟨funext fun q => ?_, rfl⟩
  by_cases hq : q = p
  · rw [if_pos hq, hq]
    exact hp.symm
  · exact if_neg hq

theorem free_eq_some {h : Objects α} (hp : (h.get p).isSome) :
    ∃ h', h.free p = some h' ∧ h'.next = h.next ∧ ∀ q, q ≠ p → h'.get q = h.get q :=
  ⟨_, if_pos hp, rfl, fun _ hne => if_neg hne⟩

def Freed (h : Objects α) (p : Nat) : Prop := p < h.next ∧ h.get p = none

theorem Freed.alloc {h : Objects α} (hp : h.Freed p) (a : α) : (h.alloc a).Freed p :=
  ⟨Nat.lt_succ_of_lt hp.1, (get_alloc_of_lt h a hp.1).trans hp.2⟩

theorem Freed.free {h h' : Objects α} {q : Nat} (hp : h.Freed p) (hfree : h.free q = some h') :
    h'.Freed p := by
  rw [Objects.free] at hfree
  split_ifs at hfree
  cases hfree
  refine ⟨hp.1, ?_⟩
  by_cases hpq : p = q
  · exact if_pos hpq
  · exact (if_neg hpq).trans hp.2

theorem Freed.free_self {h : Objects α} (hp : h.Freed p) : h.free p = none := by
  rw [Objects.free, hp.2]
  rfl

theorem freed_of_free {h h' : Objects α} (hp : p < h.next) (hfree : h.free p = some h') :
    h'.Freed p := by
  rw [Objects.free] at hfree
  split_ifs at hfree
  cases hfree
  exact ⟨hp, if_pos rfl⟩

end Objects

variable {α : Type} {h : Objects α} {ps : List Nat}

structure Owned (h : Objects α) (ps : List Nat) : Prop where
  nodup : ps.Nodup
  live : ∀ p ∈ ps, (h.get p).isSome
  lt : ∀ p ∈ ps, p < h.next

theorem owned_nil (h : Objects α) : Owned h [] := ⟨.nil, nofun, nofun⟩

theorem Owned.perm {qs : List Nat} (hown : Owned h ps) (hperm : qs.Perm ps) : Owned h qs where
  nodup := hperm.nodup_iff.mpr hown.nodup
  live p hp := hown.live p (hperm.mem_iff.mp hp)
  lt p hp := hown.lt p (hperm.mem_iff.mp hp)

theorem Owned.alloc (hown : Owned h ps) (a : α) : Owned (h.alloc a) (h.next :: ps) where
  nodup := nodup_cons.mpr ⟨fun hmem => Nat.lt_irrefl _ (hown.lt _ hmem), hown.nodup⟩
  live p hp := by
    rcases mem_cons.mp hp with rfl | hp
    · rw [Objects.get_alloc_self]
      rfl
    · rw [Objects.get_alloc_of_lt h a (hown.lt p hp)]
      exact hown.live p hp
  lt p hp := by
    rcases mem_cons.mp hp with rfl | hp
    · exact Nat.lt_succ_self _
    · exact Nat.lt_succ_of_lt (hown.lt p hp)

theorem Owned.free {p : Nat} (hown : Owned h (p :: ps)) :
    ∃ h', h.free p = some h' ∧ Owned h' ps := by
  obtain ⟨hnotMem, hnodup⟩ := nodup_cons.mp hown.nodup
  obtain ⟨h', hfree, hnext, hget⟩ := Objects.free_eq_some (hown.live p mem_cons_self)
  refine ⟨h', hfree, hnodup, fun q hq => ?_, fun q hq => ?_⟩
  · have hne : q ≠ p := fun heq => hnotMem (heq ▸ hq)
    rw [hget q hne]
    exact hown.live q (mem_cons_of_mem p hq)
  · rw [hnext]
    exact hown.lt q (mem_cons_of_mem p hq)

theorem Owned.write (hown : Owned h ps) (p : Nat) (a : α) : Owned (h.write p a) ps where
  nodup := hown.nodup
  live q hq := by
    by_cases hqp : q = p
    · rw [hqp, Objects.get_write_self]
      rfl
    · rw [Objects.get_write_of_ne h a hqp]
      exact hown.live q hq
  lt := hown.lt

/-! ## All that there is -/

structure Holds (h : Objects α) (ps : List Nat) : Prop extends Owned h ps where
  only : ∀ p, (h.get p).isSome → p ∈ ps

theorem holds_empty : Holds (Objects.empty : Objects α) [] := ⟨owned_nil _, nofun⟩

theorem Holds.eq_none (hholds : Holds h []) (p : Nat) : h.get p = none := by
  by_contra hget
  exact absurd (hholds.only p (Option.isSome_iff_ne_none.mpr hget)) not_mem_nil

theorem Holds.perm {qs : List Nat} (hholds : Holds h ps) (hperm : qs.Perm ps) : Holds h qs :=
  ⟨hholds.toOwned.perm hperm, fun p hp => hperm.mem_iff.mpr (hholds.only p hp)⟩

theorem Holds.alloc (hholds : Holds h ps) (a : α) : Holds (h.alloc a) (h.next :: ps) := by
  refine ⟨hholds.toOwned.alloc a, fun p hp => ?_⟩
  by_cases hnext : p = h.next
  · exact mem_cons.mpr (.inl hnext)
  · have hget : (h.alloc a).get p = h.get p := if_neg hnext
    rw [hget] at hp
    exact mem_cons_of_mem _ (hholds.only p hp)

theorem Holds.free {p : Nat} (hholds : Holds h (p :: ps)) :
    ∃ h', h.free p = some h' ∧ Holds h' ps ∧ h'.Freed p ∧ ∀ q ∈ ps, h'.get q = h.get q := by
  obtain ⟨hnotMem, -⟩ := nodup_cons.mp hholds.nodup
  obtain ⟨h', hfree, howned⟩ := hholds.toOwned.free
  have hget (q : Nat) (hne : q ≠ p) : h'.get q = h.get q := by
    obtain ⟨h'', hfree', -, hget⟩ := Objects.free_eq_some (hholds.live p mem_cons_self)
    rw [hfree] at hfree'
    cases hfree'
    exact hget q hne
  have hfreed := Objects.freed_of_free (hholds.lt p mem_cons_self) hfree
  refine ⟨h', hfree, ⟨howned, fun q hq => ?_⟩, hfreed, fun q hq => ?_⟩
  · have hne : q ≠ p := by
      rintro rfl
      rw [hfreed.2] at hq
      cases hq
    rw [hget q hne] at hq
    exact (mem_cons.mp (hholds.only q hq)).resolve_left hne
  · exact hget q fun heq => hnotMem (heq ▸ hq)

end Heap
