import Mathlib.Data.List.Nodup
import Mathlib.Tactic.Common

/-!
# Heap — singly linked lists

Cells at addresses, each with a value and the address of the next cell. `Seg h p s q` says that
from `p` the cells of `s` follow one another up to `q`; a list is a segment up to the null
pointer. `Slot` is a pointer to a pointer: the root of a list or the `next` field of a cell, the
place that `root = &(*root)->next` walks over.
-/

namespace Heap

open List

abbrev Addr := Nat

structure Cell (α : Type) where
  val : α
  next : Option Addr

def Store (α : Type) : Type := Addr → Option (Cell α)

variable {α : Type}

namespace Store

def empty : Store α := fun _ => none

def set (h : Store α) (a : Addr) (c : Cell α) : Store α := fun b => if b = a then some c else h b

def free (h : Store α) (a : Addr) : Store α := fun b => if b = a then none else h b

@[simp] theorem set_self (h : Store α) (a : Addr) (c : Cell α) : h.set a c a = some c := if_pos rfl

theorem set_of_ne (h : Store α) {a b : Addr} (c : Cell α) (hne : b ≠ a) : h.set a c b = h b :=
  if_neg hne

theorem free_of_ne (h : Store α) {a b : Addr} (hne : b ≠ a) : h.free a b = h b := if_neg hne

end Store

/-! ## Segments -/

/-- From `p` the cells of `s` follow one another up to `q`. -/
def Seg (h : Store α) : Option Addr → List (Addr × α) → Option Addr → Prop
  | p, [], q => p = q
  | p, (a, v) :: s, q => p = some a ∧ ∃ next, h a = some ⟨v, next⟩ ∧ Seg h next s q

def IsList (h : Store α) (p : Option Addr) (s : List (Addr × α)) : Prop := Seg h p s none

def addrs (s : List (Addr × α)) : List Addr := s.map Prod.fst

@[simp] theorem addrs_nil : addrs ([] : List (Addr × α)) = [] := rfl

@[simp] theorem addrs_cons (x : Addr × α) (s : List (Addr × α)) :
    addrs (x :: s) = x.1 :: addrs s := rfl

@[simp] theorem addrs_append (s t : List (Addr × α)) : addrs (s ++ t) = addrs s ++ addrs t := by
  simp [addrs]

theorem mem_addrs {s : List (Addr × α)} {x : Addr × α} (h : x ∈ s) : x.1 ∈ addrs s :=
  mem_map_of_mem h

theorem Seg.append_iff {h : Store α} {p q : Option Addr} {s t : List (Addr × α)} :
    Seg h p (s ++ t) q ↔ ∃ r, Seg h p s r ∧ Seg h r t q := by
  induction s generalizing p with
  | nil => simp [Seg]
  | cons x s ih =>
    constructor
    · rintro ⟨rfl, next, hcell, hseg⟩
      obtain ⟨r, hs, ht⟩ := ih.mp hseg
      exact ⟨r, ⟨rfl, next, hcell, hs⟩, ht⟩
    · rintro ⟨r, ⟨rfl, next, hcell, hs⟩, ht⟩
      exact ⟨rfl, next, hcell, ih.mpr ⟨r, hs, ht⟩⟩

theorem Seg.congr {h h' : Store α} {p q : Option Addr} {s : List (Addr × α)} (hs : Seg h p s q)
    (heq : ∀ a ∈ addrs s, h' a = h a) : Seg h' p s q := by
  induction s generalizing p with
  | nil => exact hs
  | cons x s ih =>
    obtain ⟨rfl, next, hcell, hseg⟩ := hs
    refine ⟨rfl, next, ?_, ih hseg fun a ha => heq a (by simp [ha])⟩
    rw [heq x.1 (by simp), hcell]

theorem Seg.set {h : Store α} {p q : Option Addr} {s : List (Addr × α)} {a : Addr} {c : Cell α}
    (hs : Seg h p s q) (ha : a ∉ addrs s) : Seg (h.set a c) p s q :=
  hs.congr fun _ hb => h.set_of_ne c fun heq => ha (heq ▸ hb)

theorem Seg.free {h : Store α} {p q : Option Addr} {s : List (Addr × α)} {a : Addr}
    (hs : Seg h p s q) (ha : a ∉ addrs s) : Seg (h.free a) p s q :=
  hs.congr fun _ hb => h.free_of_ne fun heq => ha (heq ▸ hb)

theorem Seg.cell {h : Store α} {p q : Option Addr} {s : List (Addr × α)} (hs : Seg h p s q)
    {x : Addr × α} (hx : x ∈ s) : ∃ next, h x.1 = some ⟨x.2, next⟩ := by
  induction s generalizing p with
  | nil => cases hx
  | cons y s ih =>
    obtain ⟨rfl, next, hcell, hseg⟩ := hs
    rcases mem_cons.mp hx with rfl | hx
    · exact ⟨next, hcell⟩
    · exact ih hseg hx

theorem Seg.notMem_of_none {h : Store α} {p q : Option Addr} {s : List (Addr × α)}
    (hs : Seg h p s q) {a : Addr} (ha : h a = none) : a ∉ addrs s := fun hmem => by
  obtain ⟨x, hx, rfl⟩ := mem_map.mp hmem
  obtain ⟨next, hcell⟩ := hs.cell hx
  rw [ha] at hcell
  cases hcell

/-! ## Lists -/

namespace IsList

variable {h : Store α} {p : Option Addr} {s t : List (Addr × α)}

theorem unique (hs : IsList h p s) (ht : IsList h p t) : s = t := by
  induction s generalizing p t with
  | nil =>
    cases t with
    | nil => rfl
    | cons y t =>
      obtain ⟨hp, -⟩ := ht
      cases hs.symm.trans hp
  | cons x s ih =>
    obtain ⟨hp, next, hcell, hseg⟩ := hs
    cases t with
    | nil => cases hp.symm.trans ht
    | cons y t =>
      obtain ⟨hp', next', hcell', hseg'⟩ := ht
      have haddr : x.1 = y.1 := Option.some.inj (hp.symm.trans hp')
      rw [← haddr, hcell] at hcell'
      obtain ⟨hval, rfl⟩ := Cell.mk.inj (Option.some.inj hcell')
      rw [ih hseg hseg', Prod.ext haddr hval]

theorem nodup (hs : IsList h p s) : (addrs s).Nodup := by
  induction s generalizing p with
  | nil => exact nodup_nil
  | cons x s ih =>
    have hseg := hs
    obtain ⟨hp, next, hcell, htail⟩ := hs
    refine nodup_cons.mpr ⟨fun hmem => ?_, ih htail⟩
    obtain ⟨y, hy, heq⟩ := mem_map.mp hmem
    obtain ⟨s₁, s₂, rfl⟩ := append_of_mem hy
    obtain ⟨r, -, hr⟩ := Seg.append_iff.mp htail
    have hsuffix : IsList h (some x.1) (y :: s₂) := by
      obtain ⟨rfl, hcell'⟩ := hr
      exact ⟨by rw [heq], hcell'⟩
    have hlen := congrArg List.length (hsuffix.unique (hp ▸ hseg))
    simp at hlen
    omega

theorem link {x : Addr × α} {q : Option Addr} (hs : IsList h p (s ++ [x])) (ht : IsList h q t)
    (hx : x.1 ∉ addrs t) : IsList (h.set x.1 ⟨x.2, q⟩) p (s ++ [x] ++ t) := by
  have hnodup := hs.nodup
  rw [addrs_append, nodup_append] at hnodup
  have hxs : x.1 ∉ addrs s := fun hmem => hnodup.2.2 _ hmem _ (by simp) rfl
  obtain ⟨r, hseg, rfl, -⟩ := Seg.append_iff.mp hs
  exact Seg.append_iff.mpr ⟨q, Seg.append_iff.mpr ⟨some x.1, hseg.set hxs, rfl, q,
    h.set_self _ _, rfl⟩, ht.set hx⟩

theorem update {a : Addr} {v w : α} {next : Option Addr} (hs : IsList h p (s ++ (a, v) :: t))
    (hcell : h a = some ⟨v, next⟩) : IsList (h.set a ⟨w, next⟩) p (s ++ (a, w) :: t) := by
  have hnodup := hs.nodup
  rw [addrs_append, addrs_cons, nodup_append, nodup_cons] at hnodup
  have has : a ∉ addrs s := fun hmem => hnodup.2.2 _ hmem _ (by simp) rfl
  obtain ⟨r, hseg, rfl, next', hcell', htail⟩ := Seg.append_iff.mp hs
  rw [hcell] at hcell'
  obtain ⟨-, rfl⟩ := Cell.mk.inj (Option.some.inj hcell')
  exact Seg.append_iff.mpr ⟨some a, hseg.set has, rfl, next, h.set_self _ _,
    htail.set hnodup.2.1.1⟩

theorem splice {h' : Store α} {x y : Addr × α} (hs : IsList h p (s ++ x :: t))
    (hy : y.1 ∉ addrs (s ++ x :: t)) (hx' : h' x.1 = some ⟨x.2, some y.1⟩)
    (hy' : h' y.1 = some ⟨y.2, t.head?.map Prod.fst⟩)
    (hother : ∀ a, a ≠ x.1 → a ≠ y.1 → h' a = h a) : IsList h' p (s ++ x :: y :: t) := by
  have hnodup := hs.nodup
  rw [addrs_append, addrs_cons, nodup_append, nodup_cons] at hnodup
  rw [addrs_append, addrs_cons, mem_append, mem_cons, not_or, not_or] at hy
  obtain ⟨r, hseg, rfl, next, hcell, htail⟩ := Seg.append_iff.mp hs
  have hkept : ∀ a, a ∈ addrs s ∨ a ∈ addrs t → h' a = h a := fun a ha => by
    refine hother a (fun heq => ?_) fun heq => ?_
    · rcases ha with ha | ha
      · exact hnodup.2.2 a ha x.1 mem_cons_self heq
      · exact hnodup.2.1.1 (heq ▸ ha)
    · rcases ha with ha | ha
      · exact hy.1 (heq ▸ ha)
      · exact hy.2.2 (heq ▸ ha)
  have hback : IsList h' (t.head?.map Prod.fst) t := by
    have hnext : next = t.head?.map Prod.fst := by
      cases t with
      | nil => exact htail
      | cons z t => exact htail.1
    exact hnext ▸ htail.congr fun a ha => hkept a (.inr ha)
  exact Seg.append_iff.mpr ⟨some x.1, hseg.congr fun a ha => hkept a (.inl ha), rfl, _, hx', rfl, _,
    hy', hback⟩

end IsList

/-- The values `vals`, put as a list into memory that was free. -/
structure Placed (h h' : Store α) (p : Option Addr) (vals : List α) (s : List (Addr × α)) :
    Prop where
  list : IsList h' p s
  values : s.map Prod.snd = vals
  fresh : ∀ a ∈ addrs s, h a = none
  kept : ∀ a c, h a = some c → h' a = some c

namespace Placed

variable {h h' : Store α} {p q : Option Addr} {vals : List α} {s t : List (Addr × α)}

theorem disjoint (hp : Placed h h' p vals s) (ht : IsList h q t) : ∀ a ∈ addrs t, a ∉ addrs s := by
  intro a ha hmem
  obtain ⟨x, hx, rfl⟩ := mem_map.mp ha
  obtain ⟨next, hcell⟩ := Seg.cell ht hx
  rw [hp.fresh _ hmem] at hcell
  cases hcell

theorem isList (hp : Placed h h' p vals s) (ht : IsList h q t) : IsList h' q t := by
  refine Seg.congr ht fun a ha => ?_
  obtain ⟨x, hx, rfl⟩ := mem_map.mp ha
  obtain ⟨next, hcell⟩ := Seg.cell ht hx
  rw [hcell, hp.kept _ _ hcell]

end Placed

/-! ## Building lists -/

def Store.place (h : Store α) (a : Addr) : List α → Store α
  | [] => h
  | v :: vs => (Store.place h (a + 1) vs).set a ⟨v, if vs = [] then none else some (a + 1)⟩

def cellsFrom (a : Addr) : List α → List (Addr × α)
  | [] => []
  | v :: vs => (a, v) :: cellsFrom (a + 1) vs

section Place

variable {h : Store α} {a b : Nat} {vs : List α}

theorem map_snd_cellsFrom (a : Nat) (vs : List α) : (cellsFrom a vs).map Prod.snd = vs := by
  induction vs generalizing a with
  | nil => rfl
  | cons v vs ih => rw [cellsFrom, map_cons, ih]

theorem mem_addrs_cellsFrom (hb : b ∈ addrs (cellsFrom a vs)) : a ≤ b ∧ b < a + vs.length := by
  induction vs generalizing a with
  | nil => cases hb
  | cons v vs ih =>
    rw [length_cons]
    rcases mem_cons.mp hb with rfl | hb
    · show b ≤ b ∧ b < b + (vs.length + 1)
      omega
    · have hrest := ih hb
      omega

theorem Store.place_of_outside (hb : b < a ∨ a + vs.length ≤ b) : h.place a vs b = h b := by
  induction vs generalizing a with
  | nil => rfl
  | cons v vs ih =>
    rw [length_cons] at hb
    have hne : b ≠ a := by omega
    rw [Store.place, Store.set_of_ne _ _ hne, ih (by omega)]

theorem isList_place (h : Store α) (a : Nat) (vs : List α) :
    IsList (h.place a vs) (if vs = [] then none else some a) (cellsFrom a vs) := by
  induction vs generalizing a with
  | nil => rfl
  | cons v vs ih =>
    refine ⟨rfl, _, Store.set_self _ _ _, Seg.set (ih (a + 1)) fun hmem => ?_⟩
    have hle := mem_addrs_cellsFrom hmem
    omega

theorem placed_place (hfree : ∀ b, a ≤ b → h b = none) (vs : List α) :
    Placed h (h.place a vs) (if vs = [] then none else some a) vs (cellsFrom a vs) where
  list := isList_place h a vs
  values := map_snd_cellsFrom a vs
  fresh := fun b hb => hfree b (mem_addrs_cellsFrom hb).1
  kept := fun b c hb => by
    rw [Store.place_of_outside, hb]
    left
    by_contra hlt
    rw [hfree b (by omega)] at hb
    cases hb

end Place

/-! ## Pointers to pointers -/

structure Linked (α : Type) where
  root : Option Addr
  store : Store α

/-- The place of a pointer: the root or the `next` field of a cell. -/
inductive Slot where
  | root
  | next (a : Addr)
  deriving DecidableEq

namespace Linked

def get (l : Linked α) : Slot → Option (Option Addr)
  | .root => some l.root
  | .next a => (l.store a).map Cell.next

def put (l : Linked α) : Slot → Option Addr → Option (Linked α)
  | .root, p => some { l with root := p }
  | .next a, p => (l.store a).map fun c => { l with store := l.store.set a { c with next := p } }

def Holds (l : Linked α) (s : List (Addr × α)) : Prop := IsList l.store l.root s

end Linked

/-- The place behind the cells of `s`. -/
def slotAfter (s : List (Addr × α)) : Slot :=
  match s.getLast? with
  | none => .root
  | some x => .next x.1

@[simp] theorem slotAfter_nil : slotAfter ([] : List (Addr × α)) = .root := rfl

@[simp] theorem slotAfter_snoc (s : List (Addr × α)) (x : Addr × α) :
    slotAfter (s ++ [x]) = .next x.1 := by
  simp [slotAfter]

theorem Seg.end_eq {h : Store α} {r : Option Addr} {t : List (Addr × α)} (ht : Seg h r t none) :
    r = t.head?.map Prod.fst := by
  cases t with
  | nil => exact ht
  | cons y t => exact ht.1

namespace Linked

variable {l : Linked α} {s t : List (Addr × α)}

theorem get_slotAfter (h : l.Holds (s ++ t)) :
    l.get (slotAfter s) = some (t.head?.map Prod.fst) := by
  rcases eq_nil_or_concat s with rfl | ⟨s, x, rfl⟩
  · exact congrArg some (Seg.end_eq h)
  · rw [concat_eq_append] at h ⊢
    obtain ⟨r, hsx, ht⟩ := Seg.append_iff.mp h
    obtain ⟨_, -, rfl, next, hcell, rfl⟩ := Seg.append_iff.mp hsx
    rw [slotAfter_snoc, get, hcell, ← ht.end_eq]
    rfl

theorem put_slotAfter {q : Option Addr} (h : l.Holds s) (hq : IsList l.store q t)
    (hdisjoint : ∀ a ∈ addrs s, a ∉ addrs t) :
    ∃ l', l.put (slotAfter s) q = some l' ∧ l'.Holds (s ++ t) ∧
      ∀ a, a ∉ addrs s → l'.store a = l.store a := by
  rcases eq_nil_or_concat s with rfl | ⟨s, x, rfl⟩
  · exact ⟨{ l with root := q }, rfl, hq, fun _ _ => rfl⟩
  · rw [concat_eq_append] at h hdisjoint ⊢
    obtain ⟨next, hcell⟩ := h.cell (x := x) (by simp)
    refine ⟨{ l with store := l.store.set x.1 ⟨x.2, q⟩ }, ?_, ?_, ?_⟩
    · rw [slotAfter_snoc, put, hcell]
      rfl
    · exact IsList.link h hq (hdisjoint x.1 (by simp))
    · intro a ha
      exact l.store.set_of_ne _ fun heq => ha (by simp [heq])

end Linked

end Heap
