import Adios.Grid.Cuts
import Mathlib.Data.List.Nodup

/-!
# Grid — combinations in the order of an odometer

One value of each list, where the last one changes fastest: the elements of a box in row-major order
are such combinations, and so are the boxes that a box is cut into. An odometer that steps from a
value to the next one, and starts over where there is none, goes through them in this order.
-/

namespace Grid

open List

variable {α : Type*}

def combinations : List (List α) → List (List α)
  | [] => [[]]
  | l :: ls => l.flatMap fun x => (combinations ls).map (x :: ·)

def elements (box : List Span) : List (List Nat) :=
  combinations (box.map fun s => List.range' s.start s.count)

theorem mem_combinations {ls : List (List α)} {xs : List α} :
    xs ∈ combinations ls ↔ Forall₂ (· ∈ ·) xs ls := by
  induction ls generalizing xs with
  | nil => rw [combinations, mem_singleton, forall₂_nil_right_iff]
  | cons l ls ih =>
    simp only [combinations, mem_flatMap, mem_map, ih, forall₂_cons_right_iff]
    constructor
    · rintro ⟨x, hx, ys, hys, rfl⟩
      exact ⟨x, ys, hx, hys, rfl⟩
    · rintro ⟨x, ys, hx, hys, rfl⟩
      exact ⟨x, hx, ys, hys, rfl⟩

section

variable {box : List Span} {p : List Nat} (s : Span)

theorem elements_cons :
    elements (s :: box) =
      (List.range' s.start s.count).flatMap fun x => (elements box).map (x :: ·) := rfl

theorem mem_elements : p ∈ elements box ↔ Contains box p := by
  rw [elements, mem_combinations, forall₂_map_right_iff]
  constructor
  · intro h
    exact h.flip.imp fun _ _ hx => mem_range'_1.mp hx
  · intro h
    exact h.flip.imp fun _ _ hx => mem_range'_1.mpr hx

theorem mem_elements_whole {dims : List Nat} : p ∈ elements (whole dims) ↔ Within p dims := by
  rw [mem_elements, Contains, whole, forall₂_map_left_iff]
  constructor
  · intro h
    exact h.flip.imp fun x d hx => Nat.lt_of_lt_of_eq hx.2 (Nat.zero_add d)
  · intro h
    exact h.flip.imp fun d x hx => ⟨Nat.zero_le x, Nat.lt_of_lt_of_eq hx (Nat.zero_add d).symm⟩

theorem elements_append (box box' : List Span) : elements (box ++ box') =
    (elements box).flatMap fun p => (elements box').map (p ++ ·) := by
  induction box with
  | nil => exact (map_id _).symm.trans (append_nil _).symm
  | cons s box ih =>
    rw [cons_append, elements_cons, elements_cons, ih, flatMap_assoc]
    refine flatMap_congr fun x _ => ?_
    rw [map_flatMap, flatMap_map]
    refine flatMap_congr fun p _ => ?_
    rw [map_map]
    rfl

theorem within_mono {ns dims : List Nat} (h : Forall₂ (· ≤ ·) ns dims) (hp : Within p ns) :
    Within p dims := by
  induction h generalizing p with
  | nil => exact hp
  | cons hle _ ih =>
    cases hp with
    | cons hlt hp => exact .cons (Nat.lt_of_lt_of_le hlt hle) (ih hp)

theorem pairwise_linear {ns dims : List Nat} (h : Forall₂ (· ≤ ·) ns dims) :
    (elements (whole ns)).Pairwise fun p q => linear dims p < linear dims q := by
  induction h with
  | nil => exact pairwise_singleton _ _
  | @cons n d ns dims hn hns ih =>
    show ((List.range' 0 n).flatMap fun x => (elements (whole ns)).map (x :: ·)).Pairwise _
    rw [pairwise_flatMap]
    refine ⟨fun x _ => ?_, ?_⟩
    · rw [pairwise_map]
      exact ih.imp fun hlt => Nat.add_lt_add_left hlt _
    · refine (pairwise_lt_range' (s := 0) (n := n)).imp fun {x y} hxy p hp q hq => ?_
      obtain ⟨p', hp', rfl⟩ := mem_map.mp hp
      have hlt := linear_lt (within_mono hns (mem_elements_whole.mp hp'))
      have hle : (x + 1) * volume dims ≤ y * volume dims := Nat.mul_le_mul_right _ hxy
      rw [Nat.succ_mul] at hle
      obtain ⟨q', -, rfl⟩ := mem_map.mp hq
      show x * volume dims + linear dims p' < y * volume dims + linear dims q'
      omega

theorem pairwise_elements (dims : List Nat) :
    (elements (whole dims)).Pairwise fun p q => linear dims p < linear dims q :=
  pairwise_linear (forall₂_same.mpr fun _ _ => Nat.le_refl _)

end

/-! ## Odometers -/

structure Wheel (α : Type*) where
  first : α
  turn : α → α × Bool

def turnAll : List (Wheel α) → List α → List α × Bool
  | w :: ws, x :: xs =>
    let (ys, wraps) := turnAll ws xs
    if wraps then
      let (y, wraps) := w.turn x
      (y :: ys, wraps)
    else (x :: ys, false)
  | _, xs => (xs, true)

inductive Shows (first : α) (turn : α → α × Bool) : List α → Prop
  | last {x : α} (h : turn x = (first, true)) : Shows first turn [x]
  | cons {x y : α} {l : List α} (h : turn x = (y, false)) (hrest : Shows first turn (y :: l)) :
    Shows first turn (x :: y :: l)

theorem Shows.of_append {first : α} {turn : α → α × Bool} {xs : List α} {x : α} {l : List α}
    (h : Shows first turn (xs ++ x :: l)) : Shows first turn (x :: l) := by
  induction xs with
  | nil => exact h
  | cons y ys ih =>
    cases ys with
    | nil =>
      cases h with
      | cons _ hrest => exact hrest
    | cons z zs =>
      cases h with
      | cons _ hrest => exact ih hrest

structure Wheel.GoesThrough (w : Wheel α) (l : List α) : Prop where
  head : ∃ rest, l = w.first :: rest
  shows : Shows w.first w.turn l

theorem shows_block {w : Wheel α} {ws : List (Wheel α)} {x : α} {c r : List (List α)}
    (hc : Shows (ws.map Wheel.first) (turnAll ws) c)
    (hr : (r = [] ∧ w.turn x = (w.first, true)) ∨ ∃ y r', r = (y :: ws.map Wheel.first) :: r' ∧
      w.turn x = (y, false) ∧ Shows (w.first :: ws.map Wheel.first) (turnAll (w :: ws)) r) :
    Shows (w.first :: ws.map Wheel.first) (turnAll (w :: ws)) (c.map (x :: ·) ++ r) := by
  induction hc with
  | last h =>
    rcases hr with ⟨rfl, hx⟩ | ⟨y, r', rfl, hx, hrest⟩
    · exact .last (by simp [turnAll, h, hx])
    · exact .cons (by simp [turnAll, h, hx]) hrest
  | cons h _ ih => exact .cons (by simp [turnAll, h]) ih

theorem goesThrough_combinations {ws : List (Wheel α)} {ls : List (List α)}
    (h : Forall₂ Wheel.GoesThrough ws ls) :
    Wheel.GoesThrough ⟨ws.map Wheel.first, turnAll ws⟩ (combinations ls) := by
  induction h with
  | nil => exact ⟨⟨[], rfl⟩, .last rfl⟩
  | @cons w l ws ls hw _ ih =>
    obtain ⟨⟨c, hc⟩, hshows⟩ := ih
    dsimp only at hc hshows
    have hfirst (y : α) (ys : List α) : ∃ r, combinations ((y :: ys) :: ls) =
        (y :: ws.map Wheel.first) :: r := by
      rw [combinations, flatMap_cons, hc]
      exact ⟨_, rfl⟩
    obtain ⟨⟨rest, hl⟩, hturns⟩ := hw
    refine ⟨?_, ?_⟩
    · rw [hl]
      exact hfirst _ _
    · clear hl
      induction hturns with
      | last hx =>
        rw [combinations, flatMap_cons]
        exact shows_block hshows (.inl ⟨flatMap_nil, hx⟩)
      | cons hx _ ih =>
        obtain ⟨r, hr⟩ := hfirst _ _
        rw [combinations, flatMap_cons]
        exact shows_block hshows (.inr ⟨_, r, hr, hx, ih⟩)

def Span.wheel (s : Span) : Wheel Nat :=
  ⟨s.start, fun x => if x = s.start + s.count - 1 then (s.start, true) else (x + 1, false)⟩

theorem goesThrough_range' (s : Span) (h : 0 < s.count) :
    s.wheel.GoesThrough (range' s.start s.count) := by
  obtain ⟨a, n⟩ := s
  obtain ⟨n, rfl⟩ := Nat.exists_eq_add_one.mpr h
  refine ⟨⟨_, range'_succ⟩, ?_⟩
  have hshows (k b : Nat) (hb : b + k = a + n) :
      Shows a (Span.wheel ⟨a, n + 1⟩).turn (range' b (k + 1)) := by
    induction k generalizing b with
    | zero => exact .last (if_pos (by show b = a + (n + 1) - 1; omega))
    | succ k ih => exact .cons (if_neg (by show ¬b = a + (n + 1) - 1; omega)) (ih (b + 1) (by omega))
  exact hshows n a rfl

/-! ## Boxes that are cut -/

inductive CutInOrder : List Span → List (List Span) → Prop
  | nil : CutInOrder [] []
  | single {s : Span} {box : List Span} {pieces : List Span} {ls : List (List Span)}
    (hone : ∀ p ∈ pieces, p.count = 1) (hrest : CutInOrder box ls)
    (hcut : (pieces.flatMap fun p => range' p.start p.count) = range' s.start s.count) :
    CutInOrder (s :: box) (pieces :: ls)
  | whole {s : Span} {box : List Span} {pieces : List Span}
    (hcut : (pieces.flatMap fun p => range' p.start p.count) = range' s.start s.count) :
    CutInOrder (s :: box) (pieces :: box.map fun s => [s])

theorem combinations_singletons (xs : List α) : combinations (xs.map fun x => [x]) = [xs] := by
  induction xs with
  | nil => rfl
  | cons x xs ih =>
    rw [map_cons, combinations, ih]
    rfl

theorem flatMap_elements {box : List Span} {ls : List (List Span)} (h : CutInOrder box ls) :
    (combinations ls).flatMap elements = elements box := by
  induction h with
  | nil => rfl
  | @single s box pieces ls hone _ hcut ih =>
    rw [elements_cons, ← hcut, flatMap_assoc, combinations, flatMap_assoc]
    refine flatMap_congr fun p hp => ?_
    rw [hone p hp, range'_one, flatMap_singleton, ← ih, flatMap_map, map_flatMap]
    refine flatMap_congr fun b _ => ?_
    rw [elements_cons, hone p hp, range'_one, flatMap_singleton]
  | @whole s box pieces hcut =>
    rw [elements_cons, ← hcut, flatMap_assoc, combinations, combinations_singletons, flatMap_assoc]
    exact flatMap_congr fun p _ => by rw [map_singleton, flatMap_singleton, elements_cons]

theorem length_elements (box : List Span) : (elements box).length = volume (sizes box) := by
  induction box with
  | nil => rfl
  | cons s box ih => simp [elements_cons, sizes_cons, ih]

theorem nodup_elements (box : List Span) : (elements box).Nodup := by
  induction box with
  | nil => exact nodup_singleton _
  | cons s box ih =>
    rw [elements_cons, nodup_flatMap]
    refine ⟨fun x _ => ih.map (cons_injective), ?_⟩
    refine (nodup_range' (s := s.start) (n := s.count)).imp fun {x y} hne p hp hq => hne ?_
    obtain ⟨p', -, rfl⟩ := mem_map.mp hp
    obtain ⟨q', -, hq'⟩ := mem_map.mp hq
    exact (cons.inj hq').1.symm

end Grid
