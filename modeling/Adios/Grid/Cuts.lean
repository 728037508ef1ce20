import Adios.Grid.Boxes

/-!
# Grid — ranges cut into pieces

A range cut into pieces of a size, of which the last one may be smaller, and boxes cut so along
their first dimension: the pieces have no element in common and together those of the whole.
-/

namespace Grid

open List

inductive Cuts (p stop : Nat) : Nat → List Span → Prop
  | last {a n : Nat} (hpos : 0 < n) (hle : n ≤ p) (hstop : a + n = stop) : Cuts p stop a [⟨a, n⟩]
  | cons {a : Nat} {spans : List Span} (hlt : a + p < stop) (hrest : Cuts p stop (a + p) spans) :
    Cuts p stop a (⟨a, p⟩ :: spans)

namespace Cuts

variable {p stop a : Nat} {spans : List Span}

section

variable (h : Cuts p stop a spans)

include h

theorem lt : a < stop := by
  cases h with
  | last hpos _ hstop => omega
  | cons hlt _ => omega

theorem count_le : ∀ s ∈ spans, s.count ≤ p := by
  induction h with
  | last _ hle _ => exact forall_mem_singleton.mpr hle
  | cons _ _ ih => exact forall_mem_cons.mpr ⟨Nat.le_refl p, ih⟩

theorem stop_le : ∀ s ∈ spans, s.stop ≤ stop := by
  induction h with
  | last _ _ hstop => exact forall_mem_singleton.mpr (Nat.le_of_eq hstop)
  | cons hlt _ ih => exact forall_mem_cons.mpr ⟨Nat.le_of_lt hlt, ih⟩

theorem exists_mem_iff {x : Nat} :
    (∃ s ∈ spans, s.start ≤ x ∧ x < s.stop) ↔ a ≤ x ∧ x < stop := by
  induction h with
  | @last a n _ _ hstop =>
    simp only [mem_singleton, exists_eq_left]
    show a ≤ x ∧ x < a + n ↔ _
    rw [hstop]
  | @cons a spans hlt _ ih =>
    rw [exists_mem_cons_iff, ih]
    show (a ≤ x ∧ x < a + p) ∨ _ ↔ _
    omega

theorem le_start : ∀ s ∈ spans, a ≤ s.start := by
  induction h with
  | last _ _ _ => exact forall_mem_singleton.mpr (Nat.le_refl _)
  | cons _ _ ih =>
    exact forall_mem_cons.mpr ⟨Nat.le_refl _, fun s hs => Nat.le_trans (by omega) (ih s hs)⟩

theorem pairwise : spans.Pairwise fun s t => s.stop ≤ t.start := by
  induction h with
  | last _ _ _ => exact pairwise_singleton _ _
  | cons _ hrest ih => exact pairwise_cons.mpr ⟨hrest.le_start, ih⟩

theorem boxes_disjoint (row : List Span) :
    (spans.map (· :: row)).Pairwise fun b c => ∀ q, ¬(Contains b q ∧ Contains c q) := by
  refine pairwise_map.mpr (h.pairwise.imp fun hle q hboth => ?_)
  obtain ⟨hb, hc⟩ := hboth
  cases hb with
  | cons hx _ =>
    have hy := (contains_cons.mp hc).1
    omega

theorem boxes_cover (row : List Span) (q : List Nat) :
    (∃ b ∈ spans.map (· :: row), Contains b q) ↔ Contains (⟨a, stop - a⟩ :: row) q := by
  have hstop : Span.stop ⟨a, stop - a⟩ = stop := by
    have hlt := h.lt
    show a + (stop - a) = stop
    omega
  cases q with
  | nil =>
    constructor
    · rintro ⟨b, hb, hq⟩
      obtain ⟨s, -, rfl⟩ := mem_map.mp hb
      cases hq
    · intro hq
      cases hq
  | cons x q =>
    rw [contains_cons, hstop]
    constructor
    · rintro ⟨b, hb, hq⟩
      obtain ⟨s, hs, rfl⟩ := mem_map.mp hb
      obtain ⟨hx, hq⟩ := contains_cons.mp hq
      exact ⟨h.exists_mem_iff.mp ⟨s, hs, hx⟩, hq⟩
    · rintro ⟨hx, hq⟩
      obtain ⟨s, hs, hx⟩ := h.exists_mem_iff.mpr hx
      exact ⟨s :: row, mem_map_of_mem hs, contains_cons.mpr ⟨hx, hq⟩⟩

end

end Cuts

end Grid
