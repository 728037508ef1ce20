import Mathlib.Data.List.Forall2
import Mathlib.Tactic.Common

/-!
# Lists — results for each element

A computation that can fail, for one element of a list after the other: all of them come to a result
or the first failure is what comes out.
-/

namespace Lists

open List

variable {α β ε : Type} {f : α → Except ε β}

variable {xs : List α} {ys : List β} {p : α → Prop}

theorem mapM_cons_ok {x : α} {y : β} (h : f x = .ok y) :
    (x :: xs).mapM f = xs.mapM f >>= fun ys => .ok (y :: ys) := by
  rw [mapM_cons, h]
  rfl

theorem forall_of_forall₂ {p : β → Prop} (h : Forall₂ (fun _ y => p y) xs ys) :
    ∀ y ∈ ys, p y := by
  induction h with
  | nil => exact forall_mem_nil _
  | cons hy _ ih => exact forall_mem_cons.mpr ⟨hy, ih⟩

theorem exists_of_forall₂_mem {R : α → β → Prop} (h : Forall₂ R xs ys) {x : α} (hx : x ∈ xs) :
    ∃ y ∈ ys, R x y := by
  induction h with
  | nil => cases hx
  | cons hxy _ ih =>
    rcases mem_cons.mp hx with rfl | hx
    · exact ⟨_, mem_cons_self, hxy⟩
    · obtain ⟨y, hy, hR⟩ := ih hx
      exact ⟨y, mem_cons_of_mem _ hy, hR⟩

theorem exists_append_of_forall₂ {R : α → β → Prop} {as bs : List α} (h : Forall₂ R (as ++ bs) ys) :
    ∃ before behind, ys = before ++ behind ∧ Forall₂ R as before ∧
      Forall₂ R bs behind := by
  induction as generalizing ys with
  | nil => exact ⟨[], ys, rfl, .nil, h⟩
  | cons a as ih =>
    cases h with
    | cons hfirst hrest =>
      obtain ⟨before, behind, rfl, has, hbs⟩ := ih hrest
      exact ⟨_ :: before, behind, rfl, .cons hfirst has, hbs⟩

theorem mapM_eq_ok_iff :
    xs.mapM f = .ok ys ↔ Forall₂ (fun x y => f x = .ok y) xs ys := by
  constructor
  · intro h
    induction xs generalizing ys with
    | nil =>
      injection h with h
      subst h
      exact .nil
    | cons x xs ih =>
      cases hx : f x with
      | error e =>
        rw [mapM_cons, hx] at h
        cases h
      | ok y =>
        rw [mapM_cons_ok hx] at h
        cases hxs : xs.mapM f with
        | error e =>
          rw [hxs] at h
          cases h
        | ok ys' =>
          rw [hxs] at h
          injection h with h
          subst h
          exact .cons hx (ih hxs)
  · intro h
    induction h with
    | nil => rfl
    | cons hx _ ih =>
      rw [mapM_cons_ok hx, ih]
      rfl

theorem mapM_congr {g : α → Except ε β} (h : ∀ x ∈ xs, f x = g x) :
    xs.mapM f = xs.mapM g := by
  induction xs with
  | nil => rfl
  | cons x xs ih =>
    rw [mapM_cons, mapM_cons, h x mem_cons_self, ih fun z hz => h z (mem_cons_of_mem x hz)]

theorem exists_mapM {R : β → α → Prop} {xs : List α} (h : ∀ x ∈ xs, ∃ y, f x = .ok y ∧ R y x) :
    ∃ ys, xs.mapM f = .ok ys ∧ Forall₂ R ys xs := by
  induction xs with
  | nil => exact ⟨[], rfl, .nil⟩
  | cons x xs ih =>
    obtain ⟨y, hy, hR⟩ := h x mem_cons_self
    obtain ⟨ys, hys, hRs⟩ := ih fun z hz => h z (mem_cons_of_mem x hz)
    refine ⟨y :: ys, ?_, .cons hR hRs⟩
    rw [mapM_cons_ok hy, hys]
    rfl

theorem exists_of_mapM_eq_ok (h : xs.mapM f = .ok ys) {x : α} (hx : x ∈ xs) : ∃ y, f x = .ok y := by
  have hall := mapM_eq_ok_iff.mp h
  induction hall with
  | nil => cases hx
  | cons hy hys ih =>
    cases hx with
    | head => exact ⟨_, hy⟩
    | tail _ hx => exact ih (mapM_eq_ok_iff.mpr hys) hx

theorem forall₂_of_mapM_eq_ok {R : β → α → Prop} (h : xs.mapM f = .ok ys)
    (hR : ∀ x ∈ xs, ∀ y, f x = .ok y → R y x) : Forall₂ R ys xs := by
  have hall := mapM_eq_ok_iff.mp h
  clear h
  induction hall with
  | nil => exact .nil
  | @cons x y xs ys hy _ ih =>
    obtain ⟨hx, hxs⟩ := forall_mem_cons.mp hR
    exact .cons (hx y hy) (ih hxs)

theorem mapM_eq_ok_map_iff {g : α → β} (h : ∀ x ∈ xs, ∀ y, f x = .ok y ↔ p x ∧ y = g x) :
    xs.mapM f = .ok ys ↔ (∀ x ∈ xs, p x) ∧ ys = xs.map g := by
  rw [mapM_eq_ok_iff]
  induction xs generalizing ys with
  | nil => exact ⟨fun hnil => (by cases hnil; exact ⟨forall_mem_nil _, rfl⟩),
      fun heq => heq.2 ▸ .nil⟩
  | cons x xs ih =>
    obtain ⟨hx, hxs⟩ := forall_mem_cons.mp h
    rw [forall₂_cons_left_iff, forall_mem_cons, map_cons]
    constructor
    · rintro ⟨y, ys', hy, hys, rfl⟩
      obtain ⟨hp, rfl⟩ := (hx y).mp hy
      obtain ⟨hps, rfl⟩ := (ih hxs).mp hys
      exact ⟨⟨hp, hps⟩, rfl⟩
    · rintro ⟨⟨hp, hps⟩, rfl⟩
      exact ⟨_, _, (hx _).mpr ⟨hp, rfl⟩, (ih hxs).mpr ⟨hps, rfl⟩, rfl⟩

theorem exists_mapM_of_forall₂ {γ δ : Type} {p : γ → δ} {q : β → δ} {xs : List α} {zs : List γ}
    (h : Forall₂ (fun x z => ∃ y, f x = .ok y ∧ q y = p z) xs zs) :
    ∃ ys, xs.mapM f = .ok ys ∧ ys.map q = zs.map p := by
  induction h with
  | nil => exact ⟨[], rfl, rfl⟩
  | cons hx _ ih =>
    obtain ⟨y, hy, hq⟩ := hx
    obtain ⟨ys, hys, hqs⟩ := ih
    refine ⟨y :: ys, ?_, ?_⟩
    · rw [mapM_cons_ok hy, hys]
      rfl
    · rw [map_cons, map_cons, hq, hqs]

theorem exists_mapM_map {γ : Type} {p : α → γ} {q : β → γ} {xs : List α}
    (h : ∀ x ∈ xs, ∃ y, f x = .ok y ∧ q y = p x) :
    ∃ ys, xs.mapM f = .ok ys ∧ ys.map q = xs.map p :=
  exists_mapM_of_forall₂ (forall₂_same.mpr h)

theorem forall₂_reduceOption {R : β → α → Prop} [DecidablePred p] {rs : List (Option β)}
    (h : Forall₂ (fun r x => if p x then ∃ y, r = some y ∧ R y x else r = none) rs xs) :
    Forall₂ R rs.reduceOption (xs.filter p) := by
  induction h with
  | nil => exact .nil
  | @cons r x rs xs hr _ ih =>
    by_cases hx : p x
    · rw [if_pos hx] at hr
      obtain ⟨y, rfl, hR⟩ := hr
      rw [filter_cons, if_pos (decide_eq_true hx)]
      exact .cons hR ih
    · rw [if_neg hx] at hr
      subst hr
      rw [filter_cons, if_neg (by simpa using hx)]
      exact ih

theorem exists_first (h : ¬∀ x ∈ xs, p x) :
    ∃ pre x post, xs = pre ++ x :: post ∧ (∀ y ∈ pre, p y) ∧ ¬p x := by
  induction xs with
  | nil => simp at h
  | cons x xs ih =>
    by_cases hx : p x
    · obtain ⟨pre, y, post, rfl, hpre, hy⟩ := ih fun hall => h (by simpa [hx] using hall)
      exact ⟨x :: pre, y, post, rfl, by simpa [hx] using hpre, hy⟩
    · exact ⟨[], x, xs, rfl, by simp, hx⟩

end Lists
