import Mathlib.Data.List.Induction
import Mathlib.Data.List.Nodup
import Mathlib.Data.List.Perm.Basic
import Mathlib.Tactic.Common

/-!
# Lists — collecting elements by a key

`insertWith` puts an element into a list that has one element for each key: it is combined with
the element of its key, or goes to the end. `collect` does so with all elements of a list. What
comes out for a key is the fold, in order, of the elements with that key (`mem_collect`).
-/

namespace Lists

open List

variable {α κ : Type} [DecidableEq κ]

/-- Combine `x` with the element of its key, or put it at the end. -/
def insertWith (key : α → κ) (comb : α → α → α) : List α → α → List α
  | [], x => [x]
  | y :: ys, x => if key y = key x then comb y x :: ys else y :: insertWith key comb ys x

def collect (key : α → κ) (comb : α → α → α) (xs : List α) : List α :=
  xs.foldl (insertWith key comb) []

variable {key : α → κ} {comb : α → α → α}

theorem insertWith_of_notMem {ys : List α} {x : α} (h : ∀ y ∈ ys, key y ≠ key x) :
    insertWith key comb ys x = ys ++ [x] := by
  induction ys with
  | nil => rfl
  | cons y ys ih =>
    rw [insertWith, if_neg (h y (by simp)), ih fun z hz => h z (by simp [hz])]
    rfl

theorem insertWith_append {s t : List α} {x y : α} (hs : ∀ z ∈ s, key z ≠ key x)
    (hy : key y = key x) : insertWith key comb (s ++ y :: t) x = s ++ comb y x :: t := by
  induction s with
  | nil => rw [nil_append, insertWith, if_pos hy]; rfl
  | cons z s ih =>
    rw [cons_append, insertWith, if_neg (hs z (by simp)), ih fun w hw => hs w (by simp [hw])]
    rfl

theorem length_insertWith_le (key : α → κ) (comb : α → α → α) (ys : List α) (x : α) :
    (insertWith key comb ys x).length ≤ ys.length + 1 := by
  induction ys with
  | nil => exact Nat.le_refl 1
  | cons y ys ih =>
    rw [insertWith]
    split_ifs
    · exact Nat.le_succ _
    · simpa using ih

theorem exists_split {ys : List α} {k : κ} (h : k ∈ ys.map key) :
    ∃ s y t, ys = s ++ y :: t ∧ (∀ z ∈ s, key z ≠ k) ∧ key y = k := by
  induction ys with
  | nil => cases h
  | cons y ys ih =>
    by_cases hy : key y = k
    · exact ⟨[], y, ys, rfl, by simp, hy⟩
    · have hmem : k ∈ ys.map key := by
        rcases mem_cons.mp h with heq | hmem
        · exact absurd heq.symm hy
        · exact hmem
      obtain ⟨s, z, t, rfl, hs, hz⟩ := ih hmem
      refine ⟨y :: s, z, t, rfl, fun w hw => ?_, hz⟩
      rcases mem_cons.mp hw with rfl | hw
      · exact hy
      · exact hs w hw

section

variable (hkey : ∀ y x, key (comb y x) = key y)

include hkey in
theorem map_key_insertWith (ys : List α) (x : α) :
    (insertWith key comb ys x).map key =
      if key x ∈ ys.map key then ys.map key else ys.map key ++ [key x] := by
  by_cases hx : key x ∈ ys.map key
  · obtain ⟨s, y, t, rfl, hs, hy⟩ := exists_split hx
    rw [if_pos hx, insertWith_append hs hy]
    simp [hkey]
  · have hne : ∀ y ∈ ys, key y ≠ key x := fun y hy heq => hx (heq ▸ mem_map_of_mem hy)
    rw [if_neg hx, insertWith_of_notMem hne]
    simp

include hkey in
theorem nodup_insertWith {ys : List α} (h : (ys.map key).Nodup) (x : α) :
    ((insertWith key comb ys x).map key).Nodup := by
  rw [map_key_insertWith hkey]
  split_ifs with hx
  · exact h
  · refine nodup_append.mpr ⟨h, by simp, fun k hk k' hk' heq => ?_⟩
    rw [mem_singleton.mp hk'] at heq
    exact hx (heq ▸ hk)

theorem mem_insertWith {ys : List α} (h : (ys.map key).Nodup) {x e : α}
    (he : e ∈ insertWith key comb ys x) :
    (e ∈ ys ∧ key e ≠ key x) ∨ (∃ y ∈ ys, key y = key x ∧ e = comb y x) ∨
      ((∀ y ∈ ys, key y ≠ key x) ∧ e = x) := by
  by_cases hx : key x ∈ ys.map key
  · obtain ⟨s, y, t, rfl, hs, hy⟩ := exists_split hx
    rw [insertWith_append hs hy] at he
    rw [map_append, map_cons, nodup_append, nodup_cons] at h
    rcases mem_append.mp he with he | he
    · exact Or.inl ⟨by simp [he], hs e he⟩
    · rcases mem_cons.mp he with rfl | he
      · exact Or.inr (Or.inl ⟨y, by simp, hy, rfl⟩)
      · refine Or.inl ⟨by simp [he], fun heq => h.2.1.1 ?_⟩
        rw [hy, ← heq]
        exact mem_map_of_mem he
  · have hne : ∀ y ∈ ys, key y ≠ key x := fun y hy heq => hx (heq ▸ mem_map_of_mem hy)
    rw [insertWith_of_notMem hne] at he
    rcases mem_append.mp he with he | he
    · exact Or.inl ⟨he, hne e he⟩
    · exact Or.inr (Or.inr ⟨hne, mem_singleton.mp he⟩)

theorem collect_snoc (xs : List α) (x : α) :
    collect key comb (xs ++ [x]) = insertWith key comb (collect key comb xs) x := by
  simp [collect]

include hkey in
theorem nodup_collect (xs : List α) : ((collect key comb xs).map key).Nodup := by
  induction xs using List.reverseRecOn with
  | nil => exact nodup_nil
  | append_singleton xs x ih =>
    rw [collect_snoc]
    exact nodup_insertWith hkey ih x

include hkey in
theorem mem_map_key_collect (xs : List α) (k : κ) :
    k ∈ (collect key comb xs).map key ↔ k ∈ xs.map key := by
  induction xs using List.reverseRecOn with
  | nil => rfl
  | append_singleton xs x ih =>
    rw [collect_snoc, map_key_insertWith hkey]
    split_ifs with hx
    · rw [ih, map_append, mem_append, map_singleton, mem_singleton]
      exact ⟨Or.inl, fun h => h.elim id fun heq => ih.mp (heq ▸ hx)⟩
    · simp only [mem_append, map_append, map_singleton, ih]

include hkey in
theorem mem_collect {xs : List α} {e : α} (he : e ∈ collect key comb xs) :
    ∃ pre x post, xs = pre ++ x :: post ∧ (∀ y ∈ pre, key y ≠ key e) ∧ key x = key e ∧
      e = (post.filter fun y => key y = key e).foldl comb x := by
  induction xs using List.reverseRecOn generalizing e with
  | nil => cases he
  | append_singleton xs z ih =>
    rw [collect_snoc] at he
    rcases mem_insertWith (nodup_collect hkey xs) he with ⟨he, hne⟩ | ⟨y, hy, hyz, rfl⟩ | ⟨hne, rfl⟩
    · obtain ⟨pre, x, post, rfl, hpre, hx, hfold⟩ := ih he
      refine ⟨pre, x, post ++ [z], by simp, hpre, hx, ?_⟩
      rw [filter_append, filter_cons_of_neg (by simpa using Ne.symm hne), filter_nil, append_nil]
      exact hfold
    · obtain ⟨pre, x, post, rfl, hpre, hx, hfold⟩ := ih hy
      rw [hkey]
      refine ⟨pre, x, post ++ [z], by simp, hpre, hx, ?_⟩
      rw [filter_append, filter_cons_of_pos (by simpa using hyz.symm),
        filter_nil, foldl_append, ← hfold]
      rfl
    · refine ⟨xs, e, [], rfl, fun y hy heq => ?_, rfl, rfl⟩
      obtain ⟨w, hw, hwk⟩ := mem_map.mp
        ((mem_map_key_collect hkey xs (key e)).mpr (heq ▸ mem_map_of_mem hy))
      exact hne w hw hwk

end

/-! ## What is in the elements

`f` gives the contents of an element. -/

section

variable {β : Type} {f : α → List β} (hf : ∀ y x, f (comb y x) = f y ++ f x)

include hf in
theorem flatMap_insertWith (ys : List α) (x : α) :
    ((insertWith key comb ys x).flatMap f).Perm (ys.flatMap f ++ f x) := by
  induction ys with
  | nil => simp [insertWith]
  | cons y ys ih =>
    rw [insertWith]
    split_ifs
    · rw [flatMap_cons, flatMap_cons, hf, append_assoc, append_assoc]
      exact perm_append_comm.append_left (f y)
    · rw [flatMap_cons, flatMap_cons, append_assoc]
      exact ih.append_left (f y)

include hf in
theorem flatMap_collect (xs : List α) : ((collect key comb xs).flatMap f).Perm (xs.flatMap f) := by
  induction xs using List.reverseRecOn with
  | nil => exact List.Perm.refl _
  | append_singleton xs x ih =>
    rw [collect_snoc, flatMap_append, flatMap_singleton]
    exact (flatMap_insertWith hf _ x).trans (ih.append_right (f x))

include hf in
theorem foldl_comb (xs : List α) (x : α) : f (xs.foldl comb x) = f x ++ xs.flatMap f := by
  induction xs generalizing x with
  | nil => simp
  | cons y xs ih => rw [foldl_cons, ih, hf, flatMap_cons, append_assoc]

include hf in
theorem contents_collect (hkey : ∀ y x, key (comb y x) = key y) {xs : List α} {e : α}
    (he : e ∈ collect key comb xs) : f e = (xs.filter fun x => key x = key e).flatMap f := by
  obtain ⟨pre, x, post, rfl, hpre, hx, hfold⟩ := mem_collect hkey he
  have hnone : (pre.filter fun y => key y = key e) = [] :=
    filter_eq_nil_iff.mpr fun y hy => by simpa using hpre y hy
  rw [filter_append, hnone, nil_append, filter_cons_of_pos (by simpa using hx), flatMap_cons]
  conv_lhs => rw [hfold]
  exact foldl_comb hf _ x

end

/-! ## Collecting in parts -/

section

variable (hkey : ∀ y x, key (comb y x) = key y)

include hkey in
theorem insertWith_comm {ys : List α} {x z : α} (hx : key x ∈ ys.map key) (hne : key z ≠ key x) :
    insertWith key comb (insertWith key comb ys x) z =
      insertWith key comb (insertWith key comb ys z) x := by
  obtain ⟨s, y, t, rfl, hs, hy⟩ := exists_split hx
  have hcomb : key (comb y x) ≠ key z := by
    rw [hkey, hy]
    exact hne.symm
  have hyz : key y ≠ key z := by
    rw [hy]
    exact hne.symm
  rw [insertWith_append hs hy]
  clear hx
  induction s with
  | nil =>
    rw [nil_append, nil_append, insertWith, if_neg hcomb, insertWith, if_neg hyz,
      insertWith, if_pos hy]
  | cons w s ih =>
    have hw : key w ≠ key x := hs w mem_cons_self
    rw [cons_append, cons_append, insertWith, insertWith]
    by_cases hwz : key w = key z
    · have hcombw : key (comb w z) ≠ key x := by
        rw [hkey]
        exact hw
      rw [if_pos hwz, if_pos hwz, insertWith, if_neg hcombw,
        insertWith_append (fun v hv => hs v (mem_cons_of_mem w hv)) hy]
    · rw [if_neg hwz, if_neg hwz, insertWith, if_neg hw, ih fun v hv => hs v (mem_cons_of_mem w hv)]

variable (hassoc : ∀ x y z, key x = key y → key y = key z →
  comb (comb x y) z = comb x (comb y z))

include hkey hassoc in
theorem insertWith_comb (ys : List α) {x y : α} (h : key y = key x) :
    insertWith key comb ys (comb y x) = insertWith key comb (insertWith key comb ys y) x := by
  induction ys with
  | nil => rw [insertWith, insertWith, insertWith, if_pos h]
  | cons w ys ih =>
    rw [insertWith, insertWith, hkey]
    by_cases hw : key w = key y
    · rw [if_pos hw, if_pos hw, insertWith, if_pos (by rw [hkey, hw, h]), hassoc w y x hw h]
    · rw [if_neg hw, if_neg hw, insertWith, if_neg (by rw [← h]; exact hw), ih]

include hkey in
theorem foldl_insertWith_comm {zs acc : List α} {x : α} (hx : key x ∈ acc.map key)
    (hne : ∀ z ∈ zs, key z ≠ key x) :
    zs.foldl (insertWith key comb) (insertWith key comb acc x) =
      insertWith key comb (zs.foldl (insertWith key comb) acc) x := by
  induction zs generalizing acc with
  | nil => rfl
  | cons z zs ih =>
    have hz : key x ∈ (insertWith key comb acc z).map key := by
      rw [map_key_insertWith hkey]
      split_ifs
      · exact hx
      · exact mem_append_left _ hx
    rw [foldl_cons, foldl_cons, insertWith_comm hkey hx (hne z mem_cons_self),
      ih hz fun w hw => hne w (mem_cons_of_mem z hw)]

include hkey hassoc in
theorem foldl_collect (xs acc : List α) :
    (collect key comb xs).foldl (insertWith key comb) acc =
      xs.foldl (insertWith key comb) acc := by
  induction xs using List.reverseRecOn with
  | nil => rfl
  | append_singleton xs x ih =>
    rw [collect_snoc, foldl_append, ← ih, foldl_cons, foldl_nil]
    have hnodup : ((collect key comb xs).map key).Nodup := nodup_collect hkey xs
    generalize collect key comb xs = ys at hnodup
    by_cases hx : key x ∈ ys.map key
    · obtain ⟨s, y, t, rfl, hs, hy⟩ := exists_split hx
      rw [map_append, map_cons, nodup_append, nodup_cons] at hnodup
      have ht : ∀ z ∈ t, key z ≠ key x := fun z hz heq => by
        refine hnodup.2.1.1 ?_
        rw [hy, ← heq]
        exact mem_map_of_mem hz
      have hmem : key x ∈ (insertWith key comb (s.foldl (insertWith key comb) acc) y).map key := by
        rw [map_key_insertWith hkey, ← hy]
        split_ifs with hin
        · exact hin
        · exact mem_append_right _ (mem_singleton_self _)
      rw [insertWith_append hs hy, foldl_append, foldl_append, foldl_cons,
        foldl_cons, insertWith_comb hkey hassoc _ hy, foldl_insertWith_comm hkey hmem ht]
    · have hnew : ∀ y ∈ ys, key y ≠ key x := fun y hy heq => hx (heq ▸ mem_map_of_mem hy)
      rw [insertWith_of_notMem hnew, foldl_append, foldl_cons, foldl_nil]

include hkey hassoc in
theorem collect_flatMap_collect (xss : List (List α)) :
    collect key comb (xss.flatMap (collect key comb)) = collect key comb xss.flatten := by
  suffices h : ∀ acc, (xss.flatMap (collect key comb)).foldl (insertWith key comb) acc =
      xss.flatten.foldl (insertWith key comb) acc from h []
  induction xss with
  | nil => exact fun _ => rfl
  | cons xs xss ih =>
    intro acc
    rw [flatMap_cons, foldl_append, flatten_cons, foldl_append, foldl_collect hkey hassoc, ih]

end

theorem collect_of_nodup {xs : List α} (h : (xs.map key).Nodup) : collect key comb xs = xs := by
  induction xs using List.reverseRecOn with
  | nil => rfl
  | append_singleton xs x ih =>
    rw [map_append, map_singleton, nodup_append] at h
    obtain ⟨hxs, -, hne⟩ := h
    rw [collect_snoc, ih hxs, insertWith_of_notMem]
    exact fun y hy => hne _ (mem_map_of_mem hy) _ (mem_singleton_self _)

theorem collect_collect_append (hkey : ∀ y x, key (comb y x) = key y) (xs ys : List α) :
    collect key comb (collect key comb xs ++ ys) = collect key comb (xs ++ ys) := by
  have hxs : collect key comb (collect key comb xs) = collect key comb xs :=
    collect_of_nodup (nodup_collect hkey xs)
  have happend : ∀ zs : List α,
      collect key comb (zs ++ ys) = ys.foldl (insertWith key comb) (collect key comb zs) :=
    fun zs => foldl_append
  rw [happend, happend, hxs]

section

variable {f : α → α} (hkey : ∀ x, key (f x) = key x)
  (hcomb : ∀ y x, f (comb y x) = comb (f y) (f x))

include hkey hcomb

theorem map_insertWith (ys : List α) (x : α) :
    (insertWith key comb ys x).map f = insertWith key comb (ys.map f) (f x) := by
  induction ys with
  | nil => rfl
  | cons y ys ih =>
    rw [map_cons, insertWith, insertWith, hkey, hkey]
    split_ifs
    · rw [map_cons, hcomb]
    · rw [map_cons, ih]

theorem map_collect (xs : List α) : (collect key comb xs).map f = collect key comb (xs.map f) := by
  induction xs using List.reverseRecOn with
  | nil => rfl
  | append_singleton xs x ih =>
    rw [collect_snoc, map_insertWith hkey hcomb, ih, map_append, map_singleton, collect_snoc]

end

end Lists
