import Mathlib.Data.List.Basic
import Mathlib.Data.List.Count
import Mathlib.Tactic.Common

/-!
# Lists — runs of equal keys

A pass over a list that counts equal neighbours and records a run when its key changes, but only at
the changes that it looks for (`closes`). A run that is left without being recorded is lost, and the
next one keeps its start.
-/

namespace Lists

open List

variable {κ : Type} {closes : κ → κ → Bool}

/-! ## Blocks -/

/-- The elements of a key stand together, and behind them is the end or a change that the pass looks
for. -/
structure IsBlock (closes : κ → κ → Bool) (keys : List κ) (k : κ) (before : List κ) (count : Nat)
    (after : List κ) : Prop where
  keys_eq : keys = before ++ (List.replicate count k ++ after)
  notBefore : k ∉ before
  notAfter : k ∉ after
  closed : ∀ k' ∈ after.head?, closes k k' = true

variable {keys before after : List κ} {k : κ} {count : Nat}

theorem IsBlock.getElem?_iff (h : IsBlock closes keys k before count after) (i : Nat) :
    keys[i]? = some k ↔ before.length ≤ i ∧ i < before.length + count := by
  rw [h.keys_eq, getElem?_append, getElem?_append, getElem?_replicate, length_replicate]
  have hbefore : before[i]? ≠ some k := fun heq => h.notBefore (mem_of_getElem? heq)
  have hafter : after[i - before.length - count]? ≠ some k := fun heq =>
    h.notAfter (mem_of_getElem? heq)
  split_ifs with hi hcount
  · exact ⟨fun heq => absurd heq hbefore, fun hle => absurd hle.1 (by omega)⟩
  · exact ⟨fun _ => by omega, fun _ => rfl⟩
  · exact ⟨fun heq => absurd heq hafter, fun hle => absurd hle.2 (by omega)⟩

theorem IsBlock.closed_of_getElem? (h : IsBlock closes keys k before count after) {k' : κ}
    (hk' : keys[before.length + count]? = some k') : closes k k' = true := by
  have hlen : (before ++ List.replicate count k).length = before.length + count := by
    rw [length_append, length_replicate]
  rw [h.keys_eq, ← append_assoc, ← hlen, getElem?_append_right (Nat.le_refl _),
    Nat.sub_self, ← List.head?_eq_getElem?] at hk'
  exact h.closed k' hk'

def InBlocks (closes : κ → κ → Bool) (keys : List κ) : Prop :=
  ∀ k ∈ keys, ∃ before count after, IsBlock closes keys k before count after

theorem InBlocks.change {keys : List κ} (h : InBlocks closes keys) {front back : List κ} {a b : κ}
    (hkeys : keys = front ++ [a] ++ b :: back) (hne : b ≠ a) :
    b ∉ front ++ [a] ∧ a ∉ b :: back ∧ closes a b = true := by
  have ha : keys[front.length]? = some a := by
    rw [hkeys, append_assoc, getElem?_append_right (Nat.le_refl _), Nat.sub_self]
    rfl
  have hb : keys[front.length + 1]? = some b := by
    have hlen : (front ++ [a]).length = front.length + 1 := length_append
    rw [hkeys, ← hlen, getElem?_append_right (Nat.le_refl _), Nat.sub_self]
    rfl
  have hmem : a ∈ keys := mem_of_getElem? ha
  have hmem' : b ∈ keys := mem_of_getElem? hb
  obtain ⟨before, count, after, block⟩ := h a hmem
  obtain ⟨before', count', after', block'⟩ := h b hmem'
  have hina := (block.getElem?_iff _).mp ha
  have hinb := (block'.getElem?_iff _).mp hb
  have houta : ¬(before.length ≤ front.length + 1 ∧ front.length + 1 < before.length + count) :=
    fun hin => hne (Option.some.inj (hb.symm.trans ((block.getElem?_iff _).mpr hin)))
  have houtb : ¬(before'.length ≤ front.length ∧ front.length < before'.length + count') :=
    fun hin => hne (Option.some.inj (((block'.getElem?_iff _).mpr hin).symm.trans ha))
  refine ⟨fun hin => ?_, fun hin => ?_, block.closed_of_getElem? ?_⟩
  · obtain ⟨i, hi⟩ := getElem?_of_mem hin
    have hlt := (List.getElem?_eq_some_iff.mp hi).1
    rw [length_append, length_singleton] at hlt
    have hkey : keys[i]? = some b := by
      rw [hkeys, getElem?_append_left, hi]
      rw [length_append, length_singleton]
      exact hlt
    have hplace := (block'.getElem?_iff i).mp hkey
    omega
  · obtain ⟨i, hi⟩ := getElem?_of_mem hin
    have hlen : (front ++ [a]).length = front.length + 1 := length_append
    have hkey : keys[front.length + 1 + i]? = some a := by
      rw [hkeys, ← hlen, getElem?_append_right (Nat.le_add_right _ _), Nat.add_sub_cancel_left, hi]
    have hplace := (block.getElem?_iff _).mp hkey
    omega
  · have hend : before.length + count = front.length + 1 := by omega
    rw [hend, hb]

/-! ## The pass -/

variable [DecidableEq κ]

structure KeyRun (κ : Type) where
  key : κ
  first : Nat
  count : Nat

variable (closes) in
/-- The pass in front of the element `position`, with the run it is in; the last run is recorded at
the end. -/
def keyRuns (current : κ) (first count position : Nat) : List κ → List (KeyRun κ)
  | [] => [⟨current, first, count⟩]
  | k :: ks =>
    if k = current then keyRuns current first (count + 1) (position + 1) ks
    else if closes current k then
      ⟨current, first, count⟩ :: keyRuns k position 1 (position + 1) ks
    else keyRuns k first 1 (position + 1) ks

theorem mem_of_mem_keyRuns {current : κ} {first count position : Nat} {ks : List κ} {r : KeyRun κ}
    (hr : r ∈ keyRuns closes current first count position ks) : r.key ∈ current :: ks := by
  induction ks generalizing current first count position with
  | nil =>
    obtain rfl := mem_singleton.mp hr
    exact mem_cons_self
  | cons k ks ih =>
    rw [keyRuns] at hr
    split_ifs at hr with hk hcloses
    · subst hk
      exact mem_cons_of_mem _ (ih hr)
    · cases hr with
      | head => exact mem_cons_self
      | tail _ hr => exact mem_cons_of_mem _ (ih hr)
    · exact mem_cons_of_mem _ (ih hr)

theorem exists_mem_keyRuns (current : κ) (first count position : Nat) (ks : List κ) :
    ∃ r, r ∈ keyRuns closes current first count position ks := by
  induction ks generalizing current first count position with
  | nil => exact ⟨_, mem_singleton.mpr rfl⟩
  | cons k ks ih =>
    rw [keyRuns]
    split_ifs
    · exact ih _ _ _ _
    · exact ⟨_, mem_cons_self⟩
    · exact ih _ _ _ _

theorem keyRuns_map {γ : Type} [DecidableEq γ] {closes' : γ → γ → Bool} {f : κ → γ} {p : κ → Prop}
    (hinj : ∀ a b, p a → p b → f a = f b → a = b)
    (hcloses : ∀ a b, p a → p b → closes' (f a) (f b) = closes a b) {current : κ}
    (hcurrent : p current) {ks : List κ} (hks : ∀ k ∈ ks, p k) (first count position : Nat) :
    keyRuns closes' (f current) first count position (ks.map f) =
      (keyRuns closes current first count position ks).map fun r =>
        ⟨f r.key, r.first, r.count⟩ := by
  induction ks generalizing current first count position with
  | nil => rfl
  | cons k ks ih =>
    obtain ⟨hk, hks⟩ := forall_mem_cons.mp hks
    rw [map_cons, keyRuns, keyRuns, hcloses current k hcurrent hk]
    by_cases heq : k = current
    · rw [if_pos heq, if_pos (congrArg f heq), ih hcurrent hks]
    rw [if_neg heq, if_neg fun h => heq (hinj k current hk hcurrent h)]
    by_cases hclosed : closes current k = true
    · rw [if_pos hclosed, if_pos hclosed, map_cons, ih hk hks]
    · rw [if_neg hclosed, if_neg hclosed, ih hk hks]

variable (closes) in
def KeyRun.Stands (r : KeyRun κ) (keys : List κ) : Prop :=
  ∃ before after, keys = before ++ (List.replicate r.count r.key ++ after) ∧
    ∀ k ∈ after.head?, k ≠ r.key ∧ closes r.key k = true

theorem keyRuns_stands {current : κ} {first : Nat} {ks : List κ}
    (hkeys : keys = before ++ (List.replicate count current ++ ks)) (position : Nat)
    {r : KeyRun κ} (hr : r ∈ keyRuns closes current first count position ks) :
    r.Stands closes keys := by
  induction ks generalizing current first count before position with
  | nil =>
    obtain rfl := mem_singleton.mp hr
    exact ⟨before, [], hkeys, fun k hk => by cases hk⟩
  | cons k ks ih =>
    rw [keyRuns] at hr
    -- a run of one element starts
    have hnext : keys = (before ++ List.replicate count current) ++ (List.replicate 1 k ++ ks) := by
      rw [hkeys, append_assoc]
      rfl
    by_cases hk : k = current
    · rw [if_pos hk] at hr
      have hlonger : keys = before ++ (List.replicate (count + 1) current ++ ks) := by
        rw [hkeys, hk, replicate_succ', append_assoc]
        rfl
      exact ih hlonger (position + 1) hr
    rw [if_neg hk] at hr
    by_cases hcloses : closes current k = true
    · rw [if_pos hcloses] at hr
      cases hr with
      | head =>
        refine ⟨before, k :: ks, hkeys, fun k' hk' => ?_⟩
        obtain rfl : k = k' := Option.some.inj hk'
        exact ⟨hk, hcloses⟩
      | tail _ hr => exact ih hnext (position + 1) hr
    · rw [if_neg hcloses] at hr
      exact ih hnext (position + 1) hr

/-! ## When all of it is recorded -/

namespace IsBlock

theorem count_eq (h : IsBlock closes keys k before count after) : keys.count k = count := by
  rw [h.keys_eq, count_append, count_append, count_replicate_self,
    List.count_eq_zero.mpr h.notBefore, List.count_eq_zero.mpr h.notAfter, Nat.zero_add,
    Nat.add_zero]

theorem idxOf_eq (h : IsBlock closes keys k before (count + 1) after) :
    keys.idxOf k = before.length := by
  rw [h.keys_eq, idxOf_append_of_notMem h.notBefore]
  exact congrArg (before.length + ·) idxOf_cons_self

theorem right (h : IsBlock closes keys k before (count + 1) after) :
    before.length = keys.idxOf k ∧ count + 1 = keys.count k :=
  ⟨h.idxOf_eq.symm, h.count_eq.symm⟩

end IsBlock

theorem KeyRun.Stands.count_le {r : KeyRun κ} {keys : List κ} (h : r.Stands closes keys) :
    r.count ≤ keys.count r.key := by
  obtain ⟨before, after, hkeys, -⟩ := h
  rw [hkeys, count_append, count_append, count_replicate_self]
  omega

theorem KeyRun.Stands.isBlock {r : KeyRun κ} {keys : List κ} (h : r.Stands closes keys)
    (hcount : keys.count r.key = r.count) :
    ∃ before after, IsBlock closes keys r.key before r.count after := by
  obtain ⟨before, after, hkeys, hafter⟩ := h
  rw [hkeys, count_append, count_append, count_replicate_self] at hcount
  exact ⟨before, after, hkeys, List.count_eq_zero.mp (by omega), List.count_eq_zero.mp (by omega),
    fun k hk => (hafter k hk).2⟩

theorem keyRuns_of_inBlocks {current : κ} {count : Nat} {keys before ks : List κ}
    (h : InBlocks closes keys) (hkeys : keys = before ++ (List.replicate (count + 1) current ++ ks))
    (hnot : current ∉ before) :
    (∀ r ∈ keyRuns closes current before.length (count + 1) (before.length + (count + 1)) ks,
      r.first = keys.idxOf r.key ∧ r.count = keys.count r.key) ∧
    ∀ k ∈ current :: ks, ∃ r ∈ keyRuns closes current before.length (count + 1)
      (before.length + (count + 1)) ks, r.key = k := by
  induction ks generalizing current count before with
  | nil =>
    refine ⟨fun r hr => ?_, fun k hk => ⟨_, mem_singleton.mpr rfl, ?_⟩⟩
    · obtain rfl := mem_singleton.mp hr
      have hblock : IsBlock closes keys current before (count + 1) [] :=
        ⟨hkeys, hnot, not_mem_nil, fun k hk => by cases hk⟩
      exact hblock.right
    · exact (mem_singleton.mp hk).symm
  | cons k ks ih =>
    rw [keyRuns]
    by_cases hk : k = current
    · rw [if_pos hk]
      subst hk
      have hlonger : keys = before ++ (List.replicate (count + 1 + 1) k ++ ks) := by
        have hsucc : List.replicate (count + 1 + 1) k = List.replicate (count + 1) k ++ [k] :=
          replicate_succ'
        rw [hkeys, hsucc, append_assoc]
        rfl
      obtain ⟨hright, hall⟩ := ih hlonger hnot
      refine ⟨hright, fun k' hk' => hall k' ?_⟩
      cases hk' with
      | head => exact mem_cons_self
      | tail _ hk' => exact hk'
    · -- the run is recorded, and the next one starts
      have hsplit : keys = (before ++ List.replicate count current) ++ [current] ++ k :: ks := by
        rw [hkeys, replicate_succ', append_assoc, append_assoc, append_assoc]
      obtain ⟨hnew, hnotAfter, hcloses⟩ := h.change hsplit hk
      rw [append_assoc, ← replicate_succ'] at hnew
      have hlen : (before ++ List.replicate (count + 1) current).length =
          before.length + (count + 1) := by
        rw [length_append, length_replicate]
      have hnext : keys = (before ++ List.replicate (count + 1) current) ++
          (List.replicate (0 + 1) k ++ ks) := by
        rw [hkeys, append_assoc]
        rfl
      have hright := IsBlock.right ⟨hkeys, hnot, hnotAfter, fun k' hk' => by
        obtain rfl : k = k' := Option.some.inj hk'
        exact hcloses⟩
      rw [if_neg hk, if_pos hcloses, ← hlen]
      obtain ⟨hrest, hall⟩ := ih hnext hnew
      refine ⟨forall_mem_cons.mpr ⟨hright, hrest⟩, fun k' hk' => ?_⟩
      cases hk' with
      | head => exact ⟨_, mem_cons_self, rfl⟩
      | tail _ hk' =>
        obtain ⟨r, hr, hkey⟩ := hall k' hk'
        exact ⟨r, mem_cons_of_mem _ hr, hkey⟩

end Lists
