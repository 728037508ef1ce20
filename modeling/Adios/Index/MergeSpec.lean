import Adios.Index.Merge
import Adios.Lists.InsertWith

/-!
# Adios — what merging indexes comes to

The lists that `adios_merge_index_v1` leaves, over any sequence of indexes: the process groups one
list after the other, and the variables and attributes collected by their keys. For the variables
the list, the pointer to its last cell and the hash table keep to the same cells (`VarsRep`), one
step of the loop at a time.
-/

namespace Adios

open List Heap Lists UInt64

/-! ## Entries -/

def appendEntry (old item : IndexEntry) : IndexEntry :=
  { old with characteristics := old.characteristics ++ item.characteristics }

/-- What becomes of a variable when another one of its path and name comes: one of another group
is left out. -/
def combineVar (old item : IndexEntry) : IndexEntry :=
  if old.groupName = item.groupName then appendEntry old item else old

@[simp] theorem varKey_combineVar (old item : IndexEntry) :
    varKey (combineVar old item) = varKey old := by
  unfold combineVar
  split_ifs <;> rfl

@[simp] theorem attrKey_appendEntry (old item : IndexEntry) :
    attrKey (appendEntry old item) = attrKey old := rfl

def setCount (es : List IndexEntry) : Nat := (es.map fun e => e.characteristics.length).sum

@[simp] theorem setCount_cons (e : IndexEntry) (es : List IndexEntry) :
    setCount (e :: es) = e.characteristics.length + setCount es := by
  simp [setCount]

@[simp] theorem setCount_append (es es' : List IndexEntry) :
    setCount (es ++ es') = setCount es + setCount es' := by
  simp [setCount]

theorem setCount_insertWith_le {κ : Type} [DecidableEq κ] (key : IndexEntry → κ)
    {comb : IndexEntry → IndexEntry → IndexEntry}
    (hcomb : ∀ old item, (comb old item).characteristics.length ≤
      old.characteristics.length + item.characteristics.length)
    (es : List IndexEntry) (item : IndexEntry) :
    setCount (insertWith key comb es item) ≤ setCount es + item.characteristics.length := by
  induction es with
  | nil => simp [insertWith, setCount]
  | cons e es ih =>
    rw [insertWith]
    split_ifs
    · have hlen := hcomb e item
      simp only [setCount_cons]
      omega
    · simp only [setCount_cons]
      omega

theorem length_appendEntry_le (old item : IndexEntry) :
    (appendEntry old item).characteristics.length ≤
      old.characteristics.length + item.characteristics.length := by
  simp [appendEntry]

theorem length_combineVar_le (old item : IndexEntry) :
    (combineVar old item).characteristics.length ≤
      old.characteristics.length + item.characteristics.length := by
  unfold combineVar
  split_ifs
  · simp [appendEntry]
  · omega

theorem length_le_setCount {e : IndexEntry} {es : List IndexEntry} (h : e ∈ es) :
    e.characteristics.length ≤ setCount es := by
  induction es with
  | nil => cases h
  | cons e' es ih =>
    rw [setCount_cons]
    rcases mem_cons.mp h with rfl | h
    · omega
    · have := ih h
      omega

structure StoredEntry.Wf (e : StoredEntry) : Prop where
  count : e.characteristicsCount.toNat = e.entry.characteristics.length
  allocated : e.characteristicsCount ≤ e.characteristicsAllocated
  room : e.characteristicsAllocated.toNat ≤ e.room

/-- An entry with fewer sets than an `int` counts. -/
structure StoredEntry.Small (e : StoredEntry) : Prop extends e.Wf where
  small : e.entry.characteristics.length < 2 ^ 31

theorem newItems_toNat (count : UInt64) (h : count.toNat < 2 ^ 31) :
    count.toNat ≤ (newItems count).toNat ∧ (newItems count).toNat < 2 ^ 31 := by
  unfold newItems
  split_ifs with hone
  · subst hone
    decide
  · have hmod : Int.bmod (count.toNat : Int) (2 ^ 32) = count.toNat := by
      apply Int.bmod_eq_of_le <;> omega
    rw [hmod]
    have heq : (UInt64.ofInt (count.toNat : Int)).toNat = count.toNat := by
      rw [UInt64.ofInt, toNat_ofNat']
      omega
    omega

theorem appendCharacteristics_eq {canAlloc : UInt64 → Bool} (hmem : ∀ n, canAlloc n = true)
    {old item : StoredEntry} (hold : old.Wf) (hitem : item.Small)
    (hsum : old.entry.characteristics.length + item.entry.characteristics.length < 2 ^ 63) :
    ∃ merged, appendCharacteristics canAlloc old item = .ok (merged, true) ∧ merged.Wf ∧
      merged.entry = appendEntry old.entry item.entry := by
  have hcount : (old.characteristicsCount + item.characteristicsCount).toNat =
      old.characteristicsCount.toNat + item.characteristicsCount.toNat := by
    rw [UInt64.toNat_add, hold.count, hitem.count]
    omega
  -- the room is enough, whether or not there had to be more of it
  have hroom : ∃ old', reallocCharacteristics canAlloc old item = (old', true) ∧
      old'.entry = old.entry ∧ old'.characteristicsCount = old.characteristicsCount ∧
      old.characteristicsCount.toNat + item.characteristicsCount.toNat ≤
        old'.characteristicsAllocated.toNat ∧
      old'.characteristicsAllocated.toNat ≤ old'.room := by
    unfold reallocCharacteristics
    split_ifs with hlt
    · obtain ⟨hle, hnew⟩ := newItems_toNat item.characteristicsCount
        (by rw [hitem.count]; exact hitem.small)
      refine ⟨_, if_pos (hmem _), rfl, rfl, ?_, Nat.le_refl _⟩
      have hadd : (old.characteristicsCount + newItems item.characteristicsCount).toNat =
          old.characteristicsCount.toNat + (newItems item.characteristicsCount).toNat := by
        rw [UInt64.toNat_add]
        have := hold.count
        omega
      show _ ≤ (old.characteristicsCount + newItems item.characteristicsCount).toNat
      omega
    · refine ⟨old, rfl, rfl, rfl, ?_, hold.room⟩
      rw [lt_iff_toNat_lt, hcount] at hlt
      omega
  obtain ⟨old', hrealloc, hentry, hcnt, hle, hroom⟩ := hroom
  have htake : item.entry.characteristics.take item.characteristicsCount.toNat =
      item.entry.characteristics := by
    rw [hitem.count, take_length]
  refine ⟨{ old' with
      entry := appendEntry old.entry item.entry
      characteristicsCount := old.characteristicsCount + item.characteristicsCount }, ?_, ?_, rfl⟩
  · unfold appendCharacteristics copyCharacteristics
    rw [hrealloc]
    simp only [if_true, hcnt, if_pos (Nat.le_trans hle hroom), hentry, htake]
    rfl
  · constructor
    · show (old.characteristicsCount + item.characteristicsCount).toNat = _
      rw [hcount, hold.count, hitem.count]
      simp [appendEntry]
    · show old.characteristicsCount + item.characteristicsCount ≤ old'.characteristicsAllocated
      rw [le_iff_toNat_le, hcount]
      exact hle
    · exact hroom

/-! ## Variables -/

/-- The list of the variables, the pointer to its last cell and the hash table describe the cells
of `s`. -/
structure VarsRep (st : IndexStore) (s : List (Addr × StoredEntry)) : Prop where
  list : st.vars.Holds s
  tail : st.varsTail = (addrs s).getLast?
  hash : ∀ k a, st.hashtblVars k = some a ↔ ∃ e, (a, e) ∈ s ∧ varKey e.entry = k
  keys : (s.map fun x => varKey x.2.entry).Nodup
  wf : ∀ x ∈ s, x.2.Wf

def entries (s : List (Addr × StoredEntry)) : List IndexEntry := s.map fun x => x.2.entry

@[simp] theorem entries_append (s t : List (Addr × StoredEntry)) :
    entries (s ++ t) = entries s ++ entries t := by
  simp [entries]

@[simp] theorem entries_cons (x : Addr × StoredEntry) (s : List (Addr × StoredEntry)) :
    entries (x :: s) = x.2.entry :: entries s := rfl

@[simp] theorem entries_nil : entries [] = [] := rfl

structure VarsFrame (st st' : IndexStore) (touched : List Addr) : Prop where
  pgs : st'.pgs = st.pgs
  attrs : st'.attrs = st.attrs
  store : ∀ a, a ∉ touched → st'.vars.store a = st.vars.store a

section Moved

variable {σ σ' τ : Store StoredEntry} {s s' t : List (Addr × StoredEntry)}
  {x : Addr × StoredEntry} {c : Cell StoredEntry} (hadd : ∀ a ∈ addrs s', a ∈ addrs s ++ [x.1])
  (hframe : ∀ a, a ∉ addrs s ++ [x.1] → σ' a = σ.set x.1 c a)

include hadd in
theorem moved_disjoint (hx : x.1 ∉ addrs t) (hdisjoint : ∀ a ∈ addrs s, a ∉ addrs (x :: t)) :
    ∀ a ∈ addrs s', a ∉ addrs t := by
  intro a ha hat
  rcases mem_append.mp (hadd a ha) with ha | ha
  · exact hdisjoint a ha (by simp [hat])
  · have heq : a = x.1 := by simpa using ha
    exact hx (heq ▸ hat)

include hadd in
theorem moved_addrs : ∀ a ∈ addrs s' ++ addrs t, a ∈ addrs s ++ addrs (x :: t) := by
  intro a ha
  rcases mem_append.mp ha with ha | ha
  · have := hadd a ha
    simp at this ⊢
    tauto
  · simp [ha]

include hframe in
theorem moved_rest {next : Option Addr} (hx : x.1 ∉ addrs t)
    (hdisjoint : ∀ a ∈ addrs s, a ∉ addrs (x :: t)) (h : IsList σ next t) : IsList σ' next t := by
  refine Seg.congr h fun a ha => ?_
  have hne : a ≠ x.1 := fun heq => hx (heq ▸ ha)
  have has : a ∉ addrs s := fun hmem => hdisjoint a hmem (by simp [ha])
  rw [hframe a (by simp [hne, has])]
  exact Store.set_of_ne _ _ hne

include hadd hframe in
theorem moved_frame (h : ∀ a, a ∉ addrs s' ++ addrs t → τ a = σ' a) :
    ∀ a, a ∉ addrs s ++ addrs (x :: t) → τ a = σ a := by
  intro a ha
  rw [h a fun hmem => ha (moved_addrs hadd a hmem)]
  simp only [addrs_cons, mem_append, mem_cons, not_or] at ha
  rw [hframe a (by simp [ha.1, ha.2.1])]
  exact Store.set_of_ne _ _ ha.2.1

end Moved

section Vars

variable {st : IndexStore} {s : List (Addr × StoredEntry)} {item : Addr} {i : Cell StoredEntry}

theorem insertVar_spec (h : VarsRep st s) (hitem : item ∉ addrs s) (hwf : i.val.Wf)
    (hkey : ∀ x ∈ s, varKey x.2.entry ≠ varKey i.val.entry) :
    ∃ st', insertVar item i st = .ok st' ∧ VarsRep st' (s ++ [(item, i.val)]) ∧
      VarsFrame st st' (addrs s ++ [item]) := by
  have hnew : IsList (st.vars.store.set item { i with next := none }) (some item)
      [(item, i.val)] := ⟨rfl, none, Store.set_self _ _ _, rfl⟩
  have hold : IsList (st.vars.store.set item { i with next := none }) st.vars.root s :=
    h.list.set hitem
  have hrest : ∀ st' : IndexStore, st'.varsTail = some item →
      st'.hashtblVars = Function.update st.hashtblVars (varKey i.val.entry) (some item) →
      st'.vars.Holds (s ++ [(item, i.val)]) → VarsRep st' (s ++ [(item, i.val)]) := by
    intro st' htail hhash hlist
    refine ⟨hlist, by rw [htail]; simp, fun k a => ?_, ?_, ?_⟩
    · rw [hhash]
      by_cases hk : k = varKey i.val.entry
      · subst hk
        rw [Function.update_self]
        constructor
        · rintro ⟨⟩
          exact ⟨i.val, by simp, rfl⟩
        · rintro ⟨e, he, hke⟩
          rcases mem_append.mp he with he | he
          · exact absurd hke (hkey _ he)
          · obtain ⟨rfl, -⟩ := Prod.mk.inj (mem_singleton.mp he)
            rfl
      · rw [Function.update_of_ne hk, h.hash]
        constructor
        · rintro ⟨e, he, hke⟩
          exact ⟨e, mem_append_left _ he, hke⟩
        · rintro ⟨e, he, hke⟩
          rcases mem_append.mp he with he | he
          · exact ⟨e, he, hke⟩
          · obtain ⟨-, rfl⟩ := Prod.mk.inj (mem_singleton.mp he)
            exact absurd hke.symm hk
    · rw [map_append, nodup_append]
      refine ⟨h.keys, by simp, fun k hk k' hk' heq => ?_⟩
      obtain ⟨x, hx, rfl⟩ := mem_map.mp hk
      have hk' : k' = varKey i.val.entry := by simpa using hk'
      exact hkey x hx (heq.trans hk')
    · intro x hx
      rcases mem_append.mp hx with hx | hx
      · exact h.wf x hx
      · rw [mem_singleton.mp hx]
        exact hwf
  rcases eq_nil_or_concat s with rfl | ⟨s, x, rfl⟩
  · -- "Very first variable"
    have hroot : st.vars.root = none := h.list
    unfold insertVar
    simp only [hroot]
    refine ⟨_, rfl, hrest _ rfl rfl hnew, rfl, rfl, fun a ha => ?_⟩
    exact Store.set_of_ne _ _ (by simpa using ha)
  · rw [concat_eq_append] at h hitem hkey hold hrest ⊢
    obtain ⟨root, hroot⟩ : ∃ root, st.vars.root = some root := by
      have hlist := h.list
      cases s with
      | nil => exact ⟨_, hlist.1⟩
      | cons y s => exact ⟨_, hlist.1⟩
    have htail : st.varsTail = some x.1 := by rw [h.tail]; simp
    obtain ⟨next, hcell⟩ := hold.cell (x := x) (by simp)
    have hlink := hold.link hnew (x := x) (by
      intro hmem
      have heq : x.1 = item := by simpa using hmem
      exact hitem (by simp [← heq]))
    unfold insertVar
    simp only [hroot, htail, deref, bind, Except.bind, hcell]
    refine ⟨_, rfl, hrest _ rfl rfl (by rw [← hroot]; exact hlink), rfl, rfl, fun a ha => ?_⟩
    simp only [addrs_append, addrs_cons, addrs_nil, mem_append, mem_singleton, not_or] at ha
    show ((st.vars.store.set item _).set x.1 _) a = _
    rw [Store.set_of_ne _ _ ha.1.2, Store.set_of_ne _ _ ha.2]

theorem VarsRep.replace {s₁ s₂ : List (Addr × StoredEntry)} {a : Addr} {e e' : StoredEntry}
    (h : VarsRep st (s₁ ++ (a, e) :: s₂)) {vars : Linked StoredEntry}
    (hlist : vars.Holds (s₁ ++ (a, e') :: s₂)) (hwf : e'.Wf)
    (hkey : varKey e'.entry = varKey e.entry) :
    VarsRep { st with vars := vars } (s₁ ++ (a, e') :: s₂) where
  list := hlist
  tail := by
    rw [h.tail]
    simp
  hash := by
    intro k b
    rw [h.hash]
    simp only [mem_append, mem_cons, Prod.mk.injEq]
    constructor
    · rintro ⟨x, hx | ⟨rfl, rfl⟩ | hx, rfl⟩
      · exact ⟨x, Or.inl hx, rfl⟩
      · exact ⟨e', Or.inr (Or.inl ⟨rfl, rfl⟩), hkey⟩
      · exact ⟨x, Or.inr (Or.inr hx), rfl⟩
    · rintro ⟨x, hx | ⟨rfl, rfl⟩ | hx, rfl⟩
      · exact ⟨x, Or.inl hx, rfl⟩
      · exact ⟨e, Or.inr (Or.inl ⟨rfl, rfl⟩), hkey.symm⟩
      · exact ⟨x, Or.inr (Or.inr hx), rfl⟩
  keys := by
    have hkeys := h.keys
    rw [map_append, map_cons] at hkeys ⊢
    rwa [hkey]
  wf := by
    intro x hx
    rcases mem_append.mp hx with hx | hx
    · exact h.wf x (by simp [hx])
    · rcases mem_cons.mp hx with rfl | hx
      · exact hwf
      · exact h.wf x (by simp [hx])

theorem indexAppendVarV1_spec {canAlloc : UInt64 → Bool} (hmem : ∀ n, canAlloc n = true)
    (h : VarsRep st s) (hitem : item ∉ addrs s) (hcell : st.vars.store item = some i)
    (hsmall : i.val.Small)
    (hsum : setCount (entries s) + i.val.entry.characteristics.length < 2 ^ 63) :
    ∃ st' s', indexAppendVarV1 canAlloc item st = .ok st' ∧ VarsRep st' s' ∧
      entries s' = insertWith varKey combineVar (entries s) i.val.entry ∧
      (∀ a ∈ addrs s', a ∈ addrs s ++ [item]) ∧ VarsFrame st st' (addrs s ++ [item]) := by
  unfold indexAppendVarV1
  simp only [hcell, deref, bind, Except.bind]
  cases hhash : st.hashtblVars (varKey i.val.entry) with
  | none =>
    have hkey : ∀ x ∈ s, varKey x.2.entry ≠ varKey i.val.entry := by
      intro x hx heq
      rw [(h.hash _ x.1).mpr ⟨x.2, hx, heq⟩] at hhash
      cases hhash
    obtain ⟨st', hst', hrep, hframe⟩ := insertVar_spec h hitem hsmall.toWf hkey
    refine ⟨st', _, hst', hrep, ?_, fun a ha => by simpa using ha, hframe⟩
    rw [insertWith_of_notMem]
    · simp
    · intro y hy
      obtain ⟨x, hx, rfl⟩ := mem_map.mp hy
      exact hkey x hx
  | some old =>
    obtain ⟨e, he, hkey⟩ := (h.hash _ old).mp hhash
    obtain ⟨s₁, s₂, rfl⟩ := append_of_mem he
    obtain ⟨next, hold⟩ := h.list.cell he
    -- the other entries have other keys
    have hother : ∀ y ∈ entries s₁, varKey y ≠ varKey i.val.entry := by
      intro y hy heq
      obtain ⟨x, hx, rfl⟩ := mem_map.mp hy
      have hkeys := h.keys
      rw [map_append, map_cons, nodup_append] at hkeys
      exact hkeys.2.2 _ (mem_map_of_mem hx) _ (by simp) (heq.trans hkey.symm)
    have hins :
        insertWith varKey combineVar (entries s₁ ++ e.entry :: entries s₂) i.val.entry = _ :=
      insertWith_append hother hkey
    simp only [mergeVar, hold, deref, bind, Except.bind]
    by_cases hgroup : e.entry.groupName = i.val.entry.groupName
    · obtain ⟨merged, hmerged, hwf, hentry⟩ := appendCharacteristics_eq hmem (h.wf _ he) hsmall (by
        have hle := length_le_setCount (show e.entry ∈ entries (s₁ ++ (old, e) :: s₂) by simp)
        show e.entry.characteristics.length + _ < _
        omega)
      have hlist : (⟨st.vars.root, (st.vars.store.set old ⟨merged, next⟩).free item⟩ :
          Linked StoredEntry).Holds (s₁ ++ (old, merged) :: s₂) :=
        Seg.free (h.list.update hold) (by simpa using hitem)
      rw [if_neg (by simpa using hgroup), hmerged]
      refine ⟨_, _, rfl, h.replace hlist hwf (by rw [hentry]; rfl), ?_, ?_, rfl, rfl, ?_⟩
      · rw [entries_append, entries_cons, entries_append, entries_cons, hins, hentry, combineVar,
          if_pos hgroup]
      · intro a ha
        simp at ha ⊢
        tauto
      · intro a ha
        simp only [addrs_append, addrs_cons, mem_append, mem_cons, not_mem_nil,
          or_false, not_or] at ha
        show (st.vars.store.set old ⟨merged, next⟩).free item a = _
        rw [Store.free_of_ne _ ha.2, Store.set_of_ne _ _ ha.1.2.1]
    · -- the variable of the other group is left out
      rw [if_pos hgroup]
      refine ⟨st, _, rfl, h, ?_, fun a ha => mem_append_left _ ha, rfl, rfl, fun _ _ => rfl⟩
      rw [entries_append, entries_cons, hins, combineVar, if_neg hgroup]

theorem VarsRep.of_holds {vars : Linked StoredEntry} (h : VarsRep st s) (hlist : vars.Holds s) :
    VarsRep { st with vars := vars } s :=
  ⟨hlist, h.tail, h.hash, h.keys, h.wf⟩

theorem mergeVars_spec {canAlloc : UInt64 → Bool} (hmem : ∀ n, canAlloc n = true)
    {t : List (Addr × StoredEntry)} {v : Option Addr} (h : VarsRep st s)
    (hv : IsList st.vars.store v t) (hdisjoint : ∀ a ∈ addrs s, a ∉ addrs t)
    (hsmall : ∀ x ∈ t, x.2.Small)
    (hsum : setCount (entries s) + setCount (entries t) < 2 ^ 63) :
    ∃ st' s', (∀ fuel ≥ t.length, mergeVars canAlloc fuel v st = .ok st') ∧ VarsRep st' s' ∧
      entries s' = (entries t).foldl (insertWith varKey combineVar) (entries s) ∧
      (∀ a ∈ addrs s', a ∈ addrs s ++ addrs t) ∧ VarsFrame st st' (addrs s ++ addrs t) := by
  induction t generalizing st s v with
  | nil =>
    have hnone : v = none := hv
    subst hnone
    exact ⟨st, s, fun _ _ => by rw [mergeVars], h, rfl, fun a ha => by simpa using ha,
      rfl, rfl, fun _ _ => rfl⟩
  | cons x t ih =>
    have hnodup := hv.nodup
    obtain ⟨rfl, next, hcell, htail⟩ := hv
    obtain ⟨hx, -⟩ := nodup_cons.mp hnodup
    have hxs : x.1 ∉ addrs s := fun hmem => hdisjoint _ hmem (by simp)
    -- `v->next = 0`, and the variable goes into the main list
    have hcut : VarsRep { st with vars := ⟨st.vars.root, st.vars.store.set x.1 ⟨x.2, none⟩⟩ } s :=
      h.of_holds (h.list.set hxs)
    rw [entries_cons, setCount_cons] at hsum
    obtain ⟨st₁, s₁, happend, hrep₁, hentries₁, haddrs₁, hframe₁⟩ :=
      indexAppendVarV1_spec hmem hcut hxs
        (Store.set_self _ _ _) (hsmall x (by simp)) (by
          show setCount (entries s) + x.2.entry.characteristics.length < _
          omega)
    have hcount := setCount_insertWith_le varKey length_combineVar_le (entries s) x.2.entry
    rw [← hentries₁] at hcount
    obtain ⟨st', s', hmerge, hrep', hentries', haddrs', hframe'⟩ := ih hrep₁
      (moved_rest hframe₁.store hx hdisjoint htail) (moved_disjoint haddrs₁ hx hdisjoint)
      (fun y hy => hsmall y (by simp [hy])) (by omega)
    refine ⟨st', s', fun fuel hfuel => ?_, hrep', ?_,
      fun a ha => moved_addrs haddrs₁ a (haddrs' a ha), hframe'.pgs.trans hframe₁.pgs,
      hframe'.attrs.trans hframe₁.attrs, moved_frame haddrs₁ hframe₁.store hframe'.store⟩
    · obtain ⟨fuel, rfl⟩ : ∃ n, fuel = n + 1 := Nat.exists_eq_add_one.mpr (Nat.zero_lt_of_lt hfuel)
      rw [mergeVars]
      simp only [hcell, deref, bind, Except.bind, happend]
      exact hmerge fuel (Nat.le_of_succ_le_succ hfuel)
    · rw [hentries', hentries₁]
      rfl

end Vars

/-! ## Process groups -/

theorem indexAppendProcessGroupV1_walk {l : Linked IndexProcessGroup}
    {s t : List (Addr × IndexProcessGroup)} {fuel : Nat} (item : Option Addr) (h : l.Holds (s ++ t))
    (hfuel : t.length < fuel) :
    indexAppendProcessGroupV1 item fuel (slotAfter s) l =
      deref (l.put (slotAfter (s ++ t)) item) := by
  induction t generalizing s fuel with
  | nil =>
    obtain ⟨fuel, rfl⟩ : ∃ n, fuel = n + 1 := Nat.exists_eq_add_one.mpr hfuel
    rw [indexAppendProcessGroupV1, Linked.get_slotAfter h, append_nil]
    rfl
  | cons x t ih =>
    obtain ⟨fuel, rfl⟩ : ∃ n, fuel = n + 1 := Nat.exists_eq_add_one.mpr (by omega)
    rw [append_cons] at h ⊢
    have hnext := ih h (by simpa using hfuel)
    rw [slotAfter_snoc] at hnext
    rw [indexAppendProcessGroupV1, Linked.get_slotAfter (by rw [append_cons]; exact h)]
    exact hnext

theorem indexAppendProcessGroupV1_frame {l : Linked IndexProcessGroup} {item : Option Addr}
    {s t : List (Addr × IndexProcessGroup)} (h : l.Holds s) (hitem : IsList l.store item t)
    (hdisjoint : ∀ a ∈ addrs s, a ∉ addrs t) :
    ∃ l', (∀ fuel > s.length, indexAppendProcessGroupV1 item fuel .root l = .ok l') ∧
      l'.Holds (s ++ t) ∧ ∀ a, a ∉ addrs s → l'.store a = l.store a := by
  obtain ⟨l', hput, hholds, hframe⟩ := Linked.put_slotAfter h hitem hdisjoint
  refine ⟨l', fun fuel hfuel => ?_, hholds, hframe⟩
  have hwalk := indexAppendProcessGroupV1_walk (s := []) item h hfuel
  rwa [nil_append, hput] at hwalk

section Attrs

variable {canAlloc : UInt64 → Bool} {l : Linked StoredEntry} {item : Addr} {i : StoredEntry}

/-- **One attribute** merged into the list, when none of the entries already passed (`s`) has its
key. -/
theorem indexAppendAttributeV1_spec (hmem : ∀ n, canAlloc n = true)
    {s t : List (Addr × StoredEntry)} (h : l.Holds (s ++ t))
    (hwf : ∀ x ∈ s ++ t, x.2.Wf) (hitem : item ∉ addrs (s ++ t))
    (hcell : l.store item = some ⟨i, none⟩) (hsmall : i.Small)
    (hsum : setCount (entries (s ++ t)) + i.entry.characteristics.length < 2 ^ 63)
    (hpassed : ∀ y ∈ entries s, attrKey y ≠ attrKey i.entry) :
    ∃ l' s', (∀ fuel > t.length,
        indexAppendAttributeV1 canAlloc item fuel (slotAfter s) l = .ok l') ∧
      l'.Holds s' ∧ (∀ x ∈ s', x.2.Wf) ∧
      entries s' = insertWith attrKey appendEntry (entries (s ++ t)) i.entry ∧
      (∀ a ∈ addrs s', a ∈ addrs (s ++ t) ++ [item]) ∧
      ∀ a, a ∉ addrs (s ++ t) ++ [item] → l'.store a = l.store a := by
  induction t generalizing s with
  | nil =>
    simp only [append_nil] at h hwf hitem ⊢
    have hnew : IsList l.store (some item) [(item, i)] := ⟨rfl, none, hcell, rfl⟩
    obtain ⟨l', hput, hholds, hframe⟩ := Linked.put_slotAfter h hnew (by
      intro a ha hmem
      have heq : a = item := by simpa using hmem
      exact hitem (heq ▸ ha))
    refine ⟨l', _, fun fuel hfuel => ?_, hholds, ?_, ?_, ?_, ?_⟩
    · obtain ⟨fuel, rfl⟩ : ∃ n, fuel = n + 1 := Nat.exists_eq_add_one.mpr hfuel
      rw [indexAppendAttributeV1, Linked.get_slotAfter (t := []) (by rwa [append_nil])]
      simp only [deref, bind, Except.bind, List.head?_nil, Option.map_none, hput]
    · intro x hx
      rcases mem_append.mp hx with hx | hx
      · exact hwf x hx
      · rw [mem_singleton.mp hx]
        exact hsmall.toWf
    · rw [insertWith_of_notMem hpassed]
      simp
    · intro a ha
      simpa using ha
    · intro a ha
      exact hframe a fun hmem => ha (mem_append_left _ hmem)
  | cons x t ih =>
    obtain ⟨next, hold⟩ := Seg.cell h (x := x) (by simp)
    have hround : ∀ fuel, indexAppendAttributeV1 canAlloc item (fuel + 1) (slotAfter s) l =
        if attrKey i.entry = attrKey x.2.entry then
          mergeAttr canAlloc x.1 item ⟨x.2, next⟩ ⟨i, none⟩ l
        else indexAppendAttributeV1 canAlloc item fuel (.next x.1) l := by
      intro fuel
      rw [indexAppendAttributeV1, Linked.get_slotAfter h]
      simp only [deref, bind, Except.bind, List.head?_cons, Option.map_some, hcell, hold]
    by_cases hkey : attrKey i.entry = attrKey x.2.entry
    · have hle := length_le_setCount (show x.2.entry ∈ entries (s ++ x :: t) by simp)
      obtain ⟨merged, hmerged, hmwf, hentry⟩ :=
        appendCharacteristics_eq hmem (hwf x (by simp)) hsmall (by omega)
      refine ⟨⟨l.root, (l.store.set x.1 ⟨merged, next⟩).free item⟩, s ++ (x.1, merged) :: t,
        fun fuel hfuel => ?_, ?_, ?_, ?_, ?_, ?_⟩
      · obtain ⟨fuel, rfl⟩ : ∃ n, fuel = n + 1 :=
          Nat.exists_eq_add_one.mpr (Nat.zero_lt_of_lt hfuel)
        rw [hround, if_pos hkey, mergeAttr, hmerged]
        rfl
      · exact Seg.free (IsList.update h hold) (by simpa using hitem)
      · intro y hy
        rcases mem_append.mp hy with hy | hy
        · exact hwf y (by simp [hy])
        · rcases mem_cons.mp hy with rfl | hy
          · exact hmwf
          · exact hwf y (by simp [hy])
      · rw [entries_append, entries_cons, entries_append, entries_cons,
          insertWith_append hpassed hkey.symm, hentry]
      · intro a ha
        simp at ha ⊢
        tauto
      · intro a ha
        simp only [addrs_append, addrs_cons, mem_append, mem_cons, not_mem_nil,
          or_false, not_or] at ha
        show (l.store.set x.1 ⟨merged, next⟩).free item a = _
        rw [Store.free_of_ne _ ha.2, Store.set_of_ne _ _ ha.1.2.1]
    · -- on to the next place
      rw [append_cons s x t] at h hwf hitem hsum ⊢
      obtain ⟨l', s', hnext, hrest⟩ := ih h hwf hitem hsum (by
        intro y hy
        rcases mem_append.mp (by rwa [entries_append] at hy) with hy | hy
        · exact hpassed y hy
        · have heq : y = x.2.entry := by simpa using hy
          exact fun hk => hkey (by rw [← hk, heq]))
      refine ⟨l', s', fun fuel hfuel => ?_, hrest⟩
      obtain ⟨fuel, rfl⟩ : ∃ n, fuel = n + 1 := Nat.exists_eq_add_one.mpr (Nat.zero_lt_of_lt hfuel)
      rw [hround, if_neg hkey, ← slotAfter_snoc s x]
      exact hnext fuel (Nat.lt_of_succ_lt_succ hfuel)

theorem mergeAttrs_spec (hmem : ∀ n, canAlloc n = true) {s t : List (Addr × StoredEntry)}
    {v : Option Addr} (h : l.Holds s) (hwf : ∀ x ∈ s, x.2.Wf) (hv : IsList l.store v t)
    (hdisjoint : ∀ a ∈ addrs s, a ∉ addrs t) (hsmall : ∀ x ∈ t, x.2.Small)
    (hsum : setCount (entries s) + setCount (entries t) < 2 ^ 63) :
    ∃ l' s', (∀ rounds > s.length + t.length, ∀ fuel ≥ t.length,
        mergeAttrs canAlloc rounds fuel v l = .ok l') ∧
      l'.Holds s' ∧ (∀ x ∈ s', x.2.Wf) ∧
      entries s' = (entries t).foldl (insertWith attrKey appendEntry) (entries s) ∧
      (∀ a ∈ addrs s', a ∈ addrs s ++ addrs t) ∧
      ∀ a, a ∉ addrs s ++ addrs t → l'.store a = l.store a := by
  induction t generalizing l s v with
  | nil =>
    have hnone : v = none := hv
    subst hnone
    exact ⟨l, s, fun _ _ _ _ => by rw [mergeAttrs], h, hwf, rfl, fun a ha => by simpa using ha,
      fun _ _ => rfl⟩
  | cons x t ih =>
    have hnodup := hv.nodup
    obtain ⟨rfl, next, hcell, htail⟩ := hv
    obtain ⟨hx, -⟩ := nodup_cons.mp hnodup
    have hxs : x.1 ∉ addrs s := fun hmem => hdisjoint _ hmem (by simp)
    -- `a->next = 0`, and the attribute goes into the main list
    have hcut : Linked.Holds ⟨l.root, l.store.set x.1 ⟨x.2, none⟩⟩ ([] ++ s) := Seg.set h hxs
    rw [entries_cons, setCount_cons] at hsum
    obtain ⟨l₁, s₁, happend, hholds₁, hwf₁, hentries₁, haddrs₁, hframe₁⟩ :=
      indexAppendAttributeV1_spec (s := []) (t := s) hmem hcut hwf hxs
        (Store.set_self _ _ _) (hsmall x (by simp)) (by
          rw [nil_append]
          omega) (by simp)
    rw [nil_append] at hentries₁ haddrs₁ hframe₁
    rw [slotAfter_nil] at happend
    have hcount := setCount_insertWith_le attrKey length_appendEntry_le (entries s) x.2.entry
    rw [← hentries₁] at hcount
    have hlen := length_insertWith_le attrKey appendEntry (entries s) x.2.entry
    rw [← hentries₁, entries, entries, length_map, length_map] at hlen
    obtain ⟨l', s', hmerge, hholds', hwf', hentries', haddrs', hframe'⟩ := ih hholds₁ hwf₁
      (moved_rest hframe₁ hx hdisjoint htail) (moved_disjoint haddrs₁ hx hdisjoint)
      (fun y hy => hsmall y (by simp [hy])) (by omega)
    refine ⟨l', s', fun rounds hrounds fuel hfuel => ?_, hholds', hwf', ?_,
      fun a ha => moved_addrs haddrs₁ a (haddrs' a ha), moved_frame haddrs₁ hframe₁ hframe'⟩
    · obtain ⟨fuel, rfl⟩ : ∃ n, fuel = n + 1 := Nat.exists_eq_add_one.mpr (Nat.zero_lt_of_lt hfuel)
      rw [length_cons] at hrounds
      rw [mergeAttrs]
      simp only [hcell, deref, bind, Except.bind, happend rounds (by omega)]
      exact hmerge rounds (by omega) fuel (Nat.le_of_succ_le_succ hfuel)
    · rw [hentries', hentries₁]
      rfl

end Attrs

end Adios
