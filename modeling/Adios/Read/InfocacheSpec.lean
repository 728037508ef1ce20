import Adios.Read.Infocache

/-!
# Adios — the information cache is transparent

The objects of the cache are owned by its entries, and what an entry points to is what an inquiry
would find now. An operation that changes the file without invalidating the cache keeps the second
only where the ids that are cached mean the same as before.
-/

namespace Adios.Infocache

open List

/-! ## Pointers of the cache -/

theorem flatMap_set_perm {α β : Type} {f : α → List β} {x y : α} {b : β}
    (hf : (f y).Perm (b :: f x)) {xs : List α} {i : Nat} (hx : xs[i]? = some x) :
    ((xs.set i y).flatMap f).Perm (b :: xs.flatMap f) := by
  induction xs generalizing i with
  | nil => cases hx
  | cons z zs ih =>
    cases i with
    | zero =>
      cases hx
      rw [set_cons_zero, flatMap_cons, flatMap_cons]
      exact hf.append_right _
    | succ i =>
      rw [set_cons_succ, flatMap_cons, flatMap_cons]
      exact ((ih hx).append_left (f z)).trans perm_middle

theorem flatMap_set_of_eq {α β : Type} {f : α → List β} {x y : α} (hf : f y = f x)
    {xs : List α} {i : Nat} (hx : xs[i]? = some x) : (xs.set i y).flatMap f = xs.flatMap f := by
  induction xs generalizing i with
  | nil => rfl
  | cons z zs ih =>
    cases i with
    | zero =>
      cases hx
      rw [set_cons_zero, flatMap_cons, flatMap_cons, hf]
    | succ i => rw [set_cons_succ, flatMap_cons, flatMap_cons, ih hx]

def InfoSlot.varinfoPtrs (slot : InfoSlot) : List Nat :=
  slot.physicalVarinfo.toList ++ slot.logicalVarinfo.toList

def InfoSlot.transinfoPtrs (slot : InfoSlot) : List Nat := slot.transinfo.toList

/-- The entries own the objects they point to. `adios_infocache_invalidate` relies on it that there
is no transform information without a physical variable. -/
structure CacheOwned (slots : Slots) (h : InfoHeap) : Prop where
  varinfos : Heap.Owned h.varinfos (slots.flatMap InfoSlot.varinfoPtrs)
  transinfos : Heap.Owned h.transinfos (slots.flatMap InfoSlot.transinfoPtrs)
  physical : ∀ slot ∈ slots, slot.transinfo.isSome → slot.physicalVarinfo.isSome
  capacity : (slots.length : Int) ≤ 2147483647

structure SlotRight (hooks : ReadHooks) (fp : AdiosFile) (h : InfoHeap) (varid : Nat)
    (slot : InfoSlot) : Prop where
  varinfo : ∀ view, ∀ p ∈ slot.varinfo view,
    commonReadInqVarByid hooks fp view varid = .ok (h.varinfos.get p)
  transinfo : ∀ q ∈ slot.transinfo, freshTransinfo hooks fp varid = .ok (h.transinfos.get q)

def Coherent (hooks : ReadHooks) (s : CachedFile) : Prop :=
  ∀ varid slot, s.infocache[varid]? = some slot → SlotRight hooks s.fp s.heap varid slot

section Owned

variable {hooks : ReadHooks} {fp : AdiosFile} {slots : Slots} {h : InfoHeap} {slot : InfoSlot}
  {view : DataView} {p i : Nat}

theorem InfoSlot.mem_varinfoPtrs : p ∈ slot.varinfo view → p ∈ slot.varinfoPtrs := by
  intro hp
  cases view with
  | physical => exact mem_append_left _ (Option.mem_toList.mpr hp)
  | logical => exact mem_append_right _ (Option.mem_toList.mpr hp)

theorem CacheOwned.varinfo_live (hown : CacheOwned slots h) (hslot : slots[i]? = some slot)
    (hp : p ∈ slot.varinfo view) : (h.varinfos.get p).isSome ∧ p < h.varinfos.next := by
  have hmem : p ∈ slots.flatMap InfoSlot.varinfoPtrs :=
    mem_flatMap.mpr ⟨slot, mem_of_getElem? hslot, InfoSlot.mem_varinfoPtrs hp⟩
  exact ⟨hown.varinfos.live p hmem, hown.varinfos.lt p hmem⟩

theorem CacheOwned.transinfo_live (hown : CacheOwned slots h) (hslot : slots[i]? = some slot)
    (hp : p ∈ slot.transinfo) : (h.transinfos.get p).isSome ∧ p < h.transinfos.next := by
  have hmem : p ∈ slots.flatMap InfoSlot.transinfoPtrs :=
    mem_flatMap.mpr ⟨slot, mem_of_getElem? hslot, Option.mem_toList.mpr hp⟩
  exact ⟨hown.transinfos.live p hmem, hown.transinfos.lt p hmem⟩

/-! ## The cache grows -/

theorem slotRight_empty (hooks : ReadHooks) (fp : AdiosFile) (h : InfoHeap) (i : Nat) :
    SlotRight hooks fp h i .empty where
  varinfo view p hp := by cases view <;> cases hp
  transinfo := nofun

theorem flatMap_replicate_empty {f : InfoSlot → List Nat} (hf : f .empty = []) (slots : Slots)
    (k : Nat) : (slots ++ List.replicate k InfoSlot.empty).flatMap f = slots.flatMap f := by
  have hnil : (List.replicate k InfoSlot.empty).flatMap f = [] := by
    rw [flatMap_eq_nil_iff]
    intro slot hslot
    rw [eq_of_mem_replicate hslot, hf]
  rw [flatMap_append, hnil, append_nil]

theorem CacheOwned.append_replicate (hown : CacheOwned slots h) {k : Nat}
    (hlen : ((slots.length + k : Nat) : Int) ≤ 2147483647) :
    CacheOwned (slots ++ List.replicate k .empty) h where
  varinfos := by
    rw [flatMap_replicate_empty rfl]
    exact hown.varinfos
  transinfos := by
    rw [flatMap_replicate_empty rfl]
    exact hown.transinfos
  physical slot hslot := by
    rcases mem_append.mp hslot with hslot | hslot
    · exact hown.physical slot hslot
    · rw [eq_of_mem_replicate hslot]
      nofun
  capacity := by
    rw [length_append, length_replicate]
    exact hlen

theorem getElem?_append_replicate {k : Nat}
    (hslot : (slots ++ List.replicate k InfoSlot.empty)[i]? = some slot) :
    slots[i]? = some slot ∨ slot = .empty := by
  rw [getElem?_append] at hslot
  split_ifs at hslot
  · exact .inl hslot
  · exact .inr (eq_of_mem_replicate (mem_of_getElem? hslot))

/-- The ids that the array index and `varid + 1` allow for. -/
def IsId (varid : Int) : Prop := 0 ≤ varid ∧ varid < 2147483647

instance (varid : Int) : Decidable (IsId varid) := inferInstanceAs (Decidable (_ ∧ _))

theorem expandFor_eq {varid : Int} (hid : IsId varid) (hlen : (slots.length : Int) ≤ 2147483647) :
    ∃ k, expandFor slots varid = slots ++ List.replicate k .empty ∧
      ((slots.length + k : Nat) : Int) ≤ 2147483647 ∧ varid < (slots.length + k : Nat) := by
  obtain ⟨hnonneg, hlt⟩ := hid
  unfold expandFor
  split_ifs with hgrow
  · have hid : Int.bmod (varid + 1) 4294967296 = varid + 1 := by
      rw [Int.bmod_eq_of_le] <;> omega
    have hdouble := @Int.bmod_lt ((slots.length : Int) * 2) 4294967296 (by decide)
    have hinitial : initialInfocacheSize = 16 := rfl
    unfold expandInfocache
    simp only [hid, hinitial]
    generalize Int.bmod (slots.length * 2) 4294967296 = double at hdouble ⊢
    generalize hcap : max (max double (varid + 1)) 16 = newcap
    have hnew : varid + 1 ≤ newcap ∧ newcap ≤ 2147483647 := by omega
    refine ⟨newcap.toNat - slots.length, ?_, by omega, by omega⟩
    rw [take_of_length_le (by omega)]
  · exact ⟨0, (append_nil slots).symm, hlen, by omega⟩

theorem slotAt_of_lt {varid : Int} (hnonneg : 0 ≤ varid) (hlt : varid < slots.length) :
    ∃ slot, slots[varid.toNat]? = some slot ∧ slotAt slots varid = .ok slot := by
  have hbound : varid.toNat < slots.length := by omega
  refine ⟨slots[varid.toNat], getElem?_eq_getElem hbound, ?_⟩
  rw [slotAt, if_pos hnonneg, getElem?_eq_getElem hbound]

/-! ## An inquiry is stored -/

theorem InfoSlot.varinfoPtrs_setVarinfo (hnone : slot.varinfo view = none) (p : Nat) :
    (slot.setVarinfo p view).varinfoPtrs.Perm (p :: slot.varinfoPtrs) := by
  obtain ⟨physical, logical, transinfo⟩ := slot
  cases view with
  | physical =>
    cases hnone
    exact List.Perm.refl _
  | logical =>
    cases hnone
    show (physical.toList ++ [p]).Perm (p :: (physical.toList ++ []))
    exact perm_append_comm.trans (by rw [append_nil]; exact List.Perm.refl _)

@[simp] theorem InfoSlot.transinfo_setVarinfo (slot : InfoSlot) (p : Nat) (view : DataView) :
    (slot.setVarinfo p view).transinfo = slot.transinfo := by
  cases view <;> rfl

theorem InfoSlot.varinfo_setVarinfo (slot : InfoSlot) (p : Nat) (view view' : DataView) :
    (slot.setVarinfo p view).varinfo view' =
      if view' = view then some p else slot.varinfo view' := by
  cases view <;> cases view' <;> rfl

theorem CacheOwned.storeVarinfo (hown : CacheOwned slots h) (hslot : slots[i]? = some slot)
    (hnone : slot.varinfo view = none) (vi : VarInfo) :
    CacheOwned (slots.set i (slot.setVarinfo h.varinfos.next view))
      { h with varinfos := h.varinfos.alloc vi } where
  varinfos := (hown.varinfos.alloc vi).perm
    (flatMap_set_perm (InfoSlot.varinfoPtrs_setVarinfo hnone _) hslot)
  transinfos := by
    rw [flatMap_set_of_eq (x := slot)
      (by rw [InfoSlot.transinfoPtrs, InfoSlot.transinfo_setVarinfo]; rfl) hslot]
    exact hown.transinfos
  physical slot' hslot' := by
    rcases mem_or_eq_of_mem_set hslot' with hmem | rfl
    · exact hown.physical slot' hmem
    · intro htrans
      rw [InfoSlot.transinfo_setVarinfo] at htrans
      have hphysical := hown.physical slot (mem_of_getElem? hslot) htrans
      cases view with
      | physical => rfl
      | logical => exact hphysical
  capacity := by
    rw [length_set]
    exact hown.capacity

theorem CacheOwned.storeTransinfo (hown : CacheOwned slots h) (hslot : slots[i]? = some slot)
    (hnone : slot.transinfo = none) (hphysical : slot.physicalVarinfo.isSome) (ti : TransInfo) :
    CacheOwned (slots.set i (slot.setTransinfo h.transinfos.next))
      { h with transinfos := h.transinfos.alloc ti } where
  varinfos := by
    rw [flatMap_set_of_eq (x := slot) (y := slot.setTransinfo _) rfl hslot]
    exact hown.varinfos
  transinfos := by
    refine (hown.transinfos.alloc ti).perm (flatMap_set_perm (x := slot) ?_ hslot)
    show [h.transinfos.next].Perm (h.transinfos.next :: slot.transinfo.toList)
    rw [hnone]
    exact List.Perm.refl _
  physical slot' hslot' := by
    rcases mem_or_eq_of_mem_set hslot' with hmem | rfl
    · exact hown.physical slot' hmem
    · exact fun _ => hphysical
  capacity := by
    rw [length_set]
    exact hown.capacity

theorem SlotRight.congr (hright : SlotRight hooks fp h i slot) {h' : InfoHeap}
    (hvarinfo : ∀ view, ∀ p ∈ slot.varinfo view, h'.varinfos.get p = h.varinfos.get p)
    (htransinfo : ∀ q ∈ slot.transinfo, h'.transinfos.get q = h.transinfos.get q) :
    SlotRight hooks fp h' i slot where
  varinfo view p hp := by
    rw [hvarinfo view p hp]
    exact hright.varinfo view p hp
  transinfo q hq := by
    rw [htransinfo q hq]
    exact hright.transinfo q hq

end Owned

structure CacheInv (hooks : ReadHooks) (s : CachedFile) : Prop where
  owned : CacheOwned s.infocache s.heap
  coherent : Coherent hooks s

section Inquiries

variable {hooks : ReadHooks} {s s' : CachedFile} {slot : InfoSlot} {varid : Int} {view : DataView}

section

variable (hinv : CacheInv hooks s) (hid : IsId varid)

include hinv hid

theorem CacheInv.expandFor :
    CacheInv hooks (s.expandFor varid) ∧ varid < (s.expandFor varid).infocache.length := by
  obtain ⟨k, hexpand, hlen, hlt⟩ := expandFor_eq hid hinv.owned.capacity
  refine ⟨⟨?_, fun i slot hslot => ?_⟩, ?_⟩
  · show CacheOwned (Infocache.expandFor s.infocache varid) s.heap
    rw [hexpand]
    exact hinv.owned.append_replicate hlen
  · replace hslot : (Infocache.expandFor s.infocache varid)[i]? = some slot := hslot
    rw [hexpand] at hslot
    rcases getElem?_append_replicate hslot with hold | rfl
    · exact hinv.coherent i slot hold
    · exact slotRight_empty hooks s.fp s.heap i
  · show varid < (Infocache.expandFor s.infocache varid).length
    rw [hexpand, length_append, length_replicate]
    exact hlt

theorem CacheInv.storeVarinfo
    (hslot : s.infocache[varid.toNat]? = some slot) (hnone : slot.varinfo s.dataView = none)
    {vi : VarInfo} (hvi : commonReadInqVarByid hooks s.fp s.dataView varid = .ok (some vi)) :
    CacheInv hooks (s.storeVarinfo varid slot (some vi)).2 := by
  rw [← Int.toNat_of_nonneg hid.1] at hvi
  have hkeep : ∀ {j slot'}, s.infocache[j]? = some slot' →
      SlotRight hooks s.fp { s.heap with varinfos := s.heap.varinfos.alloc vi } j slot' := by
    intro j slot' hslot'
    refine (hinv.coherent j slot' hslot').congr (fun view' p hp => ?_) fun _ _ => rfl
    exact Heap.Objects.get_alloc_of_lt _ _ (hinv.owned.varinfo_live hslot' hp).2
  refine ⟨hinv.owned.storeVarinfo hslot hnone vi, fun j slot' hslot' => ?_⟩
  replace hslot' : (s.infocache.set varid.toNat
    (slot.setVarinfo s.heap.varinfos.next s.dataView))[j]? = some slot' := hslot'
  rw [getElem?_set] at hslot'
  split_ifs at hslot' with hij hlt
  · cases hslot'
    subst hij
    refine ⟨fun view' p hp => ?_, fun q hq => ?_⟩
    · rw [InfoSlot.varinfo_setVarinfo] at hp
      split_ifs at hp with hview
      · cases hp
        show commonReadInqVarByid hooks s.fp view' varid.toNat =
          .ok ((s.heap.varinfos.alloc vi).get s.heap.varinfos.next)
        rw [hview, Heap.Objects.get_alloc_self]
        exact hvi
      · exact (hkeep hslot).varinfo view' p hp
    · rw [InfoSlot.transinfo_setVarinfo] at hq
      exact (hkeep hslot).transinfo q hq
  · exact hkeep hslot'

theorem CacheInv.storeTransinfo
    (hslot : s.infocache[varid.toNat]? = some slot) (hnone : slot.transinfo = none)
    (hphysical : slot.physicalVarinfo.isSome) {ti : TransInfo}
    (hti : freshTransinfo hooks s.fp varid = .ok (some ti)) :
    CacheInv hooks (s.storeTransinfo varid slot (some ti)).2 := by
  rw [← Int.toNat_of_nonneg hid.1] at hti
  have hkeep : ∀ {j slot'}, s.infocache[j]? = some slot' →
      SlotRight hooks s.fp { s.heap with transinfos := s.heap.transinfos.alloc ti } j slot' := by
    intro j slot' hslot'
    refine (hinv.coherent j slot' hslot').congr (fun _ _ _ => rfl) fun q hq => ?_
    exact Heap.Objects.get_alloc_of_lt _ _ (hinv.owned.transinfo_live hslot' hq).2
  refine ⟨hinv.owned.storeTransinfo hslot hnone hphysical ti, fun j slot' hslot' => ?_⟩
  replace hslot' : (s.infocache.set varid.toNat
    (slot.setTransinfo s.heap.transinfos.next))[j]? = some slot' := hslot'
  rw [getElem?_set] at hslot'
  split_ifs at hslot' with hij hlt
  · cases hslot'
    subst hij
    refine ⟨fun view' p hp => ?_, fun q hq => ?_⟩
    · exact (hkeep hslot).varinfo view' p (by cases view' <;> exact hp)
    · cases hq
      show freshTransinfo hooks s.fp varid.toNat =
        .ok ((s.heap.transinfos.alloc ti).get s.heap.transinfos.next)
      rw [Heap.Objects.get_alloc_self]
      exact hti
  · exact hkeep hslot'

end

structure Grows (s s' : CachedFile) : Prop where
  fp : s'.fp = s.fp
  isStreaming : s'.isStreaming = s.isStreaming
  dataView : s'.dataView = s.dataView
  objects : ∀ p, p < s.heap.varinfos.next → s'.heap.varinfos.get p = s.heap.varinfos.get p
  stored : ∀ (i : Nat) (slot : InfoSlot) (view : DataView) (p : Nat),
    s.infocache[i]? = some slot → slot.varinfo view = some p →
      ∃ slot', s'.infocache[i]? = some slot' ∧ slot'.varinfo view = some p

theorem getElem?_expandFor (s : CachedFile) (hid : IsId varid)
    (hlen : (s.infocache.length : Int) ≤ 2147483647) {i : Nat}
    (hslot : s.infocache[i]? = some slot) : (s.expandFor varid).infocache[i]? = some slot := by
  obtain ⟨k, hexpand, -, -⟩ := expandFor_eq hid hlen
  show (Infocache.expandFor s.infocache varid)[i]? = some slot
  rw [hexpand, getElem?_append_left (List.getElem?_eq_some_iff.mp hslot).1]
  exact hslot

theorem Grows.expandFor (s : CachedFile) (hid : IsId varid)
    (hlen : (s.infocache.length : Int) ≤ 2147483647) :
    Grows s (s.expandFor varid) := by
  refine ⟨rfl, rfl, rfl, fun _ _ => rfl, fun i slot view p hslot hp => ⟨slot, ?_, hp⟩⟩
  exact getElem?_expandFor s hid hlen hslot

theorem Grows.storeVarinfo (hslot : s.infocache[varid.toNat]? = some slot)
    (hnone : slot.varinfo s.dataView = none) (vi : VarInfo) :
    Grows s (s.storeVarinfo varid slot (some vi)).2 where
  fp := rfl
  isStreaming := rfl
  dataView := rfl
  objects p hp := Heap.Objects.get_alloc_of_lt _ _ hp
  stored i slot' view p hslot' hp := by
    show ∃ slot'', (s.infocache.set varid.toNat
      (slot.setVarinfo s.heap.varinfos.next s.dataView))[i]? = some slot'' ∧ _
    by_cases hi : varid.toNat = i
    · subst hi
      cases hslot.symm.trans hslot'
      refine ⟨_, getElem?_set_self (List.getElem?_eq_some_iff.mp hslot).1, ?_⟩
      rw [InfoSlot.varinfo_setVarinfo, if_neg ?_]
      · exact hp
      · rintro rfl
        cases hnone.symm.trans hp
    · exact ⟨slot', (getElem?_set_ne hi).trans hslot', hp⟩

theorem Grows.storeTransinfo (hslot : s.infocache[varid.toNat]? = some slot) (ti : TransInfo) :
    Grows s (s.storeTransinfo varid slot (some ti)).2 where
  fp := rfl
  isStreaming := rfl
  dataView := rfl
  objects p hp := rfl
  stored i slot' view p hslot' hp := by
    show ∃ slot'', (s.infocache.set varid.toNat
      (slot.setTransinfo s.heap.transinfos.next))[i]? = some slot'' ∧ _
    by_cases hi : varid.toNat = i
    · subst hi
      cases hslot.symm.trans hslot'
      refine ⟨_, getElem?_set_self (List.getElem?_eq_some_iff.mp hslot).1, ?_⟩
      cases view <;> exact hp
    · exact ⟨slot', (getElem?_set_ne hi).trans hslot', hp⟩

theorem Grows.trans {s'' : CachedFile} (h : Grows s s') (h' : Grows s' s'')
    (hnext : s.heap.varinfos.next ≤ s'.heap.varinfos.next) : Grows s s'' where
  fp := h'.fp.trans h.fp
  isStreaming := h'.isStreaming.trans h.isStreaming
  dataView := h'.dataView.trans h.dataView
  objects p hp := (h'.objects p (Nat.lt_of_lt_of_le hp hnext)).trans (h.objects p hp)
  stored i slot view p hslot hp := by
    obtain ⟨slot', hslot', hp'⟩ := h.stored i slot view p hslot hp
    exact h'.stored i slot' view p hslot' hp'

structure VarinfoInquired (hooks : ReadHooks) (s : CachedFile) (view : DataView) (varid : Int)
    (vi : Option VarInfo) (p : Option Nat) (s' : CachedFile) : Prop where
  fresh : commonReadInqVarByid hooks s.fp view varid = .ok vi
  load : s'.heap.loadVarinfo p = .ok vi
  inv : CacheInv hooks s'
  grows : Grows s s'
  next : s.heap.varinfos.next ≤ s'.heap.varinfos.next
  entry : ∃ slot, s'.infocache[varid.toNat]? = some slot ∧ slot.varinfo view = p
  transinfo : ∀ (i : Nat) (slot : InfoSlot), s.infocache[i]? = some slot →
    ∃ slot', s'.infocache[i]? = some slot' ∧ slot'.transinfo = slot.transinfo

theorem InfoHeap.loadVarinfo_of_isSome {h : InfoHeap} {p : Nat} (hp : (h.varinfos.get p).isSome) :
    h.loadVarinfo (some p) = .ok (h.varinfos.get p) := by
  obtain ⟨vi, hvi⟩ := Option.isSome_iff_exists.mp hp
  rw [InfoHeap.loadVarinfo, hvi]

theorem InfoHeap.loadTransinfo_of_isSome {h : InfoHeap} {q : Nat}
    (hq : (h.transinfos.get q).isSome) : h.loadTransinfo (some q) = .ok (h.transinfos.get q) := by
  obtain ⟨ti, hti⟩ := Option.isSome_iff_exists.mp hq
  rw [InfoHeap.loadTransinfo, hti]

theorem getElem?_storeVarinfo_transinfo {slot' : InfoSlot} {vi : VarInfo} {i : Nat}
    (hslot : s.infocache[varid.toNat]? = some slot) (hslot' : s.infocache[i]? = some slot') :
    ∃ slot'', (s.storeVarinfo varid slot (some vi)).2.infocache[i]? = some slot'' ∧
      slot''.transinfo = slot'.transinfo := by
  show ∃ slot'', (s.infocache.set varid.toNat
    (slot.setVarinfo s.heap.varinfos.next s.dataView))[i]? = some slot'' ∧ _
  by_cases hi : varid.toNat = i
  · subst hi
    cases hslot.symm.trans hslot'
    exact ⟨_, getElem?_set_self (List.getElem?_eq_some_iff.mp hslot).1,
      InfoSlot.transinfo_setVarinfo slot _ _⟩
  · exact ⟨slot', (getElem?_set_ne hi).trans hslot', rfl⟩

theorem adiosInfocacheInqVarinfo_spec (hinv : CacheInv hooks s) (hid : IsId varid) :
    (∃ vi p s', adiosInfocacheInqVarinfo hooks s varid = .ok (p, s') ∧
      VarinfoInquired hooks s s.dataView varid vi p s') ∨
    ∃ fault, commonReadInqVarByid hooks s.fp s.dataView varid = .error fault ∧
      adiosInfocacheInqVarinfo hooks s varid = .error (.reader fault) := by
  obtain ⟨hexpand, hlt⟩ := hinv.expandFor hid
  have hgrows := Grows.expandFor s hid hinv.owned.capacity
  obtain ⟨slot, hslot, hat⟩ := slotAt_of_lt hid.1 hlt
  have hcast : ((varid.toNat : Nat) : Int) = varid := Int.toNat_of_nonneg hid.1
  replace hat : slotAt (s.expandFor varid).infocache varid = .ok slot := hat
  have hold : ∀ (i : Nat) (slot : InfoSlot), s.infocache[i]? = some slot →
      ∃ slot', (s.expandFor varid).infocache[i]? = some slot' ∧ slot'.transinfo = slot.transinfo :=
    fun i slot' hslot' => ⟨slot', getElem?_expandFor s hid hinv.owned.capacity hslot', rfl⟩
  cases hp : slot.varinfo s.dataView with
  | some p =>
    -- the entry is there: it agrees with the file
    left
    have hlive := (hexpand.owned.varinfo_live hslot hp).1
    have hfresh := (hexpand.coherent varid.toNat slot hslot).varinfo s.dataView p hp
    rw [hcast] at hfresh
    refine ⟨_, some p, s.expandFor varid, ?_, hfresh, InfoHeap.loadVarinfo_of_isSome hlive,
      hexpand, hgrows, Nat.le_refl _, ⟨slot, hslot, hp⟩, hold⟩
    rw [adiosInfocacheInqVarinfo, hat, ok_bind]
    replace hp : slot.varinfo (s.expandFor varid).dataView = some p := hp
    rw [hp]
    rfl
  | none =>
    have hunfold : adiosInfocacheInqVarinfo hooks s varid =
        (commonReadInqVarByid hooks s.fp s.dataView varid).mapError .reader >>= fun vi =>
          .ok ((s.expandFor varid).storeVarinfo varid slot vi) := by
      rw [adiosInfocacheInqVarinfo, hat, ok_bind]
      replace hp : slot.varinfo (s.expandFor varid).dataView = none := hp
      rw [hp]
      rfl
    cases hfresh : commonReadInqVarByid hooks s.fp s.dataView varid with
    | error fault =>
      right
      refine ⟨fault, rfl, ?_⟩
      rw [hunfold, hfresh]
      rfl
    | ok vi =>
      left
      rw [hfresh] at hunfold
      cases vi with
      | none =>
        exact ⟨none, none, s.expandFor varid, hunfold, hfresh, rfl, hexpand, hgrows, Nat.le_refl _,
          ⟨slot, hslot, hp⟩, hold⟩
      | some vi =>
        refine ⟨some vi, some s.heap.varinfos.next, _, hunfold, hfresh, ?_,
          hexpand.storeVarinfo hid hslot hp hfresh,
          hgrows.trans (Grows.storeVarinfo hslot hp vi) (Nat.le_refl _), Nat.le_succ _, ?_,
          fun i slot' hslot' => ?_⟩
        · show InfoHeap.loadVarinfo { s.heap with varinfos := s.heap.varinfos.alloc vi } _ = _
          rw [InfoHeap.loadVarinfo, Heap.Objects.get_alloc_self]
        · refine ⟨_, getElem?_set_self (List.getElem?_eq_some_iff.mp hslot).1, ?_⟩
          rw [InfoSlot.varinfo_setVarinfo]
          exact if_pos rfl
        · obtain ⟨slot', hslot', htransinfo⟩ := hold i slot' hslot'
          rw [← htransinfo]
          exact getElem?_storeVarinfo_transinfo hslot hslot'

theorem CacheInv.setDataView (hinv : CacheInv hooks s) (view : DataView) :
    CacheInv hooks (s.setDataView view) :=
  ⟨hinv.owned, hinv.coherent⟩

theorem inqPhysicalVarinfo_spec (hinv : CacheInv hooks s) (hid : IsId varid) :
    (∃ vi p s', inqPhysicalVarinfo hooks s varid = .ok (p, s') ∧
      VarinfoInquired hooks s .physical varid vi p s') ∨
    ∃ fault, commonReadInqVarByid hooks s.fp .physical varid = .error fault ∧
      inqPhysicalVarinfo hooks s varid = .error (.reader fault) := by
  rcases adiosInfocacheInqVarinfo_spec (hinv.setDataView .physical) hid with
    ⟨vi, p, s', hinq, h⟩ | ⟨fault, hfresh, hinq⟩
  · left
    refine ⟨vi, p, s'.setDataView s.dataView, ?_, h.fresh, h.load, h.inv.setDataView _, ?_, h.next,
      h.entry, h.transinfo⟩
    · rw [inqPhysicalVarinfo, hinq]
      rfl
    · exact ⟨h.grows.fp, h.grows.isStreaming, rfl, h.grows.objects, h.grows.stored⟩
  · right
    refine ⟨fault, hfresh, ?_⟩
    rw [inqPhysicalVarinfo, hinq]
    rfl

structure TransinfoInquired (hooks : ReadHooks) (s : CachedFile) (varid : Int)
    (ti : Option TransInfo) (q : Option Nat) (s' : CachedFile) : Prop where
  fresh : freshTransinfo hooks s.fp varid = .ok ti
  load : s'.heap.loadTransinfo q = .ok ti
  inv : CacheInv hooks s'
  grows : Grows s s'
  entry : ∃ slot, s'.infocache[varid.toNat]? = some slot ∧ slot.transinfo = q

theorem slotAt_of_getElem? {slots : Slots} (hnonneg : 0 ≤ varid)
    (hslot : slots[varid.toNat]? = some slot) : slotAt slots varid = .ok slot := by
  rw [slotAt, if_pos hnonneg, hslot]

theorem VarinfoInquired.isSome_of_transinfo {vi : Option VarInfo} {p : Option Nat} {ti : TransInfo}
    {fp : AdiosFile} (h : VarinfoInquired hooks s view varid vi p s')
    (hti : commonReadInqTransinfo hooks fp vi = .ok (some ti)) : p.isSome := by
  cases vi with
  | none => cases hti
  | some vi =>
    have hload := h.load
    cases p with
    | none => cases hload
    | some p => rfl

theorem adiosInfocacheInqTransinfo_spec (hinv : CacheInv hooks s) (hid : IsId varid) :
    (∃ ti q s', adiosInfocacheInqTransinfo hooks s varid = .ok (q, s') ∧
      TransinfoInquired hooks s varid ti q s') ∨
    ∃ fault, freshTransinfo hooks s.fp varid = .error fault ∧
      adiosInfocacheInqTransinfo hooks s varid = .error (.reader fault) := by
  obtain ⟨hexpand, hlt⟩ := hinv.expandFor hid
  have hgrows := Grows.expandFor s hid hinv.owned.capacity
  obtain ⟨slot, hslot, hat⟩ := slotAt_of_lt hid.1 hlt
  have hcast : ((varid.toNat : Nat) : Int) = varid := Int.toNat_of_nonneg hid.1
  cases hq : slot.transinfo with
  | some q =>
    left
    have hlive := (hexpand.owned.transinfo_live hslot hq).1
    have hfresh := (hexpand.coherent varid.toNat slot hslot).transinfo q hq
    rw [hcast] at hfresh
    refine ⟨_, some q, s.expandFor varid, ?_, hfresh, InfoHeap.loadTransinfo_of_isSome hlive,
      hexpand, hgrows, slot, hslot, hq⟩
    rw [adiosInfocacheInqTransinfo, hat, ok_bind, hq]
    rfl
  | none =>
    have hunfold : adiosInfocacheInqTransinfo hooks s varid =
        (inqPhysicalVarinfo hooks (s.expandFor varid) varid >>= fun r => do
          let vi ← r.2.heap.loadVarinfo r.1
          let ti ← (commonReadInqTransinfo hooks r.2.fp vi).mapError .reader
          let slot ← slotAt r.2.infocache varid
          return r.2.storeTransinfo varid slot ti) := by
      rw [adiosInfocacheInqTransinfo, hat, ok_bind, hq]
    rcases inqPhysicalVarinfo_spec hexpand hid with ⟨vi, p, s₁, hinq, h⟩ | ⟨fault, hfresh, hinq⟩
    · -- the variable is inquired before its transform, or is in the cache
      obtain ⟨slot₁, hslot₁, hp⟩ := h.entry
      obtain ⟨slot₂, hslot₂, htransinfo⟩ := h.transinfo _ slot hslot
      cases hslot₁.symm.trans hslot₂
      rw [hq] at htransinfo
      rw [hinq, ok_bind, h.load, ok_bind, h.grows.fp] at hunfold
      have hfresh : freshTransinfo hooks s.fp varid = commonReadInqTransinfo hooks s.fp vi := by
        have hvi : commonReadInqVarByid hooks s.fp .physical varid = .ok vi := h.fresh
        rw [freshTransinfo, hvi, ok_bind]
      replace hunfold : adiosInfocacheInqTransinfo hooks s varid =
          (freshTransinfo hooks s.fp varid).mapError .reader >>= fun ti =>
            .ok (s₁.storeTransinfo varid slot₁ ti) := by
        rw [hunfold, hfresh, slotAt_of_getElem? hid.1 hslot₁]
        rfl
      have hgrows₁ := hgrows.trans h.grows (Nat.le_refl _)
      cases hti : freshTransinfo hooks s.fp varid with
      | error fault =>
        right
        refine ⟨fault, rfl, ?_⟩
        rw [hunfold, hti]
        rfl
      | ok ti =>
        left
        rw [hti] at hunfold
        cases ti with
        | none => exact ⟨none, none, s₁, hunfold, hti, rfl, h.inv, hgrows₁, slot₁, hslot₁,
            htransinfo⟩
        | some ti =>
          have hphysical : slot₁.physicalVarinfo.isSome := by
            have hsome := h.isSome_of_transinfo (hfresh.symm.trans hti)
            rw [← hp] at hsome
            exact hsome
          have hti₁ : freshTransinfo hooks s₁.fp varid = .ok (some ti) := by
            rw [h.grows.fp]
            exact hti
          refine ⟨some ti, some s₁.heap.transinfos.next, _, hunfold, hti, ?_,
            h.inv.storeTransinfo hid hslot₁ htransinfo hphysical hti₁,
            hgrows₁.trans (Grows.storeTransinfo hslot₁ ti) h.next, _,
            getElem?_set_self (List.getElem?_eq_some_iff.mp hslot₁).1, rfl⟩
          show InfoHeap.loadTransinfo { s₁.heap with transinfos := s₁.heap.transinfos.alloc ti } _
            = _
          rw [InfoHeap.loadTransinfo, Heap.Objects.get_alloc_self]
    · right
      refine ⟨fault, ?_, ?_⟩
      · have hvi : commonReadInqVarByid hooks s.fp .physical varid = .error fault := hfresh
        rw [freshTransinfo, hvi, error_bind]
      · rw [hunfold, hinq, error_bind]

end Inquiries

end Adios.Infocache
