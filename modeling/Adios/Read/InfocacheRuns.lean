import Adios.Read.InfocacheSpec
import Adios.Read.VarIds

/-!
# Adios — runs with an information cache

Any calls on an open file, group views, steps, views of the data, inquiries and reads, in any
order. The cache is transparent along a run where each group view, and each step that fails, keeps
what the ids that are cached mean, and no read of a transformed variable fills in the blocks of a
cached object.
-/

namespace Adios.Infocache

open List

/-! ## What is claimed of a run -/

/-- Whatever is inquired next, in either view of the data, the cache returns what an inquiry
without it does. -/
def Transparent (hooks : ReadHooks) (s : CachedFile) : Prop :=
  ∀ varid, IsId varid → ∀ view,
    (returnedVarinfo hooks (s.setDataView view) varid).map (·.2) =
      ((commonReadInqVarByid hooks s.fp view varid).mapError .reader).map .varinfo ∧
    (returnedTransinfo hooks (s.setDataView view) varid).map (·.2) =
      ((freshTransinfo hooks s.fp varid).mapError .reader).map .transinfo

/-- A call has used no object that was freed and no entry that is not there, and has left a cache
that is transparent. -/
def ResultRight (hooks : ReadHooks) (result : Except CacheFault (CachedFile × Returned)) : Prop :=
  (result ≠ .error .freed ∧ result ≠ .error .outOfBounds) ∧
    ∀ s' returned, result = .ok (s', returned) → Transparent hooks s'

@[inherit_doc ResultRight]
def CallRight (hooks : ReadHooks) (showHiddenAttrs : Bool) (s : CachedFile) (call : Call) : Prop :=
  ResultRight hooks (call.run hooks showHiddenAttrs s)

def SameInfo (hooks : ReadHooks) (s : CachedFile) (fp : AdiosFile) : Prop :=
  ∀ (varid : Nat) slot, s.infocache[varid]? = some slot →
    (∀ view, (slot.varinfo view).isSome →
      commonReadInqVarByid hooks fp view varid = commonReadInqVarByid hooks s.fp view varid) ∧
    (slot.transinfo.isSome → freshTransinfo hooks fp varid = freshTransinfo hooks s.fp varid)

def BlocksThere (hooks : ReadHooks) (s : CachedFile) (varid fromSteps nsteps : Int) : Prop :=
  ∀ vi ti vi' ti', commonReadInqVarByid hooks s.fp .physical varid = .ok (some vi) →
    commonReadInqTransinfo hooks s.fp (some vi) = .ok (some ti) → delegates s.dataView ti = true →
    requestFits s fromSteps nsteps vi ti = true →
    retrieveBlockinfos hooks s.fp vi ti = .ok (vi', ti') → vi' = vi ∧ ti' = ti

def CallFits (hooks : ReadHooks) (showHiddenAttrs : Bool) (s : CachedFile) : Call → Prop
  | .groupView groupid => SameInfo hooks s (commonReadGroupView groupid s.fp).2
  | .advanceStep last poll => ∀ retval fp,
      commonReadAdvanceStep showHiddenAttrs last poll s.fp = .ok (retval, fp) →
        retval = 0 ∨ SameInfo hooks s fp
  | .setDataView _ => True
  | .inqVarinfo varid => IsId varid
  | .inqTransinfo varid => IsId varid
  | .scheduleReadByid varid fromSteps nsteps =>
      0 ≤ varid → varid < s.fp.nvars →
        IsId varid ∧ BlocksThere hooks s varid fromSteps nsteps

section Spec

variable {hooks : ReadHooks} {showHiddenAttrs : Bool} {s s' : CachedFile} {h : InfoHeap}
  {slot : InfoSlot} {varid : Int} {view : DataView}

/-! ## Invalidation frees each object once -/

theorem InfoHeap.invalidateVarinfo_spec {p : Option Nat} {ps : List Nat}
    (hown : Heap.Owned h.varinfos (p.toList ++ ps)) :
    ∃ h', h.invalidateVarinfo p = .ok h' ∧ Heap.Owned h'.varinfos ps ∧
      h'.transinfos = h.transinfos := by
  cases p with
  | none => exact ⟨h, rfl, hown, rfl⟩
  | some p =>
    obtain ⟨varinfos, hfree, hown'⟩ := Heap.Owned.free hown
    refine ⟨{ h with varinfos := varinfos }, ?_, hown', rfl⟩
    rw [InfoHeap.invalidateVarinfo, hfree]

theorem InfoHeap.invalidateTransinfo_spec {p : Nat} {q : Option Nat} {qs : List Nat}
    (hlive : (h.varinfos.get p).isSome) (hown : Heap.Owned h.transinfos (q.toList ++ qs)) :
    ∃ h', h.invalidateTransinfo p q = .ok h' ∧ h'.varinfos = h.varinfos ∧
      Heap.Owned h'.transinfos qs := by
  cases q with
  | none => exact ⟨h, rfl, rfl, hown⟩
  | some q =>
    obtain ⟨transinfos, hfree, hown'⟩ := Heap.Owned.free hown
    obtain ⟨vi, hvi⟩ := Option.isSome_iff_exists.mp hlive
    refine ⟨{ h with transinfos := transinfos }, ?_, rfl, hown'⟩
    rw [InfoHeap.invalidateTransinfo, hvi, hfree]

theorem InfoSlot.invalidate_spec {ps qs : List Nat}
    (hvarinfos : Heap.Owned h.varinfos (slot.varinfoPtrs ++ ps))
    (htransinfos : Heap.Owned h.transinfos (slot.transinfoPtrs ++ qs))
    (hphysical : slot.transinfo.isSome → slot.physicalVarinfo.isSome) :
    ∃ h', slot.invalidate h = .ok (h', .empty) ∧ Heap.Owned h'.varinfos ps ∧
      Heap.Owned h'.transinfos qs := by
  obtain ⟨physical, logical, transinfo⟩ := slot
  have htrans : ∃ h₁, InfoSlot.invalidateTransinfo ⟨physical, logical, transinfo⟩ h =
      .ok (h₁, ⟨physical, logical, none⟩) ∧ h₁.varinfos = h.varinfos ∧
        Heap.Owned h₁.transinfos qs := by
    cases physical with
    | none =>
      cases transinfo with
      | none => exact ⟨h, rfl, rfl, htransinfos⟩
      | some q => cases hphysical rfl
    | some p =>
      have hlive := hvarinfos.live p (mem_append_left _ mem_cons_self)
      obtain ⟨h₁, hfree, hsame, hown⟩ := InfoHeap.invalidateTransinfo_spec hlive htransinfos
      refine ⟨h₁, ?_, hsame, hown⟩
      show (h.invalidateTransinfo p transinfo >>= _) = _
      rw [hfree]
      rfl
  obtain ⟨h₁, htrans, hsame, hown₁⟩ := htrans
  have hvarinfos₁ : Heap.Owned h₁.varinfos (physical.toList ++ (logical.toList ++ ps)) := by
    rw [hsame, ← append_assoc]
    exact hvarinfos
  obtain ⟨h₂, hfree₂, hvarinfos₂, hsame₂⟩ := InfoHeap.invalidateVarinfo_spec hvarinfos₁
  obtain ⟨h₃, hfree₃, hvarinfos₃, hsame₃⟩ := InfoHeap.invalidateVarinfo_spec hvarinfos₂
  refine ⟨h₃, ?_, hvarinfos₃, ?_⟩
  · rw [InfoSlot.invalidate, htrans, ok_bind]
    show (h₁.invalidateVarinfo physical >>= _) = _
    rw [hfree₂, ok_bind]
    show (h₂.invalidateVarinfo logical >>= _) = _
    rw [hfree₃]
    rfl
  · rw [hsame₃, hsame₂]
    exact hown₁

theorem adiosInfocacheInvalidate_spec {slots : Slots} (hown : CacheOwned slots h) :
    ∃ h', adiosInfocacheInvalidate slots h =
      .ok (h', List.replicate slots.length .empty) := by
  induction slots generalizing h with
  | nil => exact ⟨h, rfl⟩
  | cons slot slots ih =>
    have hvarinfos := hown.varinfos
    have htransinfos := hown.transinfos
    have hcapacity := hown.capacity
    rw [flatMap_cons] at hvarinfos htransinfos
    rw [length_cons] at hcapacity
    obtain ⟨h₁, hslot, hvarinfos₁, htransinfos₁⟩ :=
      InfoSlot.invalidate_spec hvarinfos htransinfos (hown.physical slot mem_cons_self)
    obtain ⟨h₂, hslots⟩ := ih ⟨hvarinfos₁, htransinfos₁,
      fun slot' hmem => hown.physical slot' (mem_cons_of_mem slot hmem), by omega⟩
    refine ⟨h₂, ?_⟩
    rw [adiosInfocacheInvalidate, hslot, ok_bind]
    show (adiosInfocacheInvalidate slots h₁ >>= _) = _
    rw [hslots]
    rfl

theorem cacheInv_of_empty {n : Nat} (hn : (n : Int) ≤ 2147483647)
    (hcache : s.infocache = List.replicate n .empty) : CacheInv hooks s := by
  have hnil : CacheOwned [] s.heap :=
    { varinfos := Heap.owned_nil _
      transinfos := Heap.owned_nil _
      physical := fun slot hmem => by cases hmem
      capacity := by decide }
  have hown : CacheOwned ([] ++ List.replicate n .empty) s.heap := by
    refine hnil.append_replicate ?_
    rw [length_nil, Nat.zero_add]
    exact hn
  refine ⟨hcache ▸ hown, fun i slot hslot => ?_⟩
  rw [hcache] at hslot
  rw [eq_of_mem_replicate (mem_of_getElem? hslot)]
  exact slotRight_empty hooks s.fp s.heap i

theorem returnedVarinfo_eq (hinv : CacheInv hooks s) (hid : IsId varid) :
    (∃ vi s', commonReadInqVarByid hooks s.fp s.dataView varid = .ok vi ∧
      returnedVarinfo hooks s varid = .ok (s', .varinfo vi) ∧ CacheInv hooks s') ∨
    ∃ fault, commonReadInqVarByid hooks s.fp s.dataView varid = .error fault ∧
      returnedVarinfo hooks s varid = .error (.reader fault) := by
  rcases adiosInfocacheInqVarinfo_spec hinv hid with ⟨vi, p, s', hinq, h⟩ | ⟨fault, hfresh, hinq⟩
  · left
    refine ⟨vi, s', h.fresh, ?_, h.inv⟩
    rw [returnedVarinfo, hinq, ok_bind]
    show (s'.heap.loadVarinfo p >>= _) = _
    rw [h.load]
    rfl
  · right
    refine ⟨fault, hfresh, ?_⟩
    rw [returnedVarinfo, hinq, error_bind]

theorem returnedTransinfo_eq (hinv : CacheInv hooks s) (hid : IsId varid) :
    (∃ ti s', freshTransinfo hooks s.fp varid = .ok ti ∧
      returnedTransinfo hooks s varid = .ok (s', .transinfo ti) ∧ CacheInv hooks s') ∨
    ∃ fault, freshTransinfo hooks s.fp varid = .error fault ∧
      returnedTransinfo hooks s varid = .error (.reader fault) := by
  rcases adiosInfocacheInqTransinfo_spec hinv hid with ⟨ti, q, s', hinq, h⟩ | ⟨fault, hfresh, hinq⟩
  · left
    refine ⟨ti, s', h.fresh, ?_, h.inv⟩
    rw [returnedTransinfo, hinq, ok_bind]
    show (s'.heap.loadTransinfo q >>= _) = _
    rw [h.load]
    rfl
  · right
    refine ⟨fault, hfresh, ?_⟩
    rw [returnedTransinfo, hinq, error_bind]

theorem CacheInv.transparent (hinv : CacheInv hooks s) : Transparent hooks s := by
  intro varid hid view
  constructor
  · rcases returnedVarinfo_eq (hinv.setDataView view) hid with
      ⟨vi, s', hfresh, hreturned, -⟩ | ⟨fault, hfresh, hreturned⟩
    · replace hfresh : commonReadInqVarByid hooks s.fp view varid = .ok vi := hfresh
      rw [hreturned, hfresh]
      rfl
    · replace hfresh : commonReadInqVarByid hooks s.fp view varid = .error fault := hfresh
      rw [hreturned, hfresh]
      rfl
  · rcases returnedTransinfo_eq (hinv.setDataView view) hid with
      ⟨ti, s', hfresh, hreturned, -⟩ | ⟨fault, hfresh, hreturned⟩
    · replace hfresh : freshTransinfo hooks s.fp varid = .ok ti := hfresh
      rw [hreturned, hfresh]
      rfl
    · replace hfresh : freshTransinfo hooks s.fp varid = .error fault := hfresh
      rw [hreturned, hfresh]
      rfl

/-! ## What is cached is returned, whatever the file is now -/

theorem returnedVarinfo_of_cached (hown : CacheOwned s.infocache s.heap)
    (hid : IsId varid) {p : Nat}
    (hslot : s.infocache[varid.toNat]? = some slot) (hp : slot.varinfo s.dataView = some p) :
    (returnedVarinfo hooks s varid).map (·.2) = .ok (.varinfo (s.heap.varinfos.get p)) := by
  have hlive := (hown.varinfo_live hslot hp).1
  have hat := slotAt_of_getElem? hid.1 (getElem?_expandFor s hid hown.capacity hslot)
  have hinq : adiosInfocacheInqVarinfo hooks s varid = .ok (some p, s.expandFor varid) := by
    rw [adiosInfocacheInqVarinfo, hat, ok_bind]
    replace hp : slot.varinfo (s.expandFor varid).dataView = some p := hp
    rw [hp]
    rfl
  rw [returnedVarinfo, hinq, ok_bind]
  show ((s.heap.loadVarinfo (some p) >>= _) : Except CacheFault (CachedFile × Returned)).map _ = _
  rw [InfoHeap.loadVarinfo_of_isSome hlive]
  rfl

theorem returnedTransinfo_of_cached (hown : CacheOwned s.infocache s.heap) (hid : IsId varid)
    {q : Nat} (hslot : s.infocache[varid.toNat]? = some slot) (hq : slot.transinfo = some q) :
    (returnedTransinfo hooks s varid).map (·.2) = .ok (.transinfo (s.heap.transinfos.get q)) := by
  have hlive := (hown.transinfo_live hslot hq).1
  have hat := slotAt_of_getElem? hid.1 (getElem?_expandFor s hid hown.capacity hslot)
  have hinq : adiosInfocacheInqTransinfo hooks s varid = .ok (some q, s.expandFor varid) := by
    rw [adiosInfocacheInqTransinfo, hat, ok_bind, hq]
    rfl
  rw [returnedTransinfo, hinq, ok_bind]
  show ((s.heap.loadTransinfo (some q) >>= _) : Except CacheFault (CachedFile × Returned)).map _ = _
  rw [InfoHeap.loadTransinfo_of_isSome hlive]
  rfl

theorem mapError_map_eq_ok {α β ε ε' : Type} {x : Except ε α} {f : ε → ε'} {g : α → β} {b : β}
    (h : .ok b = (x.mapError f).map g) : ∃ a, x = .ok a ∧ g a = b := by
  cases x with
  | error e => cases h
  | ok a =>
    injection h with h
    exact ⟨a, rfl, h.symm⟩

theorem CacheOwned.coherent_of_transparent (hown : CacheOwned s.infocache s.heap)
    (htransparent : Transparent hooks s) : Coherent hooks s := by
  intro i slot hslot
  have hlt := (List.getElem?_eq_some_iff.mp hslot).1
  have hcapacity := hown.capacity
  have hid : IsId i := ⟨by omega, by omega⟩
  replace hslot : s.infocache[(i : Int).toNat]? = some slot := hslot
  refine ⟨fun view p hp => ?_, fun q hq => ?_⟩
  · have hcached := @returnedVarinfo_of_cached hooks (s.setDataView view) slot i hown hid p hslot hp
    rw [(htransparent i hid view).1] at hcached
    obtain ⟨vi, hfresh, hvi⟩ := mapError_map_eq_ok hcached.symm
    cases hvi
    exact hfresh
  · have hcached := @returnedTransinfo_of_cached hooks (s.setDataView .logical) slot i hown hid q
      hslot hq
    rw [(htransparent i hid .logical).2] at hcached
    obtain ⟨ti, hfresh, hti⟩ := mapError_map_eq_ok hcached.symm
    cases hti
    exact hfresh

theorem CacheInv.setFile_iff (hinv : CacheInv hooks s) (fp : AdiosFile) :
    CacheInv hooks (s.setFile fp) ↔ SameInfo hooks s fp := by
  constructor
  · intro hinv' varid slot hslot
    refine ⟨fun view hp => ?_, fun hq => ?_⟩
    · obtain ⟨p, hp⟩ := Option.isSome_iff_exists.mp hp
      have hnew := (hinv'.coherent varid slot hslot).varinfo view p hp
      exact hnew.trans ((hinv.coherent varid slot hslot).varinfo view p hp).symm
    · obtain ⟨q, hq⟩ := Option.isSome_iff_exists.mp hq
      have hnew := (hinv'.coherent varid slot hslot).transinfo q hq
      exact hnew.trans ((hinv.coherent varid slot hslot).transinfo q hq).symm
  · intro hsame
    refine ⟨hinv.owned, fun varid slot hslot => ⟨fun view p hp => ?_, fun q hq => ?_⟩⟩
    · have heq := (hsame varid slot hslot).1 view (Option.isSome_iff_exists.mpr ⟨p, hp⟩)
      exact heq.trans ((hinv.coherent varid slot hslot).varinfo view p hp)
    · have heq := (hsame varid slot hslot).2 (Option.isSome_iff_exists.mpr ⟨q, hq⟩)
      exact heq.trans ((hinv.coherent varid slot hslot).transinfo q hq)

/-! ## Calls -/

inductive Outcome (hooks : ReadHooks) (fits : Prop) :
    Except CacheFault (CachedFile × Returned) → Prop
  | done {s' returned} : CacheOwned s'.infocache s'.heap → (CacheInv hooks s' ↔ fits) →
      Outcome hooks fits (.ok (s', returned))
  | failed {fault} : fault ≠ .freed → fault ≠ .outOfBounds → fits →
      Outcome hooks fits (.error fault)
  | outOfBounds : ¬fits → Outcome hooks fits (.error .outOfBounds)

variable {fits : Prop}

theorem Outcome.congr {fits' : Prop} {result : Except CacheFault (CachedFile × Returned)}
    (h : Outcome hooks fits result) (hiff : fits ↔ fits') : Outcome hooks fits' result := by
  rwa [← propext hiff]

theorem Outcome.of_inv {returned : Returned} (hinv : CacheInv hooks s') (hfits : fits) :
    Outcome hooks fits (.ok (s', returned)) :=
  .done hinv.owned (iff_of_true hinv hfits)

theorem Outcome.of_reader (fault : Fault) (hfits : fits) :
    Outcome hooks fits (.error (.reader fault)) :=
  .failed nofun nofun hfits

theorem Outcome.of_assertion (hfits : fits) :
    Outcome hooks fits (.error .assertion) :=
  .failed (by decide) (by decide) hfits

theorem Outcome.right_iff {result : Except CacheFault (CachedFile × Returned)}
    (h : Outcome hooks fits result) : ResultRight hooks result ↔ fits := by
  cases h with
  | done hown hiff =>
    constructor
    · intro hright
      exact hiff.mp ⟨hown, hown.coherent_of_transparent (hright.2 _ _ rfl)⟩
    · intro hfits
      refine ⟨⟨by simp, by simp⟩, fun s' returned heq => ?_⟩
      injection heq with heq
      injection heq with hs
      rw [← hs]
      exact (hiff.mpr hfits).transparent
  | failed hfreed hbounds hfits =>
    refine iff_of_true ⟨⟨fun heq => ?_, fun heq => ?_⟩, fun s' returned heq => by cases heq⟩ hfits
    · injection heq with heq
      exact hfreed heq
    · injection heq with heq
      exact hbounds heq
  | outOfBounds hfits =>
    refine iff_of_false ?_ hfits
    rintro ⟨⟨-, hbounds⟩, -⟩
    exact hbounds rfl

theorem Outcome.inv {fits : Prop} {returned : Returned}
    (h : Outcome hooks fits (.ok (s', returned))) (hfits : fits) : CacheInv hooks s' := by
  cases h with
  | done hown hiff => exact hiff.mpr hfits

theorem slotAt_of_not_isId (hown : CacheOwned s.infocache h) (hid : ¬IsId varid) :
    slotAt (s.expandFor varid).infocache varid = .error .outOfBounds := by
  unfold slotAt
  split_ifs with hnonneg
  · have hlarge : 2147483647 ≤ varid := by
      by_contra hlt
      exact hid ⟨hnonneg, by omega⟩
    have hlen : ((s.expandFor varid).infocache.length : Int) ≤ 2147483647 := by
      show ((expandFor s.infocache varid).length : Int) ≤ 2147483647
      have hcapacity := hown.capacity
      have hdouble := @Int.bmod_lt ((s.infocache.length : Int) * 2) 4294967296 (by decide)
      have hnext := @Int.bmod_lt (varid + 1) 4294967296 (by decide)
      have hinitial : initialInfocacheSize = 16 := rfl
      unfold expandFor
      split_ifs with hgrow
      · unfold expandInfocache
        simp only [hinitial, length_append, length_take, length_replicate]
        omega
      · exact hcapacity
    rw [getElem?_eq_none (by omega)]
  · rfl

section

variable (hinv : CacheInv hooks s)

include hinv

theorem inqVarinfo_outcome (varid : Int) :
    Outcome hooks (IsId varid) (returnedVarinfo hooks s varid) := by
  by_cases hid : IsId varid
  · rcases returnedVarinfo_eq hinv hid with ⟨vi, s', -, hreturned, hinv'⟩ | ⟨fault, -, hreturned⟩
    · rw [hreturned]
      exact .of_inv hinv' hid
    · rw [hreturned]
      exact .of_reader fault hid
  · have hat := slotAt_of_not_isId hinv.owned hid
    rw [returnedVarinfo, adiosInfocacheInqVarinfo, hat, error_bind, error_bind]
    exact .outOfBounds hid

theorem inqTransinfo_outcome (varid : Int) :
    Outcome hooks (IsId varid) (returnedTransinfo hooks s varid) := by
  by_cases hid : IsId varid
  · rcases returnedTransinfo_eq hinv hid with ⟨ti, s', -, hreturned, hinv'⟩ | ⟨fault, -, hreturned⟩
    · rw [hreturned]
      exact .of_inv hinv' hid
    · rw [hreturned]
      exact .of_reader fault hid
  · have hat := slotAt_of_not_isId hinv.owned hid
    rw [returnedTransinfo, adiosInfocacheInqTransinfo, hat, error_bind, error_bind]
    exact .outOfBounds hid

theorem setFile_outcome (fp : AdiosFile) (returned : Returned) :
    Outcome hooks (SameInfo hooks s fp) (.ok (s.setFile fp, returned)) :=
  .done hinv.owned (hinv.setFile_iff fp)

theorem afterStep_outcome (retval : Int) (fp : AdiosFile) :
    Outcome hooks (retval = 0 ∨ SameInfo hooks s fp)
      ((afterStep s retval fp).map fun r => (r.2, .status r.1)) := by
  unfold afterStep
  split_ifs with hretval
  · -- a step that is not made leaves the cache
    refine (setFile_outcome hinv fp (.status retval)).congr ?_
    exact (or_iff_right hretval).symm
  · obtain ⟨h', hinvalidate⟩ := adiosInfocacheInvalidate_spec hinv.owned
    rw [hinvalidate]
    exact .of_inv (cacheInv_of_empty hinv.owned.capacity rfl) (.inl (not_not.mp hretval))

theorem advanceStep_outcome (last : Bool) (poll : Option BpIndex) :
    Outcome hooks (CallFits hooks showHiddenAttrs s (.advanceStep last poll))
      ((advanceStep s showHiddenAttrs last poll).map fun r => (r.2, .status r.1)) := by
  unfold advanceStep CallFits
  cases hstep : commonReadAdvanceStep showHiddenAttrs last poll s.fp with
  | error fault =>
    refine .of_reader fault fun retval fp heq => ?_
    rw [hstep] at heq
    cases heq
  | ok r =>
    obtain ⟨retval, fp⟩ := r
    refine (afterStep_outcome hinv retval fp).congr ⟨fun hor retval' fp' heq => ?_, fun hall => ?_⟩
    · rw [hstep] at heq
      injection heq with heq
      injection heq with hretval hfp
      rw [← hretval, ← hfp]
      exact hor
    · exact hall retval fp hstep

/-! ## Reads -/

theorem generateReadReqgroup_outcome {i p q : Nat} {vi : VarInfo}
    {ti : TransInfo} (hslot : s.infocache[i]? = some slot) (hp : slot.varinfo .physical = some p)
    (hq : slot.transinfo = some q) (hvi : s.heap.varinfos.get p = some vi)
    (hti : s.heap.transinfos.get q = some ti) (fromSteps nsteps : Int) :
    Outcome hooks (requestFits s fromSteps nsteps vi ti = true → ∀ vi' ti',
        retrieveBlockinfos hooks s.fp vi ti = .ok (vi', ti') → vi' = vi ∧ ti' = ti)
      ((generateReadReqgroup hooks s p q vi ti fromSteps nsteps).map fun s => (s, .status 0)) := by
  unfold generateReadReqgroup
  split_ifs with hfits
  · cases hretrieve : retrieveBlockinfos hooks s.fp vi ti with
    | error fault => exact .of_reader fault fun _ vi' ti' heq => by cases heq
    | ok r =>
      obtain ⟨vi', ti'⟩ := r
      refine .done ⟨hinv.owned.varinfos.write p vi', hinv.owned.transinfos.write q ti',
        hinv.owned.physical, hinv.owned.capacity⟩ ⟨fun hinv' _ vi'' ti'' heq => ?_, fun hall => ?_⟩
      · have hright := hinv.coherent i slot hslot
        have hright' := hinv'.coherent i slot hslot
        injection heq with heq
        injection heq with hvi'' hti''
        constructor
        · have hold := hright.varinfo .physical p hp
          have hnew := hright'.varinfo .physical p hp
          replace hnew : commonReadInqVarByid hooks s.fp .physical i =
            .ok ((s.heap.varinfos.write p vi').get p) := hnew
          rw [Heap.Objects.get_write_self] at hnew
          rw [hvi] at hold
          injection hnew.symm.trans hold with hsome
          injection hsome with hsome
          exact hvi''.symm.trans hsome
        · have hold := hright.transinfo q hq
          have hnew := hright'.transinfo q hq
          replace hnew : freshTransinfo hooks s.fp i =
            .ok ((s.heap.transinfos.write q ti').get q) := hnew
          rw [Heap.Objects.get_write_self] at hnew
          rw [hti] at hold
          injection hnew.symm.trans hold with hsome
          injection hsome with hsome
          exact hti''.symm.trans hsome
      · obtain ⟨rfl, rfl⟩ := hall hfits vi' ti' rfl
        rw [Heap.Objects.write_of_get hvi, Heap.Objects.write_of_get hti]
        exact hinv
  · exact .of_assertion fun htrue => absurd htrue hfits

end

theorem delegateRead_outcome {s₁ s₂ : CachedFile}
    (hid : IsId varid) {vi : Option VarInfo} {ti : Option TransInfo}
    {p q : Option Nat} (h : VarinfoInquired hooks s .physical varid vi p s₁)
    (h₂ : TransinfoInquired hooks s₁ varid ti q s₂) (fromSteps nsteps : Int) :
    Outcome hooks (BlocksThere hooks s varid fromSteps nsteps)
      ((delegateRead hooks s₂ fromSteps nsteps p q).map fun s => (s, .status 0)) := by
  have hview : s₂.dataView = s.dataView := h₂.grows.dataView.trans h.grows.dataView
  have hfp : s₂.fp = s.fp := h₂.grows.fp.trans h.grows.fp
  have hstreaming : s₂.isStreaming = s.isStreaming :=
    h₂.grows.isStreaming.trans h.grows.isStreaming
  have hti : commonReadInqTransinfo hooks s.fp vi = .ok ti := by
    have hfresh := h₂.fresh
    rw [h.grows.fp, freshTransinfo, h.fresh, ok_bind] at hfresh
    exact hfresh
  have hnone : vi = none ∨ ti = none → BlocksThere hooks s varid fromSteps nsteps := by
    intro hor vi' ti' vi'' ti'' hvi' hti'
    cases h.fresh.symm.trans hvi'
    cases hti.symm.trans hti'
    rcases hor with hvi | hti
    · cases hvi
    · cases hti
  cases p with
  | none =>
    have hvi : vi = none := by
      injection h.load with hload
      exact hload.symm
    exact .of_assertion (hnone (.inl hvi))
  | some p =>
    cases q with
    | none =>
      have hti : ti = none := by
        injection h₂.load with hload
        exact hload.symm
      exact .of_assertion (hnone (.inr hti))
    | some q =>
      obtain ⟨slot₁, hslot₁, hp₁⟩ := h.entry
      obtain ⟨slot₂, hslot₂, hq⟩ := h₂.entry
      obtain ⟨slot, hslot, hp⟩ := h₂.grows.stored _ slot₁ .physical p hslot₁ hp₁
      cases hslot₂.symm.trans hslot
      obtain ⟨vi', hvi⟩ := Option.isSome_iff_exists.mp (h₂.inv.owned.varinfo_live hslot hp).1
      obtain ⟨ti', hti'⟩ := Option.isSome_iff_exists.mp (h₂.inv.owned.transinfo_live hslot hq).1
      have hfreshVi := (h₂.inv.coherent _ slot₂ hslot).varinfo .physical p hp
      have hfreshTi := (h₂.inv.coherent _ slot₂ hslot).transinfo q hq
      rw [hfp, hvi, Int.toNat_of_nonneg hid.1] at hfreshVi
      rw [hfp, hti', Int.toNat_of_nonneg hid.1, freshTransinfo, hfreshVi, ok_bind] at hfreshTi
      have hblocks : (delegates s.dataView ti' = true →
          requestFits s₂ fromSteps nsteps vi' ti' = true → ∀ vi'' ti'',
            retrieveBlockinfos hooks s₂.fp vi' ti' = .ok (vi'', ti'') → vi'' = vi' ∧ ti'' = ti') ↔
          BlocksThere hooks s varid fromSteps nsteps := by
        have hsteps : requestFits s₂ fromSteps nsteps vi' ti' =
            requestFits s fromSteps nsteps vi' ti' := by
          unfold requestFits CachedFile.stepsToRead
          rw [hstreaming]
        rw [hsteps, hfp]
        constructor
        · intro hall vi₀ ti₀ vi₁ ti₁ hvi₀ hti₀
          cases hfreshVi.symm.trans hvi₀
          cases hfreshTi.symm.trans hti₀
          exact fun hdelegates hfits heq => hall hdelegates hfits vi₁ ti₁ heq
        · intro hthere hdelegates hfits vi₁ ti₁ heq
          exact hthere vi' ti' vi₁ ti₁ hfreshVi hfreshTi hdelegates hfits heq
      refine Outcome.congr ?_ hblocks
      unfold delegateRead
      simp only [hvi, hti', hview]
      split_ifs with hdelegates
      · refine (generateReadReqgroup_outcome h₂.inv hslot hp hq hvi hti' fromSteps nsteps).congr ?_
        exact ⟨fun hall _ => hall, fun hall => hall hdelegates⟩
      · exact .of_inv h₂.inv fun htrue => absurd htrue hdelegates

theorem scheduleReadByid_outcome (hinv : CacheInv hooks s) (varid fromSteps nsteps : Int) :
    Outcome hooks (CallFits hooks showHiddenAttrs s (.scheduleReadByid varid fromSteps nsteps))
      ((scheduleReadByid hooks s varid fromSteps nsteps).map fun s => (s, .status 0)) := by
  unfold scheduleReadByid
  show Outcome hooks (0 ≤ varid → varid < s.fp.nvars →
    IsId varid ∧ BlocksThere hooks s varid fromSteps nsteps) _
  split_ifs with hrange
  · have hcond : (0 ≤ varid → varid < s.fp.nvars →
        IsId varid ∧ BlocksThere hooks s varid fromSteps nsteps) ↔
        IsId varid ∧ BlocksThere hooks s varid fromSteps nsteps :=
      ⟨fun h => h hrange.1 hrange.2, fun h _ _ => h⟩
    refine Outcome.congr ?_ hcond.symm
    by_cases hid : IsId varid
    · refine Outcome.congr ?_ (and_iff_right hid).symm
      rcases inqPhysicalVarinfo_spec hinv hid with ⟨vi, p, s₁, hinq, h⟩ | ⟨fault, hfresh, hinq⟩
      · rw [hinq, ok_bind]
        rcases adiosInfocacheInqTransinfo_spec h.inv hid with
          ⟨ti, q, s₂, hinq₂, h₂⟩ | ⟨fault, hfresh₂, hinq₂⟩
        · show Outcome hooks _ ((adiosInfocacheInqTransinfo hooks s₁ varid >>= _).map _)
          rw [hinq₂, ok_bind]
          exact delegateRead_outcome hid h h₂ fromSteps nsteps
        · show Outcome hooks _ ((adiosInfocacheInqTransinfo hooks s₁ varid >>= _).map _)
          rw [hinq₂, error_bind]
          refine .of_reader fault fun vi' ti vi'' ti'' hvi' hti => ?_
          rw [h.grows.fp, freshTransinfo, hvi', ok_bind, hti] at hfresh₂
          cases hfresh₂
      · rw [hinq, error_bind]
        refine .of_reader fault fun vi ti vi' ti' hvi => ?_
        rw [hfresh] at hvi
        cases hvi
    · have hat : slotAt ((s.setDataView .physical).expandFor varid).infocache varid =
          .error .outOfBounds := slotAt_of_not_isId hinv.owned hid
      rw [inqPhysicalVarinfo, adiosInfocacheInqVarinfo, hat]
      exact .outOfBounds fun h => hid h.1
  · refine .of_inv hinv fun hnonneg hlt => absurd ⟨hnonneg, hlt⟩ hrange

end Spec

theorem Call.outcome {hooks : ReadHooks} (showHiddenAttrs : Bool) {s : CachedFile}
    (hinv : CacheInv hooks s) (call : Call) :
    Outcome hooks (CallFits hooks showHiddenAttrs s call) (call.run hooks showHiddenAttrs s) := by
  cases call with
  | groupView groupid => exact setFile_outcome hinv _ _
  | advanceStep last poll => exact advanceStep_outcome hinv last poll
  | setDataView view => exact .of_inv (hinv.setDataView view) trivial
  | inqVarinfo varid => exact inqVarinfo_outcome hinv varid
  | inqTransinfo varid => exact inqTransinfo_outcome hinv varid
  | scheduleReadByid varid fromSteps nsteps =>
    exact scheduleReadByid_outcome hinv varid fromSteps nsteps

theorem cacheInv_opened (hooks : ReadHooks) (fp : AdiosFile) (isStreaming : Bool) :
    CacheInv hooks (.opened fp isStreaming) :=
  cacheInv_of_empty (n := 16) (by decide) rfl

def CacheTransparent (hooks : ReadHooks) (showHiddenAttrs : Bool) (s : CachedFile)
    (calls : List Call) : Prop :=
  Transparent hooks s ∧
    Runs.Every (step hooks showHiddenAttrs) (CallRight hooks showHiddenAttrs) s calls

theorem cacheTransparent_iff (hooks : ReadHooks) (showHiddenAttrs isStreaming : Bool)
    (fp : AdiosFile) (calls : List Call) :
    CacheTransparent hooks showHiddenAttrs (.opened fp isStreaming) calls ↔
      Runs.Every (step hooks showHiddenAttrs) (CallFits hooks showHiddenAttrs)
        (.opened fp isStreaming) calls := by
  have hopened := cacheInv_opened hooks fp isStreaming
  have hiff : ∀ s call, CacheInv hooks s → True →
      (CallRight hooks showHiddenAttrs s call ↔ CallFits hooks showHiddenAttrs s call) :=
    fun s call hinv _ => (call.outcome showHiddenAttrs hinv).right_iff
  have hkeep : ∀ s call, CacheInv hooks s → True → CallRight hooks showHiddenAttrs s call →
      ∀ s' returned, step hooks showHiddenAttrs s call = .ok (some (s', returned)) →
        CacheInv hooks s' := by
    intro s call hinv _ hright s' returned hstep
    have houtcome := call.outcome showHiddenAttrs hinv
    rw [step] at hstep
    cases hrun : call.run hooks showHiddenAttrs s with
    | error fault =>
      rw [hrun] at hstep
      cases hstep
    | ok r =>
      rw [hrun] at hstep houtcome
      cases hstep
      exact houtcome.inv (((call.outcome showHiddenAttrs hinv).right_iff).mp hright)
  rw [CacheTransparent, and_iff_right hopened.transparent]
  exact Runs.every_iff_of_invariant hiff hkeep hopened (Runs.every_true _ _)

/-! ## Two groups with a scalar each -/

def scalarHooks : ReadHooks where
  inqVarByid fp varid := do
    let k ← adiosReadBpInqVarByid fp varid
    return (fp.fh.bind (·.varsRoot[k]?)).map fun v =>
      { varid := varid, type := v.type, ndim := 0, dims := [], nsteps := 1
        value := v.characteristics.head?.bind (·.value), global := false, nblocks := [1]
        sumNblocks := v.characteristics.length, blockinfo := none }
  inqVarTransinfo fp vi := do
    let _ ← adiosReadBpInqVarTransinfo fp vi.varid.toNat
    return some
      { transformType := .none, transformMetadata := [], shouldFreeTransformMetadata := false
        origType := .unknown, origNdim := 0, origDims := [], origGlobal := false
        origBlockinfo := none, transformMetadatas := none }
  inqVarBlockinfo _ vi := .ok { vi with blockinfo := some [⟨[], []⟩] }
  inqVarTransBlockinfo _ _ ti := .ok { ti with origBlockinfo := some [⟨[], []⟩] }

def scalarEntry (group name : List UInt8) (type : Datatype) (value : List UInt8) : IndexEntry :=
  { timedEntry group name [1] with
    type := type
    characteristics := [{ IndexCharacteristic.zero with timeIndex := 1, value := some value }] }

def twoScalars : BpIndex :=
  { twoGroups with
    varsRoot := [scalarEntry (chars "g") (chars "a") .integer [7, 0, 0, 0],
      scalarEntry (chars "h") (chars "b") .byte [1]] }

/-- Behind the view of the second group, id 0 is still the variable of the first. -/
theorem not_cacheTransparent_secondGroup :
    ∃ f, commonReadOpen false false twoScalars = .ok f ∧
      ¬CacheTransparent scalarHooks false (.opened f false)
        [.groupView 0, .inqVarinfo 0, .groupView 1] := by
  refine ⟨_, rfl, fun h => ?_⟩
  obtain ⟨-, -, hinquired⟩ := h
  obtain ⟨-, hviewed⟩ := hinquired _ _ rfl
  obtain ⟨⟨-, htransparent⟩, -⟩ := hviewed _ _ rfl
  have hzero := (htransparent _ _ rfl 0 (by decide) .logical).1
  exact absurd hzero (by decide)

end Adios.Infocache
