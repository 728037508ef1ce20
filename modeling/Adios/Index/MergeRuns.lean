import Adios.Index.MergeSpec

/-!
# Adios — sequences of merges

Any number of indexes merged into the empty one (`Reaches`), and what the main index is after
each of them (`MergedIndex`).
-/

namespace Adios

open List Heap Lists

/-! ## The variables that are merged -/

def ownGroup (vs : List IndexEntry) (v : IndexEntry) : Bool :=
  (vs.find? fun w => varKey w = varKey v).all fun w => w.groupName = v.groupName

/-- The variables without those whose path and name came in another group before: these are
refused with an error. -/
def mergedVars (vs : List IndexEntry) : List IndexEntry := vs.filter (ownGroup vs)

theorem mergedVars_snoc (vs : List IndexEntry) (v : IndexEntry) :
    mergedVars (vs ++ [v]) = mergedVars vs ++ if ownGroup vs v then [v] else [] := by
  have hold : ∀ w ∈ vs, ownGroup (vs ++ [v]) w = ownGroup vs w := by
    intro w hw
    have hsome : (vs.find? fun u => varKey u = varKey w).isSome :=
      List.find?_isSome.mpr ⟨w, hw, by simp⟩
    obtain ⟨u, hu⟩ := Option.isSome_iff_exists.mp hsome
    rw [ownGroup, ownGroup, List.find?_append, hu]
    rfl
  have hnew : ownGroup (vs ++ [v]) v = ownGroup vs v := by
    rw [ownGroup, ownGroup, List.find?_append]
    cases vs.find? fun u => varKey u = varKey v <;> simp
  rw [mergedVars, filter_append, filter_congr hold]
  congr 1
  rw [← hnew]
  cases hown : ownGroup (vs ++ [v]) v <;> simp [hown]

theorem groupName_foldl_combineVar (vs : List IndexEntry) (v : IndexEntry) :
    (vs.foldl combineVar v).groupName = v.groupName := by
  induction vs generalizing v with
  | nil => rfl
  | cons w vs ih =>
    rw [foldl_cons, ih, combineVar]
    split_ifs <;> rfl

theorem ownGroup_iff {vs : List IndexEntry} {v e : IndexEntry}
    (he : e ∈ collect varKey combineVar vs) (hkey : varKey e = varKey v) :
    ownGroup vs v = true ↔ e.groupName = v.groupName := by
  obtain ⟨pre, x, post, rfl, hpre, hx, hfold⟩ := mem_collect varKey_combineVar he
  have hgroup : e.groupName = x.groupName := by
    rw [hfold]
    exact groupName_foldl_combineVar _ x
  have hnone : (pre.find? fun w => varKey w = varKey v) = none :=
    List.find?_eq_none.mpr fun w hw => by simpa [← hkey] using hpre w hw
  rw [ownGroup, List.find?_append, hnone, Option.none_or,
    List.find?_cons_of_pos (by simpa [← hkey] using hx), hgroup]
  simp

theorem collect_combineVar (vs : List IndexEntry) :
    collect varKey combineVar vs = collect varKey appendEntry (mergedVars vs) := by
  induction vs using List.reverseRecOn with
  | nil => rfl
  | append_singleton vs v ih =>
    rw [collect_snoc, mergedVars_snoc]
    by_cases hmem : varKey v ∈ (collect varKey combineVar vs).map varKey
    · obtain ⟨s, e, t, hsplit, hs, he⟩ := exists_split hmem
      have hown := ownGroup_iff (show e ∈ collect varKey combineVar vs by rw [hsplit]; simp) he
      cases hgroup : ownGroup vs v with
      | true =>
        rw [if_pos rfl, collect_snoc, ← ih, hsplit, insertWith_append hs he,
          insertWith_append hs he, combineVar, if_pos (hown.mp hgroup)]
      | false =>
        have hne : e.groupName ≠ v.groupName := fun heq => by
          rw [hown.mpr heq] at hgroup
          cases hgroup
        rw [if_neg (by simp), append_nil, ← ih, hsplit, insertWith_append hs he, combineVar,
          if_neg hne]
    · -- the first variable of its path and name
      have hnew : ∀ e ∈ collect varKey combineVar vs, varKey e ≠ varKey v :=
        fun e he heq => hmem (heq ▸ mem_map_of_mem he)
      have hown : ownGroup vs v = true := by
        have hnone : (vs.find? fun w => varKey w = varKey v) = none :=
          List.find?_eq_none.mpr fun w hw => by
            rw [mem_map_key_collect varKey_combineVar] at hmem
            have hne : varKey w ≠ varKey v := fun heq => hmem (heq ▸ mem_map_of_mem hw)
            simpa using hne
        rw [ownGroup, hnone]
        rfl
      rw [if_pos hown, collect_snoc, ← ih, insertWith_of_notMem hnew, insertWith_of_notMem hnew]

/-- The cells of `s` hold one entry for each key of `es`, with the sets of all of them. -/
structure MergedBy {κ : Type} [DecidableEq κ] (key : IndexEntry → κ) (es : List IndexEntry)
    (s : List (Addr × StoredEntry)) : Prop where
  /-- No key has two entries. -/
  once : ((entries s).map key).Nodup
  keys : ∀ k, k ∈ (entries s).map key ↔ k ∈ es.map key
  /-- The sets of an entry are those of all entries of its key, in the order of merging. -/
  concatenated : ∀ e ∈ entries s,
    e.characteristics = (es.filter fun e' => key e' = key e).flatMap IndexEntry.characteristics
  counted : ∀ x ∈ s, x.2.characteristicsCount.toNat =
      ((es.filter fun e => key e = key x.2.entry).map fun e => e.characteristics.length).sum ∧
    x.2.characteristicsCount ≤ x.2.characteristicsAllocated
  /-- No set is lost and none is there twice. -/
  sets : ((entries s).flatMap IndexEntry.characteristics).Perm
    (es.flatMap IndexEntry.characteristics)

theorem mergedBy_of_collect {κ : Type} [DecidableEq κ] {key : IndexEntry → κ}
    (hkey : ∀ old item, key (appendEntry old item) = key old) {es : List IndexEntry}
    {s : List (Addr × StoredEntry)} (hwf : ∀ x ∈ s, x.2.Wf)
    (hs : entries s = collect key appendEntry es) : MergedBy key es s where
  once := by
    rw [hs]
    exact nodup_collect hkey es
  keys := by
    rw [hs]
    exact mem_map_key_collect hkey es
  concatenated := by
    rw [hs]
    exact fun e he => contents_collect (fun _ _ => rfl) hkey he
  counted := by
    intro x hx
    refine ⟨?_, (hwf x hx).allocated⟩
    have hmem : x.2.entry ∈ collect key appendEntry es := by
      rw [← hs]
      exact mem_map_of_mem hx
    have hsets := contents_collect (f := IndexEntry.characteristics) (fun _ _ => rfl) hkey hmem
    rw [(hwf x hx).count, hsets, length_flatMap]
  sets := by
    rw [hs]
    exact flatMap_collect (fun _ _ => rfl) es

/-- The cells of the main index, after process groups `gs'`, variables `vs'` and attributes `as'`
were merged. -/
structure MergedIndex (gs' : List IndexProcessGroup) (vs' as' : List IndexEntry)
    (st : IndexStore) (gs : List (Addr × IndexProcessGroup)) (vs as : List (Addr × StoredEntry)) :
    Prop where
  pgList : st.pgs.Holds gs
  pgs : gs.map Prod.snd = gs'
  varList : st.vars.Holds vs
  /-- The cached tail is the last cell of the list. -/
  varsTail : st.varsTail = (addrs vs).getLast?
  /-- The hash table has the cells of the list, by path and name. -/
  hashtblVars : ∀ k a, st.hashtblVars k = some a ↔ ∃ e, (a, e) ∈ vs ∧ varKey e.entry = k
  vars : MergedBy varKey (mergedVars vs') vs
  /-- Every variable's path and name is in the list. -/
  varKeys : ∀ k, k ∈ (entries vs).map varKey ↔ k ∈ vs'.map varKey
  /-- What an entry has comes from the variables of its group. -/
  varGroups : ∀ e ∈ entries vs, ∀ v ∈ vs', varKey v = varKey e →
    (v ∈ mergedVars vs' ↔ v.groupName = e.groupName)
  attrList : st.attrs.Holds as
  attrs : MergedBy attrKey as' as

/-! ## Runs -/

structure NewIndex where
  pgs : List IndexProcessGroup
  vars : List StoredEntry
  attrs : List StoredEntry

/-- The sets of each entry fit the count of an `int`. -/
structure NewIndex.Small (new : NewIndex) : Prop where
  vars : ∀ e ∈ new.vars, e.Small
  attrs : ∀ e ∈ new.attrs, e.Small

def allPgs (ixs : List NewIndex) : List IndexProcessGroup := ixs.flatMap NewIndex.pgs

def allVars (ixs : List NewIndex) : List IndexEntry :=
  ixs.flatMap fun ix => ix.vars.map StoredEntry.entry

def allAttrs (ixs : List NewIndex) : List IndexEntry :=
  ixs.flatMap fun ix => ix.attrs.map StoredEntry.entry

/-- The lists of `new`, built in free memory beside the main index. -/
structure Installed (new : NewIndex) (newPgRoot newVarsRoot newAttrsRoot : Option Addr)
    (st st' : IndexStore) : Prop where
  roots : st'.pgs.root = st.pgs.root ∧ st'.vars.root = st.vars.root ∧
    st'.attrs.root = st.attrs.root
  varsTail : st'.varsTail = st.varsTail
  hashtblVars : st'.hashtblVars = st.hashtblVars
  pgs : ∃ s, Placed st.pgs.store st'.pgs.store newPgRoot new.pgs s
  vars : ∃ s, Placed st.vars.store st'.vars.store newVarsRoot new.vars s
  attrs : ∃ s, Placed st.attrs.store st'.attrs.store newAttrsRoot new.attrs s

/-- The main index can be `st` after the indexes of `done`, whatever memory these were in. A merge
is over when its loops are: with any fuel from some number on it gives the same. -/
inductive Reaches (canAlloc : UInt64 → Bool) : List NewIndex → IndexStore → Prop where
  | empty : Reaches canAlloc [] .empty
  | merge {done : List NewIndex} {new : NewIndex} {st st₁ st₂ : IndexStore} {n : Nat}
      {newPgRoot newVarsRoot newAttrsRoot : Option Addr} :
      Reaches canAlloc done st → Installed new newPgRoot newVarsRoot newAttrsRoot st st₁ →
      (∀ fuel ≥ n, mergeIndexV1 canAlloc fuel newPgRoot newVarsRoot newAttrsRoot st₁ = .ok st₂) →
      Reaches canAlloc (done ++ [new]) st₂

structure MergeInv (done : List NewIndex) (st : IndexStore) (gs : List (Addr × IndexProcessGroup))
    (vs as : List (Addr × StoredEntry)) : Prop where
  pgList : st.pgs.Holds gs
  pgs : gs.map Prod.snd = allPgs done
  varsRep : VarsRep st vs
  vars : entries vs = collect varKey combineVar (allVars done)
  attrList : st.attrs.Holds as
  attrsWf : ∀ x ∈ as, x.2.Wf
  attrs : entries as = collect attrKey appendEntry (allAttrs done)

theorem mergeInv_empty : MergeInv [] .empty [] [] [] where
  pgList := rfl
  pgs := rfl
  varsRep :=
    { list := rfl
      tail := rfl
      hash := by simp [IndexStore.empty]
      keys := nodup_nil
      wf := by simp }
  vars := rfl
  attrList := rfl
  attrsWf := by simp
  attrs := rfl

theorem setCount_collect_le {κ : Type} [DecidableEq κ] (key : IndexEntry → κ)
    {comb : IndexEntry → IndexEntry → IndexEntry}
    (hcomb : ∀ old item, (comb old item).characteristics.length ≤
      old.characteristics.length + item.characteristics.length)
    (es : List IndexEntry) : setCount (collect key comb es) ≤ setCount es := by
  induction es using List.reverseRecOn with
  | nil => exact Nat.le_refl _
  | append_singleton es e ih =>
    rw [collect_snoc, setCount_append, setCount_cons]
    have hle := setCount_insertWith_le key hcomb (collect key comb es) e
    omega

structure KeepsFree (st st' : IndexStore) : Prop where
  pgs : ∀ a, st.pgs.store a = none → st'.pgs.store a = none
  vars : ∀ a, st.vars.store a = none → st'.vars.store a = none
  attrs : ∀ a, st.attrs.store a = none → st'.attrs.store a = none

section

variable {canAlloc : UInt64 → Bool} (hmem : ∀ n, canAlloc n = true) {done : List NewIndex}
  {new : NewIndex} {st st₁ : IndexStore} {gs : List (Addr × IndexProcessGroup)}
  {vs as : List (Addr × StoredEntry)} {newPgRoot newVarsRoot newAttrsRoot : Option Addr}
  (h : MergeInv done st gs vs as) (hnew : Installed new newPgRoot newVarsRoot newAttrsRoot st st₁)
  (hsmall : new.Small) (hvars : setCount (allVars (done ++ [new])) < 2 ^ 63)
  (hattrs : setCount (allAttrs (done ++ [new])) < 2 ^ 63)

include hmem h hnew hsmall hvars hattrs

theorem mergeIndexV1_frame :
    ∃ st₂ gs' vs' as' n,
      (∀ fuel ≥ n, mergeIndexV1 canAlloc fuel newPgRoot newVarsRoot newAttrsRoot st₁ = .ok st₂) ∧
        MergeInv (done ++ [new]) st₂ gs' vs' as' ∧ KeepsFree st₁ st₂ := by
  obtain ⟨⟨hpgRoot, hvarsRoot, hattrsRoot⟩, htail, hhash, ⟨gt, hg⟩, ⟨vt, hv⟩, ⟨at', ha⟩⟩ := hnew
  have hvt : entries vt = new.vars.map StoredEntry.entry := by
    rw [← hv.values, entries, map_map]
    rfl
  have hat : entries at' = new.attrs.map StoredEntry.entry := by
    rw [← ha.values, entries, map_map]
    rfl
  have hallVars : allVars (done ++ [new]) = allVars done ++ entries vt := by simp [allVars, hvt]
  have hallAttrs : allAttrs (done ++ [new]) = allAttrs done ++ entries at' := by
    simp [allAttrs, hat]
  rw [hallVars, setCount_append] at hvars
  rw [hallAttrs, setCount_append] at hattrs
  -- the process groups
  have hpgList : st₁.pgs.Holds gs := by
    have hlist := hg.isList h.pgList
    rwa [← hpgRoot] at hlist
  obtain ⟨pgs', hpgs', hpgHolds, hpgFrame⟩ :=
    indexAppendProcessGroupV1_frame hpgList hg.list (hg.disjoint h.pgList)
  -- the variables
  have hrep : VarsRep { st₁ with pgs := pgs' } vs := by
    have hlist := hv.isList h.varsRep.list
    rw [← hvarsRoot] at hlist
    exact ⟨hlist, htail.trans h.varsRep.tail, fun k a => by rw [← h.varsRep.hash, ← hhash],
      h.varsRep.keys, h.varsRep.wf⟩
  have hsmallV : ∀ x ∈ vt, x.2.Small := fun x hx =>
    hsmall.vars x.2 (by rw [← hv.values]; exact mem_map_of_mem hx)
  have hvarsLe := setCount_collect_le varKey length_combineVar_le (allVars done)
  rw [← h.vars] at hvarsLe
  obtain ⟨st', vs', hmergeV, hrep', hentriesV, -, hframe⟩ :=
    mergeVars_spec hmem hrep hv.list (hv.disjoint h.varsRep.list) hsmallV (by omega)
  -- the attributes
  have hattrList : st'.attrs.Holds as := by
    have hlist := ha.isList h.attrList
    rw [← hattrsRoot] at hlist
    rw [hframe.attrs]
    exact hlist
  have hattrNew : IsList st'.attrs.store newAttrsRoot at' := by
    rw [hframe.attrs]
    exact ha.list
  have hsmallA : ∀ x ∈ at', x.2.Small := fun x hx =>
    hsmall.attrs x.2 (by rw [← ha.values]; exact mem_map_of_mem hx)
  have hattrsLe := setCount_collect_le attrKey length_appendEntry_le (allAttrs done)
  rw [← h.attrs] at hattrsLe
  obtain ⟨attrs', as', hmergeA, hholdsA, hwfA, hentriesA, -, hattrFrame⟩ :=
    mergeAttrs_spec hmem hattrList h.attrsWf hattrNew (ha.disjoint h.attrList) hsmallA (by omega)
  refine ⟨{ st' with attrs := attrs' }, gs ++ gt, vs', as',
    gs.length + vt.length + as.length + at'.length + 1, fun fuel hfuel => ?_, ?_, ?_⟩
  · unfold mergeIndexV1
    simp only [bind, Except.bind, hpgs' fuel (by omega), hmergeV fuel (by omega),
      hmergeA fuel (by omega) fuel (by omega)]
    rfl
  · exact
      { pgList := by
          show st'.pgs.Holds _
          rw [hframe.pgs]
          exact hpgHolds
        pgs := by simp [allPgs, h.pgs, hg.values]
        varsRep := ⟨hrep'.list, hrep'.tail, hrep'.hash, hrep'.keys, hrep'.wf⟩
        vars := by rw [hentriesV, h.vars, hallVars, collect, collect, foldl_append]
        attrList := hholdsA
        attrsWf := hwfA
        attrs := by rw [hentriesA, h.attrs, hallAttrs, collect, collect, foldl_append] }
  · refine ⟨fun a hfree => ?_, fun a hfree => ?_, fun a hfree => ?_⟩
    · show st'.pgs.store a = none
      rw [hframe.pgs]
      exact (hpgFrame a (hpgList.notMem_of_none hfree)).trans hfree
    · refine (hframe.store a ?_).trans hfree
      rw [mem_append, not_or]
      exact ⟨hrep.list.notMem_of_none hfree, hv.list.notMem_of_none hfree⟩
    · have hsame : st'.attrs.store a = none := by
        rw [hframe.attrs]
        exact hfree
      refine (hattrFrame a ?_).trans hsame
      rw [mem_append, not_or]
      exact ⟨hattrList.notMem_of_none hsame, hattrNew.notMem_of_none hsame⟩

theorem mergeIndexV1_spec :
    ∃ st₂ gs' vs' as' n,
      (∀ fuel ≥ n, mergeIndexV1 canAlloc fuel newPgRoot newVarsRoot newAttrsRoot st₁ = .ok st₂) ∧
        MergeInv (done ++ [new]) st₂ gs' vs' as' := by
  obtain ⟨st₂, gs', vs', as', n, hmerge, hinv, -⟩ :=
    mergeIndexV1_frame hmem h hnew hsmall hvars hattrs
  exact ⟨st₂, gs', vs', as', n, hmerge, hinv⟩

end

theorem MergeInv.mergedIndex {done : List NewIndex} {st : IndexStore}
    {gs : List (Addr × IndexProcessGroup)} {vs as : List (Addr × StoredEntry)}
    (h : MergeInv done st gs vs as) :
    MergedIndex (allPgs done) (allVars done) (allAttrs done) st gs vs as where
  pgList := h.pgList
  pgs := h.pgs
  varList := h.varsRep.list
  varsTail := h.varsRep.tail
  hashtblVars := h.varsRep.hash
  vars := mergedBy_of_collect (fun _ _ => rfl) h.varsRep.wf (h.vars.trans (collect_combineVar _))
  varKeys := by
    rw [h.vars]
    exact mem_map_key_collect varKey_combineVar _
  varGroups := by
    rw [h.vars]
    intro e he v hv hkey
    rw [mergedVars, mem_filter, ownGroup_iff he hkey.symm]
    exact ⟨fun hmem => hmem.2.symm, fun hgroup => ⟨hv, hgroup.symm⟩⟩
  attrList := h.attrList
  attrs := mergedBy_of_collect attrKey_appendEntry h.attrsWf h.attrs

/-- The indexes of a run that fit: the sets of each entry are counted by an `int`, and those of the
whole index by less than half a `uint64_t`. -/
structure Fits (ixs : List NewIndex) : Prop where
  small : ∀ ix ∈ ixs, ix.Small
  vars : setCount (allVars ixs) < 2 ^ 63
  attrs : setCount (allAttrs ixs) < 2 ^ 63

theorem Fits.of_snoc {ixs : List NewIndex} {ix : NewIndex} (h : Fits (ixs ++ [ix])) :
    Fits ixs where
  small := fun ix' hmem => h.small ix' (mem_append_left _ hmem)
  vars := by
    have hvars := h.vars
    rw [allVars, flatMap_append, setCount_append] at hvars
    exact Nat.lt_of_le_of_lt (Nat.le_add_right _ _) hvars
  attrs := by
    have hattrs := h.attrs
    rw [allAttrs, flatMap_append, setCount_append] at hattrs
    exact Nat.lt_of_le_of_lt (Nat.le_add_right _ _) hattrs

theorem Reaches.inv {canAlloc : UInt64 → Bool} (hmem : ∀ n, canAlloc n = true)
    {done : List NewIndex} {st : IndexStore} (h : Reaches canAlloc done st) (hfits : Fits done) :
    ∃ gs vs as, MergeInv done st gs vs as := by
  induction h with
  | empty => exact ⟨[], [], [], mergeInv_empty⟩
  | @merge done new st st₁ st₂ n pgRoot varsRoot attrsRoot _ hnew hmerge ih =>
    obtain ⟨gs, vs, as, hinv⟩ := ih hfits.of_snoc
    obtain ⟨st₂', gs', vs', as', n', hmerge', hinv'⟩ := mergeIndexV1_spec hmem hinv hnew
      (hfits.small new (by simp)) hfits.vars hfits.attrs
    have heq := hmerge (max n n') (Nat.le_max_left _ _)
    rw [hmerge' (max n n') (Nat.le_max_right _ _)] at heq
    cases heq
    exact ⟨gs', vs', as', hinv'⟩

theorem Reaches.merge_next {canAlloc : UInt64 → Bool} (hmem : ∀ n, canAlloc n = true)
    {done : List NewIndex} {new : NewIndex} {st st₁ : IndexStore}
    {newPgRoot newVarsRoot newAttrsRoot : Option Addr} (h : Reaches canAlloc done st)
    (hnew : Installed new newPgRoot newVarsRoot newAttrsRoot st st₁)
    (hfits : Fits (done ++ [new])) :
    ∃ st₂ n, (∀ fuel ≥ n,
        mergeIndexV1 canAlloc fuel newPgRoot newVarsRoot newAttrsRoot st₁ = .ok st₂) ∧
      Reaches canAlloc (done ++ [new]) st₂ := by
  obtain ⟨gs, vs, as, hinv⟩ := h.inv hmem hfits.of_snoc
  obtain ⟨st₂, _, _, _, n, hmerge, -⟩ := mergeIndexV1_spec hmem hinv hnew
    (hfits.small new (by simp)) hfits.vars hfits.attrs
  exact ⟨st₂, n, hmerge, h.merge hnew hmerge⟩

/-- **Merging indexes.** After any sequence of merges the list of the variables, its tail and the
hash table have the same entries, one for each path and name with the sets of the variables of its
group in merge order; the attributes are merged likewise by their caseless names, the process
groups one list after the other; and the next merge returns. -/
theorem mergeIndexV1_runs {canAlloc : UInt64 → Bool} (hmem : ∀ n, canAlloc n = true)
    {done : List NewIndex} {st : IndexStore} (h : Reaches canAlloc done st) (hfits : Fits done) :
    (∃ gs vs as, MergedIndex (allPgs done) (allVars done) (allAttrs done) st gs vs as) ∧
      ∀ new newPgRoot newVarsRoot newAttrsRoot st₁,
        Installed new newPgRoot newVarsRoot newAttrsRoot st st₁ → Fits (done ++ [new]) →
        ∃ st₂ n, ∀ fuel ≥ n,
          mergeIndexV1 canAlloc fuel newPgRoot newVarsRoot newAttrsRoot st₁ = .ok st₂ := by
  constructor
  · obtain ⟨gs, vs, as, hinv⟩ := h.inv hmem hfits
    exact ⟨gs, vs, as, hinv.mergedIndex⟩
  · intro new newPgRoot newVarsRoot newAttrsRoot st₁ hnew hnext
    obtain ⟨st₂, n, hmerge, -⟩ := h.merge_next hmem hnew hnext
    exact ⟨st₂, n, hmerge⟩

/-! ## Memory for the next index -/

structure FreeFrom (st : IndexStore) (a : Nat) : Prop where
  pgs : ∀ b, a ≤ b → st.pgs.store b = none
  vars : ∀ b, a ≤ b → st.vars.store b = none
  attrs : ∀ b, a ≤ b → st.attrs.store b = none

def placeIndex (st : IndexStore) (a : Nat) (new : NewIndex) : IndexStore :=
  { st with
    pgs := ⟨st.pgs.root, st.pgs.store.place a new.pgs⟩
    vars := ⟨st.vars.root, st.vars.store.place a new.vars⟩
    attrs := ⟨st.attrs.root, st.attrs.store.place a new.attrs⟩ }

theorem installed_placeIndex {st : IndexStore} {a : Nat} (h : FreeFrom st a) (new : NewIndex) :
    Installed new (if new.pgs = [] then none else some a) (if new.vars = [] then none else some a)
      (if new.attrs = [] then none else some a) st (placeIndex st a new) :=
  ⟨⟨rfl, rfl, rfl⟩, rfl, rfl, ⟨_, placed_place h.pgs new.pgs⟩, ⟨_, placed_place h.vars new.vars⟩,
    ⟨_, placed_place h.attrs new.attrs⟩⟩

theorem FreeFrom.placeIndex {st : IndexStore} {a : Nat} (h : FreeFrom st a) (new : NewIndex) :
    FreeFrom (placeIndex st a new)
      (a + (new.pgs.length + new.vars.length + new.attrs.length)) where
  pgs := fun b hb => (Store.place_of_outside (Or.inr (by omega))).trans (h.pgs b (by omega))
  vars := fun b hb => (Store.place_of_outside (Or.inr (by omega))).trans (h.vars b (by omega))
  attrs := fun b hb => (Store.place_of_outside (Or.inr (by omega))).trans (h.attrs b (by omega))

theorem exists_reaches {canAlloc : UInt64 → Bool} (hmem : ∀ n, canAlloc n = true)
    {done : List NewIndex} (hfits : Fits done) : ∃ st, Reaches canAlloc done st := by
  suffices h : ∃ st gs vs as a, Reaches canAlloc done st ∧ MergeInv done st gs vs as ∧
      FreeFrom st a by
    obtain ⟨st, _, _, _, _, hst, -⟩ := h
    exact ⟨st, hst⟩
  induction done using List.reverseRecOn with
  | nil =>
    exact ⟨.empty, [], [], [], 0, .empty, mergeInv_empty, fun _ _ => rfl, fun _ _ => rfl,
      fun _ _ => rfl⟩
  | append_singleton done new ih =>
    obtain ⟨st, gs, vs, as, a, hst, hinv, hfree⟩ := ih hfits.of_snoc
    have hnew := installed_placeIndex hfree new
    obtain ⟨st₂, gs', vs', as', n, hmerge, hinv', hkeep⟩ := mergeIndexV1_frame hmem hinv hnew
      (hfits.small new (by simp)) hfits.vars hfits.attrs
    have hfree' := hfree.placeIndex new
    exact ⟨st₂, gs', vs', as', _, hst.merge hnew hmerge, hinv',
      fun b hb => hkeep.pgs b (hfree'.pgs b hb), fun b hb => hkeep.vars b (hfree'.vars b hb),
      fun b hb => hkeep.attrs b (hfree'.attrs b hb)⟩

/-! ## Two variables of one name -/

/-- A variable `v` of a group, written once. -/
def groupVar (groupName : CString) : StoredEntry where
  entry :=
    { id := 0, groupName, name := ⟨chars "v", by simp [chars]⟩, path := CString.empty,
      type := .double, characteristics := [IndexCharacteristic.zero] }
  characteristicsCount := 1
  characteristicsAllocated := 1
  room := 1

/-- An index with the variable `v` of two groups. -/
def groupPair (g g' : CString) : NewIndex := ⟨[], [groupVar g, groupVar g'], []⟩

theorem groupVar_small (g : CString) : (groupVar g).Small where
  count := rfl
  allocated := by show (1 : UInt64) ≤ 1; decide
  room := by show (1 : UInt64).toNat ≤ 1; decide
  small := by show 1 < 2 ^ 31; decide

theorem groupPair_fits (g g' : CString) : Fits [groupPair g g'] where
  small := by
    intro ix hix
    rw [mem_singleton.mp hix]
    refine ⟨fun e he => ?_, fun e he => nomatch he⟩
    rcases mem_pair.mp he with rfl | rfl <;> exact groupVar_small _
  vars := by show 2 < 2 ^ 63; decide
  attrs := by show 0 < 2 ^ 63; decide

theorem exists_reaches_groupPair (g g' : CString) :
    ∃ st, Reaches (fun _ => true) [groupPair g g'] st := by
  let store : Store StoredEntry :=
    (Store.empty.set 1 ⟨groupVar g', none⟩).set 0 ⟨groupVar g, some 1⟩
  have hvars : Placed Store.empty store (some 0) [groupVar g, groupVar g']
      [(0, groupVar g), (1, groupVar g')] :=
    { list := ⟨rfl, some 1, rfl, rfl, none, rfl, rfl⟩
      values := rfl
      fresh := fun _ _ => rfl
      kept := fun _ _ h => nomatch h }
  have hnone : ∀ α : Type, Placed (Store.empty : Store α) .empty none [] [] := fun α =>
    { list := rfl, values := rfl, fresh := fun _ _ => rfl, kept := fun _ _ h => nomatch h }
  have hnew : Installed (groupPair g g') none (some 0) none .empty
      { IndexStore.empty with vars := ⟨none, store⟩ } :=
    ⟨⟨rfl, rfl, rfl⟩, rfl, rfl, ⟨[], hnone _⟩, ⟨_, hvars⟩, ⟨[], hnone _⟩⟩
  obtain ⟨st, _, -, hst⟩ :=
    Reaches.empty.merge_next (fun _ => rfl) hnew (groupPair_fits g g')
  exact ⟨st, hst⟩

theorem mergeIndexV1_runs_groupPair : ∃ st,
    Reaches (fun _ => true) [groupPair CString.empty CString.empty] st ∧
    ∃ gs vs as, MergedIndex (allPgs [groupPair CString.empty CString.empty])
      (allVars [groupPair CString.empty CString.empty])
      (allAttrs [groupPair CString.empty CString.empty]) st gs vs as := by
  obtain ⟨st, hst⟩ := exists_reaches_groupPair CString.empty CString.empty
  exact ⟨st, hst, (mergeIndexV1_runs (fun _ => rfl) hst (groupPair_fits _ _)).1⟩

/-- The variable `v` of a second group is in no entry of its group. -/
theorem not_merged_secondGroup : ∃ done st, Reaches (fun _ => true) done st ∧ Fits done ∧
    ∃ v ∈ allVars done, ∀ s, st.vars.Holds s →
      ∀ e ∈ entries s, varKey e = varKey v → e.groupName ≠ v.groupName := by
  let g : CString := ⟨chars "g", by simp [chars]⟩
  obtain ⟨st, hst⟩ := exists_reaches_groupPair CString.empty g
  refine ⟨_, st, hst, groupPair_fits _ _, (groupVar g).entry, by simp [allVars, groupPair], ?_⟩
  obtain ⟨_, vs, _, hinv⟩ := hst.inv (fun _ => rfl) (groupPair_fits _ _)
  intro s hs e he _
  rw [hs.unique hinv.varsRep.list, hinv.vars] at he
  have hone : collect varKey combineVar (allVars [groupPair CString.empty g]) =
      [(groupVar CString.empty).entry] := rfl
  rw [hone] at he
  obtain rfl := mem_singleton.mp he
  decide

end Adios
