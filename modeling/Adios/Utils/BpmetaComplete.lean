import Adios.Utils.Bpmeta
import Mathlib.Data.List.Flatten
import Mathlib.Data.List.Forall2

/-!
# bpmeta — when the rebuilt metadata is complete

The threads share the subfiles out without a gap only if all of them get the same number. If they
do, collecting in parts is collecting, so that the result is that of a single merge of all
subfiles; what remains is asked of the subfiles themselves.
-/

namespace Adios.Bpmeta

open List Lists Heap

/-! ## The ranges -/

def firstOf (n t tid : Nat) : Nat := tid * (n / t) + min tid (n % t)

theorem firstOf_succ (n t tid : Nat) : firstOf n t (tid + 1) =
    firstOf n t tid + n / t + if tid < n % t then 1 else 0 := by
  unfold firstOf
  rw [Nat.succ_mul]
  split_ifs <;> omega

theorem map_indices_rangesFrom (n : Nat) {t rounds tid : Nat} (ht : tid + rounds = t)
    (hpos : 0 < t) :
    (rangesFrom n t rounds tid ((firstOf n t tid : Int) - 1)).map indices =
      (List.range' tid rounds).map fun tid => List.range' (firstOf n t tid) (n / t) := by
  induction rounds generalizing tid with
  | zero => rfl
  | succ rounds ih =>
    have hmod : n % t < t := Nat.mod_lt n hpos
    have hsucc := firstOf_succ n t tid
    have hstart : (firstOf n t tid : Int) - 1 + 1 = firstOf n t tid := by omega
    have hend : (nextRange n t tid ((firstOf n t tid : Int) - 1)).2 =
        (firstOf n t (tid + 1) : Int) - 1 := by
      show (if tid < n % t then (firstOf n t tid : Int) - 1 + 1 + (n / t : Nat) - 1 + 1
        else (firstOf n t tid : Int) - 1 + 1 + (n / t : Nat) - 1) = _
      split_ifs at hsucc ⊢ <;> omega
    have hrange : indices (nextRange n t tid ((firstOf n t tid : Int) - 1)).1 =
        List.range' (firstOf n t tid) (n / t) := by
      have hpair : (nextRange n t tid ((firstOf n t tid : Int) - 1)).1 =
          ((firstOf n t tid : Int), (firstOf n t tid : Int) + (n / t : Nat) - 1) := by
        unfold nextRange
        rw [hstart]
        dsimp only
        by_cases hlast : tid + 1 < t
        · rw [if_pos hlast]
        · -- the main thread is never one of those with a subfile more
          rw [if_neg hlast, if_neg (by omega)]
      rw [hpair]
      show List.range' (firstOf n t tid : Int).toNat
        ((firstOf n t tid : Int) + (n / t : Nat) - 1 + 1 - firstOf n t tid).toNat = _
      have hcount : ((firstOf n t tid : Int) + (n / t : Nat) - 1 + 1 - firstOf n t tid).toNat =
          n / t := by
        generalize n / t = k
        omega
      rw [hcount, Int.toNat_natCast]
    rw [rangesFrom, range'_succ, map_cons, map_cons, hend, hrange, ih (by omega)]

variable {t : Nat} {st : IndexStore} {es : List IndexEntry}

theorem map_indices_ranges (n : Nat) (hpos : 0 < t) :
    (ranges n t).map indices =
      (List.range t).map fun tid => List.range' (firstOf n t tid) (n / t) := by
  have hzero : ((firstOf n t 0 : Nat) : Int) - 1 = -1 := by
    rw [firstOf, Nat.zero_mul, Nat.zero_min]
    rfl
  have hmap := @map_indices_rangesFrom n t t 0 (Nat.zero_add t) hpos
  rw [hzero, ← range_eq_range'] at hmap
  exact hmap

theorem flatMap_indices_of_dvd {n : Nat} (hpos : 0 < t) (h : t ∣ n) :
    (ranges n t).flatMap indices = List.range n := by
  have hparts : ∀ m, ((List.range m).flatMap fun tid => List.range' (tid * (n / t)) (n / t)) =
      List.range (m * (n / t)) := fun m => by
    induction m with
    | zero => rw [Nat.zero_mul]; rfl
    | succ m ih =>
      rw [range_succ, flatMap_append, ih, flatMap_singleton, Nat.succ_mul,
        range_add, range'_eq_map_range]
  have hfirst : (fun tid => List.range' (firstOf n t tid) (n / t)) =
      fun tid => List.range' (tid * (n / t)) (n / t) := by
    funext tid
    rw [firstOf, Nat.mod_eq_zero_of_dvd h, Nat.min_zero, Nat.add_zero]
  have hall : t * (n / t) = n := Nat.mul_div_cancel' h
  rw [flatMap_def, map_indices_ranges n hpos, hfirst, ← flatMap_def, hparts, hall]

theorem length_flatMap_indices (n : Nat) (hpos : 0 < t) :
    ((ranges n t).flatMap indices).length = t * (n / t) := by
  rw [flatMap_def, map_indices_ranges n hpos, ← flatMap_def, length_flatMap]
  simp

theorem partitioned_iff {n : Nat} (hpos : 0 < t) :
    ((ranges n t).flatMap indices).Perm (List.range n) ↔ t ∣ n := by
  constructor
  · intro hperm
    have hlen := hperm.length_eq
    rw [length_flatMap_indices n hpos, length_range] at hlen
    exact ⟨n / t, hlen.symm⟩
  · intro hdvd
    rw [flatMap_indices_of_dvd hpos hdvd]

/-! ## What the indexes hold -/

theorem contents_unique {ix ix' : NewIndex} (h : Contents st ix) (h' : Contents st ix') :
    ix = ix' := by
  obtain ⟨gs, vs, as, hgs, hpgs, hvs, hvars, has, hattrs⟩ := h
  obtain ⟨gs', vs', as', hgs', hpgs', hvs', hvars', has', hattrs'⟩ := h'
  rw [hgs.unique hgs'] at hpgs
  rw [hvs.unique hvs'] at hvars
  rw [has.unique has'] at hattrs
  obtain ⟨pgs, vars, attrs⟩ := ix
  obtain ⟨pgs', vars', attrs'⟩ := ix'
  simp_all

structure Merged (files : List NewIndex) (ix : NewIndex) : Prop where
  pgs : ix.pgs = allPgs files
  vars : varEntries ix = collect varKey combineVar (allVars files)
  attrs : attrEntries ix = collect attrKey appendEntry (allAttrs files)
  wf : ∀ e ∈ ix.vars ++ ix.attrs, e.Wf

theorem exists_contents {files : List NewIndex} (hfits : Fits files)
    (h : Reaches (fun _ => true) files st) : ∃ ix, Contents st ix ∧ Merged files ix := by
  obtain ⟨gs, vs, as, hinv⟩ := h.inv (fun _ => rfl) hfits
  refine ⟨⟨gs.map Prod.snd, vs.map Prod.snd, as.map Prod.snd⟩,
    ⟨gs, vs, as, hinv.pgList, rfl, hinv.varsRep.list, rfl, hinv.attrList, rfl⟩, hinv.pgs, ?_, ?_,
    fun e he => ?_⟩
  · rw [← hinv.vars, varEntries, entries, map_map]
    rfl
  · rw [← hinv.attrs, attrEntries, entries, map_map]
    rfl
  · rcases mem_append.mp he with he | he
    · obtain ⟨x, hx, rfl⟩ := mem_map.mp he
      exact hinv.varsRep.wf x hx
    · obtain ⟨x, hx, rfl⟩ := mem_map.mp he
      exact hinv.attrsWf x hx

theorem merged_of_contents {files : List NewIndex} {ix : NewIndex} (hfits : Fits files)
    (h : Reaches (fun _ => true) files st) (hix : Contents st ix) :
    Merged files ix := by
  obtain ⟨ix', hix', hmerged⟩ := exists_contents hfits h
  rw [contents_unique hix hix']
  exact hmerged

/-! ## Variables of one path and name -/

def OneGroup (es : List IndexEntry) : Prop :=
  ∀ v ∈ es, ∀ w ∈ es, varKey v = varKey w → v.groupName = w.groupName

theorem OneGroup.mono {es' : List IndexEntry} (h : OneGroup es) (hsub : ∀ e ∈ es', e ∈ es) :
    OneGroup es' := fun v hv w hw => h v (hsub v hv) w (hsub w hw)

theorem OneGroup.collect_eq (h : OneGroup es) :
    collect varKey combineVar es = collect varKey appendEntry es := by
  have hall : mergedVars es = es := by
    refine filter_eq_self.mpr fun v hv => ?_
    rw [ownGroup]
    cases hfind : es.find? fun w => varKey w = varKey v with
    | none => rfl
    | some w =>
      have hkey : varKey w = varKey v := by simpa using List.find?_some hfind
      have hgroup := h w (mem_of_find?_eq_some hfind) v hv hkey
      simpa using hgroup
  rw [collect_combineVar, hall]

theorem varKey_appendEntry (old item : IndexEntry) :
    varKey (appendEntry old item) = varKey old := rfl

theorem groupName_foldl_appendEntry (es : List IndexEntry) (e : IndexEntry) :
    (es.foldl appendEntry e).groupName = e.groupName := by
  induction es generalizing e with
  | nil => rfl
  | cons e' es ih => rw [foldl_cons, ih, appendEntry]

theorem exists_of_mem_collect {e : IndexEntry} (he : e ∈ collect varKey appendEntry es) :
    ∃ v ∈ es, varKey v = varKey e ∧ v.groupName = e.groupName := by
  obtain ⟨pre, x, post, rfl, -, hx, hfold⟩ := mem_collect varKey_appendEntry he
  refine ⟨x, by simp, hx, ?_⟩
  rw [hfold, groupName_foldl_appendEntry]

theorem appendEntry_assoc (x y z : IndexEntry) :
    appendEntry (appendEntry x y) z = appendEntry x (appendEntry y z) := by
  simp [appendEntry, append_assoc]

theorem collect_varKey_flatMap {ess : List (List IndexEntry)} (h : OneGroup ess.flatten) :
    collect varKey combineVar (ess.flatMap (collect varKey combineVar)) =
      collect varKey appendEntry ess.flatten := by
  have hparts : ess.flatMap (collect varKey combineVar) =
      ess.flatMap (collect varKey appendEntry) := by
    refine flatMap_congr fun es hes => ?_
    refine OneGroup.collect_eq (h.mono fun e he => ?_)
    exact mem_flatten.mpr ⟨es, hes, he⟩
  have hgroups : OneGroup (ess.flatMap (collect varKey appendEntry)) := fun v hv w hw hkey => by
    obtain ⟨es, hes, hv⟩ := mem_flatMap.mp hv
    obtain ⟨es', hes', hw⟩ := mem_flatMap.mp hw
    obtain ⟨v', hv', hvkey, hvgroup⟩ := exists_of_mem_collect hv
    obtain ⟨w', hw', hwkey, hwgroup⟩ := exists_of_mem_collect hw
    rw [← hvgroup, ← hwgroup]
    refine h v' (mem_flatten.mpr ⟨es, hes, hv'⟩) w' (mem_flatten.mpr ⟨es', hes', hw'⟩) ?_
    rw [hvkey, hwkey, hkey]
  rw [hparts, hgroups.collect_eq]
  exact collect_flatMap_collect varKey_appendEntry (fun x y z _ _ => appendEntry_assoc x y z) ess

theorem collect_attrKey_flatMap (ess : List (List IndexEntry)) :
    collect attrKey appendEntry (ess.flatMap (collect attrKey appendEntry)) =
      collect attrKey appendEntry ess.flatten :=
  collect_flatMap_collect attrKey_appendEntry (fun x y z _ _ => appendEntry_assoc x y z) ess

/-! ## Parts of the subfiles -/

/-- Fewer sets of a variable or an attribute than an `int` counts. -/
structure Countable (files : List NewIndex) : Prop where
  vars : ∀ k, (setsOf varKey k (allVars files)).length < 2147483648
  attrs : ∀ k, (setsOf attrKey k (allAttrs files)).length < 2147483648

theorem setCount_eq (es : List IndexEntry) :
    setCount es = (es.flatMap IndexEntry.characteristics).length := by
  induction es with
  | nil => rfl
  | cons e es ih => rw [setCount_cons, flatMap_cons, length_append, ih]

theorem setsOf_sublist {κ : Type} [DecidableEq κ] (key : IndexEntry → κ) (k : κ)
    {es' : List IndexEntry} (h : es'.Sublist es) :
    (setsOf key k es').Sublist (setsOf key k es) :=
  (h.filter _).flatMap _

section Sub

variable {files files' : List NewIndex} (hsub : files'.Sublist files)

include hsub

theorem allVars_sublist : (allVars files').Sublist (allVars files) := hsub.flatMap _

theorem allAttrs_sublist : (allAttrs files').Sublist (allAttrs files) := hsub.flatMap _

theorem fits_of_sublist (h : Fits files) : Fits files' where
  small := fun ix hix => h.small ix (hsub.subset hix)
  vars := by
    refine Nat.lt_of_le_of_lt ?_ h.vars
    rw [setCount_eq, setCount_eq]
    exact ((allVars_sublist hsub).flatMap _).length_le
  attrs := by
    refine Nat.lt_of_le_of_lt ?_ h.attrs
    rw [setCount_eq, setCount_eq]
    exact ((allAttrs_sublist hsub).flatMap _).length_le

end Sub

theorem Merged.small {part files : List NewIndex} {new : NewIndex} (h : Merged part new)
    (hsub : part.Sublist files) (hgroup : OneGroup (allVars files)) (hcount : Countable files) :
    new.Small := by
  have hpart := hgroup.mono fun e he => (allVars_sublist hsub).subset he
  constructor
  · intro e he
    refine ⟨h.wf e (mem_append_left _ he), ?_⟩
    have hmem : e.entry ∈ varEntries new := mem_map_of_mem he
    rw [h.vars, hpart.collect_eq] at hmem
    have hsets : e.entry.characteristics = setsOf varKey (varKey e.entry) (allVars part) :=
      contents_collect (fun _ _ => rfl) varKey_appendEntry hmem
    have hle := (setsOf_sublist varKey (varKey e.entry) (allVars_sublist hsub)).length_le
    have hlt := hcount.vars (varKey e.entry)
    rw [hsets]
    omega
  · intro e he
    refine ⟨h.wf e (mem_append_right _ he), ?_⟩
    have hmem : e.entry ∈ attrEntries new := mem_map_of_mem he
    rw [h.attrs] at hmem
    have hsets : e.entry.characteristics = setsOf attrKey (attrKey e.entry) (allAttrs part) :=
      contents_collect (fun _ _ => rfl) attrKey_appendEntry hmem
    have hle := (setsOf_sublist attrKey (attrKey e.entry) (allAttrs_sublist hsub)).length_le
    have hlt := hcount.attrs (attrKey e.entry)
    rw [hsets]
    omega

section Parts

variable {parts : List (List NewIndex)} {news : List NewIndex}
  (h : Forall₂ Merged parts news)

include h

theorem allPgs_news : allPgs news = allPgs parts.flatten := by
  induction h with
  | nil => rfl
  | @cons part new parts news hnew _ ih =>
    rw [flatten_cons, allPgs, allPgs, flatMap_cons, flatMap_append, hnew.pgs]
    exact congrArg _ ih

theorem allVars_news :
    allVars news = (parts.map allVars).flatMap (collect varKey combineVar) := by
  induction h with
  | nil => rfl
  | @cons part new parts news hnew _ ih =>
    rw [map_cons, flatMap_cons, allVars, flatMap_cons, ← hnew.vars]
    exact congrArg _ ih

theorem allAttrs_news :
    allAttrs news = (parts.map allAttrs).flatMap (collect attrKey appendEntry) := by
  induction h with
  | nil => rfl
  | @cons part new parts news hnew _ ih =>
    rw [map_cons, flatMap_cons, allAttrs, flatMap_cons, ← hnew.attrs]
    exact congrArg _ ih

omit h in
theorem flatten_map_allVars (parts : List (List NewIndex)) :
    (parts.map allVars).flatten = allVars parts.flatten := by
  induction parts with
  | nil => rfl
  | cons part parts ih =>
    rw [map_cons, flatten_cons, flatten_cons, ih, allVars, allVars, allVars, flatMap_append]

omit h in
theorem flatten_map_allAttrs (parts : List (List NewIndex)) :
    (parts.map allAttrs).flatten = allAttrs parts.flatten := by
  induction parts with
  | nil => rfl
  | cons part parts ih =>
    rw [map_cons, flatten_cons, flatten_cons, ih, allAttrs, allAttrs, allAttrs, flatMap_append]

theorem fits_news {files : List NewIndex} (hfiles : parts.flatten = files) (hfits : Fits files)
    (hgroup : OneGroup (allVars files)) (hcount : Countable files) : Fits news := by
  have hle : ∀ {κ : Type} [DecidableEq κ] (key : IndexEntry → κ)
      {comb : IndexEntry → IndexEntry → IndexEntry}, (∀ old item,
        (comb old item).characteristics.length ≤
          old.characteristics.length + item.characteristics.length) →
      ∀ ess : List (List IndexEntry),
        setCount (ess.flatMap (collect key comb)) ≤ setCount ess.flatten := by
    intro κ _ key comb hcomb ess
    induction ess with
    | nil => exact Nat.le_refl _
    | cons es ess ih =>
      have hone := setCount_collect_le key hcomb es
      rw [flatMap_cons, flatten_cons, setCount_append, setCount_append]
      omega
  have hvars := hfits.vars
  have hattrs := hfits.attrs
  constructor
  · intro new hnew
    obtain ⟨part, hpart, hmerged⟩ : ∃ part ∈ parts, Merged part new := by
      clear hfiles hle
      induction h with
      | nil => cases hnew
      | @cons part new' parts news hnew' _ ih =>
        rcases mem_cons.mp hnew with rfl | hmem
        · exact ⟨part, mem_cons_self, hnew'⟩
        · obtain ⟨part', hpart', hmerged⟩ := ih hmem
          exact ⟨part', mem_cons_of_mem _ hpart', hmerged⟩
    refine hmerged.small ?_ hgroup hcount
    rw [← hfiles]
    exact sublist_flatten_of_mem hpart
  · rw [allVars_news h]
    refine Nat.lt_of_le_of_lt (hle varKey length_combineVar_le _) ?_
    rw [flatten_map_allVars, hfiles]
    exact hvars
  · rw [allAttrs_news h]
    refine Nat.lt_of_le_of_lt (hle attrKey length_appendEntry_le _) ?_
    rw [flatten_map_allAttrs, hfiles]
    exact hattrs

end Parts

/-! ## The subfiles of the threads together -/

theorem filterMap_range_getElem? {α : Type} (xs : List α) :
    (List.range xs.length).filterMap (xs[·]?) = xs := by
  induction xs using List.reverseRecOn with
  | nil => rfl
  | append_singleton xs x ih =>
    have hold : (List.range xs.length).filterMap ((xs ++ [x])[·]?) =
        (List.range xs.length).filterMap (xs[·]?) :=
      filterMap_congr fun i hi => getElem?_append_left (mem_range.mp hi)
    have hnew : [xs.length].filterMap ((xs ++ [x])[·]?) = [x] := by
      rw [filterMap_cons_some getElem?_concat_length]
      rfl
    rw [length_append, length_singleton, range_succ, filterMap_append, hold, ih, hnew]

variable {job : Job}

def Job.parts (job : Job) : List (List NewIndex) :=
  (ranges job.files.length job.threads).map job.filesOf

theorem flatten_parts (h : job.threads ∣ job.files.length) : job.parts.flatten = job.files := by
  have hmove : ∀ rs : List (Int × Int), (rs.map job.filesOf).flatten =
      (rs.flatMap indices).filterMap (job.files[·]?) := fun rs => by
    induction rs with
    | nil => rfl
    | cons r rs ih =>
      rw [map_cons, flatten_cons, ih, flatMap_cons, filterMap_append]
      rfl
  rw [Job.parts, hmove, flatMap_indices_of_dvd job.threads_pos h, filterMap_range_getElem?]

structure Orderly (files : List NewIndex) : Prop where
  groups : OneGroup (allVars files)
  /-- Each set has the number of its subfile. -/
  numbered (i : Nat) (f : NewIndex) (hf : files[i]? = some f) (e : IndexEntry)
    (he : e ∈ varEntries f ++ attrEntries f) (c : IndexCharacteristic)
    (hc : c ∈ e.characteristics) : c.fileIndex.toNat = i
  /-- No set of a variable is of an earlier time than one before it, subfile after subfile. -/
  ascending : ∀ k, ((setsOf varKey k (allVars files)).map IndexCharacteristic.timeIndex).Pairwise
    (· ≤ ·)
  countable : Countable files

theorem rebuilt_merged (h : job.threads ∣ job.files.length) (hfiles : Orderly job.files)
    {st : IndexStore} {ix : NewIndex} (hst : Rebuilt job st) (hix : Contents st ix) :
    ix.pgs = allPgs job.files ∧ varEntries ix = collect varKey appendEntry (allVars job.files) ∧
      attrEntries ix = collect attrKey appendEntry (allAttrs job.files) := by
  obtain ⟨subindex, news, hsubs, hnews, hreach⟩ := hst
  have hflat := flatten_parts h
  have hmerged : Forall₂ Merged job.parts news := by
    have hsub : ∀ part ∈ job.parts, Fits part := fun part hpart => by
      refine fits_of_sublist ?_ job.fits
      rw [← hflat]
      exact sublist_flatten_of_mem hpart
    rw [Job.parts] at hsub ⊢
    clear hreach hflat
    generalize ranges job.files.length job.threads = rs at hsub hsubs ⊢
    induction hsubs generalizing news with
    | nil =>
      cases hnews
      exact .nil
    | @cons range sub rs subs hone _ ih =>
      cases hnews with
      | @cons _ new _ news hnew hrest =>
        rw [map_cons] at hsub ⊢
        refine .cons (merged_of_contents (hsub _ mem_cons_self) hone hnew) ?_
        exact ih news hrest fun part hpart => hsub part (mem_cons_of_mem _ hpart)
  have hfits := fits_news hmerged hflat job.fits hfiles.groups hfiles.countable
  have hall := merged_of_contents hfits hreach hix
  refine ⟨?_, ?_, ?_⟩
  · rw [hall.pgs, allPgs_news hmerged, hflat]
  · have hgroups : OneGroup (job.parts.map allVars).flatten := by
      rw [flatten_map_allVars, hflat]
      exact hfiles.groups
    rw [hall.vars, allVars_news hmerged, collect_varKey_flatMap hgroups, flatten_map_allVars, hflat]
  · rw [hall.attrs, allAttrs_news hmerged, collect_attrKey_flatMap, flatten_map_allAttrs, hflat]

theorem exists_rebuilt (h : job.threads ∣ job.files.length) (hfiles : Orderly job.files) :
    ∃ st ix, Rebuilt job st ∧ Contents st ix := by
  have hflat := flatten_parts h
  have hparts : ∀ part ∈ job.parts, ∃ sub new, Reaches (fun _ => true) part sub ∧
      Contents sub new ∧ Merged part new := fun part hpart => by
    have hfits : Fits part := by
      refine fits_of_sublist ?_ job.fits
      rw [← hflat]
      exact sublist_flatten_of_mem hpart
    obtain ⟨sub, hsub⟩ := exists_reaches (fun _ => rfl) hfits
    obtain ⟨new, hnew, hmerged⟩ := exists_contents hfits hsub
    exact ⟨sub, new, hsub, hnew, hmerged⟩
  obtain ⟨subs, news, hsubs, hnews, hmerged⟩ : ∃ subs news,
      Forall₂ (fun range sub => Reaches (fun _ => true) (job.filesOf range) sub)
        (ranges job.files.length job.threads) subs ∧
      Forall₂ Contents subs news ∧ Forall₂ Merged job.parts news := by
    rw [Job.parts] at hparts ⊢
    clear hflat
    generalize ranges job.files.length job.threads = rs at hparts ⊢
    induction rs with
    | nil => exact ⟨[], [], .nil, .nil, .nil⟩
    | cons range rs ih =>
      obtain ⟨sub, new, hsub, hnew, hmerged⟩ := hparts _ mem_cons_self
      obtain ⟨subs, news, hsubs, hnews, hall⟩ :=
        ih fun part hpart => hparts part (mem_cons_of_mem _ hpart)
      exact ⟨sub :: subs, new :: news, .cons hsub hsubs, .cons hnew hnews, .cons hmerged hall⟩
  have hfits := fits_news hmerged hflat job.fits hfiles.groups hfiles.countable
  obtain ⟨st, hst⟩ := exists_reaches (fun _ => rfl) hfits
  obtain ⟨ix, hix, -⟩ := exists_contents hfits hst
  exact ⟨st, ix, ⟨subs, news, hsubs, hnews, hst⟩, hix⟩

theorem map_flatten_eq_numbers_iff {α : Type} (f : α → Nat) (blocks : List (List α)) :
    blocks.flatten.map f = numbers blocks ↔
      ∀ (i : Nat) (b : List α), blocks[i]? = some b → ∀ c ∈ b, f c = i := by
  unfold numbers
  suffices hfrom : ∀ start, blocks.flatten.map f =
      (blocks.zipIdx start).flatMap (fun b => b.1.map fun _ => b.2) ↔
      ∀ (i : Nat) (b : List α), blocks[i]? = some b → ∀ c ∈ b, f c = start + i by
    have hzero := hfrom 0
    simp only [Nat.zero_add] at hzero
    exact hzero
  induction blocks with
  | nil => exact fun _ => ⟨fun _ i b hb => by simp at hb, fun _ => rfl⟩
  | cons b blocks ih =>
    intro start
    rw [flatten_cons, map_append, zipIdx_cons, flatMap_cons]
    have hlen : (b.map f).length = (b.map fun _ => start).length := by
      rw [length_map, length_map]
    constructor
    · intro heq i b' hb' c hc
      obtain ⟨hb, hrest⟩ := append_inj heq hlen
      cases i with
      | zero =>
        obtain rfl := Option.some.inj hb'
        exact map_inj_left.mp hb c hc
      | succ i =>
        rw [(ih (start + 1)).mp hrest i b' hb' c hc]
        omega
    · intro hall
      have hb : b.map f = b.map fun _ => start :=
        map_inj_left.mpr fun c hc => hall 0 b rfl c hc
      have hrest := (ih (start + 1)).mpr fun i b' hb' c hc => by
        rw [hall (i + 1) b' hb' c hc]
        omega
      rw [hb, hrest]

theorem setsOf_flatMap {κ : Type} [DecidableEq κ] (key : IndexEntry → κ) (k : κ)
    (part : NewIndex → List IndexEntry) (files : List NewIndex) :
    setsOf key k (files.flatMap part) = (files.map fun f => setsOf key k (part f)).flatten := by
  induction files with
  | nil => rfl
  | cons f files ih =>
    rw [flatMap_cons, map_cons, flatten_cons, ← ih, setsOf, filter_append, flatMap_append]
    rfl

/-! ## The result -/

section

variable {κ : Type} [DecidableEq κ] {key : IndexEntry → κ}

variable {part : NewIndex → List IndexEntry} {es : List IndexEntry}

theorem collected_of_collect (hkey : ∀ old item, key (appendEntry old item) = key old)
    {files : List NewIndex} (hes : es = collect key appendEntry (files.flatMap part)) (hnumbered : ∀
      (i : Nat) (f : NewIndex), files[i]? = some f → ∀ e ∈ part f, ∀ c ∈ e.characteristics,
      c.fileIndex.toNat = i) (hcount : ∀ k, (setsOf key k (files.flatMap part)).length < 2147483648)
    :
    Collected key part files es := by
  have hsets : ∀ e ∈ es, e.characteristics = setsOf key (key e) (files.flatMap part) :=
    fun e he => contents_collect (fun _ _ => rfl) hkey (hes ▸ he)
  refine ⟨fun v hv => ?_, ?_, hsets, fun e he => ?_, fun e he => ?_⟩
  · rw [hes, mem_map_key_collect hkey]
    exact mem_map_of_mem hv
  · rw [hes]
    exact nodup_collect hkey _
  · rw [hsets e he, setsOf_flatMap, map_flatten_eq_numbers_iff]
    intro i b hb c hc
    rw [getElem?_map, Option.map_eq_some_iff] at hb
    obtain ⟨f, hf, rfl⟩ := hb
    obtain ⟨e', he', hc⟩ := mem_flatMap.mp hc
    exact hnumbered i f hf e' (mem_filter.mp he').1 c hc
  · rw [hsets e he]
    exact hcount (key e)

theorem Collected.numbered_files {files : List NewIndex} (h : Collected key part files es) {i : Nat}
    {f : NewIndex} (hf : files[i]? = some f) {v : IndexEntry} (hv : v ∈ part f)
    {c : IndexCharacteristic} (hc : c ∈ v.characteristics) :
    c.fileIndex.toNat = i := by
  have hmem : v ∈ files.flatMap part :=
    mem_flatMap.mpr ⟨f, mem_of_getElem? hf, hv⟩
  obtain ⟨e, he, hkey⟩ := mem_map.mp (h.keys v hmem)
  have hnumbered := h.numbered e he
  rw [h.sets e he, setsOf_flatMap, map_flatten_eq_numbers_iff] at hnumbered
  refine hnumbered i (setsOf key (key e) (part f)) ?_ c ?_
  · rw [getElem?_map, hf]
    rfl
  · refine mem_flatMap.mpr ⟨v, mem_filter.mpr ⟨hv, ?_⟩, hc⟩
    rw [hkey]
    exact decide_eq_true rfl

theorem Collected.setsOf_eq {files : List NewIndex} (h : Collected key part files es) (k : κ) :
    setsOf key k (files.flatMap part) = [] ∨
      ∃ e ∈ es, e.characteristics = setsOf key k (files.flatMap part) := by
  by_cases hk : ∃ v ∈ files.flatMap part, key v = k
  · obtain ⟨v, hv, rfl⟩ := hk
    obtain ⟨e, he, hkey⟩ := mem_map.mp (h.keys v hv)
    right
    refine ⟨e, he, ?_⟩
    rw [h.sets e he, hkey]
  · left
    rw [setsOf, filter_eq_nil_iff.mpr fun v hv => by simpa using fun heq => hk ⟨v, hv, heq⟩]
    rfl

end

/-- **The rebuilt metadata is complete** exactly when the threads divide the subfiles evenly and the
subfiles are in order. -/
theorem complete_iff (job : Job) :
    Complete job ↔ job.threads ∣ job.files.length ∧ Orderly job.files := by
  constructor
  · intro h
    obtain ⟨st, ix, hst, hix⟩ := h.rebuilt
    have hdvd := (partitioned_iff job.threads_pos).mp h.partitioned
    have hwhole := h.whole st ix hst hix
    refine ⟨hdvd, ?_, ?_, ?_, ?_⟩
    · intro v hv w hw hkey
      obtain ⟨e, he, hev, hgroup⟩ := hwhole.groups v hv
      obtain ⟨e', he', hew, hgroup'⟩ := hwhole.groups w hw
      -- there is one entry of the path and name only
      have heq : e = e' := inj_on_of_nodup_map hwhole.vars.once he he' (by rw [hev, hew, hkey])
      rw [← hgroup, ← hgroup', heq]
    · intro i f hf e he c hc
      rcases mem_append.mp he with he | he
      · exact hwhole.vars.numbered_files hf he hc
      · exact hwhole.attrs.numbered_files hf he hc
    · intro k
      rcases hwhole.vars.setsOf_eq k with hnil | ⟨e, he, hsets⟩
      · show ((setsOf varKey k (job.files.flatMap varEntries)).map _).Pairwise _
        rw [hnil]
        exact List.Pairwise.nil
      · show ((setsOf varKey k (job.files.flatMap varEntries)).map _).Pairwise _
        rw [← hsets]
        exact hwhole.ascending e he
    · constructor
      · intro k
        show (setsOf varKey k (job.files.flatMap varEntries)).length < _
        rcases hwhole.vars.setsOf_eq k with hnil | ⟨e, he, hsets⟩
        · rw [hnil]
          decide
        · rw [← hsets]
          exact hwhole.vars.writable e he
      · intro k
        show (setsOf attrKey k (job.files.flatMap attrEntries)).length < _
        rcases hwhole.attrs.setsOf_eq k with hnil | ⟨e, he, hsets⟩
        · rw [hnil]
          decide
        · rw [← hsets]
          exact hwhole.attrs.writable e he
  · rintro ⟨hdvd, hfiles⟩
    refine ⟨(partitioned_iff job.threads_pos).mpr hdvd, exists_rebuilt hdvd hfiles, ?_, ?_⟩
    · intro st ix hst hix
      obtain ⟨hpgs, hvarEntries, hattrEntries⟩ := rebuilt_merged hdvd hfiles hst hix
      have hcollected : Collected varKey varEntries job.files (varEntries ix) :=
        collected_of_collect varKey_appendEntry hvarEntries
          (fun i f hf e he c hc =>
            hfiles.numbered i f hf e (mem_append_left _ he) c hc) hfiles.countable.vars
      refine ⟨by rw [hpgs], hcollected, ?_, ?_, ?_⟩
      · intro v hv
        obtain ⟨e, he, hkey⟩ := mem_map.mp (hcollected.keys v hv)
        refine ⟨e, he, hkey, ?_⟩
        rw [hvarEntries] at he
        obtain ⟨w, hw, hwkey, hgroup⟩ := exists_of_mem_collect he
        rw [← hgroup]
        exact hfiles.groups w hw v hv (by rw [hwkey, hkey])
      · exact collected_of_collect attrKey_appendEntry hattrEntries
          (fun i f hf e he c hc =>
            hfiles.numbered i f hf e (mem_append_right _ he) c hc) hfiles.countable.attrs
      · intro e he
        rw [hcollected.sets e he]
        exact hfiles.ascending (varKey e)
    · intro st st' ix ix' hst hix hst' hix'
      obtain ⟨hpgs, hvarEntries, hattrEntries⟩ := rebuilt_merged hdvd hfiles hst hix
      obtain ⟨hpgs', hvarEntries', hattrEntries'⟩ :=
        @rebuilt_merged job.sequential (Nat.one_dvd _) hfiles st' ix' hst' hix'
      exact ⟨hpgs.trans hpgs'.symm, hvarEntries.trans hvarEntries'.symm,
        hattrEntries.trans hattrEntries'.symm⟩

def threeFiles : Job where
  files := [⟨[], [], []⟩, ⟨[], [], []⟩, ⟨[], [], []⟩]
  threads := 2
  threads_pos := by decide
  threads_le := by decide
  fits :=
    { small := fun ix hix => by
        have hempty : ix = ⟨[], [], []⟩ := by simpa using hix
        subst hempty
        exact ⟨fun _ h => absurd h not_mem_nil, fun _ h => absurd h not_mem_nil⟩
      vars := by decide
      attrs := by decide }

/-- The second subfile is left out. -/
theorem not_complete_threeFiles : ¬Complete threeFiles := fun h => by
  have hlen := h.partitioned.length_eq
  revert hlen
  decide

end Adios.Bpmeta
