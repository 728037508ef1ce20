import Adios.Index.Exchange
import Adios.Utils.BpmetaComplete

/-!
# Adios — what a merged index keeps

The entries of some indexes in the one that merging makes of them, by their places. Nothing gets
lost if no path and name is used by variables of two groups.
-/

namespace Adios

open List Lists
open Bpmeta (OneGroup setsOf)

/-- Each entry of some indexes is in an index, with its places; what is there for a path and name
are the sets of all of them. -/
structure Keeps (parts : List Index) (ix : Index) : Prop where
  pgs : ix.pgRoot.map IndexProcessGroup.bare =
    (parts.flatMap Index.pgRoot).map IndexProcessGroup.bare
  vars (v : IndexEntry) (h : v ∈ parts.flatMap Index.varsRoot) :
    ∃ e ∈ ix.varsRoot, varKey e = varKey v ∧ e.groupName = v.groupName
  varSets (e : IndexEntry) (h : e ∈ ix.varsRoot) :
    e.characteristics.map IndexCharacteristic.bare =
      (setsOf varKey (varKey e) (parts.flatMap Index.varsRoot)).map IndexCharacteristic.bare
  attrs (a : IndexEntry) (h : a ∈ parts.flatMap Index.attrsRoot) :
    ∃ e ∈ ix.attrsRoot, attrKey e = attrKey a
  attrSets (e : IndexEntry) (h : e ∈ ix.attrsRoot) :
    e.characteristics.map IndexCharacteristic.bare =
      (setsOf attrKey (attrKey e) (parts.flatMap Index.attrsRoot)).map IndexCharacteristic.bare
  once : ix.Once

theorem varKey_bare (e : IndexEntry) : varKey e.bare = varKey e := rfl

theorem attrKey_bare (e : IndexEntry) : attrKey e.bare = attrKey e := rfl

theorem exists_of_map_bare {es es' : List IndexEntry} (h : es'.map IndexEntry.bare =
    es.map IndexEntry.bare) {e : IndexEntry} (he : e ∈ es) : ∃ e' ∈ es', e'.bare = e.bare := by
  have hmem := @mem_map_of_mem _ _ _ _ IndexEntry.bare he
  rw [← h] at hmem
  exact mem_map.mp hmem

theorem sets_of_collect {κ : Type} [DecidableEq κ] {key : IndexEntry → κ}
    (hkey : ∀ old item, key (appendEntry old item) = key old)
    (hbare : ∀ e : IndexEntry, key e.bare = key e) {es es' : List IndexEntry}
    (h : es'.map IndexEntry.bare = (collect key appendEntry es).map IndexEntry.bare)
    {e : IndexEntry} (he : e ∈ es') : e.characteristics.map IndexCharacteristic.bare =
      (setsOf key (key e) es).map IndexCharacteristic.bare := by
  obtain ⟨v, hv, hve⟩ := exists_of_map_bare h.symm he
  have hsets : v.characteristics.map IndexCharacteristic.bare =
      e.characteristics.map IndexCharacteristic.bare :=
    congrArg IndexEntry.characteristics hve
  have hkeys : key v = key e := by rw [← hbare v, hve, hbare]
  rw [← hsets, setsOf, ← hkeys, ← contents_collect (fun _ _ => rfl) hkey hv]

variable {ix : Index} {parts : List Index}

theorem once_of_bare (h : ix.bare = (mergeIndexes parts).bare) :
    ix.Once := by
  have hvars : ix.varsRoot.map IndexEntry.bare =
      (mergeIndexes parts).varsRoot.map IndexEntry.bare := congrArg Index.varsRoot h
  have hattrs : ix.attrsRoot.map IndexEntry.bare =
      (mergeIndexes parts).attrsRoot.map IndexEntry.bare := congrArg Index.attrsRoot h
  have hv : ix.varsRoot.map varKey = (mergeIndexes parts).varsRoot.map varKey := by
    have hkeys := congrArg (List.map varKey) hvars
    rw [map_map, map_map] at hkeys
    exact hkeys
  have ha : ix.attrsRoot.map attrKey = (mergeIndexes parts).attrsRoot.map attrKey := by
    have hkeys := congrArg (List.map attrKey) hattrs
    rw [map_map, map_map] at hkeys
    exact hkeys
  refine ⟨?_, ?_⟩
  · rw [hv]
    exact nodup_collect varKey_combineVar _
  · rw [ha]
    exact nodup_collect attrKey_appendEntry _

theorem keeps_of_bare (hgroups : OneGroup (parts.flatMap Index.varsRoot))
    (h : ix.bare = (mergeIndexes parts).bare) : Keeps parts ix := by
  have hvars : ix.varsRoot.map IndexEntry.bare =
      (collect varKey appendEntry (parts.flatMap Index.varsRoot)).map IndexEntry.bare := by
    rw [← hgroups.collect_eq]
    exact congrArg Index.varsRoot h
  have hattrs : ix.attrsRoot.map IndexEntry.bare =
      (collect attrKey appendEntry (parts.flatMap Index.attrsRoot)).map IndexEntry.bare :=
    congrArg Index.attrsRoot h
  refine ⟨congrArg Index.pgRoot h, fun v hv => ?_, fun e he => ?_, fun a ha => ?_, fun e he => ?_,
    once_of_bare h⟩
  · obtain ⟨e, he, hkey⟩ := mem_map.mp ((mem_map_key_collect Bpmeta.varKey_appendEntry _ _).mpr
      (mem_map_of_mem hv))
    obtain ⟨w, hw, hwkey, hwgroup⟩ := Bpmeta.exists_of_mem_collect he
    obtain ⟨e', he', hbare⟩ := exists_of_map_bare hvars he
    refine ⟨e', he', ?_, ?_⟩
    · rw [← varKey_bare e', hbare, varKey_bare, hkey]
    · have hgroup : e'.bare.groupName = e.bare.groupName := by rw [hbare]
      show e'.bare.groupName = v.groupName
      rw [hgroup]
      show e.groupName = v.groupName
      rw [← hwgroup]
      exact hgroups w hw v hv (hwkey.trans hkey)
  · exact sets_of_collect Bpmeta.varKey_appendEntry varKey_bare hvars he
  · obtain ⟨e, he, hkey⟩ := mem_map.mp ((mem_map_key_collect attrKey_appendEntry _ _).mpr
      (mem_map_of_mem ha))
    obtain ⟨e', he', hbare⟩ := exists_of_map_bare hattrs he
    refine ⟨e', he', ?_⟩
    rw [← attrKey_bare e', hbare, attrKey_bare, hkey]
  · exact sets_of_collect attrKey_appendEntry attrKey_bare hattrs he

theorem Keeps.oneGroup (h : Keeps parts ix) :
    OneGroup (parts.flatMap Index.varsRoot) := fun v hv w hw hkey => by
  obtain ⟨e, he, hekey, hegroup⟩ := h.vars v hv
  obtain ⟨e', he', hekey', hegroup'⟩ := h.vars w hw
  have heq : e = e' :=
    inj_on_of_nodup_map h.once.vars he he' (by rw [hekey, hekey', hkey])
  rw [← hegroup, ← hegroup', heq]

theorem mergeIndexes_cons (ixs jxs : List Index) :
    mergeIndexes (mergeIndexes ixs :: jxs) = mergeIndexes (ixs ++ jxs) := by
  unfold mergeIndexes
  rw [flatMap_cons, flatMap_cons, flatMap_cons, flatMap_append, flatMap_append, flatMap_append,
    collect_collect_append varKey_combineVar, collect_collect_append attrKey_appendEntry]

theorem mergeIndexes_map {parts : List (List Index)}
    (h : OneGroup (parts.flatten.flatMap Index.varsRoot)) :
    mergeIndexes (parts.map mergeIndexes) = mergeIndexes parts.flatten := by
  have hflat : ∀ {β : Type} (f : Index → List β),
      parts.flatten.flatMap f = (parts.map fun ixs => ixs.flatMap f).flatten := fun f => by
    rw [flatMap_def, map_flatten, flatten_flatten, map_map]
    rfl
  have hvars : (parts.map fun ixs => ixs.flatMap Index.varsRoot).flatMap
      (collect varKey combineVar) = (parts.map mergeIndexes).flatMap Index.varsRoot := by
    rw [flatMap_map, flatMap_map]
    rfl
  have hattrs : (parts.map fun ixs => ixs.flatMap Index.attrsRoot).flatMap
      (collect attrKey appendEntry) = (parts.map mergeIndexes).flatMap Index.attrsRoot := by
    rw [flatMap_map, flatMap_map]
    rfl
  have hpgs : (parts.map mergeIndexes).flatMap Index.pgRoot =
    parts.flatten.flatMap Index.pgRoot := by
    rw [hflat, flatMap_map, ← flatMap_def]
    rfl
  rw [hflat] at h
  unfold mergeIndexes at hvars hattrs hpgs ⊢
  rw [hpgs, ← hvars, ← hattrs, Bpmeta.collect_varKey_flatMap h, Bpmeta.collect_attrKey_flatMap,
    ← hflat, ← hflat, OneGroup.collect_eq (by rw [hflat]; exact h)]

end Adios
