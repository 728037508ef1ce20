import Adios.Index.Footer
import Adios.Index.MergeRuns
import Adios.Index.RoundTrip

/-!
# Adios — indexes of other processes

A process that does not write the index sends its own: `adios_write_index_v1` into a buffer at its
one end, the three decoders and `adios_merge_index_v1` at the other. What matters of it is where the
entries say that their bytes are (`Index.bare`).
-/

namespace Adios

open List Wire Wire.Parser Heap Lists

/-! ## Where the bytes are -/

def IndexCharacteristic.bare (c : IndexCharacteristic) : IndexCharacteristic :=
  { IndexCharacteristic.zero with
    offset := c.offset, payloadOffset := c.payloadOffset, fileIndex := c.fileIndex
    timeIndex := c.timeIndex }

def IndexEntry.bare (e : IndexEntry) : IndexEntry :=
  { e with characteristics := e.characteristics.map IndexCharacteristic.bare }

def IndexProcessGroup.bare (pg : IndexProcessGroup) : IndexProcessGroup :=
  { pg with hostLanguageFortran := .no, timeIndexName := none }

def Index.bare (ix : Index) : Index where
  pgRoot := ix.pgRoot.map IndexProcessGroup.bare
  varsRoot := ix.varsRoot.map IndexEntry.bare
  attrsRoot := ix.attrsRoot.map IndexEntry.bare

/-! ## Merging -/

def mergeIndexes (ixs : List Index) : Index where
  pgRoot := ixs.flatMap Index.pgRoot
  varsRoot := collect varKey combineVar (ixs.flatMap Index.varsRoot)
  attrsRoot := collect attrKey appendEntry (ixs.flatMap Index.attrsRoot)

structure Index.Once (ix : Index) : Prop where
  vars : (ix.varsRoot.map varKey).Nodup
  attrs : (ix.attrsRoot.map attrKey).Nodup

def IndexEntry.stored (e : IndexEntry) : StoredEntry where
  entry := e
  characteristicsCount := UInt64.ofNat e.characteristics.length
  characteristicsAllocated := UInt64.ofNat e.characteristics.length
  room := e.characteristics.length

def Index.stored (ix : Index) : NewIndex where
  pgs := ix.pgRoot
  vars := ix.varsRoot.map IndexEntry.stored
  attrs := ix.attrsRoot.map IndexEntry.stored

variable (ixs : List Index)

theorem allPgs_stored :
    allPgs (ixs.map Index.stored) = ixs.flatMap Index.pgRoot := flatMap_map ..

theorem map_entry_stored (es : List IndexEntry) :
    (es.map IndexEntry.stored).map StoredEntry.entry = es := by
  rw [map_map]
  exact map_id es

theorem allVars_stored :
    allVars (ixs.map Index.stored) = ixs.flatMap Index.varsRoot := by
  rw [allVars, flatMap_map]
  exact flatMap_congr fun ix _ => map_entry_stored ix.varsRoot

theorem allAttrs_stored :
    allAttrs (ixs.map Index.stored) = ixs.flatMap Index.attrsRoot := by
  rw [allAttrs, flatMap_map]
  exact flatMap_congr fun ix _ => map_entry_stored ix.attrsRoot

theorem holds_mergeIndexes {canAlloc : UInt64 → Bool} (hmem : ∀ n, canAlloc n = true)
    {ixs : List Index} {st : IndexStore} (h : Reaches canAlloc (ixs.map Index.stored) st)
    (hfits : Fits (ixs.map Index.stored)) :
    ∃ gs vs as, st.pgs.Holds gs ∧ gs.map Prod.snd = (mergeIndexes ixs).pgRoot ∧
      st.vars.Holds vs ∧ entries vs = (mergeIndexes ixs).varsRoot ∧
      st.attrs.Holds as ∧ entries as = (mergeIndexes ixs).attrsRoot := by
  obtain ⟨gs, vs, as, hinv⟩ := h.inv hmem hfits
  have hpgs := hinv.pgs
  have hvars := hinv.vars
  have hattrs := hinv.attrs
  rw [allPgs_stored] at hpgs
  rw [allVars_stored] at hvars
  rw [allAttrs_stored] at hattrs
  exact ⟨gs, vs, as, hinv.pgList, hpgs, hinv.varsRep.list, hvars, hinv.attrList, hattrs⟩

theorem bare_combineVar (old item : IndexEntry) :
    (combineVar old item).bare = combineVar old.bare item.bare := by
  unfold combineVar
  show (if old.groupName = item.groupName then appendEntry old item else old).bare =
    if old.groupName = item.groupName then appendEntry old.bare item.bare else old.bare
  split_ifs
  · rw [IndexEntry.bare, appendEntry, map_append]
    rfl
  · rfl

theorem bare_appendEntry (old item : IndexEntry) :
    (appendEntry old item).bare = appendEntry old.bare item.bare := by
  rw [IndexEntry.bare, appendEntry, map_append]
  rfl

theorem bare_mergeIndexes :
    (mergeIndexes ixs).bare = mergeIndexes (ixs.map Index.bare) := by
  have hvars := @map_collect _ _ _ varKey _ IndexEntry.bare (fun _ => rfl) bare_combineVar
  have hattrs := @map_collect _ _ _ attrKey _ IndexEntry.bare (fun _ => rfl) bare_appendEntry
  have hflat : ∀ part : Index → List IndexEntry, (∀ ix, part ix.bare = (part ix).map .bare) →
      (ixs.flatMap part).map IndexEntry.bare = (ixs.map Index.bare).flatMap part :=
    fun part hpart => by
      rw [map_flatMap, flatMap_map]
      exact flatMap_congr fun ix _ => (hpart ix).symm
  unfold mergeIndexes
  rw [← hflat Index.varsRoot (fun _ => rfl), ← hflat Index.attrsRoot (fun _ => rfl), ← hvars,
    ← hattrs, flatMap_map]
  rw [Index.bare, map_flatMap]
  rfl

/-! ## Through a buffer -/

def parseIndexV1 (env : ReadEnv) : Parser Fault Index := do
  let pgRoot ← parseProcessGroupIndexV1 env
  let varsRoot ← parseVarsIndexV1 env
  let attrsRoot ← parseAttributesIndexV1 env
  return { pgRoot, varsRoot, attrsRoot }

/-- What `adios_write_index_v1` puts into a buffer of its own. -/
def Index.image (host : Endian) (version : Version) (ix : Index) : Except Fault (List UInt8) := do
  let written ← writeIndexV1 host version 0 ix ⟨fun _ => 0, 0⟩
  return written.buf.since 0

def ReadsBack (env : ReadEnv) (buf : List UInt8) (ix : Index) : Prop :=
  ∃ ix' rest, parseIndexV1 env buf = .ok (ix', rest) ∧ ix'.bare = ix.bare

/-- An index that comes back from its bytes: its strings and its counts fit their fields, and it
has no histograms. -/
structure Index.Readable (host : Endian) (ix : Index) : Prop where
  groups : ∀ pg ∈ ix.pgRoot, pg.Wf
  count : ix.pgRoot.length < 2 ^ 64
  wf : ∀ v ∈ ix.varsRoot, v.Wf
  varStrings : ∀ v ∈ ix.varsRoot, v.type = .string → ∀ c ∈ v.characteristics, ∀ s ∈ c.value,
    s.length < 2 ^ 16
  vars : VarsIndexReadable host ix.varsRoot
  attrWf : ∀ a ∈ ix.attrsRoot, a.AttrWf
  attrSets : ∀ a ∈ ix.attrsRoot, a.characteristics.length < 2 ^ 31
  attrs : FooterReadable ix

theorem bare_serialised (v : IndexEntry) : v.serialised.bare = v.bare := by
  have hset : ∀ c : IndexCharacteristic, (c.serialised v.type v.originalType).bare = c.bare :=
    fun c => by
      unfold IndexCharacteristic.serialised
      dsimp only
      split_ifs <;> rfl
  rw [IndexEntry.bare, IndexEntry.serialised, map_map]
  congr 1
  exact map_congr_left fun c _ => hset c

theorem bare_attrSerialised (a : IndexEntry) : a.attrSerialised.bare = a.bare := by
  rw [IndexEntry.bare, IndexEntry.attrSerialised, map_map]
  rfl

def Index.serialised (ix : Index) : Index where
  pgRoot := ix.pgRoot.map IndexProcessGroup.serialised
  varsRoot := ix.varsRoot.map IndexEntry.serialised
  attrsRoot := ix.attrsRoot.map IndexEntry.attrSerialised

theorem Index.bare_serialised (ix : Index) : ix.serialised.bare = ix.bare := by
  rw [Index.bare, Index.bare, Index.serialised, map_map, map_map, map_map]
  congr 1
  · exact map_congr_left fun v _ => Adios.bare_serialised v
  · exact map_congr_left fun a _ => bare_attrSerialised a

theorem Index.Readable.parseIndexV1_image {host : Endian} {ix : Index} (h : ix.Readable host)
    (version : Version) (junk : UInt64) : ∃ bytes, ix.image host version = .ok bytes ∧
      ∀ rest, ∃ rest', parseIndexV1 ⟨host, false, junk⟩ (bytes ++ rest) =
        .ok (ix.serialised, rest') := by
  have hgroups := writeGroups_eq host h.groups ⟨fun _ => 0, 0⟩
  have hvars := h.vars.roundTrip h.wf h.varStrings
    (Buffer.write ⟨fun _ => 0, 0⟩ (render false (groupsFields host ix.pgRoot))) junk
  have hattrs := parses_parseAttributesIndexV1 ⟨host, false, junk⟩ rfl h.attrs.count h.attrSets
    h.attrWf h.attrs.strings
  have hpgs := parses_parseProcessGroupIndexV1 ⟨host, false, junk⟩ h.groups h.count
  simp only at hattrs hpgs
  obtain ⟨out, hout, -⟩ := hvars []
  have hparse : ∀ rest, parseVarsIndexV1 ⟨host, false, junk⟩ (out.since
      (Buffer.write ⟨fun _ => 0, 0⟩ (render false (groupsFields host ix.pgRoot))).offset ++ rest) =
      .ok (ix.varsRoot.map IndexEntry.serialised, rest) := fun rest => by
    obtain ⟨out', hout', hback⟩ := hvars rest
    rw [hout] at hout'
    injection hout' with hout'
    rw [hout']
    exact hback
  have hwrite := (extends_writeVarsIndex host hout).1.eq_write
  generalize out.since (Buffer.write ⟨fun _ => 0, 0⟩
    (render false (groupsFields host ix.pgRoot))).offset = vars at hparse hwrite
  have hattrsWritten := writeAttrsIndex_eq host h.attrWf h.attrSets out
  obtain ⟨info, hinfo, -⟩ := writeVersionInfo_eq version
    (out.write (render false (sectionFields host (ix.attrsRoot.map IndexEntry.attrRecord))))
  -- the version information and the offsets of the sections are behind what is parsed
  obtain ⟨tail, himage⟩ : ∃ tail, ix.image host version =
      .ok (render false (groupsFields host ix.pgRoot) ++ (vars ++
        (render false (sectionFields host (ix.attrsRoot.map IndexEntry.attrRecord)) ++ tail))) := by
    rw [Index.image, writeIndexV1, hgroups]
    dsimp only
    rw [hout, ok_bind, hattrsWritten, ok_bind, hinfo, hwrite]
    simp only [Buffer.write_write, append_assoc]
    exact ⟨_, congrArg Except.ok (Buffer.since_write ⟨fun _ => 0, 0⟩ _)⟩
  refine ⟨_, himage, fun rest => ⟨tail ++ rest, ?_⟩⟩
  have hsections : Parses (parseIndexV1 ⟨host, false, junk⟩) _ ix.serialised :=
    Parses.bind hpgs (Parses.bind hparse (Parses.bind_pure hattrs rfl))
  have hread := hsections (tail ++ rest)
  simp only [append_assoc] at hread ⊢
  exact hread

theorem Index.Readable.readsBack {host : Endian} {ix : Index} (h : ix.Readable host)
    (version : Version) (junk : UInt64) : ∃ bytes, ix.image host version = .ok bytes ∧
      ∀ rest, ReadsBack ⟨host, false, junk⟩ (bytes ++ rest) ix := by
  obtain ⟨bytes, himage, hparse⟩ := h.parseIndexV1_image version junk
  refine ⟨bytes, himage, fun rest => ?_⟩
  obtain ⟨rest', hread⟩ := hparse rest
  exact ⟨ix.serialised, rest', hread, ix.bare_serialised⟩

/-! ## From all processes -/

theorem small_stored_iff {e : IndexEntry} :
    e.stored.Small ↔ e.characteristics.length < 2 ^ 31 := by
  refine ⟨StoredEntry.Small.small, fun hlen => ?_⟩
  have hcount : (UInt64.ofNat e.characteristics.length).toNat = e.characteristics.length :=
    UInt64.toNat_ofNat_of_lt' (show _ < 2 ^ 64 by omega)
  exact ⟨⟨hcount, UInt64.le_refl _, Nat.le_of_eq hcount⟩, hlen⟩

theorem small_map_stored {f : IndexEntry → IndexEntry}
    (hf : ∀ e, (f e).characteristics.length = e.characteristics.length) {es : List IndexEntry}
    (h : ∀ e ∈ es.map IndexEntry.stored, e.Small) :
    ∀ e ∈ (es.map f).map IndexEntry.stored, e.Small := by
  intro e' he'
  rw [map_map] at he'
  obtain ⟨e, he, rfl⟩ := mem_map.mp he'
  have hlen := small_stored_iff.mp (h _ (mem_map_of_mem he))
  exact small_stored_iff.mpr ((hf e).trans_lt hlen)

theorem setCount_map {f : IndexEntry → IndexEntry}
    (hf : ∀ e, (f e).characteristics.length = e.characteristics.length) (es : List IndexEntry) :
    setCount (es.map f) = setCount es := by
  rw [setCount, map_map]
  exact congrArg sum (map_congr_left fun e _ => hf e)

theorem fits_serialised {ixs : List Index} (h : Fits (ixs.map Index.stored)) :
    Fits ((ixs.map Index.serialised).map Index.stored) := by
  have hvar : ∀ v : IndexEntry, v.serialised.characteristics.length = v.characteristics.length :=
    fun v => length_map _
  have hattr : ∀ a : IndexEntry,
      a.attrSerialised.characteristics.length = a.characteristics.length := fun a => length_map _
  refine ⟨fun ix' hix' => ?_, ?_, ?_⟩
  · rw [map_map] at hix'
    obtain ⟨ix, hix, rfl⟩ := mem_map.mp hix'
    have hsmall := h.small _ (mem_map_of_mem hix)
    exact ⟨small_map_stored hvar hsmall.vars, small_map_stored hattr hsmall.attrs⟩
  · have hvars := h.vars
    rw [allVars_stored] at hvars ⊢
    rw [flatMap_map]
    show setCount (ixs.flatMap fun ix => ix.varsRoot.map IndexEntry.serialised) < _
    rw [← map_flatMap, setCount_map hvar]
    exact hvars
  · have hattrs := h.attrs
    rw [allAttrs_stored] at hattrs ⊢
    rw [flatMap_map]
    show setCount (ixs.flatMap fun ix => ix.attrsRoot.map IndexEntry.attrSerialised) < _
    rw [← map_flatMap, setCount_map hattr]
    exact hattrs

def compressedIndex : Index where
  pgRoot := [⟨CString.empty, .yes, 4, none, 1, 0⟩]
  varsRoot := [compressedVar]
  attrsRoot := []

theorem readable_compressedIndex : compressedIndex.Readable .little where
  groups := by
    intro pg hpg
    obtain rfl := mem_singleton.mp hpg
    exact ⟨by decide, by decide⟩
  count := by decide
  wf := by
    intro v hv
    obtain rfl := mem_singleton.mp hv
    exact compressedVar_wf
  varStrings := by
    intro v hv hs
    obtain rfl := mem_singleton.mp hv
    exact absurd hs (by decide)
  vars := by constructor <;> decide
  attrWf := by simp [compressedIndex]
  attrSets := by simp [compressedIndex]
  attrs := ⟨by decide, by simp [compressedIndex]⟩

end Adios
