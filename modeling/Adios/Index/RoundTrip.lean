import Adios.Index.ParseOutput
import Adios.Index.ParseSpec
import Adios.Index.WriteSpec
import Adios.Lists.Results

/-!
# Adios — the variables index survives writing and parsing

What `adios_write_index_v1` writes of a variable (`IndexEntry.serialised`) comes back from
`adios_parse_vars_index_v1`, except in the cases the decoder does not get right: a histogram,
whose minimum it reads into the maximum, a transform with more dimensions than three times a
`uint8_t` counter reaches, and counts that an `int` loop counter cannot hold.
-/

namespace Adios

open List Wire Wire.Parser

/-! ## What is written of a variable -/

/-- What the index has of a characteristics set of a variable; the rest is zero. A string always
has a value, and only an array has dimensions, statistics and a transform. -/
def IndexCharacteristic.serialised (type orig : Datatype) (c : IndexCharacteristic) :
    IndexCharacteristic :=
  let common : IndexCharacteristic :=
    { IndexCharacteristic.zero with
      offset := c.offset, payloadOffset := c.payloadOffset, fileIndex := c.fileIndex
      timeIndex := c.timeIndex
      value := if type = .string then some (c.value.getD []) else c.value }
  if type = .string ∨ c.dims.count = 0 then common
  else
    { common with
      dims := c.dims, bitmap := c.bitmap, stats := some ((c.statSets orig).map padStats)
      transform := if c.transform.transformType = .none then .zero else c.transform }

def IndexEntry.serialised (v : IndexEntry) : IndexEntry :=
  { v with
    characteristics := v.characteristics.map
      (IndexCharacteristic.serialised v.type v.originalType) }

theorem decodeSet_varItems (type orig : Datatype) (c : IndexCharacteristic) :
    decodeSet (varItems type orig c) = c.serialised type orig := by
  unfold decodeSet varItems varOwnItems IndexCharacteristic.serialised
  by_cases hs : type = .string
  · simp [hs, commonItems, Item.apply]
  · by_cases hd : c.dims.count = 0
    · cases hv : c.value <;> simp [hs, hd, commonItems, Item.apply, IndexCharacteristic.zero]
    · by_cases ht : c.transform.transformType = .none <;> cases hv : c.value <;>
        simp [hs, hd, ht, commonItems, arrayItems, Item.apply, IndexCharacteristic.zero]

theorem decode_varRecord (v : IndexEntry) : v.varRecord.decode = v.serialised := by
  simp only [Record.decode, IndexEntry.varRecord, IndexEntry.record, IndexEntry.serialised, map_map]
  congr 1
  exact map_congr_left fun c _ => decodeSet_varItems v.type v.originalType c

variable {type orig : Datatype} {c : IndexCharacteristic} {bits : List Nat}

theorem originalTypeIndex_serialised (hwf : c.Wf type orig) (orig' : Datatype) :
    originalTypeIndex type (c.serialised type orig') = originalTypeIndex type c := by
  unfold originalTypeIndex IndexCharacteristic.serialised
  by_cases ht : c.transform.transformType = .none
  · by_cases h : type = .string ∨ c.dims.count = 0
    · simp [h, ht, IndexCharacteristic.zero, Transform.zero]
    · simp [h, ht, Transform.zero]
  · obtain ⟨-, hd, hs⟩ := hwf.transform ht
    simp [hd, hs, ht]

/-! ## The records are well formed -/

theorem forall₂_reduceOption {slots : List (Option StatData)}
    (h : Forall₂ (fun j slot => ∃ s : StatData, slot = some s ∧ s.Fits orig j) bits slots) :
    Forall₂ (StatData.Fits orig) bits slots.reduceOption := by
  induction h with
  | nil => exact Forall₂.nil
  | cons hslot _ ih =>
    obtain ⟨s, rfl, hs⟩ := hslot
    rw [reduceOption_cons_of_some]
    exact Forall₂.cons hs ih

theorem length_statSets (n count : Nat) (sets : List (List (Option StatData))) :
    (statSets n count sets).length = count := by
  induction count generalizing sets with
  | zero => rfl
  | succ count ih => rw [statSets, length_cons, ih]

theorem StatsFit.forall₂ {count : Nat} {sets : List (List (Option StatData))}
    (h : StatsFit orig bits count sets) :
    ∀ stats ∈ statSets bits.length count sets,
      Forall₂ (StatData.Fits orig) bits stats := by
  induction count generalizing sets with
  | zero => simp [statSets]
  | succ count ih =>
    intro stats hstats
    rw [statSets, mem_cons] at hstats
    rcases hstats with rfl | hstats
    · exact forall₂_reduceOption h.1
    · exact ih h.2 stats hstats

theorem varItems_shape (type orig : Datatype) (c : IndexCharacteristic) :
    (varItems type orig c).length < 2 ^ 8 ∧ ((varItems type orig c).map Item.id).Nodup := by
  unfold varItems varOwnItems commonItems
  by_cases hs : type = .string
  · rw [if_pos hs]
    exact ⟨by simp, by simp [Item.id]⟩
  · rw [if_neg hs]
    by_cases hd : c.dims.count = 0
    · rw [if_pos hd]
      constructor <;> cases c.value <;> simp [Item.id]
    · rw [if_neg hd, arrayItems]
      constructor <;> by_cases ht : c.transform.transformType = .none <;> cases c.value <;>
        simp [ht, Item.id]

theorem itemsWf_arrayItems {c' : IndexCharacteristic} {first : Option IndexCharacteristic}
    (hwf : c.Wf type orig) (hs : type ≠ .string) (hd : c.dims.count ≠ 0)
    (hsmall : ∀ stats ∈ c.statSets orig, ∀ s ∈ stats, s.Writable) (hc' : c'.transform = .zero)
    (hfirst : originalTypeIndex type (first.getD (c.serialised type orig)) = orig) :
    ItemsWf type first c' (arrayItems orig c) := by
  have hstat : (Item.stat (c.statSets orig)).Wf type orig c.bitmap :=
    ⟨hwf.original, hwf.bitmap hd, length_statSets _ _ _,
      fun stats h => ⟨(hwf.stats hd hs).forall₂ stats h, hsmall stats h⟩⟩
  -- what the items before the statistics say of the transform
  have horig : ∀ c'' : IndexCharacteristic,
      c''.transform = (if c.transform.transformType = .none then .zero else c.transform) →
      originalTypeIndex type (first.getD c'') = orig := by
    intro c'' hc''
    rw [← hfirst]
    apply originalTypeIndex_congr
    cases first with
    | none => simp [hc'', IndexCharacteristic.serialised, hs, hd]
    | some f => rfl
  refine ⟨hwf.dims, ?_⟩
  by_cases ht : c.transform.transformType = .none
  · rw [if_pos ht]
    refine ⟨trivial, ?_, trivial⟩
    rw [horig _ (by simp [Item.apply, hc', ht])]
    exact hstat
  · rw [if_neg ht]
    refine ⟨(hwf.transform ht).1, trivial, ?_, trivial⟩
    rw [horig _ (by simp [Item.apply, ht])]
    exact hstat

theorem setWf_varItems {first : Option IndexCharacteristic} (hwf : c.Wf type orig) (hsmall : type ≠
      .string → c.dims.count ≠ 0 → ∀ stats ∈ c.statSets orig, ∀ s ∈ stats, s.Writable)
    (hlen : type = .string → ∀ v ∈ c.value, v.length < 2 ^ 16)
    (hfirst : originalTypeIndex type (first.getD (c.serialised type orig)) = orig) :
    SetWf type first (varItems type orig c) := by
  obtain ⟨hcount, hnodup⟩ := varItems_shape type orig c
  have hvalue : ∀ v ∈ c.value, ValueFits type v := fun v hv =>
    (hwf.value v hv).fits fun hs => hlen hs v hv
  refine ⟨hcount, hnodup, ?_⟩
  unfold varItems varOwnItems
  refine ItemsWf.append_iff.mpr ⟨⟨trivial, trivial, trivial, trivial, trivial⟩, ?_⟩
  by_cases hs : type = .string
  · rw [if_pos hs]
    refine ⟨?_, trivial⟩
    cases hv : c.value with
    | none => simp [Item.Wf, ValueFits, hs]
    | some v => exact hvalue v hv
  · rw [if_neg hs]
    refine ItemsWf.append_iff.mpr ⟨?_, ?_⟩
    · by_cases hd : c.dims.count = 0
      · rw [if_pos hd]
        trivial
      · rw [if_neg hd]
        exact itemsWf_arrayItems hwf hs hd (hsmall hs hd) rfl hfirst
    · cases hv : c.value with
      | none => trivial
      | some v => exact ⟨hvalue v hv, trivial⟩

theorem wf_varRecord {v : IndexEntry} (hwf : v.Wf) (hcount : v.characteristics.length < 2 ^ 31)
    (hsmall : ∀ c ∈ v.characteristics, v.type ≠ .string → c.dims.count ≠ 0 →
      ∀ stats ∈ c.statSets v.originalType, ∀ s ∈ stats, s.Writable)
    (hlen : v.type = .string → ∀ c ∈ v.characteristics, ∀ s ∈ c.value, s.length < 2 ^ 16) :
    v.varRecord.Wf where
  defined := hwf.defined
  groupName := hwf.groupName
  name := hwf.name
  path := hwf.path
  count := by
    rw [IndexEntry.varRecord, IndexEntry.record, length_map]
    omega
  sets := by
    intro pre items post hsets
    have hmap : v.characteristics.map (varItems v.type v.originalType) = pre ++ items :: post :=
      hsets
    obtain ⟨pre', rest', hcs, rfl, hrest⟩ := map_eq_append_iff.mp hmap
    obtain ⟨c, post', rfl, rfl, rfl⟩ := map_eq_cons_iff.mp hrest
    have hc : c ∈ v.characteristics := by simp [hcs]
    refine setWf_varItems (hwf.characteristics c hc) (hsmall c hc) (fun hs => hlen hs c hc) ?_
    -- the first set says what the original type is
    have horig : v.originalType = originalTypeIndex v.type (v.characteristics.headD .zero) := rfl
    rw [hcs] at horig
    cases pre' with
    | nil => exact (originalTypeIndex_serialised (hwf.characteristics c hc) _).trans horig.symm
    | cons c₀ pre' =>
      have hc₀ : c₀ ∈ v.characteristics := by simp [hcs]
      have h := originalTypeIndex_serialised (hwf.characteristics c₀ hc₀) v.originalType
      simp only [map_cons, List.head?_cons, Option.getD_some, decodeSet_varItems]
      exact h.trans horig.symm

/-! ## The round trip -/

/-- The decoder on the section the writer emits, from any buffer, whatever fresh memory holds
and whatever follows in the buffer: it returns the variables and reads no further. -/
def VarsIndexRoundTrip (host : Endian) (vars : List IndexEntry) : Prop :=
  ∀ (buf : Buffer) (junk : UInt64) (rest : List UInt8), ∃ out,
    writeVarsIndex host vars buf = .ok out ∧
      parseVarsIndexV1 ⟨host, false, junk⟩ (out.since buf.offset ++ rest) =
        .ok (vars.map IndexEntry.serialised, rest)

/-- An index that the decoder reads back: counts that an `int` loop counter holds, no histogram
and, for every transform, at most 85 dimensions and a type whose enum variable starts with the
byte of its value. -/
structure VarsIndexReadable (host : Endian) (vars : List IndexEntry) : Prop where
  count : vars.length < 2 ^ 31
  sets : ∀ v ∈ vars, v.characteristics.length < 2 ^ 31
  hist : ∀ v ∈ vars, ∀ c ∈ v.characteristics, v.type ≠ .string → c.dims.count ≠ 0 →
    c.bitmap.toNat.testBit Statistic.hist.bit = false
  dims : ∀ v ∈ vars, ∀ c ∈ v.characteristics, c.transform.transformType ≠ .none →
    c.transform.preTransformDimensions.count.toNat ≤ 85
  byte : ∀ v ∈ vars, ∀ c ∈ v.characteristics, c.transform.transformType ≠ .none →
    enumByte host c.transform.preTransformType = [c.transform.preTransformType.code]

theorem enumByte_little {t : Datatype} (h : t.IsDefined) : enumByte .little t = [t.code] := by
  cases t with
  | unknown | other c => exact absurd h id
  | _ => decide

theorem mem_statBits {bitmap : UInt32} {j : Nat} :
    j ∈ statBits bitmap ↔ j < 32 ∧ bitmap.toNat.testBit j = true := by
  simp [statBits]

theorem isRaw_of_fits {stats : List StatData} (h : Forall₂ (StatData.Fits orig) bits stats)
    (hbits : Statistic.hist.bit ∉ bits) :
    ∀ s ∈ stats, s.IsRaw := by
  induction h with
  | nil => simp
  | @cons j s bits stats hs _ ih =>
    simp only [mem_cons, not_or] at hbits
    intro s' hs'
    rcases mem_cons.mp hs' with rfl | hs'
    · cases s' with
      | raw bytes => trivial
      | hist h => exact absurd hs.1.symm hbits.1
    · exact ih hbits.2 s' hs'

theorem isRaw_statSets (hwf : c.Wf type orig) (hs : type ≠ .string) (hd : c.dims.count ≠ 0)
    (hhist : c.bitmap.toNat.testBit Statistic.hist.bit = false) :
    ∀ stats ∈ c.statSets orig, ∀ s ∈ stats, s.IsRaw := by
  intro stats hstats
  refine isRaw_of_fits ((hwf.stats hd hs).forall₂ stats hstats) ?_
  rw [mem_statBits, hhist]
  simp

theorem varItems_plain (hwf : c.Wf type orig)
    (hhist : type ≠ .string → c.dims.count ≠ 0 → c.bitmap.toNat.testBit Statistic.hist.bit = false)
      (htransform : c.transform.transformType ≠ .none →
      c.transform.preTransformDimensions.count.toNat ≤ 85) {env : ReadEnv}
    (henv : env.changeEndianness = false) :
    ∀ it ∈ varItems type orig c, it.id ≠ .varId ∧ it.Decodable ∧
      ∀ c', it.applyV1 env type c' = it.apply c' := by
  have hvalue : ∀ v, (Item.value v).id ≠ .varId ∧ (Item.value v).Decodable ∧
      ∀ c', (Item.value v).applyV1 env type c' = (Item.value v).apply c' := fun v =>
    ⟨by simp [Item.id], trivial, fun c' => by simp [Item.applyV1, Item.apply, henv]⟩
  intro it hit
  rcases mem_append.mp hit with hit | hit
  · simp only [commonItems, mem_cons, not_mem_nil, or_false] at hit
    rcases hit with rfl | rfl | rfl | rfl <;> exact ⟨by simp [Item.id], trivial, fun _ => rfl⟩
  · unfold varOwnItems at hit
    by_cases hs : type = .string
    · rw [if_pos hs, mem_singleton] at hit
      subst hit
      exact hvalue _
    · rw [if_neg hs] at hit
      rcases mem_append.mp hit with hit | hit
      · by_cases hd : c.dims.count = 0
        · rw [if_pos hd] at hit
          cases hit
        · rw [if_neg hd, arrayItems, mem_cons, mem_append] at hit
          rcases hit with rfl | hit | hit
          · exact ⟨by simp [Item.id], trivial, fun _ => rfl⟩
          · by_cases ht : c.transform.transformType = .none
            · rw [if_pos ht] at hit
              cases hit
            · rw [if_neg ht, mem_singleton] at hit
              subst hit
              exact ⟨by simp [Item.id], htransform ht, fun _ => rfl⟩
          · simp only [mem_cons, not_mem_nil, or_false] at hit
            rcases hit with rfl | rfl
            · exact ⟨by simp [Item.id], trivial, fun _ => rfl⟩
            · have hraw := isRaw_statSets hwf hs hd (hhist hs hd)
              refine ⟨by simp [Item.id], trivial, fun c' => ?_⟩
              simp only [Item.applyV1, Item.apply]
              congr 2
              apply map_congr_left
              intro stats hstats
              rw [map_congr_left fun s hmem => (hraw stats hstats s hmem).readBy env, map_id']
      · cases hv : c.value with
        | none => rw [hv] at hit; cases hit
        | some v =>
          rw [hv] at hit
          simp only [Option.map_some, Option.toList_some, mem_singleton] at hit
          subst hit
          exact hvalue v

section

def IndexCharacteristic.HistMin (orig : Datatype) (c : IndexCharacteristic) (m : UInt64) : Prop :=
  ∀ stats ∈ c.statSets orig, ∀ hist, StatData.hist hist ∈ stats → hist.min = m

theorem IndexCharacteristic.Wf.no_hist {type orig : Datatype} {c : IndexCharacteristic}
    (hcwf : c.Wf type orig) (hs : type ≠ .string) (hd : c.dims.count ≠ 0) {m m' : UInt64}
    (hne : m ≠ m') (hmin : c.HistMin orig m) (hmin' : c.HistMin orig m') :
    c.bitmap.toNat.testBit Statistic.hist.bit = false := by
  by_contra hbit
  have hbits : Statistic.hist.bit ∈ statBits c.bitmap :=
    mem_statBits.mpr ⟨by decide, by simpa using hbit⟩
  -- the first component has a histogram
  have hcount : ∃ n, (getStatSetCount orig).toNat = n + 1 := by
    unfold getStatSetCount
    split
    · exact ⟨2, rfl⟩
    · exact ⟨0, rfl⟩
  obtain ⟨n, hn⟩ := hcount
  obtain ⟨stats, hstats⟩ : ∃ stats, stats ∈ c.statSets orig := by
    unfold IndexCharacteristic.statSets
    rw [hn, Adios.statSets]
    exact ⟨_, mem_cons_self⟩
  obtain ⟨s, hmem, hs'⟩ := Lists.exists_of_forall₂_mem ((hcwf.stats hd hs).forall₂ stats hstats)
    hbits
  cases s with
  | raw bytes => exact absurd rfl hs'.1
  | hist hist => exact hne ((hmin stats hstats hist hmem).symm.trans (hmin' stats hstats hist hmem))

theorem exists_mem_of_statSets {n count : Nat} {sets : List (List (Option StatData))}
    {stats : List StatData} {s : StatData} (h : stats ∈ statSets n count sets) (hs : s ∈ stats) :
    ∃ slots ∈ sets, some s ∈ slots := by
  induction count generalizing sets with
  | zero => cases h
  | succ count ih =>
    rw [statSets, mem_cons] at h
    cases sets with
    | nil =>
      rcases h with rfl | h
      · simp at hs
      · obtain ⟨_, hmem, -⟩ := ih h
        cases hmem
    | cons slots sets =>
      rcases h with rfl | h
      · exact ⟨slots, mem_cons_self, mem_of_mem_take (reduceOption_mem_iff.mp hs)⟩
      · obtain ⟨slots', hmem, hs'⟩ := ih h
        exact ⟨slots', mem_cons_of_mem _ hmem, hs'⟩

theorem ReadBack.histMin {env : ReadEnv} {c : IndexCharacteristic} (h : ReadBack env c)
    (orig : Datatype) : c.HistMin orig env.histMin := fun _ hstats hist hmem => by
  obtain ⟨slots, hslots, hmem⟩ := exists_mem_of_statSets hstats hmem
  exact h.hist slots hslots hist hmem

variable {host : Endian} {vars : List IndexEntry} (hwf : ∀ v ∈ vars, v.Wf)
  (hlen : ∀ v ∈ vars, v.type = .string → ∀ c ∈ v.characteristics, ∀ s ∈ c.value,
    s.length < 2 ^ 16)

include hwf in
theorem VarsIndexReadable.writable (h : VarsIndexReadable host vars) : ∀ v ∈ vars,
    ∀ c ∈ v.characteristics, v.type ≠ .string → c.dims.count ≠ 0 →
      ∀ stats ∈ c.statSets v.originalType, ∀ s ∈ stats, s.Writable :=
  fun v hv c hc hs hd stats hstats s hmem => (isRaw_statSets ((hwf v hv).characteristics c hc)
    hs hd (h.hist v hv c hc hs hd) stats hstats s hmem).writable

include hwf in
theorem VarsIndexReadable.write_eq (h : VarsIndexReadable host vars) (buf : Buffer) :
    writeVarsIndex host vars buf =
      .ok (buf.write (render false (sectionFields host (vars.map IndexEntry.varRecord)))) :=
  writeVarsIndex_eq host hwf h.sets (h.writable hwf) h.byte buf

include hwf hlen in
theorem VarsIndexReadable.roundTrip (h : VarsIndexReadable host vars) :
    VarsIndexRoundTrip host vars := by
  intro buf junk rest
  have hitems : ∀ v ∈ vars, ∀ c ∈ v.characteristics, ∀ it ∈ varItems v.type v.originalType c,
      it.id ≠ .varId ∧ it.Decodable ∧
        ∀ c', it.applyV1 ⟨host, false, junk⟩ v.type c' = it.apply c' := fun v hv c hc =>
    varItems_plain ((hwf v hv).characteristics c hc) (h.hist v hv c hc) (h.dims v hv c hc) rfl
  refine ⟨_, h.write_eq hwf buf, ?_⟩
  rw [Buffer.since_write]
  have hread := parses_parseVarsIndexV1 ⟨host, false, junk⟩ (vars.map IndexEntry.varRecord)
    (by simpa using h.count)
    (by
      intro r hr
      obtain ⟨v, hv, rfl⟩ := mem_map.mp hr
      exact wf_varRecord (hwf v hv) (h.sets v hv) (h.writable hwf v hv) (hlen v hv))
    (by
      intro r hr items hitem it hit
      obtain ⟨v, hv, rfl⟩ := mem_map.mp hr
      obtain ⟨c, hc, rfl⟩ := mem_map.mp hitem
      exact (hitems v hv c hc it hit).1)
    (by
      intro r hr items hitem it hit
      obtain ⟨v, hv, rfl⟩ := mem_map.mp hr
      obtain ⟨c, hc, rfl⟩ := mem_map.mp hitem
      exact (hitems v hv c hc it hit).2.1)
  rw [hread rest, map_map]
  congr 2
  apply map_congr_left
  intro v hv
  rw [← decode_varRecord]
  simp only [Function.comp, Record.decodeV1, Record.decode, IndexEntry.varRecord,
    IndexEntry.record, map_map]
  congr 1
  exact map_congr_left fun c hc =>
    decodeSetV1_eq_decodeSet fun it hit => (hitems v hv c hc it hit).2.2

theorem VarsIndexRoundTrip.readBack (h : VarsIndexRoundTrip host vars) (junk : UInt64) :
    vars.length < 2 ^ 31 ∧ ∀ v ∈ vars, ∀ c ∈ v.characteristics,
      ReadBack ⟨host, false, junk⟩ (c.serialised v.type v.originalType) := by
  obtain ⟨out, -, hparse⟩ := h ⟨fun _ => 0, 0⟩ junk []
  obtain ⟨hcount, hread⟩ := readBack_parseEntries _
    (fun type first c id hc => readBack_parseVarItem _ type first hc id) _ _ _ hparse
  refine ⟨by simpa using hcount, fun v hv c hc => ?_⟩
  exact hread v.serialised (mem_map_of_mem hv) _ (mem_map_of_mem hc)

include hwf in
theorem VarsIndexRoundTrip.hist (h : VarsIndexRoundTrip host vars) {v : IndexEntry}
    (hv : v ∈ vars) {c : IndexCharacteristic} (hc : c ∈ v.characteristics)
    (hs : v.type ≠ .string) (hd : c.dims.count ≠ 0) :
    c.bitmap.toNat.testBit Statistic.hist.bit = false := by
  have hmin : ∀ junk, c.HistMin v.originalType junk := by
    intro junk stats hstats hist hmem
    refine ((h.readBack junk).2 v hv c hc).hist (padStats stats) ?_ hist
      (mem_append_left _ (mem_map_of_mem hmem))
    simpa [IndexCharacteristic.serialised, hs, hd] using mem_map_of_mem hstats
  exact ((hwf v hv).characteristics c hc).no_hist hs hd (by decide) (hmin 0) (hmin 1)

include hwf in
theorem VarsIndexRoundTrip.readable (h : VarsIndexRoundTrip host vars) (hhost : host = .little) :
    VarsIndexReadable host vars where
  count := (h.readBack 0).1
  sets := by
    obtain ⟨out, hwrite, -⟩ := h ⟨fun _ => 0, 0⟩ 0 []
    exact length_lt_of_writeEntries hwrite
  hist := fun v hv c hc hs hd => h.hist hwf hv hc hs hd
  dims := by
    intro v hv c hc ht
    obtain ⟨-, hd, hs⟩ := ((hwf v hv).characteristics c hc).transform ht
    have := ((h.readBack 0).2 v hv c hc).transform
    simp only [IndexCharacteristic.serialised, hs, hd, ht, or_self, if_false] at this
    omega
  byte := by
    intro v hv c hc ht
    rw [hhost]
    exact enumByte_little (((hwf v hv).characteristics c hc).transform ht).1.defined

end

/-- **The variables index round trip.** A readable index comes back as it was written; on a
little-endian machine no other does. -/
theorem varsIndex_roundTrip_iff (host : Endian) (vars : List IndexEntry) (hwf : ∀ v ∈ vars, v.Wf)
    (hlen : ∀ v ∈ vars, v.type = .string → ∀ c ∈ v.characteristics, ∀ s ∈ c.value,
      s.length < 2 ^ 16) :
    (VarsIndexReadable host vars → VarsIndexRoundTrip host vars) ∧
      (host = .little → VarsIndexRoundTrip host vars → VarsIndexReadable host vars) :=
  ⟨fun h => h.roundTrip hwf hlen, fun hhost h => h.readable hwf hhost⟩

def compressedVar : IndexEntry where
  id := 7
  groupName := CString.empty
  name := ⟨chars "t", by simp [chars]⟩
  path := ⟨chars "/", by simp [chars]⟩
  type := .unsignedByte
  characteristics :=
    [{ IndexCharacteristic.zero with
        offset := 64, payloadOffset := 200, timeIndex := 1
        dims := ⟨1, [9, 0, 0]⟩
        bitmap := 1
        stats := some [[some (.raw [0, 0, 0, 0, 0, 0, 240, 63])]]
        transform := ⟨.zlib, .double, ⟨1, [3, 3, 0]⟩, 0, []⟩ }]

theorem compressedVar_wf : compressedVar.Wf where
  defined := by decide
  groupName := by decide
  name := by decide
  path := by decide
  characteristics := by
    intro c hc
    obtain rfl := mem_singleton.mp hc
    exact
      { value := by simp [IndexCharacteristic.zero]
        dims := by decide
        metadata := rfl
        transform := fun _ => ⟨⟨by decide, by decide, by decide, rfl⟩, by decide, by decide⟩
        original := by decide
        bitmap := fun _ => by decide
        stats := fun _ _ => ⟨.cons ⟨_, rfl, by decide, 8, rfl, rfl⟩ .nil, trivial⟩ }

theorem varsIndex_roundTrip_compressedVar : VarsIndexRoundTrip .little [compressedVar] := by
  refine (varsIndex_roundTrip_iff .little [compressedVar] ?_ ?_).1 ?_
  · intro v hv
    obtain rfl := mem_singleton.mp hv
    exact compressedVar_wf
  · intro v hv hs
    obtain rfl := mem_singleton.mp hv
    exact absurd hs (by decide)
  · constructor <;> decide

def histVar : IndexEntry where
  id := 1
  groupName := CString.empty
  name := ⟨chars "h", by simp [chars]⟩
  path := CString.empty
  type := .double
  characteristics :=
    [{ IndexCharacteristic.zero with
        dims := ⟨1, [4, 4, 0]⟩
        bitmap := 32
        stats := some [[some (.hist ⟨0, 0, 0, [4], []⟩)]] }]

theorem histVar_wf : histVar.Wf where
  defined := by decide
  groupName := by decide
  name := by decide
  path := by decide
  characteristics := by
    intro c hc
    obtain rfl := mem_singleton.mp hc
    exact
      { value := by simp [IndexCharacteristic.zero]
        dims := by decide
        metadata := rfl
        transform := fun h => absurd rfl h
        original := by decide
        bitmap := fun _ => by decide
        stats := fun _ _ => ⟨.cons ⟨_, rfl, rfl, rfl, rfl⟩ .nil, trivial⟩ }

/-- The minimum of a histogram is not read back. -/
theorem not_varsIndex_roundTrip_histVar : ¬VarsIndexRoundTrip .little [histVar] := by
  intro h
  have hhist := h.hist (v := histVar)
    (by
      intro v hv
      obtain rfl := mem_singleton.mp hv
      exact histVar_wf)
    mem_cons_self mem_cons_self (by decide) (by decide)
  exact absurd hhist (by decide)

end Adios
