import Adios.Index.Groups
import Adios.Index.ParseOutput
import Adios.Index.WriteGrows
import Adios.Index.WriteSpec

/-!
# Adios — finding and reading the footer of a file

A file ends with the three sections of the index, the version information, the offsets of the
sections and the version word. A reader starts from the last 28 bytes (`FooterRoundTrip`): the
word tells the byte order, the offsets and the size of the file delimit the sections. The
section of the attributes ends with the 28 bytes of the version information, which its parser
does not come to.
-/

namespace Adios

open List Wire Wire.Parser UInt64

/-! ## The attributes index -/

def IndexCharacteristic.attrSerialised (c : IndexCharacteristic) : IndexCharacteristic :=
  { IndexCharacteristic.zero with
    offset := c.offset, payloadOffset := c.payloadOffset, fileIndex := c.fileIndex
    timeIndex := c.timeIndex, value := c.value, varId := c.varId }

def IndexEntry.attrSerialised (a : IndexEntry) : IndexEntry :=
  { a with characteristics := a.characteristics.map IndexCharacteristic.attrSerialised }

theorem decodeSet_attrItems (c : IndexCharacteristic) :
    decodeSet (attrItems c) = c.attrSerialised := by
  unfold decodeSet attrItems IndexCharacteristic.attrSerialised
  by_cases hid : c.varId = 0 <;> cases hv : c.value <;>
    simp [hid, commonItems, Item.apply, IndexCharacteristic.zero]

variable {c : IndexCharacteristic} {host : Endian} {index : Index}

theorem mem_attrItems {it : Item} (h : it ∈ attrItems c) :
    it ∈ commonItems c ∨ (∃ v ∈ c.value, it = .value v) ∨ it = .varId c.varId := by
  rcases mem_append.mp h with h | h
  · exact Or.inl h
  · rcases mem_append.mp h with h | h
    · obtain ⟨v, hv, hit⟩ : ∃ v, c.value = some v ∧ Item.value v = it := by simpa using h
      exact Or.inr (Or.inl ⟨v, hv, hit.symm⟩)
    · split_ifs at h
      · cases h
      · exact Or.inr (Or.inr (mem_singleton.mp h))

theorem setWf_attrItems {type : Datatype} (first : Option IndexCharacteristic)
    (hvalue : ∀ v ∈ c.value, ValueFits type v) :
    SetWf type first (attrItems c) where
  count := by
    unfold attrItems commonItems
    cases c.value <;> split_ifs <;> simp
  nodup := by
    unfold attrItems commonItems
    cases c.value <;> split_ifs <;> simp [Item.id]
  items := by
    refine ItemsWf.append_iff.mpr ⟨⟨trivial, trivial, trivial, trivial, trivial⟩,
      ItemsWf.append_iff.mpr ⟨?_, ?_⟩⟩
    · cases hv : c.value with
      | none => trivial
      | some v => exact ⟨hvalue v hv, trivial⟩
    · split_ifs
      · trivial
      · exact ⟨trivial, trivial⟩

theorem parses_parseAttrItem {env : ReadEnv} {type : Datatype} {c' : IndexCharacteristic}
    {it : Item} (henv : env.changeEndianness = false) (ht : type.IsDefined) (hit : it ∈ attrItems c)
    (hvalue : ∀ v ∈ c.value, ValueFits type v) :
    Parses (parseAttrItem env type c' (some it.id))
      (render env.changeEndianness (it.dataFields env.host type)) (it.apply c') := by
  rcases mem_attrItems hit with hit | ⟨v, hv, rfl⟩ | rfl
  · simp only [commonItems, mem_cons, not_mem_nil, or_false] at hit
    rcases hit with rfl | rfl | rfl | rfl
    · exact Parses.bind_pure ((parses_readU64 env _).congr (by simp [Item.dataFields]) rfl) rfl
    · exact Parses.bind_pure ((parses_readU64 env _).congr (by simp [Item.dataFields]) rfl) rfl
    · exact Parses.bind_pure ((parses_readU32 env _).congr (by simp [Item.dataFields]) rfl) rfl
    · exact Parses.bind_pure ((parses_readU32 env _).congr (by simp [Item.dataFields]) rfl) rfl
  · exact Parses.bind_pure (parses_parseValue env ht (hvalue v hv))
      (by rw [henv]; rfl)
  · exact Parses.bind_pure ((parses_readU32 env _).congr (by simp [Item.dataFields]) rfl) rfl

theorem parses_parseAttributesIndexV1 (env : ReadEnv) {attrs : List IndexEntry}
    (henv : env.changeEndianness = false) (hcount : attrs.length < 2 ^ 31)
    (hsets : ∀ a ∈ attrs, a.characteristics.length < 2 ^ 31) (hwf : ∀ a ∈ attrs, a.AttrWf)
    (hlen : ∀ a ∈ attrs, a.type = .string → ∀ c ∈ a.characteristics, ∀ s ∈ c.value,
      s.length < 2 ^ 16) :
    Parses (parseAttributesIndexV1 env)
      (render env.changeEndianness (sectionFields env.host (attrs.map IndexEntry.attrRecord)))
      (attrs.map IndexEntry.attrSerialised) := by
  have hfits : ∀ a ∈ attrs, ∀ c ∈ a.characteristics, ∀ v ∈ c.value, ValueFits a.type v :=
    fun a ha c hc v hv => ((hwf a ha).value c hc v hv).fits fun hs => hlen a ha hs c hc v hv
  have hplain : ∀ a ∈ attrs, ∀ c ∈ a.characteristics, ∀ it ∈ attrItems c, ∀ c',
      it.applyV1 env a.type c' = it.apply c' := by
    intro a ha c hc it hit c'
    rcases mem_attrItems hit with hit | ⟨v, hv, rfl⟩ | rfl
    · simp only [commonItems, mem_cons, not_mem_nil, or_false] at hit
      rcases hit with rfl | rfl | rfl | rfl <;> rfl
    · simp [Item.applyV1, Item.apply, henv]
    · rfl
  have hrecord : ∀ a ∈ attrs, a.attrRecord.Wf := fun a ha =>
    { defined := (hwf a ha).defined
      groupName := (hwf a ha).groupName
      name := (hwf a ha).name
      path := (hwf a ha).path
      count := by
        have := hsets a ha
        rw [IndexEntry.attrRecord, IndexEntry.record, length_map]
        omega
      sets := by
        intro pre items post hitems
        obtain ⟨c, hc, rfl⟩ := mem_map.mp (show items ∈ a.characteristics.map attrItems by
          rw [show a.characteristics.map attrItems = _ from hitems]; simp)
        exact setWf_attrItems _ (hfits a ha c hc) }
  have hentry : ∀ r ∈ attrs.map IndexEntry.attrRecord,
      Parses (parseEntry env fun type _ => parseAttrItem env type)
        (render env.changeEndianness (r.fields env.host)) (r.decodeV1 env) := by
    intro r hr
    obtain ⟨a, ha, rfl⟩ := mem_map.mp hr
    refine parses_parseEntry env (hrecord a ha) fun pre items post hitems => ?_
    obtain ⟨c, hc, rfl⟩ := mem_map.mp (show items ∈ a.characteristics.map attrItems by
      rw [show a.characteristics.map attrItems = _ from hitems]; simp)
    refine parses_parseSet env (Item.applyV1 env a.type)
      (setWf_attrItems none (hfits a ha c hc)).count
      fun pre' it post' hits => ?_
    have hit : it ∈ attrItems c := by simp [hits]
    exact (parses_parseAttrItem henv (hwf a ha).defined hit (hfits a ha c hc)).congr rfl
      (hplain a ha c hc it hit _).symm
  refine (parses_parseEntries env (by simpa using hcount) hentry).congr rfl ?_
  rw [map_map]
  refine map_congr_left fun a ha => ?_
  simp only [Function.comp, Record.decodeV1, IndexEntry.attrRecord, IndexEntry.record,
    IndexEntry.attrSerialised, map_map]
  congr 1
  refine map_congr_left fun c hc => ?_
  rw [← decodeSet_attrItems]
  exact decodeSetV1_eq_decodeSet (hplain a ha c hc)

/-! ## The footer -/

/-- The `size` bytes at an offset of a file. -/
def readAt (file : List UInt8) (offset size : UInt64) : List UInt8 :=
  (file.drop offset.toNat).take size.toNat

def miniFooter (file : List UInt8) : List UInt8 := file.drop (file.length - 28)

/-- The sections follow one another from `start` on, and the last 28 bytes of the file come right
after them. -/
structure IndexOffsets.Tile (o : IndexOffsets) (start : Nat) (fileSize : Nat) : Prop where
  groups : o.pgIndexOffset.toNat = start
  vars : o.pgIndexOffset.toNat + o.pgSize.toNat = o.varsIndexOffset.toNat
  attrs : o.varsIndexOffset.toNat + o.varsSize.toNat = o.attrsIndexOffset.toNat
  mini : o.attrsIndexOffset.toNat + o.attrsSize.toNat + 28 = fileSize

/-- A reader of the file finds the sections and reads the process groups and the attributes back:
the first section to its end, the last one up to the version information. -/
def FooterRoundTrip (host : Endian) (start : Nat) (index : Index) (file : List UInt8) : Prop :=
  ∀ junk : UInt64, ∃ (offsets : IndexOffsets) (info : List UInt8),
    parseVersion host (miniFooter file).length ((miniFooter file).drop 24) =
      .ok ((0x202, false), []) ∧
    parseIndexOffsetsV1 ⟨host, false, junk⟩ (UInt64.ofNat file.length) (miniFooter file) =
      .ok (offsets, (miniFooter file).drop 24) ∧
    offsets.Tile start file.length ∧
    parseProcessGroupIndexV1 ⟨host, false, junk⟩
        (readAt file offsets.pgIndexOffset offsets.pgSize) =
      .ok (index.pgRoot.map IndexProcessGroup.serialised, []) ∧
    (∃ buf out, writeVarsIndex host index.varsRoot buf = .ok out ∧
      readAt file offsets.varsIndexOffset offsets.varsSize = out.since buf.offset) ∧
    parseAttributesIndexV1 ⟨host, false, junk⟩
        (readAt file offsets.attrsIndexOffset offsets.attrsSize) =
      .ok (index.attrsRoot.map IndexEntry.attrSerialised, info) ∧
    info.length = 28

/-- An index whose attributes are read back: an `int` counts them, and 16 bits the characters of
each string. -/
structure FooterReadable (index : Index) : Prop where
  count : index.attrsRoot.length < 2 ^ 31
  strings : ∀ a ∈ index.attrsRoot, a.type = .string → ∀ c ∈ a.characteristics, ∀ s ∈ c.value,
    s.length < 2 ^ 16

theorem writeVersionInfo_eq (version : Version) (buf : Buffer) :
    ∃ info, writeVersionInfo version buf = buf.write info ∧ info.length = 28 := by
  unfold writeVersionInfo
  simp only [Buffer.write_write]
  refine ⟨_, rfl, ?_⟩
  have hname : (chars "ADIOS-BP v").length = 10 := by simp [chars]
  simp only [length_append, length_take, hname, length_replicate, length_singleton]
  omega

theorem writeVersionV1_since {version : Version} {indexStart : UInt64} {mem : Mem}
    {written : WrittenIndex} (hgroups : ∀ pg ∈ index.pgRoot, pg.Wf)
    (hattrs : ∀ a ∈ index.attrsRoot, a.AttrWf)
    (h : writeIndexV1 host version indexStart index ⟨mem, 0⟩ = .ok written) :
    (∀ a ∈ index.attrsRoot, a.characteristics.length < 2 ^ 31) ∧
    ∃ (vars info : List UInt8) (buf out : Buffer),
      writeVarsIndex host index.varsRoot buf = .ok out ∧ vars = out.since buf.offset ∧
      info.length = 28 ∧
      (writeVersionV1 host written.buf).since 0 =
        render false (groupsFields host index.pgRoot) ++ (vars ++
        (render false (sectionFields host (index.attrsRoot.map IndexEntry.attrRecord)) ++ (info ++
        (host.u64 indexStart ++ (host.u64 (UInt64.ofNat
          (render false (groupsFields host index.pgRoot)).length + indexStart) ++
        (host.u64 (UInt64.ofNat ((render false (groupsFields host index.pgRoot)).length +
          vars.length) + indexStart) ++
        Endian.big.u32 (versionWord host))))))) := by
  have hbuf := writeGroups_eq host hgroups ⟨mem, 0⟩
  unfold writeIndexV1 at h
  rw [hbuf] at h
  obtain ⟨out, hvars, h⟩ := exists_of_bind_eq_ok h
  obtain ⟨out', hout', h⟩ := exists_of_bind_eq_ok h
  obtain rfl := Except.ok.inj h
  have hsets := length_lt_of_writeEntries hout'
  rw [writeAttrsIndex_eq host hattrs hsets] at hout'
  obtain rfl := Except.ok.inj hout'
  obtain ⟨vars, rfl⟩ : ∃ vars, out =
      (Buffer.write ⟨mem, 0⟩ (render false (groupsFields host index.pgRoot))).write vars :=
    ⟨_, (extends_writeVarsIndex host hvars).1.eq_write⟩
  obtain ⟨info, hinfo, hlen⟩ := writeVersionInfo_eq version
    (((Buffer.write ⟨mem, 0⟩ (render false (groupsFields host index.pgRoot))).write vars).write
      (render false (sectionFields host (index.attrsRoot.map IndexEntry.attrRecord))))
  refine ⟨hsets, vars, info, _, _, hvars, (Buffer.since_write _ _).symm, hlen, ?_⟩
  rw [writeVersionV1, hinfo]
  simp only [Buffer.write_write, append_assoc]
  rw [show (0 : Nat) = (Buffer.mk mem 0).offset from rfl, Buffer.since_write]
  simp only [Buffer.write_offset, Nat.zero_add, length_append]

theorem readAt_append {x y z : List UInt8} {offset size : UInt64}
    (hoffset : offset.toNat = x.length)
    (hsize : size.toNat = y.length) : readAt (x ++ (y ++ z)) offset size = y := by
  rw [readAt, hoffset, hsize, drop_left, take_left]

theorem parseVersion_versionWord (host : Endian) :
    parseVersion host 28 (Endian.big.u32 (versionWord host)) = .ok ((0x202, false), []) := by
  cases host <;> rfl

theorem parses_parseIndexOffsetsV1 (env : ReadEnv) (fileSize groups vars attrs : UInt64) :
    Parses (parseIndexOffsetsV1 env fileSize)
      (render env.changeEndianness
        [.word (env.host.u64 groups), .word (env.host.u64 vars), .word (env.host.u64 attrs)])
      { endOfPgs := groups, pgIndexOffset := groups, pgSize := vars - groups
        varsIndexOffset := vars, varsSize := attrs - vars, attrsIndexOffset := attrs
        attrsSize := fileSize - 28 - attrs } := by
  have himage : render env.changeEndianness
      [.word (env.host.u64 groups), .word (env.host.u64 vars), .word (env.host.u64 attrs)] =
      (Field.word (env.host.u64 groups)).render env.changeEndianness ++
        ((Field.word (env.host.u64 vars)).render env.changeEndianness ++
        (Field.word (env.host.u64 attrs)).render env.changeEndianness) := by
    simp
  rw [himage]
  unfold parseIndexOffsetsV1
  refine Parses.remaining fun n hn => Parses.bind_nil (Parses.require _ ?_)
    (Parses.bind (parses_readU64 env _) (Parses.bind (parses_readU64 env _)
    (Parses.bind_pure (parses_readU64 env _) rfl)))
  simpa [Field.raw] using hn

theorem length_groups_lt (host : Endian) {pgs : List IndexProcessGroup}
    (h : (render false (groupsFields host pgs)).length < 2 ^ 64) : pgs.length < 2 ^ 64 := by
  have hle := length_le_imageSize_flatMap pgs (f := IndexProcessGroup.fields host) fun pg => by
    rw [IndexProcessGroup.fields, imageSize_cons, Field.raw, Endian.length_u16]
    omega
  rw [length_render, groupsFields, imageSize_cons, imageSize_cons] at h
  omega

theorem tile_offsets {start g v a fileSize : Nat} {x y z w : UInt64}
    (hx : x.toNat = start) (hy : y = UInt64.ofNat g + x) (hz : z = UInt64.ofNat (g + v) + x)
    (hw : w = UInt64.ofNat fileSize) (hsize : fileSize = start + (g + (v + (a + (28 + 28)))))
    (hlt : fileSize < 2 ^ 64) :
    (y - x).toNat = g ∧ y.toNat = start + g ∧ (z - y).toNat = v ∧ z.toNat = start + g + v ∧
      (w - 28 - z).toNat = a + 28 := by
  have hy' : y.toNat = start + g := by
    rw [hy, UInt64.toNat_add, toNat_ofNat', hx]
    omega
  have hz' : z.toNat = start + g + v := by
    rw [hz, UInt64.toNat_add, toNat_ofNat', hx]
    omega
  have hw' : (w - 28).toNat = fileSize - 28 := by
    rw [UInt64.toNat_sub, hw, toNat_ofNat', show (28 : UInt64).toNat = 28 from rfl]
    omega
  refine ⟨?_, hy', ?_, hz', ?_⟩
  · rw [UInt64.toNat_sub, hy', hx]
    omega
  · rw [UInt64.toNat_sub, hz', hy']
    omega
  · rw [UInt64.toNat_sub, hw', hz']
    omega

theorem FooterReadable.roundTrip {version : Version} {indexStart : UInt64} {mem : Mem}
    {written : WrittenIndex} {data : List UInt8} (hgroups : ∀ pg ∈ index.pgRoot, pg.Wf)
    (hattrs : ∀ a ∈ index.attrsRoot, a.AttrWf)
    (hwritten : writeIndexV1 host version indexStart index ⟨mem, 0⟩ = .ok written)
    (hdata : data.length = indexStart.toNat)
    (hsize : (data ++ (writeVersionV1 host written.buf).since 0).length < 2 ^ 64)
    (h : FooterReadable index) :
    FooterRoundTrip host data.length index
      (data ++ (writeVersionV1 host written.buf).since 0) := by
  intro junk
  obtain ⟨hsets, vars, info, buf, out, hvars, hout, hinfo, hfooter⟩ :=
    writeVersionV1_since hgroups hattrs hwritten
  rw [hfooter] at hsize ⊢
  have hcount : index.pgRoot.length < 2 ^ 64 := length_groups_lt host (by
    simp only [length_append] at hsize
    omega)
  have hreadGroups := parses_parseProcessGroupIndexV1 ⟨host, false, junk⟩ hgroups hcount
  have hreadAttrs := parses_parseAttributesIndexV1 ⟨host, false, junk⟩ rfl h.count hsets
    hattrs h.strings
  simp only at hreadGroups hreadAttrs
  -- from here on the sections are just bytes
  generalize render false (groupsFields host index.pgRoot) = groups at *
  generalize render false (sectionFields host (index.attrsRoot.map IndexEntry.attrRecord)) =
    attrs at *
  generalize hvarsStart : UInt64.ofNat groups.length + indexStart = varsStart at *
  generalize hattrsStart : UInt64.ofNat (groups.length + vars.length) + indexStart =
    attrsStart at *
  generalize hmini : host.u64 indexStart ++ (host.u64 varsStart ++ (host.u64 attrsStart ++
    Endian.big.u32 (versionWord host))) = mini at *
  have hminiLength : mini.length = 28 := by simp [← hmini]
  have hfile : (data ++ (groups ++ (vars ++ (attrs ++ (info ++ mini))))).length =
      data.length + (groups.length + (vars.length + (attrs.length + (28 + 28)))) := by
    simp only [length_append, hinfo, hminiLength]
  have hlast : miniFooter (data ++ (groups ++ (vars ++ (attrs ++ (info ++ mini))))) = mini := by
    rw [miniFooter, hfile, show data ++ (groups ++ (vars ++ (attrs ++ (info ++ mini)))) =
      (data ++ (groups ++ (vars ++ (attrs ++ info)))) ++ mini by simp]
    apply drop_left'
    simp only [length_append, hinfo]
    omega
  have hword : mini.drop 24 = Endian.big.u32 (versionWord host) := by
    rw [← hmini, ← append_assoc, ← append_assoc]
    exact drop_left' (by simp)
  generalize hfileSize : UInt64.ofNat
    (data ++ (groups ++ (vars ++ (attrs ++ (info ++ mini))))).length = fileSize
  have hoffsets := parses_parseIndexOffsetsV1 ⟨host, false, junk⟩ fileSize indexStart varsStart
    attrsStart (mini.drop 24)
  rw [hword] at hoffsets
  obtain ⟨hg, hvs, hv, has, ha⟩ := tile_offsets (a := attrs.length) hdata.symm hvarsStart.symm
    hattrsStart.symm hfileSize.symm hfile hsize
  refine ⟨⟨indexStart, indexStart, varsStart - indexStart, varsStart, attrsStart - varsStart,
    attrsStart, fileSize - 28 - attrsStart⟩, info, ?_, ?_, ⟨hdata.symm, ?_, ?_, ?_⟩, ?_,
      ⟨buf, out, hvars, ?_⟩, ?_, hinfo⟩
  · rw [hlast, hword, hminiLength]
    exact parseVersion_versionWord host
  · rw [hlast, hword, ← hmini]
    simpa [Field.render] using hoffsets
  · simp only
    rw [hg, hvs, hdata]
  · simp only
    rw [hv, hvs, has]
  · simp only
    rw [has, ha, hfile]
    omega
  · rw [readAt_append hdata.symm hg]
    simpa using hreadGroups []
  · rw [← hout, show data ++ (groups ++ (vars ++ (attrs ++ (info ++ mini)))) =
      (data ++ groups) ++ (vars ++ (attrs ++ (info ++ mini))) by simp]
    exact readAt_append (by simp only [hvs, length_append]) hv
  · rw [show data ++ (groups ++ (vars ++ (attrs ++ (info ++ mini)))) =
      (data ++ (groups ++ vars)) ++ ((attrs ++ info) ++ mini) by simp,
      readAt_append (by simp only [has, length_append]; omega)
        (by simp only [ha, length_append, hinfo])]
    exact hreadAttrs info

theorem FooterRoundTrip.readable {file : List UInt8} {start : Nat}
    (h : FooterRoundTrip host start index file) : FooterReadable index := by
  obtain ⟨offsets, info, -, -, -, -, -, hparse, -⟩ := h 0
  obtain ⟨hcount, hread⟩ := readBack_parseEntries _
    (fun type _ c id hc => readBack_parseAttrItem _ type hc id) _ _ _ hparse
  refine ⟨by simpa using hcount, fun a ha _ c hc => ?_⟩
  exact (hread a.attrSerialised (mem_map_of_mem ha) c.attrSerialised
    (mem_map_of_mem hc)).value

theorem writeIndexV1_ok (host : Endian) (version : Version) (indexStart : UInt64) (buf : Buffer)
    (hvars : ∀ buf, ∃ out, writeVarsIndex host index.varsRoot buf = .ok out)
    (hattrs : ∀ a ∈ index.attrsRoot, a.AttrWf)
    (hsets : ∀ a ∈ index.attrsRoot, a.characteristics.length < 2 ^ 31) :
    ∃ written, writeIndexV1 host version indexStart index buf = .ok written := by
  obtain ⟨out, hout⟩ := hvars (writeGroups host index.pgRoot buf)
  have hattr := writeAttrsIndex_eq host hattrs hsets out
  unfold writeIndexV1
  simp only [hout, hattr, bind, Except.bind]
  exact ⟨_, rfl⟩

def attrIndex (text : List UInt8) : Index where
  pgRoot := [⟨CString.empty, .yes, 4, none, 1, 0⟩]
  varsRoot := []
  attrsRoot :=
    [⟨1, CString.empty, CString.empty, CString.empty, .string,
        [{ IndexCharacteristic.zero with offset := 32, value := some text }]⟩,
      ⟨2, CString.empty, CString.empty, CString.empty, .integer,
        [{ IndexCharacteristic.zero with offset := 64, varId := 7 }]⟩]

theorem attrIndex_wf (text : List UInt8) (hnul : ∀ c ∈ text, c ≠ 0) (hlen : text.length < 2 ^ 64) :
    (∀ pg ∈ (attrIndex text).pgRoot, pg.Wf) ∧ ∀ a ∈ (attrIndex text).attrsRoot, a.AttrWf := by
  constructor
  · intro pg hpg
    obtain rfl := mem_singleton.mp hpg
    exact ⟨by decide, by decide⟩
  · intro a ha
    simp only [attrIndex, mem_cons, not_mem_nil, or_false] at ha
    rcases ha with rfl | rfl
    · refine ⟨⟨trivial, ?_, ?_, ?_⟩, fun c hc v hv => ?_⟩
      · exact Nat.two_pow_pos 16
      · exact Nat.two_pow_pos 16
      · exact Nat.two_pow_pos 16
      · obtain rfl := mem_singleton.mp hc
        obtain rfl := Option.some.inj hv
        exact ⟨hnul, hlen⟩
    · refine ⟨⟨trivial, ?_, ?_, ?_⟩, fun c hc v hv => ?_⟩
      · exact Nat.two_pow_pos 16
      · exact Nat.two_pow_pos 16
      · exact Nat.two_pow_pos 16
      · obtain rfl := mem_singleton.mp hc
        cases hv

def longString : List UInt8 := List.replicate (2 ^ 16) 97

end Adios
