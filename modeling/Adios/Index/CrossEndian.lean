import Adios.Index.ParseSpec
import Adios.Lists.Results

/-!
# Adios — the index of a machine of the other byte order

`adios_parse_vars_index_v1` with `change_endianness` on the byte-reversed image of a well-formed
variables index, next to the same function on the image itself. Both stop at a transform whose
dimensions the `uint8_t` counter cannot count and at a number of variables that the `int`
counter cannot hold (`fails_parseVarsIndexV1`); otherwise the two lists differ in the histogram
minima, which neither reads, and in the complex values, which the second does not swap.
-/

namespace Adios

open List Wire Wire.Parser

/-! ## Images the decoder does not get through -/

variable (env : ReadEnv)

/-- More than 85 dimensions keep the `uint8_t` counter below its bound for ever. -/
theorem fails_deserializeTransformCharacteristic {t : Transform} (h : t.Wf)
    (hcount : ¬t.preTransformDimensions.count.toNat ≤ 85) (t' : Transform) :
    Fails (deserializeTransformCharacteristic env t')
      (render env.changeEndianness (t.fields env.host)) := by
  obtain ⟨uid, huid, hlt, -⟩ := transformPluginUid_of_known h.known
  have hdims := h.dims
  unfold Dims.Wf at hdims
  have hbyte := t.preTransformDimensions.count.toNat_lt
  have hlen : (UInt16.ofNat (8 * t.preTransformDimensions.dims.length)).toNat =
      3 * 8 * t.preTransformDimensions.count.toNat := by
    rw [UInt16.toNat_ofNat_of_lt' (show _ < 2 ^ 16 by rw [hdims]; omega), hdims]
    omega
  have himage : render env.changeEndianness (t.fields env.host) =
      [UInt8.ofNat uid.length] ++ (uid ++ ([t.preTransformType.code] ++
      ([t.preTransformDimensions.count] ++
      ((Field.word (env.host.u16
        (UInt16.ofNat (8 * t.preTransformDimensions.dims.length)))).render env.changeEndianness ++
      ([] ++ render env.changeEndianness (t.preTransformDimensions.dims.map
          (fun n => Field.word (env.host.u64 n)) ++
        [.word (env.host.u16 t.transformMetadataLen), .text t.transformMetadata])))))) := by
    simp [Transform.fields, Dims.fields, Field.render, huid]
  rw [himage]
  unfold deserializeTransformCharacteristic
  exact Fails.bind_right (parses_readU8 _) (Fails.bind_right (Parses.take _
    (by rw [UInt8.toNat_ofNat_of_lt' hlt])) (Fails.bind_right (parses_readU8 _)
    (Fails.bind_right (parses_readU8 _) (Fails.bind_right (parses_readU16 env _)
    (Fails.bind_right (Parses.require _ hlen) (Fails.require_bind _ (by omega) _ _))))))

variable {type : Datatype} {items : List Item}

theorem fails_parseVarItem {orig : Datatype} {bitmap : UInt32} {it : Item}
    (hwf : it.Wf type orig bitmap) (hdec : ¬it.Decodable) (first : Option IndexCharacteristic)
    (c : IndexCharacteristic) :
    Fails (parseVarItem env type first c (some it.id))
      (render env.changeEndianness (it.dataFields env.host type)) := by
  cases it with
  | transform t =>
    have h := (fails_deserializeTransformCharacteristic env hwf hdec c.transform).bind_left
      (fun transform => pure { c with transform := transform }) []
    rwa [append_nil] at h
  | _ => exact absurd trivial hdec

theorem fails_parseSet_var {first first' : Option IndexCharacteristic} (ht : type.IsDefined)
    (hfirst : first.map IndexCharacteristic.transform = first'.map IndexCharacteristic.transform)
    (hwf : SetWf type first' items) (hvar : ∀ it ∈ items, it.id ≠ .varId)
    (hdec : ¬∀ it ∈ items, it.Decodable) :
    Fails (parseSet env (parseVarItem env type first))
      (render env.changeEndianness (setFields env.host type items)) := by
  obtain ⟨pre, it, post, hitems, hpre, hit⟩ := Lists.exists_first hdec
  have hstep : ∀ pre₁ y pre₂, pre = pre₁ ++ y :: pre₂ →
      Parses (ReadEnv.readU8 >>= fun flag =>
          parseVarItem env type first (decodeSetV1 env type pre₁) (CharacteristicId.ofFlag flag))
        (render env.changeEndianness (y.fields env.host type))
        (y.applyV1 env type (decodeSetV1 env type pre₁)) := by
    intro pre₁ y pre₂ hpre'
    have hsplit : items = pre₁ ++ y :: (pre₂ ++ it :: post) := by rw [hitems, hpre']; simp
    have hread := parses_parseVarItem_at env ht hfirst hwf hsplit
      (hvar y (by simp [hsplit])) (hpre y (by simp [hpre']))
    rw [← CharacteristicId.ofFlag_flag y.id] at hread
    exact (Parses.bind (parses_readU8 y.id.flag) hread).congr
      (by simp [Item.fields, Field.render]) rfl
  have hfail : Fails (ReadEnv.readU8 >>= fun flag =>
        parseVarItem env type first (decodeSetV1 env type pre) (CharacteristicId.ofFlag flag))
      (render env.changeEndianness (it.fields env.host type)) := by
    have hwfit := hwf.items
    rw [hitems, ItemsWf.append_iff] at hwfit
    have h := fails_parseVarItem env hwfit.2.1 hit first (decodeSetV1 env type pre)
    rw [← CharacteristicId.ofFlag_flag it.id] at h
    have hitem := Fails.bind_right (f := fun flag =>
      parseVarItem env type first (decodeSetV1 env type pre) (CharacteristicId.ofFlag flag))
      (parses_readU8 it.id.flag) h
    simpa [Item.fields, Field.render] using hitem
  have hloop := Fails.loop
    (fun c => ReadEnv.readU8 >>= fun flag =>
      parseVarItem env type first c (CharacteristicId.ofFlag flag))
    (fun it => render env.changeEndianness (Item.fields env.host type it))
    (Item.applyV1 env type) pre it post .zero hstep hfail
  rw [← hitems, ← UInt8.toNat_ofNat_of_lt' hwf.count] at hloop
  rw [setFields, render_cons, render_cons, render_flatMap]
  exact Fails.bind_right (parses_readU8 _) (Fails.bind_right (parses_readU32 env _) hloop)

theorem fails_parseEntry {r : Record} (hwf : r.Wf)
    (hvar : ∀ items ∈ r.sets, ∀ it ∈ items, it.id ≠ .varId)
    (hdec : ¬∀ items ∈ r.sets, ∀ it ∈ items, it.Decodable) :
    Fails (parseEntry env (parseVarItem env))
      (render env.changeEndianness (r.fields env.host)) := by
  obtain ⟨pre, items, post, hsets, hpre, hitems⟩ := Lists.exists_first hdec
  have hfirst : ∀ pre : List (List Item),
      (pre.map (decodeSetV1 env r.type)).head?.map IndexCharacteristic.transform =
        (pre.map decodeSet).head?.map IndexCharacteristic.transform := by
    intro pre
    cases pre <;> simp [decodeSetV1_transform]
  have hloop := Fails.loop_append
    (fun sets => parseSet env (parseVarItem env r.type sets.head?))
    (fun items => render env.changeEndianness (setFields env.host r.type items))
    (decodeSetV1 env r.type) id pre items post
    (by
      intro pre₁ items₁ pre₂ hpre'
      have hmem : items₁ ∈ r.sets := by simp [hsets, hpre']
      exact parses_parseSet_var env hwf.defined (hfirst pre₁)
        (hwf.sets pre₁ items₁ (pre₂ ++ items :: post) (by rw [hsets, hpre']; simp))
        (hvar items₁ hmem) (hpre items₁ (by simp [hpre'])))
    (fails_parseSet_var env hwf.defined (hfirst pre) (hwf.sets pre items post hsets)
      (hvar items (by simp [hsets])) hitems)
  have hcount : (UInt64.ofNat r.sets.length).toNat = r.sets.length :=
    UInt64.toNat_ofNat_of_lt' hwf.count
  rw [← hsets, ← hcount] at hloop
  rw [r.render_fields, ← append_nil (r.sets.flatMap _)]
  unfold parseEntry
  refine Fails.bind_right (parses_readU32 env _) (Fails.bind_right (parses_readU32 env _)
    (Fails.bind_right (parses_readLengthString env _ hwf.groupName)
    (Fails.bind_right (parses_readLengthString env _ hwf.name)
    (Fails.bind_right (parses_readLengthString env _ hwf.path)
    (Fails.bind_right (parses_readU8 r.type.code)
    (Fails.bind_right (parses_readU64 env _) ?_))))))
  rw [Datatype.ofCode_code hwf.defined]
  exact hloop.bind_left _ _

/-- What the decoder can read of an index: its `int` loop counter holds the number of variables
and its `uint8_t` counter the dimensions before each transform. -/
structure Followed (rs : List Record) : Prop where
  count : rs.length < 2 ^ 31
  items : ∀ r ∈ rs, ∀ items ∈ r.sets, ∀ it ∈ items, it.Decodable

theorem fails_parseVarsIndexV1 {rs : List Record} (hlen : rs.length < 2 ^ 32) (hwf : ∀ r ∈ rs, r.Wf)
    (hvar : ∀ r ∈ rs, ∀ items ∈ r.sets, ∀ it ∈ items, it.id ≠ .varId) (h : ¬Followed rs) :
    Fails (parseVarsIndexV1 env) (render env.changeEndianness (sectionFields env.host rs)) := by
  have hcount : (UInt32.ofNat rs.length).toNat = rs.length := UInt32.toNat_ofNat_of_lt' hlen
  rw [sectionFields, render_cons, render_cons, render_flatMap]
  refine Fails.remaining fun n hn => Fails.bind_right (x := []) (Parses.require _ ?_)
    (Fails.bind_right (parses_readU32 env _) (Fails.bind_right (parses_readU64 env _) ?_))
  · simp only [length_append, Field.length_render, Field.raw, Endian.length_u32,
      Endian.length_u64] at hn
    omega
  · by_cases hsmall : rs.length < 2 ^ 31
    · obtain ⟨pre, r, post, hrs, hpre, hr⟩ :=
        Lists.exists_first fun hitems => h ⟨hsmall, hitems⟩
      have hloop := Fails.loop_append (fun _ => parseEntry env (parseVarItem env))
        (fun r => render env.changeEndianness (Record.fields env.host r))
        (Record.decodeV1 env) id pre r post
        (by
          intro pre₁ r₁ pre₂ hpre'
          have hmem : r₁ ∈ rs := by simp [hrs, hpre']
          exact parses_parseEntry_var env (hwf r₁ hmem) (hvar r₁ hmem)
            (hpre r₁ (by simp [hpre'])))
        (fails_parseEntry env (hwf r (by simp [hrs])) (hvar r (by simp [hrs])) hr)
      rw [← hrs, ← hcount] at hloop
      exact Fails.bind_right (x := []) (Parses.require _ (by rwa [hcount])) hloop
    · exact Fails.require_bind _ (by rwa [hcount]) _ _

/-! ## What the two images give -/

theorem decodeSetV1_field {α : Type} (field : IndexCharacteristic → α) (env : ReadEnv)
    (type : Datatype) {it : Item} (hnodup : (items.map Item.id).Nodup) (hit : it ∈ items) (hframe :
      ∀ (it' : Item) (c : IndexCharacteristic), it'.id ≠ it.id → field (it'.applyV1 env type c) =
      field c) :
    ∃ c, field (decodeSetV1 env type items) = field (it.applyV1 env type c) := by
  obtain ⟨pre, post, rfl⟩ := append_of_mem hit
  rw [map_append, map_cons, nodup_append, nodup_cons] at hnodup
  obtain ⟨-, ⟨hpost, -⟩, -⟩ := hnodup
  refine ⟨decodeSetV1 env type pre, ?_⟩
  rw [decodeSetV1, foldl_append, foldl_cons]
  change field (post.foldl _ (it.applyV1 env type (decodeSetV1 env type pre))) = _
  generalize it.applyV1 env type (decodeSetV1 env type pre) = c
  clear hit
  induction post generalizing c with
  | nil => rfl
  | cons it' post ih =>
    rw [map_cons, mem_cons, not_or] at hpost
    rw [foldl_cons, ih hpost.2, hframe it' c (Ne.symm hpost.1)]

theorem decodeSetV1_value {bytes : List UInt8} (hnodup : (items.map Item.id).Nodup)
    (hit : .value bytes ∈ items) :
    (decodeSetV1 env type items).value =
      some (if env.changeEndianness then swapComponents type bytes else bytes) := by
  obtain ⟨c, hc⟩ := decodeSetV1_field IndexCharacteristic.value env type hnodup hit
    fun it' c hne => by cases it' <;> first | rfl | exact absurd rfl hne
  exact hc

theorem decodeSetV1_stats {sets : List (List StatData)} (hnodup : (items.map Item.id).Nodup)
    (hit : .stat sets ∈ items) :
    (decodeSetV1 env type items).stats =
      some (sets.map fun stats => padStats (stats.map (StatData.readBy env))) := by
  obtain ⟨c, hc⟩ := decodeSetV1_field IndexCharacteristic.stats env type hnodup hit
    fun it' c hne => by cases it' <;> first | rfl | exact absurd rfl hne
  exact hc

/-- An index that a machine of the other byte order reads as its own: besides what every decoder
needs, no histograms, and only those complex values whose components read the same from both
ends. -/
structure CrossEndianReadable (rs : List Record) : Prop extends Followed rs where
  hist : ∀ r ∈ rs, ∀ items ∈ r.sets, ∀ sets, Item.stat sets ∈ items →
    ∀ stats ∈ sets, ∀ s ∈ stats, s.IsRaw
  complex : ∀ r ∈ rs, ∀ items ∈ r.sets, ∀ bytes, Item.value bytes ∈ items →
    swapComponents r.type bytes = bytes

/-- Both decoders return one list, whatever fresh memory holds and whatever follows in the
buffer. -/
def CrossEndianAgree (host : Endian) (rs : List Record) : Prop :=
  ∀ (junk junk' : UInt64) (rest : List UInt8), ∃ vars,
    parseVarsIndexV1 ⟨host, false, junk⟩ (render false (sectionFields host rs) ++ rest) =
      .ok (vars, rest) ∧
    parseVarsIndexV1 ⟨host, true, junk'⟩ (render true (sectionFields host rs) ++ rest) =
      .ok (vars, rest)

section

variable {host : Endian} {rs : List Record} (hlen : rs.length < 2 ^ 32) (hwf : ∀ r ∈ rs, r.Wf)
  (hvar : ∀ r ∈ rs, ∀ items ∈ r.sets, ∀ it ∈ items, it.id ≠ .varId)

include hwf hvar in
theorem CrossEndianReadable.agree (h : CrossEndianReadable rs) : CrossEndianAgree host rs := by
  intro junk junk' rest
  have hplain : ∀ env : ReadEnv, ∀ r ∈ rs, r.decodeV1 env = r.decode := fun env r hr =>
    Record.decodeV1_eq_decode (h.hist r hr) fun _ => h.complex r hr
  have hread : ∀ env : ReadEnv, Parses (parseVarsIndexV1 env)
      (render env.changeEndianness (sectionFields env.host rs)) (rs.map Record.decode) :=
    fun env => (parses_parseVarsIndexV1 env rs h.count hwf hvar h.items).congr rfl
      (map_congr_left (hplain env))
  exact ⟨rs.map Record.decode, hread ⟨host, false, junk⟩ rest, hread ⟨host, true, junk'⟩ rest⟩

include hlen hwf hvar in
theorem CrossEndianAgree.followed (h : CrossEndianAgree host rs) : Followed rs := by
  by_contra hnot
  obtain ⟨vars, hparse, -⟩ := h 0 0 []
  obtain ⟨e, he⟩ := fails_parseVarsIndexV1 ⟨host, false, 0⟩ hlen hwf hvar hnot []
  rw [he] at hparse
  cases hparse

include hlen hwf hvar in
theorem CrossEndianAgree.decodeSetV1_eq (h : CrossEndianAgree host rs) (junk junk' : UInt64)
    {r : Record} (hr : r ∈ rs) {items : List Item} (hitems : items ∈ r.sets) :
    decodeSetV1 ⟨host, false, junk⟩ r.type items =
      decodeSetV1 ⟨host, true, junk'⟩ r.type items := by
  obtain ⟨hcount, hdec⟩ := h.followed hlen hwf hvar
  obtain ⟨vars, hparse, hparse'⟩ := h junk junk' []
  rw [parses_parseVarsIndexV1 ⟨host, false, junk⟩ rs hcount hwf hvar hdec []] at hparse
  rw [parses_parseVarsIndexV1 ⟨host, true, junk'⟩ rs hcount hwf hvar hdec []] at hparse'
  have hlist : rs.map (Record.decodeV1 ⟨host, false, junk⟩) =
      rs.map (Record.decodeV1 ⟨host, true, junk'⟩) := by
    have heq := hparse.trans hparse'.symm
    simpa using heq
  have hentry := congrArg IndexEntry.characteristics (map_inj_left.mp hlist r hr)
  exact map_inj_left.mp hentry items hitems

include hlen hwf hvar in
theorem CrossEndianAgree.readable (h : CrossEndianAgree host rs) : CrossEndianReadable rs where
  toFollowed := h.followed hlen hwf hvar
  hist := by
    intro r hr items hitems sets hit stats hstats s hs
    obtain ⟨pre, post, hsets⟩ := append_of_mem hitems
    have hnodup := ((hwf r hr).sets pre items post hsets).nodup
    -- fresh memory holds 0 for one decoder and 1 for the other
    have heq := (h.decodeSetV1_eq hlen hwf hvar 0 0 hr hitems).trans
      (h.decodeSetV1_eq hlen hwf hvar 1 0 hr hitems).symm
    have hfield := congrArg IndexCharacteristic.stats heq
    rw [decodeSetV1_stats _ hnodup hit, decodeSetV1_stats _ hnodup hit] at hfield
    have hpad := map_inj_left.mp (Option.some.inj hfield) stats hstats
    have hmap := (append_inj hpad (by simp)).1
    rw [map_map, map_map] at hmap
    have hread := Option.some.inj (map_inj_left.mp hmap s hs)
    cases s with
    | raw bytes => trivial
    | hist hist =>
      simp only [StatData.readBy, StatData.hist.injEq, Hist.mk.injEq] at hread
      have hmin : (0 : UInt64) = 1 := hread.1
      exact absurd hmin (by decide)
  complex := by
    intro r hr items hitems bytes hit
    obtain ⟨pre, post, hsets⟩ := append_of_mem hitems
    have hnodup := ((hwf r hr).sets pre items post hsets).nodup
    have hfield := congrArg IndexCharacteristic.value
      (h.decodeSetV1_eq hlen hwf hvar 0 0 hr hitems)
    rw [decodeSetV1_value _ hnodup hit, decodeSetV1_value _ hnodup hit] at hfield
    exact (Option.some.inj hfield).symm

end

/-- **Reading the index of a machine of the other byte order.** -/
theorem crossEndian_iff (host : Endian) (rs : List Record) (hlen : rs.length < 2 ^ 32)
    (hwf : ∀ r ∈ rs, r.Wf)
    (hvar : ∀ r ∈ rs, ∀ items ∈ r.sets, ∀ it ∈ items, it.id ≠ .varId) :
    CrossEndianAgree host rs ↔ CrossEndianReadable rs :=
  ⟨fun h => h.readable hlen hwf hvar, fun h => h.agree hwf hvar⟩

theorem crossEndian_double : CrossEndianAgree .little
    [valueRecord .double [1, 2, 3, 4, 5, 6, 7, 8]] := by
  refine (crossEndian_iff .little _ (by decide) ?_ ?_).mpr ⟨⟨by decide, ?_⟩, ?_, ?_⟩
  · intro r hr
    obtain rfl := mem_singleton.mp hr
    exact valueRecord_wf (by decide) (by unfold ValueFits; decide)
  · simp [valueRecord, Item.id]
  · simp [valueRecord, Item.Decodable]
  · simp [valueRecord]
  · simp [valueRecord, swapComponents]

/-- The components of a complex value stay in the order of the other machine. -/
theorem not_crossEndian_complex : ¬CrossEndianAgree .little
    [valueRecord .complex [1, 2, 3, 4, 5, 6, 7, 8]] := by
  intro h
  have hreadable := h.readable (by decide)
    (by
      intro r hr
      obtain rfl := mem_singleton.mp hr
      exact valueRecord_wf (by decide) (by unfold ValueFits; decide))
    (by simp [valueRecord, Item.id])
  have hswap := hreadable.complex _ mem_cons_self _ mem_cons_self
    [1, 2, 3, 4, 5, 6, 7, 8] (by simp)
  exact absurd hswap (by decide)

end Adios
