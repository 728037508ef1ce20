import Adios.Index.ParseSpec
import Adios.Read.BpVars

/-!
# Adios — the two decoders of the variables index

`bp_parse_vars` next to `adios_parse_vars_index_v1` on one image. Where both come to the end of
the index, the reader's list is the writer's, but for what the reader makes up on purpose
(`IndexEntry.readerView`): the bitmap and the statistics of every value, and a time index where
the file has none.
-/

namespace Adios

open List Wire Wire.Parser

/-! ## What the reader makes up -/

section View

variable (env : ReadEnv) (arith : ValueArith) (type : Datatype)

def madeUpStats (value : List UInt8) : List (List (Option StatData)) :=
  match addValueStats env arith type value .zero with
  | .ok c => c.stats.getD []
  | .error _ => []

theorem statBits_valueBitmap : statBits valueBitmap = [0, 1, 2, 3, 4] := by decide

theorem addValueStats_eq (value : List UInt8) {c : IndexCharacteristic} (hc : c.stats = none) :
    addValueStats env arith type value c =
      .ok { c with bitmap := valueBitmap, stats := some (madeUpStats env arith type value) } := by
  -- none of the five statistics is a histogram
  have hstat : ∀ k idx bit, bit ∈ statBits valueBitmap →
      ∃ s, valueStat env arith type k idx bit value = .ok s := by
    intro k idx bit hbit
    rw [statBits_valueBitmap] at hbit
    simp only [mem_cons, not_mem_nil, or_false] at hbit
    have hsize : ∃ size, getStatSize none type (Statistic.ofBit bit) = .ok size := by
      rcases hbit with rfl | rfl | rfl | rfl | rfl <;> cases type <;> exact ⟨_, rfl⟩
    obtain ⟨size, hsize⟩ := hsize
    unfold valueStat
    rw [hsize]
    exact ⟨_, rfl⟩
  have hstats : ∀ k (bits : List Nat), (∀ b ∈ bits, b ∈ statBits valueBitmap) → ∀ idx,
      ∃ stats, valueStats env arith type k value idx bits = .ok stats := by
    intro k bits
    induction bits with
    | nil => exact fun _ idx => ⟨[], rfl⟩
    | cons bit bits ih =>
      intro hbits idx
      obtain ⟨s, hs⟩ := hstat k idx bit (hbits bit (by simp))
      obtain ⟨stats, hstats⟩ := ih (fun b hb => hbits b (by simp [hb])) (idx + 1)
      refine ⟨s :: stats, ?_⟩
      simp only [valueStats, hs, hstats, bind, Except.bind, pure, Except.pure]
  have hall : ∀ ks : List Nat, ∃ sets, ks.mapM (fun k =>
      valueStats env arith type k value 0 (statBits valueBitmap)) = .ok sets := by
    intro ks
    induction ks with
    | nil => exact ⟨[], rfl⟩
    | cons k ks ih =>
      obtain ⟨stats, hstats⟩ := hstats k _ (fun _ hb => hb) 0
      obtain ⟨sets, hsets⟩ := ih
      refine ⟨stats :: sets, ?_⟩
      simp only [mapM_cons, hstats, hsets, bind, Except.bind, pure, Except.pure]
  obtain ⟨sets, hsets⟩ := hall (List.range (getStatSetCount type).toNat)
  have hadd : ∀ c : IndexCharacteristic, c.stats = none → addValueStats env arith type value c =
      .ok { c with bitmap := valueBitmap, stats := some (sets.map padStats) } := by
    intro c hc
    have hbits : (0 : UInt32) ||| valueBitmap = valueBitmap := by decide
    have hlt : ¬2 ^ statLength ≤ valueBitmap.toNat := by decide
    unfold addValueStats
    simp only [hc, Option.isNone_none, if_true, hbits, if_neg hlt, hsets, bind, Except.bind, pure,
      Except.pure]
  rw [hadd c hc, madeUpStats, hadd .zero rfl]
  rfl

def IndexCharacteristic.withMadeUp (c : IndexCharacteristic) : IndexCharacteristic :=
  match c.value with
  | none => c
  | some value =>
    { c with bitmap := valueBitmap, stats := some (madeUpStats env arith type value) }

/-- What the reader makes of the set `j` of a variable. -/
def IndexCharacteristic.readerView (fh : BpFile) (j : Nat) (c : IndexCharacteristic) :
    IndexCharacteristic :=
  { c.withMadeUp env arith type with timeIndex := fh.timeIndex j c.timeIndex }

def IndexEntry.readerView (fh : BpFile) (v : IndexEntry) : IndexEntry :=
  { v with
    characteristics := v.characteristics.mapIdx fun j c => c.readerView env arith v.type fh j }

@[simp] theorem IndexCharacteristic.transform_withMadeUp (c : IndexCharacteristic) :
    (c.withMadeUp env arith type).transform = c.transform := by
  unfold withMadeUp
  split <;> rfl

@[simp] theorem IndexCharacteristic.timeIndex_withMadeUp (c : IndexCharacteristic) :
    (c.withMadeUp env arith type).timeIndex = c.timeIndex := by
  unfold withMadeUp
  split <;> rfl

def Item.applyReader (c : IndexCharacteristic) : Item → IndexCharacteristic
  | .value bytes =>
    { c with
      value := some bytes, bitmap := valueBitmap
      stats := some (madeUpStats env arith type bytes) }
  | it => it.apply c

end View

def ScalarOrArray (items : List Item) : Prop :=
  ∀ bytes, Item.value bytes ∈ items →
    ∀ it ∈ items, it.id ≠ .bitmap ∧ it.id ≠ .stat ∧ it.id ≠ .transformType

section Fold

variable {env : ReadEnv} {arith : ValueArith} {type : Datatype}

section

variable {items : List Item}

theorem foldl_applyReader_of_scalar
    (h : ∀ it ∈ items, it.id ≠ .bitmap ∧ it.id ≠ .stat) (c : IndexCharacteristic) :
    items.foldl (Item.applyReader env arith type) (c.withMadeUp env arith type) =
      (items.foldl Item.apply c).withMadeUp env arith type := by
  induction items generalizing c with
  | nil => rfl
  | cons it items ih =>
    rw [foldl_cons, foldl_cons, ← ih fun it hit => h it (by simp [hit])]
    congr 1
    obtain ⟨hb, hs⟩ := h it (by simp)
    cases it with
    | bitmap n => exact absurd rfl hb
    | stat sets => exact absurd rfl hs
    | value bytes =>
      cases hv : c.value <;>
        simp [Item.applyReader, Item.apply, IndexCharacteristic.withMadeUp, hv]
    | _ =>
      cases hv : c.value <;>
        simp [Item.applyReader, Item.apply, IndexCharacteristic.withMadeUp, hv]

theorem foldl_applyReader_of_array (h : ∀ it ∈ items, it.id ≠ .value) (c : IndexCharacteristic) :
    items.foldl (Item.applyReader env arith type) c = items.foldl Item.apply c := by
  induction items generalizing c with
  | nil => rfl
  | cons it items ih =>
    rw [foldl_cons, foldl_cons, ih fun it hit => h it (by simp [hit])]
    cases it with
    | value bytes => exact absurd rfl (h (.value bytes) (by simp))
    | _ => rfl

theorem foldl_apply_value (h : ∀ it ∈ items, it.id ≠ .value)
    (c : IndexCharacteristic) : (items.foldl Item.apply c).value = c.value := by
  induction items generalizing c with
  | nil => rfl
  | cons it items ih =>
    rw [foldl_cons, ih fun it hit => h it (by simp [hit])]
    cases it with
    | value bytes => exact absurd rfl (h (.value bytes) (by simp))
    | _ => rfl

theorem foldl_apply_stats (h : ∀ it ∈ items, it.id ≠ .stat)
    (c : IndexCharacteristic) : (items.foldl Item.apply c).stats = c.stats := by
  induction items generalizing c with
  | nil => rfl
  | cons it items ih =>
    rw [foldl_cons, ih fun it hit => h it (by simp [hit])]
    cases it with
    | stat sets => exact absurd rfl (h (.stat sets) (by simp))
    | _ => rfl

theorem exists_value_of_id (h : ¬∀ it ∈ items, it.id ≠ .value) :
    ∃ bytes, Item.value bytes ∈ items := by
  push Not at h
  obtain ⟨it, hit, hid⟩ := h
  cases it with
  | value bytes => exact ⟨bytes, hit⟩
  | _ => cases hid

theorem foldl_applyReader (h : ScalarOrArray items) :
    items.foldl (Item.applyReader env arith type) .zero =
      (decodeSet items).withMadeUp env arith type := by
  by_cases hval : ∀ it ∈ items, it.id ≠ .value
  · have hnone : (decodeSet items).value = none := foldl_apply_value hval .zero
    rw [foldl_applyReader_of_array hval, IndexCharacteristic.withMadeUp, hnone]
    rfl
  · obtain ⟨bytes, hbytes⟩ := exists_value_of_id hval
    exact foldl_applyReader_of_scalar
      (fun it hit => ⟨(h bytes hbytes it hit).1, (h bytes hbytes it hit).2.1⟩) .zero

end

theorem ScalarOrArray.of_append {pre post : List Item} (h : ScalarOrArray (pre ++ post)) :
    ScalarOrArray pre := fun bytes hbytes it hit =>
  h bytes (mem_append_left _ hbytes) it (mem_append_left _ hit)

end Fold

/-! ## Reading an image -/

section Reading

variable (env : ReadEnv)

theorem parses_bpReadString {bytes : List UInt8} (h : bytes.length < 2 ^ 15) :
    Parses (bpReadString env)
      (render env.changeEndianness (valueFields env.host .string bytes)) (some bytes) := by
  have hlen : (UInt16.ofNat bytes.length).toNat = bytes.length :=
    UInt16.toNat_ofNat_of_lt' (show bytes.length < 2 ^ 16 by omega)
  have hsmall : UInt16.ofNat bytes.length < 0x8000 := by
    rw [UInt16.lt_iff_toNat_lt, hlen]
    exact h
  refine (Parses.bind (parses_readU16 env (UInt16.ofNat bytes.length)) ?_).congr
    (y := (Field.word (env.host.u16 (UInt16.ofNat bytes.length))).render env.changeEndianness ++
      bytes) rfl rfl |>.congr (by simp [valueFields, Field.render]) rfl
  rw [if_pos hsmall]
  exact Parses.bind_pure (Parses.take _ hlen.symm) rfl

theorem parses_bpReadDataFromBuffer {type : Datatype} {bytes : List UInt8}
    (ht : type.IsDefined) (h : ValueFits type bytes)
    (hstring : type = .string → bytes.length < 2 ^ 15) :
    Parses (bpReadDataFromBuffer env type)
      (render env.changeEndianness (valueFields env.host type bytes)) (some bytes) := by
  by_cases hs : type = .string
  · subst hs
    exact parses_bpReadString env (hstring rfl)
  · have hnum : type.IsNumeric := ⟨ht, hs⟩
    have hlen : bytes.length = (getTypeSize type none).toNat := by
      simpa [ValueFits, hs] using h
    have hsize : (bpDataSize type).toNat = bytes.length := by
      rw [hlen]
      cases type <;> first | contradiction | rfl
    have htake : Parses (take Fault.outOfBounds (bpDataSize type).toNat)
        (render env.changeEndianness (valueFields env.host type bytes)) _ :=
      Parses.take _ (by rw [length_render_valueFields _ hs, hsize])
    have hwidth := getTypeSize_mem hnum none
    rw [← hlen] at hwidth
    by_cases hc : type = .complex ∨ type = .doubleComplex
    · have himage := render_valueFields_of_complex env.host env.changeEndianness bytes hc
      rcases hc with rfl | rfl
      · refine Parses.bind_pure htake ?_
        rw [himage]
        have h8 : bytes.length = 8 := hlen
        cases env.changeEndianness with
        | false => rfl
        | true =>
          have h1 : (bytes.take 4).reverse.length = 4 := by simp [h8]
          simp only [if_true, swapComponents]
          rw [take_left' h1, drop_left' h1, swap32Ptr_eq_reverse _ h1,
            swap32Ptr_eq_reverse _ (by simp [h8]), reverse_reverse, reverse_reverse,
            take_append_drop]
      · refine Parses.bind_pure htake ?_
        rw [himage]
        have h16 : bytes.length = 16 := hlen
        cases env.changeEndianness with
        | false => rfl
        | true =>
          have h1 : (bytes.take 8).reverse.length = 8 := by simp [h16]
          simp only [if_true, swapComponents]
          rw [take_left' h1, drop_left' h1, swap64Ptr_eq_reverse _ h1,
            swap64Ptr_eq_reverse _ (by simp [h16]), reverse_reverse, reverse_reverse,
            take_append_drop]
    · have hc1 : type ≠ .complex := fun h => hc (Or.inl h)
      have hc2 : type ≠ .doubleComplex := fun h => hc (Or.inr h)
      have hvalue : (if env.changeEndianness then
          swapPtr env.host (render env.changeEndianness (valueFields env.host type bytes))
            ((bpDataSize type).toNat * 8)
          else render env.changeEndianness (valueFields env.host type bytes)) = bytes := by
        rw [render_valueFields_of_word _ _ hs hc1 hc2, hsize]
        cases env.changeEndianness with
        | false => rfl
        | true =>
          have hrev : bytes.reverse.length ∈ [0, 1, 2, 4, 8, 16] := by
            rw [length_reverse]
            exact mem_cons_of_mem _ hwidth
          have := swapPtr_eq_reverse env.host hrev
          rw [length_reverse, reverse_reverse] at this
          simpa using this
      cases type <;> first
        | contradiction
        | exact Parses.bind_pure htake (congrArg some hvalue)

theorem parses_bpParseDims {d : Dims} (h : d.Wf) :
    Parses (bpParseDims env) (render env.changeEndianness (d.fields env.host)) d := by
  have hlen : (UInt16.ofNat (8 * d.dims.length)).toNat / 8 = d.dims.length := by
    have hcount := d.count.toNat_lt
    rw [UInt16.toNat_ofNat_of_lt' (show _ < 2 ^ 16 by rw [h]; omega)]
    omega
  have hwords := Parses.loop_append (fun _ => env.readU64)
    (fun n => (Field.word (env.host.u64 n)).render env.changeEndianness) id id d.dims
    fun _ n _ _ => parses_readU64 env n
  rw [← hlen] at hwords
  refine (Parses.bind (parses_readU8 d.count) (Parses.bind (parses_readU16 env _)
    (Parses.bind_pure hwords ?_))).congr ?_ rfl
  · simp
  · simp [Dims.fields, Field.render, render, flatMap_map]

theorem parses_bpParseStats {type : Datatype} {bits : List Nat} {stats : List StatData}
    (ht : type.IsDefined) (hraw : ∀ s ∈ stats, s.IsRaw)
    (h : Forall₂ (StatData.Fits type) bits stats) :
    Parses (bpParseStats env type bits)
      (render env.changeEndianness (stats.flatMap (StatData.fields env.host))) stats := by
  induction h with
  | nil => exact Parses.pure []
  | @cons j s bits stats hs _ ih =>
    have hsraw := hraw s (by simp)
    have hj : j ≠ Statistic.hist.bit := by
      cases s with
      | raw bytes => exact hs.1
      | hist h => exact absurd hsraw id
    have h1 : Parses (bpParseStat env type j)
        (render env.changeEndianness (s.fields env.host)) s := by
      rw [bpParseStat, if_neg hj]
      exact (parses_parseStat env ht hsraw.writable hs).congr rfl (hsraw.readBy env)
    have h2 := ih fun s hs => hraw s (by simp [hs])
    refine (Parses.bind h1 (Parses.bind_pure h2 rfl)).congr ?_ rfl
    simp

theorem parses_bpParseStatSets {type : Datatype} {bitmap : UInt32}
    {sets : List (List StatData)} (ht : type.IsDefined) (hbitmap : bitmap.toNat < 2 ^ statLength)
    (hcount : sets.length = (getStatSetCount type).toNat)
    (h : ∀ stats ∈ sets, Forall₂ (StatData.Fits type) (statBits bitmap) stats ∧
      ∀ s ∈ stats, s.IsRaw) :
    Parses (bpParseStatSets env type bitmap)
      (render env.changeEndianness
        (sets.flatMap fun stats => stats.flatMap (StatData.fields env.host)))
      (sets.map padStats) := by
  have hloop := Parses.loop_append (fun _ => bpParseStats env type (statBits bitmap))
    (fun stats => render env.changeEndianness (stats.flatMap (StatData.fields env.host)))
    id padStats sets fun pre stats post hsets => by
      have hmem : stats ∈ sets := by simp [hsets]
      exact parses_bpParseStats env ht (h stats hmem).2 (h stats hmem).1
  rw [hcount] at hloop
  rw [render_flatMap]
  exact Parses.bind_nil (Parses.require _ hbitmap) hloop

end Reading

/-! ## Records that both decoders read -/

/-- What the reader needs of a record, besides what every decoder needs: strings that 15 bits
count, and values in variables that are not transformed. The number of sets is counted with an
`int`, for the offsets. -/
structure ReaderReadable (r : Record) : Prop where
  sets : r.sets.length < 2 ^ 31
  strings : r.type = .string → ∀ items ∈ r.sets, ∀ bytes, Item.value bytes ∈ items →
    bytes.length < 2 ^ 15
  scalar : ∀ items ∈ r.sets, ScalarOrArray items
  original : ∀ items ∈ r.sets, ∀ bytes, Item.value bytes ∈ items →
    ∀ first ∈ r.sets.head?, ∀ it ∈ first, it.id ≠ .transformType
  raw : ∀ items ∈ r.sets, ∀ sets, Item.stat sets ∈ items → ∀ stats ∈ sets, ∀ s ∈ stats, s.IsRaw
  dims : ∀ items ∈ r.sets, ∀ it ∈ items, it.Decodable
  varId : ∀ items ∈ r.sets, ∀ it ∈ items, it.id ≠ .varId

theorem transform_decodeSet {items : List Item} (h : ∀ it ∈ items, it.id ≠ .transformType) :
    (decodeSet items).transform = .zero :=
  foldl_apply_transform .zero fun hmem => by
    obtain ⟨it, hit, hid⟩ := mem_map.mp hmem
    exact h it hit hid

section Record

variable (env : ReadEnv) (arith : ValueArith)

theorem parses_bpParseCharacteristics {type : Datatype} {first : Option IndexCharacteristic}
    {c : IndexCharacteristic} {it : Item} (ht : type.IsDefined) (hid : it.id ≠ .varId)
    (hwf : it.Wf type (originalTypeIndex type (first.getD c)) c.bitmap)
    (hvalue : ∀ bytes, it = .value bytes → originalTypeIndex type (first.getD c) = type ∧
      c.stats = none ∧ (type = .string → bytes.length < 2 ^ 15))
    (hraw : ∀ sets, it = .stat sets → ∀ stats ∈ sets, ∀ s ∈ stats, s.IsRaw)
    (hdec : it.Decodable) (hc : it.id = .transformType → c.transform = .zero) :
    Parses (bpParseCharacteristics env arith type first c (some it.id))
      (render env.changeEndianness (it.dataFields env.host type))
      (it.applyReader env arith type c) := by
  cases it with
  | value bytes =>
    obtain ⟨horig, hstats, hlen⟩ := hvalue bytes rfl
    have hread := parses_bpReadDataFromBuffer env ht hwf hlen
    have hadd := addValueStats_eq env arith type bytes (c := { c with value := some bytes }) hstats
    show Parses (bpParseValue env arith (originalTypeIndex type (first.getD c)) c) _ _
    rw [horig]
    refine (Parses.bind hread (y := []) ?_).congr (by simp [Item.dataFields]) rfl
    rw [Option.getD_some, hadd]
    exact Parses.pure _
  | offset n | payloadOffset n =>
    exact Parses.bind_pure ((parses_readU64 env n).congr (by simp [Item.dataFields]) rfl) rfl
  | fileIndex n | timeIndex n | bitmap n =>
    exact Parses.bind_pure ((parses_readU32 env n).congr (by simp [Item.dataFields]) rfl) rfl
  | dimensions d => exact Parses.bind_pure (parses_bpParseDims env hwf) rfl
  | stat sets =>
    obtain ⟨horig, hbitmap, hcount, hfits⟩ := hwf
    exact Parses.bind_pure (parses_bpParseStatSets env horig hbitmap hcount fun stats hstats =>
      ⟨(hfits stats hstats).1, hraw sets rfl stats hstats⟩) rfl
  | transform t =>
    refine Parses.bind_pure ?_ rfl
    rw [hc rfl]
    exact parses_deserializeTransformCharacteristic_self env hwf hdec (Or.inr rfl)
  | varId n => exact absurd rfl hid

theorem parses_parseSet_reader {type : Datatype} {items : List Item}
    {first first' : Option IndexCharacteristic} (ht : type.IsDefined)
    (hfirst : first.map IndexCharacteristic.transform = first'.map IndexCharacteristic.transform)
    (hwf : SetWf type first' items) (hscalar : ScalarOrArray items)
    (hstring : type = .string → ∀ bytes, Item.value bytes ∈ items → bytes.length < 2 ^ 15)
    (horiginal : ∀ bytes, Item.value bytes ∈ items → ∀ f ∈ first', f.transform = .zero)
    (hraw : ∀ sets, Item.stat sets ∈ items → ∀ stats ∈ sets, ∀ s ∈ stats, s.IsRaw)
    (hdec : ∀ it ∈ items, it.Decodable) (hvar : ∀ it ∈ items, it.id ≠ .varId) :
    Parses (parseSet env (bpParseCharacteristics env arith type first))
      (render env.changeEndianness (setFields env.host type items))
      ((decodeSet items).withMadeUp env arith type) := by
  rw [← foldl_applyReader hscalar]
  refine parses_parseSet env
    (Item.applyReader env arith type) hwf.count fun pre it post hitems => ?_
  have hit : it ∈ items := by simp [hitems]
  have hpre : ∀ it' ∈ pre, it' ∈ items ∧ it'.id ≠ it.id := by
    have hnodup := hwf.nodup
    rw [hitems, map_append, map_cons] at hnodup
    obtain ⟨-, -, hne⟩ := nodup_append.mp hnodup
    intro it' hit'
    exact ⟨by simp [hitems, hit'], hne _ (mem_map_of_mem hit') _ (by simp)⟩
  have hview : pre.foldl (Item.applyReader env arith type) .zero =
      (decodeSet pre).withMadeUp env arith type :=
    foldl_applyReader (hitems ▸ hscalar).of_append
  -- a set with an item about arrays has no value, so nothing has been made up
  have harray : ∀ it', it' ∈ items → it'.id = .stat ∨ it'.id = .bitmap →
      pre.foldl (Item.applyReader env arith type) .zero = decodeSet pre := by
    intro it' hit' hid
    refine foldl_applyReader_of_array (fun x hx hxid => ?_) .zero
    obtain ⟨bytes, hbytes⟩ := exists_value_of_id fun h => h x (hpre x hx).1 hxid
    have := hscalar bytes hbytes it' hit'
    rcases hid with h | h
    · exact this.2.1 h
    · exact this.1 h
  have horig : originalTypeIndex type
      (first.getD (pre.foldl (Item.applyReader env arith type) .zero)) =
      originalTypeIndex type (first'.getD (decodeSet pre)) := by
    apply originalTypeIndex_congr
    rw [hview]
    cases first <;> cases first' <;> simp_all
  have hitem := hwf.items
  rw [hitems, ItemsWf.append_iff] at hitem
  replace hitem := hitem.2.1
  rw [show pre.foldl Item.apply .zero = decodeSet pre from rfl, ← horig] at hitem
  refine parses_bpParseCharacteristics env arith ht (hvar it hit) ?_ ?_ ?_ (hdec it hit) ?_
  · cases it with
    | stat sets => rwa [← harray _ hit (Or.inl rfl)] at hitem
    | _ => exact hitem
  · rintro bytes rfl
    refine ⟨?_, ?_, fun hs => hstring hs bytes hit⟩
    · rw [horig]
      have hzero : (first'.getD (decodeSet pre)).transform = .zero := by
        cases hf : first' with
        | none => exact transform_decodeSet fun x hx => (hscalar bytes hit x (hpre x hx).1).2.2
        | some f => exact horiginal bytes hit f hf
      rw [originalTypeIndex, hzero]
      rfl
    · rw [foldl_applyReader_of_array (fun x hx => (hpre x hx).2) .zero]
      exact foldl_apply_stats (fun x hx => (hscalar bytes hit x (hpre x hx).1).2.1) .zero
  · rintro sets rfl
    exact hraw sets hit
  · intro hid
    rw [hview, IndexCharacteristic.transform_withMadeUp]
    exact transform_decodeSet fun x hx hxid => (hpre x hx).2 (hxid.trans hid.symm)

variable (fh : BpFile)

theorem parses_bpParseVar {r : Record} (hversion : 1 < fh.version &&& 0xff) (hwf : r.Wf)
    (h : ReaderReadable r)
    (hstep : ∀ items ∈ r.sets, (decodeSet items).timeIndex = 0 → fh.pgsPerStep ≠ 0) :
    Parses (bpParseVar env arith fh) (render env.changeEndianness (r.fields env.host))
      (r.decode.readerView env arith fh) := by
  have hset : ∀ pre items post, r.sets = pre ++ items :: post →
      Parses (bpParseSet env fh pre.length (bpParseCharacteristics env arith r.type
          ((pre.mapIdx fun j items =>
            (decodeSet items).readerView env arith r.type fh j).head?)))
        (render env.changeEndianness (setFields env.host r.type items))
        ((decodeSet items).readerView env arith r.type fh pre.length) := by
    intro pre items post hsets
    have hmem : items ∈ r.sets := by simp [hsets]
    refine (Parses.bind (y := []) (parses_parseSet_reader env arith hwf.defined ?_
      (hwf.sets pre items post hsets) (h.scalar items hmem)
      (fun hs bytes hit => h.strings hs items hmem bytes hit) ?_ (h.raw items hmem)
      (h.dims items hmem) (h.varId items hmem)) ?_).congr (by simp) rfl
    · cases pre with
      | nil => rfl
      | cons items₀ pre => simp [IndexCharacteristic.readerView]
    · intro bytes hit f hf
      cases pre with
      | nil => cases hf
      | cons items₀ pre =>
        obtain rfl := Option.some.inj hf
        exact transform_decodeSet (h.original items hmem bytes hit items₀ (by simp [hsets]))
    · refine Parses.bind_nil (Parses.require _ ?_) ((Parses.pure _).congr rfl ?_)
      · rw [IndexCharacteristic.timeIndex_withMadeUp]
        exact hstep items hmem
      · simp [IndexCharacteristic.readerView]
  have hloop := Parses.loop_append_idx
    (fun sets => bpParseSet env fh sets.length
      (bpParseCharacteristics env arith r.type sets.head?))
    (fun items => render env.changeEndianness (setFields env.host r.type items))
    (fun j items => (decodeSet items).readerView env arith r.type fh j) r.sets
    fun pre items post hsets => by
      rw [length_mapIdx]
      exact hset pre items post hsets
  have hcount : (UInt64.ofNat r.sets.length).toNat = r.sets.length :=
    UInt64.toNat_ofNat_of_lt' hwf.count
  rw [← hcount] at hloop
  have hid : Parses (bpReadId env fh)
      ((Field.word (env.host.u32 r.id)).render env.changeEndianness) r.id := by
    rw [bpReadId, if_pos hversion]
    exact parses_readU32 env _
  rw [r.render_fields]
  unfold bpParseVar
  refine Parses.bind (parses_readU32 env _) (Parses.bind hid
    (Parses.bind (parses_readLengthString env _ hwf.groupName)
    (Parses.bind (parses_readLengthString env _ hwf.name)
    (Parses.bind (parses_readLengthString env _ hwf.path)
    (Parses.bind (parses_readU8 r.type.code)
    (Parses.bind (parses_readU64 env _) ?_))))))
  rw [Datatype.ofCode_code hwf.defined]
  refine Parses.bind_pure hloop ?_
  have hview : r.sets.mapIdx (fun j items => (decodeSet items).readerView env arith r.type fh j) =
      (r.sets.map decodeSet).mapIdx fun j c => c.readerView env arith r.type fh j := by
    apply ext_getElem <;> simp
  simp only [IndexEntry.readerView, Record.decode, hview]

theorem parses_bpParseVars {rs : List Record} (hversion : 1 < fh.version &&& 0xff)
    (hlen : rs.length < 2 ^ 31) (hwf : ∀ r ∈ rs, r.Wf) (h : ∀ r ∈ rs, ReaderReadable r)
    (hstep : ∀ r ∈ rs, ∀ items ∈ r.sets, (decodeSet items).timeIndex = 0 → fh.pgsPerStep ≠ 0) :
    Parses (bpParseVars env arith fh) (render env.changeEndianness (sectionFields env.host rs))
      (rs.map fun r => r.decode.readerView env arith fh) := by
  have hloop := Parses.loop_append (fun _ => bpParseVar env arith fh)
    (fun r => render env.changeEndianness (Record.fields env.host r))
    (fun r => r.decode.readerView env arith fh) id rs fun pre r post hrs => by
      have hr : r ∈ rs := by simp [hrs]
      exact parses_bpParseVar env arith fh hversion (hwf r hr) (h r hr) (hstep r hr)
  have hcount : (UInt32.ofNat rs.length).toNat = rs.length :=
    UInt32.toNat_ofNat_of_lt' (show rs.length < 2 ^ 32 by omega)
  rw [← hcount] at hloop
  have hid : Parses (bpReadId env fh)
      ((Field.word (env.host.u32 (UInt32.ofNat rs.length))).render env.changeEndianness)
      (UInt32.ofNat rs.length) := by
    rw [bpReadId, if_pos hversion]
    exact parses_readU32 env _
  rw [sectionFields, render_cons, render_cons, render_flatMap]
  refine Parses.remaining fun n hn => Parses.bind_nil (Parses.require _ ?_)
    (Parses.bind hid (Parses.bind (parses_readU64 env _)
    (Parses.bind_nil (Parses.require _ (by rwa [hcount])) ?_)))
  · simp only [length_append, Field.length_render, Field.raw, Endian.length_u32,
      Endian.length_u64] at hn
    omega
  · have hsets : ∀ v ∈ rs.map fun r => r.decode.readerView env arith fh,
        v.characteristics.length < 2 ^ 31 := by
      intro v hv
      obtain ⟨r, hr, rfl⟩ := mem_map.mp hv
      simpa [IndexEntry.readerView, Record.decode] using (h r hr).sets
    have hlast := Parses.bind_nil (f := fun _ => pure (rs.map fun r =>
      r.decode.readerView env arith fh)) (Parses.require Fault.signedOverflow hsets) (Parses.pure _)
    exact (Parses.bind hloop hlast).congr (by simp) rfl

end Record

/-! ## Agreement -/

def DecodersAgree (env : ReadEnv) (arith : ValueArith) (fh : BpFile) (rs : List Record) : Prop :=
  ∀ rest, ∃ vars,
    parseVarsIndexV1 env (render env.changeEndianness (sectionFields env.host rs) ++ rest) =
      .ok (vars, rest) ∧
    bpParseVars env arith fh (render env.changeEndianness (sectionFields env.host rs) ++ rest) =
      .ok (vars, rest)

/-- **The decoders agree**, up to what the reader makes up. -/
theorem decoders_agree_upTo_view (env : ReadEnv) (arith : ValueArith) (fh : BpFile)
    {rs : List Record} (hversion : 1 < fh.version &&& 0xff) (hlen : rs.length < 2 ^ 31)
    (hwf : ∀ r ∈ rs, r.Wf) (h : ∀ r ∈ rs, ReaderReadable r)
    (hcomplex : env.changeEndianness = true → ∀ r ∈ rs, ∀ items ∈ r.sets, ∀ bytes,
      Item.value bytes ∈ items → swapComponents r.type bytes = bytes)
    (hstep : ∀ r ∈ rs, ∀ items ∈ r.sets, (decodeSet items).timeIndex = 0 → fh.pgsPerStep ≠ 0)
    (rest : List UInt8) :
    parseVarsIndexV1 env (render env.changeEndianness (sectionFields env.host rs) ++ rest) =
      .ok (rs.map Record.decode, rest) ∧
    bpParseVars env arith fh (render env.changeEndianness (sectionFields env.host rs) ++ rest) =
      .ok ((rs.map Record.decode).map (IndexEntry.readerView env arith fh), rest) := by
  constructor
  · have hread := parses_parseVarsIndexV1 env rs hlen hwf (fun r hr => (h r hr).varId)
      fun r hr => (h r hr).dims
    rw [map_congr_left fun r hr => Record.decodeV1_eq_decode (h r hr).raw
      fun hswap => hcomplex hswap r hr] at hread
    exact hread rest
  · rw [map_map]
    exact parses_bpParseVars env arith fh hversion hlen hwf h hstep rest

def arrayRecord : Record where
  id := 4
  groupName := CString.empty
  name := ⟨chars "a", by simp [chars]⟩
  path := CString.empty
  type := .real
  sets := [[.timeIndex 1, .dimensions ⟨1, [3, 3, 0]⟩, .bitmap 1, .stat [[.raw [1, 2, 3, 4]]]]]

theorem arrayRecord_wf : arrayRecord.Wf where
  defined := trivial
  groupName := by simp [arrayRecord, CString.empty]
  name := by simp [arrayRecord, chars]
  path := by simp [arrayRecord, CString.empty]
  count := by simp [arrayRecord]
  sets := by
    intro pre items post hsets
    cases pre with
    | cons items₀ pre => simp [arrayRecord] at hsets
    | nil =>
      obtain ⟨rfl, -⟩ := List.cons.inj hsets
      refine ⟨by simp, by simp [Item.id], trivial, rfl, trivial, ⟨trivial, by decide, rfl, ?_⟩,
        trivial⟩
      intro stats hstats
      obtain rfl := mem_singleton.mp hstats
      refine ⟨.cons ⟨by decide, 4, rfl, rfl⟩ .nil, ?_⟩
      simp [StatData.Writable]

theorem arrayRecord_readerReadable : ReaderReadable arrayRecord where
  sets := by simp [arrayRecord]
  strings := by simp [arrayRecord]
  scalar := by simp [arrayRecord, ScalarOrArray]
  original := by simp [arrayRecord, Item.id]
  raw := by simp [arrayRecord, StatData.IsRaw]
  dims := by simp [arrayRecord, Item.Decodable]
  varId := by simp [arrayRecord, Item.id]

def noArith : ValueArith := ⟨fun _ _ _ => [], fun _ _ _ => [], fun _ _ => []⟩

theorem decoders_agree_upTo_view_arrayRecord :
    parseVarsIndexV1 ⟨.little, true, 0⟩ (render true (sectionFields .little [arrayRecord]) ++ []) =
      .ok ([arrayRecord.decode], []) ∧
    bpParseVars ⟨.little, true, 0⟩ noArith ⟨2, 1, 1, 1⟩
        (render true (sectionFields .little [arrayRecord]) ++ []) =
      .ok ([arrayRecord.decode.readerView ⟨.little, true, 0⟩ noArith ⟨2, 1, 1, 1⟩], []) := by
  refine decoders_agree_upTo_view ⟨.little, true, 0⟩ noArith ⟨2, 1, 1, 1⟩ (by decide) (by simp)
    ?_ ?_ ?_ ?_ []
  · intro r hr
    obtain rfl := mem_singleton.mp hr
    exact arrayRecord_wf
  · intro r hr
    obtain rfl := mem_singleton.mp hr
    exact arrayRecord_readerReadable
  · simp [arrayRecord]
  · intro r hr items hitems hzero
    exact by decide

theorem valueRecord_readerReadable {type : Datatype} {bytes : List UInt8}
    (h : type = .string → bytes.length < 2 ^ 15) : ReaderReadable (valueRecord type bytes) where
  sets := by simp [valueRecord]
  strings := by simpa [valueRecord] using h
  scalar := by simp [valueRecord, ScalarOrArray, Item.id]
  original := by simp [valueRecord, Item.id]
  raw := by simp [valueRecord]
  dims := by simp [valueRecord, Item.Decodable]
  varId := by simp [valueRecord, Item.id]

/-- The reader says of a number that it has a minimum, a maximum and three more statistics. -/
theorem not_decodersAgree_double : ¬DecodersAgree ⟨.little, false, 0⟩ noArith ⟨2, 1, 1, 1⟩
    [valueRecord .double [1, 2, 3, 4, 5, 6, 7, 8]] := by
  intro h
  obtain ⟨vars, hwriter, hreader⟩ := h []
  have hwf : ∀ r ∈ [valueRecord .double [1, 2, 3, 4, 5, 6, 7, 8]], r.Wf := by
    intro r hr
    obtain rfl := mem_singleton.mp hr
    exact valueRecord_wf trivial (by unfold ValueFits; decide)
  have hread : ∀ r ∈ [valueRecord .double [1, 2, 3, 4, 5, 6, 7, 8]], ReaderReadable r := by
    intro r hr
    obtain rfl := mem_singleton.mp hr
    exact valueRecord_readerReadable fun hs => by cases hs
  have h1 := parses_parseVarsIndexV1 ⟨.little, false, 0⟩ _ (by simp) hwf
    (fun r hr => (hread r hr).varId) (fun r hr => (hread r hr).dims) []
  have h2 := parses_bpParseVars ⟨.little, false, 0⟩ noArith ⟨2, 1, 1, 1⟩ (by decide) (by simp) hwf
    hread (fun _ _ _ _ _ => by decide) []
  rw [hwriter] at h1
  rw [hreader] at h2
  have hlist := congrArg (fun r : List IndexEntry => r.map fun v =>
    v.characteristics.map IndexCharacteristic.bitmap)
    ((Prod.mk.inj (Except.ok.inj h1)).1.symm.trans (Prod.mk.inj (Except.ok.inj h2)).1)
  have hbits : (0 : UInt32) = valueBitmap := by
    simpa [valueRecord, Record.decodeV1, Record.decode, decodeSetV1, decodeSet, Item.applyV1,
      Item.apply, IndexEntry.readerView, IndexCharacteristic.readerView,
      IndexCharacteristic.withMadeUp, IndexCharacteristic.zero] using hlist
  exact absurd hbits (by decide)

end Adios
