import Adios.Index.Format
import Adios.Index.Parse

/-!
# Adios — what the decoder reads from a well-formed image

`adios_parse_vars_index_v1` on the image of well-formed records, in the byte order of the
machine or byte-reversed: one lemma for each function of the decoder, from single words to the
whole section (`parses_parseVarsIndexV1`). The decoder follows the image as long as it meets no
histogram and no transform whose dimensions its `uint8_t` counter cannot count
(`Item.Decodable`), and what it returns is what the records say, but for the components of
complex values, which it leaves as they are in the file (`Item.applyV1`).
-/

namespace Adios

open List Wire Wire.Parser

/-! ## Words -/

section Words

variable (env : ReadEnv)

theorem parses_readU8 (b : UInt8) : Parses ReadEnv.readU8 [b] b :=
  Parses.bind_pure (Parses.take _ rfl) rfl

theorem parses_readU16 (x : UInt16) :
    Parses env.readU16 ((Field.word (env.host.u16 x)).render env.changeEndianness) x := by
  refine Parses.bind_pure (Parses.take _ (by simp [Field.raw])) ?_
  cases env.changeEndianness with
  | false => simp [Field.render]
  | true => simpa [Field.render] using swap16_toU16_reverse env.host x

theorem parses_readU32 (x : UInt32) :
    Parses env.readU32 ((Field.word (env.host.u32 x)).render env.changeEndianness) x := by
  refine Parses.bind_pure (Parses.take _ (by simp [Field.raw])) ?_
  cases env.changeEndianness with
  | false => simp [Field.render]
  | true => simpa [Field.render] using swap32_toU32_reverse env.host x

theorem parses_readU64 (x : UInt64) :
    Parses env.readU64 ((Field.word (env.host.u64 x)).render env.changeEndianness) x := by
  refine Parses.bind_pure (Parses.take _ (by simp [Field.raw])) ?_
  cases env.changeEndianness with
  | false => simp [Field.render]
  | true => simpa [Field.render] using swap64_toU64_reverse env.host x

theorem u64s_render (xs : List UInt64) :
    (env.host.u64s xs.length (render env.changeEndianness
      (xs.map fun n => .word (env.host.u64 n)))).map
        (fun x => if env.changeEndianness then swap64 x else x) = xs := by
  induction xs with
  | nil => rfl
  | cons x xs ih =>
    have hlen : ((Field.word (env.host.u64 x)).render env.changeEndianness).length = 8 := by
      simp [Field.raw]
    rw [map_cons, render_cons, length_cons, Endian.u64s, take_left' hlen,
      drop_left' hlen, map_cons, ih]
    congr 1
    cases env.changeEndianness with
    | false => simp [Field.render]
    | true => simpa [Field.render] using swap64_toU64_reverse env.host x

theorem length_render_u64s (swap : Bool) (host : Endian) (xs : List UInt64) :
    (render swap (xs.map fun n => Field.word (host.u64 n))).length = 8 * xs.length := by
  rw [length_render]
  induction xs with
  | nil => rfl
  | cons x xs ih =>
    rw [map_cons, imageSize_cons, ih, Field.raw, Endian.length_u64, length_cons]
    omega

theorem parses_readU64Array {len : UInt16} (xs : List UInt64) (h : len.toNat = 8 * xs.length) :
    Parses (env.readU64Array len)
      (render env.changeEndianness (xs.map fun n => .word (env.host.u64 n))) xs := by
  refine Parses.bind_pure (Parses.take _ (by rw [length_render_u64s, h])) ?_
  rw [show len.toNat / 8 = xs.length by omega]
  have hx := u64s_render env xs
  cases hc : env.changeEndianness with
  | false => simpa [hc] using hx
  | true => simpa [hc] using hx

theorem parses_readString (s : CString) {len : UInt16} (h : s.val.length = len.toNat) :
    Parses (ReadEnv.readString len) s.val s :=
  Parses.bind_pure (Parses.take _ h) (CString.ofBuffer_val s)

theorem parses_readLengthString (s : CString) (h : s.val.length < 2 ^ 16) :
    Parses env.readLengthString (render env.changeEndianness (stringFields env.host s)) s := by
  have hlen : s.val.length = (UInt16.ofNat s.val.length).toNat := by
    rw [UInt16.toNat_ofNat_of_lt' h]
  exact ((parses_readU16 env _).bind (parses_readString s hlen)).congr
    (by simp [stringFields, Field.render]) rfl

end Words

/-! ## Values -/

/-- A value with the bytes of each component reversed: what a complex value of the other byte
order looks like to the decoder. -/
def swapComponents (type : Datatype) (bytes : List UInt8) : List UInt8 :=
  match type with
  | .complex => (bytes.take 4).reverse ++ (bytes.drop 4).reverse
  | .doubleComplex => (bytes.take 8).reverse ++ (bytes.drop 8).reverse
  | _ => bytes

theorem render_valueFields_of_word {host : Endian} {type : Datatype} (swap : Bool)
    (bytes : List UInt8) (hs : type ≠ .string) (hc : type ≠ .complex)
    (hd : type ≠ .doubleComplex) :
    render swap (valueFields host type bytes) = if swap then bytes.reverse else bytes := by
  cases type <;> first | contradiction | simp [valueFields, Field.render]

theorem render_valueFields_of_complex (host : Endian) {type : Datatype} (swap : Bool)
    (bytes : List UInt8) (h : type = .complex ∨ type = .doubleComplex) :
    render swap (valueFields host type bytes) =
      if swap then swapComponents type bytes else bytes := by
  rcases h with rfl | rfl <;> cases swap <;> simp [valueFields, Field.render, swapComponents]

theorem length_render_valueFields {host : Endian} {type : Datatype} (swap : Bool)
    {bytes : List UInt8} (hs : type ≠ .string) :
    (render swap (valueFields host type bytes)).length = bytes.length := by
  rw [length_render]
  cases type <;> first | contradiction | simp [valueFields, Field.raw]
  all_goals omega

theorem parses_parseValue (env : ReadEnv) {type : Datatype} {bytes : List UInt8}
    (ht : type.IsDefined) (h : ValueFits type bytes) :
    Parses (parseValue env type) (render env.changeEndianness (valueFields env.host type bytes))
      (some (if env.changeEndianness then swapComponents type bytes else bytes)) := by
  by_cases hs : type = .string
  · subst hs
    have hlt : bytes.length < 2 ^ 16 := by simpa [ValueFits] using h
    have hread := parses_readU16 env (UInt16.ofNat bytes.length)
    have htake : Parses (take Fault.outOfBounds (UInt16.ofNat bytes.length).toNat) bytes bytes :=
      Parses.take _ (by rw [UInt16.toNat_ofNat_of_lt' hlt])
    refine (Parses.bind (p := readDataSize env .string) hread
      (Parses.bind_pure htake rfl)).congr ?_ ?_
    · simp [valueFields, Field.render]
    · simp [swapComponents]
  · have hnum : type.IsNumeric := ⟨ht, hs⟩
    have hwidth := getTypeSize_mem hnum (some [])
    have hlen : bytes.length = (getTypeSize type (some [])).toNat := by
      rw [getTypeSize_eq hs _ none]
      simpa [ValueFits, hs] using h
    have hsize : (getTypeSize type (some [])).toUInt16.toNat = bytes.length := by
      rw [UInt64.toNat_toUInt16, ← hlen]
      apply Nat.mod_eq_of_lt
      rw [← hlen] at hwidth
      simp only [mem_cons, not_mem_nil, or_false] at hwidth
      omega
    have htake : Parses (take Fault.outOfBounds (getTypeSize type (some [])).toUInt16.toNat)
        (render env.changeEndianness (valueFields env.host type bytes)) _ :=
      Parses.take _ (by rw [length_render_valueFields _ hs, hsize])
    have hvalue : (if env.changeEndianness ∧ type ≠ .complex ∧ type ≠ .doubleComplex then
          swapPtr env.host (render env.changeEndianness (valueFields env.host type bytes))
            ((getTypeSize type (some [])).toUInt16.toNat * 8)
        else render env.changeEndianness (valueFields env.host type bytes)) =
        if env.changeEndianness then swapComponents type bytes else bytes := by
      by_cases hc : type = .complex ∨ type = .doubleComplex
      · rw [if_neg (by rcases hc with h | h <;> simp [h]), render_valueFields_of_complex _ _ _ hc]
      · have hc1 : type ≠ .complex := fun h => hc (Or.inl h)
        have hc2 : type ≠ .doubleComplex := fun h => hc (Or.inr h)
        have hcomp : swapComponents type bytes = bytes := by
          cases type <;> first | contradiction | rfl
        rw [render_valueFields_of_word _ _ hs hc1 hc2, hsize, hcomp]
        cases env.changeEndianness with
        | false => simp
        | true =>
          have hrev : bytes.reverse.length ∈ [0, 1, 2, 4, 8, 16] := by
            rw [length_reverse, hlen]
            exact mem_cons_of_mem _ hwidth
          have := swapPtr_eq_reverse env.host hrev
          rw [length_reverse, reverse_reverse] at this
          simpa [hc1, hc2] using this
    unfold parseValue readDataSize
    rw [if_neg hs]
    refine Parses.bind_nil (Parses.pure _) ?_
    cases type <;> first
      | contradiction
      | exact Parses.bind_pure htake (congrArg some hvalue)

/-! ## Statistics -/

def StatData.readBy (env : ReadEnv) : StatData → StatData
  | .raw bytes => .raw bytes
  | .hist h => .hist { h with min := env.histMin }

def StatData.IsRaw : StatData → Prop
  | .raw _ => True
  | .hist _ => False

theorem StatData.IsRaw.readBy {s : StatData} (h : s.IsRaw) (env : ReadEnv) : s.readBy env = s := by
  cases s with
  | raw bytes => rfl
  | hist h' => exact absurd h id

theorem StatData.IsRaw.writable {s : StatData} (h : s.IsRaw) : s.Writable := by
  cases s with
  | raw bytes => trivial
  | hist h' => exact absurd h id

theorem u32s_render (env : ReadEnv) (xs : List UInt32) :
    (env.host.u32s xs.length (render env.changeEndianness
      (xs.map fun n => .word (env.host.u32 n)))).map
        (fun x => if env.changeEndianness then swap32 x else x) = xs := by
  induction xs with
  | nil => rfl
  | cons x xs ih =>
    have hlen : ((Field.word (env.host.u32 x)).render env.changeEndianness).length = 4 := by
      simp [Field.raw]
    rw [map_cons, render_cons, length_cons, Endian.u32s, take_left' hlen,
      drop_left' hlen, map_cons, ih]
    congr 1
    cases env.changeEndianness with
    | false => simp [Field.render]
    | true => simpa [Field.render] using swap32_toU32_reverse env.host x

theorem length_render_u32s (swap : Bool) (host : Endian) (xs : List UInt32) :
    (render swap (xs.map fun n => Field.word (host.u32 n))).length = 4 * xs.length := by
  rw [length_render]
  induction xs with
  | nil => rfl
  | cons x xs ih =>
    rw [map_cons, imageSize_cons, ih, Field.raw, Endian.length_u32, length_cons]
    omega

theorem parses_parseHist (env : ReadEnv) {h : Hist}
    (hfreq : h.frequencies.length = h.numBreaks.toNat + 1)
    (hbreaks : h.breaks.length = h.numBreaks.toNat) (hsmall : h.numBreaks.toNat < 2 ^ 29) :
    Parses (parseHist env)
      (render env.changeEndianness ((StatData.hist h).fields env.host))
      ((StatData.hist h).readBy env) := by
  have hsucc : (h.numBreaks + 1).toNat = h.numBreaks.toNat + 1 := by
    rw [UInt32.toNat_add, show (1 : UInt32).toNat = 1 from rfl]
    omega
  have h1 : (4 * (h.numBreaks + 1)).toNat = (h.numBreaks + 1).toNat * 4 := by
    rw [UInt32.toNat_mul, hsucc, show (4 : UInt32).toNat = 4 from rfl]
    omega
  have h2 : (8 * h.numBreaks).toNat = h.numBreaks.toNat * 8 := by
    rw [UInt32.toNat_mul, show (8 : UInt32).toNat = 8 from rfl]
    omega
  have hnonzero : ¬(env.changeEndianness = true ∧ h.numBreaks + 1 = 0) := by
    rintro ⟨-, hz⟩
    rw [hz] at hsucc
    exact absurd hsucc (by simp)
  have hf := u32s_render env h.frequencies
  have hb := u64s_render env h.breaks
  rw [hfreq, ← hsucc] at hf
  rw [hbreaks] at hb
  have himage : render env.changeEndianness ((StatData.hist h).fields env.host) =
      (Field.word (env.host.u32 h.numBreaks)).render env.changeEndianness ++
      ((Field.word (env.host.u64 h.min)).render env.changeEndianness ++
      ((Field.word (env.host.u64 h.max)).render env.changeEndianness ++
      (render env.changeEndianness (h.frequencies.map fun n => .word (env.host.u32 n)) ++
      (render env.changeEndianness (h.breaks.map fun n => .word (env.host.u64 n)) ++ [])))) := by
    simp [StatData.fields]
  rw [himage]
  unfold parseHist
  refine Parses.bind (parses_readU32 env _) (Parses.bind (Parses.take _ (by simp [Field.raw]))
    (Parses.bind (parses_readU64 env h.max) (Parses.bind_nil (Parses.require _ hnonzero)
    (Parses.peek_skip (by rw [length_render_u32s, hfreq, hsucc, Nat.mul_comm]) h1
    (Parses.peek_skip (by rw [length_render_u64s, hbreaks, Nat.mul_comm]) h2 ?_)))))
  refine (Parses.pure _).congr rfl ?_
  simp only [StatData.readBy]
  congr 2
  · cases hc : env.changeEndianness <;> simpa [hc] using hf
  · cases hc : env.changeEndianness <;> simpa [hc] using hb

theorem parses_parseStat (env : ReadEnv) {type : Datatype} {j : Nat} {stat : StatData}
    (ht : type.IsDefined) (hsmall : stat.Writable) (h : stat.Fits type j) :
    Parses (parseStat env type j) (render env.changeEndianness (stat.fields env.host))
      (stat.readBy env) := by
  unfold parseStat
  cases stat with
  | hist hist =>
    obtain ⟨hj, hfreq, hbreaks⟩ := h
    rw [if_pos hj]
    exact parses_parseHist env hfreq hbreaks hsmall
  | raw bytes =>
    obtain ⟨hj, size, hsize, hlen⟩ := h
    have hstat : Statistic.ofBit j ≠ some .hist := by
      intro heq
      unfold Statistic.ofBit at heq
      split at heq <;> first | exact hj rfl | cases heq
    have hmem := getStatSize_mem ht hstat hsize
    have h16 : size.toUInt16.toNat = bytes.length := by
      rw [UInt64.toNat_toUInt16, hlen]
      apply Nat.mod_eq_of_lt
      simp only [mem_cons, not_mem_nil, or_false] at hmem
      omega
    rw [if_neg hj, hsize]
    refine Parses.bind_pure (Parses.take _ ?_) ?_
    · rw [h16, length_render]
      simp [StatData.fields, Field.raw]
    · simp only [StatData.fields, render_cons, render_nil, append_nil, Field.render,
        StatData.readBy]
      congr 1
      cases env.changeEndianness with
      | false => rfl
      | true =>
        have hrev : bytes.reverse.length ∈ [0, 1, 2, 4, 8, 16] := by
          rw [length_reverse, hlen]
          exact hmem
        have := swapPtr_eq_reverse env.host hrev
        rw [length_reverse, reverse_reverse] at this
        simpa [h16] using this

theorem parses_parseStats (env : ReadEnv) {type : Datatype} {bits : List Nat}
    {stats : List StatData} (ht : type.IsDefined) (hsmall : ∀ s ∈ stats, s.Writable)
    (h : Forall₂ (StatData.Fits type) bits stats) :
    Parses (parseStats env type bits)
      (render env.changeEndianness (stats.flatMap (StatData.fields env.host)))
      (stats.map (StatData.readBy env)) := by
  induction h with
  | nil => exact Parses.pure []
  | @cons j s bits stats hs _ ih =>
    have h1 := parses_parseStat env ht (hsmall s (by simp)) hs
    have h2 := ih fun s hs => hsmall s (by simp [hs])
    refine (Parses.bind h1 (Parses.bind_pure h2 rfl)).congr ?_ rfl
    simp

theorem parses_parseStatSets (env : ReadEnv) {type : Datatype} {bitmap : UInt32}
    {sets : List (List StatData)} (ht : type.IsDefined) (hbitmap : bitmap.toNat < 2 ^ statLength)
    (hcount : sets.length = (getStatSetCount type).toNat)
    (h : ∀ stats ∈ sets, Forall₂ (StatData.Fits type) (statBits bitmap) stats ∧
      ∀ s ∈ stats, s.Writable) :
    Parses (parseStatSets env type bitmap)
      (render env.changeEndianness
        (sets.flatMap fun stats => stats.flatMap (StatData.fields env.host)))
      (sets.map fun stats => padStats (stats.map (StatData.readBy env))) := by
  have hloop := Parses.loop_append (fun _ => parseStats env type (statBits bitmap))
    (fun stats => render env.changeEndianness (stats.flatMap (StatData.fields env.host)))
    (fun stats => stats.map (StatData.readBy env)) padStats sets fun pre stats post hsets => by
      have hmem : stats ∈ sets := by simp [hsets]
      exact parses_parseStats env ht (h stats hmem).2 (h stats hmem).1
  rw [hcount] at hloop
  rw [render_flatMap]
  exact Parses.bind_nil (Parses.require _ hbitmap) hloop

/-! ## The transform characteristic -/

theorem parses_parseDims (env : ReadEnv) {d : Dims} (h : d.Wf) :
    Parses (parseDims env) (render env.changeEndianness (d.fields env.host)) d := by
  have hlen : (UInt16.ofNat (8 * d.dims.length)).toNat = 8 * d.dims.length := by
    have := d.count.toNat_lt
    exact UInt16.toNat_ofNat_of_lt' (show _ < 2 ^ 16 by rw [h]; omega)
  refine (Parses.bind (parses_readU8 d.count) (Parses.bind (parses_readU16 env _)
    (Parses.bind_pure (parses_readU64Array env _ hlen) rfl))).congr ?_ rfl
  simp [Dims.fields, Field.render]

/-- **The transform characteristic**, when its counter can count the dimensions. The length of
metadata that is not there is what `prior` has. -/
theorem parses_deserializeTransformCharacteristic (env : ReadEnv) {t : Transform} (h : t.Wf)
    (hcount : t.preTransformDimensions.count.toNat ≤ 85) (prior : Transform) :
    Parses (deserializeTransformCharacteristic env prior)
      (render env.changeEndianness (t.fields env.host))
      { t with transformMetadataLen :=
          if t.transformMetadataLen ≠ 0 then t.transformMetadataLen
          else prior.transformMetadataLen } := by
  obtain ⟨uid, huid, hlt, -⟩ := transformPluginUid_of_known h.known
  have hdims := h.dims
  unfold Dims.Wf at hdims
  have hlen : (UInt16.ofNat (8 * t.preTransformDimensions.dims.length)).toNat =
      3 * 8 * t.preTransformDimensions.count.toNat := by
    rw [UInt16.toNat_ofNat_of_lt' (show _ < 2 ^ 16 by rw [hdims]; omega), hdims]
    omega
  have hresult : ∀ n, (Transform.mk (transformFindTypeByUid uid)
      (Datatype.ofCode t.preTransformType.code)
      ⟨t.preTransformDimensions.count, t.preTransformDimensions.dims⟩ n t.transformMetadata) =
      { t with transformMetadataLen := n } := by
    intro n
    rw [transformFindTypeByUid_uid huid, Datatype.ofCode_code h.defined]
  unfold deserializeTransformCharacteristic
  refine (Parses.bind (parses_readU8 (UInt8.ofNat uid.length))
    (Parses.bind (Parses.take _ (by rw [UInt8.toNat_ofNat_of_lt' hlt]))
    (Parses.bind (parses_readU8 t.preTransformType.code)
    (Parses.bind (parses_readU8 t.preTransformDimensions.count)
    (Parses.bind (parses_readU16 env _)
    (Parses.bind_nil (Parses.require _ hlen)
    (Parses.bind_nil (Parses.require _ (by omega))
    (Parses.bind (parses_readU64Array env t.preTransformDimensions.dims
      (by rw [hlen, hdims]; omega))
    (Parses.bind (parses_readU16 env t.transformMetadataLen)
    (Parses.bind_pure (Parses.take _ h.metadata) (hresult _))))))))))).congr ?_ rfl
  simp [Transform.fields, Dims.fields, Field.render, huid]

theorem parses_deserializeTransformCharacteristic_self (env : ReadEnv) {t prior : Transform}
    (h : t.Wf) (hcount : t.preTransformDimensions.count.toNat ≤ 85)
    (hmeta : t.transformMetadataLen ≠ 0 ∨ prior.transformMetadataLen = 0) :
    Parses (deserializeTransformCharacteristic env prior)
      (render env.changeEndianness (t.fields env.host)) t := by
  refine (parses_deserializeTransformCharacteristic env h hcount prior).congr rfl ?_
  by_cases hm : t.transformMetadataLen = 0
  · rw [if_neg (by simpa using hm), hmeta.resolve_left (fun hne => hne hm), ← hm]
  · rw [if_pos hm]

namespace Item

/-- The decoder follows an item: for a transform characteristic, its `uint8_t` counter reaches
three times the number of dimensions. -/
def Decodable : Item → Prop
  | .transform t => t.preTransformDimensions.count.toNat ≤ 85
  | _ => True

def applyV1 (env : ReadEnv) (type : Datatype) (c : IndexCharacteristic) :
    Item → IndexCharacteristic
  | .value bytes =>
    { c with value := some (if env.changeEndianness then swapComponents type bytes else bytes) }
  | .stat sets =>
    { c with stats := some (sets.map fun stats => padStats (stats.map (StatData.readBy env))) }
  | it => it.apply c

end Item

variable {first : Option IndexCharacteristic} {items : List Item} {r : Record}

theorem parses_parseVarItem (env : ReadEnv) {type : Datatype} {c : IndexCharacteristic} {it : Item}
    (ht : type.IsDefined) (hid : it.id ≠ .varId)
    (hwf : it.Wf type (originalTypeIndex type (first.getD c)) c.bitmap) (hdec : it.Decodable)
    (hc : it.id = .transformType → c.transform = .zero) :
    Parses (parseVarItem env type first c (some it.id))
      (render env.changeEndianness (it.dataFields env.host type)) (it.applyV1 env type c) := by
  cases it with
  | value bytes => exact Parses.bind_pure (parses_parseValue env ht hwf) rfl
  | offset n | payloadOffset n =>
    exact Parses.bind_pure ((parses_readU64 env n).congr (by simp [Item.dataFields]) rfl) rfl
  | fileIndex n | timeIndex n | bitmap n =>
    exact Parses.bind_pure ((parses_readU32 env n).congr (by simp [Item.dataFields]) rfl) rfl
  | dimensions d => exact Parses.bind_pure (parses_parseDims env hwf) rfl
  | stat sets =>
    obtain ⟨horig, hbitmap, hcount, hfits⟩ := hwf
    exact Parses.bind_pure (parses_parseStatSets env horig hbitmap hcount hfits) rfl
  | transform t =>
    refine Parses.bind_pure ?_ rfl
    rw [hc rfl]
    exact parses_deserializeTransformCharacteristic_self env hwf hdec (Or.inr rfl)
  | varId n => exact absurd rfl hid

/-! ## Characteristics sets -/

section Fold

variable {type : Datatype}

def decodeSetV1 (env : ReadEnv) (type : Datatype) (items : List Item) : IndexCharacteristic :=
  items.foldl (Item.applyV1 env type) .zero

theorem foldl_applyV1_agree (env : ReadEnv) (items : List Item) {c c' : IndexCharacteristic}
    (hb : c.bitmap = c'.bitmap) (ht : c.transform = c'.transform) :
    (items.foldl (Item.applyV1 env type) c).bitmap = (items.foldl Item.apply c').bitmap ∧
      (items.foldl (Item.applyV1 env type) c).transform =
        (items.foldl Item.apply c').transform := by
  induction items generalizing c c' with
  | nil => exact ⟨hb, ht⟩
  | cons it items ih =>
    rw [foldl_cons, foldl_cons]
    apply ih
    · cases it <;> first | exact hb | rfl
    · cases it <;> first | exact ht | rfl

theorem decodeSetV1_bitmap (env : ReadEnv) (type : Datatype) (items : List Item) :
    (decodeSetV1 env type items).bitmap = (decodeSet items).bitmap :=
  (foldl_applyV1_agree env items rfl rfl).1

theorem decodeSetV1_transform (env : ReadEnv) (items : List Item) :
    (decodeSetV1 env type items).transform = (decodeSet items).transform :=
  (foldl_applyV1_agree env items rfl rfl).2

theorem decodeSetV1_eq_decodeSet {env : ReadEnv} {items : List Item}
    (h : ∀ it ∈ items, ∀ c, it.applyV1 env type c = it.apply c) :
    decodeSetV1 env type items = decodeSet items := by
  unfold decodeSetV1 decodeSet
  generalize IndexCharacteristic.zero = c
  induction items generalizing c with
  | nil => rfl
  | cons it items ih =>
    rw [foldl_cons, foldl_cons, h it (by simp)]
    exact ih (fun it hit => h it (by simp [hit])) _

theorem foldl_apply_transform {items : List Item} (c : IndexCharacteristic)
    (h : CharacteristicId.transformType ∉ items.map Item.id) :
    (items.foldl Item.apply c).transform = c.transform := by
  induction items generalizing c with
  | nil => rfl
  | cons it items ih =>
    simp only [map_cons, mem_cons, not_or] at h
    rw [foldl_cons, ih _ h.2]
    cases it <;> first | rfl | exact absurd rfl h.1

theorem originalTypeIndex_congr {c c' : IndexCharacteristic} (h : c.transform = c'.transform) :
    originalTypeIndex type c = originalTypeIndex type c' := by
  rw [originalTypeIndex, originalTypeIndex, h]

end Fold

/-- **A characteristics set**, of an entry whose items `parseItem` reads; `upd` is what it makes
of each. -/
theorem parses_parseSet (env : ReadEnv) {type : Datatype}
    (upd : IndexCharacteristic → Item → IndexCharacteristic)
    {parseItem : IndexCharacteristic → Option CharacteristicId → Parser Fault IndexCharacteristic}
    (hlen : items.length < 2 ^ 8) (hitem : ∀ pre it post, items = pre ++ it :: post → Parses
      (parseItem (pre.foldl upd .zero) (some it.id)) (render env.changeEndianness (it.dataFields
      env.host type)) (upd (pre.foldl upd .zero) it)) :
    Parses (parseSet env parseItem) (render env.changeEndianness (setFields env.host type items))
      (items.foldl upd .zero) := by
  have hloop := Parses.loop
    (fun c => do
      let flag ← ReadEnv.readU8
      parseItem c (CharacteristicId.ofFlag flag))
    (fun it => render env.changeEndianness (Item.fields env.host type it))
    upd items .zero fun pre it post hitems => by
      have hread := hitem pre it post hitems
      rw [← CharacteristicId.ofFlag_flag it.id] at hread
      exact (Parses.bind (parses_readU8 it.id.flag) hread).congr
        (by simp [Item.fields, Field.render]) rfl
  have hcount : (UInt8.ofNat items.length).toNat = items.length := UInt8.toNat_ofNat_of_lt' hlen
  rw [← hcount] at hloop
  rw [setFields, render_cons, render_cons, render_flatMap]
  exact Parses.bind (parses_readU8 _) (Parses.bind (parses_readU32 env _) hloop)

theorem parses_parseVarItem_at (env : ReadEnv) {type : Datatype} {pre post : List Item} {it : Item}
    {first' : Option IndexCharacteristic} (ht : type.IsDefined)
    (hfirst : first.map IndexCharacteristic.transform = first'.map IndexCharacteristic.transform)
    (hwf : SetWf type first' items) (hitems : items = pre ++ it :: post) (hvar : it.id ≠ .varId)
    (hdec : it.Decodable) :
    Parses (parseVarItem env type first (decodeSetV1 env type pre) (some it.id))
      (render env.changeEndianness (it.dataFields env.host type))
      (it.applyV1 env type (decodeSetV1 env type pre)) := by
  have hnodup : it.id ∉ pre.map Item.id := by
    have := hwf.nodup
    rw [hitems, map_append, map_cons] at this
    obtain ⟨-, -, hne⟩ := nodup_append.mp this
    exact fun hin => hne _ hin _ (by simp) rfl
  have horig : originalTypeIndex type (first.getD (decodeSetV1 env type pre)) =
      originalTypeIndex type (first'.getD (decodeSet pre)) := by
    apply originalTypeIndex_congr
    cases first <;> cases first' <;> simp_all [decodeSetV1_transform]
  have hitem := hwf.items
  rw [hitems, ItemsWf.append_iff] at hitem
  replace hitem := hitem.2.1
  rw [show pre.foldl Item.apply .zero = decodeSet pre from rfl, ← horig,
    ← decodeSetV1_bitmap env type] at hitem
  refine parses_parseVarItem env ht hvar hitem hdec fun htr => ?_
  rw [decodeSetV1_transform, decodeSet, foldl_apply_transform _ (htr ▸ hnodup)]
  rfl

theorem parses_parseSet_var (env : ReadEnv) {type : Datatype} {first' : Option IndexCharacteristic}
    (ht : type.IsDefined)
    (hfirst : first.map IndexCharacteristic.transform = first'.map IndexCharacteristic.transform)
    (hwf : SetWf type first' items) (hvar : ∀ it ∈ items, it.id ≠ .varId)
    (hdec : ∀ it ∈ items, it.Decodable) :
    Parses (parseSet env (parseVarItem env type first))
      (render env.changeEndianness (setFields env.host type items))
      (decodeSetV1 env type items) :=
  parses_parseSet env (Item.applyV1 env type) hwf.count fun _ it _ hitems =>
    parses_parseVarItem_at env ht hfirst hwf hitems (hvar it (by simp [hitems]))
      (hdec it (by simp [hitems]))

/-! ## Entries and sections -/

namespace Record

def decodeV1 (env : ReadEnv) (r : Record) : IndexEntry :=
  { id := r.id, groupName := r.groupName, name := r.name, path := r.path, type := r.type
    characteristics := r.sets.map (decodeSetV1 env r.type) }

end Record

theorem Record.decodeV1_eq_decode {env : ReadEnv}
    (hraw : ∀ items ∈ r.sets, ∀ sets, Item.stat sets ∈ items → ∀ stats ∈ sets, ∀ s ∈ stats, s.IsRaw)
      (hcomplex : env.changeEndianness = true → ∀ items ∈ r.sets, ∀ bytes, Item.value bytes ∈ items
      → swapComponents r.type bytes = bytes) :
    r.decodeV1 env = r.decode := by
  unfold Record.decodeV1 Record.decode
  congr 1
  refine map_congr_left fun items hitems => decodeSetV1_eq_decodeSet fun it hit c => ?_
  cases it with
  | value bytes =>
    cases hc : env.changeEndianness with
    | false => simp [Item.applyV1, Item.apply, hc]
    | true => simp [Item.applyV1, Item.apply, hcomplex hc items hitems bytes hit]
  | stat sets =>
    simp only [Item.applyV1, Item.apply]
    congr 2
    refine map_congr_left fun stats hstats => ?_
    rw [map_congr_left fun s hs => (hraw items hitems sets hit stats hstats s hs).readBy env,
      map_id']
  | _ => rfl

theorem Record.render_fields (r : Record) (host : Endian) (swap : Bool) :
    render swap (r.fields host) =
      (Field.word (host.u32 (UInt32.ofNat (imageSize (r.bodyFields host))))).render swap ++
        ((Field.word (host.u32 r.id)).render swap ++
        (render swap (stringFields host r.groupName) ++
        (render swap (stringFields host r.name) ++
        (render swap (stringFields host r.path) ++
        ([r.type.code] ++
        ((Field.word (host.u64 (UInt64.ofNat r.sets.length))).render swap ++
        r.sets.flatMap fun items => render swap (setFields host r.type items))))))) := by
  simp [Record.fields, Record.bodyFields, render_flatMap, Field.render]

/-- **An entry**, whose sets `parseItem` reads. -/
theorem parses_parseEntry (env : ReadEnv) {parseItem : Datatype → Option IndexCharacteristic →
      IndexCharacteristic → Option CharacteristicId → Parser Fault IndexCharacteristic} (hwf : r.Wf)
      (hset : ∀ pre items post, r.sets = pre ++ items :: post → Parses (parseSet env (parseItem
      r.type (pre.map (decodeSetV1 env r.type)).head?)) (render env.changeEndianness (setFields
      env.host r.type items)) (decodeSetV1 env r.type items)) :
    Parses (parseEntry env parseItem) (render env.changeEndianness (r.fields env.host))
      (r.decodeV1 env) := by
  have hloop := Parses.loop_append
    (fun sets => parseSet env (parseItem r.type sets.head?))
    (fun items => render env.changeEndianness (setFields env.host r.type items))
    (decodeSetV1 env r.type) id r.sets hset
  have hcount : (UInt64.ofNat r.sets.length).toNat = r.sets.length :=
    UInt64.toNat_ofNat_of_lt' hwf.count
  rw [← hcount] at hloop
  rw [r.render_fields]
  refine Parses.bind (parses_readU32 env _) (Parses.bind (parses_readU32 env r.id)
    (Parses.bind (parses_readLengthString env _ hwf.groupName)
    (Parses.bind (parses_readLengthString env _ hwf.name)
    (Parses.bind (parses_readLengthString env _ hwf.path)
    (Parses.bind (parses_readU8 r.type.code)
    (Parses.bind (parses_readU64 env _) ?_))))))
  rw [Datatype.ofCode_code hwf.defined]
  exact Parses.bind_pure hloop rfl

theorem parses_parseEntry_var (env : ReadEnv) (hwf : r.Wf)
    (hvar : ∀ items ∈ r.sets, ∀ it ∈ items, it.id ≠ .varId)
    (hdec : ∀ items ∈ r.sets, ∀ it ∈ items, it.Decodable) :
    Parses (parseEntry env (parseVarItem env)) (render env.changeEndianness (r.fields env.host))
      (r.decodeV1 env) := by
  refine parses_parseEntry env hwf ?_
  intro pre items post hsets
  have hmem : items ∈ r.sets := by simp [hsets]
  refine parses_parseSet_var env hwf.defined ?_ (hwf.sets pre items post hsets)
    (hvar items hmem) (hdec items hmem)
  cases pre with
  | nil => rfl
  | cons items₀ pre => simp [decodeSetV1_transform]

theorem parses_parseEntries (env : ReadEnv) {rs : List Record}
    {parseItem : Datatype → Option IndexCharacteristic → IndexCharacteristic →
      Option CharacteristicId → Parser Fault IndexCharacteristic} (hlen : rs.length < 2 ^ 31)
    (hentry : ∀ r ∈ rs, Parses (parseEntry env parseItem)
      (render env.changeEndianness (r.fields env.host)) (r.decodeV1 env)) :
    Parses (parseEntries env parseItem)
      (render env.changeEndianness (sectionFields env.host rs))
      (rs.map (Record.decodeV1 env)) := by
  have hloop := Parses.loop_append (fun _ => parseEntry env parseItem)
    (fun r => render env.changeEndianness (Record.fields env.host r))
    (Record.decodeV1 env) id rs fun pre r post hrs => hentry r (by simp [hrs])
  have hcount : (UInt32.ofNat rs.length).toNat = rs.length :=
    UInt32.toNat_ofNat_of_lt' (show rs.length < 2 ^ 32 by omega)
  rw [← hcount] at hloop
  rw [sectionFields, render_cons, render_cons, render_flatMap]
  refine Parses.remaining fun n hn => Parses.bind_nil (Parses.require _ ?_)
    (Parses.bind (parses_readU32 env _) (Parses.bind (parses_readU64 env _)
    (Parses.bind_nil (Parses.require _ (by rwa [hcount])) hloop)))
  simp only [length_append, Field.length_render, Field.raw, Endian.length_u32,
    Endian.length_u64] at hn
  omega

theorem parses_parseVarsIndexV1 (env : ReadEnv) (rs : List Record) (hlen : rs.length < 2 ^ 31)
    (hwf : ∀ r ∈ rs, r.Wf) (hvar : ∀ r ∈ rs, ∀ items ∈ r.sets, ∀ it ∈ items, it.id ≠ .varId)
    (hdec : ∀ r ∈ rs, ∀ items ∈ r.sets, ∀ it ∈ items, it.Decodable) :
    Parses (parseVarsIndexV1 env) (render env.changeEndianness (sectionFields env.host rs))
      (rs.map (Record.decodeV1 env)) := by
  exact parses_parseEntries env hlen fun r hr =>
    parses_parseEntry_var env (hwf r hr) (hvar r hr) (hdec r hr)

end Adios
