import Adios.Index.Footer
import Adios.Index.RoundTrip
import Adios.Index.Sort
import Adios.Read.Decoders
import Adios.Read.MiniFooter
import Adios.Read.PgTable
import Adios.Read.VarSteps

/-!
# Adios — opening what was written

`bp_open` of `core/bp_utils.c` on a file that `adios_write_index_v1` has ended: the footer is found
from the last 28 bytes, and the process groups, the variables and the attributes are parsed one
behind the other. A variable of the reader has the sets of the writer's, block by block in the
steps that the scans over their times find.
-/

namespace Adios

open List Lists Wire Wire.Parser UInt64 VarSteps

/-! ## Opening -/

/-- The first loop of `bp_parse_pgs`. -/
def bpParsePgsRoot (env : ReadEnv) : Parser Fault (List IndexProcessGroup) := do
  let pgsCount ← env.readU64
  let _pgsLength ← env.readU64
  loop pgsCount.toNat (fun root => do
    let pg ← parseGroup env
    return root ++ [pg]) []

/-- The `switch` of `bp_parse_attrs`. -/
def bpParseAttrItem (env : ReadEnv) (fh : BpFile) (type : Datatype) (c : IndexCharacteristic) :
    Option CharacteristicId → Parser Fault IndexCharacteristic
  | some .value => do
    let value ← bpReadDataFromBuffer env type
    return { c with value := value }
  | some .offset => do
    let offset ← env.readU64
    return { c with offset := offset }
  | some .payloadOffset => do
    let payloadOffset ← env.readU64
    return { c with payloadOffset := payloadOffset }
  | some .fileIndex => do
    let fileIndex ← env.readU32
    return { c with fileIndex := fileIndex }
  | some .timeIndex => do
    let timeIndex ← env.readU32
    return { c with timeIndex := timeIndex }
  | some .varId => do
    let varId ← bpReadId env fh
    return { c with varId := varId }
  | _ => return c

def bpParseAttr (env : ReadEnv) (fh : BpFile) : Parser Fault IndexEntry := do
  let _attrEntryLength ← env.readU32
  let id ← bpReadId env fh
  let groupName ← env.readLengthString
  let name ← env.readLengthString
  let path ← env.readLengthString
  let flag ← ReadEnv.readU8
  -- `type_size == -1`
  let type := match Datatype.ofCode flag with
    | .other _ => .unknown
    | type => type
  let characteristicsSetsCount ← env.readU64
  let characteristics ← loop characteristicsSetsCount.toNat (fun sets => do
    let c ← bpParseSet env fh sets.length (bpParseAttrItem env fh type)
    return sets ++ [c]) []
  return { id, groupName, name, path, type, characteristics }

/-- `bp_parse_attrs`: the list `fh->attrs_root`. An `int` counts as in `bp_parse_vars`. -/
def bpParseAttrs (env : ReadEnv) (fh : BpFile) : Parser Fault (List IndexEntry) := do
  let unread ← remaining
  require .invalidBuffer (10 ≤ unread)
  let attrsCount ← bpReadId env fh
  let _attrsLength ← env.readU64
  require .signedOverflow (attrsCount.toNat < 2 ^ 31)
  let attrs ← loop attrsCount.toNat (fun root => do
    let entry ← bpParseAttr env fh
    return root ++ [entry]) []
  require .signedOverflow (∀ a ∈ attrs, a.characteristics.length < 2 ^ 31)
  return attrs

/-- `bp_open` does not look at what a parser returns that finds less than 10 bytes. -/
def ignoreReturn (p : Parser Fault (List IndexEntry)) : Parser Fault (List IndexEntry) := fun s =>
  match p s with
  | .error .invalidBuffer => .ok ([], s)
  | r => r

/-- What `bp_open` leaves in `struct BP_FILE`. -/
structure BpOpened where
  groups : PgTable
  pgsRoot : List IndexProcessGroup
  varsRoot : List IndexEntry
  attrsRoot : List IndexEntry

def PgTable.bpFile (groups : PgTable) (version : UInt32) (pgsRoot : List IndexProcessGroup) :
    BpFile where
  version := version
  pgsCount := UInt64.ofNat pgsRoot.length
  tidxStart := groups.tidxStart
  tidxStop := groups.tidxStop

/-- "Everyone parses the index on its own" -/
def bpParseIndex (env : ReadEnv) (arith : ValueArith) (garbage : TimeTable) (version : UInt32) :
    Parser Fault BpOpened := do
  let pgsRoot ← bpParsePgsRoot env
  let groups ← bpParsePgs garbage pgsRoot
  let fh := groups.bpFile version pgsRoot
  let varsRoot ← ignoreReturn (bpParseVars env arith fh)
  let attrsRoot ← ignoreReturn (bpParseAttrs env fh)
  return { groups, pgsRoot, varsRoot, attrsRoot }

inductive OpenError where
  | footer (e : FooterError)
  | fault (e : Fault)

theorem length_miniFooter {file : List UInt8} (h : 28 ≤ file.length) :
    (miniFooter file).length = 28 := by
  rw [miniFooter, length_drop]
  omega

def trailingBytes (file : List UInt8) (h : 28 ≤ file.length) : TrailingBytes where
  buff := miniFooter file
  length := length_miniFooter h

/-- `bp_open` -/
def bpOpen (host : Endian) (junk : UInt64) (arith : ValueArith) (garbage : TimeTable)
    (file : List UInt8) (h : 28 ≤ file.length) : Except OpenError (Minifooter × BpOpened) :=
  match bpReadMinifooter host (UInt64.ofNat file.length) (trailingBytes file h) with
  | .error e => .error (.footer e)
  | .ok m =>
    match bpParseIndex ⟨host, m.changeEndianness, junk⟩ arith garbage m.version
        (readAt file m.offsets.pgIndexOffset m.footerSize) with
    | .error e => .error (.fault e)
    | .ok (opened, _) => .ok (m, opened)

/-! ## Parsing what was written -/

section

variable (env : ReadEnv) (fh : BpFile)

theorem parses_bpParsePgsRoot {pgs : List IndexProcessGroup} (hwf : ∀ pg ∈ pgs, pg.Wf)
    (hlen : pgs.length < 2 ^ 64) :
    Parses (bpParsePgsRoot env) (render env.changeEndianness (groupsFields env.host pgs))
      (pgs.map IndexProcessGroup.serialised) := fun rest => by
  -- the other decoder only looks first whether there are 16 bytes
  have hread := parses_parseProcessGroupIndexV1 env hwf hlen rest
  rw [parseProcessGroupIndexV1, bind_apply, remaining] at hread
  dsimp only at hread
  rw [bind_apply, require] at hread
  split_ifs at hread with hlength
  · exact hread
  · cases hread

theorem parses_ignoreReturn {p : Parser Fault (List IndexEntry)} {x : List UInt8}
    {es : List IndexEntry} (h : Parses p x es) : Parses (ignoreReturn p) x es := fun rest => by
  rw [ignoreReturn, h rest]

variable {fh} (hversion : 1 < fh.version &&& 0xff)

include hversion

theorem parses_bpReadId (id : UInt32) :
    Parses (bpReadId env fh) ((Field.word (env.host.u32 id)).render env.changeEndianness) id := by
  rw [bpReadId, if_pos hversion]
  exact parses_readU32 env _

theorem parses_bpParseAttrItem {type : Datatype} {c c' : IndexCharacteristic} {it : Item}
    (ht : type.IsDefined) (hit : it ∈ attrItems c) (hvalue : ∀ v ∈ c.value, ValueFits type v)
    (hstring : type = .string → ∀ v ∈ c.value, v.length < 2 ^ 15) :
    Parses (bpParseAttrItem env fh type c' (some it.id))
      (render env.changeEndianness (it.dataFields env.host type)) (it.apply c') := by
  rcases mem_attrItems hit with hit | ⟨v, hv, rfl⟩ | rfl
  · simp only [commonItems, mem_cons, not_mem_nil, or_false] at hit
    rcases hit with rfl | rfl | rfl | rfl
    · exact Parses.bind_pure ((parses_readU64 env _).congr (by simp [Item.dataFields]) rfl) rfl
    · exact Parses.bind_pure ((parses_readU64 env _).congr (by simp [Item.dataFields]) rfl) rfl
    · exact Parses.bind_pure ((parses_readU32 env _).congr (by simp [Item.dataFields]) rfl) rfl
    · exact Parses.bind_pure ((parses_readU32 env _).congr (by simp [Item.dataFields]) rfl) rfl
  · exact Parses.bind_pure
      (parses_bpReadDataFromBuffer env ht (hvalue v hv) fun hs => hstring hs v hv) rfl
  · exact Parses.bind_pure
      ((parses_bpReadId env hversion _).congr (by simp [Item.dataFields]) rfl) rfl

/-- **An attribute.** -/
theorem parses_bpParseAttr {a : IndexEntry} (hwf : a.AttrWf)
    (hsets : a.characteristics.length < 2 ^ 31)
    (hstring : a.type = .string → ∀ c ∈ a.characteristics, ∀ v ∈ c.value, v.length < 2 ^ 15)
    (htimes : ∀ c ∈ a.characteristics, c.timeIndex ≠ 0) :
    Parses (bpParseAttr env fh) (render env.changeEndianness (a.attrRecord.fields env.host))
      a.attrSerialised := by
  have hset : ∀ c ∈ a.characteristics, ∀ j,
      Parses (bpParseSet env fh j (bpParseAttrItem env fh a.type))
        (render env.changeEndianness (setFields env.host a.type (attrItems c)))
        c.attrSerialised := by
    intro c hc j
    have hvalue : ∀ v ∈ c.value, ValueFits a.type v := fun v hv => (hwf.value c hc v hv).fits
      fun hs => Nat.lt_trans (hstring hs c hc v hv) (by decide)
    have hparse := parses_parseSet env Item.apply
      (setWf_attrItems none hvalue).count fun pre it post hitems =>
        parses_bpParseAttrItem env hversion hwf.defined (by simp [hitems]) hvalue
          fun hs => hstring hs c hc
    rw [show (attrItems c).foldl Item.apply .zero = _ from decodeSet_attrItems c] at hparse
    have htime : c.attrSerialised.timeIndex ≠ 0 := htimes c hc
    refine (Parses.bind (y := []) hparse ?_).congr (by simp) rfl
    refine Parses.bind_nil (Parses.require _ fun hzero => absurd hzero htime)
      ((Parses.pure _).congr rfl ?_)
    rw [BpFile.timeIndex, if_neg htime]
  have hloop := Parses.loop_append
    (fun sets => bpParseSet env fh sets.length (bpParseAttrItem env fh a.type))
    (fun c => render env.changeEndianness (setFields env.host a.type (attrItems c)))
    IndexCharacteristic.attrSerialised id a.characteristics
    fun pre c post hcs => hset c (by simp [hcs]) _
  have hcount : (UInt64.ofNat a.characteristics.length).toNat = a.characteristics.length :=
    UInt64.toNat_ofNat_of_lt' (show _ < 2 ^ 64 by omega)
  rw [← hcount] at hloop
  have htype : ∀ t : Datatype, t.IsDefined →
      (match t with | .other _ => Datatype.unknown | type => type) = t := fun t ht => by
    cases t with
    | unknown | other c => exact absurd ht id
    | _ => rfl
  rw [Record.render_fields]
  unfold bpParseAttr
  refine Parses.bind (parses_readU32 env _) (Parses.bind (parses_bpReadId env hversion _)
    (Parses.bind (parses_readLengthString env _ hwf.groupName)
    (Parses.bind (parses_readLengthString env _ hwf.name)
    (Parses.bind (parses_readLengthString env _ hwf.path)
    (Parses.bind (parses_readU8 _) (Parses.bind (parses_readU64 env _) ?_))))))
  have hcode : Datatype.ofCode a.attrRecord.type.code = a.type := Datatype.ofCode_code hwf.defined
  rw [hcode, htype a.type hwf.defined]
  rw [show a.attrRecord.sets.length = a.characteristics.length from length_map _,
    show a.attrRecord.sets = a.characteristics.map attrItems from rfl, flatMap_map]
  exact Parses.bind_pure hloop rfl

/-- **The attributes.** -/
theorem parses_bpParseAttrs {attrs : List IndexEntry} (hlen : attrs.length < 2 ^ 31)
    (hwf : ∀ a ∈ attrs, a.AttrWf) (hsets : ∀ a ∈ attrs, a.characteristics.length < 2 ^ 31)
    (hstring : ∀ a ∈ attrs, a.type = .string → ∀ c ∈ a.characteristics, ∀ v ∈ c.value,
      v.length < 2 ^ 15) (htimes : ∀ a ∈ attrs, ∀ c ∈ a.characteristics, c.timeIndex ≠ 0) :
    Parses (bpParseAttrs env fh)
      (render env.changeEndianness (sectionFields env.host (attrs.map IndexEntry.attrRecord)))
      (attrs.map IndexEntry.attrSerialised) := by
  have hloop := Parses.loop_append (fun _ => bpParseAttr env fh)
    (fun a => render env.changeEndianness (a.attrRecord.fields env.host))
    IndexEntry.attrSerialised id attrs fun pre a post has => by
      have ha : a ∈ attrs := by simp [has]
      exact parses_bpParseAttr env hversion (hwf a ha) (hsets a ha) (hstring a ha) (htimes a ha)
  have hcount : (UInt32.ofNat attrs.length).toNat = attrs.length :=
    UInt32.toNat_ofNat_of_lt' (show attrs.length < 2 ^ 32 by omega)
  rw [← hcount] at hloop
  rw [sectionFields, render_cons, render_cons, render_flatMap, length_map]
  refine Parses.remaining fun n hn => Parses.bind_nil (Parses.require _ ?_)
    (Parses.bind (parses_bpReadId env hversion _) (Parses.bind (parses_readU64 env _)
    (Parses.bind_nil (Parses.require _ (by rwa [hcount])) ?_)))
  · simp only [length_append, Field.length_render, Field.raw, Endian.length_u32,
      Endian.length_u64] at hn
    omega
  · have hsets' : ∀ a ∈ attrs.map IndexEntry.attrSerialised, a.characteristics.length < 2 ^ 31 := by
      intro a ha
      obtain ⟨b, hb, rfl⟩ := mem_map.mp ha
      simpa [IndexEntry.attrSerialised] using hsets b hb
    have hlast := Parses.bind_nil (f := fun _ => pure (attrs.map IndexEntry.attrSerialised))
      (Parses.require Fault.signedOverflow hsets') (Parses.pure _)
    exact (Parses.bind hloop hlast).congr (by simp [flatMap_map]) rfl

end

/-! ## The variables -/

section

variable {type orig : Datatype} {c : IndexCharacteristic}

theorem mem_varItems {it : Item} (h : it ∈ varItems type orig c) :
    it ∈ commonItems c ∨ (type = .string ∧ it = .value (c.value.getD [])) ∨
      (type ≠ .string ∧ ∃ v ∈ c.value, it = .value v) ∨
      (type ≠ .string ∧ c.dims.count ≠ 0 ∧ it ∈ arrayItems orig c) := by
  rcases mem_append.mp h with h | h
  · exact .inl h
  · unfold varOwnItems at h
    by_cases hs : type = .string
    · rw [if_pos hs] at h
      exact .inr (.inl ⟨hs, mem_singleton.mp h⟩)
    · rw [if_neg hs] at h
      rcases mem_append.mp h with h | h
      · by_cases hd : c.dims.count = 0
        · rw [if_pos hd] at h
          cases h
        · rw [if_neg hd] at h
          exact .inr (.inr (.inr ⟨hs, hd, h⟩))
      · obtain ⟨v, hv, hit⟩ : ∃ v, c.value = some v ∧ Item.value v = it := by simpa using h
        exact .inr (.inr (.inl ⟨hs, v, hv, hit.symm⟩))

theorem id_of_mem_commonItems {it : Item} (h : it ∈ commonItems c) :
    it.id ≠ .value ∧ it.id ≠ .bitmap ∧ it.id ≠ .stat ∧ it.id ≠ .transformType := by
  simp only [commonItems, mem_cons, not_mem_nil, or_false] at h
  rcases h with rfl | rfl | rfl | rfl <;> simp [Item.id]

theorem value_of_mem_varItems {bytes : List UInt8} (h : Item.value bytes ∈ varItems type orig c) :
    (type = .string ∧ bytes = c.value.getD []) ∨ (type ≠ .string ∧ c.value = some bytes) := by
  rcases mem_varItems h with h | ⟨hs, hit⟩ | ⟨hs, v, hv, hit⟩ | ⟨-, -, h⟩
  · exact absurd rfl (id_of_mem_commonItems h).1
  · exact .inl ⟨hs, Item.value.inj hit⟩
  · exact .inr ⟨hs, Item.value.inj hit ▸ hv⟩
  · rw [arrayItems] at h
    split_ifs at h <;> simp at h

theorem id_of_scalar (hscalar : type = .string ∨ c.dims.count = 0) {it : Item}
    (h : it ∈ varItems type orig c) : it.id ≠ .bitmap ∧ it.id ≠ .stat ∧ it.id ≠ .transformType := by
  rcases mem_varItems h with h | ⟨-, rfl⟩ | ⟨-, v, -, rfl⟩ | ⟨hs, hd, -⟩
  · exact (id_of_mem_commonItems h).2
  · simp [Item.id]
  · simp [Item.id]
  · rcases hscalar with h | h
    · exact absurd h hs
    · exact absurd h hd

/-- **The record of a variable** whose values stand in sets without dimensions. -/
theorem readerReadable_varRecord {v : IndexEntry} (hwf : v.Wf)
    (hsets : v.characteristics.length < 2 ^ 31)
    (hstring : v.type = .string → ∀ c ∈ v.characteristics, ∀ s ∈ c.value, s.length < 2 ^ 15)
    (hscalar : ∀ c ∈ v.characteristics, c.value.isSome → ∀ d ∈ v.characteristics, d.dims.count = 0)
    (hhist : ∀ c ∈ v.characteristics, v.type ≠ .string → c.dims.count ≠ 0 →
      c.bitmap.toNat.testBit Statistic.hist.bit = false)
    (hdims : ∀ c ∈ v.characteristics, c.transform.transformType ≠ .none →
      c.transform.preTransformDimensions.count.toNat ≤ 85) : ReaderReadable v.varRecord := by
  have hplain : ∀ c ∈ v.characteristics, ∀ it ∈ varItems v.type v.originalType c,
      it.id ≠ .varId ∧ it.Decodable := fun c hc it hit => by
    have h := @varItems_plain _ _ _ (hwf.characteristics c hc) (hhist c hc) (hdims c hc)
      ⟨.little, false, 0⟩ rfl it hit
    exact ⟨h.1, h.2.1⟩
  have hvalue : ∀ c ∈ v.characteristics, ∀ bytes,
      Item.value bytes ∈ varItems v.type v.originalType c →
      ∀ d ∈ v.characteristics, v.type = .string ∨ d.dims.count = 0 := fun c hc bytes hit d hd => by
    rcases value_of_mem_varItems hit with ⟨hs, -⟩ | ⟨-, hv⟩
    · exact .inl hs
    · exact .inr (hscalar c hc (by rw [hv]; rfl) d hd)
  constructor
  · rw [IndexEntry.varRecord, IndexEntry.record, length_map]
    exact hsets
  · intro hs items hitems bytes hit
    obtain ⟨c, hc, rfl⟩ := mem_map.mp hitems
    rcases value_of_mem_varItems hit with ⟨-, rfl⟩ | ⟨hne, -⟩
    · cases hv : c.value with
      | none => exact Nat.two_pow_pos 15
      | some s => exact hstring hs c hc s hv
    · exact absurd hs hne
  · intro items hitems bytes hit it hmem
    obtain ⟨c, hc, rfl⟩ := mem_map.mp hitems
    exact id_of_scalar (hvalue c hc bytes hit c hc) hmem
  · intro items hitems bytes hit first hfirst it hmem
    obtain ⟨c, hc, rfl⟩ := mem_map.mp hitems
    obtain ⟨d, hd, rfl⟩ := mem_map.mp (mem_of_mem_head? hfirst)
    exact (id_of_scalar (hvalue c hc bytes hit d hd) hmem).2.2
  · intro items hitems sets hit
    obtain ⟨c, hc, rfl⟩ := mem_map.mp hitems
    rcases mem_varItems hit with h | ⟨-, h⟩ | ⟨-, s, -, h⟩ | ⟨hs, hd, h⟩
    · exact absurd rfl (id_of_mem_commonItems h).2.2.1
    · cases h
    · cases h
    · obtain rfl : sets = c.statSets v.originalType := by
        rw [arrayItems] at h
        split_ifs at h <;> simpa using h
      exact isRaw_statSets (hwf.characteristics c hc) hs hd (hhist c hc hs hd)
  · intro items hitems it hit
    obtain ⟨c, hc, rfl⟩ := mem_map.mp hitems
    exact (hplain c hc it hit).2
  · intro items hitems it hit
    obtain ⟨c, hc, rfl⟩ := mem_map.mp hitems
    exact (hplain c hc it hit).1

end

/-! ## The steps -/

/-- Where the data of a set is. -/
def place (c : IndexCharacteristic) : UInt64 × UInt64 × UInt32 :=
  (c.offset, c.payloadOffset, c.fileIndex)

def setsAt (v : IndexEntry) (t : UInt32) : List IndexCharacteristic :=
  v.characteristics.filter (·.timeIndex = t)

/-- The reader's variable `v'` has a step for each time of the writer's `v`, whose blocks are the
sets that `v` has at this time. -/
structure StepsShown (v v' : IndexEntry) (ts : List UInt32) : Prop where
  agree (mallocZero : Bool) (hzero : mallocZero = true ∨ v'.characteristics ≠ []) :
    Agree mallocZero v' ts (ts.map fun t => (setsAt v t).length)
  times (t : UInt32) : t ∈ ts ↔ t ∈ times v
  blocks {t : UInt32} (ht : t ∈ ts) : (((v'.characteristics.drop
      (getVarStartIndex v' t.toNat).toNat).take (setsAt v t).length).map place).Perm
    ((setsAt v t).map place)

theorem filter_map_pair {α β κ : Type} [DecidableEq κ] (f : α → κ) (g : α → β) (t : κ)
    (xs : List α) : (xs.filter (f · = t)).map g =
      ((xs.map fun x => (f x, g x)).filter (·.1 = t)).map Prod.snd := by
  rw [filter_map, map_map]
  rfl

theorem stepsShown {v v' : IndexEntry} (hkeys : (v'.characteristics.map fun c =>
      (c.timeIndex, place c)).Perm (v.characteristics.map fun c => (c.timeIndex, place c)))
    (hsorted : (times v').Pairwise fun t u => t.toNat ≤ u.toNat)
    (hnonzero : ∀ t ∈ times v', t ≠ 0) (hearly : ∀ t ∈ times v', t.toNat < 2147483648)
    (hcount : v'.characteristics.length < 2147483648) : ∃ ts, StepsShown v v' ts := by
  obtain ⟨bs, htimes, h⟩ := exists_expand (fun _ _ => UInt32.toNat_inj.mp) hsorted
  have hsets (t : UInt32) : ((setsAt v' t).map place).Perm ((setsAt v t).map place) := by
    rw [setsAt, setsAt, filter_map_pair _ place t v'.characteristics,
      filter_map_pair _ place t v.characteristics]
    exact (hkeys.filter _).map _
  have hlength (t : UInt32) : (setsAt v t).length = (setsAt v' t).length := by
    simpa using (hsets t).length_eq.symm
  -- the times are sorted, so the sets of one time are a range
  have hblock {k : Nat} {b : UInt32 × Nat} (hb : bs[k]? = some b) :
      setsAt v' b.1 = (v'.characteristics.drop (total (bs.take k))).take b.2 ∧
        (setsAt v b.1).length = b.2 := by
    have hfilter : setsAt v' b.1 = _ := filter_eq_take_drop h htimes hb
    have htotal : total bs = v'.characteristics.length := by
      rw [← length_times, htimes, length_expand]
    have hsplit := congrArg total (take_append_drop (k + 1) bs)
    rw [total_append, total_take_succ hb] at hsplit
    refine ⟨hfilter, ?_⟩
    rw [hlength, hfilter, length_take, length_drop]
    omega
  have hcounts : bs.map Prod.snd = (bs.map Prod.fst).map fun t => (setsAt v t).length := by
    rw [map_map]
    refine map_congr_left fun b hb => ?_
    obtain ⟨k, hk⟩ := getElem?_of_mem hb
    exact (hblock hk).2.symm
  refine ⟨bs.map Prod.fst, fun mallocZero hzero => ?_, fun t => ?_, fun {t} ht => ?_⟩
  · rw [← hcounts]
    exact agree_of_blocks h htimes hnonzero hcount hearly hzero
  · -- both variables have the same times, in another order
    rw [mem_map_fst_iff h, ← htimes]
    have hperm := hkeys.map Prod.fst
    rw [map_map, map_map] at hperm
    exact hperm.mem_iff
  · obtain ⟨b, hb, rfl⟩ := mem_map.mp ht
    obtain ⟨k, hk⟩ := getElem?_of_mem hb
    obtain ⟨hfilter, hlen⟩ := hblock hk
    rw [(range_of_getElem? h htimes hk).1, Int.toNat_natCast, hlen, ← hfilter]
    exact hsets b.1

/-! ## The file -/

section

variable (env : ReadEnv) (arith : ValueArith) (fh : BpFile)

theorem map_place_readerView {v : IndexEntry} (htimes : ∀ c ∈ v.characteristics, c.timeIndex ≠ 0) :
    ((v.serialised.readerView env arith fh).characteristics.map fun c => (c.timeIndex, place c)) =
      v.characteristics.map fun c => (c.timeIndex, place c) := by
  have hview (j : Nat) {c : IndexCharacteristic} (hc : c.timeIndex ≠ 0) (type orig : Datatype) :
      ((c.serialised type orig).readerView env arith type fh j).timeIndex = c.timeIndex ∧
        place ((c.serialised type orig).readerView env arith type fh j) = place c := by
    have hserialised : (c.serialised type orig).timeIndex = c.timeIndex ∧
        place (c.serialised type orig) = place c := by
      unfold IndexCharacteristic.serialised
      dsimp only
      split_ifs <;> exact ⟨rfl, rfl⟩
    have hmadeUp (c : IndexCharacteristic) : place (c.withMadeUp env arith type) = place c := by
      unfold IndexCharacteristic.withMadeUp
      split <;> rfl
    refine ⟨?_, (hmadeUp _).trans hserialised.2⟩
    rw [IndexCharacteristic.readerView, hserialised.1, BpFile.timeIndex, if_neg hc]
  refine ext_getElem (by simp [IndexEntry.readerView, IndexEntry.serialised]) fun j hj hj' => ?_
  have h := hview j (htimes _ (getElem_mem (by simpa using hj'))) v.type v.originalType
  simp only [IndexEntry.readerView, IndexEntry.serialised, getElem_map, getElem_mapIdx]
  exact Prod.ext h.1 h.2

end

theorem groupIds_serialised (names : List CString) (pgs : List IndexProcessGroup) :
    groupIds names (pgs.map IndexProcessGroup.serialised) = groupIds names pgs := by
  induction pgs generalizing names with
  | nil => rfl
  | cons pg pgs ih =>
    rw [map_cons, groupIds, groupIds]
    simp only [ih]
    rfl

theorem bpReadMinifooter_written {host : Endian} {t : TrailingBytes}
    {fileSize groups vars attrs : UInt64} (ht : t.buff = host.u64 groups ++ (host.u64 vars ++
      (host.u64 attrs ++ Endian.big.u32 (versionWord host)))) (hvars : groups ≤ vars)
    (hattrs : vars ≤ attrs) (hsize : attrs ≤ fileSize) :
    bpReadMinifooter host fileSize t = .ok
      { version := 0x202, changeEndianness := false
        offsets := ⟨groups, groups, vars - groups, vars, attrs - vars, attrs, fileSize - 28 - attrs⟩
        footerSize := fileSize - groups } := by
  have hparsed : t.parsedVersion host = (0x202, false) := by
    have hdrop : t.buff.drop 24 = Endian.big.u32 (versionWord host) := by
      rw [ht, ← append_assoc, ← append_assoc]
      exact drop_left' (by simp)
    rw [TrailingBytes.parsedVersion, hdrop, t.length, parseVersion_versionWord]
  have hread (offset : Nat) (x : UInt64) (hx : (t.buff.drop offset).take 8 = host.u64 x) :
      t.bufRead64 host offset = x := by
    rw [TrailingBytes.bufRead64, hparsed, hx]
    exact host.toU64_u64 x
  have hgroups : t.pgIndexOffset host = groups := hread 0 _ (by rw [ht]; exact take_left' (by simp))
  have hvarsRead : t.varsIndexOffset host = vars := hread 8 _ (by
    rw [ht, drop_left' (by simp)]
    exact take_left' (by simp))
  have hattrsRead : t.attrsIndexOffset host = attrs := hread 16 _ (by
    rw [ht, ← append_assoc, drop_left' (by simp)]
    exact take_left' (by simp))
  have hversion : ¬(0x202 : UInt32) &&& 0x000000ff > 2 := by decide
  have hle := UInt64.le_trans hattrs hsize
  unfold bpReadMinifooter
  rw [hparsed, hgroups, hvarsRead, hattrsRead]
  dsimp only
  rw [if_neg hversion, if_neg (UInt64.not_lt.mpr (UInt64.le_trans hvars hle)),
    if_neg (UInt64.not_lt.mpr hle), if_neg (UInt64.not_lt.mpr hvars),
    if_neg (UInt64.not_lt.mpr hsize), if_neg (UInt64.not_lt.mpr hattrs)]

theorem Regular.serialised {pgs : List IndexProcessGroup} {first last : IndexProcessGroup}
    (h : Regular pgs first last) :
    Regular (pgs.map IndexProcessGroup.serialised) first.serialised last.serialised := by
  have hnames : groupNames (pgs.map IndexProcessGroup.serialised) = groupNames pgs :=
    congrArg Prod.fst (groupIds_serialised [] pgs)
  have hkeys : (pgs.map IndexProcessGroup.serialised).map pgKey = pgs.map pgKey := map_map
  refine ⟨by rw [head?_map, h.head]; rfl, by rw [getLast?_map, h.getLast]; rfl, ?_, h.span, ?_⟩
  · rw [hnames]
    exact h.groups
  · rw [hnames, hkeys]
    exact h.blocks

/-- An index that `bp_open` reads when it is written: its process groups form a table, 15 bits count
the characters of a string, only sets without dimensions have values, and an `int` holds the
times. -/
structure Openable (host : Endian) (ix : Index) : Prop where
  groups : ∀ pg ∈ ix.pgRoot, pg.Wf
  regular : ∃ first last, Regular ix.pgRoot first last
  wf : ∀ v ∈ ix.varsRoot, v.Wf
  vars : VarsIndexReadable host ix.varsRoot
  attrWf : ∀ a ∈ ix.attrsRoot, a.AttrWf
  attrCount : ix.attrsRoot.length < 2 ^ 31
  strings : ∀ e ∈ ix.varsRoot ++ ix.attrsRoot, e.type = .string → ∀ c ∈ e.characteristics,
    ∀ s ∈ c.value, s.length < 2 ^ 15
  scalar : ∀ v ∈ ix.varsRoot, ∀ c ∈ v.characteristics, c.value.isSome →
    ∀ d ∈ v.characteristics, d.dims.count = 0
  times : ∀ e ∈ ix.varsRoot ++ ix.attrsRoot, ∀ c ∈ e.characteristics,
    c.timeIndex ≠ 0 ∧ c.timeIndex.toNat < 2147483648

section

variable {env : ReadEnv} {ix : Index} (h : Openable env.host ix)

include h

theorem Openable.parses_vars (arith : ValueArith) {fh : BpFile}
    (hversion : 1 < fh.version &&& 0xff) :
    Parses (bpParseVars env arith fh)
      (render env.changeEndianness (sectionFields env.host (ix.varsRoot.map IndexEntry.varRecord)))
      (ix.varsRoot.map fun v => v.serialised.readerView env arith fh) := by
  have hlen : (ix.varsRoot.map IndexEntry.varRecord).length < 2 ^ 31 := by
    simpa using h.vars.count
  have hread := parses_bpParseVars env arith fh hversion hlen
    (fun r hr => by
      obtain ⟨v, hv, rfl⟩ := mem_map.mp hr
      exact wf_varRecord (h.wf v hv) (h.vars.sets v hv) (h.vars.writable h.wf v hv)
        fun hs c hc s hmem =>
          Nat.lt_trans (h.strings v (mem_append_left _ hv) hs c hc s hmem) (by decide))
    (fun r hr => by
      obtain ⟨v, hv, rfl⟩ := mem_map.mp hr
      exact readerReadable_varRecord (h.wf v hv) (h.vars.sets v hv)
        (h.strings v (mem_append_left _ hv)) (h.scalar v hv) (h.vars.hist v hv) (h.vars.dims v hv))
    (fun r hr items hitems hzero => by
      obtain ⟨v, hv, rfl⟩ := mem_map.mp hr
      obtain ⟨c, hc, rfl⟩ := mem_map.mp hitems
      rw [decodeSet_varItems] at hzero
      have htime : (c.serialised v.type v.originalType).timeIndex = c.timeIndex := by
        unfold IndexCharacteristic.serialised
        dsimp only
        split_ifs <;> rfl
      exact absurd (htime.symm.trans hzero) (h.times v (mem_append_left _ hv) c hc).1)
  rw [map_map] at hread
  refine hread.congr rfl (map_congr_left fun v _ => ?_)
  rw [Function.comp_apply, decode_varRecord]

/-- What `bp_open` has made of the sections of the index `ix`. -/
structure BpOpened.Parsed (o : BpOpened) (env : ReadEnv) (arith : ValueArith) (ix : Index) :
    Prop where
  pgs : o.pgsRoot = ix.pgRoot.map IndexProcessGroup.serialised
  groups : o.groups.Right o.pgsRoot
  vars : o.varsRoot = ix.varsRoot.map fun v =>
    v.serialised.readerView env arith (o.groups.bpFile 0x202 o.pgsRoot)
  attrs : o.attrsRoot = ix.attrsRoot.map IndexEntry.attrSerialised

/-- **The sections** behind one another. -/
theorem Openable.parses_index (hcount : ix.pgRoot.length < 2 ^ 64)
    (hsets : ∀ a ∈ ix.attrsRoot, a.characteristics.length < 2 ^ 31)
    (hsorted : ix.pgRoot.Pairwise fun p q => p.timeIndex ≤ q.timeIndex) (arith : ValueArith)
    (garbage : TimeTable) : ∃ opened : BpOpened,
      Parses (bpParseIndex env arith garbage 0x202)
        (render env.changeEndianness (groupsFields env.host ix.pgRoot) ++
          (render env.changeEndianness
            (sectionFields env.host (ix.varsRoot.map IndexEntry.varRecord)) ++
          render env.changeEndianness
            (sectionFields env.host (ix.attrsRoot.map IndexEntry.attrRecord)))) opened ∧
      opened.Parsed env arith ix := by
  obtain ⟨first, last, hregular⟩ := h.regular
  obtain ⟨groups, hgroups, hright⟩ := tabulated_of_regular
    (l := ⟨ix.pgRoot.map IndexProcessGroup.serialised, pairwise_map.mpr hsorted⟩)
    hregular.serialised garbage
  -- the table is made of the list that has just been parsed, without a look at the bytes
  have hlift : Parses (StateT.lift (bpParsePgs garbage
      (ix.pgRoot.map IndexProcessGroup.serialised))) [] groups := fun rest => by
    rw [hgroups]
    rfl
  have hversion : (1 : UInt32) < 0x202 &&& 0xff := by decide
  exact ⟨⟨groups, _, _, _⟩, Parses.bind (parses_bpParsePgsRoot env h.groups hcount)
    (Parses.bind_nil hlift (Parses.bind (parses_ignoreReturn (h.parses_vars arith hversion))
    (Parses.bind_pure (parses_ignoreReturn (parses_bpParseAttrs env hversion h.attrCount h.attrWf
      hsets (fun a ha => h.strings a (mem_append_right _ ha))
      fun a ha c hc => (h.times a (mem_append_right _ ha) c hc).1)) rfl))), rfl, hright, rfl, rfl⟩

end

/-! ## The reader and the writer -/

/-- What the reader has of the index `ix` of a writer: its process groups in order, and its
variables with their sets in steps. -/
structure BpOpened.Right (o : BpOpened) (ix : Index) : Prop where
  pgs : o.pgsRoot.Perm (ix.pgRoot.map IndexProcessGroup.serialised)
  ascending : o.pgsRoot.Pairwise fun p q => p.timeIndex ≤ q.timeIndex
  steps : Forall₂ (fun v v' => ∃ ts, StepsShown v v' ts) ix.varsRoot o.varsRoot

/-- The variable `w` that is written has the sets of `v`, in the order of their times. -/
theorem stepsShown_readerView {env : ReadEnv} {arith : ValueArith} {fh : BpFile} {v w : IndexEntry}
    (hkeys : (w.characteristics.map fun c => (c.timeIndex, place c)).Perm
      (v.characteristics.map fun c => (c.timeIndex, place c)))
    (hascending : (times w).Pairwise fun t u => t.toNat ≤ u.toNat)
    (hsets : w.characteristics.length < 2 ^ 31)
    (htimes : ∀ c ∈ w.characteristics, c.timeIndex ≠ 0 ∧ c.timeIndex.toNat < 2147483648) :
    ∃ ts, StepsShown v (w.serialised.readerView env arith fh) ts := by
  have hview := map_place_readerView env arith fh fun c hc => (htimes c hc).1
  have htime : times (w.serialised.readerView env arith fh) = times w := by
    have hfst := congrArg (map Prod.fst) hview
    rw [map_map, map_map] at hfst
    exact hfst
  have hall : ∀ t ∈ times (w.serialised.readerView env arith fh),
      t ≠ 0 ∧ t.toNat < 2147483648 := fun t ht => by
    rw [htime] at ht
    obtain ⟨c, hc, rfl⟩ := mem_map.mp ht
    exact htimes c hc
  refine stepsShown ?_ ?_ (fun t ht => (hall t ht).1) (fun t ht => (hall t ht).2) ?_
  · rw [hview]
    exact hkeys
  · rw [htime]
    exact hascending
  · rw [← length_times, htime, length_times]
    exact hsets

theorem bpOpen_eq {host : Endian} {junk : UInt64} {arith : ValueArith} {garbage : TimeTable}
    {file rest : List UInt8} {h : 28 ≤ file.length} {m : Minifooter} {opened : BpOpened}
    {fileSize : UInt64} (hsize : UInt64.ofNat file.length = fileSize)
    (hread : bpReadMinifooter host fileSize (trailingBytes file h) = .ok m)
    (hparse : bpParseIndex ⟨host, m.changeEndianness, junk⟩ arith garbage m.version
      (readAt file m.offsets.pgIndexOffset m.footerSize) = .ok (opened, rest)) :
    bpOpen host junk arith garbage file h = .ok (m, opened) := by
  subst hsize
  unfold bpOpen
  simp only [hread, hparse]

/-- **The file of a sorted index** is opened. -/
theorem Openable.opens {host : Endian} {version : Version} {indexStart : UInt64} {ix : Index}
    {mem : Mem} {written : WrittenIndex} {data : List UInt8} (h : Openable host ix)
    (hsorted : ix.pgRoot.Pairwise fun p q => p.timeIndex ≤ q.timeIndex)
    (hwritten : writeIndexV1 host version indexStart ix ⟨mem, 0⟩ = .ok written)
    (hdata : data.length = indexStart.toNat)
    (hsize : (data ++ (writeVersionV1 host written.buf).since 0).length < 2 ^ 64)
    (junk : UInt64) (arith : ValueArith) (garbage : TimeTable) :
    ∃ hlen m opened, bpOpen host junk arith garbage
        (data ++ (writeVersionV1 host written.buf).since 0) hlen = .ok (m, opened) ∧
      m.offsets.Tile data.length (data ++ (writeVersionV1 host written.buf).since 0).length ∧
      opened.Parsed ⟨host, false, junk⟩ arith ix := by
  obtain ⟨hsets, vars, info, buf, out, hvars, hout, hinfo, hfooter⟩ :=
    writeVersionV1_since h.groups h.attrWf hwritten
  obtain rfl : vars = render false (sectionFields host (ix.varsRoot.map IndexEntry.varRecord)) := by
    rw [h.vars.write_eq h.wf] at hvars
    rw [hout, ← Except.ok.inj hvars, Buffer.since_write]
  rw [hfooter] at hsize ⊢
  have hcount : ix.pgRoot.length < 2 ^ 64 := length_groups_lt host (by
    simp only [length_append] at hsize
    omega)
  have henv : Openable (ReadEnv.mk host false junk).host ix := h
  obtain ⟨opened, hparse, hright⟩ := henv.parses_index hcount hsets hsorted arith garbage
  simp only at hparse
  -- from here on the sections are just bytes
  generalize render false (groupsFields host ix.pgRoot) = groups at *
  generalize render false (sectionFields host (ix.varsRoot.map IndexEntry.varRecord)) = vars at *
  generalize render false (sectionFields host (ix.attrsRoot.map IndexEntry.attrRecord)) = attrs at *
  generalize hvarsStart : UInt64.ofNat groups.length + indexStart = varsStart at *
  generalize hattrsStart : UInt64.ofNat (groups.length + vars.length) + indexStart =
    attrsStart at *
  generalize hmini : host.u64 indexStart ++ (host.u64 varsStart ++ (host.u64 attrsStart ++
    Endian.big.u32 (versionWord host))) = mini at *
  have hminiLength : mini.length = 28 := by simp [← hmini]
  have hfile : (data ++ (groups ++ (vars ++ (attrs ++ (info ++ mini))))).length =
      data.length + (groups.length + (vars.length + (attrs.length + (28 + 28)))) := by
    simp only [length_append, hinfo, hminiLength]
  have hlast : miniFooter (data ++ (groups ++ (vars ++ (attrs ++ (info ++ mini))))) = mini := by
    rw [miniFooter, hfile, show data ++ (groups ++ (vars ++ (attrs ++ (info ++ mini)))) =
      (data ++ (groups ++ (vars ++ (attrs ++ info)))) ++ mini by simp]
    apply drop_left'
    simp only [length_append, hinfo]
    omega
  generalize hfileSize : UInt64.ofNat
    (data ++ (groups ++ (vars ++ (attrs ++ (info ++ mini))))).length = fileSize
  obtain ⟨hg, hvs, hv, has, ha⟩ := tile_offsets (a := attrs.length) hdata.symm hvarsStart.symm
    hattrsStart.symm hfileSize.symm hfile hsize
  have hfileLength : fileSize.toNat =
      data.length + (groups.length + (vars.length + (attrs.length + (28 + 28)))) := by
    rw [← hfileSize, toNat_ofNat', hfile, Nat.mod_eq_of_lt (hfile ▸ hsize)]
  have hlen : 28 ≤ (data ++ (groups ++ (vars ++ (attrs ++ (info ++ mini))))).length := by
    rw [hfile]
    omega
  have htrailing : (trailingBytes _ hlen).buff = host.u64 indexStart ++ (host.u64 varsStart ++
      (host.u64 attrsStart ++ Endian.big.u32 (versionWord host))) := hlast.trans hmini.symm
  have hinside : attrsStart ≤ fileSize := by
    rw [le_iff_toNat_le]
    omega
  have hread := bpReadMinifooter_written htrailing (by rw [le_iff_toNat_le]; omega)
    (by rw [le_iff_toNat_le]; omega) hinside
  have hfooterSize : (fileSize - indexStart).toNat =
      (groups ++ (vars ++ (attrs ++ (info ++ mini)))).length := by
    rw [UInt64.toNat_sub_of_le _ _ (by rw [le_iff_toNat_le]; omega)]
    simp only [length_append, hinfo, hminiLength]
    omega
  have hbytes : readAt (data ++ (groups ++ (vars ++ (attrs ++ (info ++ mini))))) indexStart
      (fileSize - indexStart) = (groups ++ (vars ++ attrs)) ++ (info ++ mini) := by
    have hsection := @readAt_append data _ [] indexStart (fileSize - indexStart) hdata.symm
      hfooterSize
    simpa using hsection
  refine ⟨hlen, ⟨0x202, false, ⟨indexStart, indexStart, varsStart - indexStart, varsStart,
    attrsStart - varsStart, attrsStart, fileSize - 28 - attrsStart⟩, fileSize - indexStart⟩, opened,
    ?_, ⟨hdata.symm, ?_, ?_, ?_⟩, hright⟩
  · have hindex := hparse (info ++ mini)
    rw [← hbytes] at hindex
    exact bpOpen_eq hfileSize hread hindex
  · simp only
    omega
  · simp only
    omega
  · simp only
    rw [hfile]
    omega

def valueSet (offset : UInt64) (timeIndex : UInt32) : IndexCharacteristic :=
  { IndexCharacteristic.zero with offset, timeIndex, value := some [1, 0, 0, 0] }

theorem valueSet_wf (offset : UInt64) (timeIndex : UInt32) :
    (valueSet offset timeIndex).Wf .integer .integer where
  value := by
    intro v hv
    obtain rfl := Option.some.inj hv
    unfold ValueInMemory
    decide
  dims := rfl
  metadata := rfl
  transform := fun h => absurd rfl h
  original := trivial
  bitmap := fun h => absurd rfl h
  stats := fun h => absurd rfl h

/-- A variable whose set of time 2 stands before the one of time 1. -/
def laterFirst : IndexEntry where
  id := 1
  groupName := CString.empty
  name := CString.empty
  path := CString.empty
  type := .integer
  characteristics := [valueSet 64 2, valueSet 32 1]

def laterFirstIndex : Index where
  pgRoot := [⟨CString.empty, .yes, 4, none, 1, 0⟩]
  varsRoot := [laterFirst]
  attrsRoot := []

theorem openable_laterFirst :
    Openable .little { laterFirstIndex with varsRoot := [sortSets laterFirst] } where
  groups := by
    intro pg hpg
    obtain rfl := mem_singleton.mp hpg
    exact ⟨by decide, by decide⟩
  regular := by
    refine ⟨_, _, rfl, rfl, by decide, by decide, fun {name} hname time hle hge => ?_⟩
    obtain rfl : name = CString.empty := mem_singleton.mp hname
    obtain rfl : time = 1 := by
      rw [← UInt32.toNat_inj]
      exact Nat.le_antisymm hge hle
    exact ⟨[], 0, [], ⟨rfl, by simp, by simp, by simp⟩, by decide, by decide⟩
  wf := by
    intro v hv
    obtain rfl := mem_singleton.mp hv
    refine ⟨⟨by decide, by decide, by decide, by decide⟩, fun c hc => ?_⟩
    have hsets : (sortSets laterFirst).characteristics = [valueSet 32 1, valueSet 64 2] := rfl
    rw [hsets, mem_cons, mem_singleton] at hc
    rcases hc with rfl | rfl
    · exact valueSet_wf 32 1
    · exact valueSet_wf 64 2
  vars := by constructor <;> decide
  attrWf := by simp [laterFirstIndex]
  attrCount := by decide
  strings := by
    intro e he hs
    obtain rfl := mem_singleton.mp he
    exact absurd hs (by decide)
  scalar := by decide
  times := by decide

end Adios
