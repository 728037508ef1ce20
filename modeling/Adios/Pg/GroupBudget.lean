import Adios.Pg.GroupSize
import Adios.Pg.Lengths
import Adios.Pg.WriteRun
import Mathlib.Algebra.Order.BigOperators.Group.List

/-!
# Adios — the size of a group

The size that `adios_group_size` computes in advance against what a run puts into the buffer: the
header of the process group and every section take the bytes that are counted for them, and so
does the header of a variable that is written once. What is left for the payloads is the size that
the user declared.
-/

namespace Adios

open List Wire UInt64

theorem sum_getD_le {xs : List Nat} {is : List Nat} (hnodup : is.Nodup)
    (hlt : ∀ i ∈ is, i < xs.length) : (is.map (xs.getD · 0)).sum ≤ xs.sum ∧
      (is.length = xs.length → (is.map (xs.getD · 0)).sum = xs.sum) := by
  have hrange : (List.range xs.length).map (xs.getD · 0) = xs := by
    refine ext_getElem (by simp) fun i hi _ => ?_
    have hlt : i < xs.length := by simpa using hi
    simp [hlt]
  obtain ⟨js, hperm, hsub⟩ := subperm_of_subset hnodup fun i hi =>
    mem_range.mpr (hlt i hi)
  have hsum : (is.map (xs.getD · 0)).sum = (js.map (xs.getD · 0)).sum :=
    (hperm.map _).sum_eq.symm
  constructor
  · rw [hsum]
    calc (js.map (xs.getD · 0)).sum
        ≤ ((List.range xs.length).map (xs.getD · 0)).sum :=
          (hsub.map _).sum_le_sum fun _ _ => Nat.zero_le _
      _ = xs.sum := by rw [hrange]
  · intro hlen
    have heq : js = List.range xs.length :=
      hsub.eq_of_length (by rw [hperm.length_eq, hlen, length_range])
    rw [hsum, heq, hrange]

/-! ## What is counted -/

namespace Group

def headerSize (g : Group) : Nat :=
  24 + g.name.val.length + (g.timeIndexName.elim 0 fun s => s.val.length)
    + (g.methods.map fun method => 3 + method.parameters.val.length).sum

def attributesSize (g : Group) : Nat := (g.attributes.map fun a => 4 + a.writtenSize).sum

def overhead (g : Group) : Nat :=
  g.headerSize + 12 + (g.vars.map overheadOf).sum + 12 + g.attributesSize

structure Fits (g : Group) : Prop where
  name : g.name.val.length < 2 ^ 16
  timeIndexName : ∀ s ∈ g.timeIndexName, s.val.length < 2 ^ 16
  methods : ∀ method ∈ g.methods, method.parameters.val.length < 2 ^ 16
  attributes : ∀ a ∈ g.attributes, a.name.val.length < 2 ^ 16 ∧ a.path.val.length < 2 ^ 16 ∧
    4 + a.writtenSize < 2 ^ 32

end Group

theorem calcAttributeOverheadV1_eq {a : Attribute} (hname : a.name.val.length < 2 ^ 16)
    (hpath : a.path.val.length < 2 ^ 16) :
    calcAttributeOverheadV1 a = UInt32.ofNat (4 + a.writtenSize) := by
  unfold calcAttributeOverheadV1 Attribute.writtenSize shortLength
  rw [Nat.mod_eq_of_lt hname, Nat.mod_eq_of_lt hpath, CString.strlen_val, CString.strlen_val]
  split_ifs
  · simp only [UInt32.ofNat_add]
    grind
  · simp only [UInt32.ofNat_add, UInt32.ofNat_toNat]
    grind

theorem calcHeaderOverhead_eq (g : Group) : calcHeaderOverhead g = UInt64.ofNat g.headerSize := by
  have hfold : ∀ (ms : List Method) (n : Nat), ms.foldl (fun overhead m =>
      overhead + 1 + 2 + UInt64.ofNat (strlen m.parameters.val)) (UInt64.ofNat n) =
      UInt64.ofNat (n + (ms.map fun method => 3 + method.parameters.val.length).sum) := by
    intro ms
    induction ms with
    | nil => simp
    | cons method ms ih =>
      intro n
      have hone : UInt64.ofNat n + 1 + 2 + UInt64.ofNat (strlen method.parameters.val) =
          UInt64.ofNat (n + (3 + method.parameters.val.length)) := by
        rw [CString.strlen_val]
        simp only [ofNat_add]
        grind
      rw [foldl_cons, hone, ih, map_cons, sum_cons, Nat.add_assoc]
  have hstart : (8 + 1 + 2 + UInt64.ofNat (strlen g.name.val) + 4 + 2
      + UInt64.ofNat (g.timeIndexName.elim 0 fun s => strlen s.val) + 4 + 1 + 2 : UInt64) =
      UInt64.ofNat (24 + g.name.val.length
        + (g.timeIndexName.elim 0 fun s => s.val.length)) := by
    simp only [CString.strlen_val, ofNat_add]
    grind
  unfold calcHeaderOverhead Group.headerSize
  simp only
  rw [hstart, hfold]

theorem calcOverheadV1_eq {g : Group} (hfits : g.Fits) {overhead : UInt64}
    (h : calcOverheadV1 g = .ok overhead) : overhead = UInt64.ofNat g.overhead := by
  have hvars : ∀ (vs : List Var) (n : Nat) (r : UInt64), vs.foldlM (fun overhead v => do
      let varOverhead ← calcVarOverheadV1 v
      return overhead + varOverhead.toUInt64) (UInt64.ofNat n) = (.ok r : Except Fault UInt64) →
      r = UInt64.ofNat (n + (vs.map overheadOf).sum) := by
    intro vs
    induction vs with
    | nil =>
      intro n r h
      cases h
      simp
    | cons v vs ih =>
      intro n r h
      rw [List.foldlM_cons] at h
      obtain ⟨m, hm, h⟩ := exists_of_bind_eq_ok h
      obtain ⟨k, hk, hm⟩ := exists_of_bind_eq_ok hm
      cases hm
      have hone : UInt64.ofNat n + k.toUInt64 = UInt64.ofNat (n + overheadOf v) := by
        rw [overheadOf_eq hk, ofNat_add]
        simp
      rw [hone] at h
      rw [ih _ _ h, map_cons, sum_cons, Nat.add_assoc]
  have hattrs : ∀ (as : List Attribute) (n : Nat), (∀ a ∈ as, a.name.val.length < 2 ^ 16 ∧
      a.path.val.length < 2 ^ 16 ∧ 4 + a.writtenSize < 2 ^ 32) →
      as.foldl (fun overhead a => overhead + (calcAttributeOverheadV1 a).toUInt64)
        (UInt64.ofNat n) = UInt64.ofNat (n + (as.map fun a => 4 + a.writtenSize).sum) := by
    intro as
    induction as with
    | nil => simp
    | cons a as ih =>
      intro n hall
      obtain ⟨hname, hpath, hsize⟩ := hall a (by simp)
      have hone : UInt64.ofNat n + (calcAttributeOverheadV1 a).toUInt64 =
          UInt64.ofNat (n + (4 + a.writtenSize)) := by
        rw [calcAttributeOverheadV1_eq hname hpath, ofNat_add n]
        congr 1
        apply UInt64.toNat_inj.mp
        rw [UInt32.toNat_toUInt64, UInt32.toNat_ofNat_of_lt' hsize, toNat_ofNat_of_lt']
        exact Nat.lt_trans hsize (by decide)
      rw [foldl_cons, hone, ih _ fun b hb => hall b (by simp [hb]), map_cons,
        sum_cons, Nat.add_assoc]
  unfold calcOverheadV1 at h
  obtain ⟨n, hn, h⟩ := exists_of_bind_eq_ok h
  cases h
  have hstart : calcHeaderOverhead g + 4 + 8 = UInt64.ofNat (g.headerSize + 12) := by
    rw [calcHeaderOverhead_eq, ofNat_add]
    grind
  simp only [hstart] at hn
  have hmid : n + 4 + 8 = UInt64.ofNat (g.headerSize + 12 + (g.vars.map overheadOf).sum + 12) := by
    rw [hvars _ _ _ hn, ofNat_add _ 12]
    grind
  rw [hmid, hattrs _ _ hfits.attributes]
  rfl

/-! ## What is written -/

theorem offset_writeString (host : Endian) {s : CString} (buf : Buffer)
    (h : s.val.length < 2 ^ 16) :
    (writeString host s buf).offset = buf.offset + (2 + s.val.length) := by
  rw [writeString_eq, Buffer.write_offset, length_render, imageSize_shortStringFields,
    Nat.mod_eq_of_lt h]

theorem offset_writeProcessGroupHeaderV1 (host : Endian) {g : Group} (hfits : g.Fits)
    (totalSize : UInt64) (fd : File) : (writeProcessGroupHeaderV1 host g totalSize fd).buf.offset =
      fd.buf.offset + g.headerSize := by
  have hidentity : ∀ buf : Buffer, (writeGroupIdentity host g totalSize buf).offset = buf.offset +
      (21 + g.name.val.length + g.timeIndexName.elim 0 fun s => s.val.length) := by
    intro buf
    have hflag : (if g.hostLanguageFortran = .yes then chars "y" else chars "n").length = 1 := by
      split_ifs <;> rfl
    have hname := fun buf => offset_writeString host (s := g.name) buf hfits.name
    unfold writeGroupIdentity
    cases htime : g.timeIndexName with
    | none =>
      simp only [Buffer.write_offset, hname, hflag, Endian.length_u64, Endian.length_u32,
        Endian.length_u16, Option.elim_none]
      omega
    | some s =>
      have hs := fun buf => offset_writeString host (s := s) buf (hfits.timeIndexName s htime)
      simp only [Buffer.write_offset, hname, hs, hflag, Endian.length_u64, Endian.length_u32,
        Option.elim_some]
      omega
  have hmethods : methodsSize g.methods =
      (g.methods.map fun method => 3 + method.parameters.val.length).sum := by
    unfold methodsSize shortLength
    congr 1
    exact map_congr_left fun method hmem => by
      rw [Nat.mod_eq_of_lt (hfits.methods method hmem)]
  rw [writeProcessGroupHeaderV1_buf]
  unfold writeMethods
  obtain ⟨body, hbody, hlen⟩ := foldl_writeMethod host g.methods
    (((writeGroupIdentity host g totalSize fd.buf).write
      [g.methods.foldl (fun count _ => count + 1) 0]).write
      (host.u16 (g.methods.foldl (fun length method =>
        length + (1 + 2 + UInt16.ofNat (strlen method.parameters.val))) 0)))
  simp only [hbody, Buffer.write_offset, hlen, hidentity, hmethods, length_singleton,
    Endian.length_u16]
  unfold Group.headerSize
  omega

theorem offset_writeAttributes {host : Endian} {as : List Attribute} {fd fd' : File}
    (h : writeAttributes host as fd = .ok fd') :
    fd'.buf.offset = fd.buf.offset + (as.map fun a => 4 + a.writtenSize).sum := by
  induction as generalizing fd with
  | nil =>
    cases h
    simp
  | cons a as ih =>
    rw [writeAttributes] at h
    obtain ⟨⟨a', fd₁⟩, hone, h⟩ := exists_of_bind_eq_ok h
    obtain ⟨buf, valueSize, hlen, -, hbuf⟩ := writeAttributeV1_inv hone
    have hoffset : fd₁.buf.offset = fd.buf.offset + 4 + a.writtenSize := by
      show (a', fd₁).2.buf.offset = _
      rw [hbuf, Buffer.patch_offset, hlen]
    rw [ih h, hoffset, map_cons, sum_cons]
    omega

theorem offset_commonAdiosClose {env : GroupEnv} {g : Group} {fd fd' : File}
    (h : commonAdiosClose env g fd = .ok fd') : fd'.buf.offset =
      fd.buf.offset + 12 + if env.WritesAttributes g then g.attributesSize else 0 := by
  obtain ⟨fd₁, hattrs, h⟩ := exists_of_bind_eq_ok h
  cases h
  have hoffset := offset_writeAttributes hattrs
  show fd₁.buf.offset = _
  rw [hoffset]
  show fd.buf.offset + (4 + 8) + _ = _
  unfold Group.attributesSize
  split_ifs <;> simp

/-! ## Runs -/

def WriteFits (lib : Writer) (s : FileState) (w : Var) : Prop :=
  ∀ payload, s.payload lib w = some payload → s.DeliversWrite lib w payload

def Completed.size (vars : List Var) (c : Completed) : Nat :=
  (vars.map overheadOf).getD c.var 0 + c.payload.length

structure BudgetInv (s₀ s : FileState) (log : List Completed) : Prop where
  buffer : s.sharedBuffer = true
  layouts : s.vars.map Var.layout = s₀.vars.map Var.layout
  paths : s.vars.map Var.path = s₀.vars.map Var.path
  offset : s.fd.buf.offset = s₀.fd.buf.offset + (log.map (Completed.size s₀.vars)).sum
  places : ∀ c ∈ log, c.var < s₀.vars.length

section Runs

variable {lib : Writer} {s₀ s s' : FileState} {log : List Completed} {i : Nat} {w : Var}
  {wrote : Wrote}

theorem BudgetInv.overheadOf_eq (hinv : BudgetInv s₀ s log) (hl : ∀ v ∈ s₀.vars, v.layout.Wf)
    {v : Var} (hi : s.vars[i]? = some v) (hlayout : w.layout = v.layout) (hpath : w.path = v.path) :
    i < s₀.vars.length ∧ (s₀.vars.map overheadOf).getD i 0 = overheadOf w := by
  have hlen : s.vars.length = s₀.vars.length := by simpa using congrArg List.length hinv.layouts
  have hlt : i < s₀.vars.length := by
    rw [← hlen]
    exact (List.getElem?_eq_some_iff.mp hi).1
  have hlayouts := congrArg (·[i]?) hinv.layouts
  have hpaths := congrArg (·[i]?) hinv.paths
  simp only [getElem?_map, hi, getElem?_eq_getElem hlt, Option.map_some,
    Option.some.injEq] at hlayouts hpaths
  refine ⟨hlt, ?_⟩
  have hcongr : calcVarOverheadV1 s₀.vars[i] = calcVarOverheadV1 w :=
    calcVarOverheadV1_congr (hl _ (getElem_mem hlt)) (hlayouts.symm.trans hlayout.symm)
      (hpaths.symm.trans hpath.symm)
  rw [getD_eq_getElem?_getD, getElem?_map, getElem?_eq_getElem hlt]
  simp only [Option.map_some, Option.getD_some, overheadOf, hcongr]

theorem BudgetInv.write (hinv : BudgetInv s₀ s log) (hl : ∀ v ∈ s₀.vars, v.layout.Wf)
    (hok : WriteFits lib s w) (h : WriteStep lib s i w s' wrote) :
    BudgetInv s₀ s' (log ++ completedWrite lib s i w s' wrote) := by
  have hlayouts := layout_wf_of_map_eq hinv.layouts hl
  obtain ⟨v, u, hi, hlayout', hlayout, hpath, hgen, hrun, hafter⟩ := h.spec hlayouts
  have hv : v.layout.Wf := hlayouts v (mem_of_getElem? hi)
  have hwf : w.layout.Wf := hlayout ▸ hv
  obtain ⟨hplace, hsame⟩ := hinv.overheadOf_eq hl hi hlayout hpath
  obtain ⟨hfd, hvars, hbuffer⟩ : s'.fd = wrote.fd ∧ s'.vars = s.vars.set i wrote.kept ∧
      s'.sharedBuffer = s.sharedBuffer := by
    split_ifs at hafter
    · obtain ⟨copy, -, rfl⟩ := hafter
      exact ⟨rfl, rfl, rfl⟩
    · subst hafter
      exact ⟨rfl, rfl, rfl⟩
  -- it is enough to know how the variable and the offset are afterwards
  have hkeep : ∀ added : List Completed, wrote.kept.layout = v.layout → wrote.kept.path = v.path →
      s'.fd.buf.offset = s.fd.buf.offset + (added.map (Completed.size s₀.vars)).sum →
      (∀ c ∈ added, c.var < s₀.vars.length) → BudgetInv s₀ s' (log ++ added) := by
    intro added hkl hkp hoffset hplaces
    refine ⟨hbuffer.trans hinv.buffer, ?_, ?_, ?_, ?_⟩
    · rw [hvars, map_set_eq Var.layout hi hkl, hinv.layouts]
    · rw [hvars, map_set_eq Var.path hi hkp, hinv.paths]
    · rw [hoffset, hinv.offset, map_append, sum_append, Nat.add_assoc]
    · intro c hc
      rcases mem_append.mp hc with hc | hc
      · exact hinv.places c hc
      · exact hplaces c hc
  cases hpayload : s.payload lib w with
  | none =>
    obtain ⟨hsuccess, -, hwv, -, start, scratch, -, hwfd⟩ :=
      commonAdiosWrite_failed hwf hgen hpayload hinv.buffer hrun
    have hnothing : completedWrite lib s i w s' wrote = [] := by simp [completedWrite, hsuccess]
    rw [hnothing]
    refine hkeep [] ?_ ?_ ?_ (by simp)
    · rw [wrote.layout_kept, hwv, layout_withMetadata, hlayout]
    · show wrote.v.path = _
      rw [hwv]
      exact hpath
    · rw [hfd, hwfd]
      rfl
  | some payload =>
    have hd := hok payload hpayload
    have hu : u.layout.Wf := hlayout' ▸ hv
    obtain ⟨⟨stats, hw⟩, -, hfit⟩ := generateVarCharacteristicsV1_spec hu hgen
    have hvar : w.Wf := by
      refine hwf.var ?_
      subst hw
      exact hfit hd.original
    obtain ⟨hsuccess, hdelivered, -⟩ := commonAdiosWrite_delivered hwf hvar hgen hpayload hd
      (by simp [hinv.buffer]) hrun
    obtain ⟨header, n, hn, hlen, hwritten⟩ := hdelivered.written
    simp only [FileState.written, hinv.buffer, if_true] at hwritten
    have hoffset : wrote.fd.buf.offset = s.fd.buf.offset + (overheadOf w + payload.length) := by
      rw [hwritten, Buffer.write_offset, length_append, hlen, Adios.overheadOf_eq hn]
    have hone : completedWrite lib s i w s' wrote = [⟨i, w.path, w.name, s.written.offset,
        s'.written.offset - payload.length, payload⟩] := by
      simp [completedWrite, hsuccess, hpayload]
    rw [hone]
    refine hkeep _ ?_ (hdelivered.path.trans hpath) ?_ ?_
    · rw [wrote.layout_kept, hdelivered.layout, hlayout]
    · rw [hfd, hoffset, map_singleton, sum_singleton, Completed.size, hsame]
    · intro c hc
      cases mem_singleton.mp hc
      exact hplace

theorem WriteRun.budgetInv (hbuffer : s₀.sharedBuffer = true) (hl : ∀ v ∈ s₀.vars, v.layout.Wf)
    (h : WriteRun lib False (WriteFits lib) s₀ s log) : BudgetInv s₀ s log := by
  induction h with
  | opened => exact ⟨hbuffer, rfl, rfl, by simp, by simp⟩
  | write _ hok hstep ih => exact ih.write hl hok hstep
  | setPath path hpaths => exact absurd hpaths id

end Runs

/-! ## The declared size -/

theorem commonAdiosGroupSize_inv {env : GroupEnv} {g g' : Group} {dataSize total : UInt64}
    {fd₀ fd : File} (hfits : g'.Fits)
    (hwrap : max dataSize.toNat (env.worstCaseTransformedGroupSize dataSize g').toNat
      + g'.overhead < 2 ^ 64)
    (h : commonAdiosGroupSize env g dataSize fd₀ = .ok (g', total, fd)) :
    calcOverheadV1 g' = .ok (UInt64.ofNat g'.overhead) ∧
      total.toNat = max dataSize.toNat (env.worstCaseTransformedGroupSize dataSize g').toNat
        + g'.overhead ∧
      fd.buf.offset = g'.headerSize + 12 := by
  unfold commonAdiosGroupSize at h
  obtain ⟨overhead, hover, h⟩ := exists_of_bind_eq_ok h
  cases h
  have heq := calcOverheadV1_eq hfits hover
  refine ⟨heq ▸ hover, ?_, ?_⟩
  · have hlt : (defineInternalAttributes env g).overhead < 2 ^ 64 := by omega
    have htoNat : overhead.toNat = (defineInternalAttributes env g).overhead := by
      rw [heq, toNat_ofNat_of_lt' hlt]
    split_ifs with hless
    · have hle : dataSize.toNat ≤
          (env.worstCaseTransformedGroupSize dataSize (defineInternalAttributes env g)).toNat :=
        Nat.le_of_lt (lt_iff_toNat_lt.mp hless)
      rw [UInt64.toNat_add, UInt64.toNat_add, UInt64.toNat_sub_of_le _ _ (le_iff_toNat_le.mpr hle), htoNat]
      omega
    · have hle := Nat.le_of_not_lt (mt lt_iff_toNat_lt.mpr hless)
      rw [UInt64.toNat_add, UInt64.toNat_add, htoNat]
      show ((_ + _) % _ + 0) % _ = _
      omega
  · show (writeProcessGroupHeaderV1 env.host _ _ _).buf.offset + (4 + 8) = _
    rw [offset_writeProcessGroupHeaderV1 env.host hfits]
    show 0 + _ + 12 = _
    omega

/-- **The budget of a group.** In a run that writes every variable at most once, the buffer stays
within the total size as long as the payloads stay within the declared one, and so does the closed
group. When all are written, it has the computed overhead beside the payloads, up to the attributes
that a process does not write. -/
theorem group_size_budget (lib : Writer) (env : GroupEnv) (g g' : Group) (dataSize total : UInt64)
    (fd₀ fd : File) (s₀ s : FileState) (log : List Completed) (hfits : g'.Fits)
    (hl : ∀ v ∈ g'.vars, v.layout.Wf)
    (hwrap : max dataSize.toNat (env.worstCaseTransformedGroupSize dataSize g').toNat
      + g'.overhead < 2 ^ 64)
    (hopen : commonAdiosGroupSize env g dataSize fd₀ = .ok (g', total, fd))
    (hs₀ : s₀.fd = fd ∧ s₀.vars = g'.vars ∧ s₀.sharedBuffer = true)
    (hrun : WriteRun lib False (WriteFits lib) s₀ s log)
    (honce : (log.map Completed.var).Nodup) :
    ((log.map (·.payload.length)).sum ≤ dataSize.toNat → s.fd.buf.offset ≤ total.toNat) ∧
    ∀ fd', commonAdiosClose env g' s.fd = .ok fd' →
      ((log.map (·.payload.length)).sum ≤ dataSize.toNat → fd'.buf.offset ≤ total.toNat) ∧
      (log.length = g'.vars.length → ∃ overhead, calcOverheadV1 g' = .ok overhead ∧
        fd'.buf.offset + (if env.WritesAttributes g' then 0 else g'.attributesSize) =
          (log.map (·.payload.length)).sum + overhead.toNat) := by
  obtain ⟨hover, htotal, hoffset⟩ := commonAdiosGroupSize_inv hfits hwrap hopen
  obtain ⟨rfl, hvars, hbuffer⟩ := hs₀
  have hinv := hrun.budgetInv hbuffer (hvars ▸ hl)
  -- the headers of the completed variables are some of those that are counted
  have hsplit : ∀ log : List Completed, (log.map (Completed.size s₀.vars)).sum =
      ((log.map Completed.var).map ((s₀.vars.map overheadOf).getD · 0)).sum
        + (log.map (·.payload.length)).sum := by
    intro log
    induction log with
    | nil => rfl
    | cons c log ih =>
      simp only [map_cons, sum_cons, ih, Completed.size]
      omega
  have hplaces : ∀ i ∈ log.map Completed.var, i < (s₀.vars.map overheadOf).length := by
    intro i hi
    obtain ⟨c, hc, rfl⟩ := mem_map.mp hi
    rw [length_map]
    exact hinv.places c hc
  obtain ⟨hle, hall⟩ := sum_getD_le honce hplaces
  have hend := hinv.offset
  rw [hsplit, hoffset] at hend
  rw [hvars] at hle hall hend
  have hoverhead : g'.overhead = g'.headerSize + 12 + (g'.vars.map overheadOf).sum + 12
    + g'.attributesSize := rfl
  have hmax := Nat.le_max_left dataSize.toNat
    (env.worstCaseTransformedGroupSize dataSize g').toNat
  refine ⟨fun hdata => by omega, fun fd' hclose => ?_⟩
  have hclosed := offset_commonAdiosClose hclose
  refine ⟨fun hdata => by split_ifs at hclosed <;> omega, fun hlen => ⟨_, hover, ?_⟩⟩
  have hsum := hall (by simpa using hlen)
  have hlt : g'.overhead < 2 ^ 64 := by omega
  rw [toNat_ofNat_of_lt' hlt]
  split_ifs at hclosed ⊢ <;> omega

def scalarVar : Var :=
  { identityVar 0 with
    type := .integer, dimensions := [], transformType := .none, preTransformType := .unknown }

def scalarOnPath : Var := { scalarVar with path := CString.ofBuffer (chars "/step0") }

def scalarGroup (rank : UInt32) : Group where
  name := CString.ofBuffer (chars "restart")
  hostLanguageFortran := .no
  vars := [scalarVar]
  attributes := [⟨2, CString.ofBuffer (chars "unit"), CString.empty, .byte, some [1], none, 0⟩]
  coordinationVar := none
  timeIndexName := none
  timeIndex := 1
  processId := rank
  methods := [⟨0, CString.empty⟩]

def writeEnv : GroupEnv where
  host := .little
  mode := .write
  ownSubfile := false
  version := CString.ofBuffer (chars "1.13.1")
  epoch := [0, 0, 0, 0]
  memberCount := 2
  attrIdUpdateEpoch := 0
  worstCaseTransformedGroupSize := fun dataSize _ => dataSize

def plainWriter : Writer where
  machine := littleMachine
  statValue := fun _ _ _ _ => 0
  frequency := fun _ _ => 0
  transformApply := fun _ _ _ => ⟨.failed [], [], false⟩
  methodWrite := adiosMpiWrite littleMachine
  methodError := fun _ _ => false

def emptyFile : File := ⟨⟨fun _ => 0, 0⟩, 0, 0, 0, 0⟩

/-- The file behind `adios_group_size`. -/
def openedGroup (g : Group) (fd : File) : FileState where
  fd := fd
  sharedBuffer := true
  mode := .write
  out := ⟨fun _ => 0, 0⟩
  vars := g.vars
  varsWritten := []

theorem scalarGroup_layouts (rank : UInt32) : ∀ v ∈ (scalarGroup rank).vars, v.layout.Wf := by
  intro v hv
  cases mem_singleton.mp hv
  exact {
    defined := trivial
    known := nofun
    transformed := fun h => absurd rfl h
    metadata := rfl
    bitmap := by decide
    noComplexHist := by decide
    hist := by
      intro slots hslots
      simp [Var.layout, scalarVar, identityVar] at hslots }

def scalarWithData : Var := { scalarVar with data := some [1, 2, 3, 4] }

theorem writeFits_scalar {s : FileState} (hbuffer : s.sharedBuffer = true) :
    WriteFits plainWriter s scalarWithData := by
  intro payload hpayload
  rw [FileState.payload, if_pos (by rfl)] at hpayload
  cases hpayload
  exact {
    original := fun h => absurd rfl h.2
    header := fun _ => ⟨by decide, fun h => absurd rfl h.2, fun h => absurd rfl h.2, rfl⟩
    size := by decide
    method := by simp [hbuffer] }

theorem scalarGroup_fits : (defineInternalAttributes writeEnv (scalarGroup 0)).Fits where
  name := by decide
  timeIndexName := nofun
  methods := by decide
  attributes := by decide

theorem group_size_budget_scalarGroup : ∃ g' total fd s log fd',
    commonAdiosGroupSize writeEnv (scalarGroup 0) 4 emptyFile = .ok (g', total, fd) ∧
    WriteRun plainWriter False (WriteFits plainWriter) (openedGroup g' fd) s log ∧
    commonAdiosClose writeEnv g' s.fd = .ok fd' ∧ fd'.buf.offset ≤ total.toNat ∧
    ∃ overhead, calcOverheadV1 g' = .ok overhead ∧ fd'.buf.offset = 4 + overhead.toNat := by
  have hrun : ∃ g' total fd s wrote fd', g' = defineInternalAttributes writeEnv (scalarGroup 0) ∧
      commonAdiosGroupSize writeEnv (scalarGroup 0) 4 emptyFile = .ok (g', total, fd) ∧
      WriteStep plainWriter (openedGroup g' fd) 0 scalarWithData s wrote ∧
      wrote.success = true ∧ commonAdiosClose writeEnv g' s.fd = .ok fd' :=
    ⟨_, _, _, _, _, _, rfl, rfl, ⟨some [1, 2, 3, 4], _, _, rfl, rfl, rfl, rfl⟩, rfl, rfl⟩
  obtain ⟨g', total, fd, s, wrote, fd', rfl, hopen, hstep, hsuccess, hclose⟩ := hrun
  have hlog : ∃ start payloadStart, completedWrite plainWriter
      (openedGroup (defineInternalAttributes writeEnv (scalarGroup 0)) fd) 0 scalarWithData s
      wrote = [⟨0, scalarWithData.path, scalarWithData.name, start, payloadStart,
        [1, 2, 3, 4]⟩] := by
    rw [completedWrite, if_pos hsuccess]
    exact ⟨_, _, rfl⟩
  obtain ⟨start, payloadStart, hlog⟩ := hlog
  have hrun : WriteRun plainWriter False (WriteFits plainWriter) _ s _ :=
    .write .opened (writeFits_scalar rfl) hstep
  rw [hlog] at hrun
  obtain ⟨-, hclosed⟩ := group_size_budget plainWriter writeEnv (scalarGroup 0) _ 4 total emptyFile
    fd _ s _ scalarGroup_fits (scalarGroup_layouts 0) (by decide) hopen ⟨rfl, rfl, rfl⟩ hrun
    (by simp)
  obtain ⟨hbound, hexact⟩ := hclosed fd' hclose
  obtain ⟨overhead, hover, hexact⟩ := hexact rfl
  exact ⟨_, total, fd, s, _, fd', hopen, hrun, hclose, hbound (Nat.le_refl 4), overhead, hover,
    hexact⟩

/-- A process of another rank has its attributes counted and does not write them; and what was
counted is too little when a longer path is set afterwards. -/
theorem not_group_size_budget :
    (∃ g' total fd s log fd' overhead,
      commonAdiosGroupSize writeEnv (scalarGroup 1) 4 emptyFile = .ok (g', total, fd) ∧
      WriteRun plainWriter False (WriteFits plainWriter) (openedGroup g' fd) s log ∧
      commonAdiosClose writeEnv g' s.fd = .ok fd' ∧ log.map Completed.var = [0] ∧
      g'.vars.length = 1 ∧ calcOverheadV1 g' = .ok overhead ∧
      fd'.buf.offset ≠ (log.map (·.payload.length)).sum + overhead.toNat) ∧
    ∃ g' total fd s log,
      commonAdiosGroupSize writeEnv (scalarGroup 0) 4 emptyFile = .ok (g', total, fd) ∧
      WriteRun plainWriter True (fun _ _ => True) (openedGroup g' fd) s log ∧
      log.map Completed.var = [0] ∧ (log.map (·.payload.length)).sum ≤ 4 ∧
      ∃ fd', commonAdiosClose writeEnv g' s.fd = .ok fd' ∧ total.toNat < fd'.buf.offset := by
  constructor
  · have hstep : ∃ total fd s wrote fd' overhead,
        commonAdiosGroupSize writeEnv (scalarGroup 1) 4 emptyFile =
          .ok (scalarGroup 1, total, fd) ∧
        WriteStep plainWriter (openedGroup (scalarGroup 1) fd) 0 scalarWithData s wrote ∧
        commonAdiosClose writeEnv (scalarGroup 1) s.fd = .ok fd' ∧
        (completedWrite plainWriter (openedGroup (scalarGroup 1) fd) 0 scalarWithData s
          wrote).map Completed.var = [0] ∧
        calcOverheadV1 (scalarGroup 1) = .ok overhead ∧
        fd'.buf.offset ≠ ((completedWrite plainWriter (openedGroup (scalarGroup 1) fd) 0
          scalarWithData s wrote).map (·.payload.length)).sum + overhead.toNat :=
      ⟨_, _, _, _, _, _, rfl, ⟨some [1, 2, 3, 4], _, _, rfl, rfl, rfl, rfl⟩, rfl, rfl, rfl,
        by decide +kernel⟩
    obtain ⟨total, fd, s, wrote, fd', overhead, hopen, hstep, hclose, hlog, hover, hne⟩ := hstep
    exact ⟨scalarGroup 1, total, fd, s, _, fd', overhead, hopen,
      .write .opened (writeFits_scalar rfl) hstep, hclose, hlog, rfl, hover, hne⟩
  · have hstep : ∃ g' total fd s wrote fd',
        commonAdiosGroupSize writeEnv (scalarGroup 0) 4 emptyFile = .ok (g', total, fd) ∧
        g'.vars = [scalarVar] ∧
        WriteStep plainWriter { openedGroup g' fd with vars := [scalarOnPath] } 0
          { scalarOnPath with data := some [1, 2, 3, 4] } s wrote ∧
        (completedWrite plainWriter { openedGroup g' fd with vars := [scalarOnPath] } 0
          { scalarOnPath with data := some [1, 2, 3, 4] } s wrote).map Completed.var = [0] ∧
        ((completedWrite plainWriter { openedGroup g' fd with vars := [scalarOnPath] } 0
          { scalarOnPath with data := some [1, 2, 3, 4] } s wrote).map (·.payload.length)).sum ≤ 4 ∧
        commonAdiosClose writeEnv g' s.fd = .ok fd' ∧ total.toNat < fd'.buf.offset :=
      ⟨_, _, _, _, _, _, rfl, rfl, ⟨some [1, 2, 3, 4], _, _, rfl, rfl, rfl, rfl⟩, rfl,
        Nat.le_refl 4, rfl, by decide +kernel⟩
    obtain ⟨g', total, fd, s, wrote, fd', hopen, hvars, hstep, hlog, hsum, hclose, hlt⟩ := hstep
    have hpath : WriteRun plainWriter True (fun _ _ => True) (openedGroup g' fd)
        { openedGroup g' fd with vars := [scalarOnPath] } [] := by
      have hset : WriteRun plainWriter True (fun _ _ => True) (openedGroup g' fd)
          { openedGroup g' fd with vars := g'.vars.set 0 scalarOnPath } [] :=
        .setPath (v := scalarVar) scalarOnPath.path trivial .opened (congrArg (·[0]?) hvars)
      rwa [hvars] at hset
    exact ⟨g', total, fd, s, _, hopen, .write hpath trivial hstep, hlog, hsum, fd', hclose, hlt⟩

end Adios
