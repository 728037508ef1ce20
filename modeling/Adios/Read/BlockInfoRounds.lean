import Adios.Read.BlockInfo

/-!
# Adios — the rounds over the blocks

What one round of `inq_var_blockinfo` hands over, by the number of dimensions that are left, and
when all rounds over some sets hand over what was written.
-/

namespace Adios.BlockInfo

open List Lists VarSteps Wire WrittenArray

/-! ## Arrays -/

theorem map_some_prefix_iff {xs ys : List UInt64} {k : Nat} :
    xs.map some <+: ys.map some ++ List.replicate k none ↔ xs <+: ys := by
  induction xs generalizing ys with
  | nil => exact iff_of_true nil_prefix nil_prefix
  | cons x xs ih =>
    cases ys with
    | nil =>
      refine iff_of_false ?_ fun h => absurd (prefix_nil.mp h) (cons_ne_nil _ _)
      rintro ⟨t, ht⟩
      cases k with
      | zero => cases ht
      | succ k => simp [replicate_succ] at ht
    | cons y ys =>
      rw [map_cons, map_cons, cons_append, cons_prefix_cons,
        cons_prefix_cons, ih, Option.some.injEq]

theorem swapFirst_eq {n : Nat} {array : List (Option UInt64)} (h : n ≤ array.length) :
    swapFirst n array = (array.take n).reverse ++ array.drop n := by
  have hhalf := exchangeEnds_half (array.take n)
  rw [length_take, Nat.min_eq_left h] at hhalf
  rw [swapFirst, hhalf]

theorem length_swapFirst {n : Nat} {array : List (Option UInt64)} (h : n ≤ array.length) :
    (swapFirst n array).length = array.length := by
  rw [swapFirst_eq h, length_append, length_reverse, ← length_append, take_append_drop]

theorem take_swapFirst {n : Nat} {numbers : List UInt64} (h : n ≤ numbers.length) :
    (swapFirst n (numbers.map some)).take n = (cOrder true (numbers.take n)).map some := by
  have hlen : ((numbers.map some).take n).reverse.length = n := by
    rw [length_reverse, length_take, length_map]
    exact Nat.min_eq_left h
  rw [swapFirst_eq (by rwa [length_map]), take_left' hlen, cOrder, if_pos rfl,
    map_reverse, map_take]

theorem cOrder_inj {b : Bool} {xs ys : List UInt64} : cOrder b xs = cOrder b ys ↔ xs = ys := by
  cases b with
  | false => rfl
  | true => exact reverse_inj

section

variable {b : Bool} {xs ys : List UInt64}

theorem prefix_iff_eq (h : xs.length = ys.length) : cOrder b xs <+: cOrder b ys ↔ xs = ys := by
  constructor
  · intro hpre
    exact cOrder_inj.mp (hpre.eq_of_length (by rw [length_cOrder, length_cOrder, h]))
  · rintro rfl
    exact prefix_rfl

theorem prefix_iff_end (h : xs.length + 1 = ys.length) :
    cOrder b xs <+: cOrder b ys ↔ xs = if b then ys.tail else ys.dropLast := by
  have hlen : ys.length - 1 = xs.length := by omega
  cases b with
  | false =>
    show xs <+: ys ↔ xs = ys.dropLast
    rw [prefix_iff_eq_take, dropLast_eq_take, hlen]
  | true =>
    show xs.reverse <+: ys.reverse ↔ xs = ys.tail
    have hone : ys.length - xs.length = 1 := by omega
    rw [List.reverse_prefix, suffix_iff_eq_drop, hone, drop_one]

theorem not_prefix_of_lt (h : ys.length < xs.length) : ¬cOrder b xs <+: cOrder b ys :=
  fun hpre => by
    have hle := hpre.length_le
    rw [length_cOrder, length_cOrder] at hle
    omega

end

/-! ## The arrays without the time -/

namespace WrittenVar

variable {w : WrittenVar} {s : Setting} {c : IndexCharacteristic}

/-- What `bp_get_dimension_generic_notime` gives. -/
def noTime (w : WrittenVar) (s : Setting) (c : IndexCharacteristic) : DimArrays :=
  ((blockDims w.usePretransform c).arrays.toC s.fileIsFortran).extract s.fileIsFortran
    ((blockDims w.usePretransform c).arrays.hasTime s.fileIsFortran)

theorem toC_arrays (w : WrittenVar) (s : Setting) (c : IndexCharacteristic) :
    (blockDims w.usePretransform c).arrays.toC s.fileIsFortran =
      { isGlobal := w.IsGlobal c, ldims := w.cCount s c,
        gdims := cOrder s.fileIsFortran (w.gdims c), offsets := w.cStart s c } := by
  have hglobal : (w.gdims c).any (· ≠ 0) = decide (w.IsGlobal c) := by
    rw [Bool.eq_iff_iff, any_eq_true, decide_eq_true_iff]
    simp only [decide_eq_true_iff]
    rfl
  unfold DimArrays.toC cCount cStart
  rw [← hglobal]
  cases s.fileIsFortran with
  | false => rfl
  | true =>
    rw [if_pos rfl, swapOrder_eq_cOrder, swapOrder_eq_cOrder, swapOrder_eq_cOrder]
    rfl

theorem hasTime_arrays (w : WrittenVar) (s : Setting) (c : IndexCharacteristic) :
    (blockDims w.usePretransform c).arrays.hasTime s.fileIsFortran =
      decide (w.LooksTimed s c) := by
  rw [Bool.eq_iff_iff, decide_eq_true_iff]
  unfold DimArrays.hasTime LooksTimed cCount
  cases s.fileIsFortran with
  | false => exact decide_eq_true_iff
  | true =>
    rw [if_pos rfl, cOrder, if_pos rfl, List.head?_reverse]
    exact decide_eq_true_iff

theorem wf_of_mem (hc : c ∈ w.var.characteristics) : (blockDims w.usePretransform c).Wf :=
  (w.same c hc).2

theorem length_cCount (hc : c ∈ w.var.characteristics) :
    (w.cCount s c).length = w.count.toNat := by
  rw [cCount, length_cOrder, ldims, Dims.length_numbers, (w.same c hc).1]

theorem length_cStart (hc : c ∈ w.var.characteristics) :
    (w.cStart s c).length = w.count.toNat := by
  rw [cStart, length_cOrder, offsets, Dims.length_numbers, (w.same c hc).1]

theorem noTime_of_not_looks (h : ¬w.LooksTimed s c) :
    (w.noTime s c).ldims = w.cCount s c ∧ (w.noTime s c).offsets = w.cStart s c := by
  rw [noTime, toC_arrays, hasTime_arrays, decide_eq_false h, DimArrays.extract]
  split <;> exact ⟨rfl, rfl⟩

theorem ldims_of_looks (h : w.LooksTimed s c) : ∃ z, (w.noTime s c).ldims =
    (w.cCount s c).tail ++ [z] ∧ (w.IsGlobal c → z = 0) ∧
      (¬w.IsGlobal c → (w.cCount s c).getLast? = some z) := by
  have hne : w.cCount s c ≠ [] := fun hnil => by
    have hhead := h.2
    rw [hnil] at hhead
    cases hhead
  rw [noTime, toC_arrays, hasTime_arrays, decide_eq_true h, DimArrays.extract]
  by_cases hglobal : w.IsGlobal c
  · refine ⟨0, ?_, fun _ => rfl, fun hlocal => absurd hglobal hlocal⟩
    rw [decide_eq_true hglobal, if_neg Bool.noConfusion, if_pos rfl, ← shiftInto_set hne]
    split <;> rfl
  · refine ⟨(w.cCount s c).getLast hne, ?_, fun hg => absurd hg hglobal, fun _ =>
      List.getLast?_eq_some_getLast hne⟩
    rw [decide_eq_false hglobal, if_pos rfl, if_neg Bool.noConfusion]
    show shiftInto (w.cCount s c) (w.cCount s c) = _
    rw [shiftInto_eq rfl, drop_length_sub_one hne]

theorem offsets_eq (hne : w.cStart s c ≠ []) : (w.noTime s c).offsets =
    if w.LooksTimed s c ∧ w.IsGlobal c ∧ s.fileIsFortran = true then (w.cStart s c).tail ++ [0]
    else w.cStart s c := by
  by_cases h : w.LooksTimed s c
  · rw [noTime, toC_arrays, hasTime_arrays, decide_eq_true h, DimArrays.extract]
    by_cases hglobal : w.IsGlobal c
    · rw [decide_eq_true hglobal, if_neg Bool.noConfusion, if_pos rfl]
      cases hfile : s.fileIsFortran with
      | false => rw [if_pos rfl, if_neg fun hf => Bool.noConfusion hf.2.2]
      | true =>
        rw [if_neg Bool.noConfusion, if_pos ⟨h, hglobal, rfl⟩, ← shiftInto_set hne]
    · rw [decide_eq_false hglobal, if_pos rfl, if_neg Bool.noConfusion,
        if_neg fun hf => hglobal hf.2.1]
  · rw [(noTime_of_not_looks h).2, if_neg fun hf => h hf.1]

theorem getLast?_noTime : (w.noTime s c).ldims.getLast? = some 0 ↔ w.LastZero s c := by
  by_cases h : w.LooksTimed s c
  · obtain ⟨z, hz, hglobal, hlocal⟩ := ldims_of_looks h
    rw [hz, List.getLast?_concat]
    by_cases hg : w.IsGlobal c
    · exact iff_of_true (congrArg some (hglobal hg)) (.inl ⟨h, hg⟩)
    · rw [LastZero, or_iff_right fun hf => hg hf.2, hlocal hg]
  · rw [(noTime_of_not_looks h).1, LastZero, or_iff_right fun hf => h hf.1]

theorem dropLast_ldims : (w.noTime s c).ldims.dropLast =
    if w.LooksTimed s c then (w.cCount s c).tail else (w.cCount s c).dropLast := by
  by_cases h : w.LooksTimed s c
  · obtain ⟨z, hz, -, -⟩ := ldims_of_looks h
    rw [hz, dropLast_concat, if_pos h]
  · rw [(noTime_of_not_looks h).1, if_neg h]

theorem dropLast_offsets (hne : w.cStart s c ≠ []) : (w.noTime s c).offsets.dropLast =
    if w.LooksTimed s c ∧ w.IsGlobal c ∧ s.fileIsFortran = true then (w.cStart s c).tail
    else (w.cStart s c).dropLast := by
  rw [offsets_eq hne]
  split
  · exact dropLast_concat
  · rfl

theorem length_noTime (hc : c ∈ w.var.characteristics) :
    (w.noTime s c).ldims.length = w.count.toNat ∧ (w.noTime s c).gdims.length = w.count.toNat ∧
      (w.noTime s c).offsets.length = w.count.toNat := by
  have hcount : (w.cCount s c).length = w.count.toNat := length_cCount hc
  have hstart : (w.cStart s c).length = w.count.toNat := length_cStart hc
  have hglobal : (cOrder s.fileIsFortran (w.gdims c)).length = w.count.toNat := by
    rw [length_cOrder, gdims, Dims.length_numbers, (w.same c hc).1]
  have hshift : ∀ {xs ys : List UInt64}, xs.length = w.count.toNat → ys.length = w.count.toNat →
      (shiftInto xs ys).length = w.count.toNat := fun {xs ys} hxs hys => by
    rw [shiftInto_eq (hys.trans hxs.symm), length_append, length_tail, length_drop]
    omega
  rw [noTime, toC_arrays, DimArrays.extract]
  split_ifs <;> simp only [length_set, hshift, hcount, hstart, hglobal, and_self]

end WrittenVar

/-! ## One round -/

structure Shared.Sized (st : Shared) (n : Nat) : Prop where
  ldims : st.ldims.length = n
  gdims : st.gdims.length = n
  offsets : st.offsets.length = n
  le : st.dimcount ≤ n

namespace WrittenVar

variable {w : WrittenVar} {s : Setting} {c : IndexCharacteristic} {st : Shared} {n d : Nat}

def left (w : WrittenVar) (s : Setting) (d : Nat) (c : IndexCharacteristic) : Nat :=
  if (w.noTime s c).ldims[d - 1]? = some 0 then d - 1 else d

theorem left_le : w.left s d c ≤ d := by
  unfold left
  split <;> omega

theorem overwrite_eq {array : List (Option UInt64)} {numbers : List UInt64}
    (h : numbers.length = array.length) : overwrite array numbers = .ok (numbers.map some) := by
  rw [overwrite, if_pos (Nat.le_of_eq h), h, drop_length, append_nil]

def stored (w : WrittenVar) (s : Setting) (c : IndexCharacteristic) (d : Nat) : Shared where
  dimcount := d
  ldims := (w.noTime s c).ldims.map some
  gdims := (w.noTime s c).gdims.map some
  offsets := (w.noTime s c).offsets.map some

theorem fill_eq (hc : c ∈ w.var.characteristics) (hcount : w.count ≠ 0)
    (hst : st.Sized w.count.toNat) :
    st.fill s (some (blockDims w.usePretransform c)) = .ok (w.stored s c st.dimcount) := by
  obtain ⟨hl, hg, ho⟩ := length_noTime hc (s := s)
  have hne : (blockDims w.usePretransform c).count ≠ 0 := (w.same c hc).1 ▸ hcount
  show (do
    let a ← bpGetDimensionGenericNotime (blockDims w.usePretransform c) s.fileIsFortran
    _) = _
  rw [bpGetDimensionGenericNotime_of_wf (wf_of_mem hc) hne]
  show (do
    let ldims ← overwrite st.ldims (w.noTime s c).ldims
    let gdims ← overwrite st.gdims (w.noTime s c).gdims
    let offsets ← overwrite st.offsets (w.noTime s c).offsets
    Except.ok { st with ldims, gdims, offsets }) = _
  rw [overwrite_eq (hl.trans hst.ldims.symm), ok_bind, overwrite_eq (hg.trans hst.gdims.symm),
    ok_bind, overwrite_eq (ho.trans hst.offsets.symm), ok_bind]
  rfl

theorem shorten_stored (hpos : 0 < d) (hlt : d ≤ (w.noTime s c).ldims.length) :
    (w.stored s c d).shorten = .ok (w.stored s c (w.left s d c)) := by
  have hplace : d - 1 < (w.noTime s c).ldims.length := by omega
  have hget : (w.stored s c d).ldims[(w.stored s c d).dimcount - 1]? =
      some (some (w.noTime s c).ldims[d - 1]) := by
    show ((w.noTime s c).ldims.map some)[d - 1]? = _
    rw [getElem?_map, getElem?_eq_getElem hplace]
    rfl
  have hne : (w.stored s c d).dimcount ≠ 0 := Nat.ne_of_gt hpos
  rw [Shared.shorten, if_neg hne, hget]
  show Except.ok (if _ then _ else _) = _
  rw [left, getElem?_eq_getElem hplace]
  by_cases hzero : (w.noTime s c).ldims[d - 1] = 0
  · rw [if_pos hzero, if_pos (congrArg some hzero)]
    rfl
  · rw [if_neg hzero, if_neg fun h => hzero (Option.some.inj h)]

theorem dimcount_toCaller : (st.toCaller s).dimcount = st.dimcount := by
  unfold Shared.toCaller
  split <;> rfl

theorem sized_toCaller (h : st.Sized n) : (st.toCaller s).Sized n := by
  unfold Shared.toCaller
  split
  · exact ⟨(length_swapFirst (h.ldims ▸ h.le)).trans h.ldims, h.gdims,
      (length_swapFirst (h.offsets ▸ h.le)).trans h.offsets, h.le⟩
  · exact h

theorem sized_stored (hc : c ∈ w.var.characteristics) (hd : d ≤ w.count.toNat) :
    (w.stored s c d).Sized w.count.toNat := by
  obtain ⟨hl, hg, ho⟩ := length_noTime hc (s := s)
  exact ⟨(length_map _).trans hl, (length_map _).trans hg, (length_map _).trans ho,
    hd⟩

theorem copied_toCaller (hc : c ∈ w.var.characteristics) (hd : d ≤ w.count.toNat) (room : Nat) :
    copied room d ((w.stored s c d).toCaller s).ldims =
        (cOrder s.calledFromFortran ((w.noTime s c).ldims.take d)).map some ++
          List.replicate (room - d) none ∧
      copied room d ((w.stored s c d).toCaller s).offsets =
        (cOrder s.calledFromFortran ((w.noTime s c).offsets.take d)).map some ++
          List.replicate (room - d) none := by
  obtain ⟨hl, -, ho⟩ := length_noTime hc (s := s)
  unfold copied Shared.toCaller
  cases s.calledFromFortran with
  | false =>
    rw [if_neg Bool.noConfusion]
    show ((w.noTime s c).ldims.map some).take d ++ _ = _ ∧
      ((w.noTime s c).offsets.map some).take d ++ _ = _
    rw [← map_take, ← map_take]
    exact ⟨rfl, rfl⟩
  | true =>
    rw [if_pos rfl]
    show (swapFirst d ((w.noTime s c).ldims.map some)).take d ++ _ = _ ∧
      (swapFirst d ((w.noTime s c).offsets.map some)).take d ++ _ = _
    rw [take_swapFirst (hl.symm ▸ hd), take_swapFirst (ho.symm ▸ hd)]
    exact ⟨rfl, rfl⟩

theorem blockRound_eq (hc : c ∈ w.var.characteristics) (hcount : w.count ≠ 0)
    (hst : st.Sized w.count.toNat) (hpos : 0 < st.dimcount) :
    blockRound s (some (blockDims w.usePretransform c)) st =
      .ok ((w.stored s c (w.left s st.dimcount c)).toCaller s,
        { start := copied st.dimcount (w.left s st.dimcount c)
            ((w.stored s c (w.left s st.dimcount c)).toCaller s).offsets
          count := copied st.dimcount (w.left s st.dimcount c)
            ((w.stored s c (w.left s st.dimcount c)).toCaller s).ldims }) := by
  have hlt : st.dimcount ≤ (w.noTime s c).ldims.length := (length_noTime hc).1.symm ▸ hst.le
  rw [blockRound, fill_eq hc hcount hst, ok_bind, shorten_stored hpos hlt, ok_bind]
  dsimp only
  rw [dimcount_toCaller]
  rfl

/-! ## The rounds over some sets -/

def RightFrom (w : WrittenVar) (s : Setting) (cs : List IndexCharacteristic) (st : Shared) :
    Prop :=
  ∃ blocks, fileLoop s (cs.map (blockDims w.usePretransform)) st = .ok blocks ∧
    Forall₂ (w.BlockRight s) cs blocks

/-- What the caller sees with `d` dimensions left is what was written. -/
structure Handed (w : WrittenVar) (s : Setting) (d : Nat) (c : IndexCharacteristic) : Prop where
  count : cOrder s.calledFromFortran (cOrder s.fileIsFortran (w.writtenCount c)) <+:
    cOrder s.calledFromFortran ((w.noTime s c).ldims.take d)
  start : cOrder s.calledFromFortran (cOrder s.fileIsFortran (w.writtenStart c)) <+:
    cOrder s.calledFromFortran ((w.noTime s c).offsets.take d)

theorem rightFrom_nil : w.RightFrom s [] st := ⟨[], rfl, Forall₂.nil⟩

theorem rightFrom_cons (cs : List IndexCharacteristic) (hc : c ∈ w.var.characteristics)
    (hcount : w.count ≠ 0) (hst : st.Sized w.count.toNat) (hpos : 0 < st.dimcount) :
    ∃ st', st'.Sized w.count.toNat ∧ st'.dimcount = w.left s st.dimcount c ∧
      (w.RightFrom s (c :: cs) st ↔
        w.Handed s (w.left s st.dimcount c) c ∧ w.RightFrom s cs st') := by
  have hd : w.left s st.dimcount c ≤ w.count.toNat := Nat.le_trans left_le hst.le
  refine ⟨(w.stored s c (w.left s st.dimcount c)).toCaller s, sized_toCaller (sized_stored hc hd),
    dimcount_toCaller, ?_⟩
  obtain ⟨hcounts, hstarts⟩ := @copied_toCaller w s c _ hc hd st.dimcount
  have hright : w.BlockRight s c
      { start := copied st.dimcount (w.left s st.dimcount c)
          ((w.stored s c (w.left s st.dimcount c)).toCaller s).offsets
        count := copied st.dimcount (w.left s st.dimcount c)
          ((w.stored s c (w.left s st.dimcount c)).toCaller s).ldims } ↔
      w.Handed s (w.left s st.dimcount c) c := by
    rw [hcounts, hstarts]
    exact ⟨fun h => ⟨map_some_prefix_iff.mp h.count, map_some_prefix_iff.mp h.start⟩,
      fun h => ⟨map_some_prefix_iff.mpr h.start, map_some_prefix_iff.mpr h.count⟩⟩
  have hround := @blockRound_eq w s c st hc hcount hst hpos
  constructor
  · rintro ⟨blocks, hrun, hblocks⟩
    rw [map_cons, fileLoop, hround, ok_bind] at hrun
    obtain ⟨rest, hrest, hcons⟩ := exists_of_bind_eq_ok hrun
    obtain rfl := Except.ok.inj hcons
    obtain ⟨hblock, hblocks⟩ := forall₂_cons.mp hblocks
    exact ⟨hright.mp hblock, rest, hrest, hblocks⟩
  · rintro ⟨hblock, rest, hrest, hblocks⟩
    refine ⟨_ :: rest, ?_, Forall₂.cons (hright.mpr hblock) hblocks⟩
    rw [map_cons, fileLoop, hround, ok_bind, hrest]
    rfl

/-! ## What is handed over -/

theorem cOrder_without (e : TimeEnd) (xs : List UInt64) : cOrder s.fileIsFortran (e.without xs) =
    if slowest s e = true then (cOrder s.fileIsFortran xs).tail
    else (cOrder s.fileIsFortran xs).dropLast := by
  unfold slowest
  cases s.fileIsFortran with
  | false => cases e <;> rfl
  | true =>
    cases e with
    | first =>
      show xs.tail.reverse = xs.reverse.dropLast
      exact dropLast_reverse.symm
    | last =>
      show xs.dropLast.reverse = xs.reverse.tail
      exact tail_reverse.symm

theorem writtenCount_of_none (htime : w.time = none) :
    cOrder s.fileIsFortran (w.writtenCount c) = w.cCount s c := by
  rw [writtenCount, htime]
  rfl

theorem writtenStart_of_none (htime : w.time = none) :
    cOrder s.fileIsFortran (w.writtenStart c) = w.cStart s c := by
  rw [writtenStart, htime]
  rfl

variable {e : TimeEnd}

theorem writtenCount_of_some (htime : w.time = some e) :
    cOrder s.fileIsFortran (w.writtenCount c) =
      if slowest s e = true then (w.cCount s c).tail else (w.cCount s c).dropLast := by
  rw [writtenCount, htime]
  exact cOrder_without e _

theorem writtenStart_of_some (htime : w.time = some e) :
    cOrder s.fileIsFortran (w.writtenStart c) =
      if w.startSlowest s e = true then (w.cStart s c).tail else (w.cStart s c).dropLast := by
  rw [writtenStart, htime, startSlowest]
  dsimp only
  cases w.offsetsTimed with
  | false =>
    show cOrder s.fileIsFortran (w.offsets c).dropLast =
      if s.fileIsFortran = true then (w.cStart s c).tail else (w.cStart s c).dropLast
    unfold cStart
    cases s.fileIsFortran with
    | false => rfl
    | true => exact tail_reverse.symm
  | true => exact cOrder_without e _

theorem length_writtenCount (hc : c ∈ w.var.characteristics) (htime : w.time = some e) :
    (cOrder s.fileIsFortran (w.writtenCount c)).length = w.count.toNat - 1 := by
  rw [writtenCount_of_some htime]
  split <;> simp only [length_tail, length_dropLast, length_cCount hc]

theorem length_writtenStart (hc : c ∈ w.var.characteristics) (htime : w.time = some e) :
    (cOrder s.fileIsFortran (w.writtenStart c)).length = w.count.toNat - 1 := by
  rw [writtenStart_of_some htime]
  split <;> simp only [length_tail, length_dropLast, length_cStart hc]

theorem pos_of_ne (hcount : w.count ≠ 0) : 0 < w.count.toNat :=
  Nat.pos_of_ne_zero fun h => hcount (UInt8.toNat_inj.mp h)

theorem cStart_ne_nil (hc : c ∈ w.var.characteristics) (hcount : w.count ≠ 0) :
    w.cStart s c ≠ [] :=
  ne_nil_of_length_pos ((length_cStart hc (s := s)).symm ▸ pos_of_ne hcount)

theorem time_cCount (hc : c ∈ w.var.characteristics) (htime : w.time = some e) :
    if slowest s e = true then (w.cCount s c).head? = some 1
    else (w.cCount s c).getLast? = some 1 := by
  have hone := w.one e (htime ▸ rfl) c hc
  unfold slowest cCount
  cases s.fileIsFortran with
  | false => cases e <;> exact hone
  | true =>
    cases e with
    | first =>
      show (w.ldims c).reverse.getLast? = some 1
      rw [List.getLast?_reverse]
      exact hone
    | last =>
      show (w.ldims c).reverse.head? = some 1
      rw [List.head?_reverse]
      exact hone

theorem handed_iff_fits (hc : c ∈ w.var.characteristics) (hcount : w.count ≠ 0)
    (htime : w.time = some e) : w.Handed s (w.count.toNat - 1) c ↔ w.Fits s e c := by
  obtain ⟨hl, -, ho⟩ := length_noTime hc (s := s)
  have hne := cStart_ne_nil hc hcount (s := s)
  have hcounts : cOrder s.calledFromFortran (cOrder s.fileIsFortran (w.writtenCount c)) <+:
      cOrder s.calledFromFortran ((w.noTime s c).ldims.take (w.count.toNat - 1)) ↔
      (w.LooksTimed s c ↔ slowest s e = true) ∨ AllEqual (w.cCount s c) := by
    rw [prefix_iff_eq (by rw [length_writtenCount hc htime, length_take, hl]; omega), ← hl,
      ← dropLast_eq_take, dropLast_ldims, writtenCount_of_some htime, eq_comm]
    exact end_eq_end_iff
  have hstarts : cOrder s.calledFromFortran (cOrder s.fileIsFortran (w.writtenStart c)) <+:
      cOrder s.calledFromFortran ((w.noTime s c).offsets.take (w.count.toNat - 1)) ↔
      (w.LooksTimed s c ∧ w.IsGlobal c ∧ s.fileIsFortran = true ↔ w.startSlowest s e = true) ∨
        AllEqual (w.cStart s c) := by
    rw [prefix_iff_eq (by rw [length_writtenStart hc htime, length_take, ho]; omega), ← ho,
      ← dropLast_eq_take, dropLast_offsets hne, writtenStart_of_some htime, eq_comm]
    exact end_eq_end_iff
  exact ⟨fun h => ⟨hcounts.mp h.count, hstarts.mp h.start⟩,
    fun h => ⟨hcounts.mpr h.count, hstarts.mpr h.start⟩⟩

theorem allEqual_iff_of_mem {xs : List UInt64} {z : UInt64} (hz : z ∈ xs) :
    AllEqual xs ↔ ∀ x ∈ xs, x = z :=
  ⟨fun h x hx => h x hx z hz, fun h x hx y hy => (h x hx).trans (h y hy).symm⟩

theorem tail_eq_iff_of_looks (hc : c ∈ w.var.characteristics) (htime : w.time = some e)
    (hlooks : w.LooksTimed s c) (hlocal : ¬w.IsGlobal c) :
    (if slowest s e = true then (w.cCount s c).tail else (w.cCount s c).dropLast) =
        (w.noTime s c).ldims.tail ↔
      AllEqual (if slowest s e = true then (w.cCount s c).tail else w.cCount s c) := by
  obtain ⟨z, hz, -, hlast⟩ := ldims_of_looks hlooks
  have hone := time_cCount hc htime (s := s)
  rw [hz]
  obtain ⟨ys, hys⟩ := List.head?_eq_some_iff.mp hlooks.2
  rw [hys] at hlast hone ⊢
  rcases eq_nil_or_concat ys with rfl | ⟨zs, y, hconcat⟩
  · -- one dimension
    split <;> simp [AllEqual]
  · rw [concat_eq_append] at hconcat
    have hne : ys ≠ [] := hconcat ▸ append_ne_nil_of_right_ne_nil _ (cons_ne_nil _ _)
    obtain rfl : y = z := by
      have hget := hlast hlocal
      rw [hconcat, ← cons_append, List.getLast?_concat] at hget
      exact Option.some.inj hget
    have hmem : y ∈ ys := hconcat ▸ mem_append_right _ (mem_singleton_self y)
    rw [tail_cons, tail_append_of_ne_nil hne]
    by_cases hslow : slowest s e = true
    · rw [if_pos hslow, if_pos hslow, eq_tail_append_iff hne, allEqual_iff_of_mem hmem]
    · rw [if_neg hslow] at hone
      rw [if_neg hslow, if_neg hslow]
      -- the time is the last one, and the first one is 1 too
      obtain rfl : y = 1 := by
        rw [hlast hlocal] at hone
        exact Option.some.inj hone
      have htwo : 2 ≤ (1 :: ys).length := by
        have hpos := length_pos_of_ne_nil hne
        rw [length_cons]
        omega
      have hall := @eq_drop_append_replicate_iff _ (1 :: ys) 2 1 (by decide) htwo
      rw [allEqual_iff_of_mem mem_cons_self, ← hall, ← append_cancel_right_eq _ [1]]
      have hback : (1 :: ys).dropLast ++ [1] = 1 :: ys := by
        rw [hconcat, ← cons_append, dropLast_concat]
      have hfront : ys.tail ++ [1] ++ [1] = (1 :: ys).drop 2 ++ List.replicate 2 1 := by
        rw [append_assoc, drop_succ_cons, drop_one]
        rfl
      rw [hback, hfront]

theorem handed_iff_fitsBehind (hc : c ∈ w.var.characteristics) (hcount : w.count ≠ 0)
    (htime : w.time = some e) (hzero : ¬w.LastZero s c) :
    w.Handed s w.count.toNat c ↔
      if s.calledFromFortran then w.FitsBehind s e c else w.Fits s e c := by
  obtain ⟨hl, -, ho⟩ := length_noTime hc (s := s)
  have hpos := pos_of_ne hcount
  have hnot : ¬(w.LooksTimed s c ∧ w.IsGlobal c) := fun h => hzero (.inl h)
  have hlocal : (w.noTime s c).offsets = w.cStart s c := by
    rw [offsets_eq (cStart_ne_nil hc hcount), if_neg fun h => hnot ⟨h.1, h.2.1⟩]
  have hcounts : cOrder s.calledFromFortran (cOrder s.fileIsFortran (w.writtenCount c)) <+:
      cOrder s.calledFromFortran ((w.noTime s c).ldims.take w.count.toNat) ↔
      (if slowest s e = true then (w.cCount s c).tail else (w.cCount s c).dropLast) =
        if s.calledFromFortran then (w.noTime s c).ldims.tail
        else (w.noTime s c).ldims.dropLast := by
    rw [take_of_length_le (Nat.le_of_eq hl), prefix_iff_end (by
      rw [length_writtenCount hc htime, hl]
      omega), writtenCount_of_some htime]
  have hstarts : cOrder s.calledFromFortran (cOrder s.fileIsFortran (w.writtenStart c)) <+:
      cOrder s.calledFromFortran ((w.noTime s c).offsets.take w.count.toNat) ↔
      (if w.startSlowest s e = true then (w.cStart s c).tail else (w.cStart s c).dropLast) =
        if s.calledFromFortran then (w.cStart s c).tail else (w.cStart s c).dropLast := by
    rw [take_of_length_le (Nat.le_of_eq ho), prefix_iff_end (by
      rw [length_writtenStart hc htime, ho]
      omega), writtenStart_of_some htime, hlocal]
  have hhanded : w.Handed s w.count.toNat c ↔ _ ∧ _ :=
    ⟨fun h => ⟨hcounts.mp h.count, hstarts.mp h.start⟩,
      fun h => ⟨hcounts.mpr h.1, hstarts.mpr h.2⟩⟩
  rw [hhanded]
  by_cases hcalled : s.calledFromFortran = true
  · rw [if_pos hcalled, if_pos hcalled, if_pos hcalled]
    have hstart : (if w.startSlowest s e = true then (w.cStart s c).tail
          else (w.cStart s c).dropLast) = (w.cStart s c).tail ↔
        w.startSlowest s e = true ∨ AllEqual (w.cStart s c) := by
      have hends := @end_eq_end_iff _ (w.startSlowest s e = true) True _ _ (w.cStart s c)
      rw [if_pos trivial, iff_true] at hends
      exact hends
    have hcount : (if slowest s e = true then (w.cCount s c).tail
          else (w.cCount s c).dropLast) = (w.noTime s c).ldims.tail ↔
        if w.LooksTimed s c then
          AllEqual (if slowest s e then (w.cCount s c).tail else w.cCount s c)
        else slowest s e = true ∨ AllEqual (w.cCount s c) := by
      by_cases hlooks : w.LooksTimed s c
      · rw [if_pos hlooks]
        exact tail_eq_iff_of_looks hc htime hlooks fun hg => hnot ⟨hlooks, hg⟩
      · rw [if_neg hlooks, (noTime_of_not_looks hlooks).1]
        have hends := @end_eq_end_iff _ (slowest s e = true) True _ _ (w.cCount s c)
        rw [if_pos trivial, iff_true] at hends
        exact hends
    rw [hstart, hcount]
    exact ⟨fun h => ⟨h.1, h.2⟩, fun h => ⟨h.count, h.start⟩⟩
  · rw [if_neg hcalled, if_neg hcalled, if_neg hcalled, dropLast_ldims, eq_comm, end_eq_end_iff]
    have hstart : (if w.startSlowest s e = true then (w.cStart s c).tail
          else (w.cStart s c).dropLast) = (w.cStart s c).dropLast ↔
        (w.LooksTimed s c ∧ w.IsGlobal c ∧ s.fileIsFortran = true ↔ w.startSlowest s e = true) ∨
          AllEqual (w.cStart s c) := by
      have hends := @end_eq_end_iff _ (w.LooksTimed s c ∧ w.IsGlobal c ∧ s.fileIsFortran = true)
        (w.startSlowest s e = true) _ _ (w.cStart s c)
      rw [if_neg fun h => hnot ⟨h.1, h.2.1⟩, eq_comm] at hends
      exact hends
    rw [hstart]
    exact ⟨fun h => ⟨h.1, h.2⟩, fun h => ⟨h.count, h.start⟩⟩

/-! ## All rounds -/

theorem left_of_count (hc : c ∈ w.var.characteristics) :
    w.left s w.count.toNat c =
      if w.LastZero s c then w.count.toNat - 1 else w.count.toNat := by
  have hlast : (w.noTime s c).ldims[w.count.toNat - 1]? = (w.noTime s c).ldims.getLast? := by
    rw [List.getLast?_eq_getElem?, (length_noTime hc).1]
  rw [left, hlast]
  exact if_congr getLast?_noTime rfl rfl

theorem not_handed_of_lt
    (h : d < (cOrder s.fileIsFortran (w.writtenCount c)).length) : ¬w.Handed s d c := fun hh =>
  not_prefix_of_lt (Nat.lt_of_le_of_lt (length_take_le d _) h) hh.count

theorem handed_of_none_iff (hc : c ∈ w.var.characteristics) (hcount : w.count ≠ 0)
    (htime : w.time = none) : w.Handed s (w.left s w.count.toNat c) c ↔
      (w.cCount s c).getLast? ≠ some 0 ∧
        (w.LooksTimed s c → ¬w.IsGlobal c ∧ AllEqual (w.cCount s c)) := by
  obtain ⟨hl, -, ho⟩ := length_noTime hc (s := s)
  have hpos := pos_of_ne hcount
  rw [left_of_count hc]
  by_cases hzero : w.LastZero s c
  · refine iff_of_false ?_ ?_
    · rw [if_pos hzero]
      refine not_handed_of_lt ?_
      rw [writtenCount_of_none htime, length_cCount hc]
      omega
    · rintro ⟨hlast, hlocal⟩
      obtain ⟨hlooks, hglobal⟩ | hlast' := hzero
      · exact (hlocal hlooks).1 hglobal
      · exact hlast hlast'
  · rw [if_neg hzero]
    obtain ⟨hnot, hlast⟩ := not_or.mp hzero
    have hoffsets : (w.noTime s c).offsets = w.cStart s c := by
      rw [offsets_eq (cStart_ne_nil hc hcount), if_neg fun h => hnot ⟨h.1, h.2.1⟩]
    have hstart : cOrder s.calledFromFortran (cOrder s.fileIsFortran (w.writtenStart c)) <+:
        cOrder s.calledFromFortran ((w.noTime s c).offsets.take w.count.toNat) := by
      rw [take_of_length_le (Nat.le_of_eq ho), hoffsets, writtenStart_of_none htime]
    have hcounts : cOrder s.calledFromFortran (cOrder s.fileIsFortran (w.writtenCount c)) <+:
        cOrder s.calledFromFortran ((w.noTime s c).ldims.take w.count.toNat) ↔
        w.cCount s c = (w.noTime s c).ldims := by
      rw [take_of_length_le (Nat.le_of_eq hl), writtenCount_of_none htime,
        prefix_iff_eq ((length_cCount hc).trans hl.symm)]
    have hhanded : w.Handed s w.count.toNat c ↔ w.cCount s c = (w.noTime s c).ldims :=
      ⟨fun h => hcounts.mp h.count, fun h => ⟨hcounts.mpr h, hstart⟩⟩
    rw [hhanded, and_iff_right hlast]
    by_cases hlooks : w.LooksTimed s c
    · have hlocal : ¬w.IsGlobal c := fun hg => hnot ⟨hlooks, hg⟩
      obtain ⟨z, hz, -, hget⟩ := ldims_of_looks hlooks
      have hmem : z ∈ w.cCount s c := mem_of_getLast? (hget hlocal)
      rw [hz, eq_tail_append_iff (ne_nil_of_mem hmem), ← allEqual_iff_of_mem hmem]
      exact ⟨fun h _ => ⟨hlocal, h⟩, fun h => (h hlooks).2⟩
    · exact iff_of_true (noTime_of_not_looks hlooks).1.symm fun h => absurd h hlooks

variable {cs : List IndexCharacteristic}

theorem rightFrom_of_none_iff (hcount : w.count ≠ 0) (htime : w.time = none)
    (hcs : ∀ c ∈ cs, c ∈ w.var.characteristics) (hst : st.Sized w.count.toNat)
    (hd : st.dimcount = w.count.toNat) :
    w.RightFrom s cs st ↔ ∀ c ∈ cs, (w.cCount s c).getLast? ≠ some 0 ∧
      (w.LooksTimed s c → ¬w.IsGlobal c ∧ AllEqual (w.cCount s c)) := by
  induction cs generalizing st with
  | nil => exact iff_of_true rightFrom_nil fun c hc => absurd hc not_mem_nil
  | cons c cs ih =>
    obtain ⟨hc, hcs⟩ := forall_mem_cons.mp hcs
    obtain ⟨st', hst', hleft, hcons⟩ := rightFrom_cons cs hc hcount hst
      (hd ▸ pos_of_ne hcount)
    rw [hcons, hd, forall_mem_cons, handed_of_none_iff hc hcount htime]
    refine and_congr_right fun hright => ih hcs hst' ?_
    rw [hleft, hd, left_of_count hc, if_neg]
    rintro (⟨hlooks, hglobal⟩ | hlast)
    · exact (hright.2 hlooks).1 hglobal
    · exact hright.1 hlast

theorem getLast?_writtenCount (hc : c ∈ w.var.characteristics) (htime : w.time = some e)
    (hcount : 2 ≤ w.count.toNat) (h : w.Handed s (w.count.toNat - 1) c) :
    (cOrder s.fileIsFortran (w.writtenCount c)).getLast? =
      (w.noTime s c).ldims[w.count.toNat - 1 - 1]? := by
  have hlen := length_writtenCount hc htime (s := s)
  have heq := (prefix_iff_eq (by rw [hlen, length_take, (length_noTime hc).1]; omega)).mp
    h.count
  rw [List.getLast?_eq_getElem?, hlen, heq, getElem?_take_of_lt (by omega)]

theorem rightFrom_behind_iff (hcount : 2 ≤ w.count.toNat) (htime : w.time = some e)
    (hcs : ∀ c ∈ cs, c ∈ w.var.characteristics) (hst : st.Sized w.count.toNat)
    (hd : st.dimcount = w.count.toNat - 1) :
    w.RightFrom s cs st ↔ (∀ c ∈ cs, w.Fits s e c) ∧
      ∀ c ∈ cs, (cOrder s.fileIsFortran (w.writtenCount c)).getLast? ≠ some 0 := by
  have hne : w.count ≠ 0 := fun h => by
    rw [h] at hcount
    exact absurd hcount (by decide)
  induction cs generalizing st with
  | nil =>
    exact iff_of_true rightFrom_nil
      ⟨fun c hc => absurd hc not_mem_nil, fun c hc => absurd hc not_mem_nil⟩
  | cons c cs ih =>
    obtain ⟨hc, hcs⟩ := forall_mem_cons.mp hcs
    obtain ⟨st', hst', hleft, hcons⟩ := rightFrom_cons cs hc hne hst (by omega)
    rw [hcons, hd, forall_mem_cons, forall_mem_cons]
    have hfits := handed_iff_fits hc hne htime (s := s)
    by_cases hzero : (w.noTime s c).ldims[w.count.toNat - 1 - 1]? = some 0
    · -- one dimension too few is left
      refine iff_of_false (fun h => not_handed_of_lt ?_ h.1) fun h => ?_
      · rw [length_writtenCount hc htime, left, if_pos hzero]
        omega
      · exact h.2.1 ((getLast?_writtenCount hc htime hcount (hfits.mpr h.1.1)).trans hzero)
    · have hstay : w.left s (w.count.toNat - 1) c = w.count.toNat - 1 := if_neg hzero
      have hd' : st'.dimcount = w.count.toNat - 1 := by rw [hleft, hd, hstay]
      have hrest : w.RightFrom s cs st' ↔ _ := ih hcs hst' hd'
      rw [hstay, hfits, hrest]
      constructor
      · rintro ⟨hc', hfit, hlast⟩
        refine ⟨⟨hc', hfit⟩, ?_, hlast⟩
        rw [getLast?_writtenCount hc htime hcount (hfits.mpr hc')]
        exact hzero
      · rintro ⟨⟨hc', hfit⟩, -, hlast⟩
        exact ⟨hc', hfit, hlast⟩

theorem two_le_of_lastZero (hc : c ∈ w.var.characteristics) (hcount : w.count ≠ 0)
    (htime : w.time = some e) (hzero : w.LastZero s c) : 2 ≤ w.count.toNat := by
  by_contra hlt
  have hlen : (w.cCount s c).length = 1 := by
    have hpos := pos_of_ne hcount
    rw [length_cCount hc]
    omega
  obtain ⟨l, hl⟩ := length_eq_one_iff.mp hlen
  have hone := time_cCount hc htime (s := s)
  obtain rfl : l = 1 := by
    rw [hl] at hone
    split at hone <;> exact Option.some.inj hone
  obtain ⟨hlooks, g, hg, hne⟩ | hlast := hzero
  · have hlast := hlooks.1
    have hglen : (w.gdims c).length = 1 := by
      rw [gdims, Dims.length_numbers, (w.same c hc).1, ← hlen, length_cCount hc]
    obtain ⟨g', hg'⟩ := length_eq_one_iff.mp hglen
    rw [hg'] at hg hlast
    obtain rfl := mem_singleton.mp hg
    exact hne (Option.some.inj hlast)
  · rw [hl] at hlast
    exact absurd (Option.some.inj hlast) (by decide)

theorem rightFrom_of_some_iff (hcount : w.count ≠ 0) (htime : w.time = some e)
    (hcs : ∀ c ∈ cs, c ∈ w.var.characteristics) (hst : st.Sized w.count.toNat)
    (hd : st.dimcount = w.count.toNat) :
    w.RightFrom s cs st ↔
      (∀ c ∈ cs.takeWhile fun c => ¬w.LastZero s c,
        if s.calledFromFortran then w.FitsBehind s e c else w.Fits s e c) ∧
      (∀ c ∈ cs.dropWhile fun c => ¬w.LastZero s c, w.Fits s e c) ∧
      ∀ c ∈ (cs.dropWhile fun c => ¬w.LastZero s c).tail,
        (cOrder s.fileIsFortran (w.writtenCount c)).getLast? ≠ some 0 := by
  induction cs generalizing st with
  | nil =>
    exact iff_of_true rightFrom_nil ⟨fun c hc => absurd hc not_mem_nil,
      fun c hc => absurd hc not_mem_nil, fun c hc => absurd hc not_mem_nil⟩
  | cons c cs ih =>
    obtain ⟨hc, hcs⟩ := forall_mem_cons.mp hcs
    obtain ⟨st', hst', hleft, hcons⟩ := rightFrom_cons cs hc hcount hst
      (hd ▸ pos_of_ne hcount)
    rw [hd, left_of_count hc] at hleft hcons
    rw [hcons]
    by_cases hzero : w.LastZero s c
    · have htwo := two_le_of_lastZero hc hcount htime hzero
      rw [if_pos hzero] at hleft ⊢
      rw [takeWhile_cons_of_neg (by simpa using hzero),
        dropWhile_cons_of_neg (by simpa using hzero), tail_cons, forall_mem_cons,
        handed_iff_fits hc hcount htime, rightFrom_behind_iff htwo htime hcs hst' hleft]
      exact ⟨fun h => ⟨fun c hc => absurd hc not_mem_nil, ⟨h.1, h.2.1⟩, h.2.2⟩,
        fun h => ⟨h.2.1.1, h.2.1.2, h.2.2⟩⟩
    · rw [if_neg hzero] at hleft ⊢
      rw [takeWhile_cons_of_pos (by simpa using hzero),
        dropWhile_cons_of_pos (by simpa using hzero), forall_mem_cons,
        handed_iff_fitsBehind hc hcount htime hzero, ih hcs hst' hleft, and_assoc]

end WrittenVar

end Adios.BlockInfo
