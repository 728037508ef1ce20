import Adios.Read.BlockInfoRounds

/-!
# Adios — the blocks of a file and of a step

Which sets of characteristics `inq_var_blockinfo` goes over, and when the blocks that it gives are
those that were written.
-/

namespace Adios.BlockInfo

open List Lists VarSteps Wire WrittenArray

/-! ## The sets of a step -/

section

variable {s : Setting} {usePretransform : Bool} {t : UInt32} {n j : Nat} {st : Shared}
  {blocks : List VarBlock}

theorem length_of_fileLoop {ds : List Dims} (h : fileLoop s ds st = .ok blocks) :
    blocks.length = ds.length := by
  induction ds generalizing st blocks with
  | nil =>
    obtain rfl := Except.ok.inj h
    rfl
  | cons d ds ih =>
    rw [fileLoop] at h
    obtain ⟨r, -, h⟩ := exists_of_bind_eq_ok h
    obtain ⟨rest, hrest, h⟩ := exists_of_bind_eq_ok h
    obtain rfl := Except.ok.inj h
    exact congrArg Nat.succ (ih hrest)

variable {cs : List IndexCharacteristic}

theorem length_of_streamLoop (h : streamLoop s usePretransform t n j cs st = .ok blocks) :
    blocks.length = n := by
  induction n generalizing j cs st blocks with
  | zero =>
    obtain rfl := Except.ok.inj h
    rfl
  | succ n ih =>
    rw [streamLoop] at h
    obtain ⟨⟨j', cs'⟩, -, h⟩ := exists_of_bind_eq_ok h
    cases cs' with
    | nil =>
      obtain ⟨r, -, h⟩ := exists_of_bind_eq_ok h
      obtain ⟨rest, hrest, h⟩ := exists_of_bind_eq_ok h
      obtain rfl := Except.ok.inj h
      exact congrArg Nat.succ (ih hrest)
    | cons c cs' =>
      obtain ⟨r, -, h⟩ := exists_of_bind_eq_ok h
      obtain ⟨j'', -, h⟩ := exists_of_bind_eq_ok h
      obtain ⟨rest, hrest, h⟩ := exists_of_bind_eq_ok h
      obtain rfl := Except.ok.inj h
      exact congrArg Nat.succ (ih hrest)

theorem streamLoop_skip {c : IndexCharacteristic} (hc : c.timeIndex ≠ t) :
    streamLoop s usePretransform t (n + 1) j (c :: cs) st =
      if j + 1 < 2147483648 then streamLoop s usePretransform t (n + 1) (j + 1) cs st
      else .error .signedOverflow := by
  rw [streamLoop, seekTime, if_pos hc, incr]
  split <;> rfl

theorem streamLoop_take {c : IndexCharacteristic} (hc : c.timeIndex = t) :
    streamLoop s usePretransform t (n + 1) j (c :: cs) st = (do
      let r ← blockRound s (some (blockDims usePretransform c)) st
      let j ← incr j
      let blocks ← streamLoop s usePretransform t n j cs r.1
      return r.2 :: blocks) := by
  rw [streamLoop, seekTime, if_neg (not_not.mpr hc), ok_bind]

theorem places_cons_iff {u : UInt32} {us : List UInt32} :
    (∀ i, (u :: us)[i]? = some t → j + i + 1 < 2147483648) ↔
      (u = t → j + 1 < 2147483648) ∧ ∀ i, us[i]? = some t → j + 1 + i + 1 < 2147483648 := by
  constructor
  · intro h
    refine ⟨fun hu => h 0 (congrArg some hu), fun i hi => ?_⟩
    have hplace := h (i + 1) hi
    omega
  · rintro ⟨hfirst, hrest⟩ i hi
    cases i with
    | zero => exact hfirst (Option.some.inj hi)
    | succ i =>
      have hplace := hrest i hi
      omega

/-- **With as many rounds as there are sets of the time**, they are gone over in order if an `int`
counts up to the last one. -/
theorem streamLoop_iff (hn : n = (cs.filter (·.timeIndex = t)).length) :
    streamLoop s usePretransform t n j cs st = .ok blocks ↔
      (∀ i, (cs.map (·.timeIndex))[i]? = some t → j + i + 1 < 2147483648) ∧
      fileLoop s ((cs.filter (·.timeIndex = t)).map (blockDims usePretransform)) st =
        .ok blocks := by
  induction cs generalizing n j st blocks with
  | nil =>
    subst hn
    exact (and_iff_right fun i hi => by cases hi).symm
  | cons c cs ih =>
    rw [map_cons, places_cons_iff]
    by_cases hc : c.timeIndex = t
    · rw [filter_cons_of_pos (by simpa using hc), length_cons] at hn
      subst hn
      rw [filter_cons_of_pos (by simpa using hc), streamLoop_take hc, map_cons, fileLoop]
      constructor
      · intro h
        obtain ⟨r, hr, h⟩ := exists_of_bind_eq_ok h
        obtain ⟨j', hj', h⟩ := exists_of_bind_eq_ok h
        obtain ⟨rest, hrest, hblocks⟩ := exists_of_bind_eq_ok h
        obtain ⟨hlt, rfl⟩ : j + 1 < 2147483648 ∧ j' = j + 1 := by
          unfold incr at hj'
          split_ifs at hj' with hlt
          exact ⟨hlt, (Except.ok.inj hj').symm⟩
        obtain ⟨hplaces, hloop⟩ := (ih rfl).mp hrest
        refine ⟨⟨fun _ => hlt, hplaces⟩, ?_⟩
        rw [hr, ok_bind, hloop]
        exact hblocks
      · rintro ⟨⟨hfirst, hplaces⟩, h⟩
        obtain ⟨r, hr, h⟩ := exists_of_bind_eq_ok h
        obtain ⟨rest, hrest, h⟩ := exists_of_bind_eq_ok h
        have hloop : streamLoop s usePretransform t _ (j + 1) cs r.1 = .ok rest :=
          (ih rfl).mpr ⟨hplaces, hrest⟩
        rw [hr, ok_bind, incr_of_lt (hfirst hc), ok_bind, hloop]
        exact h
    · rw [filter_cons_of_neg (by simpa using hc)] at hn ⊢
      rw [and_assoc, and_iff_right (fun h => absurd h hc)]
      cases n with
      | zero =>
        have hnil : cs.filter (·.timeIndex = t) = [] := length_eq_zero_iff.mp hn.symm
        rw [hnil, and_iff_right fun i hi => ?_]
        · rfl
        · obtain ⟨c', hc', heq⟩ := mem_map.mp (mem_of_getElem? hi)
          exact absurd heq (by simpa using filter_eq_nil_iff.mp hnil c' hc')
      | succ n =>
        rw [streamLoop_skip hc]
        split_ifs with hj
        · exact ih hn
        · -- there is one more of the time, further behind
          refine iff_of_false (fun h => by cases h) fun h => ?_
          have hne : cs.filter (·.timeIndex = t) ≠ [] :=
            ne_nil_of_length_pos (by omega)
          obtain ⟨c', hc'⟩ := exists_mem_of_ne_nil _ hne
          obtain ⟨hmem, heq⟩ := mem_filter.mp hc'
          obtain ⟨i, hi⟩ := getElem?_of_mem hmem
          have hplace := h.1 i (by
            rw [getElem?_map, hi]
            exact congrArg some (by simpa using heq))
          omega

end

/-! ## The number of blocks -/

theorem firstBlocks_cons (t : UInt32) (ts : List UInt32) : ∃ n rest,
    ts = List.replicate n t ++ rest ∧ (∀ u ∈ rest.head?, u ≠ t) ∧
      WrittenVar.firstBlocks (t :: ts) = n + 1 := by
  refine ⟨(ts.takeWhile (· = t)).length, ts.dropWhile (· = t), ?_, fun u hu => ?_, ?_⟩
  · have hall : ts.takeWhile (· = t) = List.replicate (ts.takeWhile (· = t)).length t :=
      eq_replicate_of_mem fun u hu => by simpa using mem_takeWhile_imp hu
    rw [← hall, takeWhile_append_dropWhile]
  · have hnot := List.head?_dropWhile_not (fun u => decide (u = t)) ts
    rw [Option.mem_def.mp hu] at hnot
    exact of_decide_eq_false hnot
  · rw [WrittenVar.firstBlocks, takeWhile_cons_of_pos (by simp), length_cons]

/-- The number of blocks of the first time, if it is not the -1 that the loop starts with and an
`int` counts them. -/
theorem getVarNblocks_one {v : IndexEntry} (hne : times v ≠ []) : getVarNblocks true v 1 =
    if (times v).head? = some 0xffffffff then .error .outOfBounds
    else if WrittenVar.firstBlocks (times v) < 2147483648 then
      .ok [WrittenVar.firstBlocks (times v)]
    else .error .signedOverflow := by
  rw [getVarNblocks, if_neg fun h => Bool.noConfusion h.2]
  generalize times v = ts at hne ⊢
  cases ts with
  | nil => exact absurd rfl hne
  | cons t ts =>
    obtain ⟨n, rest, rfl, hrest, hfirst⟩ := firstBlocks_cons t ts
    rw [nblocksLoop, hfirst]
    by_cases ht : t = 0xffffffff
    · have hhead : (t :: (List.replicate n t ++ rest)).head? = some 0xffffffff := congrArg some ht
      rw [if_neg (not_not.mpr ht), if_pos hhead]
      rfl
    · have hcount : countBlock (List.replicate 1 0) (-1 + 1) = .ok [1] := rfl
      have hincr : incr 0 = .ok 1 := rfl
      have hplace : 0 ≤ (-1 + 1 : Int) ∧ (-1 + 1 : Int) < ([1] : List Nat).length := by decide
      have hhead : (t :: (List.replicate n t ++ rest)).head? ≠ some 0xffffffff := fun h =>
        ht (Option.some.inj h)
      rw [if_pos ht, if_neg hhead, if_neg (by decide), hcount, ok_bind,
        hincr, ok_bind, nblocksLoop_replicate t rest hplace]
      by_cases hn : n + 1 < 2147483648
      · rw [if_pos (.inl (by omega)), if_pos hn]
        -- the next time ends the loop
        have hend : nblocksLoop 1 (1 + n) (-1 + 1) t ([1].modify (-1 + 1 : Int).toNat (· + n))
            rest = .ok ([1].modify (-1 + 1 : Int).toNat (· + n)) := by
          cases rest with
          | nil => rfl
          | cons u us =>
            rw [nblocksLoop, if_pos (hrest u rfl)]
            rfl
        rw [hend, Nat.add_comm n]
        rfl
      · rw [if_neg (by omega), if_neg hn]

theorem exists_getTimeLoop {step : Int} {i : Nat} {prevTi : UInt32} {counter : Int}
    {ts : List UInt32} (h : i + ts.length < 2147483648) :
    ∃ r, VarSteps.getTimeLoop step i prevTi counter ts = .ok r := by
  induction ts generalizing i prevTi counter with
  | nil => exact ⟨_, rfl⟩
  | cons t ts ih =>
    rw [length_cons] at h
    rw [VarSteps.getTimeLoop, incr_of_lt (by omega), ok_bind, ok_bind]
    split_ifs
    · exact ⟨_, rfl⟩
    · exact ih (by omega)
    · exact ih (by omega)

namespace WrittenVar

variable {w : WrittenVar} {s : Setting} {blocks : List VarBlock}

theorem times_ne_nil (w : WrittenVar) : times w.var ≠ [] := fun h =>
  w.nonempty (map_eq_nil_iff.mp h)

def fresh (w : WrittenVar) : Shared where
  dimcount := w.count.toNat
  ldims := List.replicate w.count.toNat none
  gdims := List.replicate w.count.toNat none
  offsets := List.replicate w.count.toNat none

theorem sized_fresh : w.fresh.Sized w.count.toNat :=
  ⟨length_replicate, length_replicate, length_replicate, Nat.le_refl _⟩

def rounds (w : WrittenVar) (s : Setting) (n : Int) : Except Fault (List VarBlock) :=
  if n < 0 then .error .assertion
  else do
    let time ← SeekStep.stepToTime s.streaming s.currentStep 0 w.var
    if s.streaming then
      streamLoop s w.usePretransform (UInt32.ofInt time) n.toNat 0 w.var.characteristics w.fresh
    else
      fileLoop s ((w.var.characteristics.take n.toNat).map (blockDims w.usePretransform)) w.fresh

theorem inqVarBlockinfo_eq {n : Int} (hn : nblks s w.var = .ok n) :
    inqVarBlockinfo s w.var w.usePretransform = w.rounds s n := by
  obtain ⟨root, cs, hcs⟩ := exists_cons_of_ne_nil w.nonempty
  have hroot : (blockDims w.usePretransform root).count = w.count :=
    (w.same root (hcs ▸ mem_cons_self)).1
  rw [inqVarBlockinfo, hn, ok_bind, rounds, fresh, ← hroot]
  split
  · rfl
  · rw [hcs]

theorem nblks_of_stream (hstream : s.streaming = true) {n : Int} :
    nblks s w.var = .ok n ↔ (times w.var).head? ≠ some 0xffffffff ∧
      firstBlocks (times w.var) < 2147483648 ∧ (firstBlocks (times w.var) : Int) = n := by
  rw [nblks, if_pos hstream, getVarNblocks_one w.times_ne_nil]
  by_cases hhead : (times w.var).head? = some 0xffffffff
  · rw [if_pos hhead]
    exact iff_of_false (fun h => by cases h) fun h => h.1 hhead
  · rw [if_neg hhead, and_iff_right hhead]
    by_cases hfew : firstBlocks (times w.var) < 2147483648
    · rw [if_pos hfew, and_iff_right hfew]
      exact ⟨Except.ok.inj, congrArg Except.ok⟩
    · rw [if_neg hfew]
      exact iff_of_false (fun h => by cases h) fun h => hfew h.1

theorem nblks_of_file (hstream : ¬s.streaming = true) :
    nblks s w.var = .ok (cut32 w.var.characteristics.length) := if_neg hstream

theorem sets_of_stream (hstream : s.streaming = true) : w.sets s =
    w.var.characteristics.filter (·.timeIndex = UInt32.ofInt (s.currentStep + 1)) :=
  if_pos hstream

theorem sets_of_file (hstream : ¬s.streaming = true) : w.sets s = w.var.characteristics :=
  if_neg hstream

theorem stepToTime_of_stream (hstream : s.streaming = true) :
    SeekStep.stepToTime s.streaming s.currentStep 0 w.var = .ok (s.currentStep + 1) := by
  rw [SeekStep.stepToTime, if_pos hstream, Int.add_zero]

theorem length_le_of_places {t : UInt32} {cs : List IndexCharacteristic} {j n : Nat}
    (h : ∀ i, (cs.map (·.timeIndex))[i]? = some t → j + i + 1 < n) (hj : j < n) :
    j + (cs.filter (·.timeIndex = t)).length < n := by
  induction cs generalizing j with
  | nil => exact hj
  | cons c cs ih =>
    have hrest : ∀ i, (cs.map (·.timeIndex))[i]? = some t → j + 1 + i + 1 < n := fun i hi => by
      have hplace := h (i + 1) hi
      omega
    by_cases hc : c.timeIndex = t
    · have hfirst := h 0 (congrArg some hc)
      have hle := ih hrest (by omega)
      rw [filter_cons_of_pos (by simpa using hc), length_cons]
      omega
    · rw [filter_cons_of_neg (by simpa using hc)]
      cases hfilter : cs.filter (·.timeIndex = t) with
      | nil => exact hj
      | cons c' cs' =>
        -- one of the places is further behind
        have hmem : c' ∈ cs.filter (·.timeIndex = t) := hfilter ▸ mem_cons_self
        obtain ⟨hmem, heq⟩ := mem_filter.mp hmem
        obtain ⟨i, hi⟩ := getElem?_of_mem hmem
        have hplace := hrest i (by
          rw [getElem?_map, hi]
          exact congrArg some (by simpa using heq))
        have hle := ih hrest (by omega)
        rw [hfilter] at hle
        omega

theorem nblks_of_counted (h : w.Counted s) : nblks s w.var = .ok (w.sets s).length := by
  by_cases hstream : s.streaming = true
  · rw [Counted, if_pos hstream] at h
    obtain ⟨hhead, hcount, hplaces⟩ := h
    have hfew := @length_le_of_places _ w.var.characteristics 0 2147483648 (fun i hi => by
      rw [Nat.zero_add]
      exact hplaces i hi) (by decide)
    rw [Nat.zero_add, ← sets_of_stream hstream] at hfew
    exact (nblks_of_stream hstream).mpr ⟨hhead, hcount ▸ hfew, congrArg Nat.cast hcount⟩
  · rw [Counted, if_neg hstream] at h
    rw [nblks_of_file hstream, cut32_of_fits (by omega) (by omega), sets_of_file hstream]

theorem inqVarBlockinfo_iff :
    (inqVarBlockinfo s w.var w.usePretransform = .ok blocks ∧
      blocks.length = (w.sets s).length) ↔
    w.Counted s ∧
      fileLoop s ((w.sets s).map (blockDims w.usePretransform)) w.fresh = .ok blocks := by
  by_cases hstream : s.streaming = true
  · rw [Counted, if_pos hstream]
    have hloop : ∀ {n : Nat}, n = (w.sets s).length →
        (w.rounds s n = .ok blocks ↔
          (∀ i, (times w.var)[i]? = some (UInt32.ofInt (s.currentStep + 1)) →
            i + 1 < 2147483648) ∧
          fileLoop s ((w.sets s).map (blockDims w.usePretransform)) w.fresh = .ok blocks) := by
      intro n hn
      rw [sets_of_stream hstream] at hn ⊢
      rw [rounds, if_neg (by omega), stepToTime_of_stream hstream, ok_bind, if_pos hstream,
        Int.toNat_natCast, streamLoop_iff hn]
      simp only [Nat.zero_add]
      rfl
    constructor
    · rintro ⟨hrun, hlen⟩
      obtain ⟨n, hn, -⟩ := exists_of_bind_eq_ok hrun
      obtain ⟨hhead, hfew, rfl⟩ := (nblks_of_stream hstream).mp hn
      rw [inqVarBlockinfo_eq hn] at hrun
      have hcount : firstBlocks (times w.var) = (w.sets s).length := by
        rw [← hlen]
        rw [rounds, if_neg (by omega), stepToTime_of_stream hstream, ok_bind, if_pos hstream,
          Int.toNat_natCast] at hrun
        exact (length_of_streamLoop hrun).symm
      obtain ⟨hplaces, hblocks⟩ := (hloop hcount).mp hrun
      exact ⟨⟨hhead, hcount, hplaces⟩, hblocks⟩
    · rintro ⟨hcounted, hblocks⟩
      have hn := nblks_of_counted (by rw [Counted, if_pos hstream]; exact hcounted)
      rw [inqVarBlockinfo_eq hn]
      refine ⟨(hloop rfl).mpr ⟨hcounted.2.2, hblocks⟩, ?_⟩
      rw [length_of_fileLoop hblocks, length_map]
  · rw [Counted, if_neg hstream, sets_of_file hstream, inqVarBlockinfo_eq (nblks_of_file hstream),
      rounds]
    obtain ⟨-, hfits⟩ := cut32_fits w.var.characteristics.length
    constructor
    · rintro ⟨hrun, hlen⟩
      split_ifs at hrun with hneg
      obtain ⟨time, -, hloop⟩ := exists_of_bind_eq_ok hrun
      have htake := length_of_fileLoop hloop
      rw [hlen, length_map, length_take] at htake
      have hall : w.var.characteristics.length ≤
          (cut32 w.var.characteristics.length).toNat := by omega
      rw [take_of_length_le hall] at hloop
      exact ⟨by omega, hloop⟩
    · rintro ⟨hfew, hloop⟩
      obtain ⟨time, htime⟩ : ∃ time,
          SeekStep.stepToTime s.streaming s.currentStep 0 w.var = .ok time := by
        rw [SeekStep.stepToTime, if_neg hstream]
        refine exists_getTimeLoop ?_
        rw [length_times]
        omega
      rw [cut32_of_fits (by omega) (by omega), if_neg (by omega), htime, ok_bind, if_neg hstream,
        Int.toNat_natCast, take_length]
      exact ⟨hloop, (length_of_fileLoop hloop).trans (length_map _)⟩

theorem exists_offset (hne : w.sets s ≠ []) : ∃ offset : Nat,
    streamingBlockOffset s w.var = .ok offset ∧
    offset + (w.sets s).length ≤ w.var.characteristics.length := by
  by_cases hstream : s.streaming = true
  · rw [sets_of_stream hstream] at hne ⊢
    rw [streamingBlockOffset, if_pos hstream, stepToTime_of_stream hstream, ok_bind,
      getVarStartIndex]
    generalize UInt32.ofInt (s.currentStep + 1) = t at hne ⊢
    obtain ⟨c, hc⟩ := exists_mem_of_ne_nil _ hne
    obtain ⟨hmem, hct⟩ := mem_filter.mp hc
    have htimes : t ∈ times w.var := mem_map.mpr ⟨c, hmem, of_decide_eq_true hct⟩
    obtain ⟨before, behind, hsplit, hnot⟩ := eq_append_cons_of_mem htimes
    refine ⟨before.length, ?_, ?_⟩
    · rw [hsplit, startLoop_append hnot, startLoop, if_pos rfl, Nat.zero_add]
      rfl
    · have hlen := congrArg List.length hsplit
      rw [length_times, length_append] at hlen
      -- none of the sets in front has the time
      have hfront : (w.var.characteristics.take before.length).filter (·.timeIndex = t) = [] := by
        refine filter_eq_nil_iff.mpr fun c' hc' hct' => hnot ?_
        have hmem' : t ∈ (times w.var).take before.length := by
          rw [times, ← map_take]
          exact mem_map.mpr ⟨c', hc', of_decide_eq_true hct'⟩
        rwa [hsplit, take_left] at hmem'
      have hle := length_filter_le (·.timeIndex = t)
        (w.var.characteristics.drop before.length)
      rw [← take_append_drop before.length w.var.characteristics, filter_append, hfront,
        nil_append, take_append_drop]
      rw [length_drop] at hle
      omega
  · exact ⟨0, if_neg hstream, by rw [sets_of_file hstream, Nat.zero_add]⟩

theorem sets_ne_nil (h : w.Counted s) : w.sets s ≠ [] := by
  by_cases hstream : s.streaming = true
  · rw [Counted, if_pos hstream] at h
    obtain ⟨t, ts, hts⟩ := exists_cons_of_ne_nil w.times_ne_nil
    obtain ⟨n, rest, -, -, hfirst⟩ := firstBlocks_cons t ts
    refine ne_nil_of_length_pos ?_
    rw [← h.2.1, hts, hfirst]
    exact Nat.succ_pos n
  · rw [sets_of_file hstream]
    exact w.nonempty

theorem blocks_iff : (w.blocks s = .ok blocks ∧ blocks.length = (w.sets s).length) ↔
    w.Counted s ∧
      fileLoop s ((w.sets s).map (blockDims w.usePretransform)) w.fresh = .ok blocks := by
  rw [← inqVarBlockinfo_iff]
  unfold WrittenVar.blocks
  by_cases hview : w.usePretransform = true
  · rw [if_pos hview, hview]
    refine and_congr_left fun hlen => ⟨fun hrun => ?_, fun hrun => ?_⟩
    · obtain ⟨r, hr, horig⟩ := exists_of_bind_eq_ok hrun
      obtain ⟨bs, hbs, hr⟩ := exists_of_bind_eq_ok hr
      obtain ⟨n, -, hr⟩ := exists_of_bind_eq_ok hr
      obtain ⟨offset, -, hr⟩ := exists_of_bind_eq_ok hr
      split_ifs at hr
      obtain rfl := Except.ok.inj hr
      obtain rfl := Except.ok.inj horig
      exact hbs
    · have hcounted : w.Counted s := (inqVarBlockinfo_iff.mp ⟨hview.symm ▸ hrun, hlen⟩).1
      have hne := sets_ne_nil hcounted
      have hpos := length_pos_of_ne_nil hne
      obtain ⟨offset, hoffset, hle⟩ := exists_offset hne
      rw [adiosReadBpInqVarTransBlockinfo, hrun, ok_bind, nblks_of_counted hcounted, ok_bind,
        hoffset, ok_bind, if_neg (by omega)]
      rfl
  · rw [if_neg hview, Bool.eq_false_iff.mpr hview]
    rfl

/-! ## The vectors -/

theorem right_iff_rightFrom : w.Right s ↔ w.Counted s ∧ w.RightFrom s (w.sets s) w.fresh := by
  constructor
  · rintro ⟨blocks, hrun, hblocks⟩
    obtain ⟨hcounted, hloop⟩ := blocks_iff.mp ⟨hrun, hblocks.length_eq.symm⟩
    exact ⟨hcounted, blocks, hloop, hblocks⟩
  · rintro ⟨hcounted, blocks, hloop, hblocks⟩
    exact ⟨blocks, (blocks_iff.mpr ⟨hcounted, hloop⟩).1, hblocks⟩

theorem mem_of_mem_sets {c : IndexCharacteristic} (hc : c ∈ w.sets s) :
    c ∈ w.var.characteristics := by
  unfold sets at hc
  split at hc
  · exact mem_of_mem_filter hc
  · exact hc

theorem not_rightFrom_of_count (hcount : w.count = 0) (hne : w.sets s ≠ []) :
    ¬w.RightFrom s (w.sets s) w.fresh := by
  obtain ⟨c, cs, hcs⟩ := exists_cons_of_ne_nil hne
  have hc : c ∈ w.var.characteristics := mem_of_mem_sets (hcs ▸ mem_cons_self)
  rintro ⟨blocks, hrun, -⟩
  rw [hcs, map_cons, fileLoop, blockRound, Shared.fill, bpGetDimensionGenericNotime,
    bpGetDimensionGeneric_of_wf (wf_of_mem hc), ok_bind, if_pos ((w.same c hc).1.trans hcount)]
    at hrun
  cases hrun

/-- **The vectors start with what was written** exactly if the blocks are counted, and their sizes
fit. -/
theorem blockinfo_right_iff (w : WrittenVar) (s : Setting) : w.Right s ↔ w.Clear s := by
  rw [right_iff_rightFrom]
  have hsizes : w.count ≠ 0 → (w.RightFrom s (w.sets s) w.fresh ↔ w.SizesFit s) := fun hcount => by
    rw [SizesFit]
    cases htime : w.time with
    | none => exact rightFrom_of_none_iff hcount htime (fun _ => mem_of_mem_sets) sized_fresh rfl
    | some e => exact rightFrom_of_some_iff hcount htime (fun _ => mem_of_mem_sets) sized_fresh rfl
  constructor
  · rintro ⟨hcounted, hright⟩
    have hcount : w.count ≠ 0 := fun hzero =>
      not_rightFrom_of_count hzero (sets_ne_nil hcounted) hright
    exact ⟨hcounted, hcount, (hsizes hcount).mp hright⟩
  · intro h
    exact ⟨h.counted, (hsizes h.dims).mpr h.sizes⟩

end WrittenVar

def emptyRows : WrittenVar where
  var := { id := 0, groupName := CString.empty, name := CString.empty, path := CString.empty,
           type := .byte, characteristics := [{ IndexCharacteristic.zero with
             dims := ⟨2, [3, 3, 0, 0, 4, 0]⟩ }] }
  usePretransform := false
  count := 2
  nonempty := cons_ne_nil _ _
  same := fun c hc => by
    obtain rfl := mem_singleton.mp hc
    exact ⟨rfl, rfl⟩
  time := none
  one := fun e he => by cases he
  offsetsTimed := false

def plainFile : Setting where
  streaming := false
  currentStep := 0
  fileIsFortran := false
  calledFromFortran := false

/-- The dimension of length 0 is taken for what is left where a time was: only one is copied. -/
theorem not_right_emptyRows : ¬emptyRows.Right plainFile := by
  rintro ⟨blocks, hrun, hblocks⟩
  have hblock : emptyRows.blocks plainFile =
      .ok [{ start := [some 0, none], count := [some 3, none] }] := by decide
  obtain rfl := Except.ok.inj (hblock.symm.trans hrun)
  cases hblocks with
  | cons hright _ => exact absurd hright.count (by decide)

end Adios.BlockInfo
