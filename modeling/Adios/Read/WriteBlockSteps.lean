import Adios.Lists.Results
import Adios.Read.WriteBlockRegions

/-!
# Adios — the steps of a write-block read

When `read_var_wb` finds the blocks of all steps and leaves their regions one behind the other, with
the chunk's pointer at the first. It does not move on behind an array, and the pointer of the chunk
is that behind the scalars.
-/

namespace Adios.WriteBlock

open List BoxRead VarSteps Wire

/-! ## The steps -/

section Run

variable {r : Request} {step : Nat} {steps : List Nat} {regions : List (List UInt8)}
  {c : IndexCharacteristic} {p q : Place}

theorem length_of_selected {data : List UInt8} (h : r.Selected step data) (hc : r.BlockOf step c) :
    data.length = r.regionSize c := by
  obtain ⟨c', bytes, payload, hc', -, -, -, hlen, rfl⟩ := h
  obtain rfl := blockOf_inj hc' hc
  exact length_region hlen

theorem regionSize_le (h : Forall₂ r.Selected steps regions) (hstep : step ∈ steps)
    (hc : r.BlockOf step c) : r.regionSize c ≤ regions.flatten.length := by
  induction h with
  | nil => cases hstep
  | cons hfirst _ ih =>
    rw [flatten_cons, length_append]
    rcases mem_cons.mp hstep with rfl | hstep
    · rw [length_of_selected hfirst hc]
      exact Nat.le_add_right _ _
    · exact Nat.le_trans (ih hstep) (Nat.le_add_left _ _)

theorem pairwise_or_exists_lt (h : Forall₂ r.Selected steps regions) :
    steps.Pairwise r.Apart ∨
    ∃ n < regions.flatten.length, ∀ step ∈ steps, ∀ c, r.BlockOf step c → r.regionSize c ≤ n := by
  induction h with
  | nil => exact .inl .nil
  | @cons a data steps regions hfirst hrest ih =>
    rw [flatten_cons, length_append]
    have hle : ∀ b ∈ steps, ∀ d, r.BlockOf b d → r.regionSize d ≤ regions.flatten.length :=
      fun b hb d hd => regionSize_le hrest hb hd
    by_cases hempty : data.length = 0
    · have hzero : ∀ c, r.BlockOf a c → r.regionSize c = 0 :=
        fun c hc => (length_of_selected hfirst hc).symm.trans hempty
      rcases ih with hpairs | ⟨n, hn, hsizes⟩
      · exact .inl (.cons (fun b _ c d hc _ => .inl (hzero c hc)) hpairs)
      · refine .inr ⟨n, by omega, forall_mem_cons.mpr ⟨fun c hc => ?_, hsizes⟩⟩
        rw [hzero c hc]
        exact Nat.zero_le n
    · by_cases hnone : regions.flatten.length = 0
      · have hzero : ∀ b ∈ steps, ∀ d, r.BlockOf b d → r.regionSize d = 0 := fun b hb d hd => by
          have hlast := hle b hb d hd
          omega
        refine .inl (.cons (fun b hb c d _ hd => .inr (hzero b hb d hd)) ?_)
        exact pairwise_of_forall_mem_list fun b hb _ _ d _ hd _ => .inl (hzero b hb d hd)
      · refine .inr ⟨max data.length regions.flatten.length, by omega,
          forall_mem_cons.mpr ⟨fun c hc => ?_, fun b hb d hd => ?_⟩⟩
        · rw [← length_of_selected hfirst hc]
          exact Nat.le_max_left _ _
        · exact Nat.le_trans (hle b hb d hd) (Nat.le_max_right _ _)

theorem readSteps_cons_iff (hclock : r.s.streaming = true → r.s.fh.tidxStart = 1)
    (hc : r.BlockOf step c) :
    readSteps r.s r.v r.wb (step :: steps) p = .ok (.ok q) ↔
      ∃ p', readOne r.s r.v.type r.wb c p = .ok (.ok p') ∧
        readSteps r.s r.v r.wb steps p' = .ok (.ok q) := by
  obtain ⟨b, hb, hget⟩ := hc
  have hnat : ¬(b : Int) < 0 := by omega
  rw [readSteps, (pgidx_eq_iff hb).mpr hclock, ok_bind, if_neg hnat, Int.toNat_natCast, hget]
  dsimp only
  constructor
  · intro h
    obtain ⟨read, hread, h⟩ := exists_of_bind_eq_ok h
    cases read with
    | error e => cases Except.ok.inj h
    | ok p' => exact ⟨p', hread, h⟩
  · rintro ⟨p', hread, h⟩
    rw [hread]
    exact h

theorem readSteps_append_iff {s : Setting} {v : IndexEntry} {wb : Selection} {as bs : List Nat} :
    readSteps s v wb (as ++ bs) p = .ok (.ok q) ↔
      ∃ p', readSteps s v wb as p = .ok (.ok p') ∧ readSteps s v wb bs p' = .ok (.ok q) := by
  induction as generalizing p with
  | nil =>
    refine ⟨fun h => ⟨p, rfl, h⟩, ?_⟩
    rintro ⟨p', hp, h⟩
    obtain rfl := Except.ok.inj (Except.ok.inj hp)
    exact h
  | cons a as ih =>
    rw [cons_append, readSteps, readSteps]
    cases pgidx s v wb a with
    | error e => simp
    | ok idx =>
      rw [ok_bind, ok_bind]
      split_ifs with hneg
      · simp
      · cases v.characteristics[idx.toNat]? with
        | none => simp
        | some c =>
          dsimp only
          cases readOne s v.type wb c p with
          | error e => simp
          | ok read =>
            rw [ok_bind, ok_bind]
            cases read with
            | error e => simp [pure, Except.pure]
            | ok p₁ => exact ih

theorem flatten_eq_nil (h : Forall₂ r.Selected steps regions)
    (hzero : ∀ step ∈ steps, ∀ c, r.BlockOf step c → r.regionSize c = 0) :
    regions.flatten = [] := by
  induction h with
  | nil => rfl
  | cons hfirst _ ih =>
    obtain ⟨hnone, hzero⟩ := forall_mem_cons.mp hzero
    obtain ⟨c, hc⟩ : ∃ c, r.BlockOf _ c := hfirst.imp fun c h => h.choose_spec.choose_spec.1
    rw [flatten_cons, ih hzero, append_nil]
    exact eq_nil_of_length_eq_zero ((length_of_selected hfirst hc).trans (hnone c hc))

theorem readSteps_of_clear (hclock : r.s.streaming = true → r.s.fh.tidxStart = 1)
    (hclear : ∀ step ∈ steps, ∃ c, r.BlockOf step c ∧ r.BlockClear c)
    (hpairs : steps.Pairwise r.Apart) :
    ∃ regions, Forall₂ r.Selected steps regions ∧
      ∀ mem, readSteps r.s r.v r.wb steps { mem, data := 0 } =
        .ok (.ok { mem := mem.write 0 regions.flatten, data := 0 }) := by
  induction steps with
  | nil =>
    refine ⟨[], .nil, fun mem => ?_⟩
    rw [flatten_nil, Mem.write_nil]
    rfl
  | cons a steps ih =>
    obtain ⟨⟨c, hc, hclear⟩, hrest⟩ := forall_mem_cons.mp hclear
    obtain ⟨hpair, hpairs⟩ := pairwise_cons.mp hpairs
    obtain ⟨regions, hregions, hrun⟩ := ih hrest hpairs
    have hwf : c.dims.Wf := by
      obtain ⟨b, -, hget⟩ := hc
      exact r.dims_wf c (mem_of_getElem? hget)
    obtain ⟨bytes, payload, hpayload, hbytes, hlen, hone⟩ := readOne_of_clear hwf hclear
    refine ⟨r.region c bytes :: regions, .cons ⟨c, bytes, payload, hc, hpayload, hclear.selects,
      hbytes, hlen, rfl⟩ hregions, fun mem => ?_⟩
    have hflat : (mem.write 0 (r.region c bytes)).write 0 regions.flatten =
        mem.write 0 (r.region c bytes ++ regions.flatten) := by
      by_cases hempty : r.regionSize c = 0
      · rw [eq_nil_of_length_eq_zero ((length_region hlen).trans hempty), nil_append, Mem.write_nil]
      · rw [flatten_eq_nil hregions fun b hb d hd => (hpair b hb c d hc hd).resolve_left hempty,
          append_nil, Mem.write_nil]
    rw [flatten_cons, ← hflat]
    exact (readSteps_cons_iff hclock hc).mpr ⟨_, hone mem, hrun _⟩

/-- Steps that leave `data` at the start of the memory, which stays behind their regions. -/
theorem readSteps_frame (hclock : r.s.streaming = true → r.s.fh.tidxStart = 1)
    (hselects : ∀ step ∈ steps, ∃ c, r.BlockOf step c ∧ r.Selects c)
    (h : readSteps r.s r.v r.wb steps p = .ok (.ok q)) (hzero : q.data = 0) :
    p.data = 0 ∧ ∀ n, (∀ step ∈ steps, ∀ c, r.BlockOf step c → r.regionSize c ≤ n) →
      ∀ i, n ≤ i → q.mem i = p.mem i := by
  induction steps generalizing p with
  | nil =>
    obtain rfl := Except.ok.inj (Except.ok.inj h)
    exact ⟨hzero, fun _ _ _ _ => rfl⟩
  | cons a steps ih =>
    obtain ⟨⟨c, hc, hselect⟩, hrest⟩ := forall_mem_cons.mp hselects
    obtain ⟨p', hone, h⟩ := (readSteps_cons_iff hclock hc).mp h
    obtain ⟨hzero', hframe⟩ := ih hrest h
    have hwf : c.dims.Wf := by
      obtain ⟨b, -, hget⟩ := hc
      exact r.dims_wf c (mem_of_getElem? hget)
    have hle := (readOne_inv hwf hselect hone).1
    refine ⟨by omega, fun n hsizes i hi => ?_⟩
    obtain ⟨hsize, hsizes⟩ := forall_mem_cons.mp hsizes
    rw [hframe n hsizes i hi]
    exact readOne_apply_of_le hwf hselect hone hzero' (Nat.le_trans (hsize c hc) hi)

theorem wf_of_blockOf (hc : r.BlockOf step c) : c.dims.Wf := by
  obtain ⟨b, -, hget⟩ := hc
  exact r.dims_wf c (mem_of_getElem? hget)

theorem eq_of_read_write {data bytes : List UInt8} {n : Nat} (hle : data.length ≤ n)
    (h : ∀ mem : Mem, (mem.write 0 data).read 0 n = bytes) : data = bytes := by
  have hsplit : ∀ mem : Mem,
      data ++ mem.read data.length (n - data.length) = bytes := fun mem => by
    have hread := h mem
    rw [← Nat.add_sub_of_le hle, Mem.read_append, Mem.read_write, Nat.zero_add,
      Mem.read_write_disjoint _ (by omega)] at hread
    exact hread
  have hzero := hsplit fun _ => 0
  have hone := hsplit fun _ => 1
  cases hrest : n - data.length with
  | zero =>
    rw [hrest] at hzero
    exact (append_nil data).symm.trans hzero
  | succ k =>
    -- a byte that is not written is both
    have hsame := append_cancel_left (hzero.trans hone.symm)
    unfold Mem.read at hsame
    rw [hrest, range_succ_eq_map, map_cons, map_cons] at hsame
    exact absurd (List.cons.inj hsame).1 (show (0 : UInt8) ≠ 1 by decide)

theorem exists_round (hclock : r.s.streaming = true → r.s.fh.tidxStart = 1)
    {before behind : List Nat} {mem : Mem}
    (hbefore : ∀ a ∈ before, ∃ d, r.BlockOf a d ∧ r.Selects d)
    (hbehind : ∀ b ∈ behind, ∃ d, r.BlockOf b d ∧ r.Selects d)
    (hc : r.BlockOf step c) (hselect : r.Selects c)
    (h : readSteps r.s r.v r.wb (before ++ step :: behind) { mem, data := 0 } = .ok (.ok q))
    (hzero : q.data = 0) :
    ∃ p p', readOne r.s r.v.type r.wb c p = .ok (.ok p') ∧ p'.data = 0 ∧
      ((∀ a ∈ before, ∀ d, r.BlockOf a d → r.regionSize d = 0) →
        (∀ b ∈ behind, ∀ d, r.BlockOf b d → r.regionSize d = 0) →
        p.mem = mem ∧ q.mem = p'.mem) := by
  obtain ⟨p, hfirst, h⟩ := readSteps_append_iff.mp h
  obtain ⟨p', hone, hlast⟩ := (readSteps_cons_iff hclock hc).mp h
  obtain ⟨hzero', hframe'⟩ := readSteps_frame hclock hbehind hlast hzero
  have hle := (readOne_inv (wf_of_blockOf hc) hselect hone).1
  obtain ⟨-, hframe⟩ := readSteps_frame hclock hbefore hfirst (by omega)
  refine ⟨p, p', hone, hzero', fun hnone hnone' => ⟨?_, ?_⟩⟩
  · funext i
    exact hframe 0 (fun a ha d hd => Nat.le_of_eq (hnone a ha d hd)) i (Nat.zero_le i)
  · funext i
    exact hframe' 0 (fun b hb d hd => Nat.le_of_eq (hnone' b hb d hd)) i (Nat.zero_le i)

theorem selects_of_selected (h : Forall₂ r.Selected steps regions) {a : Nat} (ha : a ∈ steps) :
    ∃ c, r.BlockOf a c ∧ r.Selects c := by
  obtain ⟨data, -, c, bytes, payload, hc, -, hselect, -⟩ := Lists.exists_of_forall₂_mem h ha
  exact ⟨c, hc, hselect⟩

theorem round_of_regions (hclock : r.s.streaming = true → r.s.fh.tidxStart = 1)
    {before behind : List Nat} (hpairs : (before ++ step :: behind).Pairwise r.Apart) {mem : Mem}
    (hrun : readSteps r.s r.v r.wb (before ++ step :: behind) { mem, data := 0 } =
      .ok (.ok q)) (hzero : q.data = 0)
    (hregions : Forall₂ r.Selected (before ++ step :: behind) regions)
    (hread : q.mem.read 0 regions.flatten.length = regions.flatten) (hc : r.BlockOf step c) :
    ∃ p p' bytes payload, readOne r.s r.v.type r.wb c p = .ok (.ok p') ∧ p'.data = 0 ∧
      r.payload c = some payload ∧ r.Selects c ∧
      bytes = (payload.drop (r.first c)).take (r.nbytes c) ∧ bytes.length = r.nbytes c ∧
      (r.regionSize c ≠ 0 → p.mem = mem ∧
        p'.mem.read 0 (r.region c bytes).length = r.region c bytes) := by
  obtain ⟨firsts, lasts, rfl, hfirsts, hlasts⟩ := Lists.exists_append_of_forall₂ hregions
  cases hlasts with
  | @cons _ data _ lasts hselected hlasts =>
    obtain ⟨c', bytes, payload, hc', hpayload, hselect, hbytes, hlen, rfl⟩ := hselected
    obtain rfl := blockOf_inj hc' hc
    obtain ⟨p, p', hone, hzero', halone⟩ := exists_round hclock
      (fun a ha => selects_of_selected hfirsts ha) (fun b hb => selects_of_selected hlasts hb) hc
      hselect hrun hzero
    refine ⟨p, p', bytes, payload, hone, hzero', hpayload, hselect, hbytes, hlen, fun hsize => ?_⟩
    obtain ⟨-, hpairsStep, hcross⟩ := pairwise_append.mp hpairs
    obtain ⟨hpair, -⟩ := pairwise_cons.mp hpairsStep
    have hnone : ∀ a ∈ before, ∀ d, r.BlockOf a d → r.regionSize d = 0 := fun a ha d hd =>
      (hcross a ha step mem_cons_self d c' hd hc).resolve_right hsize
    have hnone' : ∀ b ∈ behind, ∀ d, r.BlockOf b d → r.regionSize d = 0 := fun b hb d hd =>
      (hpair b hb c' d hc hd).resolve_left hsize
    obtain ⟨hmem, hmem'⟩ := halone hnone hnone'
    rw [hmem', flatten_append, flatten_cons, flatten_eq_nil hfirsts hnone,
      flatten_eq_nil hlasts hnone', append_nil, nil_append] at hread
    exact ⟨hmem, hread⟩

def Request.Delivers (r : Request) (steps : List Nat) (mem : Mem) : Prop :=
  ∃ p regions, readSteps r.s r.v r.wb steps { mem, data := 0 } = .ok (.ok p) ∧ p.data = 0 ∧
    Forall₂ r.Selected steps regions ∧ p.mem.read 0 regions.flatten.length = regions.flatten

theorem blockClear_of_right (hclock : r.s.streaming = true → r.s.fh.tidxStart = 1)
    (hpairs : steps.Pairwise r.Apart)
    (hright : ∀ mem, r.Delivers steps mem)
    (hstep : step ∈ steps) (hc : r.BlockOf step c) : r.BlockClear c := by
  obtain ⟨before, behind, rfl⟩ := append_of_mem hstep
  obtain ⟨q, regions, hrun, hzero, hregions, hread⟩ := hright fun _ => 0
  obtain ⟨p, p', bytes, payload, hone, hzero, hpayload, hselect, hbytes, hlen, -⟩ :=
    round_of_regions hclock hpairs hrun hzero hregions hread hc
  have hwf := wf_of_blockOf hc
  obtain ⟨f, hfile, hcount, hdims, hstring, -⟩ := (readOne_inv hwf hselect hone).2 hzero
  refine ⟨hselect, ⟨payload, hpayload, hbytes ▸ hlen⟩, Option.isSome_of_eq_some hfile, ?_, hcount,
    hdims, hstring⟩
  -- a block without a `payload_offset` is read from the start of the file, with any memory
  intro hoffset payload' f' hpayload' hfile'
  obtain rfl := Option.some.inj (hpayload'.symm.trans hpayload)
  obtain rfl := Option.some.inj (hfile'.symm.trans hfile)
  by_cases hnone : r.nbytes c = 0
  · rw [hnone, take_zero, take_zero]
  · have harray : c.dims.count ≠ 0 := fun hscalar => hnone (by
      obtain ⟨htype, hone⟩ := hstring hscalar
      rw [Request.nbytes, if_pos hscalar, if_pos htype, hone])
    have hsize : r.regionSize c ≠ 0 := by
      unfold Request.regionSize
      omega
    rw [← fileBytes_of_zero harray hselect hoffset]
    refine @eq_of_read_write _ _ (r.nbytes c) ?_ fun mem => ?_
    · rw [Request.fileBytes, length_take]
      exact Nat.min_le_left _ _
    obtain ⟨q, regions, hrun, hzero, hregions, hread⟩ := hright mem
    obtain ⟨p, p', data, payload, hone, hzero, hpayload, -, hdata, hlen, halone⟩ :=
      round_of_regions hclock hpairs hrun hzero hregions hread hc
    obtain rfl := Option.some.inj (hpayload.symm.trans hpayload')
    obtain ⟨hmem, hregion⟩ := halone hsize
    obtain ⟨f, hfile, -, -, -, hmem'⟩ := (readOne_inv hwf hselect hone).2 hzero
    obtain rfl := Option.some.inj (hfile.symm.trans hfile')
    rw [if_neg harray, hmem] at hmem'
    rw [length_region hlen, Request.regionSize, if_neg fun hc => harray hc.1, Nat.add_zero, hmem',
      read_swapInPlace, region_eq, if_neg fun hc => harray hc.1, append_nil] at hregion
    exact (swapped_injective hregion).trans hdata

theorem regions_inj {regions' : List (List UInt8)} (h : Forall₂ r.Selected steps regions)
    (h' : Forall₂ r.Selected steps regions') : regions = regions' := by
  induction h generalizing regions' with
  | nil =>
    cases h'
    rfl
  | cons hfirst _ ih =>
    cases h' with
    | cons hfirst' hrest' =>
      obtain ⟨c, bytes, payload, hc, hpayload, -, hbytes, -, rfl⟩ := hfirst
      obtain ⟨c', bytes', payload', hc', hpayload', -, hbytes', -, rfl⟩ := hfirst'
      obtain rfl := blockOf_inj hc' hc
      obtain rfl := Option.some.inj (hpayload'.symm.trans hpayload)
      rw [hbytes, hbytes', ih hrest']

theorem pairwise_of_right (hclock : r.s.streaming = true → r.s.fh.tidxStart = 1)
    (hright : ∀ mem, r.Delivers steps mem) :
    steps.Pairwise r.Apart := by
  obtain ⟨p, regions, hrun, hzero, hregions, hread⟩ := hright fun _ => 0
  refine (pairwise_or_exists_lt hregions).resolve_right ?_
  rintro ⟨n, hn, hsizes⟩
  obtain ⟨p', regions', hrun', hzero', hregions', hread'⟩ := hright fun _ => 1
  obtain rfl := regions_inj hregions hregions'
  have hselects := fun a ha => @selects_of_selected r steps regions hregions a ha
  have hbyte := (readSteps_frame hclock hselects hrun hzero).2 n hsizes n (Nat.le_refl n)
  have hbyte' := (readSteps_frame hclock hselects hrun' hzero').2 n hsizes n (Nat.le_refl n)
  have hsame := congrArg (·[n]?) (hread.trans hread'.symm)
  simp only [Mem.read, getElem?_map, getElem?_range hn, Option.map_some, Nat.zero_add,
    Option.some.injEq] at hsame
  rw [hbyte, hbyte'] at hsame
  exact absurd hsame (show (0 : UInt8) ≠ 1 by decide)

/-- A read is right exactly if no step is read, or an index below 0 that counts all blocks is
refused, or the steps have their blocks, of which at most one has anything, an array or a string
without a character, from where the read looks for it. -/
theorem Request.writeBlocks_right_iff (r : Request) : r.Right ↔ r.Clear := by
  constructor
  · rintro ⟨hresolves, hright⟩
    by_cases hnil : r.steps = []
    · exact .inl hnil
    by_cases hneg : (r.wb.isAbsoluteIndex = true ∧ r.s.streaming = false) ∧ r.wb.index < 0
    · exact .inr (.inl ⟨hneg.1.1, hneg.1.2, hneg.2⟩)
    have hblocks : ∀ step ∈ r.steps, ∃ b, r.blockAt step = some b := fun step hstep => by
      cases hb : r.blockAt step with
      | none => exact absurd ((resolves_iff_of_none hb).mp (hresolves step hstep)) hneg
      | some b => exact ⟨b, rfl⟩
    obtain ⟨first, hfirst⟩ := exists_mem_of_ne_nil _ hnil
    obtain ⟨b, hb⟩ := hblocks first hfirst
    have hclock := (resolves_iff_of_some hb).mp (hresolves first hfirst)
    have hright := hright fun step hstep => Option.isSome_iff_exists.mpr (hblocks step hstep)
    have hpairs := pairwise_of_right hclock hright
    refine .inr (.inr ⟨hclock, fun step hstep => ?_, hpairs⟩)
    obtain ⟨b, hb⟩ := hblocks step hstep
    obtain ⟨c, -, hc⟩ := exists_blockOf hb
    exact ⟨c, hc, blockClear_of_right hclock hpairs hright hstep hc⟩
  · intro h
    by_cases hnil : r.steps = []
    · refine ⟨fun step hstep => ?_, fun _ mem => ⟨{ mem, data := 0 }, [], ?_, rfl, ?_, rfl⟩⟩
      · rw [hnil] at hstep
        cases hstep
      · show readSteps r.s r.v r.wb r.steps { mem, data := 0 } = _
        rw [hnil]
        rfl
      · rw [hnil]
        exact .nil
    rcases h.resolve_left hnil with ⟨habsolute, hfile, hneg⟩ | ⟨hclock, hclear, hpairs⟩
    · have hnone : ∀ step, r.blockAt step = none := fun step => blockAt_of_neg hneg
      refine ⟨fun step _ => (resolves_iff_of_none (hnone step)).mpr ⟨⟨habsolute, hfile⟩, hneg⟩,
        fun hblocks => ?_⟩
      obtain ⟨first, hfirst⟩ := exists_mem_of_ne_nil _ hnil
      have hblock := hblocks first hfirst
      rw [hnone] at hblock
      cases hblock
    · refine ⟨fun step hstep => ?_, fun _ mem => ?_⟩
      · obtain ⟨c, ⟨b, hb, -⟩, -⟩ := hclear step hstep
        exact (resolves_iff_of_some hb).mpr hclock
      · obtain ⟨regions, hregions, hrun⟩ := readSteps_of_clear hclock hclear hpairs
        exact ⟨_, regions, hrun mem, rfl, hregions, Mem.read_write _ _ _⟩

def inBothSteps : Request where
  s := bothTwice.setting
  v := bothTwice.var
  sorted := by decide
  dims_wf := by decide
  wb := { index := 0, isAbsoluteIndex := false, isSubPgSelection := false, elementOffset := 0,
          nelements := 0 }
  fromSteps := 0
  nsteps := 2

/-- The second block is put over the first one. -/
theorem not_right_inBothSteps : ¬inBothSteps.Right := by
  rintro ⟨-, hright⟩
  have hpairs := pairwise_of_right (by decide) (hright (by decide +kernel))
  have hfirst : inBothSteps.BlockOf 0 (twoBytes 1 1) := ⟨0, by decide +kernel, rfl⟩
  have hsecond : inBothSteps.BlockOf 1 (twoBytes 2 3) := ⟨1, by decide +kernel, rfl⟩
  have hnone := (pairwise_cons.mp hpairs).1 1 (by decide) _ _ hfirst hsecond
  exact absurd hnone (by decide +kernel)

end Run

end Adios.WriteBlock
