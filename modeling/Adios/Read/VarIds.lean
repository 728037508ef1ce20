import Adios.Read.GroupView

/-!
# Adios — a variable id means one variable

What holds of an open file after any sequence of views and step advances: its lists of names, as
far as they have not been freed, are those of the variables and attributes at the last seek, the
table that maps ids has their places in the index, and the table of names has their ids in the
full list. From it follows when all functions that take a variable id work on the same entry.
-/

namespace Adios

open List

structure ListInv (seeks : Nat) (names : List Name) (current full : Option NamelistPtr)
    (offset : Nat) (inView : Option Nat) : Prop where
  currentNames : ∀ p ∈ current, p.seek = seeks → p.names = names
  currentSeek : ∀ p ∈ current, p.seek ≤ seeks
  currentOffset : ∀ p ∈ current, p.offset = offset ∨ p.offset = 0
  outOfView : inView = none → ∀ p ∈ current, p.offset = 0
  fullNames : ∀ p ∈ full, p.seek = seeks → p.names = names
  fullSeek : ∀ p ∈ full, p.seek ≤ seeks
  fullOffset : ∀ p ∈ full, p.offset = 0

structure FileInv (f : AdiosFile) (vars : List (IndexEntry × Nat)) (attrs : List IndexEntry) :
    Prop where
  mapping : f.varidMapping = vars.map (·.2)
  sorted : (vars.map (·.2)).Pairwise (· < ·)
  entries : ∀ fh ∈ f.fh, ∀ e ∈ vars, fh.varsRoot[e.2]? = some e.1
  varList : ListInv f.seeks (vars.map fun e => fullName e.1) f.varNamelist
    f.internals.fullVarnamelist f.internals.groupVaridOffset f.internals.groupInView
  attrList : ListInv f.seeks (attrs.map fullName) f.attrNamelist
    f.internals.fullAttrnamelist f.internals.groupAttridOffset f.internals.groupInView
  hashtbl : f.internals.hashtblVars = hashtblOfNames (vars.map fun e => fullName e.1)

/-! ## Views keep it -/

section ListInv

variable {seeks offset : Nat} {names : List Name} {current full : Option NamelistPtr}
  {inView : Option Nat}

section

variable (h : ListInv seeks names current full offset inView)

include h

theorem ListInv.save (hview : inView = none) :
    ListInv seeks names current current offset inView :=
  { h with
    fullNames := h.currentNames
    fullSeek := h.currentSeek
    fullOffset := h.outOfView hview }

theorem ListInv.view (n g : Nat) :
    ListInv seeks names (full.map (·.add n)) full n (some g) where
  currentNames p hp hseek := by
    obtain ⟨q, hq, rfl⟩ := Option.map_eq_some_iff.mp hp
    exact h.fullNames q hq hseek
  currentSeek p hp := by
    obtain ⟨q, hq, rfl⟩ := Option.map_eq_some_iff.mp hp
    exact h.fullSeek q hq
  currentOffset p hp := by
    obtain ⟨q, hq, rfl⟩ := Option.map_eq_some_iff.mp hp
    left
    show q.offset + n = n
    rw [h.fullOffset q hq, Nat.zero_add]
  outOfView := nofun
  fullNames := h.fullNames
  fullSeek := h.fullSeek
  fullOffset := h.fullOffset

theorem ListInv.reset :
    ListInv seeks names full full 0 none where
  currentNames := h.fullNames
  currentSeek := h.fullSeek
  currentOffset p hp := Or.inr (h.fullOffset p hp)
  outOfView _ := h.fullOffset
  fullNames := h.fullNames
  fullSeek := h.fullSeek
  fullOffset := h.fullOffset

theorem ListInv.seeked {seeks' : Nat}
    (hlt : seeks < seeks') (names' : List Name) (offset' : Nat) (inView' : Option Nat) :
    ListInv seeks' names' (some ⟨seeks', names', 0⟩) full offset' inView' where
  currentNames p hp _ := by cases hp; rfl
  currentSeek p hp := by cases hp; exact le_rfl
  currentOffset p hp := by cases hp; exact Or.inr rfl
  outOfView _ p hp := by cases hp; rfl
  fullNames p hp hseek := absurd (h.fullSeek p hp) (by omega)
  fullSeek p hp := Nat.le_trans (h.fullSeek p hp) hlt.le
  fullOffset := h.fullOffset

end

end ListInv

variable {showHiddenAttrs : Bool} {f f' : AdiosFile} {vars : List (IndexEntry × Nat)}
  {attrs : List IndexEntry}

theorem FileInv.saveFullView (h : FileInv f vars attrs) : FileInv f.saveFullView vars attrs := by
  unfold AdiosFile.saveFullView
  split_ifs with hview
  · exact ⟨h.mapping, h.sorted, h.entries, h.varList.save hview, h.attrList.save hview, h.hashtbl⟩
  · exact h

theorem FileInv.setView (h : FileInv f vars attrs) (g : Nat) : FileInv (f.setView g) vars attrs :=
  ⟨h.mapping, h.sorted, h.entries, h.varList.view _ _, h.attrList.view _ _, h.hashtbl⟩

theorem FileInv.resetView (h : FileInv f vars attrs) : FileInv f.resetView vars attrs :=
  ⟨h.mapping, h.sorted, h.entries, h.varList.reset, h.attrList.reset, h.hashtbl⟩

theorem FileInv.groupView (h : FileInv f vars attrs) (groupid : Int) :
    FileInv (commonReadGroupView groupid f).2 vars attrs := by
  unfold commonReadGroupView
  split_ifs
  · exact h.saveFullView.setView _
  · exact h.resetView
  · exact h

/-! ## Seeks establish it -/

structure Seeked (showHiddenAttrs : Bool) (fh : BpIndex) (time : Option UInt32)
    (f f' : AdiosFile) : Prop where
  file : f'.fh = some fh
  mapping : f'.varidMapping = (fh.visibleVars time).map (·.2)
  seeks : f.seeks < f'.seeks
  nvars : f'.nvars = (fh.visibleVars time).length
  varNamelist : f'.varNamelist =
    some ⟨f'.seeks, (fh.visibleVars time).map fun e => fullName e.1, 0⟩
  nattrs : f'.nattrs = (fh.visibleAttrs showHiddenAttrs time).length
  attrNamelist : f'.attrNamelist =
    some ⟨f'.seeks, (fh.visibleAttrs showHiddenAttrs time).map fullName, 0⟩
  internals : f'.internals = f.internals

variable {fh : BpIndex} {time : Option UInt32} {varid k : Nat}

theorem seeked_of_bpSeekToStep {tostep : Int}
    (h : bpSeekToStep showHiddenAttrs fh tostep f = .ok f') :
    ∃ time, fh.timeOfStep tostep = .ok time ∧ Seeked showHiddenAttrs fh time f f' ∧
      f'.currentStep = tostep ∧ f'.lastStep = f.lastStep := by
  unfold bpSeekToStep at h
  cases htime : fh.timeOfStep tostep with
  | error e => rw [htime] at h; cases h
  | ok time =>
    rw [htime] at h
    cases h
    exact ⟨time, rfl, ⟨rfl, rfl, Nat.lt_succ_self _, rfl, rfl, rfl, rfl, rfl⟩, rfl, rfl⟩

theorem releaseStep_eq (h : releaseStep f = .ok f') :
    f' = { f with
      varidMapping := [], varNamelist := none, nvars := 0, attrNamelist := none, nattrs := 0 } := by
  unfold releaseStep at h
  cases hv : f.freeNamelist f.varNamelist f.nvars with
  | error e => rw [hv] at h; cases h
  | ok u =>
    cases ha : f.freeNamelist f.attrNamelist f.nattrs with
    | error e => rw [hv, ha] at h; cases h
    | ok u' =>
      rw [hv, ha] at h
      cases h
      rfl

theorem adiosReadBpAdvanceStep_cases {last : Bool} {poll : Option BpIndex} {retval : Int}
    (h : adiosReadBpAdvanceStep showHiddenAttrs last poll f = .ok (retval, f')) :
    (retval = errStepNotready ∧ f' = { f with fh := none }) ∨
      (retval = 0 ∧ ∃ fh time, Seeked showHiddenAttrs fh time f f' ∧
        fh.timeOfStep f'.currentStep = .ok time) := by
  unfold adiosReadBpAdvanceStep at h
  cases hfh : f.fh with
  | none => rw [hfh] at h; cases h
  | some fh =>
    rw [hfh] at h
    simp only at h
    split_ifs at h with hlast hstep
    · obtain ⟨f₁, hrelease, h⟩ := exists_of_bind_eq_ok h
      obtain ⟨f₂, hseek, h⟩ := exists_of_bind_eq_ok h
      cases h
      obtain ⟨time, htime, hs, hstep, -⟩ := seeked_of_bpSeekToStep hseek
      rw [← hstep] at htime
      cases releaseStep_eq hrelease
      exact Or.inr ⟨rfl, fh, time, { hs with seeks := hs.seeks, internals := hs.internals }, htime⟩
    · cases poll with
      | none =>
        cases h
        exact Or.inl ⟨rfl, rfl⟩
      | some fh' =>
        obtain ⟨f₁, hrelease, h⟩ := exists_of_bind_eq_ok h
        obtain ⟨f₂, hseek, h⟩ := exists_of_bind_eq_ok h
        obtain ⟨f₃, hrelease', h⟩ := exists_of_bind_eq_ok h
        obtain ⟨f₄, hseek', h⟩ := exists_of_bind_eq_ok h
        cases h
        obtain ⟨time, -, hs, -, -⟩ := seeked_of_bpSeekToStep hseek
        obtain ⟨time', htime, hs', hstep, -⟩ := seeked_of_bpSeekToStep hseek'
        rw [← hstep] at htime
        cases releaseStep_eq hrelease
        cases releaseStep_eq hrelease'
        exact Or.inr ⟨rfl, fh', time', { hs' with
          seeks := Nat.lt_trans hs.seeks hs'.seeks
          internals := hs'.internals.trans hs.internals }, htime⟩

theorem BpIndex.sorted_visibleVars (fh : BpIndex) (time : Option UInt32) :
    ((fh.visibleVars time).map (·.2)).Pairwise (· < ·) := by
  have hsub : ((fh.visibleVars time).map (·.2)).Sublist (fh.varsRoot.zipIdx.map (·.2)) :=
    filter_sublist.map _
  have hrange : fh.varsRoot.zipIdx.map (·.2) = List.range fh.varsRoot.length := by
    rw [zipIdx_map_snd, range_eq_range']
  rw [hrange] at hsub
  exact pairwise_lt_range.sublist hsub

theorem BpIndex.getElem?_of_mem_visibleVars {e : IndexEntry × Nat} (h : e ∈ fh.visibleVars time) :
    fh.varsRoot[e.2]? = some e.1 :=
  mem_zipIdx_iff_getElem?.mp (mem_of_mem_filter h)

theorem Seeked.inv {fh : BpIndex} {time : Option UInt32}
    (hs : Seeked showHiddenAttrs fh time f f') (h : FileInv f vars attrs) :
    FileInv (f'.renew showHiddenAttrs fh ((fh.visibleVars time).map fun e => fullName e.1))
      (fh.visibleVars time) (fh.visibleAttrs showHiddenAttrs time) where
  mapping := hs.mapping
  sorted := fh.sorted_visibleVars time
  entries fh' hfh e he := by
    cases hs.file.symm.trans hfh
    exact BpIndex.getElem?_of_mem_visibleVars he
  varList := by
    show ListInv f'.seeks _ f'.varNamelist f'.internals.fullVarnamelist _ _
    rw [hs.varNamelist, hs.internals]
    exact h.varList.seeked hs.seeks _ _ _
  attrList := by
    show ListInv f'.seeks _ f'.attrNamelist f'.internals.fullAttrnamelist _ _
    rw [hs.attrNamelist, hs.internals]
    exact h.attrList.seeked hs.seeks _ _ _
  hashtbl := rfl

/-! ## Reading a list -/

theorem AdiosFile.name_eq_ok_iff {namelist : Option NamelistPtr} {i : Nat} {name : Name} :
    f.name namelist i = .ok name ↔
      ∃ p ∈ namelist, p.seek = f.seeks ∧ p.names[p.offset + i]? = some name := by
  unfold AdiosFile.name
  cases namelist with
  | none => simp
  | some p =>
    simp only [Option.mem_some_iff, exists_eq_left']
    split_ifs with hseek
    · cases hname : p.names[p.offset + i]? <;> simp [hseek]
    · simp [hseek]

theorem AdiosFile.names_eq {p : NamelistPtr} (hseek : p.seek = f.seeks) {i n : Nat}
    (hle : p.offset + i + n ≤ p.names.length) :
    f.names (some p) i n = .ok ((p.names.drop (p.offset + i)).take n) := by
  induction n generalizing i with
  | zero => rfl
  | succ n ih =>
    have hlt : p.offset + i < p.names.length := by omega
    have hname : f.name (some p) i = .ok p.names[p.offset + i] :=
      AdiosFile.name_eq_ok_iff.mpr ⟨p, rfl, hseek, getElem?_eq_getElem hlt⟩
    have hrest : f.names (some p) (i + 1) n = _ := ih (by omega)
    rw [AdiosFile.names, hname, hrest, drop_eq_getElem_cons hlt, take_succ_cons]
    rfl

theorem Seeked.names_eq (hs : Seeked showHiddenAttrs fh time f f') :
    f'.names f'.varNamelist 0 f'.nvars =
      .ok ((fh.visibleVars time).map fun e => fullName e.1) := by
  rw [hs.varNamelist, hs.nvars, AdiosFile.names_eq rfl (by simp)]
  simp

theorem Seeked.updateInternals_eq (hs : Seeked showHiddenAttrs fh time f f') :
    updateInternals showHiddenAttrs fh f' =
      .ok (f'.renew showHiddenAttrs fh ((fh.visibleVars time).map fun e => fullName e.1)) := by
  unfold updateInternals
  rw [hs.names_eq]
  rfl

/-! ## The invariant holds -/

theorem FileInv.new (fh : BpIndex) : FileInv (.new fh) [] [] where
  mapping := rfl
  sorted := List.Pairwise.nil
  entries := nofun
  varList := ⟨nofun, nofun, nofun, nofun, nofun, nofun, nofun⟩
  attrList := ⟨nofun, nofun, nofun, nofun, nofun, nofun, nofun⟩
  hashtbl := rfl

theorem FileInv.reenterView (h : FileInv f vars attrs) (hvars : ∀ p ∈ f.varNamelist, p.offset = 0)
    (hattrs : ∀ p ∈ f.attrNamelist, p.offset = 0) : FileInv f.reenterView vars attrs := by
  unfold AdiosFile.reenterView
  cases hview : f.internals.groupInView with
  | none => exact h
  | some g =>
    refine FileInv.groupView ?_ _
    exact ⟨h.mapping, h.sorted, h.entries, { h.varList with outOfView := fun _ => hvars },
      { h.attrList with outOfView := fun _ => hattrs }, h.hashtbl⟩

theorem commonReadOpen_eq {streaming : Bool}
    (h : commonReadOpen showHiddenAttrs streaming fh = .ok f) :
    ∃ time f₁, fh.timeOfStep (if streaming then 0 else -1) = .ok time ∧
      Seeked showHiddenAttrs fh time (.new fh) f₁ ∧
      f = f₁.renew showHiddenAttrs fh ((fh.visibleVars time).map fun e => fullName e.1) := by
  unfold commonReadOpen at h
  obtain ⟨f₁, hseek, h⟩ := exists_of_bind_eq_ok h
  obtain ⟨time, htime, hs, -, -⟩ := seeked_of_bpSeekToStep hseek
  have hs' : Seeked showHiddenAttrs fh time (.new fh) { f₁ with
      currentStep := 0, lastStep := intOfU32 (fh.tidxStop - fh.tidxStart) } :=
    ⟨hs.file, hs.mapping, hs.seeks, hs.nvars, hs.varNamelist, hs.nattrs, hs.attrNamelist,
      hs.internals⟩
  exact ⟨time, _, htime, hs', Except.ok.inj (h.symm.trans hs'.updateInternals_eq)⟩

theorem commonReadAdvanceStep_cases {last : Bool} {poll : Option BpIndex} {retval : Int}
    (h : commonReadAdvanceStep showHiddenAttrs last poll f = .ok (retval, f')) :
    (retval = errStepNotready ∧ f' = { f with fh := none }) ∨
      (retval = 0 ∧ ∃ fh time f₁, Seeked showHiddenAttrs fh time f f₁ ∧
        fh.timeOfStep f₁.currentStep = .ok time ∧ f' = (f₁.renew showHiddenAttrs fh
          ((fh.visibleVars time).map fun e => fullName e.1)).reenterView) := by
  unfold commonReadAdvanceStep at h
  obtain ⟨⟨r, f₁⟩, hadvance, h⟩ := exists_of_bind_eq_ok h
  rcases adiosReadBpAdvanceStep_cases hadvance with ⟨rfl, rfl⟩ | ⟨rfl, fh, time, hs, htime⟩
  · left
    have hne : errStepNotready ≠ 0 := by decide
    simp only [if_pos hne] at h
    cases h
    exact ⟨rfl, rfl⟩
  · right
    simp only [ne_eq, not_true_eq_false, if_false, hs.file, hs.updateInternals_eq] at h
    cases h
    exact ⟨rfl, fh, time, f₁, hs, htime, rfl⟩

theorem OpenFile.inv (h : OpenFile showHiddenAttrs f) : ∃ vars attrs, FileInv f vars attrs := by
  induction h with
  | opened hopen =>
    obtain ⟨time, f₁, -, hs, rfl⟩ := commonReadOpen_eq hopen
    exact ⟨_, _, hs.inv (.new _)⟩
  | groupView groupid _ ih =>
    obtain ⟨vars, attrs, h⟩ := ih
    exact ⟨vars, attrs, h.groupView groupid⟩
  | advanceStep _ hadvance ih =>
    obtain ⟨vars, attrs, h⟩ := ih
    rcases commonReadAdvanceStep_cases hadvance with ⟨-, rfl⟩ | ⟨-, fh, time, f₁, hs, -, rfl⟩
    · exact ⟨vars, attrs, { h with entries := nofun }⟩
    · refine ⟨_, _, (hs.inv h).reenterView ?_ ?_⟩
      · intro p hp
        cases hs.varNamelist.symm.trans hp
        rfl
      · intro p hp
        cases hs.attrNamelist.symm.trans hp
        rfl

/-! ## Variable ids -/

def entriesOfVarid (f : AdiosFile) (i : Nat) : List (Except Fault (List Nat)) :=
  [commonReadInqVarByid f i, commonReadInqVarStat f i, commonReadInqVarBlockinfo f i,
    commonReadInqTransBlockinfo f i, commonReadScheduleReadByid f i, commonReadIsVarTimed f i]

def VaridsResolve (f : AdiosFile) : Prop :=
  ∀ i < f.nvars, ∃ fh k e, f.fh = some fh ∧ fh.varsRoot[k]? = some e ∧
    f.name f.varNamelist i = .ok (fullName e) ∧
    ∀ r ∈ entriesOfVarid f i, ∃ ks, r = .ok ks ∧ ks ≠ [] ∧ ∀ j ∈ ks, j = k

/-- The condition for it: the file has not been closed by a step advance that found no step, its
list of names has not been freed, there are no variables before those in view, and none before a
visible one that is missing at the step. -/
structure VaridsAligned (f : AdiosFile) : Prop where
  opened : f.fh.isSome
  list : ∃ p, f.varNamelist = some p ∧ p.seek = f.seeks
  offset : f.internals.groupVaridOffset = 0
  mapping : ∀ i < f.nvars, f.varidMapping[i]? = some i

theorem mapReqVarid_eq_ok_iff :
    mapReqVarid f varid = .ok k ↔ f.varidMapping[varid]? = some k := by
  unfold mapReqVarid
  cases f.varidMapping[varid]? <;> simp

theorem bpFindVarByid_eq_ok_iff :
    bpFindVarByid f varid = .ok k ↔ k = varid ∧ ∃ fh, f.fh = some fh ∧ k < fh.varsRoot.length := by
  unfold bpFindVarByid
  cases f.fh with
  | none => simp
  | some fh =>
    simp only [Option.some.injEq, exists_eq_left']
    split_ifs with hlt
    · constructor
      · rintro ⟨⟩
        exact ⟨rfl, hlt⟩
      · rintro ⟨rfl, -⟩
        rfl
    · simp only [false_iff, not_and, not_lt]
      rintro rfl
      exact Nat.le_of_not_lt hlt

theorem bpFindMapped_eq_ok_iff :
    bpFindMapped f varid = .ok k ↔
      f.varidMapping[varid]? = some k ∧ ∃ fh, f.fh = some fh ∧ k < fh.varsRoot.length := by
  unfold bpFindMapped
  constructor
  · intro h
    obtain ⟨k', hmap, hfind⟩ := exists_of_bind_eq_ok h
    obtain ⟨rfl, hfh⟩ := bpFindVarByid_eq_ok_iff.mp hfind
    exact ⟨mapReqVarid_eq_ok_iff.mp hmap, hfh⟩
  · rintro ⟨hmap, hfh⟩
    rw [mapReqVarid_eq_ok_iff.mpr hmap]
    exact bpFindVarByid_eq_ok_iff.mpr ⟨rfl, hfh⟩

theorem VaridsAligned.resolve (h : FileInv f vars attrs) (haligned : VaridsAligned f) :
    VaridsResolve f := by
  intro i hi
  obtain ⟨fh, hfh⟩ := Option.isSome_iff_exists.mp haligned.opened
  obtain ⟨p, hp, hseek⟩ := haligned.list
  have hmapping := haligned.mapping i hi
  have hoffset := haligned.offset
  obtain ⟨e, he, hplace⟩ : ∃ e, vars[i]? = some e ∧ e.2 = i := by
    rw [h.mapping, getElem?_map, Option.map_eq_some_iff] at hmapping
    exact hmapping
  have hentry := h.entries fh hfh e (mem_of_getElem? he)
  rw [hplace] at hentry
  obtain ⟨hlt, -⟩ := List.getElem?_eq_some_iff.mp hentry
  have hmapped : bpFindMapped f i = .ok i := bpFindMapped_eq_ok_iff.mpr ⟨hmapping, fh, hfh, hlt⟩
  have hfound : bpFindVarByid f i = .ok i := bpFindVarByid_eq_ok_iff.mpr ⟨rfl, fh, hfh, hlt⟩
  have hname : f.name f.varNamelist i = .ok (fullName e.1) := by
    refine AdiosFile.name_eq_ok_iff.mpr ⟨p, hp, hseek, ?_⟩
    have hzero : p.offset = 0 := by
      have := h.varList.currentOffset p hp
      omega
    rw [h.varList.currentNames p hp hseek, hzero, Nat.zero_add, getElem?_map, he]
    rfl
  refine ⟨fh, i, e.1, hfh, hentry, hname, ?_⟩
  have hraw : commonReadInqVarRawByid f i = .ok [i] := by
    unfold commonReadInqVarRawByid adiosReadBpInqVarByid
    rw [if_pos hi, hoffset, Nat.add_zero, hmapped]
    rfl
  have htrans : commonReadInqTransinfo f i = .ok i := hmapped
  have hentries : entriesOfVarid f i =
      [.ok [i, i], .ok [i], .ok [i, i], .ok [i, i], .ok [i, i, i], .ok [i]] := by
    simp only [entriesOfVarid, commonReadInqVarByid, hraw, htrans, commonReadInqVarStat,
      adiosReadBpInqVarStat, hoffset, Nat.add_zero, hfound, commonReadInqVarBlockinfo,
      adiosReadBpInqVarTransBlockinfo, adiosReadBpInqVarBlockinfo, hmapped,
      commonReadInqTransBlockinfo, commonReadScheduleReadByid, adiosReadBpScheduleReadByid,
      if_pos hi, commonReadIsVarTimed, adiosReadBpIsVarTimed, bind, Except.bind, pure, Except.pure]
    simp
  rw [hentries]
  simp only [mem_cons, not_mem_nil, or_false]
  rintro r (rfl | rfl | rfl | rfl | rfl | rfl) <;> exact ⟨_, rfl, by simp, by simp⟩

theorem VaridsResolve.aligned (h : FileInv f vars attrs) (hresolve : VaridsResolve f)
    (hpos : 0 < f.nvars) : VaridsAligned f := by
  -- the statistics take the id as it is, the transform takes it without the offset
  have hids : ∀ i < f.nvars, f.varidMapping[i]? = some (i + f.internals.groupVaridOffset) ∧
      f.varidMapping[i + f.internals.groupVaridOffset]? =
        some (i + f.internals.groupVaridOffset) := by
    intro i hi
    obtain ⟨fh, k, e, -, -, -, hall⟩ := hresolve i hi
    have hstat := hall (commonReadInqVarStat f i) (by simp [entriesOfVarid])
    have htrans := hall (commonReadInqTransBlockinfo f i) (by simp [entriesOfVarid])
    have hbyid := hall (commonReadInqVarByid f i) (by simp [entriesOfVarid])
    obtain ⟨ks, hks, -, hk⟩ := hstat
    obtain ⟨k₁, hfound, hks⟩ := exists_of_bind_eq_ok hks
    cases hks
    obtain ⟨hk₁, -⟩ := bpFindVarByid_eq_ok_iff.mp hfound
    subst hk₁
    obtain rfl : k = i + f.internals.groupVaridOffset := (hk _ (mem_singleton_self _)).symm
    obtain ⟨ks, hks, -, hk⟩ := htrans
    obtain ⟨k₂, hti, hks⟩ := exists_of_bind_eq_ok hks
    obtain ⟨k₃, -, hks⟩ := exists_of_bind_eq_ok hks
    cases hks
    obtain ⟨hmapped, -⟩ := bpFindMapped_eq_ok_iff.mp hti
    rw [hk k₂ (by simp)] at hmapped
    obtain ⟨ks, hks, -, hk⟩ := hbyid
    obtain ⟨vi, hraw, hks⟩ := exists_of_bind_eq_ok hks
    unfold commonReadInqVarRawByid at hraw
    rw [if_pos hi] at hraw
    obtain ⟨k₄, hmapped', hraw⟩ := exists_of_bind_eq_ok hraw
    cases hraw
    obtain ⟨ti, -, hks⟩ := exists_of_bind_eq_ok hks
    cases hks
    obtain ⟨hmapped', -⟩ := bpFindMapped_eq_ok_iff.mp hmapped'
    rw [hk k₄ (by simp)] at hmapped'
    exact ⟨hmapped, hmapped'⟩
  have hoffset : f.internals.groupVaridOffset = 0 := by
    obtain ⟨h₀, h₁⟩ := hids 0 hpos
    have hsorted := h.sorted
    rw [← h.mapping] at hsorted
    obtain ⟨hlt₀, h₀⟩ := List.getElem?_eq_some_iff.mp h₀
    obtain ⟨hlt₁, h₁⟩ := List.getElem?_eq_some_iff.mp h₁
    by_contra hne
    have hlt := pairwise_iff_getElem.mp hsorted 0 _ hlt₀ hlt₁ (by omega)
    omega
  obtain ⟨fh, k, e, hfh, -, hname, -⟩ := hresolve 0 hpos
  obtain ⟨p, hp, hseek, -⟩ := AdiosFile.name_eq_ok_iff.mp hname
  refine ⟨by rw [hfh]; rfl, ⟨p, hp, hseek⟩, hoffset, fun i hi => ?_⟩
  obtain ⟨hi, -⟩ := hids i hi
  rw [hoffset] at hi
  exact hi

/-- **A variable id means one variable** in an open file exactly when it is aligned. -/
theorem varids_resolve_iff (h : OpenFile showHiddenAttrs f) :
    VaridsResolve f ↔ f.nvars = 0 ∨ VaridsAligned f := by
  obtain ⟨vars, attrs, hinv⟩ := h.inv
  constructor
  · intro hresolve
    rcases Nat.eq_zero_or_pos f.nvars with hzero | hpos
    · exact Or.inl hzero
    · exact Or.inr (hresolve.aligned hinv hpos)
  · rintro (hzero | haligned)
    · intro i hi
      omega
    · exact haligned.resolve hinv

def timedEntry (group name : List UInt8) (times : List UInt32) : IndexEntry where
  id := 1
  groupName := CString.ofBuffer group
  name := CString.ofBuffer name
  path := CString.empty
  type := .integer
  characteristics := times.map fun t => { IndexCharacteristic.zero with timeIndex := t }

def twoGroups : BpIndex where
  groups := [CString.ofBuffer (chars "g"), CString.ofBuffer (chars "h")]
  varsRoot := [timedEntry (chars "g") (chars "a") [1], timedEntry (chars "h") (chars "b") [1]]
  attrsRoot := []
  tidxStart := 1
  tidxStop := 1

theorem varids_resolve_twoGroups :
    ∃ f, commonReadOpen false false twoGroups = .ok f ∧ f.nvars = 2 ∧ VaridsResolve f := by
  refine ⟨_, rfl, rfl, ?_⟩
  refine (varids_resolve_iff (@OpenFile.opened false false twoGroups _ rfl)).mpr (Or.inr ?_)
  exact ⟨rfl, ⟨_, rfl, rfl⟩, rfl, by decide⟩

/-- In the view of the second group, the statistics of id 0 are those of its variable, and the
transform is that of the variable of the first group. -/
theorem not_varids_resolve_secondGroup :
    ∃ f, commonReadOpen false false twoGroups = .ok f ∧
      ¬VaridsResolve (commonReadGroupView 1 f).2 := by
  refine ⟨_, rfl, fun hresolve => ?_⟩
  obtain ⟨fh, k, e, -, -, -, hall⟩ := hresolve 0 (by decide)
  obtain ⟨ks, hstat, -, hk⟩ := hall (.ok [1]) (by decide)
  obtain ⟨ks', htrans, -, hk'⟩ := hall (.ok [0, 0]) (by decide)
  cases hstat
  cases htrans
  have h₁ := hk 1 (by simp)
  have h₀ := hk' 0 (by simp)
  omega

end Adios
