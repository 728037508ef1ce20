import Adios.Lists.Places
import Adios.Read.AttrIds
import Adios.Read.PointReads

/-!
# Adios — when attribute ids are right

The id of an attribute in the list counts other attributes than the list has where some are not of
the step, or are hidden; and what is returned is of the last step, whichever the step is. When the
two come to the attribute of the list, at the time of the step.
-/

namespace Adios.AttrIds

open List BoxRead Lists Wire

/-! ## The walk -/

theorem walk_eq {counted : IndexEntry → Bool} (i : Nat) (as : List (IndexEntry × Nat)) :
    walk counted i as = (as.filter fun a => counted a.1)[i]? := by
  induction as generalizing i with
  | nil =>
    cases i with
    | zero => rfl
    | succ i => rfl
  | cons a as ih =>
    rw [filter_cons]
    cases i with
    | zero =>
      rw [walk]
      split_ifs
      · rfl
      · exact ih 0
    | succ i =>
      rw [walk]
      split_ifs
      · exact ih i
      · exact ih (i + 1)

theorem ofInt_add_one (n : Int) : UInt32.ofInt (n + 1) = UInt32.ofInt n + 1 := by
  show UInt32.ofNat ((n + 1) % 4294967296).toNat = UInt32.ofNat (n % 4294967296).toNat + 1
  rw [← UInt32.toNat_inj, UInt32.toNat_add, UInt32.toNat_ofNat', UInt32.toNat_ofNat']
  have hone : (1 : UInt32).toNat = 1 := rfl
  omega

theorem setAt_spec (lastStep : Int) {e : IndexEntry} (hne : e.characteristics ≠ []) :
    ∃ c, e.characteristics[setAt lastStep e]? = some c ∧
      if UInt32.ofInt (lastStep + 1) ∈ VarSteps.times e then
        c.timeIndex = UInt32.ofInt (lastStep + 1)
      else (VarSteps.times e).head? = some c.timeIndex := by
  have hiff : ∀ c : IndexCharacteristic, c.timeIndex - 1 = UInt32.ofInt lastStep ↔
      c.timeIndex = UInt32.ofInt (lastStep + 1) := fun c => by
    rw [ofInt_add_one]
    exact UInt32.sub_eq_iff_eq_add
  unfold setAt
  cases hfind : e.characteristics.findIdx? fun c => c.timeIndex - 1 = UInt32.ofInt lastStep with
  | some j =>
    obtain ⟨hlt, htime, -⟩ := List.findIdx?_eq_some_iff_getElem.mp hfind
    have heq := (hiff _).mp (of_decide_eq_true htime)
    refine ⟨_, getElem?_eq_getElem hlt, ?_⟩
    rw [if_pos, heq]
    rw [← heq]
    exact mem_map_of_mem (getElem_mem hlt)
  | none =>
    have hnone := List.findIdx?_eq_none_iff.mp hfind
    obtain ⟨c, cs, hcs⟩ := exists_cons_of_ne_nil hne
    refine ⟨c, ?_, ?_⟩
    · rw [hcs]
      rfl
    · rw [if_neg, VarSteps.times, hcs]
      · rfl
      · intro hmem
        obtain ⟨d, hd, heq⟩ := mem_map.mp hmem
        exact absurd ((hiff d).mpr heq) (of_decide_eq_false (hnone d hd))

theorem Handle.timely_iff (h : Handle) (fh : BpIndex) {e : IndexEntry} {c : IndexCharacteristic}
    (hc : e.characteristics[setAt h.f.lastStep e]? = some c) :
    h.Timely fh e ↔ OfTime (h.time fh) e c := by
  have hne : e.characteristics ≠ [] := fun hnil => by
    rw [hnil] at hc
    cases hc
  obtain ⟨c', hc', hspec⟩ := setAt_spec h.f.lastStep hne
  obtain rfl := Option.some.inj (hc'.symm.trans hc)
  unfold Handle.Timely OfTime
  refine forall_congr' fun hmem => ?_
  split_ifs at hspec ⊢ with hlast
  · rw [hspec]
  · rw [hspec]
    exact Option.some_inj

/-! ## The list -/

theorem currentStep_of_commonReadOpen {showHiddenAttrs streaming : Bool} {fh : BpIndex}
    {f : AdiosFile} (h : commonReadOpen showHiddenAttrs streaming fh = .ok f) :
    f.currentStep = 0 := by
  unfold commonReadOpen at h
  obtain ⟨f₁, -, h⟩ := exists_of_bind_eq_ok h
  obtain ⟨names, -, h⟩ := exists_of_bind_eq_ok h
  obtain rfl := Except.ok.inj h
  rfl

theorem groupView_keeps (groupid : Int) (f : AdiosFile) :
    (commonReadGroupView groupid f).2.fh = f.fh ∧
      (commonReadGroupView groupid f).2.currentStep = f.currentStep := by
  unfold commonReadGroupView AdiosFile.saveFullView
  split_ifs <;> exact ⟨rfl, rfl⟩

theorem reenterView_keeps (f : AdiosFile) :
    f.reenterView.fh = f.fh ∧ f.reenterView.currentStep = f.currentStep := by
  unfold AdiosFile.reenterView
  cases f.internals.groupInView with
  | none => exact ⟨rfl, rfl⟩
  | some g => exact groupView_keeps _ _

theorem OpenIn.inv {showHiddenAttrs streaming : Bool} {f : AdiosFile}
    (h : OpenIn showHiddenAttrs streaming f) :
    ∃ vars attrs, FileInv f vars attrs ∧ ∀ fh ∈ f.fh, ∃ time,
      (if streaming then fh.timeOfStep f.currentStep else .ok none) = .ok time ∧
        attrs = fh.visibleAttrs showHiddenAttrs time := by
  induction h with
  | @opened fh f hopen =>
    have hzero := currentStep_of_commonReadOpen hopen
    obtain ⟨time, f₁, htime, hs, rfl⟩ := commonReadOpen_eq hopen
    refine ⟨_, _, hs.inv (.new _), fun fh' hfh' => ⟨time, ?_, ?_⟩⟩
    · obtain rfl := Option.some.inj (hs.file.symm.trans hfh')
      rw [hzero]
      cases streaming with
      | true => exact htime
      | false => exact htime
    · obtain rfl := Option.some.inj (hs.file.symm.trans hfh')
      rfl
  | @groupView f groupid _ ih =>
    obtain ⟨vars, attrs, hinv, hattrs⟩ := ih
    obtain ⟨hfh, hstep⟩ := groupView_keeps groupid f
    refine ⟨vars, attrs, hinv.groupView groupid, ?_⟩
    rw [hfh, hstep]
    exact hattrs
  | @advanceStep last poll f f' retval hstream _ hadvance ih =>
    obtain ⟨vars, attrs, hinv, hattrs⟩ := ih
    rcases commonReadAdvanceStep_cases hadvance with ⟨-, rfl⟩ | ⟨-, fh, time, f₁, hs, htime, rfl⟩
    · exact ⟨vars, attrs, { hinv with entries := nofun }, nofun⟩
    · obtain ⟨hfh, hstep⟩ := reenterView_keeps (f₁.renew showHiddenAttrs fh
        ((fh.visibleVars time).map fun e => fullName e.1))
      refine ⟨_, _, (hs.inv hinv).reenterView ?_ ?_, ?_⟩
      · intro p hp
        cases hs.varNamelist.symm.trans hp
        rfl
      · intro p hp
        cases hs.attrNamelist.symm.trans hp
        rfl
      · rw [hfh, hstep]
        intro fh' hfh'
        obtain rfl := Option.some.inj (hs.file.symm.trans hfh')
        refine ⟨time, ?_, rfl⟩
        rw [if_pos hstream]
        exact htime

section

variable {h : Handle} {fh : BpIndex} {ptr : NamelistPtr}

theorem names_eq_listed (hfh : h.f.fh = some fh) (hptr : h.f.attrNamelist = some ptr)
    (hseek : ptr.seek = h.f.seeks) :
    ptr.names = (h.listed fh).map fun a => fullName a.1 := by
  obtain ⟨vars, attrs, hinv, hattrs⟩ := h.opened.inv
  obtain ⟨time, htime, rfl⟩ := hattrs fh hfh
  have hshown : h.shownTime fh = time := by
    unfold Handle.shownTime
    split_ifs at htime ⊢
    · rw [htime]
    · exact Except.ok.inj htime
  have hmap : (h.listed fh).map (fun a => fullName a.1) =
      ((h.listed fh).map Prod.fst).map fullName := by
    rw [map_map]
    rfl
  have hlisted : (h.listed fh).map Prod.fst =
      fh.attrsRoot.filter (h.shown fh) := map_fst_filter_zipIdx fh.attrsRoot
  rw [hinv.attrList.currentNames ptr hptr hseek, hmap, hlisted, BpIndex.visibleAttrs, ← hshown]
  rfl

theorem showsHidden_eq {f : AdiosFile} (hptr : f.attrNamelist = some ptr)
    (hseek : ptr.seek = f.seeks) {i n : Nat} (hle : ptr.offset + i + n ≤ ptr.names.length) :
    showsHidden f i n = .ok (((ptr.names.drop (ptr.offset + i)).take n).any isHidden) := by
  induction n generalizing i with
  | zero =>
    rw [take_zero]
    rfl
  | succ n ih =>
    have hlt : ptr.offset + i < ptr.names.length := by omega
    have hname : f.name f.attrNamelist i = .ok ptr.names[ptr.offset + i] :=
      AdiosFile.name_eq_ok_iff.mpr ⟨ptr, hptr, hseek, getElem?_eq_getElem hlt⟩
    rw [showsHidden, hname, ok_bind, drop_eq_getElem_cons hlt, take_succ_cons, any_cons]
    cases isHidden ptr.names[ptr.offset + i] with
    | true => rfl
    | false =>
      rw [Bool.false_or]
      exact ih (by omega)

section

variable (hfh : h.f.fh = some fh) (hptr : h.f.attrNamelist = some ptr)
  (hseek : ptr.seek = h.f.seeks)

include hfh hptr hseek

theorem showsHidden_eq_namesHidden (hle : ptr.offset + h.f.nattrs ≤ (h.listed fh).length) :
    showsHidden h.f 0 h.f.nattrs = .ok (h.namesHidden fh ptr) := by
  have hnames := names_eq_listed hfh hptr hseek
  rw [showsHidden_eq hptr hseek (by rw [hnames, length_map]; omega), hnames, ← map_drop,
    ← map_take, any_map]
  rfl

theorem name_of_listed {i k : Nat} {a : IndexEntry}
    (ha : (h.listed fh)[ptr.offset + i]? = some (a, k)) :
    h.f.name h.f.attrNamelist i = .ok (fullName a) := by
  refine AdiosFile.name_eq_ok_iff.mpr ⟨ptr, hptr, hseek, ?_⟩
  rw [names_eq_listed hfh hptr hseek, getElem?_map, ha]
  rfl

end

theorem of_listed {i k : Nat} {a : IndexEntry} (ha : (h.listed fh)[i]? = some (a, k)) :
    fh.attrsRoot[k]? = some a ∧ a.characteristics ≠ [] := by
  obtain ⟨hget, hshown, -⟩ := getElem?_filter_zipIdx_iff.mp ha
  refine ⟨hget, fun hnil => ?_⟩
  rw [Handle.shown, atTime, hnil] at hshown
  simp at hshown

end

/-! ## The value -/

section

variable {h : Handle} {fh : BpIndex}

theorem copyValue_eq_ok {type : Datatype} {value : Option (List UInt8)} (hsome : value.isSome)
    (hlen : ∀ bytes ∈ value, (typeSize type value).toNat ≤ bytes.length) :
    ∃ out, copyValue type value = .ok out := by
  obtain ⟨bytes, rfl⟩ := Option.isSome_iff_exists.mp hsome
  have hle := hlen bytes rfl
  refine ⟨_, if_neg ?_⟩
  exact Nat.not_lt_of_le hle

theorem copyValue_inv {type : Datatype} {value : Option (List UInt8)} {out : AttrData}
    (h : copyValue type value = .ok out) : value.isSome := by
  cases value with
  | none => cases h
  | some bytes => rfl

variable {a v : IndexEntry} {c : IndexCharacteristic} {s : Setting} {f : AdiosFile}

theorem getElem?_of_varOf {varId : UInt32} {j : Nat} (hj : varOf fh a varId = some j) :
    ∃ v, fh.varsRoot[j]? = some v := by
  have hlt : ∀ p : IndexEntry → Bool, fh.varsRoot.findIdx? p = some j → j < fh.varsRoot.length :=
    fun p hp => (List.findIdx?_eq_some_iff_getElem.mp hp).1
  unfold varOf at hj
  rcases Option.or_eq_some_iff.mp hj with hj | ⟨-, hj⟩
  · exact ⟨_, getElem?_eq_getElem (hlt _ hj)⟩
  · rcases Option.or_eq_some_iff.mp hj with hj | ⟨-, hj⟩
    · exact ⟨_, getElem?_eq_getElem (hlt _ hj)⟩
    · exact ⟨_, getElem?_eq_getElem (hlt _ hj)⟩

theorem takenSet_eq_ok_iff {lastStep : Int} {e : IndexEntry} :
    takenSet lastStep e = .ok c ↔ e.characteristics[setAt lastStep e]? = some c := by
  unfold takenSet
  cases e.characteristics[setAt lastStep e]? with
  | none => simp
  | some c' => simp

theorem readVariable_of_text (htext : isText a v c = true) (hwf : c.dims.Wf) (tmpdata : Mem) :
    readVariable s f a v c tmpdata =
      readBytes s f a v (c.dims.dims.headD 0) tmpdata >>= fun out =>
        .ok (some (f.currentStep + f.lastStep), out) := by
  have hcount : c.dims.count = 1 := by
    unfold isText at htext
    rw [Bool.and_eq_true] at htext
    exact of_decide_eq_true htext.2
  unfold readVariable
  rw [if_pos htext]
  unfold Dims.Wf at hwf
  rw [hcount] at hwf
  cases hdims : c.dims.dims with
  | nil =>
    rw [hdims] at hwf
    cases hwf
  | cons count rest => rfl

theorem readBytes_answers_iff {count : UInt64} {tmpdata : Mem} :
    (∃ out, readBytes s f a v count tmpdata = .ok out ∧ Handle.Answers (out.map some)) ↔
      ∃ p, readVarBb s v [0] [count] f.lastStep.toNat 1
        { mem := tmpdata, data := 0, errors := [] } = .ok (true, p) := by
  constructor
  · rintro ⟨out, hread, hanswers⟩
    obtain ⟨⟨vc, p⟩, hbb, hread⟩ := exists_of_bind_eq_ok hread
    cases vc with
    | true => exact ⟨p, hbb⟩
    | false =>
      obtain rfl := Except.ok.inj hread
      exact absurd hanswers id
  · rintro ⟨p, hbb⟩
    unfold readBytes
    rw [hbb, ok_bind]
    dsimp only
    rw [if_neg (by decide)]
    split_ifs <;> exact ⟨_, rfl, trivial⟩

theorem readVariable_iff (hfh : h.f.fh = some fh) (hv : v ∈ fh.varsRoot)
    (hc : v.characteristics[setAt h.f.lastStep v]? = some c) :
    (∀ tmpdata, ∃ step out, readVariable h.s h.f a v c tmpdata = .ok (step, out) ∧
      OfTime (h.time fh) v c ∧ (∀ t ∈ step, h.time fh ∈ VarSteps.times v →
        ∃ time, stepTime h.s v t = .ok time ∧ UInt32.ofInt time = h.time fh) ∧
      Handle.Answers (out.map some)) ↔ h.VarClear fh a v c := by
  have hcmem := mem_of_getElem? hc
  have htimely := h.timely_iff fh hc
  have hwf := h.dims_wf fh hfh v hv c hcmem
  constructor
  · intro hread
    have htime : OfTime (h.time fh) v c := by
      obtain ⟨step, out, -, htime, -⟩ := hread (Mem.fill 0)
      exact htime
    refine ⟨htimely.mpr htime, fun htext hmem => ?_, fun htext tmpdata => ?_, fun hscalar => ?_⟩
    · obtain ⟨step, out, hread, -, hstep, -⟩ := hread (Mem.fill 0)
      rw [readVariable_of_text htext hwf] at hread
      obtain ⟨out', -, hread⟩ := exists_of_bind_eq_ok hread
      obtain ⟨rfl, -⟩ := Prod.mk.inj (Except.ok.inj hread)
      exact hstep _ rfl hmem
    · obtain ⟨step, out, hread, -, -, hanswers⟩ := hread tmpdata
      rw [readVariable_of_text htext hwf] at hread
      obtain ⟨out', hbytes, hread⟩ := exists_of_bind_eq_ok hread
      obtain ⟨-, rfl⟩ := Prod.mk.inj (Except.ok.inj hread)
      exact readBytes_answers_iff.mp ⟨out', hbytes, hanswers⟩
    · obtain ⟨step, out, hread, -⟩ := hread (Mem.fill 0)
      unfold readVariable at hread
      have htext : ¬isText a v c = true := fun htext => by
        unfold isText at htext
        rw [hscalar, Bool.and_eq_true] at htext
        exact absurd htext.2 (by decide)
      rw [if_neg htext, hscalar, if_neg (by decide)] at hread
      obtain ⟨out', hcopy, -⟩ := exists_of_bind_eq_ok hread
      exact copyValue_inv hcopy
  · intro hclear tmpdata
    have htime := htimely.mp hclear.timely
    by_cases htext : isText a v c = true
    · obtain ⟨out, hbytes, hanswers⟩ := readBytes_answers_iff.mpr (hclear.bytes htext tmpdata)
      refine ⟨some (h.f.currentStep + h.f.lastStep), out, ?_, htime, ?_, hanswers⟩
      · rw [readVariable_of_text htext hwf, hbytes, ok_bind]
      · intro t ht hmem
        obtain rfl := Option.some.inj ht
        exact hclear.step htext hmem
    · unfold readVariable
      rw [if_neg htext]
      split_ifs with harray
      · exact ⟨none, _, rfl, htime, nofun, trivial⟩
      · have hscalar : c.dims.count = 0 := by
          rw [UInt8.lt_iff_toNat_lt] at harray
          exact UInt8.toNat_inj.mp (Nat.eq_zero_of_not_pos harray)
        obtain ⟨out, hcopy⟩ := copyValue_eq_ok (hclear.value hscalar)
          (h.values fh hfh v (mem_append_right _ hv) c hcmem)
        refine ⟨none, .ok out, ?_, htime, nofun, trivial⟩
        rw [hcopy]
        rfl

theorem readReference_iff (hfh : h.f.fh = some fh) (a : IndexEntry) (varId : UInt32) :
    (∀ tmpdata, ∃ var out, readReference h.s h.f fh a varId tmpdata = .ok (var, out) ∧
      (∀ w ∈ var, h.VarBelongs fh a varId w) ∧ Handle.Answers (out.map some)) ↔
    ∀ j v, varOf fh a varId = some j → fh.varsRoot[j]? = some v →
      ∃ d, v.characteristics[setAt h.f.lastStep v]? = some d ∧ h.VarClear fh a v d := by
  cases hj : varOf fh a varId with
  | none =>
    refine iff_of_true (fun tmpdata => ?_) (fun j v hj' => nomatch hj')
    unfold readReference
    rw [hj]
    exact ⟨none, _, rfl, nofun, trivial⟩
  | some j =>
    obtain ⟨v, hv⟩ := getElem?_of_varOf hj
    have hmem := mem_of_getElem? hv
    have hread : ∀ tmpdata, readReference h.s h.f fh a varId tmpdata =
        takenSet h.f.lastStep v >>= fun c => readVariable h.s h.f a v c tmpdata >>= fun r =>
          .ok (some ⟨j, setAt h.f.lastStep v, r.1⟩, r.2) := fun tmpdata => by
      unfold readReference
      rw [hj]
      dsimp only
      rw [hv]
      rfl
    constructor
    · intro hall j' v' hj' hv'
      obtain rfl := Option.some.inj hj'
      obtain rfl := Option.some.inj (hv'.symm.trans hv)
      have hset : ∃ d, takenSet h.f.lastStep v' = .ok d := by
        obtain ⟨var, out, hone, -⟩ := hall (Mem.fill 0)
        rw [hread] at hone
        obtain ⟨d, hd, -⟩ := exists_of_bind_eq_ok hone
        exact ⟨d, hd⟩
      obtain ⟨d, hd⟩ := hset
      have hget := takenSet_eq_ok_iff.mp hd
      refine ⟨d, hget, (readVariable_iff hfh hmem hget).mp fun tmpdata => ?_⟩
      obtain ⟨var, out, hone, hbelongs, hanswers⟩ := hall tmpdata
      rw [hread, hd, ok_bind] at hone
      obtain ⟨⟨step, out'⟩, hvar, hone⟩ := exists_of_bind_eq_ok hone
      obtain ⟨rfl, rfl⟩ := Prod.mk.inj (Except.ok.inj hone)
      obtain ⟨v'', c, hv'', hc, htime, hstep⟩ := (hbelongs _ rfl).set
      obtain rfl := Option.some.inj (hv''.symm.trans hv)
      obtain rfl := Option.some.inj (hc.symm.trans hget)
      exact ⟨step, out', hvar, htime, hstep, hanswers⟩
    · intro hall tmpdata
      obtain ⟨d, hget, hclear⟩ := hall j v rfl hv
      obtain ⟨step, out, hvar, htime, hstep, hanswers⟩ :=
        (readVariable_iff hfh hmem hget).mpr hclear tmpdata
      refine ⟨some ⟨j, setAt h.f.lastStep v, step⟩, out, ?_, fun w hw => ?_, hanswers⟩
      · rw [hread, takenSet_eq_ok_iff.mpr hget, ok_bind, hvar, ok_bind]
      · obtain rfl := Option.some.inj hw
        exact ⟨hj, v, d, hv, hget, htime, hstep⟩

theorem readAttr_attr {k : Nat} {tmpdata : Mem} {src : Source}
    {out : Except AttrError (Option AttrData)}
    (hread : readAttr s f fh a k tmpdata = .ok (src, out)) : src.attr = k := by
  obtain ⟨c, -, hread⟩ := exists_of_bind_eq_ok hread
  split_ifs at hread
  · obtain ⟨out, -, hread⟩ := exists_of_bind_eq_ok hread
    obtain rfl := congrArg Prod.fst (Except.ok.inj hread)
    rfl
  · obtain ⟨⟨var, out⟩, -, hread⟩ := exists_of_bind_eq_ok hread
    obtain rfl := congrArg Prod.fst (Except.ok.inj hread)
    rfl
  · obtain rfl := congrArg Prod.fst (Except.ok.inj hread)
    rfl

theorem readAttr_iff (hfh : h.f.fh = some fh) {k : Nat} (ha : fh.attrsRoot[k]? = some a)
    (hne : a.characteristics ≠ []) :
    (∀ tmpdata, ∃ src out, readAttr h.s h.f fh a k tmpdata = .ok (src, out) ∧
      h.Belongs fh a k src ∧ Handle.Answers out) ↔
    h.Timely fh a ∧ ∀ c, a.characteristics[setAt h.f.lastStep a]? = some c → c.value = none →
      c.varId ≠ 0 → ∀ j v, varOf fh a c.varId = some j → fh.varsRoot[j]? = some v →
        ∃ d, v.characteristics[setAt h.f.lastStep v]? = some d ∧ h.VarClear fh a v d := by
  obtain ⟨c, hc, -⟩ := setAt_spec h.f.lastStep hne
  have hset := takenSet_eq_ok_iff.mpr hc
  have htimely := h.timely_iff fh hc
  have hvalues := h.values fh hfh a (mem_append_left _ (mem_of_getElem? ha)) c
    (mem_of_getElem? hc)
  have hcond : (∀ c, a.characteristics[setAt h.f.lastStep a]? = some c → c.value = none →
      c.varId ≠ 0 → ∀ j v, varOf fh a c.varId = some j → fh.varsRoot[j]? = some v →
        ∃ d, v.characteristics[setAt h.f.lastStep v]? = some d ∧ h.VarClear fh a v d) ↔
      (c.value = none → c.varId ≠ 0 → ∀ j v, varOf fh a c.varId = some j →
        fh.varsRoot[j]? = some v →
          ∃ d, v.characteristics[setAt h.f.lastStep v]? = some d ∧ h.VarClear fh a v d) := by
    refine ⟨fun hall => hall c hc, fun hall d hd => ?_⟩
    obtain rfl := Option.some.inj (hd.symm.trans hc)
    exact hall
  have hbelongs : ∀ src : Source, src.set = setAt h.f.lastStep a → src.attr = k →
      (h.Belongs fh a k src ↔ h.Timely fh a ∧ ∀ w ∈ src.var, h.VarBelongs fh a c.varId w) :=
    fun src hsrc hattr => by
      rw [htimely]
      constructor
      · rintro ⟨-, d, hd, htime, hvar⟩
        rw [hsrc] at hd
        obtain rfl := Option.some.inj (hd.symm.trans hc)
        exact ⟨htime, hvar⟩
      · rintro ⟨htime, hvar⟩
        exact ⟨hattr, c, by rw [hsrc, hc], htime, hvar⟩
  rw [hcond]
  by_cases hvalue : c.value.isSome
  · -- its own value
    obtain ⟨out, hcopy⟩ := copyValue_eq_ok hvalue hvalues
    have hread : ∀ tmpdata, readAttr h.s h.f fh a k tmpdata =
        .ok (⟨k, setAt h.f.lastStep a, none⟩, .ok (some out)) := fun tmpdata => by
      unfold readAttr
      rw [hset, ok_bind, if_pos hvalue, hcopy]
      rfl
    have hnone : c.value ≠ none := Option.isSome_iff_ne_none.mp hvalue
    constructor
    · intro hall
      obtain ⟨src, out', hone, hbelong, -⟩ := hall (Mem.fill 0)
      rw [hread] at hone
      obtain ⟨rfl, -⟩ := Prod.mk.inj (Except.ok.inj hone)
      exact ⟨((hbelongs _ rfl rfl).mp hbelong).1, fun hval => absurd hval hnone⟩
    · rintro ⟨htime, -⟩ tmpdata
      exact ⟨_, _, hread tmpdata, (hbelongs _ rfl rfl).mpr ⟨htime, nofun⟩, trivial⟩
  · have hnone : c.value = none := Option.not_isSome_iff_eq_none.mp hvalue
    by_cases hvar : c.varId ≠ 0
    · -- a variable
      have hread : ∀ tmpdata, readAttr h.s h.f fh a k tmpdata =
          readReference h.s h.f fh a c.varId tmpdata >>= fun r =>
            .ok (⟨k, setAt h.f.lastStep a, r.1⟩, r.2.map some) := fun tmpdata => by
        unfold readAttr
        rw [hset, ok_bind, if_neg hvalue, if_pos hvar]
        rfl
      have hreference := readReference_iff hfh a c.varId
      constructor
      · intro hall
        have htime : h.Timely fh a := by
          obtain ⟨src, out, hone, hbelong, -⟩ := hall (Mem.fill 0)
          rw [hread] at hone
          obtain ⟨r, -, hone⟩ := exists_of_bind_eq_ok hone
          obtain ⟨rfl, -⟩ := Prod.mk.inj (Except.ok.inj hone)
          exact ((hbelongs _ rfl rfl).mp hbelong).1
        refine ⟨htime, fun _ _ => hreference.mp fun tmpdata => ?_⟩
        obtain ⟨src, out, hone, hbelong, hanswers⟩ := hall tmpdata
        rw [hread] at hone
        obtain ⟨⟨var, out'⟩, hr, hone⟩ := exists_of_bind_eq_ok hone
        obtain ⟨rfl, rfl⟩ := Prod.mk.inj (Except.ok.inj hone)
        exact ⟨var, out', hr, ((hbelongs _ rfl rfl).mp hbelong).2, hanswers⟩
      · rintro ⟨htime, hall⟩ tmpdata
        obtain ⟨var, out, hr, hvars, hanswers⟩ := hreference.mpr (hall hnone hvar) tmpdata
        refine ⟨_, _, ?_, (hbelongs ⟨k, setAt h.f.lastStep a, var⟩ rfl rfl).mpr ⟨htime, hvars⟩,
          hanswers⟩
        rw [hread, hr, ok_bind]
    · -- neither
      have hread : ∀ tmpdata, readAttr h.s h.f fh a k tmpdata =
          .ok (⟨k, setAt h.f.lastStep a, none⟩, .ok none) := fun tmpdata => by
        unfold readAttr
        rw [hset, ok_bind, if_neg hvalue, if_neg hvar]
      constructor
      · intro hall
        obtain ⟨src, out, hone, hbelong, -⟩ := hall (Mem.fill 0)
        rw [hread] at hone
        obtain ⟨rfl, -⟩ := Prod.mk.inj (Except.ok.inj hone)
        exact ⟨((hbelongs _ rfl rfl).mp hbelong).1, fun _ hid => absurd hid hvar⟩
      · rintro ⟨htime, -⟩ tmpdata
        exact ⟨_, _, hread tmpdata, (hbelongs _ rfl rfl).mpr ⟨htime, nofun⟩, trivial⟩

end

/-! ## Attribute ids -/

namespace Handle

variable {h : Handle}

theorem commonReadGetAttrByid_eq {fh : BpIndex} {ptr : NamelistPtr} (hfh : h.f.fh = some fh)
    (hptr : h.f.attrNamelist = some ptr) (hseek : ptr.seek = h.f.seeks)
    (hle : ptr.offset + h.f.nattrs ≤ (h.listed fh).length) {i : Nat} (hi : i < h.f.nattrs)
    (tmpdata : Mem) : commonReadGetAttrByid h.s h.f tmpdata i =
      match (fh.attrsRoot.zipIdx.filter fun a => h.counted fh ptr a.1)[
          i + h.f.internals.groupAttridOffset]? with
      | none => .error .assertion
      | some (a, k) => (readAttr h.s h.f fh a k tmpdata).map some := by
  have hrange : (0 : Int) ≤ i ∧ (i : Int) < h.f.nattrs := by omega
  unfold commonReadGetAttrByid adiosReadBpGetAttrByid
  rw [if_pos hrange, Int.toNat_natCast, showsHidden_eq_namesHidden hfh hptr hseek hle, ok_bind, hfh]
  dsimp only
  rw [walk_eq]
  unfold Handle.counted
  cases (fh.attrsRoot.zipIdx.filter fun a => h.namesHidden fh ptr || !isHidden a.1.path.val)[
      i + h.f.internals.groupAttridOffset]? with
  | none => rfl
  | some a => rfl

theorem attr_right_iff {fh : BpIndex} {ptr : NamelistPtr} (hfh : h.f.fh = some fh)
    (hptr : h.f.attrNamelist = some ptr) (hseek : ptr.seek = h.f.seeks)
    (hle : ptr.offset + h.f.nattrs ≤ (h.listed fh).length) {i : Nat} (hi : i < h.f.nattrs)
    {a : IndexEntry} {k : Nat} (ha : (h.listed fh)[ptr.offset + i]? = some (a, k)) :
    (∀ tmpdata, ∃ src out, commonReadGetAttrByid h.s h.f tmpdata i = .ok (some (src, out)) ∧
      h.Belongs fh a k src ∧ Answers out) ↔ h.AttrClear fh ptr a k i := by
  obtain ⟨hget, hne⟩ := of_listed ha
  have hcode := commonReadGetAttrByid_eq hfh hptr hseek hle hi
  have hread := readAttr_iff hfh hget hne
  constructor
  · intro hall
    -- the walk comes to the attribute
    have hwalk : (fh.attrsRoot.zipIdx.filter fun a => h.counted fh ptr a.1)[
        i + h.f.internals.groupAttridOffset]? = some (a, k) := by
      obtain ⟨src, out, hone, hbelongs, -⟩ := hall (Mem.fill 0)
      rw [hcode] at hone
      cases hfind : (fh.attrsRoot.zipIdx.filter fun a => h.counted fh ptr a.1)[
          i + h.f.internals.groupAttridOffset]? with
      | none =>
        rw [hfind] at hone
        cases hone
      | some found =>
        obtain ⟨a', k'⟩ := found
        rw [hfind] at hone
        dsimp only at hone
        cases hattr : readAttr h.s h.f fh a' k' (Mem.fill 0) with
        | error e =>
          rw [hattr] at hone
          cases hone
        | ok r =>
          rw [hattr] at hone
          obtain rfl := Option.some.inj (Except.ok.inj hone)
          have hplace := (readAttr_attr hattr).symm.trans hbelongs.attr
          obtain ⟨hget', -⟩ := getElem?_filter_zipIdx_iff.mp hfind
          rw [hplace, hget] at hget'
          rw [Option.some.inj hget', hplace]
    obtain ⟨-, hcounted, hrank⟩ := getElem?_filter_zipIdx_iff.mp hwalk
    obtain ⟨htimely, hvar⟩ := hread.mp fun tmpdata => by
      obtain ⟨src, out, hone, hright⟩ := hall tmpdata
      rw [hcode, hwalk] at hone
      dsimp only at hone
      cases hattr : readAttr h.s h.f fh a k tmpdata with
      | error e =>
        rw [hattr] at hone
        cases hone
      | ok r =>
        rw [hattr] at hone
        obtain rfl := Option.some.inj (Except.ok.inj hone)
        exact ⟨src, out, rfl, hright⟩
    exact ⟨hcounted, hrank, htimely, hvar⟩
  · intro hclear tmpdata
    have hwalk : (fh.attrsRoot.zipIdx.filter fun a => h.counted fh ptr a.1)[
        i + h.f.internals.groupAttridOffset]? = some (a, k) :=
      getElem?_filter_zipIdx_iff.mpr ⟨hget, hclear.counted, hclear.rank⟩
    obtain ⟨src, out, hone, hright⟩ := hread.mpr ⟨hclear.timely, hclear.var⟩ tmpdata
    refine ⟨src, out, ?_, hright⟩
    rw [hcode, hwalk]
    dsimp only
    rw [hone]
    rfl

end Handle

def timedAttr (name : List UInt8) (time : UInt32) (value : List UInt8) : IndexEntry :=
  { timedEntry (chars "g") name [] with
    characteristics := [{ IndexCharacteristic.zero with timeIndex := time, value := some value }] }

def oneInEach : BpIndex where
  groups := [CString.ofBuffer (chars "g")]
  varsRoot := [timedEntry (chars "g") (chars "v") [1, 2]]
  attrsRoot := [timedAttr (chars "a") 1 [10, 0, 0, 0], timedAttr (chars "b") 2 [20, 0, 0, 0]]
  tidxStart := 1
  tidxStop := 2

def firstStep : AdiosFile :=
  match commonReadOpen false true oneInEach with
  | .ok f => f
  | .error _ => .new oneInEach

def secondStep : AdiosFile :=
  match commonReadAdvanceStep false false none firstStep with
  | .ok r => r.2
  | .error _ => firstStep

theorem openIn_secondStep : OpenIn false true secondStep :=
  @OpenIn.advanceStep false true false none firstStep secondStep 0 rfl
    (@OpenIn.opened false true oneInEach firstStep rfl) rfl

def secondStepHandle : Handle where
  showHiddenAttrs := false
  s := { bothTwice.setting with streaming := true, currentStep := 1 }
  f := secondStep
  opened := openIn_secondStep
  currentStep := rfl
  lastStep := by decide
  tidxStart fh hfh := by
    obtain rfl := Option.some.inj hfh
    rfl
  values fh hfh := by
    obtain rfl := Option.some.inj hfh
    decide
  dims_wf fh hfh := by
    obtain rfl := Option.some.inj hfh
    decide

end Adios.AttrIds
