import Adios.Read.Steps
import Adios.Read.VarSteps
import Mathlib.Data.List.Basic

/-!
# Adios — what a step shows

`bp_seek_to_step` of `bp_utils.c` pass by pass: a list is counted, allocated, and filled in a second
pass over the same entries. The lists are right when the time that it takes from the first variable
is that which `adios_step_to_time` has for the variables of the step.
-/

namespace Adios.SeekStep

open List VarSteps Wire

/-! ## The code -/

/-- `_adios_step_to_time` -/
def stepToTime (streaming : Bool) (currentStep fromSteps : Int) (v : IndexEntry) :
    Except Fault Int :=
  let t := currentStep + fromSteps
  if streaming then .ok (t + 1) else VarSteps.getTime v t

/-- "`t = get_time (var_root, tostep)`", or that all steps are asked for. -/
def timeOf (fh : BpIndex) (tostep : Int) : Except Fault (Option Int) :=
  if tostep = -1 then .ok none
  else
    match fh.varsRoot with
    | [] => .error .wildPointer
    | varRoot :: _ => do
      let t ← VarSteps.getTime varRoot tostep
      return some t

/-- "`allstep || (!allstep && var_root->characteristics[i].time_index == t)`", up to the first `i`
where it is so. -/
def hasTime (time : Option Int) : List IndexCharacteristic → Bool
  | [] => false
  | c :: cs => if time.all (c.timeIndex = UInt32.ofInt ·) then true else hasTime time cs

def listed (shown : IndexEntry → Bool) (time : Option Int) (e : IndexEntry) : Bool :=
  shown e && hasTime time e.characteristics

/-- The first pass, with the number of entries so far, an `int`. -/
def countPass (shown : IndexEntry → Bool) (time : Option Int) :
    Nat → List IndexEntry → Except Fault Nat
  | n, [] => .ok n
  | n, e :: es =>
    if listed shown time e then do
      let n ← incr n
      countPass shown time n es
    else countPass shown time n es

/-- The second pass, with the size of the arrays: the names of the entries, and the numbers `k` of
those. `next` is "`k++`". -/
def fillPass (shown : IndexEntry → Bool) (time : Option Int) (size : Nat)
    (next : Nat → Except Fault Nat) :
    Nat → Nat → List IndexEntry → Except Fault (List (Name × Nat))
  | _, _, [] => .ok []
  | j, k, e :: es => do
    let k' ← next k
    if listed shown time e then
      if j < size then do
        let rest ← fillPass shown time size next (j + 1) k' es
        return (fullName e, k) :: rest
      else .error .outOfBounds
    else fillPass shown time size next j k' es

/-- The fields that `bp_seek_to_step` fills in. -/
structure Seeked where
  nvars : Nat
  varNamelist : List Name
  varidMapping : List Nat
  nattrs : Nat
  attrNamelist : List Name
  currentStep : Int

/-- "`!show_hidden_attrs && strstr (attr_root->attr_path, "__adios__")`", negated. -/
def shownAttr (showHiddenAttrs : Bool) (a : IndexEntry) : Bool :=
  showHiddenAttrs || !isHidden a.path.val

/-- `bp_seek_to_step` -/
def seekToStep (fh : BpIndex) (showHiddenAttrs : Bool) (tostep : Int) : Except Fault Seeked := do
  let time ← timeOf fh tostep
  let nvars ← countPass (fun _ => true) time 0 fh.varsRoot
  -- "`malloc (fp->nvars * 4)`": the product is an `int`
  if nvars * 4 < 2147483648 then do
    let vars ← fillPass (fun _ => true) time nvars incr 0 0 fh.varsRoot
    let nattrs ← countPass (shownAttr showHiddenAttrs) time 0 fh.attrsRoot
    -- attributes have no `int` for `k`
    let attrs ← fillPass (shownAttr showHiddenAttrs) time nattrs (fun k => .ok (k + 1)) 0 0
      fh.attrsRoot
    return {
      nvars := nvars
      varNamelist := vars.map Prod.fst
      varidMapping := vars.map Prod.snd
      nattrs := nattrs
      attrNamelist := attrs.map Prod.fst
      currentStep := tostep }
  else .error .signedOverflow

/-! ## The statement -/

structure SeekInput where
  fh : BpIndex
  streaming : Bool
  showHiddenAttrs : Bool
  tostep : Int
  isStep : -1 ≤ tostep ∧ tostep < 2147483647

namespace SeekInput

variable (i : SeekInput)

/-- The variable has a characteristics set at the time that reads of the step use for it; when all
steps are asked for, any. -/
def inStep (v : IndexEntry) : Bool :=
  if i.tostep = -1 then hasTime none v.characteristics
  else
    match stepToTime i.streaming i.tostep 0 v with
    | .ok t => hasTime (some t) v.characteristics
    | .error _ => false

/-- The lists have the variables of the step, each once and in the order of the file, the numbers
are those of the lists, and each of the variables is read at the time that was looked for. -/
def Right : Prop :=
  ∃ s, seekToStep i.fh i.showHiddenAttrs i.tostep = .ok s ∧
    s.varNamelist = (i.fh.varsRoot.filter i.inStep).map fullName ∧
    s.varidMapping = (i.fh.varsRoot.zipIdx.filter fun e => i.inStep e.1).map Prod.snd ∧
    s.nvars = s.varNamelist.length ∧ s.nvars = s.varidMapping.length ∧
    s.nattrs = s.attrNamelist.length ∧ s.currentStep = i.tostep ∧
    (i.tostep ≠ -1 → ∀ v ∈ i.fh.varsRoot, i.inStep v = true →
      ∃ t, timeOf i.fh i.tostep = .ok (some t) ∧ stepToTime i.streaming i.tostep 0 v = .ok t)

/-- The time of the first variable at the step is that at which each variable is read, except for
variables that have a characteristics set at neither of the two times. -/
def SameTimes (time : Option Int) : Prop :=
  ∀ v ∈ i.fh.varsRoot, i.tostep = -1 ∨ (∃ t ∈ time, stepToTime i.streaming i.tostep 0 v = .ok t) ∨
    i.inStep v = false ∧ hasTime time v.characteristics = false

/-- All steps are asked for, or the times agree; and the variables can be counted in an `int`, those
of the step also in bytes of the array for them, and its attributes. -/
def Clear : Prop :=
  ∃ time, timeOf i.fh i.tostep = .ok time ∧ i.SameTimes time ∧
    i.fh.varsRoot.length < 2147483648 ∧
    i.fh.varsRoot.countP (listed (fun _ => true) time) * 4 < 2147483648 ∧
    i.fh.attrsRoot.countP (listed (shownAttr i.showHiddenAttrs) time) < 2147483648

end SeekInput

/-! ## The passes -/

section Passes

variable {shown : IndexEntry → Bool} {time : Option Int}

theorem countPass_eq {n : Nat} (es : List IndexEntry) (hn : n < 2147483648) :
    countPass shown time n es =
      if n + es.countP (listed shown time) < 2147483648 then
        .ok (n + es.countP (listed shown time))
      else .error .signedOverflow := by
  induction es generalizing n with
  | nil =>
    rw [countP_nil, Nat.add_zero, if_pos hn]
    rfl
  | cons e es ih =>
    rw [countPass]
    by_cases he : listed shown time e = true
    · rw [if_pos he, countP_cons_of_pos he, incr]
      by_cases hroom : n + 1 < 2147483648
      · rw [if_pos hroom, ok_bind, ih hroom, Nat.add_assoc, Nat.add_comm 1]
      · rw [if_neg hroom, error_bind, if_neg (by omega)]
    · rw [if_neg he, countP_cons_of_neg he, ih hn]

section

variable {p : IndexEntry → Bool} {e : IndexEntry} {k : Nat} {es : List (IndexEntry × Nat)}

theorem filter_zipIdx_pos (h : p e = true) :
    ((e, k) :: es).filter (fun e => p e.1) = (e, k) :: es.filter fun e => p e.1 :=
  filter_cons_of_pos h

theorem filter_zipIdx_neg (h : ¬p e = true) :
    ((e, k) :: es).filter (fun e => p e.1) = es.filter fun e => p e.1 :=
  filter_cons_of_neg h

end

theorem fillPass_eq {next : Nat → Except Fault Nat} {size j k : Nat} (es : List IndexEntry)
    (hnext : ∀ m, m < k + es.length → next m = .ok (m + 1))
    (hsize : j + es.countP (listed shown time) ≤ size) :
    fillPass shown time size next j k es =
      .ok (((es.zipIdx k).filter fun e => listed shown time e.1).map
        fun e => (fullName e.1, e.2)) := by
  induction es generalizing j k with
  | nil => rfl
  | cons e es ih =>
    have hrest : ∀ m, m < k + 1 + es.length → next m = .ok (m + 1) := fun m hm =>
      hnext m (by rw [length_cons]; omega)
    rw [fillPass, hnext k (by rw [length_cons]; omega), ok_bind, zipIdx_cons]
    by_cases he : listed shown time e = true
    · rw [countP_cons_of_pos he] at hsize
      rw [if_pos he, if_pos (by omega), ih hrest (by omega), filter_zipIdx_pos he]
      rfl
    · rw [countP_cons_of_neg he] at hsize
      rw [if_neg he, ih hrest hsize, filter_zipIdx_neg he]

theorem fillPass_overflow {size j k : Nat} (es : List IndexEntry) (hk : k < 2147483648)
    (hlen : 2147483648 ≤ k + es.length) {r : List (Name × Nat)} :
    fillPass shown time size incr j k es ≠ .ok r := by
  induction es generalizing j k r with
  | nil => exact absurd hlen (Nat.not_le.mpr hk)
  | cons e es ih =>
    rw [length_cons] at hlen
    intro h
    rw [fillPass, incr] at h
    by_cases hroom : k + 1 < 2147483648
    · rw [if_pos hroom, ok_bind] at h
      split at h
      · split at h
        · obtain ⟨rest, hrest, -⟩ := exists_of_bind_eq_ok h
          exact ih hroom (by omega) hrest
        · cases h
      · exact ih hroom (by omega) h
    · rw [if_neg hroom, error_bind] at h
      cases h

end Passes

/-! ## What a seek leaves -/

theorem map_fst_filter_zipIdx (p : IndexEntry → Bool) (es : List IndexEntry) (k : Nat) :
    ((es.zipIdx k).filter fun e => p e.1).map Prod.fst = es.filter p := by
  induction es generalizing k with
  | nil => rfl
  | cons e es ih =>
    rw [zipIdx_cons]
    by_cases he : p e = true
    · rw [filter_zipIdx_pos he, filter_cons_of_pos he, map_cons, ih]
    · rw [filter_zipIdx_neg he, filter_cons_of_neg he, ih]

def seekedAt (fh : BpIndex) (showHiddenAttrs : Bool) (tostep : Int) (time : Option Int) :
    Seeked where
  nvars := fh.varsRoot.countP (listed (fun _ => true) time)
  varNamelist := (fh.varsRoot.filter (listed (fun _ => true) time)).map fullName
  varidMapping :=
    (fh.varsRoot.zipIdx.filter fun e => listed (fun _ => true) time e.1).map Prod.snd
  nattrs := fh.attrsRoot.countP (listed (shownAttr showHiddenAttrs) time)
  attrNamelist := (fh.attrsRoot.filter (listed (shownAttr showHiddenAttrs) time)).map fullName
  currentStep := tostep

theorem map_name (p : IndexEntry → Bool) (es : List IndexEntry) :
    ((es.zipIdx.filter fun e => p e.1).map fun e => (fullName e.1, e.2)).map Prod.fst =
      (es.filter p).map fullName := by
  rw [map_map, ← map_fst_filter_zipIdx p es 0, map_map]
  rfl

theorem map_place (p : IndexEntry → Bool) (es : List IndexEntry) :
    ((es.zipIdx.filter fun e => p e.1).map fun e => (fullName e.1, e.2)).map Prod.snd =
      (es.zipIdx.filter fun e => p e.1).map Prod.snd := by
  rw [map_map]
  rfl

theorem seekToStep_eq_ok_iff {fh : BpIndex} {showHiddenAttrs : Bool} {tostep : Int} {s : Seeked} :
    seekToStep fh showHiddenAttrs tostep = .ok s ↔
      ∃ time, timeOf fh tostep = .ok time ∧ fh.varsRoot.length < 2147483648 ∧
        fh.varsRoot.countP (listed (fun _ => true) time) * 4 < 2147483648 ∧
        fh.attrsRoot.countP (listed (shownAttr showHiddenAttrs) time) < 2147483648 ∧
        s = seekedAt fh showHiddenAttrs tostep time := by
  have hcount : ∀ (shown : IndexEntry → Bool) (time : Option Int) (es : List IndexEntry),
      countPass shown time 0 es = if es.countP (listed shown time) < 2147483648 then
        .ok (es.countP (listed shown time)) else .error .signedOverflow := fun shown time es => by
    rw [countPass_eq es (by decide), Nat.zero_add]
  constructor
  · intro h
    obtain ⟨time, htime, h⟩ := exists_of_bind_eq_ok h
    obtain ⟨nvars, hnvars, h⟩ := exists_of_bind_eq_ok h
    rw [hcount] at hnvars
    split at hnvars
    · obtain rfl := Except.ok.inj hnvars
      split at h
      · rename_i hfour
        obtain ⟨vars, hvars, h⟩ := exists_of_bind_eq_ok h
        obtain ⟨nattrs, hnattrs, h⟩ := exists_of_bind_eq_ok h
        have hlength : fh.varsRoot.length < 2147483648 := by
          by_contra hc
          exact fillPass_overflow fh.varsRoot (by decide) (by omega) hvars
        rw [fillPass_eq fh.varsRoot (fun m hm => incr_of_lt (by omega)) (by omega)] at hvars
        rw [hcount] at hnattrs
        split at hnattrs
        · rename_i hattrs
          obtain rfl := Except.ok.inj hnattrs
          rw [fillPass_eq fh.attrsRoot (fun _ _ => rfl) (by omega), ok_bind] at h
          refine ⟨time, htime, hlength, hfour, hattrs, ?_⟩
          rw [← Except.ok.inj h, ← Except.ok.inj hvars, map_name, map_place, map_name]
          rfl
        · cases hnattrs
      · cases h
    · cases hnvars
  · rintro ⟨time, htime, hlength, hfour, hattrs, rfl⟩
    rw [seekToStep, htime, ok_bind, hcount, if_pos (by omega), ok_bind, if_pos hfour,
      fillPass_eq fh.varsRoot (fun m hm => incr_of_lt (by omega)) (by omega), ok_bind, hcount,
      if_pos hattrs, ok_bind, fillPass_eq fh.attrsRoot (fun _ _ => rfl) (by omega), ok_bind,
      map_name, map_place, map_name]
    rfl

/-! ## When the lists are right -/

theorem le_of_mem_places {p : IndexEntry → Bool} {es : List IndexEntry} {k n : Nat}
    (h : n ∈ ((es.zipIdx k).filter fun e => p e.1).map Prod.snd) : k ≤ n := by
  obtain ⟨e, he, rfl⟩ := mem_map.mp h
  exact le_snd_of_mem_zipIdx (mem_of_mem_filter he)

theorem places_eq_iff (p q : IndexEntry → Bool) (es : List IndexEntry) (k : Nat) :
    ((es.zipIdx k).filter fun e => p e.1).map Prod.snd =
      ((es.zipIdx k).filter fun e => q e.1).map Prod.snd ↔ ∀ e ∈ es, p e = q e := by
  induction es generalizing k with
  | nil => exact ⟨fun _ _ h => absurd h not_mem_nil, fun _ => rfl⟩
  | cons e es ih =>
    -- the first place is in one list only
    have hfirst : ∀ (r : IndexEntry → Bool) (l : List Nat),
        k :: l ≠ ((es.zipIdx (k + 1)).filter fun e => r e.1).map Prod.snd := fun r l hc => by
      have hmem : k ∈ ((es.zipIdx (k + 1)).filter fun e => r e.1).map Prod.snd :=
        hc ▸ mem_cons_self
      exact absurd (le_of_mem_places hmem) (Nat.not_succ_le_self k)
    rw [zipIdx_cons, forall_mem_cons]
    by_cases hp : p e = true
    · by_cases hq : q e = true
      · rw [filter_zipIdx_pos hp, filter_zipIdx_pos hq, map_cons, map_cons, hp, hq,
          List.cons.injEq, ih]
        exact ⟨fun h => ⟨rfl, h.2⟩, fun h => ⟨rfl, h.2⟩⟩
      · rw [filter_zipIdx_pos hp, filter_zipIdx_neg hq, map_cons]
        exact ⟨fun h => absurd h (hfirst q _), fun h => absurd (h.1 ▸ hp) hq⟩
    · by_cases hq : q e = true
      · rw [filter_zipIdx_neg hp, filter_zipIdx_pos hq, map_cons]
        exact ⟨fun h => absurd h.symm (hfirst p _), fun h => absurd (h.1.symm ▸ hq) hp⟩
      · rw [filter_zipIdx_neg hp, filter_zipIdx_neg hq, ih, Bool.eq_false_of_not_eq_true hp,
          Bool.eq_false_of_not_eq_true hq]
        exact ⟨fun h => ⟨rfl, h⟩, fun h => h.2⟩

namespace SeekInput

variable {i : SeekInput} {time : Option Int}

theorem inStep_of_all (htime : timeOf i.fh i.tostep = .ok time) (hall : i.tostep = -1)
    (v : IndexEntry) : i.inStep v = hasTime time v.characteristics := by
  rw [timeOf, if_pos hall] at htime
  rw [inStep, if_pos hall, ← Except.ok.inj htime]

theorem sameTimes_iff (htime : timeOf i.fh i.tostep = .ok time) :
    i.SameTimes time ↔ (∀ v ∈ i.fh.varsRoot, listed (fun _ => true) time v = i.inStep v) ∧
      (i.tostep ≠ -1 → ∀ v ∈ i.fh.varsRoot, i.inStep v = true →
        ∃ t, timeOf i.fh i.tostep = .ok (some t) ∧
          stepToTime i.streaming i.tostep 0 v = .ok t) := by
  have hlisted : ∀ v, listed (fun _ => true) time v = hasTime time v.characteristics :=
    fun _ => Bool.true_and _
  constructor
  · intro h
    have hcases : i.tostep ≠ -1 → ∀ v ∈ i.fh.varsRoot,
        (∃ t, time = some t ∧ stepToTime i.streaming i.tostep 0 v = .ok t ∧
          i.inStep v = hasTime time v.characteristics) ∨
        i.inStep v = false ∧ hasTime time v.characteristics = false := fun hstep v hv => by
      obtain hall | ⟨t, rfl, ht⟩ | hneither := h v hv
      · exact absurd hall hstep
      · refine Or.inl ⟨t, rfl, ht, ?_⟩
        rw [inStep, if_neg hstep, ht]
      · exact Or.inr hneither
    refine ⟨fun v hv => ?_, fun hstep v hv hin => ?_⟩
    · rw [hlisted]
      by_cases hstep : i.tostep = -1
      · exact (inStep_of_all htime hstep v).symm
      · obtain ⟨t, -, -, heq⟩ | ⟨hin, hhas⟩ := hcases hstep v hv
        · exact heq.symm
        · rw [hin, hhas]
    · obtain ⟨t, rfl, ht, -⟩ | ⟨hout, -⟩ := hcases hstep v hv
      · exact ⟨t, htime, ht⟩
      · rw [hout] at hin
        cases hin
  · rintro ⟨hsame, hread⟩ v hv
    by_cases hstep : i.tostep = -1
    · exact Or.inl hstep
    · refine Or.inr ?_
      by_cases hin : i.inStep v = true
      · obtain ⟨t, ht, hv'⟩ := hread hstep v hv hin
        rw [htime] at ht
        exact Or.inl ⟨t, Except.ok.inj ht, hv'⟩
      · have hout := Bool.eq_false_of_not_eq_true hin
        exact Or.inr ⟨hout, by rw [← hlisted, hsame v hv, hout]⟩

/-- The lists of a step are right exactly where the times agree and everything can be counted. -/
theorem right_iff_clear (i : SeekInput) : i.Right ↔ i.Clear := by
  have hfilter : ∀ time, (∀ v ∈ i.fh.varsRoot, listed (fun _ => true) time v = i.inStep v) →
      i.fh.varsRoot.filter (listed (fun _ => true) time) = i.fh.varsRoot.filter i.inStep :=
    fun _ h => filter_congr h
  constructor
  · rintro ⟨s, hs, -, hplaces, -, -, -, -, hread⟩
    obtain ⟨time, htime, hlength, hfour, hattrs, rfl⟩ := seekToStep_eq_ok_iff.mp hs
    have hsame := (places_eq_iff _ i.inStep i.fh.varsRoot 0).mp hplaces
    exact ⟨time, htime, (sameTimes_iff htime).mpr ⟨hsame, hread⟩, hlength, hfour, hattrs⟩
  · rintro ⟨time, htime, htimes, hlength, hfour, hattrs⟩
    obtain ⟨hsame, hread⟩ := (sameTimes_iff htime).mp htimes
    refine ⟨_, seekToStep_eq_ok_iff.mpr ⟨time, htime, hlength, hfour, hattrs, rfl⟩, ?_,
      (places_eq_iff _ i.inStep i.fh.varsRoot 0).mpr hsame, ?_, ?_, ?_, rfl, hread⟩
    · exact congrArg (List.map fullName) (hfilter time hsame)
    · show List.countP _ _ = _
      rw [countP_eq_length_filter, seekedAt, length_map]
    · show List.countP _ _ = _
      rw [countP_eq_length_filter, seekedAt, length_map,
        ← map_fst_filter_zipIdx _ i.fh.varsRoot 0, length_map]
    · show List.countP _ _ = _
      rw [countP_eq_length_filter, seekedAt, length_map]

end SeekInput

def varAtTimes (id : UInt32) (times : List UInt32) : IndexEntry where
  id := id
  groupName := CString.empty
  name := CString.empty
  path := CString.empty
  type := .byte
  characteristics := times.map fun t => { IndexCharacteristic.zero with timeIndex := t }

theorem isStep_zero : -1 ≤ (0 : Int) ∧ (0 : Int) < 2147483647 := by decide

def lateFirst : SeekInput where
  fh := ⟨[], [varAtTimes 1 [2], varAtTimes 2 [1, 2]], [], 1, 2⟩
  streaming := true
  showHiddenAttrs := false
  tostep := 0
  isStep := isStep_zero

/-- The first variable is listed, which the step does not have. -/
theorem not_right_lateFirst : ¬lateFirst.Right := by
  rintro ⟨s, hs, -, hplaces, -⟩
  obtain ⟨time, htime, -, -, -, rfl⟩ := seekToStep_eq_ok_iff.mp hs
  have htwo : timeOf lateFirst.fh 0 = .ok (some 2) := by decide +kernel
  obtain rfl : some 2 = time := Except.ok.inj (htwo.symm.trans htime)
  have hsame := (places_eq_iff _ lateFirst.inStep lateFirst.fh.varsRoot 0).mp hplaces
  exact absurd (hsame (varAtTimes 1 [2]) mem_cons_self) (by decide +kernel)

end Adios.SeekStep
