import Adios.Read.GroupViews
import Adios.Runs.Every

/-!
# Adios — the steps of a stream

A reader that follows a file while a writer appends steps to it. A call for the next step reads
the file again when it has shown all steps that it knows of; what it finds depends on how far the
writer is at each poll.
-/

namespace Adios

/-- A call of `adios_read_bp_advance_step`, with the file as each poll of `get_new_step` finds it
before the time is out: `none` where it is not a valid file at that moment. -/
structure AdvanceCall where
  last : Bool
  polls : List (Option BpIndex)

/-- `get_new_step`: the first file with another last time. -/
def getNewStep (lastTidx : UInt32) (polls : List (Option BpIndex)) : Option BpIndex :=
  (polls.filterMap id).find? fun fh => fh.tidxStop ≠ lastTidx

/-- `open_stream` of a valid file -/
def openStream (showHiddenAttrs : Bool) (fh : BpIndex) : Except Fault AdiosFile := do
  let f ← bpSeekToStep showHiddenAttrs fh 0 (.new fh)
  return { f with currentStep := 0, lastStep := intOfU32 (fh.tidxStop - fh.tidxStart) }

def advanceStream (showHiddenAttrs : Bool) : Runs.Step AdiosFile AdvanceCall Int Fault :=
  fun f call =>
    let poll := f.fh.bind fun fh => getNewStep fh.tidxStop call.polls
    (adiosReadBpAdvanceStep showHiddenAttrs call.last poll f).map fun r => some (r.2, r.1)

/-! ## What a stream should show -/

def BpIndex.stepTime (fh : BpIndex) (step : Int) : UInt32 := fh.tidxStart + .ofNat step.toNat

def AdiosFile.ShowsStep (f : AdiosFile) (fh : BpIndex) : Prop :=
  f.varidMapping = (fh.visibleVars (some (fh.stepTime f.currentStep))).map (·.2) ∧
    f.names f.varNamelist 0 f.nvars =
      .ok ((fh.visibleVars (some (fh.stepTime f.currentStep))).map fun e => fullName e.1)

/-- A handle in use: it is open, and `last_step` is that of the index that was read last. -/
structure AdiosFile.InStream (f : AdiosFile) : Prop where
  opened : ∃ fh, f.fh = some fh ∧ f.lastStep = intOfU32 (fh.tidxStop - fh.tidxStart)
  nonneg : 0 ≤ f.currentStep
  le : f.currentStep ≤ f.lastStep

structure AdvanceRight (f : AdiosFile) (call : AdvanceCall) (f' : AdiosFile) (retval : Int) : Prop
    where
  inStream : f'.InStream
  mono : f.currentStep ≤ f'.currentStep
  shows : retval = 0 → ∃ fh ∈ f'.fh, f'.ShowsStep fh
  next : retval = 0 → call.last = false → f'.currentStep = f.currentStep + 1
  newest : retval = 0 → call.last = true → ∃ fh ∈ f'.fh, some fh ∈ call.polls ∧
    f'.currentStep = intOfU32 (fh.tidxStop - fh.tidxStart)
  notReady : retval ≠ 0 → f' = f

def CallRight (showHiddenAttrs : Bool) (f : AdiosFile) (call : AdvanceCall) : Prop :=
  (∀ fault, advanceStream showHiddenAttrs f call ≠ .error fault) ∧
    ∀ f' retval, advanceStream showHiddenAttrs f call = .ok (some (f', retval)) →
      AdvanceRight f call f' retval

/-- The step after the current one is in the index that is open, and `get_time`, which counts the
times of the first variable, comes to a time with the variables of that step. -/
def StepInIndex (f : AdiosFile) (call : AdvanceCall) : Prop :=
  call.last = false ∧ f.currentStep < f.lastStep ∧
    ∀ fh ∈ f.fh, ∃ v ∈ fh.varsRoot.head?,
      fh.visibleVars (some (getTime v (f.currentStep + 1))) =
        fh.visibleVars (some (fh.stepTime (f.currentStep + 1)))

/-! ## Calls -/

theorem BpIndex.visibleVars_eq_of_places {fh : BpIndex} {time time' : Option UInt32}
    (h : (fh.visibleVars time).map (·.2) = (fh.visibleVars time').map (·.2)) :
    fh.visibleVars time = fh.visibleVars time' := by
  have hall : ∀ t, (fh.visibleVars t).map some =
      ((fh.visibleVars t).map (·.2)).map fun k => (fh.varsRoot[k]?).map fun e => (e, k) := by
    intro t
    rw [List.map_map]
    refine List.map_congr_left fun e he => ?_
    rw [Function.comp_apply, BpIndex.getElem?_of_mem_visibleVars he]
    rfl
  have hsome := (hall time).trans ((congrArg _ h).trans (hall time').symm)
  exact List.map_injective_iff.mpr (fun _ _ heq => Option.some.inj heq) hsome

section Advance

variable {showHiddenAttrs : Bool} {f : AdiosFile} {call : AdvanceCall} {fh : BpIndex}

theorem not_callRight_of_fault {fault : Fault} (h : adiosReadBpAdvanceStep showHiddenAttrs call.last
      (f.fh.bind fun fh => getNewStep fh.tidxStop call.polls) f = .error fault) :
    ¬CallRight showHiddenAttrs f call := by
  rintro ⟨hfault, -⟩
  refine hfault fault ?_
  rw [advanceStream]
  simp only [h]
  rfl

variable {f' : AdiosFile} {retval : Int}

theorem callRight_iff (h : adiosReadBpAdvanceStep showHiddenAttrs call.last (f.fh.bind fun fh =>
      getNewStep fh.tidxStop call.polls) f = .ok (retval, f')) :
    CallRight showHiddenAttrs f call ↔ AdvanceRight f call f' retval := by
  have hstep : advanceStream showHiddenAttrs f call = .ok (some (f', retval)) := by
    rw [advanceStream]
    simp only [h]
    rfl
  unfold CallRight
  rw [hstep]
  constructor
  · exact fun hright => hright.2 f' retval rfl
  · refine fun hright => ⟨nofun, fun f'' retval' heq => ?_⟩
    cases heq
    exact hright

theorem adiosReadBpAdvanceStep_of_reopen {poll : Option BpIndex} (hfile : f.fh = some fh)
    (hstep : f.lastStep ≤ f.currentStep)
    (h : adiosReadBpAdvanceStep showHiddenAttrs false poll f = .ok (retval, f')) :
    (retval = errStepNotready ∧ f' = { f with fh := none }) ∨
      f'.currentStep = f'.lastStep + 1 := by
  unfold adiosReadBpAdvanceStep at h
  rw [hfile] at h
  simp only [Bool.false_eq_true, if_false, if_neg (Int.not_lt.mpr hstep)] at h
  cases poll with
  | none =>
    cases h
    exact .inl ⟨rfl, rfl⟩
  | some fh' =>
    obtain ⟨f₁, hrelease, h⟩ := exists_of_bind_eq_ok h
    obtain ⟨f₂, hseek, h⟩ := exists_of_bind_eq_ok h
    obtain ⟨f₃, hrelease', h⟩ := exists_of_bind_eq_ok h
    obtain ⟨f₄, hseek', h⟩ := exists_of_bind_eq_ok h
    cases h
    obtain ⟨time, -, -, hcurrent, hlast⟩ := seeked_of_bpSeekToStep hseek'
    exact .inr (by rw [hcurrent, hlast])

theorem not_callRight_of_reopen (hfile : f.fh = some fh)
    (h : call.last = true ∨ f.lastStep ≤ f.currentStep) : ¬CallRight showHiddenAttrs f call := by
  cases hresult : adiosReadBpAdvanceStep showHiddenAttrs call.last
      (f.fh.bind fun fh => getNewStep fh.tidxStop call.polls) f with
  | error fault => exact not_callRight_of_fault hresult
  | ok result =>
    obtain ⟨retval, f'⟩ := result
    rw [callRight_iff hresult]
    intro hright
    cases hlast : call.last with
    | true =>
      -- the name of the file is read from memory that was freed
      unfold adiosReadBpAdvanceStep at hresult
      simp only [hlast, hfile, if_true] at hresult
      cases hresult
    | false =>
      rw [hlast] at h hresult
      have hstep : f.lastStep ≤ f.currentStep := by simpa using h
      rcases adiosReadBpAdvanceStep_of_reopen hfile hstep hresult with ⟨hretval, hclosed⟩ | hbehind
      · have hsame := hright.notReady (by rw [hretval]; decide)
        rw [hclosed] at hsame
        have hnone : none = f.fh := congrArg AdiosFile.fh hsame
        rw [hfile] at hnone
        cases hnone
      · have hle := hright.inStream.le
        omega

theorem callRight_of_known (hfile : f.fh = some fh) (hlast : call.last = false)
    (hstep : f.currentStep < f.lastStep) (hpos : 0 ≤ f.currentStep) (hrelease : f.Releasable)
    (htidx : f.lastStep = intOfU32 (fh.tidxStop - fh.tidxStart)) :
    CallRight showHiddenAttrs f call ↔ StepInIndex f call := by
  obtain ⟨f₁, hf₁⟩ := hrelease.releaseStep
  have hcall : adiosReadBpAdvanceStep showHiddenAttrs call.last
      (f.fh.bind fun fh => getNewStep fh.tidxStop call.polls) f =
      (bpSeekToStep showHiddenAttrs fh (f.currentStep + 1) f₁).map fun f' => (0, f') := by
    have hcurrent : f₁.currentStep = f.currentStep := by rw [releaseStep_eq hf₁]
    unfold adiosReadBpAdvanceStep
    rw [hfile]
    simp only [hlast, Bool.false_eq_true, if_false, if_pos hstep, hf₁, bind, Except.bind, hcurrent]
    cases bpSeekToStep showHiddenAttrs fh (f.currentStep + 1) f₁ <;> rfl
  have hne : f.currentStep + 1 ≠ -1 := by omega
  have hcondition : StepInIndex f call ↔ ∃ v ∈ fh.varsRoot.head?,
      fh.visibleVars (some (getTime v (f.currentStep + 1))) =
        fh.visibleVars (some (fh.stepTime (f.currentStep + 1))) := by
    unfold StepInIndex
    rw [hfile]
    simp [hlast, hstep]
  rw [hcondition]
  cases hvars : fh.varsRoot with
  | nil =>
    refine iff_of_false ?_ (by simp)
    have hfault : bpSeekToStep showHiddenAttrs fh (f.currentStep + 1) f₁ = .error .wildPointer := by
      rw [bpSeekToStep, BpIndex.timeOfStep, if_neg hne, hvars]
      rfl
    exact not_callRight_of_fault (by rw [hcall, hfault]; rfl)
  | cons v vs =>
    have htime : fh.timeOfStep (f.currentStep + 1) =
      .ok (some (getTime v (f.currentStep + 1))) := by
      rw [BpIndex.timeOfStep, if_neg hne, hvars]
    obtain ⟨f', hseek, hs, hlast'⟩ := bpSeekToStep_isOk showHiddenAttrs htime f₁
    have hcurrent : f'.currentStep = f.currentStep + 1 := by
      obtain ⟨_, _, _, hcurrent, _⟩ := seeked_of_bpSeekToStep hseek
      exact hcurrent
    have hlast₁ : f'.lastStep = f.lastStep := by rw [hlast', releaseStep_eq hf₁]
    rw [callRight_iff (by rw [hcall, hseek]; rfl)]
    simp only [List.head?_cons, Option.mem_some_iff, exists_eq_left']
    constructor
    · intro hright
      obtain ⟨fh', hfile', hshows, -⟩ := hright.shows rfl
      rw [hs.file] at hfile'
      cases hfile'
      rw [hs.mapping, hcurrent] at hshows
      exact BpIndex.visibleVars_eq_of_places hshows
    · intro hsame
      refine ⟨⟨⟨fh, hs.file, ?_⟩, ?_, ?_⟩, ?_, fun _ => ⟨fh, hs.file, ?_, ?_⟩, fun _ _ => hcurrent,
        fun _ hnewest => ?_, fun hne => absurd rfl hne⟩
      · rw [hlast₁, htidx]
      · omega
      · omega
      · omega
      · rw [hs.mapping, hcurrent, hsame]
      · rw [hs.names_eq, hcurrent, hsame]
      · rw [hlast] at hnewest
        cases hnewest

structure AdiosFile.Followed (f : AdiosFile) : Prop extends f.InStream where
  releasable : f.Releasable

theorem callRight_iff_stepInIndex (h : f.Followed) :
    CallRight showHiddenAttrs f call ↔ StepInIndex f call := by
  obtain ⟨fh, hfile, htidx⟩ := h.opened
  by_cases hreopen : call.last = true ∨ f.lastStep ≤ f.currentStep
  · refine iff_of_false (not_callRight_of_reopen hfile hreopen) ?_
    rintro ⟨hlast, hstep, -⟩
    rcases hreopen with hlast' | hle
    · rw [hlast] at hlast'
      cases hlast'
    · omega
  · rw [not_or] at hreopen
    exact callRight_of_known hfile (Bool.eq_false_iff.mpr hreopen.1) (Int.not_le.mp hreopen.2)
      h.nonneg h.releasable htidx

theorem followed_of_advanceStream (hright : CallRight showHiddenAttrs f call)
    (hstep : advanceStream showHiddenAttrs f call = .ok (some (f', retval))) : f'.Followed := by
  have hin := (hright.2 f' retval hstep).inStream
  refine ⟨hin, ?_⟩
  obtain ⟨fh, hfile, -⟩ := hin.opened
  cases hresult : adiosReadBpAdvanceStep showHiddenAttrs call.last
      (f.fh.bind fun fh => getNewStep fh.tidxStop call.polls) f with
  | error fault =>
    simp only [advanceStream, hresult] at hstep
    cases hstep
  | ok result =>
    simp only [advanceStream, hresult] at hstep
    cases hstep
    rcases adiosReadBpAdvanceStep_cases hresult with ⟨-, hclosed⟩ | ⟨-, fh', time, hs, -⟩
    · rw [hclosed] at hfile
      cases hfile
    · exact hs.releasable

end Advance

theorem followed_of_openStream {showHiddenAttrs : Bool} {fh : BpIndex} {f : AdiosFile}
    (hsteps : 0 ≤ intOfU32 (fh.tidxStop - fh.tidxStart))
    (hopen : openStream showHiddenAttrs fh = .ok f) : f.Followed := by
  obtain ⟨f₁, hseek, hopen⟩ := exists_of_bind_eq_ok hopen
  obtain ⟨time, -, hs, -, -⟩ := seeked_of_bpSeekToStep hseek
  injection hopen with hf
  have hlast : f.lastStep = intOfU32 (fh.tidxStop - fh.tidxStart) := by rw [← hf]
  have hcurrent : f.currentStep = 0 := by rw [← hf]
  have hfile : f.fh = some fh := by rw [← hf, ← hs.file]
  have hreleasable : f.Releasable := by
    rw [← hf]
    exact hs.releasable
  refine ⟨⟨⟨fh, hfile, hlast⟩, Int.le_of_eq hcurrent.symm, ?_⟩, hreleasable⟩
  rw [hcurrent, hlast]
  exact hsteps

/-- From the first step on: calls do what they should exactly as long as each of them is for the
next step and finds it in the index that was read when the stream was opened. -/
theorem streamSteps_iff {showHiddenAttrs : Bool} {fh : BpIndex} {f : AdiosFile}
    (hsteps : 0 ≤ intOfU32 (fh.tidxStop - fh.tidxStart))
    (hopen : openStream showHiddenAttrs fh = .ok f) (calls : List AdvanceCall) :
    f.InStream ∧
      (Runs.Every (advanceStream showHiddenAttrs) (CallRight showHiddenAttrs) f calls ↔
        Runs.Every (advanceStream showHiddenAttrs) StepInIndex f calls) := by
  have hstart := followed_of_openStream hsteps hopen
  have hall : Runs.Every (advanceStream showHiddenAttrs) (fun _ _ => True) f calls :=
    Runs.every_true f calls
  refine ⟨hstart.toInStream, ?_⟩
  refine Runs.every_iff_of_invariant (P := CallRight showHiddenAttrs) (Q := StepInIndex)
    (fun f call h _ => callRight_iff_stepInIndex h)
    (fun f call _ _ hright f' retval hstep => ?_) hstart hall
  exact followed_of_advanceStream hright hstep

def twoSteps : BpIndex where
  groups := [CString.empty]
  varsRoot := [timedEntry [] (chars "t") [1, 2]]
  attrsRoot := []
  tidxStart := 1
  tidxStop := 2

theorem streamSteps_twoSteps : ∃ f, openStream false twoSteps = .ok f ∧ f.InStream ∧
    Runs.Every (advanceStream false) (CallRight false) f [⟨false, []⟩] := by
  have hpos : 0 ≤ intOfU32 (twoSteps.tidxStop - twoSteps.tidxStart) := by decide +kernel
  obtain ⟨f, hopen⟩ : ∃ f, openStream false twoSteps = .ok f := ⟨_, rfl⟩
  obtain ⟨hin, hiff⟩ := streamSteps_iff hpos hopen [⟨false, []⟩]
  refine ⟨f, hopen, hin, hiff.mpr ⟨?_, fun _ _ _ => trivial⟩⟩
  cases hopen
  refine ⟨rfl, by decide +kernel, ?_⟩
  rintro fh ⟨⟩
  exact ⟨_, rfl, rfl⟩

def oneStepYet : BpIndex :=
  { twoSteps with varsRoot := [timedEntry [] (chars "t") [1]], tidxStop := 1 }

/-- The step is not ready, and the file is closed: the next call follows a null pointer. -/
theorem not_streamSteps_oneStepYet : ∃ f, openStream false oneStepYet = .ok f ∧
    ¬Runs.Every (advanceStream false) (CallRight false) f
      [⟨false, []⟩, ⟨false, [some twoSteps]⟩] := by
  obtain ⟨f, hopen⟩ : ∃ f, openStream false oneStepYet = .ok f := ⟨_, rfl⟩
  refine ⟨f, hopen, fun h => ?_⟩
  cases hopen
  exact not_callRight_of_reopen rfl (.inr (by decide +kernel)) h.1

end Adios
