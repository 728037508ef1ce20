import Adios.DataSpaces.Stepping

/-!
# DataSpaces — where the steps of a reader lead

The invariant of the poll loop: as long as no announced version has been looked for in vain the
variable `step` is the step that was asked for.
-/

namespace Adios.DataSpaces

open List Runs

structure Space.Inv (space : Space) : Prop where
  files : ∀ v, space.files v = true → v ≤ space.newest
  terminated : space.terminated = true → space.putting = false

variable {space space' : Space}

theorem Space.Inv.step {e : SpaceEvent} (h : space.Inv) (hstep : space.step e = some space') :
    space'.Inv := by
  obtain ⟨hfiles, hterminated⟩ := h
  unfold newest at hfiles
  cases e with
  | put =>
    rw [Space.step] at hstep
    split_ifs at hstep with hno
    obtain rfl := Option.some.inj hstep
    rw [not_or] at hno
    refine ⟨fun v hv => ?_, fun ht => absurd ht hno.2⟩
    have hle := hfiles v hv
    rw [if_neg hno.1] at hle
    show v ≤ space.last + 1
    omega
  | announce =>
    rw [Space.step] at hstep
    split_ifs at hstep with hputting
    obtain rfl := Option.some.inj hstep
    refine ⟨fun v hv => ?_, fun _ => rfl⟩
    have hle := hfiles v hv
    rw [if_pos hputting] at hle
    exact hle
  | terminate =>
    rw [Space.step] at hstep
    split_ifs at hstep with hno
    obtain rfl := Option.some.inj hstep
    rw [not_or] at hno
    exact ⟨hfiles, fun _ => Bool.eq_false_iff.mpr hno.1⟩
  | fileArrives w =>
    rw [Space.step] at hstep
    split_ifs at hstep with hle
    obtain rfl := Option.some.inj hstep
    refine ⟨fun v hv => ?_, hterminated⟩
    by_cases heq : v = w
    · rw [heq]
      exact hle
    · exact hfiles v (by simpa only [if_neg heq] using hv)
  | groupArrives w =>
    rw [Space.step] at hstep
    split_ifs at hstep with hle
    obtain rfl := Option.some.inj hstep
    exact ⟨hfiles, hterminated⟩
  | fileDisappears w =>
    obtain rfl := Option.some.inj hstep
    refine ⟨fun v hv => hfiles v ?_, hterminated⟩
    by_cases heq : v = w
    · simp only [if_pos heq] at hv
      cases hv
    · simpa only [if_neg heq] using hv
  | groupDisappears w =>
    obtain rfl := Option.some.inj hstep
    exact ⟨hfiles, hterminated⟩

theorem Space.EndedAt.step {e : SpaceEvent} {n : Int} (h : space.EndedAt n) (hinv : space.Inv)
    (hstep : space.step e = some space') : space'.EndedAt n := by
  have hputting := hinv.terminated h.terminated
  have hne : ¬space.putting = true := Bool.eq_false_iff.mp hputting
  cases e with
  | put =>
    rw [Space.step, if_pos (.inr h.terminated)] at hstep
    cases hstep
  | announce =>
    rw [Space.step, if_neg hne] at hstep
    cases hstep
  | terminate =>
    rw [Space.step] at hstep
    split_ifs at hstep
    obtain rfl := Option.some.inj hstep
    exact ⟨rfl, h.last, h.files⟩
  | fileArrives w =>
    rw [Space.step] at hstep
    split_ifs at hstep with hle
    obtain rfl := Option.some.inj hstep
    refine ⟨h.terminated, h.last, fun v hv => ?_⟩
    have hlast := h.last
    unfold newest at hle
    rw [if_neg hne] at hle
    show (if v = w then true else space.files v) = false
    rw [if_neg (by omega)]
    exact h.files v hv
  | groupArrives w =>
    rw [Space.step] at hstep
    split_ifs at hstep
    obtain rfl := Option.some.inj hstep
    exact ⟨h.terminated, h.last, h.files⟩
  | fileDisappears w =>
    obtain rfl := Option.some.inj hstep
    refine ⟨h.terminated, h.last, fun v hv => ?_⟩
    show (if v = w then false else space.files v) = false
    rw [h.files v hv, ite_self]
  | groupDisappears w =>
    obtain rfl := Option.some.inj hstep
    exact ⟨h.terminated, h.last, h.files⟩

/-! ## The reader -/

def Call.Looking (c : Call) : Prop :=
  c.before < c.step ∧
    match c.whichVersion with
    | .nextVersion => c.step = c.before + 1 ∧ c.maxCheckVersion = c.step
    | .nextAvailableVersion => ∀ v, c.before < v → v < c.step → (v, false) ∈ c.looked
    | .lastVersion => c.step = c.lastVersion ∧ c.maxCheckVersion = c.lastVersion

structure Call.Settling (c : Call) (status : StepStatus) (stay : Bool) (space : Space)
    (r : Reader) :
    Prop where
  asked : c.asked = c.before + 1
  reaches : status = .ok → c.Reaches r.currentStep
  unchanged : status ≠ .ok → r.currentStep = c.before
  locked : r.lockedFname = true
  ended : status = .streamTerminated → space.EndedAt c.before
  again : stay = true → status ≠ .ok ∧ (c.looked = [] → c.step = c.asked)

def Reader.Inv (space : Space) (r : Reader) : Prop :=
  match r.phase with
  | .closed | .released => True
  | .poll c => c.step = c.asked ∧ c.asked = c.before + 1 ∧ r.currentStep = c.before
  | .lookup c => c.asked = c.before + 1 ∧ r.currentStep = c.before ∧ r.lockedFname = true ∧
      c.Looking
  | .groupdata c =>
    c.asked = c.before + 1 ∧ r.lockedFname = true ∧ c.step = r.currentStep ∧ c.Reaches r.currentStep
  | .settle c status stay => c.Settling status stay space r
  | .returned c status => c.Right status space r

variable {r : Reader}

theorem Reader.Inv.space_mono (h : r.Inv space)
    (hended : ∀ n, space.EndedAt n → space'.EndedAt n) : r.Inv space' := by
  unfold Reader.Inv at h ⊢
  cases hphase : r.phase with
  | closed => trivial
  | released => trivial
  | poll c =>
    rw [hphase] at h
    exact h
  | lookup c =>
    rw [hphase] at h
    exact h
  | groupdata c =>
    rw [hphase] at h
    exact h
  | settle c status stay =>
    rw [hphase] at h
    exact { h with ended := fun hst => hended _ (h.ended hst) }
  | returned c status =>
    rw [hphase] at h
    exact { h with ended := fun hst => hended _ (h.ended hst) }

theorem Reader.inv_advanceStep (r : Reader) (last : Bool) : (r.advanceStep last).Inv space := by
  unfold advanceStep
  dsimp only
  split_ifs <;> exact ⟨rfl, rfl, rfl⟩

theorem Reader.inv_pollVersion {c : Call} (hinv : space.Inv) (hstep : c.step = c.asked)
    (hasked : c.asked = c.before + 1) (hcurrent : r.currentStep = c.before) :
    (r.pollVersion space c).Inv space := by
  unfold pollVersion
  dsimp only
  by_cases hnone : space.last < 0
  · rw [if_pos hnone]
    exact {
      asked := hasked
      reaches := fun hok => by cases hok
      unchanged := fun _ => hcurrent
      locked := rfl
      ended := fun hst => by cases hst
      again := fun _ => ⟨fun hok => (by cases hok), fun _ => hstep⟩ }
  · rw [if_neg hnone]
    by_cases hlast : space.last < c.step
    · rw [if_pos hlast]
      by_cases hterminated : space.terminated = true
      · rw [if_pos hterminated]
        refine {
          asked := hasked
          reaches := fun hok => by cases hok
          unchanged := fun _ => hcurrent
          locked := rfl
          ended := fun _ => ⟨hterminated, show space.last ≤ c.before by omega, fun v hv => ?_⟩
          again := fun hstay => by cases hstay }
        -- no version behind the last one is there, since none is being put
        have hputting : ¬space.putting = true := Bool.eq_false_iff.mp (hinv.terminated hterminated)
        refine Bool.eq_false_iff.mpr fun hfile => ?_
        have hle := hinv.files v hfile
        unfold Space.newest at hle
        rw [if_neg hputting] at hle
        have hv : c.before < v := hv
        omega
      · rw [if_neg hterminated]
        exact {
          asked := hasked
          reaches := fun hok => by cases hok
          unchanged := fun _ => hcurrent
          locked := rfl
          ended := fun hst => by cases hst
          again := fun _ => ⟨fun hok => (by cases hok), fun _ => hstep⟩ }
    · rw [if_neg hlast]
      refine ⟨hasked, hcurrent, rfl, ?_, ?_⟩
      · show c.before < (if c.whichVersion = .lastVersion then space.last else c.step)
        split_ifs <;> omega
      · dsimp only
        cases c.whichVersion with
        | nextVersion => exact ⟨hstep.trans hasked, rfl⟩
        | nextAvailableVersion =>
          intro v hlo hhi
          have hhi : v < c.step := hhi
          have hlo : c.before < v := hlo
          omega
        | lastVersion => exact ⟨rfl, rfl⟩

theorem Reader.inv_lookUp {c : Call} (hasked : c.asked = c.before + 1)
    (hcurrent : r.currentStep = c.before) (hlocked : r.lockedFname = true) (hlooking : c.Looking) :
    (r.lookUp space c).Inv space := by
  obtain ⟨hbefore, hmode⟩ := hlooking
  have hundo : c.step + 1 - 1 = c.step := by omega
  unfold lookUp
  dsimp only
  by_cases hfound : space.files c.step = true
  · rw [if_pos hfound, hundo]
    refine ⟨hasked, hlocked, rfl, ?_, ?_⟩
    · show (c.step, true) ∈ c.looked ++ [(c.step, space.files c.step)]
      rw [hfound]
      exact mem_append_right _ (mem_singleton.mpr rfl)
    · dsimp only
      cases hwhich : c.whichVersion with
      | nextVersion =>
        rw [hwhich] at hmode
        exact hmode.1
      | nextAvailableVersion =>
        rw [hwhich] at hmode
        exact ⟨hbefore, fun v hlo hhi => mem_append_left _ (hmode v hlo hhi)⟩
      | lastVersion =>
        rw [hwhich] at hmode
        exact hmode.1
  · have hmissing : space.files c.step = false := Bool.eq_false_iff.mpr hfound
    have hne : c.looked ++ [(c.step, space.files c.step)] ≠ [] := concat_ne_nil _ _
    have hsettle : ∀ status stay, status ≠ .ok → status ≠ .streamTerminated →
        Reader.Inv space { r with phase := .settle { c with
          step := c.step + 1,
          looked := c.looked ++ [(c.step, space.files c.step)] } status stay } :=
      fun status stay hok hend => {
      asked := hasked
      reaches := fun h => absurd h hok
      unchanged := fun _ => hcurrent
      locked := hlocked
      ended := fun h => absurd h hend
      -- an announced version has been looked for in vain
      again := fun _ => ⟨hok, fun hnil => absurd hnil hne⟩ }
    rw [if_neg hfound]
    by_cases hmax : c.step + 1 ≤ c.maxCheckVersion
    · rw [if_pos hmax]
      refine ⟨hasked, hcurrent, hlocked, ?_, ?_⟩
      · show c.before < c.step + 1
        omega
      · dsimp only
        cases hwhich : c.whichVersion with
        | nextVersion =>
          rw [hwhich] at hmode
          have hmode := hmode.2
          omega
        | nextAvailableVersion =>
          rw [hwhich] at hmode
          intro v hlo hhi
          have hhi : v < c.step + 1 := hhi
          show (v, false) ∈ c.looked ++ [(c.step, space.files c.step)]
          by_cases heq : v = c.step
          · rw [heq, hmissing]
            exact mem_append_right _ (mem_singleton.mpr rfl)
          · exact mem_append_left _ (hmode v hlo (by omega))
        | lastVersion =>
          rw [hwhich] at hmode
          have hmode := hmode
          omega
    · rw [if_neg hmax]
      split_ifs
      · exact hsettle .stepDisappeared false (by decide) (by decide)
      · exact hsettle .stepNotReady true (by decide) (by decide)
      · exact hsettle .otherError false (by decide) (by decide)

theorem Reader.inv_getGroupdata {c : Call} (hasked : c.asked = c.before + 1)
    (hlocked : r.lockedFname = true) (hreaches : c.Reaches r.currentStep)
    (hgroups : space.groups c.step = true) : (r.getGroupdata space c).Inv space := by
  unfold getGroupdata
  rw [if_pos hgroups]
  exact {
    asked := hasked
    reaches := fun _ => hreaches
    unchanged := fun hne => absurd rfl hne
    locked := hlocked
    ended := fun hst => by cases hst
    again := fun hstay => by cases hstay }

theorem Reader.inv_endPoll {c : Call} {status : StepStatus} {stay expired : Bool}
    (h : c.Settling status stay space r) (hmeets : stay = true → expired = false → c.looked = []) :
    (r.endPoll expired c status stay).Inv space := by
  unfold endPoll
  dsimp only
  have hright : ∀ r', r'.currentStep = r.currentStep →
      (r'.lockedFname = true ↔ status = .ok) → c.Right status space r' :=
        fun r' hcurrent hlocked => {
    reaches := fun hok => hcurrent ▸ h.reaches hok
    unchanged := fun hne => hcurrent.trans (h.unchanged hne)
    locked := hlocked
    ended := h.ended }
  by_cases hok : status = .ok
  · rw [if_neg (not_not.mpr hok)]
    have hstay : stay = false := Bool.eq_false_iff.mpr fun hstay => (h.again hstay).1 hok
    rw [hstay]
    exact hright _ rfl (iff_of_true h.locked hok)
  · rw [if_pos hok]
    have hreturned := hright { r with lockedFname := false } rfl
      (iff_of_false (fun hlocked => by cases hlocked) hok)
    by_cases hstay : stay = true
    · rw [if_pos hstay]
      by_cases hexpired : expired = true
      · rw [if_pos hexpired]
        exact { hreturned with }
      · rw [if_neg hexpired]
        have hlooked := hmeets hstay (Bool.eq_false_iff.mpr hexpired)
        exact ⟨(h.again hstay).2 hlooked, h.asked, h.unchanged hok⟩
    · rw [if_neg hstay]
      exact { hreturned with }

/-! ## The system -/

structure System.Inv (s : System) : Prop where
  space : s.space.Inv
  reader : s.reader.Inv s.space

variable {s s' : System}

theorem System.Inv.step {e : Event} (h : s.Inv) (hmeets : s.Meets e) (hstep : s.step e = some s') :
    s'.Inv := by
  obtain ⟨hspace, hreader⟩ := h
  cases e with
  | space e =>
    obtain ⟨space', hspaceStep, rfl⟩ := Option.map_eq_some_iff.mp hstep
    exact ⟨hspace.step hspaceStep, hreader.space_mono fun n hn => hn.step hspace hspaceStep⟩
  | openStream lockMode =>
    rw [System.step] at hstep
    split_ifs at hstep
    obtain rfl := Option.some.inj hstep
    exact ⟨hspace, rfl, rfl, rfl⟩
  | advanceStep last =>
    rw [System.step] at hstep
    split_ifs at hstep
    obtain rfl := Option.some.inj hstep
    exact ⟨hspace, s.reader.inv_advanceStep last⟩
  | releaseStep =>
    rw [System.step] at hstep
    split_ifs at hstep
    obtain rfl := Option.some.inj hstep
    exact ⟨hspace, trivial⟩
  | close =>
    rw [System.step] at hstep
    split_ifs at hstep
    obtain rfl := Option.some.inj hstep
    exact ⟨hspace, trivial⟩
  | go expired =>
    unfold Reader.Inv at hreader
    unfold System.Meets at hmeets
    unfold System.step at hstep
    dsimp only at hmeets hstep
    cases hphase : s.reader.phase with
    | closed =>
      rw [hphase] at hstep
      cases hstep
    | released =>
      rw [hphase] at hstep
      cases hstep
    | poll c =>
      rw [hphase] at hstep hreader
      obtain rfl := Option.some.inj hstep
      obtain ⟨hc, hasked, hcurrent⟩ := hreader
      exact ⟨hspace, Reader.inv_pollVersion hspace hc hasked hcurrent⟩
    | lookup c =>
      rw [hphase] at hstep hreader
      obtain rfl := Option.some.inj hstep
      obtain ⟨hasked, hcurrent, hlocked, hlooking⟩ := hreader
      exact ⟨hspace, Reader.inv_lookUp hasked hcurrent hlocked hlooking⟩
    | groupdata c =>
      rw [hphase] at hstep hreader hmeets
      obtain rfl := Option.some.inj hstep
      obtain ⟨hasked, hlocked, -, hreaches⟩ := hreader
      exact ⟨hspace, Reader.inv_getGroupdata hasked hlocked hreaches hmeets⟩
    | settle c status stay =>
      rw [hphase] at hstep hreader hmeets
      obtain rfl := Option.some.inj hstep
      refine ⟨hspace, Reader.inv_endPoll hreader fun hstay hexpired => ?_⟩
      rw [hstay] at hmeets
      exact hmeets hexpired
    | returned c status =>
      rw [hphase] at hstep
      cases hstep

theorem System.Inv.right (h : s.Inv) : s.Right := by
  have hreader := h.reader
  unfold Reader.Inv at hreader
  unfold Right
  cases hphase : s.reader.phase with
  | poll c =>
    rw [hphase] at hreader
    exact ⟨hreader.1, hreader.2.1⟩
  | returned c status =>
    rw [hphase] at hreader
    exact hreader
  | closed | released | lookup | groupdata | settle => trivial

theorem System.inv_initial : System.initial.Inv where
  space := ⟨fun _ hv => (by cases hv), fun _ => rfl⟩
  reader := trivial

structure Reached where
  system : System
  guarded : Guarded System.step System.Meets System.initial system

/-- In every run in which no poll follows one that has looked for an announced version in vain, and
in which the group metadata of each version found can be read, all calls are right. -/
theorem Reached.stepsRight (s : Reached) : s.system.Right :=
  (s.guarded.invariant System.inv_initial fun _ _ _ h hmeets hstep => h.step hmeets hstep).right

/-- Version 1 disappears behind the putting of version 2; the reader of version 0, which asks for
the next one with `ADIOS_LOCKMODE_ALL`, polls twice. -/
def skippedVersion : List Event :=
  [.space .put, .space (.fileArrives 0), .space (.groupArrives 0), .space .announce,
    .openStream .all, .go false, .go false, .go false, .go false,
    .space .put, .space (.fileArrives 1), .space (.groupArrives 1), .space .announce,
    .space .put, .space (.fileArrives 2), .space (.groupArrives 2), .space .announce,
    .space (.fileDisappears 1),
    .advanceStep false, .go false, .go false, .go false, .go false, .go false, .go false, .go false]

/-- The call succeeds with version 2. -/
theorem not_right_skippedVersion :
    ∃ s, Guarded System.step (fun _ _ => True) System.initial s ∧ ¬s.Right := by
  refine ⟨_, @Guarded.of_runAll _ _ _ _ _ _ .refl skippedVersion rfl, fun h => ?_⟩
  have hreaches := (h.reaches rfl).2
  have hstep : (2 : Int) = 0 + 1 := hreaches
  exact absurd hstep (by decide)

end Adios.DataSpaces
