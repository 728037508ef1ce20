import Adios.Read.VarIds
import Adios.Lists.RankedSlices

/-!
# Adios — group views show the group

What a group view is for: of the variables and attributes at the current step it shows those of a
group, and without a view all of them. The lists of an open file are compared with that, over any
sequence of views, resets, calls with an invalid group and step advances.

A view cuts the group out of the lists of the step by the numbers of variables and attributes that
the groups have in the file, and a reset takes what the last view has saved. `CallFits` says when
that is right.
-/

namespace Adios

open List Lists

/-! ## What a view is for -/

structure ViewState where
  file : BpIndex
  time : Option UInt32
  inView : Option Nat

def ViewState.vars (s : ViewState) : List (IndexEntry × Nat) :=
  (s.file.visibleVars s.time).filter fun e => s.inView.all fun g => s.file.grpid e.1 = some g

def ViewState.attrs (s : ViewState) (showHiddenAttrs : Bool) : List IndexEntry :=
  (s.file.visibleAttrs showHiddenAttrs s.time).filter fun e =>
    s.inView.all fun g => s.file.grpid e = some g

def ViewState.isGroup (s : ViewState) (groupid : Int) : Prop :=
  0 ≤ groupid ∧ groupid < s.file.groups.length

instance (s : ViewState) (groupid : Int) : Decidable (s.isGroup groupid) := instDecidableAnd

structure ViewFaithful (showHiddenAttrs : Bool) (s : ViewState) (f : AdiosFile) : Prop where
  vars : f.names f.varNamelist 0 f.nvars = .ok (s.vars.map fun e => fullName e.1)
  varids : (f.varidMapping.drop f.internals.groupVaridOffset).take f.nvars = s.vars.map (·.2)
  attrs : f.names f.attrNamelist 0 f.nattrs = .ok ((s.attrs showHiddenAttrs).map fullName)
  noOffset : s.inView = none →
    f.internals.groupVaridOffset = 0 ∧ f.internals.groupAttridOffset = 0
  invalid : ∀ groupid, ¬s.isGroup groupid → groupid ≠ -1 →
    commonReadGroupView groupid f = (errInvalidGroup, f)

/-! ## Calls -/

inductive ViewCall where
  | groupView (groupid : Int)
  | advanceStep (last : Bool) (poll : Option BpIndex)

def ViewCall.run (showHiddenAttrs : Bool) :
    ViewCall → AdiosFile → Except Fault (Int × AdiosFile)
  | .groupView groupid, f => .ok (commonReadGroupView groupid f)
  | .advanceStep last poll, f => commonReadAdvanceStep showHiddenAttrs last poll f

def AdiosFile.foundStep (f : AdiosFile) (poll : Option BpIndex) : Option (BpIndex × Int) :=
  if f.currentStep < f.lastStep then f.fh.map fun fh => (fh, f.currentStep + 1)
  else poll.map fun fh => (fh, intOfU32 fh.tidxStop - 1 + 1)

/-- What a call does to the view: an advance that finds a step keeps a view of a group that the
file still has. -/
def ViewState.next (s : ViewState) (f : AdiosFile) : ViewCall → ViewState
  | .groupView groupid =>
    if s.isGroup groupid then { s with inView := some groupid.toNat }
    else if groupid = -1 then { s with inView := none }
    else s
  | .advanceStep _ poll =>
    match f.foundStep poll with
    | none => s
    | some (fh, step) =>
      match fh.timeOfStep step with
      | .error _ => s
      | .ok time =>
        { file := fh, time := time, inView := s.inView.filter (· < fh.groups.length) }

theorem ViewState.next_groupView (s : ViewState) (f : AdiosFile) (groupid : Int) :
    s.next f (.groupView groupid) =
      if s.isGroup groupid then { s with inView := some groupid.toNat }
      else if groupid = -1 then { s with inView := none }
      else s := rfl

variable {poll : Option BpIndex} {step : Int} {time : Option UInt32}

theorem ViewState.next_of_not_foundStep {s : ViewState} {f : AdiosFile} {last : Bool}
    (h : f.foundStep poll = none) :
    s.next f (.advanceStep last poll) = s := by
  simp only [ViewState.next, h]

theorem ViewState.next_of_foundStep {s : ViewState} {f : AdiosFile} {last : Bool} {fh : BpIndex}
    (h : f.foundStep poll = some (fh, step)) (htime : fh.timeOfStep step = .ok time) :
    s.next f (.advanceStep last poll) =
      { file := fh, time := time, inView := s.inView.filter (· < fh.groups.length) } := by
  simp only [ViewState.next, h, htime]

/-- The variables and attributes of a group stand together in the lists of a step, as many as the
group has in the file, behind as many as the groups before it have. -/
structure GroupFits (showHiddenAttrs : Bool) (fh : BpIndex) (time : Option UInt32) (g : Nat) :
    Prop where
  vars : StandsAt (fun e => fh.grpid e.1 = some g) (fh.visibleVars time)
    ((fh.countsPerGroup fh.varsRoot).take g).sum ((fh.countsPerGroup fh.varsRoot).getD g 0)
  attrs : StandsAt (fun e => fh.grpid e = some g) (fh.visibleAttrs showHiddenAttrs time)
    ((fh.nattrsPerGroup showHiddenAttrs).take g).sum ((fh.nattrsPerGroup showHiddenAttrs).getD g 0)

def AdiosFile.Saved (f : AdiosFile) : Prop :=
  ∃ p ∈ f.internals.fullVarnamelist, p.seek = f.seeks

/-- An advance from a file that has not been closed by one before it, not for the last step; to a
file with variables, from lists that start where they were allocated, and back into a view that
fits. -/
structure AdvanceFits (showHiddenAttrs last : Bool) (poll : Option BpIndex) (s : ViewState)
    (f : AdiosFile) : Prop where
  opened : f.fh.isSome
  notLast : last = false
  varsRoot : ∀ fh step, f.foundStep poll = some (fh, step) → fh.varsRoot ≠ []
  noOffset : (f.foundStep poll).isSome →
    f.internals.groupVaridOffset = 0 ∧ f.internals.groupAttridOffset = 0
  view : ∀ fh step time g, f.foundStep poll = some (fh, step) → fh.timeOfStep step = .ok time →
    s.inView = some g → g < fh.groups.length → GroupFits showHiddenAttrs fh time g

def CallFits (showHiddenAttrs : Bool) (s : ViewState) (f : AdiosFile) : ViewCall → Prop
  | .groupView groupid =>
    (s.isGroup groupid → GroupFits showHiddenAttrs s.file s.time groupid.toNat) ∧
      (groupid = -1 → f.Saved)
  | .advanceStep last poll => AdvanceFits showHiddenAttrs last poll s f

inductive ViewRun (showHiddenAttrs : Bool) : ViewState → AdiosFile → Prop
  | opened {streaming fh time f} :
      fh.timeOfStep (if streaming then 0 else -1) = .ok time →
      commonReadOpen showHiddenAttrs streaming fh = .ok f →
      ViewRun showHiddenAttrs ⟨fh, time, none⟩ f
  | call {s f f' call retval} :
      ViewRun showHiddenAttrs s f → CallFits showHiddenAttrs s f call →
      call.run showHiddenAttrs f = .ok (retval, f') →
      ViewRun showHiddenAttrs (s.next f call) f'

/-! ## The invariant -/

/-- One of the two lists, of `m` names at the last seek: what is in view and what has been saved. -/
structure PartInv (seeks m : Nat) (current full : Option NamelistPtr) (n fulln offset : Nat)
    (counts : List Nat) (inView : Option Nat) : Prop where
  current : ∃ p, current = some p ∧ p.seek = seeks ∧ p.offset = offset
  saved : ∀ p ∈ full, p.seek = seeks → fulln = m
  outOfView : inView = none → n = m ∧ offset = 0
  group : ∀ g ∈ inView, n = counts.getD g 0 ∧ offset = (counts.take g).sum ∧
    ∃ p ∈ full, p.seek = seeks

section PartInv

variable {seeks m n fulln offset : Nat} {names : List Name} {current full : Option NamelistPtr}
  {counts : List Nat} {inView inView' : Option Nat}

theorem PartInv.save (h : PartInv seeks m current full n fulln offset counts inView)
    (hview : inView = none) : PartInv seeks m current current n n offset counts none where
  current := h.current
  saved _ _ _ := (h.outOfView hview).1
  outOfView _ := h.outOfView hview
  group := nofun

section

variable (h : PartInv seeks m current full n fulln offset counts inView)
  (hlist : ListInv seeks names current full offset inView') (hfull : ∃ p ∈ full, p.seek = seeks)

include h hlist hfull

theorem PartInv.view (g : Nat) :
    PartInv seeks m (full.map (·.add (counts.take g).sum)) full (counts.getD g 0) fulln
      (counts.take g).sum counts (some g) where
  current := by
    obtain ⟨p, hp, hseek⟩ := hfull
    refine ⟨p.add (counts.take g).sum, by rw [Option.mem_def.mp hp]; rfl, hseek, ?_⟩
    show p.offset + (counts.take g).sum = (counts.take g).sum
    rw [hlist.fullOffset p hp, Nat.zero_add]
  saved := h.saved
  outOfView := nofun
  group g' hg' := by
    cases hg'
    exact ⟨rfl, rfl, hfull⟩

theorem PartInv.reset :
    PartInv seeks m full full fulln fulln 0 counts none where
  current := by
    obtain ⟨p, hp, hseek⟩ := hfull
    exact ⟨p, hp, hseek, hlist.fullOffset p hp⟩
  saved := h.saved
  outOfView _ := by
    obtain ⟨p, hp, hseek⟩ := hfull
    exact ⟨h.saved p hp hseek, rfl⟩
  group := nofun

end

end PartInv

structure ViewInv (showHiddenAttrs : Bool) (s : ViewState) (f : AdiosFile) : Prop where
  lists : FileInv f (s.file.visibleVars s.time) (s.file.visibleAttrs showHiddenAttrs s.time)
  nvarsPerGroup : f.internals.nvarsPerGroup = s.file.countsPerGroup s.file.varsRoot
  nattrsPerGroup : f.internals.nattrsPerGroup = s.file.nattrsPerGroup showHiddenAttrs
  inView : f.internals.groupInView = s.inView
  vars : PartInv f.seeks (s.file.visibleVars s.time).length f.varNamelist
    f.internals.fullVarnamelist f.nvars f.internals.fullNvars f.internals.groupVaridOffset
    f.internals.nvarsPerGroup s.inView
  attrs : PartInv f.seeks (s.file.visibleAttrs showHiddenAttrs s.time).length f.attrNamelist
    f.internals.fullAttrnamelist f.nattrs f.internals.fullNattrs f.internals.groupAttridOffset
    f.internals.nattrsPerGroup s.inView
  attrsSaved : f.Saved → ∃ p ∈ f.internals.fullAttrnamelist, p.seek = f.seeks
  fits : ∀ g ∈ s.inView, GroupFits showHiddenAttrs s.file s.time g

variable {showHiddenAttrs : Bool} {s s' : ViewState} {f f' : AdiosFile}

/-! ## What it says of the lists -/

theorem PartInv.names_eq (names : List Name) {current full : Option NamelistPtr}
    {n fulln offset : Nat} {counts : List Nat} {inView inView' : Option Nat}
    (h : PartInv f.seeks names.length current full n fulln offset counts inView)
    (hlist : ListInv f.seeks names current full offset inView')
    (hn : n = 0 ∨ offset + n ≤ names.length) :
    f.names current 0 n = .ok ((names.drop offset).take n) := by
  rcases hn with rfl | hle
  · rfl
  · obtain ⟨p, rfl, hseek, rfl⟩ := h.current
    have hnames := hlist.currentNames p rfl hseek
    subst hnames
    exact AdiosFile.names_eq hseek hle

theorem PartInv.slice_eq {α : Type} {xs : List α} {q : α → Nat → Prop}
    [∀ g, DecidablePred fun x => q x g] {current full : Option NamelistPtr}
    {seeks n fulln offset : Nat} {counts : List Nat} {inView : Option Nat}
    (h : PartInv seeks xs.length current full n fulln offset counts inView)
    (hfits : ∀ g ∈ inView, StandsAt (fun x => q x g) xs (counts.take g).sum (counts.getD g 0)) :
    (n = 0 ∨ offset + n ≤ xs.length) ∧
      (xs.drop offset).take n = xs.filter fun x => inView.all fun g => q x g := by
  cases inView with
  | none =>
    obtain ⟨rfl, rfl⟩ := h.outOfView rfl
    refine ⟨Or.inr (by omega), ?_⟩
    rw [drop_zero, take_length]
    exact (filter_eq_self.mpr fun _ _ => rfl).symm
  | some g =>
    obtain ⟨rfl, rfl, -⟩ := h.group g rfl
    exact ⟨(hfits g rfl).le_length, (hfits g rfl).slice_eq⟩

theorem BpIndex.length_countsPerGroup (fh : BpIndex) (es : List IndexEntry) :
    (fh.countsPerGroup es).length = fh.groups.length := by
  simp [BpIndex.countsPerGroup]

section

variable (h : ViewInv showHiddenAttrs s f)

include h

theorem ViewInv.vars_slice :
    (f.nvars = 0 ∨
      f.internals.groupVaridOffset + f.nvars ≤ (s.file.visibleVars s.time).length) ∧
      ((s.file.visibleVars s.time).drop f.internals.groupVaridOffset).take f.nvars = s.vars := by
  refine h.vars.slice_eq (q := fun e g => s.file.grpid e.1 = some g) fun g hg => ?_
  rw [h.nvarsPerGroup]
  exact (h.fits g hg).vars

theorem ViewInv.attrs_slice :
    (f.nattrs = 0 ∨ f.internals.groupAttridOffset + f.nattrs ≤
      (s.file.visibleAttrs showHiddenAttrs s.time).length) ∧
      ((s.file.visibleAttrs showHiddenAttrs s.time).drop f.internals.groupAttridOffset).take
        f.nattrs = s.attrs showHiddenAttrs := by
  refine h.attrs.slice_eq (q := fun e g => s.file.grpid e = some g) fun g hg => ?_
  rw [h.nattrsPerGroup]
  exact (h.fits g hg).attrs

theorem ViewInv.isGroup_iff (groupid : Int) :
    s.isGroup groupid ↔ 0 ≤ groupid ∧ groupid < f.internals.nvarsPerGroup.length := by
  rw [h.nvarsPerGroup, BpIndex.length_countsPerGroup]
  rfl

theorem ViewInv.faithful :
    ViewFaithful showHiddenAttrs s f where
  vars := by
    obtain ⟨hle, hslice⟩ := h.vars_slice
    have hnames := PartInv.names_eq ((s.file.visibleVars s.time).map fun e => fullName e.1)
      (by simpa using h.vars) h.lists.varList (by simpa using hle)
    rw [hnames, ← hslice, map_take, map_drop]
  varids := by
    rw [h.lists.mapping, ← h.vars_slice.2, map_take, map_drop]
  attrs := by
    obtain ⟨hle, hslice⟩ := h.attrs_slice
    have hnames := PartInv.names_eq
      ((s.file.visibleAttrs showHiddenAttrs s.time).map fullName)
      (by simpa using h.attrs) h.lists.attrList (by simpa using hle)
    rw [hnames, ← hslice, map_take, map_drop]
  noOffset hview := ⟨(h.vars.outOfView hview).2, (h.attrs.outOfView hview).2⟩
  invalid groupid hgroup hreset := by
    unfold commonReadGroupView
    rw [if_neg (fun hvalid => hgroup ((h.isGroup_iff groupid).mpr hvalid)), if_neg hreset]

/-! ## Views keep it -/

theorem ViewInv.saveFullView :
    ViewInv showHiddenAttrs s f.saveFullView ∧ f.saveFullView.Saved := by
  unfold AdiosFile.saveFullView
  split_ifs with hview
  · have hview' : s.inView = none := h.inView.symm.trans hview
    have hlists := h.lists.saveFullView
    unfold AdiosFile.saveFullView at hlists
    rw [if_pos hview] at hlists
    have hvars := h.vars.save hview'
    have hattrs := h.attrs.save hview'
    rw [← hview'] at hvars hattrs
    refine ⟨⟨hlists, h.nvarsPerGroup, h.nattrsPerGroup, h.inView, hvars, hattrs, ?_, h.fits⟩, ?_⟩
    · intro _
      obtain ⟨p, hp, hseek, -⟩ := h.attrs.current
      exact ⟨p, hp, hseek⟩
    · obtain ⟨p, hp, hseek, -⟩ := h.vars.current
      exact ⟨p, hp, hseek⟩
  · obtain ⟨g, hg⟩ := Option.ne_none_iff_exists'.mp hview
    obtain ⟨-, -, hsaved⟩ := h.vars.group g (h.inView.symm.trans hg)
    exact ⟨h, hsaved⟩

theorem ViewInv.setView (hsaved : f.Saved) {g : Nat}
    (hfits : GroupFits showHiddenAttrs s.file s.time g) :
    ViewInv showHiddenAttrs { s with inView := some g } (f.setView g) where
  lists := h.lists.setView g
  nvarsPerGroup := h.nvarsPerGroup
  nattrsPerGroup := h.nattrsPerGroup
  inView := rfl
  vars := h.vars.view h.lists.varList hsaved g
  attrs := h.attrs.view h.lists.attrList (h.attrsSaved hsaved) g
  attrsSaved := h.attrsSaved
  fits g' hg' := by
    cases hg'
    exact hfits

theorem ViewInv.resetView (hsaved : f.Saved) :
    ViewInv showHiddenAttrs { s with inView := none } f.resetView where
  lists := h.lists.resetView
  nvarsPerGroup := h.nvarsPerGroup
  nattrsPerGroup := h.nattrsPerGroup
  inView := rfl
  vars := h.vars.reset h.lists.varList hsaved
  attrs := h.attrs.reset h.lists.attrList (h.attrsSaved hsaved)
  attrsSaved := h.attrsSaved
  fits := nofun

theorem ViewInv.groupView (groupid : Int)
    (hfits : s.isGroup groupid → GroupFits showHiddenAttrs s.file s.time groupid.toNat)
    (hsaved : groupid = -1 → f.Saved) :
    ViewInv showHiddenAttrs (s.next f (.groupView groupid)) (commonReadGroupView groupid f).2 := by
  unfold commonReadGroupView ViewState.next
  simp only [h.isGroup_iff groupid]
  split_ifs with hgroup hreset
  · obtain ⟨h', hsaved'⟩ := h.saveFullView
    exact h'.setView hsaved' (hfits ((h.isGroup_iff groupid).mpr hgroup))
  · exact h.resetView (hsaved hreset)
  · exact h

end

/-! ## Step advances keep it -/

def AdiosFile.Releasable (f : AdiosFile) : Prop :=
  f.freeNamelist f.varNamelist f.nvars = .ok () ∧ f.freeNamelist f.attrNamelist f.nattrs = .ok ()

theorem AdiosFile.Releasable.releaseStep (h : f.Releasable) : ∃ f', releaseStep f = .ok f' := by
  unfold Adios.releaseStep
  rw [h.1, h.2]
  exact ⟨_, rfl⟩

theorem PartInv.freeNamelist_eq (names : List Name) {current full : Option NamelistPtr}
    {n fulln : Nat} {counts : List Nat} {inView inView' : Option Nat}
    (h : PartInv f.seeks names.length current full n fulln 0 counts inView)
    (hlist : ListInv f.seeks names current full 0 inView') (hn : n ≤ names.length) :
    f.freeNamelist current n = .ok () := by
  obtain ⟨p, rfl, hseek, hoffset⟩ := h.current
  have hnames := hlist.currentNames p rfl hseek
  subst hnames
  unfold AdiosFile.freeNamelist
  exact if_pos ⟨hseek, hoffset, hn⟩

theorem ViewInv.releasable (h : ViewInv showHiddenAttrs s f)
    (hvar : f.internals.groupVaridOffset = 0) (hattr : f.internals.groupAttridOffset = 0) :
    f.Releasable := by
  have hvars := h.vars
  have hattrs := h.attrs
  have hvarList := h.lists.varList
  have hattrList := h.lists.attrList
  have hnvars := h.vars_slice.1
  have hnattrs := h.attrs_slice.1
  rw [hvar] at hvars hvarList hnvars
  rw [hattr] at hattrs hattrList hnattrs
  constructor
  · refine PartInv.freeNamelist_eq ((s.file.visibleVars s.time).map fun e => fullName e.1)
      (by simpa using hvars) hvarList ?_
    rw [length_map]
    omega
  · refine PartInv.freeNamelist_eq ((s.file.visibleAttrs showHiddenAttrs s.time).map fullName)
      (by simpa using hattrs) hattrList ?_
    rw [length_map]
    omega

theorem Seeked.releasable {fh : BpIndex} (hs : Seeked showHiddenAttrs fh time f f') :
    f'.Releasable := by
  unfold AdiosFile.Releasable AdiosFile.freeNamelist
  rw [hs.varNamelist, hs.nvars, hs.attrNamelist, hs.nattrs]
  simp

theorem BpIndex.timeOfStep_isOk {fh : BpIndex} (hvars : fh.varsRoot ≠ []) (step : Int) :
    ∃ time, fh.timeOfStep step = .ok time := by
  unfold BpIndex.timeOfStep
  split_ifs
  · exact ⟨_, rfl⟩
  · obtain ⟨v, vs, hcons⟩ := exists_cons_of_ne_nil hvars
    rw [hcons]
    exact ⟨_, rfl⟩

theorem bpSeekToStep_isOk (showHiddenAttrs : Bool) {fh : BpIndex}
    (htime : fh.timeOfStep step = .ok time) (f : AdiosFile) :
    ∃ f', bpSeekToStep showHiddenAttrs fh step f = .ok f' ∧
      Seeked showHiddenAttrs fh time f f' ∧ f'.lastStep = f.lastStep := by
  have hok : ∃ f', bpSeekToStep showHiddenAttrs fh step f = .ok f' := by
    unfold bpSeekToStep
    rw [htime]
    exact ⟨_, rfl⟩
  obtain ⟨f', hseek⟩ := hok
  obtain ⟨time', htime', hs, -, hlast⟩ := seeked_of_bpSeekToStep hseek
  cases htime.symm.trans htime'
  exact ⟨f', hseek, hs, hlast⟩

theorem adiosReadBpAdvanceStep_of_foundStep (showHiddenAttrs : Bool) {fh : BpIndex}
    (hopened : f.fh.isSome) (hfree : f.Releasable) (hfound : f.foundStep poll = some (fh, step))
    (hvars : fh.varsRoot ≠ []) (htime : fh.timeOfStep step = .ok time) :
    ∃ f₁, adiosReadBpAdvanceStep showHiddenAttrs false poll f = .ok (0, f₁) ∧
      Seeked showHiddenAttrs fh time f f₁ := by
  obtain ⟨fh₀, hfh⟩ := Option.isSome_iff_exists.mp hopened
  unfold AdiosFile.foundStep at hfound
  unfold adiosReadBpAdvanceStep
  simp only [hfh, Bool.false_eq_true, if_false]
  split_ifs at hfound ⊢ with hstep
  · rw [hfh] at hfound
    cases hfound
    obtain ⟨f₁, hrelease⟩ := hfree.releaseStep
    cases releaseStep_eq hrelease
    obtain ⟨f₂, hseek, hs, -⟩ := bpSeekToStep_isOk showHiddenAttrs htime
      { f with
        varidMapping := [], varNamelist := none, nvars := 0, attrNamelist := none, nattrs := 0 }
    refine ⟨f₂, ?_, { hs with seeks := hs.seeks, internals := hs.internals }⟩
    rw [hrelease]
    show bpSeekToStep showHiddenAttrs fh (f.currentStep + 1) _ >>= _ = _
    rw [hseek]
    rfl
  · cases poll with
    | none => cases hfound
    | some fh' =>
      obtain ⟨rfl, rfl⟩ := Prod.mk.inj (Option.some.inj hfound)
      have hfree' : AdiosFile.Releasable
          { f with varidMapping := [], lastStep := intOfU32 fh'.tidxStop - 1 } := hfree
      obtain ⟨f₁, hrelease⟩ := hfree'.releaseStep
      obtain ⟨time₀, htime₀⟩ := BpIndex.timeOfStep_isOk hvars 0
      obtain ⟨f₂, hseek, hs, hlast⟩ := bpSeekToStep_isOk showHiddenAttrs
        htime₀ f₁
      obtain ⟨f₃, hrelease'⟩ := hs.releasable.releaseStep
      obtain ⟨f₄, hseek', hs', -⟩ := bpSeekToStep_isOk showHiddenAttrs
        htime f₃
      have hstep' : f₃.lastStep + 1 = intOfU32 fh'.tidxStop - 1 + 1 := by
        cases releaseStep_eq hrelease'
        cases releaseStep_eq hrelease
        show f₂.lastStep + 1 = _
        rw [hlast]
      refine ⟨f₄, ?_, ?_⟩
      · rw [← hfh]
        show Adios.releaseStep _ >>= _ = _
        rw [hrelease]
        show bpSeekToStep showHiddenAttrs fh' 0 f₁ >>= _ = _
        rw [hseek]
        show Adios.releaseStep f₂ >>= _ = _
        rw [hrelease']
        show bpSeekToStep showHiddenAttrs fh' (f₃.lastStep + 1) f₃ >>= _ = _
        rw [hstep', hseek']
        rfl
      · cases releaseStep_eq hrelease
        cases releaseStep_eq hrelease'
        exact { hs' with
          seeks := Nat.lt_trans hs.seeks hs'.seeks
          internals := hs'.internals.trans hs.internals }

theorem commonReadAdvanceStep_of_foundStep (showHiddenAttrs : Bool) {fh : BpIndex}
    (hopened : f.fh.isSome) (hfree : f.Releasable) (hfound : f.foundStep poll = some (fh, step))
    (hvars : fh.varsRoot ≠ []) (htime : fh.timeOfStep step = .ok time) :
    ∃ f₁, Seeked showHiddenAttrs fh time f f₁ ∧
      commonReadAdvanceStep showHiddenAttrs false poll f = .ok (0, (f₁.renew showHiddenAttrs fh
        ((fh.visibleVars time).map fun e => fullName e.1)).reenterView) := by
  obtain ⟨f₁, hadvance, hs⟩ := adiosReadBpAdvanceStep_of_foundStep
    showHiddenAttrs hopened hfree hfound hvars htime
  refine ⟨f₁, hs, ?_⟩
  unfold commonReadAdvanceStep
  rw [hadvance]
  simp only [bind, Except.bind, ne_eq, not_true_eq_false, if_false, hs.file, hs.updateInternals_eq]
  rfl

theorem commonReadAdvanceStep_of_not_foundStep (hopened : f.fh.isSome)
    (hfound : f.foundStep poll = none) :
    commonReadAdvanceStep showHiddenAttrs false poll f =
      .ok (errStepNotready, { f with fh := none }) := by
  obtain ⟨fh, hfh⟩ := Option.isSome_iff_exists.mp hopened
  unfold AdiosFile.foundStep at hfound
  unfold commonReadAdvanceStep adiosReadBpAdvanceStep
  simp only [hfh, Bool.false_eq_true, if_false]
  split_ifs at hfound ⊢ with hstep
  · rw [hfh] at hfound
    cases hfound
  · cases poll with
    | none => rfl
    | some fh' => cases hfound

/-- "we have the full view at this moment" -/
def AdiosFile.outOfView (f : AdiosFile) : AdiosFile :=
  { f with internals := { f.internals with groupInView := none } }

theorem AdiosFile.outOfView_eq (h : f.internals.groupInView = none) : f.outOfView = f := by
  unfold AdiosFile.outOfView
  rw [← h]

theorem AdiosFile.reenterView_of_none (h : f.internals.groupInView = none) :
    f.reenterView = f := by
  unfold AdiosFile.reenterView
  rw [h]

theorem AdiosFile.reenterView_of_some {g : Nat} (h : f.internals.groupInView = some g) :
    f.reenterView = (commonReadGroupView g f.outOfView).2 := by
  unfold AdiosFile.reenterView
  rw [h]
  rfl

theorem Seeked.viewInv {fh : BpIndex} {vars : List (IndexEntry × Nat)} {attrs : List IndexEntry}
    (hs : Seeked showHiddenAttrs fh time f f') (h : FileInv f vars attrs)
    (hvar : f.internals.groupVaridOffset = 0) (hattr : f.internals.groupAttridOffset = 0) :
    ViewInv showHiddenAttrs ⟨fh, time, none⟩ (f'.renew showHiddenAttrs fh
      ((fh.visibleVars time).map fun e => fullName e.1)).outOfView := by
  have hlists := hs.inv h
  -- what was saved before has been freed
  have hstale : ∀ {full}, (∀ p ∈ full, p.seek ≤ f.seeks) →
      ∀ p ∈ (full : Option NamelistPtr), p.seek ≠ f'.seeks := by
    intro full hfull p hp heq
    have := hfull p hp
    have := hs.seeks
    omega
  have hstaleVars : ∀ p ∈ f'.internals.fullVarnamelist, p.seek ≠ f'.seeks := by
    rw [hs.internals]
    exact hstale h.varList.fullSeek
  have hstaleAttrs : ∀ p ∈ f'.internals.fullAttrnamelist, p.seek ≠ f'.seeks := by
    rw [hs.internals]
    exact hstale h.attrList.fullSeek
  have hzero : f'.internals.groupVaridOffset = 0 ∧ f'.internals.groupAttridOffset = 0 := by
    rw [hs.internals]
    exact ⟨hvar, hattr⟩
  refine ⟨?_, rfl, rfl, rfl, ?_, ?_, ?_, nofun⟩
  · refine ⟨hlists.mapping, hlists.sorted, hlists.entries,
      { hlists.varList with outOfView := fun _ p hp => ?_ },
      { hlists.attrList with outOfView := fun _ p hp => ?_ }, hlists.hashtbl⟩
    · cases hs.varNamelist.symm.trans hp
      rfl
    · cases hs.attrNamelist.symm.trans hp
      rfl
  · exact ⟨⟨_, hs.varNamelist, rfl, hzero.1.symm⟩, fun p hp hseek => absurd hseek (hstaleVars p hp),
      fun _ => ⟨hs.nvars, hzero.1⟩, nofun⟩
  · exact ⟨⟨_, hs.attrNamelist, rfl, hzero.2.symm⟩,
      fun p hp hseek => absurd hseek (hstaleAttrs p hp), fun _ => ⟨hs.nattrs, hzero.2⟩, nofun⟩
  · rintro ⟨p, hp, hseek⟩
    exact absurd hseek (hstaleVars p hp)

theorem Seeked.viewInv_reenterView {fh : BpIndex} (hs : Seeked showHiddenAttrs fh time f f')
    (h : ViewInv showHiddenAttrs s f) (hvar : f.internals.groupVaridOffset = 0)
    (hattr : f.internals.groupAttridOffset = 0)
    (hfits : ∀ g, s.inView = some g → g < fh.groups.length → GroupFits showHiddenAttrs fh time g) :
    ViewInv showHiddenAttrs ⟨fh, time, s.inView.filter (· < fh.groups.length)⟩
      (f'.renew showHiddenAttrs fh
        ((fh.visibleVars time).map fun e => fullName e.1)).reenterView := by
  have hinv := hs.viewInv h.lists hvar hattr
  have hview : f'.internals.groupInView = s.inView := by rw [hs.internals, h.inView]
  cases hg : s.inView with
  | none =>
    have hnone : (f'.renew showHiddenAttrs fh
        ((fh.visibleVars time).map fun e => fullName e.1)).internals.groupInView = none :=
      hview.trans hg
    rw [AdiosFile.outOfView_eq hnone] at hinv
    rw [AdiosFile.reenterView_of_none hnone]
    exact hinv
  | some g =>
    have hsome : (f'.renew showHiddenAttrs fh
        ((fh.visibleVars time).map fun e => fullName e.1)).internals.groupInView = some g :=
      hview.trans hg
    rw [AdiosFile.reenterView_of_some hsome]
    have hinv' := hinv.groupView g
      (fun hgroup => hfits g hg (Int.ofNat_lt.mp hgroup.2)) nofun
    have hnext : ∀ f, ViewState.next ⟨fh, time, none⟩ f (.groupView g) =
        ⟨fh, time, (some g).filter (· < fh.groups.length)⟩ := by
      intro f
      have hgroup : ViewState.isGroup ⟨fh, time, none⟩ g ↔ g < fh.groups.length := by
        show 0 ≤ (g : Int) ∧ (g : Int) < fh.groups.length ↔ g < fh.groups.length
        omega
      have hne : (g : Int) ≠ -1 := by omega
      rw [ViewState.next_groupView, if_neg hne]
      simp only [hgroup, Int.toNat_natCast, Option.filter, decide_eq_true_eq]
      split_ifs <;> rfl
    rw [hnext] at hinv'
    exact hinv'

theorem ViewInv.advanceStep (h : ViewInv showHiddenAttrs s f) {last : Bool}
    {poll : Option BpIndex} (hfits : AdvanceFits showHiddenAttrs last poll s f) :
    ∃ retval f', commonReadAdvanceStep showHiddenAttrs last poll f = .ok (retval, f') ∧
      ViewInv showHiddenAttrs (s.next f (.advanceStep last poll)) f' := by
  cases hfits.notLast
  cases hfound : f.foundStep poll with
  | none =>
    rw [ViewState.next_of_not_foundStep hfound]
    exact ⟨_, _, commonReadAdvanceStep_of_not_foundStep hfits.opened hfound,
      { h with lists := { h.lists with entries := nofun } }⟩
  | some found =>
    obtain ⟨fh, step⟩ := found
    have hvars := hfits.varsRoot fh step hfound
    obtain ⟨hvar, hattr⟩ := hfits.noOffset (by rw [hfound]; rfl)
    obtain ⟨time, htime⟩ := BpIndex.timeOfStep_isOk hvars step
    obtain ⟨f₁, hs, hadvance⟩ := commonReadAdvanceStep_of_foundStep
      showHiddenAttrs hfits.opened (h.releasable hvar hattr) hfound hvars htime
    refine ⟨_, _, hadvance, ?_⟩
    rw [ViewState.next_of_foundStep hfound htime]
    exact hs.viewInv_reenterView h hvar hattr fun g hg => hfits.view fh step time g hfound htime hg

theorem ViewInv.call (h : ViewInv showHiddenAttrs s f) {call : ViewCall}
    (hfits : CallFits showHiddenAttrs s f call) :
    ∃ retval f', call.run showHiddenAttrs f = .ok (retval, f') ∧
      ViewInv showHiddenAttrs (s.next f call) f' := by
  cases call with
  | groupView groupid => exact ⟨_, _, rfl, h.groupView groupid hfits.1 hfits.2⟩
  | advanceStep last poll => exact h.advanceStep hfits

theorem ViewRun.inv (h : ViewRun showHiddenAttrs s f) : ViewInv showHiddenAttrs s f := by
  induction h with
  | @opened streaming fh time f htime hopen =>
    obtain ⟨time', f₁, htime', hs, rfl⟩ := commonReadOpen_eq hopen
    cases htime.symm.trans htime'
    have hnone : (f₁.renew showHiddenAttrs fh
        ((fh.visibleVars time).map fun e => fullName e.1)).internals.groupInView = none :=
      congrArg ReadInternals.groupInView hs.internals
    have hinv := hs.viewInv (.new fh) rfl rfl
    rw [AdiosFile.outOfView_eq hnone] at hinv
    exact hinv
  | call _ hfits hrun ih =>
    obtain ⟨retval, f', hrun', hinv⟩ := ih.call hfits
    cases hrun.symm.trans hrun'
    exact hinv

/-! ## Files that a view fits -/

def BpIndex.groupRank (fh : BpIndex) (e : IndexEntry) : Nat := (fh.grpid e).getD fh.groups.length

theorem BpIndex.grpid_eq_some_iff {fh : BpIndex} {g : Nat} (hg : g < fh.groups.length)
    (e : IndexEntry) : fh.grpid e = some g ↔ fh.groupRank e = g := by
  unfold BpIndex.groupRank
  cases h : fh.grpid e with
  | none =>
    show none = some g ↔ fh.groups.length = g
    simp only [reduceCtorEq, false_iff]
    omega
  | some i => simp

theorem BpIndex.take_countsPerGroup (fh : BpIndex) (es : List IndexEntry) {g : Nat}
    (hg : g ≤ fh.groups.length) : (fh.countsPerGroup es).take g =
      (List.range g).map fun i => es.countP fun e => fh.groupRank e = i ∧ true := by
  unfold BpIndex.countsPerGroup
  rw [← map_take, take_range, Nat.min_eq_left hg]
  refine map_congr_left fun i hi => countP_congr fun e _ => ?_
  have hlt : i < fh.groups.length := by
    have := mem_range.mp hi
    omega
  simp only [fh.grpid_eq_some_iff hlt, and_true]

theorem BpIndex.getD_countsPerGroup (fh : BpIndex) (es : List IndexEntry) {g : Nat}
    (hg : g < fh.groups.length) : (fh.countsPerGroup es).getD g 0 =
      es.countP fun e => fh.groupRank e = g ∧ true := by
  unfold BpIndex.countsPerGroup
  rw [getD_eq_getElem?_getD, getElem?_map, getElem?_range hg]
  refine countP_congr fun e _ => ?_
  simp only [fh.grpid_eq_some_iff hg, and_true]

section

variable (fh : BpIndex) (hsorted : fh.attrsRoot.Pairwise fun a b => fh.groupRank a ≤ fh.groupRank b)
  {g : Nat}

include fh hsorted

/-- In an index in the order of groups, the attributes that `adios_read_bp_get_groupinfo` looks at
for a group are the group's. -/
theorem BpIndex.nattrs_eq (hg : g < fh.groups.length) :
    (((fh.attrsRoot.map fullName).drop ((fh.countsPerGroup fh.attrsRoot).take g).sum).take
      ((fh.countsPerGroup fh.attrsRoot).getD g 0)).countP
        (fun name => showHiddenAttrs || !isHidden name) =
      fh.attrsRoot.countP fun a =>
        fh.groupRank a = g ∧ (showHiddenAttrs || !isHidden (fullName a)) := by
  have hstands := standsAt_of_sorted fh.groupRank hsorted (q := fun _ => true) (c := fun _ => true)
    (g := g) fun _ _ _ => rfl
  rw [filter_eq_self.mpr fun _ _ => rfl] at hstands
  rw [fh.take_countsPerGroup _ hg.le, fh.getD_countsPerGroup _ hg, ← map_drop, ← map_take,
    hstands.slice_eq, countP_map, countP_filter]
  refine countP_congr fun a _ => ?_
  simp only [Function.comp, Bool.and_eq_true, decide_eq_true_eq]
  exact and_comm

theorem BpIndex.take_nattrsPerGroup
    (hg : g ≤ fh.groups.length) : (fh.nattrsPerGroup showHiddenAttrs).take g =
      (List.range g).map fun i => fh.attrsRoot.countP fun a =>
        fh.groupRank a = i ∧ (showHiddenAttrs || !isHidden (fullName a)) := by
  unfold BpIndex.nattrsPerGroup
  rw [← map_take, take_range, Nat.min_eq_left hg]
  refine map_congr_left fun i hi => fh.nattrs_eq hsorted ?_
  have := mem_range.mp hi
  omega

theorem BpIndex.getD_nattrsPerGroup
    (hg : g < fh.groups.length) : (fh.nattrsPerGroup showHiddenAttrs).getD g 0 =
      fh.attrsRoot.countP fun a =>
        fh.groupRank a = g ∧ (showHiddenAttrs || !isHidden (fullName a)) := by
  unfold BpIndex.nattrsPerGroup
  rw [getD_eq_getElem?_getD, getElem?_map, getElem?_range hg]
  exact fh.nattrs_eq hsorted hg

end

theorem groupFits_of_sorted {fh : BpIndex} {g : Nat} (hg : g < fh.groups.length)
    (hvars : fh.varsRoot.Pairwise fun e e' => fh.groupRank e ≤ fh.groupRank e')
    (htime : ∀ e ∈ fh.varsRoot, fh.groupRank e ≤ g → atTime time e)
    (hattrs : fh.attrsRoot.Pairwise fun a b => fh.groupRank a ≤ fh.groupRank b) (hshown : ∀ a ∈
      fh.attrsRoot, fh.groupRank a ≤ g → ((showHiddenAttrs || !isHidden a.path.val) && atTime time
      a) = (showHiddenAttrs || !isHidden (fullName a))) :
    GroupFits showHiddenAttrs fh time g where
  vars := by
    have hzip : fh.varsRoot.zipIdx.map Prod.fst = fh.varsRoot := by simp
    have hsorted : fh.varsRoot.zipIdx.Pairwise fun e e' =>
        fh.groupRank e.1 ≤ fh.groupRank e'.1 := by
      rw [← hzip] at hvars
      exact (pairwise_map (R := fun e e' => fh.groupRank e ≤ fh.groupRank e')).mp hvars
    have hstands := standsAt_of_sorted (fun e : IndexEntry × Nat => fh.groupRank e.1) hsorted
      (q := fun e => atTime time e.1) (c := fun _ => true) (g := g) fun e he hle =>
        htime e.1 (by rw [← hzip]; exact mem_map_of_mem he) hle
    have hcount : ∀ i, fh.varsRoot.zipIdx.countP (fun e => fh.groupRank e.1 = i ∧ true) =
        fh.varsRoot.countP fun e => fh.groupRank e = i ∧ true := by
      intro i
      rw [← hzip, countP_map, hzip]
      rfl
    have hgroup : (fun e : IndexEntry × Nat => fh.grpid e.1 = some g) =
        fun e => fh.groupRank e.1 = g := funext fun e => propext (fh.grpid_eq_some_iff hg e.1)
    rw [map_congr_left fun i _ => hcount i, hcount g, ← hgroup] at hstands
    rw [fh.take_countsPerGroup _ hg.le, fh.getD_countsPerGroup _ hg]
    exact hstands
  attrs := by
    have hstands := standsAt_of_sorted fh.groupRank hattrs
      (q := fun a => (showHiddenAttrs || !isHidden a.path.val) && atTime time a)
      (c := fun a => showHiddenAttrs || !isHidden (fullName a)) (g := g) hshown
    rw [fh.take_nattrsPerGroup hattrs hg.le, fh.getD_nattrsPerGroup hattrs hg]
    simp only [fh.grpid_eq_some_iff hg]
    exact hstands

/-! ## Views show the group -/

theorem ViewRun.groupView (h : ViewRun showHiddenAttrs s f) (groupid : Int)
    (hfits : CallFits showHiddenAttrs s f (.groupView groupid)) :
    ViewRun showHiddenAttrs (s.next f (.groupView groupid)) (commonReadGroupView groupid f).2 :=
  h.call hfits rfl

/-- **Group views** show the variables and attributes of the group at the current step, and a reset
shows all of them, after any calls that fit; such a call does not fail. -/
theorem group_views_faithful (h : ViewRun showHiddenAttrs s f) :
    ViewFaithful showHiddenAttrs s f ∧ ∀ call, CallFits showHiddenAttrs s f call →
      ∃ retval f', call.run showHiddenAttrs f = .ok (retval, f') := by
  refine ⟨h.inv.faithful, fun call hfits => ?_⟩
  obtain ⟨retval, f', hrun, -⟩ := h.inv.call hfits
  exact ⟨retval, f', hrun⟩

theorem group_views_faithful_twoGroups : ∃ f, commonReadOpen false false twoGroups = .ok f ∧
    ViewFaithful false ⟨twoGroups, none, some 1⟩ (commonReadGroupView 1 f).2 ∧
    ViewFaithful false ⟨twoGroups, none, none⟩
      (commonReadGroupView (-1) (commonReadGroupView 1 f).2).2 := by
  refine ⟨_, rfl, ?_⟩
  have hopened := @ViewRun.opened false false twoGroups none _ rfl rfl
  have hfits : GroupFits false twoGroups none 1 :=
    groupFits_of_sorted (by decide) (by decide) (by decide) (by decide) (by decide)
  have hview := hopened.groupView 1 ⟨fun _ => hfits, nofun⟩
  have hreset := hview.groupView (-1) ⟨nofun, fun _ => ⟨_, rfl, rfl⟩⟩
  exact ⟨(group_views_faithful hview).1, (group_views_faithful hreset).1⟩

def twoGroupsSwapped : BpIndex := { twoGroups with varsRoot := twoGroups.varsRoot.reverse }

/-- A reset without a view leaves no variables, and the view of a group shows the variable that
stands in its place. -/
theorem not_group_views_faithful :
    (∃ f, commonReadOpen false false twoGroups = .ok f ∧
      ¬ViewFaithful false ⟨twoGroups, none, none⟩ (commonReadGroupView (-1) f).2) ∧
    ∃ f, commonReadOpen false false twoGroupsSwapped = .ok f ∧
      ¬ViewFaithful false ⟨twoGroupsSwapped, none, some 0⟩ (commonReadGroupView 0 f).2 := by
  refine ⟨⟨_, rfl, fun h => ?_⟩, ⟨_, rfl, fun h => ?_⟩⟩
  · exact absurd h.varids (by decide)
  · exact absurd h.varids (by decide)

end Adios
