import Adios.Flexpath.Writer
import Mathlib.Algebra.Order.Ring.Int
import Mathlib.Data.List.Basic

/-!
# Adios — the steps that readers have open

Beside the writer's state a run keeps which steps the readers have opened and not closed. The
accounting is right when the flags of the bridges say the same of the current step and the open
count is the number of the flags.
-/

namespace Adios.Flexpath

open List

structure Observed where
  fileData : FlexpathWriteFileData
  holds : List (Nat × Int)

def holdsAfter (readerStep : Int) (holds : List (Nat × Int)) : Event → List (Nat × Int)
  | .handle (.dataFlush _ p) => (p, readerStep) :: holds
  | .handle (.open p step _) => (p, step) :: holds
  | .handle (.close p step _) => holds.filter (· ≠ (p, step))
  | _ => holds

def observe : Runs.Step Observed Event (List Submitted) Fault := fun o e =>
  (handleEvent o.fileData e).map fun next =>
    next.map fun next => (⟨next.1, holdsAfter o.fileData.readerStep o.holds e⟩, next.2)

def ControlMsg.processId : ControlMsg → Nat
  | .var _ p => p
  | .dataFlush _ p => p
  | .open p _ _ => p
  | .close p _ _ => p

def openedAt (bridges : List FlexpathStone) (p : Nat) : Bool :=
  (bridges[p]?.map FlexpathStone.opened).getD false

/-! ## What the messages should do -/

structure Initial (o : Observed) : Prop where
  closed : ∀ p, openedAt o.fileData.bridges p = false
  openCount : o.fileData.openCount = 0
  numBridges : o.fileData.bridges.length < 2 ^ 31
  holds : o.holds = []

/-- The event can happen: nothing has to be waited for, messages come from readers that have a
bridge, and a reader closes a step that it opened. -/
def Happens (o : Observed) (e : Event) : Prop :=
  handleEvent o.fileData e ≠ .ok none ∧
    ∀ msg, e = .handle msg → msg.processId < o.fileData.bridges.length ∧
      ∀ p step condition, msg = .close p step condition → (p, step) ∈ o.holds

/-- The open count is that of the flags, and these are of the readers that have the current step
open, also of those that opened it ahead. -/
structure Accounting (o : Observed) : Prop where
  openCount : o.fileData.openCount = (o.fileData.bridges.countP FlexpathStone.opened : Nat)
  opened : ∀ p, openedAt o.fileData.bridges p = true ↔ (p, o.fileData.readerStep) ∈ o.holds

def LastClose (o : Observed) (e : Event) : Prop :=
  ∃ p condition, e = .handle (.close p o.fileData.readerStep condition) ∧
    ∀ q, (q, o.fileData.readerStep) ∈ o.holds → q = p

def published : Event → List Buffer
  | .publish buffer => [buffer]
  | .handle _ => []

/-- The data queue loses its oldest buffer and the step advances by one exactly when the last reader
closes the step; readers that open the current step are acknowledged, and those that opened it
ahead when it becomes the current one. -/
structure StepRight (o : Observed) (e : Event) (o' : Observed) (out : List Submitted) : Prop where
  advance : LastClose o e → o.fileData.dataQueue ≠ [] ∧
    o'.fileData.readerStep = o.fileData.readerStep + 1 ∧
      o'.fileData.dataQueue = o.fileData.dataQueue.dropLast
  stay : ¬LastClose o e → o'.fileData.readerStep = o.fileData.readerStep ∧
    o'.fileData.dataQueue = published e ++ o.fileData.dataQueue
  ackOpen : ∀ p condition, e = .handle (.open p o.fileData.readerStep condition) →
    .ack (p + 1) o.fileData.readerStep condition ∈ out
  ackAhead : LastClose o e → ∀ p, (p, o'.fileData.readerStep) ∈ o.holds →
    ∃ condition, .ack (p + 1) o'.fileData.readerStep condition ∈ out

def EventRight (o : Observed) (e : Event) : Prop :=
  (∀ fault, observe o e ≠ .error fault) ∧
    ∀ o' out, observe o e = .ok (some (o', out)) → StepRight o e o' out ∧ Accounting o'

/-- An open message of the current step finds the bridge closed; a close message is about the
current step, and when it is the last one, nobody opened the next step ahead and the step can be
counted. -/
def Admissible (o : Observed) : Event → Prop
  | .handle (.open p step _) =>
    ¬(step = o.fileData.readerStep ∧ openedAt o.fileData.bridges p = true)
  | .handle (.close p step _) =>
    step = o.fileData.readerStep ∧
      ((∀ q, (q, o.fileData.readerStep) ∈ o.holds → q = p) →
        (∀ q, (q, o.fileData.readerStep + 1) ∉ o.holds) ∧ o.fileData.readerStep ≠ 2 ^ 31 - 1)
  | _ => True

/-! ## Flags -/

variable {bridges : List FlexpathStone} {e : Event} {out : List Submitted} {o' : Observed}

theorem openedAt_set {p : Nat} (hp : p < bridges.length) (bridge : FlexpathStone) (q : Nat) :
    openedAt (bridges.set p bridge) q = if q = p then bridge.opened else openedAt bridges q := by
  unfold openedAt
  by_cases hq : q = p
  · rw [if_pos hq, hq, getElem?_set_self hp]
    rfl
  · rw [if_neg hq, getElem?_set_ne (Ne.symm hq)]

theorem openedAt_of_getElem? {p : Nat} {bridge : FlexpathStone} (h : bridges[p]? = some bridge) :
    openedAt bridges p = bridge.opened := by
  rw [openedAt, h]
  rfl

theorem countP_opened_set {p : Nat} {bridge : FlexpathStone} (h : bridges[p]? = some bridge)
    (bridge' : FlexpathStone) :
    (bridges.set p bridge').countP FlexpathStone.opened + bridge.opened.toNat =
      bridges.countP FlexpathStone.opened + bridge'.opened.toNat := by
  obtain ⟨hp, hget⟩ := List.getElem?_eq_some_iff.mp h
  have hpos : bridge.opened.toNat ≤ bridges.countP FlexpathStone.opened := by
    cases hopened : bridge.opened with
    | false => exact Nat.zero_le _
    | true => exact countP_pos_iff.mpr ⟨bridge, mem_of_getElem? h, hopened⟩
  rw [countP_set hp, hget]
  cases hopened : bridge.opened <;> cases bridge'.opened <;>
    simp only [hopened, Bool.toNat_true, Bool.toNat_false, if_true, if_false,
      Bool.false_eq_true] at hpos ⊢ <;> omega

theorem countP_opened_eq_zero :
    bridges.countP FlexpathStone.opened = 0 ↔ ∀ p, openedAt bridges p = false := by
  rw [countP_eq_zero]
  constructor
  · intro h p
    cases hget : bridges[p]? with
    | none =>
      rw [openedAt, hget]
      rfl
    | some bridge =>
      rw [openedAt_of_getElem? hget]
      exact Bool.eq_false_iff.mpr (h bridge (mem_of_getElem? hget))
  · intro h bridge hmem
    obtain ⟨p, hp⟩ := mem_iff_getElem?.mp hmem
    rw [← openedAt_of_getElem? hp, h p]
    exact Bool.false_ne_true

/-! ## Events -/

theorem eventRight_iff {o : Observed} {fileData : FlexpathWriteFileData}
    (h : handleEvent o.fileData e = .ok (some (fileData, out))) :
    EventRight o e ↔
      StepRight o e ⟨fileData, holdsAfter o.fileData.readerStep o.holds e⟩ out ∧
        Accounting ⟨fileData, holdsAfter o.fileData.readerStep o.holds e⟩ := by
  have hobserve : observe o e =
      .ok (some (⟨fileData, holdsAfter o.fileData.readerStep o.holds e⟩, out)) := by
    rw [observe, h]
    rfl
  unfold EventRight
  rw [hobserve]
  constructor
  · exact fun hright => hright.2 _ _ rfl
  · refine fun hright => ⟨nofun, fun o' out' heq => ?_⟩
    cases heq
    exact hright

theorem not_eventRight_of_fault {o : Observed} {fault : Fault}
    (h : handleEvent o.fileData e = .error fault) : ¬EventRight o e := by
  rintro ⟨hfault, -⟩
  refine hfault fault ?_
  rw [observe, h]
  rfl

theorem stepRight_of_stay {o : Observed} (hnot : ¬LastClose o e)
    (hstep : o'.fileData.readerStep = o.fileData.readerStep)
    (hqueue : o'.fileData.dataQueue = published e ++ o.fileData.dataQueue) (hack : ∀ p condition, e
      = .handle (.open p o.fileData.readerStep condition) → .ack (p + 1) o.fileData.readerStep
      condition ∈ out) : StepRight o e o' out where
  advance h := absurd h hnot
  stay _ := ⟨hstep, hqueue⟩
  ackOpen := hack
  ackAhead h := absurd h hnot

theorem Accounting.congr {o : Observed} (h : Accounting o)
    (hcount : o'.fileData.openCount = o.fileData.openCount) (hbridges : o'.fileData.bridges.countP
      FlexpathStone.opened = o.fileData.bridges.countP FlexpathStone.opened)
    (hopened : ∀ p, openedAt o'.fileData.bridges p = openedAt o.fileData.bridges p)
    (hholds : ∀ p, (p, o'.fileData.readerStep) ∈ o'.holds ↔ (p, o.fileData.readerStep) ∈ o.holds) :
    Accounting o' where
  openCount := by rw [hcount, hbridges, h.openCount]
  opened p := by rw [hopened, hholds, h.opened]

theorem Accounting.set_opened {o : Observed} (h : Accounting o) {p : Nat} {bridge : FlexpathStone}
    (hbridge : o.fileData.bridges[p]? = some bridge) (hclosed : bridge.opened = false)
    {bridge' : FlexpathStone} (hopened : bridge'.opened = true)
    (hbridges : o'.fileData.bridges = o.fileData.bridges.set p bridge')
    (hcount : o'.fileData.openCount = o.fileData.openCount + 1)
    (hstep : o'.fileData.readerStep = o.fileData.readerStep)
    (hholds : o'.holds = (p, o.fileData.readerStep) :: o.holds) : Accounting o' where
  openCount := by
    have hset := countP_opened_set hbridge bridge'
    rw [hclosed, hopened, Bool.toNat_false, Bool.toNat_true] at hset
    rw [hcount, hbridges, h.openCount]
    omega
  opened q := by
    have hp : p < o.fileData.bridges.length := (List.getElem?_eq_some_iff.mp hbridge).1
    rw [hbridges, openedAt_set hp, hstep, hholds, mem_cons, Prod.mk.injEq]
    by_cases hq : q = p
    · simp [hq, hopened]
    · simp [hq, h.opened]

section

variable {o : Observed} (h : Accounting o)

include h

theorem incrInt_openCount
    (hlength : o.fileData.bridges.length < 2 ^ 31) {p : Nat} {bridge : FlexpathStone}
    (hbridge : o.fileData.bridges[p]? = some bridge) (hclosed : bridge.opened = false) :
    incrInt o.fileData.openCount = .ok (o.fileData.openCount + 1) := by
  have hset := countP_opened_set hbridge { bridge with opened := true }
  have hle := countP_le_length (p := FlexpathStone.opened)
    (l := o.fileData.bridges.set p { bridge with opened := true })
  rw [hclosed, Bool.toNat_false] at hset
  simp only [Bool.toNat_true, length_set] at hset hle
  have hcount := h.openCount
  rw [incrInt, if_neg]
  omega

theorem eventRight_publish {buffer : Buffer}
    (hhappens : Happens o (.publish buffer)) : EventRight o (.publish buffer) := by
  have hnot : ¬LastClose o (.publish buffer) := by
    rintro ⟨p, condition, he, -⟩
    cases he
  have hwait := hhappens.1
  unfold handleEvent at hwait
  split_ifs at hwait with hfull
  · exact absurd rfl hwait
  · have hevent : handleEvent o.fileData (.publish buffer) =
        .ok (some ({ o.fileData with dataQueue := buffer :: o.fileData.dataQueue }, [])) :=
      if_neg hfull
    refine (eventRight_iff hevent).mpr ⟨?_, ?_⟩
    · exact stepRight_of_stay hnot rfl rfl nofun
    · exact h.congr rfl rfl (fun _ => rfl) fun _ => Iff.rfl

theorem eventRight_var (varName : String) (p : Nat) :
    EventRight o (.handle (.var varName p)) := by
  have hnot : ¬LastClose o (.handle (.var varName p)) := by
    rintro ⟨q, condition, he, -⟩
    cases he
  have hevent : handleEvent o.fileData (.handle (.var varName p)) =
      .ok (some (processVarMsg o.fileData varName p, [])) := rfl
  refine (eventRight_iff hevent).mpr ⟨?_, ?_⟩
  · exact stepRight_of_stay hnot rfl rfl nofun
  · exact h.congr rfl rfl (fun _ => rfl) fun _ => Iff.rfl

theorem eventRight_dataFlush (hlength : o.fileData.bridges.length < 2 ^ 31) {id : Int} {p : Nat}
    (hhappens : Happens o (.handle (.dataFlush id p))) :
    EventRight o (.handle (.dataFlush id p)) := by
  have hnot : ¬LastClose o (.handle (.dataFlush id p)) := by
    rintro ⟨q, condition, he, -⟩
    cases he
  obtain ⟨hwait, hmsg⟩ := hhappens
  have hp : p < o.fileData.bridges.length := (hmsg _ rfl).1
  have hbridge := getElem?_eq_getElem hp
  generalize o.fileData.bridges[p] = bridge at hbridge
  cases hdata : o.fileData.dataQueue.getLast? with
  | none =>
    refine absurd ?_ hwait
    show controlThread o.fileData (.dataFlush id p) = .ok none
    simp only [controlThread, hdata]
  | some dataNode =>
    have hstart : handleEvent o.fileData (.handle (.dataFlush id p)) =
        (processDataFlush o.fileData id p dataNode).map some := by
      show controlThread o.fileData (.dataFlush id p) = _
      simp only [controlThread, hdata]
    cases hopened : bridge.opened with
    | true =>
      have hevent : handleEvent o.fileData (.handle (.dataFlush id p)) =
          .ok (some (o.fileData, [.data p id (copyBuffer o.fileData dataNode p)])) := by
        rw [hstart, processDataFlush, hbridge]
        simp only [hopened]
        rfl
      refine (eventRight_iff hevent).mpr ⟨stepRight_of_stay hnot rfl rfl nofun, ?_⟩
      have hmem : (p, o.fileData.readerStep) ∈ o.holds := by
        rw [← h.opened, openedAt_of_getElem? hbridge, hopened]
      refine h.congr rfl rfl (fun _ => rfl) fun q => ?_
      simp only [holdsAfter, mem_cons, Prod.mk.injEq, and_true]
      refine ⟨?_, Or.inr⟩
      rintro (rfl | hq)
      · exact hmem
      · exact hq
    | false =>
      have hevent : handleEvent o.fileData (.handle (.dataFlush id p)) =
          .ok (some ({ o.fileData with
            bridges := o.fileData.bridges.set p { bridge with opened := true }
            openCount := o.fileData.openCount + 1 },
            [.data p id (copyBuffer o.fileData dataNode p)])) := by
        rw [hstart, processDataFlush, hbridge]
        simp only [hopened, incrInt_openCount h hlength hbridge hopened]
        rfl
      refine (eventRight_iff hevent).mpr ⟨stepRight_of_stay hnot rfl rfl nofun, ?_⟩
      exact h.set_opened hbridge hopened rfl rfl rfl rfl rfl

theorem eventRight_open_iff
    (hlength : o.fileData.bridges.length < 2 ^ 31) {p : Nat} {step condition : Int}
    (hp : p < o.fileData.bridges.length) :
    EventRight o (.handle (.open p step condition)) ↔
      Admissible o (.handle (.open p step condition)) := by
  have hnot : ¬LastClose o (.handle (.open p step condition)) := by
    rintro ⟨q, condition, he, -⟩
    cases he
  have hbridge := getElem?_eq_getElem hp
  generalize o.fileData.bridges[p] = bridge at hbridge
  have hflag : openedAt o.fileData.bridges p = bridge.opened := openedAt_of_getElem? hbridge
  have hstart : handleEvent o.fileData (.handle (.open p step condition)) =
      (processOpenMsg o.fileData p step condition).map some := rfl
  unfold processOpenMsg at hstart
  simp only [hbridge] at hstart
  show _ ↔ ¬(step = o.fileData.readerStep ∧ openedAt o.fileData.bridges p = true)
  rw [hflag]
  by_cases hstep : step = o.fileData.readerStep
  · rw [if_pos hstep] at hstart
    cases hopened : bridge.opened with
    | true =>
      -- the count goes up, the flags stay
      refine iff_of_false (fun hright => ?_) (by simp [hstep])
      cases hincr : incrInt o.fileData.openCount with
      | error fault =>
        rw [hincr] at hstart
        exact not_eventRight_of_fault hstart hright
      | ok openCount =>
        rw [hincr] at hstart
        have hcount := ((eventRight_iff hstart).mp hright).2.openCount
        have hset := countP_opened_set hbridge
          { bridge with step := step, condition := condition, created := true, opened := true }
        have hnow := h.openCount
        unfold incrInt at hincr
        split_ifs at hincr
        cases hincr
        rw [hopened] at hset
        simp only [Bool.toNat_true] at hset hcount
        omega
    | false =>
      refine iff_of_true ?_ (by simp)
      rw [incrInt_openCount h hlength hbridge hopened] at hstart
      refine (eventRight_iff hstart).mpr ⟨stepRight_of_stay hnot rfl rfl ?_, ?_⟩
      · intro q condition' he
        cases he
        exact mem_singleton_self _
      · refine h.set_opened hbridge hopened rfl rfl rfl rfl ?_
        show (p, step) :: o.holds = _
        rw [hstep]
  · refine iff_of_true ?_ fun hboth => hstep hboth.1
    rw [if_neg hstep] at hstart
    refine (eventRight_iff hstart).mpr ⟨stepRight_of_stay hnot rfl rfl ?_, ?_⟩
    · intro q condition' he
      cases he
      exact absurd rfl hstep
    · refine h.congr rfl ?_ (fun q => ?_) fun q => ?_
      · have hset := countP_opened_set hbridge
          { bridge with step := step, condition := condition, created := true }
        exact Nat.add_right_cancel hset
      · show openedAt (o.fileData.bridges.set p _) q = _
        rw [openedAt_set hp]
        split_ifs with hq
        · rw [hq, hflag]
        · rfl
      · show (q, o.fileData.readerStep) ∈ (p, step) :: o.holds ↔ _
        simp [Ne.symm hstep]

end

def closeBridge (fileData : FlexpathWriteFileData) (p : Nat) (bridge : FlexpathStone)
    (condition : Int) : FlexpathWriteFileData :=
  { fileData with
    openCount := fileData.openCount - 1
    bridges := fileData.bridges.set p { bridge with opened := false, condition := condition } }

theorem handleEvent_close_cases {o : Observed} (h : Accounting o) {p : Nat} {step condition : Int}
    {bridge : FlexpathStone} (hbridge : o.fileData.bridges[p]? = some bridge)
    (hwait : handleEvent o.fileData (.handle (.close p step condition)) ≠ .ok none) :
    (o.fileData.openCount ≠ 1 ∧ handleEvent o.fileData (.handle (.close p step condition)) =
      .ok (some (closeBridge o.fileData p bridge condition,
        [.ack (p + 1) o.fileData.readerStep condition]))) ∨
    (o.fileData.openCount = 1 ∧ o.fileData.dataQueue ≠ [] ∧
      ((o.fileData.readerStep = 2 ^ 31 - 1 ∧ ∃ fault,
        handleEvent o.fileData (.handle (.close p step condition)) = .error fault) ∨
      (o.fileData.readerStep ≠ 2 ^ 31 - 1 ∧
        handleEvent o.fileData (.handle (.close p step condition)) =
          .ok (some ({ closeBridge o.fileData p bridge condition with
            dataQueue := o.fileData.dataQueue.dropLast
            readerStep := o.fileData.readerStep + 1 },
            [.dropEvgroup o.fileData.readerStep,
              .ack (p + 1) (o.fileData.readerStep + 1) condition]))))) := by
  have hdecr : decrInt o.fileData.openCount = .ok (o.fileData.openCount - 1) := by
    have hcount := h.openCount
    rw [decrInt, if_neg]
    omega
  have hstart : handleEvent o.fileData (.handle (.close p step condition)) =
      (dropStep (closeBridge o.fileData p bridge condition)).map fun dropped =>
        dropped.map fun next =>
          (next.1, next.2 ++ [.ack (p + 1) next.1.readerStep condition]) := by
    show processCloseMsg o.fileData p condition = _
    unfold closeBridge
    simp only [processCloseMsg, hdecr, hbridge, bind, Except.bind]
    split <;> rename_i hdrop <;> rw [hdrop] <;> rfl
  rw [hstart] at hwait ⊢
  unfold dropStep at hwait ⊢
  by_cases hlast : o.fileData.openCount = 1
  · have hzero : ¬(closeBridge o.fileData p bridge condition).openCount ≠ 0 := by
      show ¬o.fileData.openCount - 1 ≠ 0
      omega
    rw [if_neg hzero] at hwait ⊢
    refine .inr ⟨hlast, ?_⟩
    by_cases hqueue : (closeBridge o.fileData p bridge condition).dataQueue = []
    · rw [if_pos hqueue] at hwait
      exact absurd rfl hwait
    · rw [if_neg hqueue]
      refine ⟨hqueue, ?_⟩
      by_cases hmax : o.fileData.readerStep = 2 ^ 31 - 1
      · refine .inl ⟨hmax, .signedOverflow, ?_⟩
        have hincr : incrInt (closeBridge o.fileData p bridge condition).readerStep =
            .error .signedOverflow := if_pos hmax
        rw [hincr]
        rfl
      · refine .inr ⟨hmax, ?_⟩
        have hincr : incrInt (closeBridge o.fileData p bridge condition).readerStep =
            .ok (o.fileData.readerStep + 1) := if_neg hmax
        rw [hincr]
        rfl
  · have hne : (closeBridge o.fileData p bridge condition).openCount ≠ 0 := by
      show o.fileData.openCount - 1 ≠ 0
      omega
    rw [if_pos hne]
    exact .inl ⟨hlast, rfl⟩

section

variable {o : Observed} (h : Accounting o) {p : Nat} (hp : openedAt o.fileData.bridges p = true)
  {bridge : FlexpathStone} (hbridge : o.fileData.bridges[p]? = some bridge) (condition : Int)

include h hp hbridge condition

theorem Accounting.openCount_eq_one_iff :
    (o.fileData.openCount = 1 ↔
      ∀ q, openedAt (closeBridge o.fileData p bridge condition).bridges q = false) ∧
    (o.fileData.openCount = 1 ↔ ∀ q, (q, o.fileData.readerStep) ∈ o.holds → q = p) := by
  have hlt := (List.getElem?_eq_some_iff.mp hbridge).1
  have hset := countP_opened_set hbridge { bridge with opened := false, condition := condition }
  rw [openedAt_of_getElem? hbridge] at hp
  rw [hp] at hset
  simp only [Bool.toNat_true, Bool.toNat_false] at hset
  have hzero : o.fileData.openCount = 1 ↔
      ∀ q, openedAt (closeBridge o.fileData p bridge condition).bridges q = false := by
    rw [← countP_opened_eq_zero, h.openCount]
    show _ ↔ (o.fileData.bridges.set p _).countP FlexpathStone.opened = 0
    omega
  refine ⟨hzero, hzero.trans ⟨fun hall q hq => ?_, fun hall q => ?_⟩⟩
  · have hflag := hall q
    rw [closeBridge, openedAt_set hlt] at hflag
    by_contra hne
    rw [if_neg hne, ← Bool.not_eq_true, h.opened] at hflag
    exact hflag hq
  · rw [closeBridge, openedAt_set hlt]
    split_ifs with hq
    · rfl
    · rw [← Bool.not_eq_true, h.opened]
      exact fun hmem => hq (hall q hmem)

theorem Accounting.close_of_stay :
    Accounting ⟨closeBridge o.fileData p bridge condition,
      o.holds.filter (· ≠ (p, o.fileData.readerStep))⟩ where
  openCount := by
    have hset := countP_opened_set hbridge { bridge with opened := false, condition := condition }
    rw [openedAt_of_getElem? hbridge] at hp
    rw [hp] at hset
    simp only [Bool.toNat_true, Bool.toNat_false] at hset
    have hcount := h.openCount
    show o.fileData.openCount - 1 = ((o.fileData.bridges.set p _).countP FlexpathStone.opened : Nat)
    omega
  opened q := by
    have hlt := (List.getElem?_eq_some_iff.mp hbridge).1
    show openedAt (o.fileData.bridges.set p _) q = true ↔ (q, o.fileData.readerStep) ∈ _
    rw [openedAt_set hlt]
    by_cases hq : q = p
    · simp [hq]
    · simp [hq, h.opened]

end

theorem eventRight_close_iff {o : Observed} (h : Accounting o) {p : Nat} {step condition : Int}
    (hhappens : Happens o (.handle (.close p step condition))) :
    EventRight o (.handle (.close p step condition)) ↔
      Admissible o (.handle (.close p step condition)) := by
  obtain ⟨hwait, hmsg⟩ := hhappens
  obtain ⟨hlt, hopen⟩ := hmsg _ rfl
  have hholds : (p, step) ∈ o.holds := hopen p step condition rfl
  have hlt' : p < o.fileData.bridges.length := hlt
  have hbridge := getElem?_eq_getElem hlt'
  generalize o.fileData.bridges[p] = bridge at hbridge
  have hcases := handleEvent_close_cases h hbridge hwait
  by_cases hstep : step = o.fileData.readerStep
  · subst hstep
    have hflag := (h.opened p).mpr hholds
    obtain ⟨hclosed, hone⟩ := h.openCount_eq_one_iff hflag hbridge condition
    have hlast : LastClose o (.handle (.close p o.fileData.readerStep condition)) ↔
        o.fileData.openCount = 1 := by
      rw [hone]
      constructor
      · rintro ⟨q, condition', he, hall⟩
        cases he
        exact hall
      · exact fun hall => ⟨p, condition, rfl, hall⟩
    have hadmissible : Admissible o (.handle (.close p o.fileData.readerStep condition)) ↔
        (o.fileData.openCount = 1 → (∀ q, (q, o.fileData.readerStep + 1) ∉ o.holds) ∧
          o.fileData.readerStep ≠ 2 ^ 31 - 1) := by
      rw [hone]
      exact ⟨fun hboth => hboth.2, fun hboth => ⟨rfl, hboth⟩⟩
    rw [hadmissible]
    obtain ⟨hne, hevent⟩ | ⟨heq, hqueue, ⟨hmax, fault, hevent⟩ | ⟨hmax, hevent⟩⟩ := hcases
    · -- somebody else has the step open
      refine iff_of_true ?_ fun heq => absurd heq hne
      refine (eventRight_iff hevent).mpr ⟨?_, h.close_of_stay hflag hbridge condition⟩
      exact stepRight_of_stay (fun hl => hne (hlast.mp hl)) rfl rfl nofun
    · refine iff_of_false (not_eventRight_of_fault hevent) fun hall => ?_
      exact (hall heq).2 hmax
    · -- the step ends: the flags are clear, and nobody may have the next step open
      rw [eventRight_iff hevent]
      constructor
      · rintro ⟨-, haccounting⟩ -
        refine ⟨fun q hq => ?_, hmax⟩
        have hcleared := hclosed.mp heq q
        have hmem := (haccounting.opened q).mpr (by simp [holdsAfter, hq])
        have hmem' : openedAt (closeBridge o.fileData p bridge condition).bridges q = true := hmem
        rw [hcleared] at hmem'
        exact Bool.false_ne_true hmem'
      · intro hall
        obtain ⟨hahead, -⟩ := hall heq
        refine ⟨⟨fun _ => ⟨hqueue, rfl, rfl⟩, fun hnot => absurd (hlast.mpr heq) hnot, nofun,
          fun _ q hq => absurd hq (hahead q)⟩, ?_, fun q => ?_⟩
        · show o.fileData.openCount - 1 =
            ((closeBridge o.fileData p bridge condition).bridges.countP FlexpathStone.opened : Nat)
          rw [countP_opened_eq_zero.mpr (hclosed.mp heq), heq]
          rfl
        · refine iff_of_false ?_ ?_
          · rw [Bool.not_eq_true]
            exact hclosed.mp heq q
          · exact fun hmem => hahead q (mem_of_mem_filter hmem)
  · -- the flag of the current step is cleared for another step
    refine iff_of_false (fun hright => ?_) fun hadmissible => hstep hadmissible.1
    have hnot : ¬LastClose o (.handle (.close p step condition)) := by
      rintro ⟨q, condition', he, -⟩
      cases he
      exact hstep rfl
    obtain ⟨hne, hevent⟩ | ⟨heq, hqueue, ⟨hmax, fault, hevent⟩ | ⟨hmax, hevent⟩⟩ := hcases
    · have haccounting := ((eventRight_iff hevent).mp hright).2
      have hset := countP_opened_set hbridge { bridge with opened := false, condition := condition }
      have hcount := haccounting.openCount
      have hbefore := h.openCount
      simp only [closeBridge] at hcount
      cases hopened : bridge.opened with
      | false =>
        rw [hopened] at hset
        simp only [Bool.toNat_false] at hset
        omega
      | true =>
        have hmem := (h.opened p).mp (by rw [openedAt_of_getElem? hbridge, hopened])
        have hafter := (haccounting.opened p).mpr (by
          simp only [holdsAfter, mem_filter, closeBridge]
          exact ⟨hmem, by simp [Ne.symm hstep]⟩)
        simp only [closeBridge, openedAt_set hlt', if_true] at hafter
        exact Bool.false_ne_true hafter
    · exact not_eventRight_of_fault hevent hright
    · have hstay := (((eventRight_iff hevent).mp hright).1.stay hnot).1
      simp only at hstay
      omega

/-! ## Runs -/

theorem Initial.accounting {o : Observed} (h : Initial o) : Accounting o where
  openCount := by rw [h.openCount, countP_opened_eq_zero.mpr h.closed, Int.natCast_zero]
  opened p := by rw [h.closed, h.holds]; simp

section

variable {fileData fileData' : FlexpathWriteFileData}

variable {out : List Submitted}

theorem length_bridges_processDataFlush {id : Int} {p : Nat} {dataNode : Buffer}
    (h : processDataFlush fileData id p dataNode = .ok (fileData', out)) :
    fileData'.bridges.length = fileData.bridges.length := by
  unfold processDataFlush at h
  simp only at h
  cases hbridge : fileData.bridges[p]? with
  | none =>
    rw [hbridge] at h
    cases h
  | some bridge =>
    rw [hbridge] at h
    simp only at h
    split_ifs at h
    · cases h
      rfl
    · obtain ⟨openCount, -, h⟩ := exists_of_bind_eq_ok h
      cases h
      exact length_set

theorem length_bridges_processOpenMsg {p : Nat} {step condition : Int}
    (h : processOpenMsg fileData p step condition = .ok (fileData', out)) :
    fileData'.bridges.length = fileData.bridges.length := by
  unfold processOpenMsg at h
  cases hbridge : fileData.bridges[p]? with
  | none =>
    rw [hbridge] at h
    cases h
  | some bridge =>
    rw [hbridge] at h
    simp only at h
    split_ifs at h
    · obtain ⟨openCount, -, h⟩ := exists_of_bind_eq_ok h
      cases h
      exact length_set
    · cases h
      exact length_set

theorem bridges_dropStep (h : dropStep fileData = .ok (some (fileData', out))) :
    fileData'.bridges = fileData.bridges := by
  unfold dropStep at h
  split_ifs at h
  · cases h
    rfl
  · cases h
  · obtain ⟨readerStep, -, h⟩ := exists_of_bind_eq_ok h
    cases h
    rfl

theorem length_bridges_processCloseMsg {p : Nat} {condition : Int}
    (h : processCloseMsg fileData p condition = .ok (some (fileData', out))) :
    fileData'.bridges.length = fileData.bridges.length := by
  obtain ⟨openCount, -, h⟩ := exists_of_bind_eq_ok h
  cases hbridge : fileData.bridges[p]? with
  | none =>
    rw [hbridge] at h
    cases h
  | some bridge =>
    rw [hbridge] at h
    obtain ⟨dropped, hdrop, h⟩ := exists_of_bind_eq_ok h
    cases dropped with
    | none => cases h
    | some dropped =>
      cases h
      rw [bridges_dropStep hdrop]
      exact length_set

theorem length_bridges_handleEvent {e : Event}
    (h : handleEvent fileData e = .ok (some (fileData', out))) :
    fileData'.bridges.length = fileData.bridges.length := by
  cases e with
  | publish buffer =>
    unfold handleEvent at h
    split_ifs at h
    · cases h
    · cases h
      rfl
  | handle msg =>
    cases msg with
    | var varName p =>
      cases h
      rfl
    | dataFlush id p =>
      unfold handleEvent controlThread at h
      simp only at h
      cases hdata : fileData.dataQueue.getLast? with
      | none =>
        rw [hdata] at h
        cases h
      | some dataNode =>
        rw [hdata] at h
        simp only at h
        cases hflush : processDataFlush fileData id p dataNode with
        | error fault =>
          rw [hflush] at h
          cases h
        | ok next =>
          rw [hflush] at h
          cases h
          exact length_bridges_processDataFlush hflush
    | «open» p step condition =>
      unfold handleEvent controlThread at h
      simp only at h
      cases hopen : processOpenMsg fileData p step condition with
      | error fault =>
        rw [hopen] at h
        cases h
      | ok next =>
        rw [hopen] at h
        cases h
        exact length_bridges_processOpenMsg hopen
    | close p step condition => exact length_bridges_processCloseMsg h

end

theorem eventRight_iff_admissible {o : Observed} (h : Accounting o)
    (hlength : o.fileData.bridges.length < 2 ^ 31) (hhappens : Happens o e) :
    EventRight o e ↔ Admissible o e := by
  cases e with
  | publish buffer => exact iff_of_true (eventRight_publish h hhappens) trivial
  | handle msg =>
    cases msg with
    | var varName p => exact iff_of_true (eventRight_var h varName p) trivial
    | dataFlush id p => exact iff_of_true (eventRight_dataFlush h hlength hhappens) trivial
    | «open» p step condition => exact eventRight_open_iff h hlength (hhappens.2 _ rfl).1
    | close p step condition => exact eventRight_close_iff h hhappens

structure Tracked (o : Observed) : Prop extends Accounting o where
  numBridges : o.fileData.bridges.length < 2 ^ 31

theorem Tracked.of_observe {o : Observed} (h : Tracked o) (hright : EventRight o e)
    (hstep : observe o e = .ok (some (o', out))) : Tracked o' := by
  refine ⟨(hright.2 o' out hstep).2, ?_⟩
  unfold observe at hstep
  cases hevent : handleEvent o.fileData e with
  | error fault =>
    rw [hevent] at hstep
    cases hstep
  | ok next =>
    rw [hevent] at hstep
    cases next with
    | none => cases hstep
    | some next =>
      cases hstep
      rw [length_bridges_handleEvent hevent]
      exact h.numBridges

/-- In every run from an opened file, in which readers open a step before they close it: each event
is accounted for as it should be exactly when each event is admissible where it happens. -/
theorem stepAccounting_iff {o : Observed} (hinit : Initial o) {events : List Event}
    (hrun : Runs.Every observe Happens o events) :
    Runs.Every observe EventRight o events ↔ Runs.Every observe Admissible o events := by
  have hstart : Tracked o := ⟨hinit.accounting, hinit.numBridges⟩
  refine Runs.every_iff_of_invariant (fun o e hInv hhappens => ?_)
    (fun o e hInv _ hright o' out hstep => ?_)
    hstart hrun
  · exact eventRight_iff_admissible hInv.toAccounting hInv.numBridges hhappens
  · exact hInv.of_observe hright hstep

def twoReaders : Observed where
  fileData :=
    { bridges := [⟨0, false, false, 0⟩, ⟨0, false, false, 0⟩]
      maxQueueSize := 1
      openCount := 0
      readerStep := 0
      askedVars := []
      formatVars := []
      dataQueue := [] }
  holds := []

def oneStep : List Event :=
  [.publish [("x", [7])], .handle (.open 0 0 10), .handle (.open 1 0 11), .handle (.close 0 0 12),
    .handle (.close 1 0 13)]

def openAhead : List Event :=
  [.publish [("x", [7])], .handle (.open 0 0 10), .handle (.open 1 0 11),
    .handle (.close 0 0 12), .handle (.open 0 1 13), .handle (.close 1 0 14)]

theorem twoReaders_initial : Initial twoReaders := by
  refine ⟨fun p => ?_, rfl, by decide, rfl⟩
  match p with
  | 0 => rfl
  | 1 => rfl
  | p + 2 => rfl

theorem happens_oneStep : Runs.Every observe Happens twoReaders oneStep := by
  refine Runs.every_cons_of_eq rfl ⟨nofun, nofun⟩ ?_
  refine Runs.every_cons_of_eq rfl ⟨nofun, ?_⟩ (Runs.every_cons_of_eq rfl ⟨nofun, ?_⟩
    (Runs.every_cons_of_eq rfl ⟨nofun, ?_⟩ (Runs.every_cons_of_eq rfl ⟨nofun, ?_⟩ trivial))) <;>
    rintro msg ⟨⟩
  · exact ⟨by decide, nofun⟩
  · exact ⟨by decide, nofun⟩
  · exact ⟨by decide, by rintro p step condition ⟨⟩; decide⟩
  · exact ⟨by decide, by rintro p step condition ⟨⟩; decide⟩

theorem admissible_oneStep : Runs.Every observe Admissible twoReaders oneStep := by
  refine Runs.every_cons_of_eq rfl trivial ?_
  refine Runs.every_cons_of_eq rfl (by rintro ⟨-, ⟨⟩⟩) ?_
  refine Runs.every_cons_of_eq rfl (by rintro ⟨-, ⟨⟩⟩) ?_
  refine Runs.every_cons_of_eq rfl ⟨rfl, fun hall => absurd (hall 1 (by decide)) (by decide)⟩ ?_
  refine Runs.every_cons_of_eq rfl ⟨rfl, fun _ => ⟨fun q => ?_, by decide⟩⟩ trivial
  simp [holdsAfter, twoReaders]

theorem stepAccounting_oneStep : Runs.Every observe EventRight twoReaders oneStep :=
  (stepAccounting_iff twoReaders_initial happens_oneStep).mpr admissible_oneStep

/-- The reader that opened step 1 ahead is not counted when step 1 becomes the current one. -/
theorem not_stepAccounting_openAhead :
    Initial twoReaders ∧ Runs.Every observe Happens twoReaders openAhead ∧
      ¬Runs.Every observe EventRight twoReaders openAhead := by
  refine ⟨twoReaders_initial, ?_, fun h => ?_⟩
  · refine Runs.every_cons_of_eq rfl ⟨nofun, nofun⟩ ?_
    refine Runs.every_cons_of_eq rfl ⟨nofun, ?_⟩ (Runs.every_cons_of_eq rfl ⟨nofun, ?_⟩
      (Runs.every_cons_of_eq rfl ⟨nofun, ?_⟩ (Runs.every_cons_of_eq rfl ⟨nofun, ?_⟩
        (Runs.every_cons_of_eq rfl ⟨nofun, ?_⟩ trivial)))) <;>
      rintro msg ⟨⟩
    · exact ⟨by decide, nofun⟩
    · exact ⟨by decide, nofun⟩
    · exact ⟨by decide, by rintro p step condition ⟨⟩; decide⟩
    · exact ⟨by decide, nofun⟩
    · exact ⟨by decide, by rintro p step condition ⟨⟩; decide⟩
  · have hlast := (((((h.2 _ _ rfl).2 _ _ rfl).2 _ _ rfl).2 _ _ rfl).2 _ _ rfl).1
    have hopened := (hlast.2 _ _ rfl).2.opened 0
    exact absurd (hopened.mpr (by decide)) (by decide)

end Adios.Flexpath
