import Adios.Core.Selections
import Adios.Grid.Boxes
import Adios.Read.BlockIndex
import Adios.Read.BoxRead
import Adios.Wire.Signed

/-!
# Adios — reading through the old interface

`core/adios_read_v1.c`. To the old interface time is one more dimension of a variable, and the
blocks of all steps are numbered through. Two functions turn what they are asked for into a request
of the new interface, which is performed at once.
-/

namespace Adios.Version1

open List Subvolume Grid Blocks Wire

/-! ## The code -/

/-- What is read of an `ADIOS_VARINFO`; `blockinfo` are the sizes of its blocks. -/
structure Varinfo extends RawVarinfo where
  varid : Int
  type : Datatype
  dims : List UInt64
  transformed : Bool
  blockinfo : List (List UInt64)
  length_blockinfo : blockinfo.length = nblocks.sum
  length_count : ∀ count ∈ blockinfo, count.length = dims.length

/-- What is read of an `ADIOS_VARINFO_V1`. -/
structure VarinfoV1 where
  dims : List UInt64
  timedim : Int

/-- `adios_varinfo_to_v1` -/
def varinfoToV1 (v : Varinfo) : VarinfoV1 :=
  if v.nblocks.length > 1 then ⟨UInt64.ofNat v.nblocks.length :: v.dims, 0⟩ else ⟨v.dims, -1⟩

inductive Selection where
  | boundingbox (box : List Segment)
  | writeblock (index : Int)
  deriving DecidableEq

/-- The arguments of `common_read_schedule_read_byid`. -/
structure ReadRequest where
  sel : Selection
  varid : Int
  fromSteps : Int
  nsteps : Int
  data : Option Nat
  deriving DecidableEq

/-- `common_read_schedule_read_byid` with the memory of the requests that are pending. Those for the
blocks of a transformed variable have memory of their own. -/
def scheduleReadByid (v : Varinfo) (r : ReadRequest) (pending : List (Option Nat)) :
    Except Fault (List (Option Nat)) :=
  if ¬v.transformed then .ok (pending ++ [r.data])
  else if r.fromSteps < 0 then .error .assertion
  else if 2147483647 < r.fromSteps + r.nsteps then .error .signedOverflow
  else if v.nblocks.length < r.fromSteps + r.nsteps then .error .assertion
  else .ok pending

inductive Errno where
  | outOfBound
  | operationNotSupported
  deriving DecidableEq

/-- What has been handed to `common_read_schedule_read_byid`, and the number of bytes read or
`adios_errno`. -/
structure Outcome where
  scheduled : List ReadRequest
  rbytes : Except Errno UInt64

/-- `common_read_perform_reads` and the "number of bytes read" with what is in `data` then. A step
without data is an error that the reads do not return. -/
def performReads (v : Varinfo) (box : List Segment) (contents : List UInt8)
    (pending : List (Option Nat)) : Except Errno UInt64 :=
  if none ∈ pending then .error .operationNotSupported
  else .ok (BoxRead.typeSize v.type (some contents) * BoxRead.product (box.map Segment.count))

/-- "has time dimension, translate to new query"; `box` is `start` and `count`. -/
def newQuery (v : Varinfo) (box : List Segment) (data : Option Nat) : Except Fault ReadRequest :=
  if (varinfoToV1 v).timedim = 0 then
    match box with
    | [] => .error .outOfBounds
    | s :: rest => .ok ⟨.boundingbox rest, v.varid, cut32 s.start.toNat, cut32 s.count.toNat, data⟩
  else .ok ⟨.boundingbox box, v.varid, 0, 1, data⟩

/-- `adios_read_var_byid_v1` -/
def readVarByidV1 (v : Varinfo) (box : List Segment) (data : Option Nat) (contents : List UInt8)
    (pending : List (Option Nat)) : Except Fault Outcome := do
  let r ← newQuery v box data
  let pending ← scheduleReadByid v r pending
  .ok ⟨[r], performReads v box contents pending⟩

/-- "get step from the idx, and check validity of idx" -/
def stepLoop (step idxInStep : Int) : List Nat → Option (Int × Int)
  | [] => none
  | n :: ns => if idxInStep ≥ n then stepLoop (step + 1) (idxInStep - n) ns
    else some (step, idxInStep)

/-- "check dimensions" -/
def checkDimensions (v : Varinfo) (idx : Int) (box : List Segment) : Except Fault Bool :=
  if box = [] then .ok true
  else if idx < 0 then .error .outOfBounds
  else
    match v.blockinfo[idx.toNat]? with
    | none => .error .outOfBounds
    | some count => .ok (box = count.map fun c => ⟨0, c⟩)

/-- `adios_read_local_var_v1` -/
def readLocalVarV1 (v : Varinfo) (idx : Int) (box : List Segment) (data : Option Nat)
    (contents : List UInt8) (pending : List (Option Nat)) : Except Fault Outcome :=
  match stepLoop 0 idx v.nblocks with
  | none => .ok ⟨[], .error .outOfBound⟩
  | some (step, idxInStep) => do
    if ← checkDimensions v idx box then
      let r : ReadRequest := ⟨.writeblock idxInStep, v.varid, step, 1, data⟩
      let pending ← scheduleReadByid v r pending
      .ok ⟨[r], performReads v box contents pending⟩
    else .ok ⟨[], .error .outOfBound⟩

/-! ## What is asked for -/

def Outcome.Rejected (out : Outcome) : Prop := out.scheduled = [] ∧ ∃ e, out.rbytes = .error e

def ReadRequest.Asks (r : ReadRequest) (t : Nat) (p : List Nat) : Prop :=
  r.fromSteps ≤ t ∧ t < r.fromSteps + r.nsteps ∧
    ∃ box, r.sel = .boundingbox box ∧ Elements box p

/-- What comes with a read: "You need to allocate the memory for the data." -/
structure Call where
  data : Nat
  contents : List UInt8
  pending : List (Option Nat)
  ready : none ∉ pending

structure OldRead (v : Varinfo) extends Call where
  box : List Segment
  length_box : box.length = (varinfoToV1 v).dims.length

variable {v : Varinfo}

namespace OldRead

def run (q : OldRead v) : Except Fault Outcome :=
  readVarByidV1 v q.box (some q.data) q.contents q.pending

def steps (q : OldRead v) : Span :=
  if (varinfoToV1 v).timedim < 0 then ⟨0, 1⟩
  else ((q.box.map Segment.span)[(varinfoToV1 v).timedim.toNat]?).getD ⟨0, 1⟩

def Holds (q : OldRead v) (t : Nat) (p : List Nat) : Prop :=
  if (varinfoToV1 v).timedim < 0 then t = 0 ∧ Elements q.box p
  else Elements q.box (p.insertIdx (varinfoToV1 v).timedim.toNat t)

def InSteps (q : OldRead v) : Prop := q.steps.start + q.steps.count ≤ v.nblocks.length

structure Translated (q : OldRead v) (r : ReadRequest) : Prop where
  varid : r.varid = v.varid
  data : r.data = some q.data
  fromSteps : r.fromSteps = q.steps.start
  nsteps : r.nsteps = q.steps.count
  asks (t : Nat) (p : List Nat) : r.Asks t p ↔ q.Holds t p

def Right (q : OldRead v) : Prop :=
  ∃ out, q.run = .ok out ∧ ((q.InSteps ∧ ∃ r, out.scheduled = [r] ∧ q.Translated r) ∨
    ¬q.InSteps ∧ out.Rejected)

end OldRead

structure LocalRead (v : Varinfo) extends Call where
  idx : Int
  box : List Segment
  length_box : box.length = v.dims.length

namespace LocalRead

def run (q : LocalRead v) : Except Fault Outcome :=
  readLocalVarV1 v q.idx q.box (some q.data) q.contents q.pending

def Whole (q : LocalRead v) : Prop :=
  q.box = [] ∨ ∃ count, v.blockinfo[q.idx.toNat]? = some count ∧
    q.box = count.map fun c => ⟨0, c⟩

/-- The index is that of a single block, which is read if it is asked for as a whole, or is
rejected. -/
def Right (q : LocalRead v) : Prop :=
  ∃ out, q.run = .ok out ∧
    ((∃ t k, v.IsBlock t k ∧ v.absolute t k = q.idx ∧
        (∀ t' k', v.IsBlock t' k' → v.absolute t' k' = q.idx → t' = t ∧ k' = k) ∧
        (q.Whole → out.scheduled = [⟨.writeblock k, v.varid, t, 1, some q.data⟩]) ∧
        (¬q.Whole → out.Rejected)) ∨
      (q.idx < 0 ∨ v.nblocks.sum ≤ q.idx) ∧ out.Rejected)

end LocalRead

/-! ## Boxes -/

theorem varinfoToV1_of_time (h : 1 < v.nblocks.length) :
    varinfoToV1 v = ⟨UInt64.ofNat v.nblocks.length :: v.dims, 0⟩ := if_pos h

theorem varinfoToV1_of_not (h : ¬1 < v.nblocks.length) : varinfoToV1 v = ⟨v.dims, -1⟩ := if_neg h

theorem scheduleReadByid_of_steps {r : ReadRequest} {pending : List (Option Nat)}
    (hfrom : 0 ≤ r.fromSteps) (hto : r.fromSteps + r.nsteps ≤ v.nblocks.length) :
    ∃ after, scheduleReadByid v r pending = .ok after := by
  have hlt := v.nsteps
  unfold scheduleReadByid
  split_ifs <;> first | exact ⟨_, rfl⟩ | omega

namespace OldRead

variable {q : OldRead v}

theorem exists_box_of_time (h : 1 < v.nblocks.length) (q : OldRead v) :
    ∃ s rest, q.box = s :: rest ∧ q.steps = s.span := by
  have hlength := q.length_box
  rw [varinfoToV1_of_time h] at hlength
  cases hbox : q.box with
  | nil =>
    rw [hbox] at hlength
    cases hlength
  | cons s rest =>
    refine ⟨s, rest, rfl, ?_⟩
    rw [steps, varinfoToV1_of_time h, hbox]
    rfl

theorem steps_of_not (h : ¬1 < v.nblocks.length) : q.steps = ⟨0, 1⟩ := by
  rw [steps, varinfoToV1_of_not h]
  rfl

theorem not_rejected {out : Outcome} (h : q.run = .ok out) : ¬out.Rejected := fun hrejected => by
  rw [run, readVarByidV1] at h
  obtain ⟨r, -, hrun⟩ := exists_of_bind_eq_ok h
  obtain ⟨after, -, hout⟩ := exists_of_bind_eq_ok hrun
  cases hout
  exact cons_ne_nil _ _ hrejected.1

theorem newQuery_of_inSteps (h : q.InSteps) :
    ∃ r, newQuery v q.box (some q.data) = .ok r ∧ q.Translated r := by
  have hlt := v.nsteps
  by_cases htime : 1 < v.nblocks.length
  · obtain ⟨s, rest, hbox, hsteps⟩ := exists_box_of_time htime q
    rw [InSteps, hsteps] at h
    have hinside : s.start.toNat + s.count.toNat ≤ v.nblocks.length := h
    have hstart : cut32 s.start.toNat = s.start.toNat := cut32_of_fits (by omega) (by omega)
    have hcount : cut32 s.count.toNat = s.count.toNat := cut32_of_fits (by omega) (by omega)
    refine ⟨⟨.boundingbox rest, v.varid, s.start.toNat, s.count.toNat, some q.data⟩, ?_,
      rfl, rfl, by rw [hsteps]; rfl, by rw [hsteps]; rfl, fun t p => ?_⟩
    · unfold newQuery
      rw [varinfoToV1_of_time htime, hbox, if_pos rfl]
      dsimp only
      rw [hstart, hcount]
    · rw [Holds, varinfoToV1_of_time htime, hbox]
      show _ ↔ Contains (s.span :: rest.map Segment.span) (t :: p)
      rw [contains_cons]
      constructor
      · rintro ⟨hlo, hhi, box, hsel, helements⟩
        cases hsel
        exact ⟨⟨Int.ofNat_le.mp hlo, Int.ofNat_lt.mp hhi⟩, helements⟩
      · rintro ⟨⟨hlo, hhi⟩, helements⟩
        exact ⟨Int.ofNat_le.mpr hlo, Int.ofNat_lt.mpr hhi, rest, rfl, helements⟩
  · have hsteps := @steps_of_not v q htime
    refine ⟨⟨.boundingbox q.box, v.varid, 0, 1, some q.data⟩, ?_,
      rfl, rfl, by rw [hsteps]; rfl, by rw [hsteps]; rfl, fun t p => ?_⟩
    · unfold newQuery
      rw [varinfoToV1_of_not htime]
      exact if_neg fun h : (-1 : Int) = 0 => absurd h (by decide)
    · rw [Holds, varinfoToV1_of_not htime]
      show _ ↔ t = 0 ∧ Elements q.box p
      constructor
      · rintro ⟨-, hhi, box, hsel, helements⟩
        cases hsel
        have hhi : (t : Int) < 0 + 1 := hhi
        exact ⟨by omega, helements⟩
      · rintro ⟨rfl, helements⟩
        exact ⟨Int.le_refl 0, Int.zero_lt_one, q.box, rfl, helements⟩

theorem box_right_iff : q.Right ↔ q.InSteps := by
  constructor
  · rintro ⟨out, hrun, ⟨hin, -⟩ | ⟨-, hrejected⟩⟩
    · exact hin
    · exact absurd hrejected (not_rejected hrun)
  · intro hin
    obtain ⟨r, hquery, htranslated⟩ := newQuery_of_inSteps hin
    obtain ⟨after, hafter⟩ := @scheduleReadByid_of_steps v r q.pending
      (by rw [htranslated.fromSteps]; exact Int.natCast_nonneg _)
      (by rw [htranslated.fromSteps, htranslated.nsteps]; exact Int.ofNat_le.mpr hin)
    refine ⟨⟨[r], performReads v q.box q.contents after⟩, ?_, .inl ⟨hin, r, rfl, htranslated⟩⟩
    rw [run, readVarByidV1, hquery, ok_bind, hafter]
    rfl

end OldRead

/-! ## Blocks -/

theorem stepLoop_eq (step blockidx curblocks : Int) (ns : List Nat) :
    stepLoop step (blockidx - curblocks) ns = relativeBlockidxLoop blockidx step curblocks ns := by
  induction ns generalizing step curblocks with
  | nil => rfl
  | cons n ns ih =>
    rw [stepLoop, relativeBlockidxLoop]
    by_cases hlt : blockidx < curblocks + n
    · rw [if_neg (by omega), if_pos hlt]
    · rw [if_pos (by omega), if_neg hlt, Int.sub_sub, ih]

theorem stepLoop_zero (idx : Int) (v : RawVarinfo) :
    stepLoop 0 idx v.nblocks = computeRelativeBlockidx v idx := by
  rw [computeRelativeBlockidx, ← stepLoop_eq, Int.sub_zero]

namespace LocalRead

variable {q : LocalRead v}

theorem checkDimensions_eq (hidx : 0 ≤ q.idx) (hlt : q.idx < v.nblocks.sum) :
    ∃ whole, checkDimensions v q.idx q.box = .ok whole ∧ (whole = true ↔ q.Whole) := by
  unfold checkDimensions
  by_cases hbox : q.box = []
  · exact ⟨true, if_pos hbox, iff_of_true rfl (.inl hbox)⟩
  · have hin : q.idx.toNat < v.blockinfo.length := by
      rw [v.length_blockinfo]
      omega
    have hget : v.blockinfo[q.idx.toNat]? = some v.blockinfo[q.idx.toNat] :=
      getElem?_eq_getElem hin
    rw [if_neg hbox, if_neg (by omega), hget]
    refine ⟨_, rfl, ?_⟩
    rw [decide_eq_true_eq, Whole, or_iff_right hbox, hget]
    exact ⟨fun h => ⟨_, rfl, h⟩, fun ⟨_, heq, h⟩ => by cases heq; exact h⟩

theorem right_of_isBlock {t k : Int} (hblock : v.IsBlock t k) (hidx : v.absolute t k = q.idx)
    (hlt : q.idx < v.nblocks.sum) : q.Right := by
  have hstep : stepLoop 0 q.idx v.nblocks = some (t, k) := by
    rw [stepLoop_zero, ← hidx, computeRelativeBlockidx_of_isBlock hblock]
  have hunique : ∀ t' k', v.IsBlock t' k' → v.absolute t' k' = q.idx → t' = t ∧ k' = k :=
    fun t' k' hblock' hidx' => by
      have hsame := computeRelativeBlockidx_of_isBlock hblock'
      rw [hidx', ← stepLoop_zero, hstep] at hsame
      injection hsame with hsame
      injection hsame with ht hk
      exact ⟨ht.symm, hk.symm⟩
  have ⟨ht, hk, n, hn, _⟩ := hblock
  have hnonneg : 0 ≤ q.idx := by
    rw [← hidx, RawVarinfo.absolute]
    omega
  have hsteps := (List.getElem?_eq_some_iff.mp hn).1
  obtain ⟨whole, hwhole, hiff⟩ := checkDimensions_eq hnonneg hlt
  let r : ReadRequest := ⟨.writeblock k, v.varid, t, 1, some q.data⟩
  obtain ⟨after, hafter⟩ := @scheduleReadByid_of_steps v r q.pending ht (by
    show t + 1 ≤ v.nblocks.length
    omega)
  have hrun : q.run = if whole = true then
      .ok ⟨[r], performReads v q.box q.contents after⟩ else .ok ⟨[], .error .outOfBound⟩ := by
    rw [run, readLocalVarV1, hstep]
    simp only
    rw [hwhole, ok_bind]
    split_ifs
    · show scheduleReadByid v r q.pending >>= _ = _
      rw [hafter]
      rfl
    · rfl
  by_cases h : q.Whole
  · rw [if_pos (hiff.mpr h)] at hrun
    exact ⟨_, hrun, .inl ⟨t, k, hblock, hidx, hunique, fun _ => rfl, fun hnot => absurd h hnot⟩⟩
  · rw [if_neg fun hw => h (hiff.mp hw)] at hrun
    exact ⟨_, hrun, .inl ⟨t, k, hblock, hidx, hunique, fun hw => absurd hw h,
      fun _ => ⟨rfl, _, rfl⟩⟩⟩

theorem right_of_none (h : stepLoop 0 q.idx v.nblocks = none)
    (hidx : q.idx < 0 ∨ v.nblocks.sum ≤ q.idx) : q.Right :=
  ⟨⟨[], .error .outOfBound⟩, by rw [run, readLocalVarV1, h], .inr ⟨hidx, rfl, _, rfl⟩⟩

theorem not_right_of_neg (hidx : q.idx < 0) {n : Nat} {ns : List Nat} (hn : v.nblocks = n :: ns) :
    ¬q.Right := by
  rintro ⟨out, hrun, ⟨t, k, ⟨-, hk, -⟩, habsolute, -⟩ | ⟨-, hrejected⟩⟩
  · rw [RawVarinfo.absolute] at habsolute
    omega
  · rw [run, readLocalVarV1, hn, stepLoop, if_neg (by omega)] at hrun
    obtain ⟨whole, hwhole, hrun⟩ := exists_of_bind_eq_ok hrun
    by_cases hbox : q.box = []
    · rw [checkDimensions, if_pos hbox] at hwhole
      cases hwhole
      obtain ⟨after, -, hout⟩ := exists_of_bind_eq_ok hrun
      cases hout
      exact cons_ne_nil _ _ hrejected.1
    · rw [checkDimensions, if_neg hbox, if_pos hidx] at hwhole
      cases hwhole

theorem block_right_iff : q.Right ↔ 0 ≤ q.idx ∨ v.nblocks = [] := by
  constructor
  · intro h
    cases hn : v.nblocks with
    | nil => exact .inr rfl
    | cons n ns => exact .inl (Int.not_lt.mp fun hidx => not_right_of_neg hidx hn h)
  · rintro (hidx | hnil)
    · by_cases hlt : q.idx.toNat < v.nblocks.sum
      · obtain ⟨j, n, k, hn, hk, hsum⟩ := exists_block hlt
        have hblock : v.IsBlock j k :=
          ⟨Int.natCast_nonneg _, Int.natCast_nonneg _, n, hn, Int.ofNat_lt.mpr hk⟩
        refine right_of_isBlock hblock ?_ (by omega)
        rw [RawVarinfo.absolute, RawVarinfo.blocksBefore, Int.toNat_natCast]
        omega
      · have hge : (v.nblocks.sum : Int) ≤ q.idx := by omega
        refine right_of_none ?_ (.inr hge)
        rw [stepLoop_zero]
        exact relativeBlockidxLoop_of_ge (by omega) 0
    · refine right_of_none (by rw [hnil]; rfl) ?_
      rw [hnil, sum_nil]
      omega

end LocalRead

/-- **Reads through the old interface** are right exactly if a box is within the steps of the
variable, which nothing checks, and the index of a block not negative unless there is no step. -/
theorem oldReads_right_iff (v : Varinfo) :
    (∀ q : OldRead v, q.Right ↔ q.InSteps) ∧
    ∀ q : LocalRead v, q.Right ↔ 0 ≤ q.idx ∨ v.nblocks = [] :=
  ⟨fun _ => OldRead.box_right_iff, fun _ => LocalRead.block_right_iff⟩

/-! ## A step that there is not -/

def twoSteps : Varinfo where
  nblocks := [1, 1]
  nsteps := by decide
  sumNblocks := by decide
  varid := 0
  type := .integer
  dims := []
  transformed := false
  blockinfo := [[], []]
  length_blockinfo := rfl
  length_count := by decide

def thirdStep : OldRead twoSteps where
  data := 0
  contents := []
  pending := []
  ready := not_mem_nil
  box := [⟨2, 1⟩]
  length_box := rfl

def blockBefore : LocalRead twoSteps where
  data := 0
  contents := []
  pending := []
  ready := not_mem_nil
  idx := -1
  box := []
  length_box := rfl

theorem not_right_thirdStep : ¬thirdStep.Right ∧ ¬blockBefore.Right :=
  ⟨fun h => absurd (OldRead.box_right_iff.mp h) (by unfold OldRead.InSteps; decide),
    LocalRead.not_right_of_neg (by decide) rfl⟩

end Adios.Version1
