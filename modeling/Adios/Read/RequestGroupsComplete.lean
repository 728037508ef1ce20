import Adios.Lists.Results
import Adios.Read.RequestGroupCalls
import Adios.Runs.Every
import Mathlib.Data.List.Nodup

/-!
# Reading — the requests of a transformed variable get completed

What the raw reads wait for is in flight: a chunk is matched with a raw read that waits for it, and
when nothing is in flight, nothing waits, so that every request is completed. A group without raw
reads would never be.
-/

namespace Adios.RequestGroups

open List WriteBlocks

/-! ## Chunks -/

def Chunk.key (chunk : Chunk) (sel : WriteBlock) : Key :=
  (chunk.varid, chunk.fromSteps, canonical sel)

section

variable {chunk : Chunk} {r : ReadRequest} {pg : PgReadRequest} {i j : Nat}

theorem PgReadRequest.matchChunk_eq_some (h : pg.matchChunk chunk = some j) :
    ∃ subreq sel, pg.subreqs[j]? = some subreq ∧ subreq.completed = false ∧
      chunk.sel = some sel ∧ canonical subreq.rawSel = canonical sel := by
  obtain ⟨hj, hfound, -⟩ := List.findIdx?_eq_some_iff_getElem.mp h
  obtain ⟨hopen, hsel⟩ := of_decide_eq_true hfound
  cases hmem : chunk.sel with
  | none =>
    rw [hmem] at hsel
    cases hsel
  | some sel =>
    rw [hmem] at hsel
    exact ⟨pg.subreqs[j], sel, getElem?_eq_getElem hj, Bool.eq_false_iff.mpr hopen, rfl,
      selectionEqual_iff.mp hsel⟩

theorem PgReadRequest.ne_none_of_waiting {varid : Int} {sel : WriteBlock}
    (hsel : chunk.sel = some sel)
    (h : (varid, pg.timestep, canonical sel) ∈ pg.waiting varid) : pg.matchChunk chunk ≠ none := by
  intro hnone
  obtain ⟨subreq, hmem, hwaits⟩ := mem_flatMap.mp h
  unfold RawReadRequest.waiting at hwaits
  split_ifs at hwaits with hcompleted
  · cases hwaits
  · have hkey := mem_singleton.mp hwaits
    have hequal : selectionEqual subreq.rawSel sel = true :=
      selectionEqual_iff.mpr (Prod.mk.inj (Prod.mk.inj hkey).2).2.symm
    have hall := List.findIdx?_eq_none_iff.mp hnone subreq hmem
    rw [hsel] at hall
    exact of_decide_eq_false hall ⟨hcompleted, hequal⟩

theorem matchPgs_eq_some {pgs : List PgReadRequest} {n : Nat}
    (h : matchPgs chunk n pgs = some (i, j)) :
    ∃ k pg, i = n + k ∧ pgs[k]? = some pg ∧ pg.timestep = chunk.fromSteps ∧
      pg.matchChunk chunk = some j := by
  induction pgs generalizing n with
  | nil => cases h
  | cons pg pgs ih =>
    have hrest : matchPgs chunk (n + 1) pgs = some (i, j) →
        ∃ k pg', i = n + k ∧ (pg :: pgs)[k]? = some pg' ∧ pg'.timestep = chunk.fromSteps ∧
          pg'.matchChunk chunk = some j := fun h => by
      obtain ⟨k, pg', hi, hget, hfound⟩ := ih h
      exact ⟨k + 1, pg', by omega, hget, hfound⟩
    unfold matchPgs at h
    by_cases hskip : pg.completed = true ∨ pg.timestep ≠ chunk.fromSteps
    · rw [if_pos hskip] at h
      exact hrest h
    · rw [if_neg hskip] at h
      cases hmatch : pg.matchChunk chunk with
      | none =>
        rw [hmatch] at h
        exact hrest h
      | some j' =>
        rw [hmatch] at h
        cases h
        exact ⟨0, pg, rfl, rfl, not_not.mp (not_or.mp hskip).2, hmatch⟩

theorem matchPgs_eq_none {pgs : List PgReadRequest} {n : Nat} (h : matchPgs chunk n pgs = none) :
    ∀ pg ∈ pgs, pg.completed = true ∨ pg.timestep ≠ chunk.fromSteps ∨
      pg.matchChunk chunk = none := by
  induction pgs generalizing n with
  | nil => exact forall_mem_nil _
  | cons pg pgs ih =>
    unfold matchPgs at h
    by_cases hskip : pg.completed = true ∨ pg.timestep ≠ chunk.fromSteps
    · rw [if_pos hskip] at h
      exact forall_mem_cons.mpr ⟨hskip.imp_right .inl, ih h⟩
    · rw [if_neg hskip] at h
      cases hmatch : pg.matchChunk chunk with
      | none =>
        rw [hmatch] at h
        exact forall_mem_cons.mpr ⟨.inr (.inr hmatch), ih h⟩
      | some j' =>
        rw [hmatch] at h
        cases h

theorem ReadRequest.matchChunk_eq_some (h : r.matchChunk chunk = some (i, j)) :
    ∃ pg subreq sel, r.pgReqgroups[i]? = some pg ∧ pg.subreqs[j]? = some subreq ∧
      subreq.completed = false ∧ chunk.sel = some sel ∧
      (r.varid, pg.timestep, canonical subreq.rawSel) = chunk.key sel := by
  unfold matchChunk at h
  by_cases hvarid : r.varid ≠ chunk.varid
  · rw [if_pos hvarid] at h
    cases h
  · rw [if_neg hvarid] at h
    obtain ⟨k, pg, hi, hget, htimestep, hfound⟩ := matchPgs_eq_some h
    obtain ⟨subreq, sel, hj, hopen, hsel, hequal⟩ := PgReadRequest.matchChunk_eq_some hfound
    refine ⟨pg, subreq, sel, ?_, hj, hopen, hsel, ?_⟩
    · rw [hi, Nat.zero_add]
      exact hget
    · rw [not_not.mp hvarid, htimestep, hequal]
      rfl

theorem ReadRequest.Inv.ne_none_of_waiting (h : r.Inv []) {sel : WriteBlock}
    (hsel : chunk.sel = some sel) (hmem : chunk.key sel ∈ r.waiting) :
    r.matchChunk chunk ≠ none := by
  intro hnone
  obtain ⟨pg, hpg, hwaits⟩ := mem_flatMap.mp hmem
  have hcounted := h.counted.pgs pg hpg
  obtain ⟨subreq, hsubreq, hone⟩ := mem_flatMap.mp hwaits
  unfold RawReadRequest.waiting at hone
  split_ifs at hone with hcompleted
  · cases hone
  · -- the key says which variable and which step it is about
    obtain ⟨hvarid, hrest⟩ := Prod.mk.inj (mem_singleton.mp hone)
    obtain ⟨htimestep, -⟩ := Prod.mk.inj hrest
    unfold ReadRequest.matchChunk at hnone
    rw [if_neg (not_not.mpr hvarid.symm)] at hnone
    obtain hdone | hother | hnotFound := matchPgs_eq_none hnone pg hpg
    · exact hcompleted (hcounted.completed_iff.mp hdone subreq hsubreq)
    · exact hother htimestep.symm
    · refine @PgReadRequest.ne_none_of_waiting chunk pg r.varid sel hsel ?_ hnotFound
      rw [← htimestep]
      exact hvarid ▸ hwaits

theorem processReadChunk_spec {rs : List ReadRequest} (h : ∀ r ∈ rs, r.Inv []) :
    ∃ rs', processReadChunk chunk rs = .ok rs' ∧ (∀ r ∈ rs', r.Inv []) ∧
      ((rs' = rs ∧ ∀ r ∈ rs, r.matchChunk chunk = none) ∨
        ∃ sel, chunk.sel = some sel ∧ (∃ r ∈ rs, r.varid = chunk.varid) ∧
          (rs.flatMap ReadRequest.waiting).Perm
            (chunk.key sel :: rs'.flatMap ReadRequest.waiting)) := by
  induction rs with
  | nil => exact ⟨[], rfl, h, .inl ⟨rfl, forall_mem_nil _⟩⟩
  | cons r rs ih =>
    obtain ⟨hr, hrs⟩ := forall_mem_cons.mp h
    unfold processReadChunk
    cases hmatch : r.matchChunk chunk with
    | some place =>
      obtain ⟨i, j⟩ := place
      obtain ⟨pg, subreq, sel, hi, hj, hopen, hsel, hkey⟩ := ReadRequest.matchChunk_eq_some hmatch
      obtain ⟨r', hfinish, hr', hperm⟩ := hr.finishSubreq hi hj hopen
      rw [hkey] at hperm
      refine ⟨r' :: rs, ?_, forall_mem_cons.mpr ⟨hr', hrs⟩, .inr ⟨sel, hsel, ?_, ?_⟩⟩
      · show (r.finishSubreq i j >>= fun r => .ok (r :: rs)) = _
        rw [hfinish, ok_bind]
      · exact ⟨r, mem_cons_self, (Prod.mk.inj hkey).1⟩
      · exact hperm.append_right _
    | none =>
      obtain ⟨rs', hrest, hinv, hcases⟩ := ih hrs
      refine ⟨r :: rs', ?_, forall_mem_cons.mpr ⟨hr, hinv⟩, ?_⟩
      · show (processReadChunk chunk rs >>= fun rs => .ok (r :: rs)) = _
        rw [hrest, ok_bind]
      · cases hcases with
        | inl hnone => exact .inl ⟨by rw [hnone.1], forall_mem_cons.mpr ⟨hmatch, hnone.2⟩⟩
        | inr hfound =>
          obtain ⟨sel, hsel, ⟨r₁, hmem, hvarid⟩, hperm⟩ := hfound
          refine .inr ⟨sel, hsel, ⟨r₁, mem_cons_of_mem r hmem, hvarid⟩, ?_⟩
          exact (hperm.append_left r.waiting).trans perm_middle

end

/-! ## Scheduling -/

theorem PgReadRequest.new_eq (timestep : Int) (sels : List WriteBlock) :
    PgReadRequest.new timestep sels =
      ⟨false, timestep, sels.length, 0, (sels.map (RawReadRequest.mk false)).reverse⟩ := by
  have hfold : ∀ (sels : List WriteBlock) (n : Nat) (subreqs : List RawReadRequest),
      sels.foldl PgReadRequest.append ⟨false, timestep, n, 0, subreqs⟩ =
        ⟨false, timestep, n + sels.length, 0,
          (sels.map (RawReadRequest.mk false)).reverse ++ subreqs⟩ := by
    intro sels
    induction sels with
    | nil => exact fun _ _ => rfl
    | cons sel sels ih =>
      intro n subreqs
      rw [foldl_cons, PgReadRequest.append, ih, map_cons, reverse_cons, append_assoc, length_cons]
      have hlen : n + 1 + sels.length = n + (sels.length + 1) := by omega
      rw [hlen]
      rfl
  rw [PgReadRequest.new, hfold, Nat.zero_add, append_nil]

theorem generateReadReqgroup_eq_some {varid : Int} {pgs : List (Int × List WriteBlock)}
    {r : ReadRequest} (h : generateReadReqgroup varid pgs = some r) :
    pgs ≠ [] ∧ r = ⟨false, varid, pgs.length, 0,
      (pgs.map fun pg => PgReadRequest.new pg.1 pg.2).reverse, []⟩ := by
  have hfold : ∀ (pgs : List (Int × List WriteBlock)) (n : Nat) (done : List PgReadRequest),
      pgs.foldl (fun (r : ReadRequest) pg => r.append (.new pg.1 pg.2))
        ⟨false, varid, n, 0, done, []⟩ = ⟨false, varid, n + pgs.length, 0,
          (pgs.map fun pg => PgReadRequest.new pg.1 pg.2).reverse ++ done, []⟩ := by
    intro pgs
    induction pgs with
    | nil => exact fun _ _ => rfl
    | cons pg pgs ih =>
      intro n done
      rw [foldl_cons, ReadRequest.append, ih, map_cons, reverse_cons, append_assoc, length_cons]
      have hlen : n + 1 + pgs.length = n + (pgs.length + 1) := by omega
      rw [hlen]
      rfl
  unfold generateReadReqgroup at h
  rw [hfold, Nat.zero_add, append_nil] at h
  dsimp only at h
  split_ifs at h with hzero
  cases h
  refine ⟨fun hnil => hzero ?_, rfl⟩
  rw [hnil]
  rfl

theorem PgReadRequest.counted_new {timestep : Int} {sels : List WriteBlock} (h : sels ≠ []) :
    (PgReadRequest.new timestep sels).Counted := by
  have hpos : 0 < sels.length := length_pos_iff.mpr h
  have hlen : ((sels.map (RawReadRequest.mk false)).reverse).length = sels.length := by
    rw [length_reverse, length_map]
  have hcount : ((sels.map (RawReadRequest.mk false)).reverse).countP (·.completed) = 0 := by
    rw [countP_eq_zero]
    intro subreq hmem
    obtain ⟨sel, -, rfl⟩ := mem_map.mp (mem_reverse.mp hmem)
    exact Bool.false_ne_true
  rw [PgReadRequest.new_eq]
  refine ⟨hlen.symm, hcount.symm, ⟨fun heq => ?_, fun heq => ?_⟩, ?_⟩
  · cases heq
  · have hzero : 0 = sels.length := heq
    omega
  · show 0 < ((sels.map (RawReadRequest.mk false)).reverse).length
    rw [hlen]
    exact hpos

def ScheduledRead.key (read : ScheduledRead) : Option Key :=
  match read.owner, read.chunk.sel with
  | some owner, some sel => some (owner.1, owner.2, canonical sel)
  | _, _ => none

section

variable {r : ReadRequest} {varid : Int} {pgs : List (Int × List WriteBlock)} {file : FileView}

theorem inv_generate (h : generateReadReqgroup varid pgs = some r) (hpgs : ∀ pg ∈ pgs, pg.2 ≠ []) :
    r.Inv [] ∧ (∀ pg ∈ r.pgReqgroups, ∀ subreq ∈ pg.subreqs, subreq.completed = false) := by
  obtain ⟨hne, rfl⟩ := generateReadReqgroup_eq_some h
  have hpos : 0 < pgs.length := length_pos_iff.mpr hne
  have hpgsOf : ∀ pg ∈ (pgs.map fun pg => PgReadRequest.new pg.1 pg.2).reverse,
      pg.Counted ∧ pg.completed = false ∧ ∀ subreq ∈ pg.subreqs, subreq.completed = false := by
    intro pg hpg
    obtain ⟨p, hp, rfl⟩ := mem_map.mp (mem_reverse.mp hpg)
    refine ⟨PgReadRequest.counted_new (hpgs p hp), ?_⟩
    rw [PgReadRequest.new_eq]
    refine ⟨rfl, fun subreq hmem => ?_⟩
    obtain ⟨sel, -, rfl⟩ := mem_map.mp (mem_reverse.mp hmem)
    rfl
  refine ⟨⟨⟨?_, ?_, ⟨fun heq => ?_, fun heq => ?_⟩, fun pg hpg => (hpgsOf pg hpg).1⟩, fun c => ?_,
    Lists.Behind.nil⟩, fun pg hpg => (hpgsOf pg hpg).2.2⟩
  · show pgs.length = ((pgs.map _).reverse).length
    rw [length_reverse, length_map]
  · refine (countP_eq_zero.mpr fun pg hpg => ?_).symm
    rw [(hpgsOf pg hpg).2.1]
    exact Bool.false_ne_true
  · cases heq
  · have hzero : 0 = pgs.length := heq
    omega
  · -- nothing is completed
    refine iff_of_false not_mem_nil fun hand => ?_
    cases c with
    | readReqgroup => cases hand.1
    | pgReqgroup i =>
      obtain ⟨pg, hget, hcompleted⟩ := Option.any_eq_true _ _ |>.mp hand.1
      rw [(hpgsOf pg (mem_of_getElem? hget)).2.1] at hcompleted
      cases hcompleted
    | subrequest i j =>
      obtain ⟨subreq, hget, hcompleted⟩ := Option.any_eq_true _ _ |>.mp hand.1
      unfold ReadRequest.subreqs at hget
      split at hget
      · rename_i pg hpg
        have hfalse := (hpgsOf pg (mem_of_getElem? hpg)).2.2 subreq (mem_of_getElem? hget)
        rw [hfalse] at hcompleted
        cases hcompleted
      · cases hget

theorem filterMap_rawReads
    (h : ∀ pg ∈ r.pgReqgroups, ∀ subreq ∈ pg.subreqs, subreq.completed = false) :
    (r.rawReads file).filterMap ScheduledRead.key = r.waiting := by
  unfold ReadRequest.rawReads ReadRequest.waiting
  rw [filterMap_flatMap]
  refine flatMap_congr fun pg hpg => ?_
  have hall := h pg hpg
  unfold PgReadRequest.waiting
  generalize pg.subreqs = subreqs at hall
  induction subreqs with
  | nil => rfl
  | cons subreq subreqs ih =>
    obtain ⟨hopen, hrest⟩ := forall_mem_cons.mp hall
    rw [flatMap_cons, ← ih hrest, RawReadRequest.waiting, hopen, if_neg Bool.false_ne_true]
    rfl

end

/-! ## The system -/

theorem ReadRequest.Inv.right {r : ReadRequest} (h : r.Inv []) : r.Right where
  numCompletedSubreqs := fun pg hpg => (h.counted.pgs pg hpg).count
  pgCompleted := fun pg hpg => (h.counted.pgs pg hpg).completed_iff
  numCompletedPgReqgroups := h.counted.count
  completed := h.counted.completed_iff
  fired := fun c => (h.fired c).trans (and_iff_left not_mem_nil)
  once := h.behind.once
  behind := h.behind.behind

theorem ReadRequest.Inv.completed_of_waiting {r : ReadRequest} (h : r.Inv [])
    (hwaiting : r.waiting = []) :
    r.completed = true := by
  refine h.counted.completed_iff.mpr fun pg hpg => ?_
  refine (h.counted.pgs pg hpg).completed_iff.mpr fun subreq hsubreq => ?_
  have hpgWaiting := flatMap_eq_nil_iff.mp hwaiting pg hpg
  have hone := flatMap_eq_nil_iff.mp hpgWaiting subreq hsubreq
  unfold RawReadRequest.waiting at hone
  split_ifs at hone with hcompleted
  exact hcompleted

namespace System

variable {s s' : System}

def waiting (s : System) : List Key := s.reqgroups.flatMap ReadRequest.waiting

structure Inv (s : System) : Prop where
  alive : s.fault = none
  live : ∀ r ∈ s.reqgroups, r.Inv []
  freed : ∀ r ∈ s.freed, r.Inv [] ∧ r.completed = true
  waits : s.waiting.Subperm (s.inFlight.filterMap ScheduledRead.key)

theorem inv_initial : initial.Inv where
  alive := rfl
  live := forall_mem_nil _
  freed := forall_mem_nil _
  waits := List.Subperm.refl _

theorem Inv.right (h : s.Inv) : s.Right where
  alive := h.alive
  requests := fun r hr => by
    cases mem_append.mp hr with
    | inl hlive => exact (h.live r hlive).right
    | inr hfreed => exact (h.freed r hfreed).1.right
  delivered := fun hnone r hr => by
    cases mem_append.mp hr with
    | inl hlive =>
      have hwaits := h.waits
      rw [hnone] at hwaits
      have hnil : s.waiting = [] := subperm_nil.mp hwaits
      exact (h.live r hlive).completed_of_waiting (flatMap_eq_nil_iff.mp hnil r hlive)
    | inr hfreed => exact (h.freed r hfreed).2

theorem Inv.arrive (h : s.Inv) {n : Nat} {read : ScheduledRead} (hget : s.inFlight[n]? = some read)
    (hreturns : s.Returns read) :
    (arriveChunk { s with inFlight := s.inFlight.eraseIdx n } read.chunk).Inv := by
  obtain ⟨rs', hprocess, hlive, hcases⟩ := @processReadChunk_spec read.chunk _ h.live
  obtain ⟨hlt, hread⟩ := List.getElem?_eq_some_iff.mp hget
  have hperm : (s.inFlight.filterMap ScheduledRead.key).Perm
      ((read :: s.inFlight.eraseIdx n).filterMap ScheduledRead.key) := by
    refine List.Perm.filterMap _ ?_
    rw [← hread]
    exact (getElem_cons_eraseIdx_perm hlt).symm
  have hwaits := h.waits.trans hperm.subperm
  unfold arriveChunk
  dsimp only
  rw [hprocess]
  refine ⟨h.alive, hlive, h.freed, ?_⟩
  show (rs'.flatMap ReadRequest.waiting).Subperm _
  cases hcases with
  | inl hnone =>
    obtain ⟨rfl, hnotFound⟩ := hnone
    cases hkey : read.key with
    | none =>
      rw [filterMap_cons_none hkey] at hwaits
      exact hwaits
    | some key =>
      rw [filterMap_cons_some hkey] at hwaits
      -- a read that nobody waits for
      have hnot : key ∉ s.waiting := fun hmem => by
        obtain ⟨r, hr, hwaits⟩ := mem_flatMap.mp hmem
        unfold ScheduledRead.key at hkey
        split at hkey
        · rename_i owner sel howner hsel
          rw [hreturns.1 owner howner] at hkey
          cases hkey
          exact (h.live r hr).ne_none_of_waiting hsel hwaits (hnotFound r hr)
        · cases hkey
      have herase := hwaits.erase key
      rw [erase_of_not_mem hnot, erase_cons_head] at herase
      exact herase
  | inr hfound =>
    obtain ⟨sel, hsel, ⟨r, hr, hvarid⟩, hless⟩ := hfound
    cases howner : read.owner with
    | none => exact absurd hvarid (hreturns.2 howner r hr)
    | some owner =>
      have hkey : read.key = some (read.chunk.key sel) := by
        unfold ScheduledRead.key
        rw [howner, hsel, hreturns.1 owner howner]
        rfl
      rw [filterMap_cons_some hkey] at hwaits
      exact subperm_cons _ |>.mp (hless.symm.subperm.trans hwaits)

theorem Inv.processAllReads (h : s.Inv) (inFlight : List ScheduledRead) :
    (System.processAllReads { s with inFlight }).Inv := by
  obtain ⟨done, hdone, hall⟩ := Lists.exists_mapM
    (R := fun (r' : ReadRequest) (_ : ReadRequest) => r'.Inv [] ∧ r'.completed = true)
    fun r hr => (h.live r hr).process
  unfold System.processAllReads
  dsimp only
  rw [hdone]
  refine ⟨h.alive, forall_mem_nil _, fun r hr => ?_, nil_subperm⟩
  cases mem_append.mp hr with
  | inl hfreed => exact h.freed r hfreed
  | inr hmem => exact Lists.forall_of_forall₂ hall.flip r hmem

theorem Inv.step {e : Event} (h : s.Inv) (hmeets : s.Meets e) (hstep : s.step e = some s') :
    s'.Inv := by
  unfold System.step at hstep
  rw [if_neg (not_not.mpr h.alive)] at hstep
  cases e with
  | schedule file varid pgs =>
    dsimp only at hstep
    split at hstep
    · rename_i r hr
      cases hstep
      obtain ⟨hinv, hopen⟩ := inv_generate hr hmeets
      refine ⟨h.alive, forall_mem_cons.mpr ⟨hinv, h.live⟩, h.freed, ?_⟩
      show (r.waiting ++ s.waiting).Subperm ((r.rawReads file ++ s.inFlight).filterMap _)
      rw [filterMap_append, filterMap_rawReads hopen]
      exact (subperm_append_left _).mpr h.waits
    · cases hstep
      exact h
  | scheduleOther chunk =>
    cases hstep
    refine ⟨h.alive, h.live, h.freed, ?_⟩
    exact h.waits
  | arrive n =>
    dsimp only at hstep
    split at hstep
    · rename_i read hget
      cases hstep
      exact h.arrive hget (hmeets read hget)
    · cases hstep
  | performReads refused =>
    cases hstep
    exact h.processAllReads _
  | cleanup =>
    cases hstep
    refine ⟨h.alive, fun r hr => h.live r (mem_of_mem_filter hr), fun r hr => ?_, ?_⟩
    · cases mem_append.mp hr with
      | inl hfreed => exact h.freed r hfreed
      | inr hmem =>
        obtain ⟨hlive, hcompleted⟩ := mem_filter.mp hmem
        exact ⟨h.live r hlive, hcompleted⟩
    · refine List.Subperm.trans (List.Sublist.subperm ?_) h.waits
      exact filter_sublist.flatMap _

end System

structure Reached where
  system : System
  run : Runs.Guarded System.step System.Meets System.initial system

/-- **The requests get completed**, level by level and each of them once. -/
theorem Reached.requestsCompleted (s : Reached) : s.system.Right :=
  System.Inv.right (s.run.invariant System.inv_initial
    fun _ _ _ h hmeets hstep => h.step hmeets hstep)

/-! ## The order of the process groups -/

def Callback.pgPlace : Callback → Option Nat
  | .pgReqgroup i => some i
  | .subrequest _ _ | .readReqgroup => none

def ReadRequest.completionOrder (r : ReadRequest) : List Nat := r.fired.filterMap Callback.pgPlace

theorem ReadRequest.Right.completionOrder_perm {r : ReadRequest} (h : r.Right)
    (hcompleted : r.completed = true) :
    r.completionOrder.Perm (List.range r.pgReqgroups.length) := by
  have hplace : ∀ {c : Callback} {i : Nat}, c.pgPlace = some i → c = .pgReqgroup i :=
    fun {c i} hc => by
      cases c with
      | pgReqgroup j => rw [Option.some.inj hc]
      | subrequest j k => cases hc
      | readReqgroup => cases hc
  have hnodup : r.completionOrder.Nodup :=
    List.Nodup.filterMap (fun c c' i hc hc' => (hplace hc).trans (hplace hc').symm) h.once
  refine (perm_ext_iff_of_nodup hnodup nodup_range).mpr fun i => ?_
  rw [completionOrder, mem_filterMap, mem_range]
  constructor
  · rintro ⟨c, hc, hi⟩
    rw [hplace hi] at hc
    have hflag : r.pgReqgroups[i]?.any (·.completed) = true := (h.fired _).mp hc
    by_contra hge
    rw [getElem?_eq_none (Nat.not_lt.mp hge)] at hflag
    cases hflag
  · intro hi
    refine ⟨.pgReqgroup i, (h.fired _).mpr ?_, rfl⟩
    show r.pgReqgroups[i]?.any (·.completed) = true
    rw [getElem?_eq_getElem hi]
    exact h.completed.mp hcompleted _ (getElem_mem hi)

/-- A process group that the selection touches, and for which no raw read is needed: a blocking call
ends at "`assert(pg_reqgroup->completed)`". -/
theorem not_right_emptyPg : ∃ s,
    Runs.Guarded System.step (fun _ _ => True) System.initial s ∧ ¬s.Right := by
  refine ⟨_, @Runs.Guarded.of_runAll _ _ _ _ _ _ .refl
    [.schedule ⟨0, [0], false⟩ 0 [(0, [])], .performReads false] rfl, fun h => ?_⟩
  exact absurd h.alive (by decide)

end Adios.RequestGroups
