import Adios.Lists.Completion
import Adios.Read.RequestGroups
import Mathlib.Data.List.Flatten

/-!
# Reading — counters and hooks of a request group

A raw read that is marked completes the group of its process group exactly when it is the last one
there, and that group the whole request in the same way, as long as no group is empty. The calls of
the hooks follow: some calls are due while a raw read is dealt with, and between two steps none is.
-/

namespace Adios.RequestGroups

open List WriteBlocks

/-! ## What is waited for -/

/-- What `common_adios_selection_equal` looks at. -/
def canonical (wb : WriteBlock) : WriteBlock :=
  if wb.isSubPgSelection = 0 then { wb with elementOffset := 0, nelements := 0 } else wb

theorem isSubPgSelection_canonical (wb : WriteBlock) :
    (canonical wb).isSubPgSelection = wb.isSubPgSelection := by
  unfold canonical
  split_ifs <;> rfl

theorem selectionEqual_iff {wb1 wb2 : WriteBlock} :
    selectionEqual wb1 wb2 = true ↔ canonical wb1 = canonical wb2 := by
  by_cases hsub : wb1.isSubPgSelection = wb2.isSubPgSelection
  · cases wb1 with
    | mk index1 absolute1 sub1 offset1 n1 =>
      cases wb2 with
      | mk index2 absolute2 sub2 offset2 n2 =>
        obtain rfl : sub1 = sub2 := hsub
        by_cases hzero : sub1 = 0
        · simp [selectionEqual, canonical, hzero]
        · simp [selectionEqual, canonical, hzero]
  · refine iff_of_false (fun heq => ?_) fun heq => hsub ?_
    · unfold selectionEqual at heq
      exact hsub (of_decide_eq_true heq).2.2.1
    · rw [← isSubPgSelection_canonical wb1, heq, isSubPgSelection_canonical]

abbrev Key := Int × Int × WriteBlock

def RawReadRequest.waiting (varid timestep : Int) (subreq : RawReadRequest) : List Key :=
  if subreq.completed then [] else [(varid, timestep, canonical subreq.rawSel)]

def PgReadRequest.waiting (varid : Int) (pg : PgReadRequest) : List Key :=
  pg.subreqs.flatMap (RawReadRequest.waiting varid pg.timestep)

def ReadRequest.waiting (r : ReadRequest) : List Key :=
  r.pgReqgroups.flatMap (PgReadRequest.waiting r.varid)

/-! ## Counters -/

structure PgReadRequest.Counted (pg : PgReadRequest) : Prop where
  total : pg.numSubreqs = pg.subreqs.length
  count : pg.numCompletedSubreqs = pg.subreqs.countP (·.completed)
  flag : pg.completed = true ↔ pg.numCompletedSubreqs = pg.numSubreqs
  nonempty : 0 < pg.subreqs.length

theorem PgReadRequest.Counted.completed_iff {pg : PgReadRequest} (h : pg.Counted) :
    pg.completed = true ↔ ∀ subreq ∈ pg.subreqs, subreq.completed = true := by
  rw [h.flag, h.count, h.total]
  exact countP_eq_length

/-- "`num_completed_subreqs++`" -/
theorem PgReadRequest.Counted.mark {pg : PgReadRequest} (h : pg.Counted) {j : Nat}
    {subreq : RawReadRequest} (hj : pg.subreqs[j]? = some subreq)
    (hopen : subreq.completed = false) (completed : Bool)
    (hflag : completed = true ↔ pg.numCompletedSubreqs + 1 = pg.numSubreqs) :
    PgReadRequest.Counted { pg with
      completed
      subreqs := pg.subreqs.set j { subreq with completed := true }
      numCompletedSubreqs := pg.numCompletedSubreqs + 1 } where
  total := by
    show pg.numSubreqs = (pg.subreqs.set j _).length
    rw [length_set]
    exact h.total
  count := by
    obtain ⟨hlt, hget⟩ := List.getElem?_eq_some_iff.mp hj
    show pg.numCompletedSubreqs + 1 = (pg.subreqs.set j _).countP _
    rw [countP_set hlt, hget, hopen, h.count]
    rfl
  flag := hflag
  nonempty := by
    show 0 < (pg.subreqs.set j _).length
    rw [length_set]
    exact h.nonempty

namespace ReadRequest

variable {r r' : ReadRequest} {i j : Nat} {pg : PgReadRequest} {subreq : RawReadRequest}

structure Counted (r : ReadRequest) : Prop where
  total : r.numPgReqgroups = r.pgReqgroups.length
  count : r.numCompletedPgReqgroups = r.pgReqgroups.countP (·.completed)
  flag : r.completed = true ↔ r.numCompletedPgReqgroups = r.numPgReqgroups
  pgs : ∀ pg ∈ r.pgReqgroups, pg.Counted

theorem Counted.completed_iff (h : r.Counted) :
    r.completed = true ↔ ∀ pg ∈ r.pgReqgroups, pg.completed = true := by
  rw [h.flag, h.count, h.total]
  exact countP_eq_length

theorem subreqs_of_get (hi : r.pgReqgroups[i]? = some pg) : r.subreqs i = pg.subreqs := by
  rw [subreqs, hi]

theorem pgCompleted_of_get (hi : r.pgReqgroups[i]? = some pg) : r.pgCompleted i = pg.completed := by
  rw [pgCompleted, hi]
  rfl

structure Marked (r : ReadRequest) (i j : Nat) (r' : ReadRequest) : Prop where
  counted : r'.Counted
  varid : r'.varid = r.varid
  fired : r'.fired = r.fired
  length : r'.pgReqgroups.length = r.pgReqgroups.length
  lengths : ∀ a, (r'.subreqs a).length = (r.subreqs a).length
  subreq : ∀ a b, r'.subreqCompleted a b = true ↔ r.subreqCompleted a b = true ∨ (a = i ∧ b = j)
  pg : ∀ a, a ≠ i → r'.pgCompleted a = r.pgCompleted a
  waiting : ∀ pg subreq, r.pgReqgroups[i]? = some pg → pg.subreqs[j]? = some subreq →
    subreq.completed = false →
      r.waiting.Perm ((r.varid, pg.timestep, canonical subreq.rawSel) :: r'.waiting)

theorem marked_of_set {pg' : PgReadRequest} (hi : r.pgReqgroups[i]? = some pg)
    (hj : pg.subreqs[j]? = some subreq) (hcounted : r'.Counted) (hvarid : r'.varid = r.varid)
    (hfired : r'.fired = r.fired) (hpgs : r'.pgReqgroups = r.pgReqgroups.set i pg')
    (htimestep : pg'.timestep = pg.timestep)
    (hsubs : pg'.subreqs = pg.subreqs.set j { subreq with completed := true }) :
    Marked r i j r' := by
  have hlt : i < r.pgReqgroups.length := (List.getElem?_eq_some_iff.mp hi).1
  have hltj : j < pg.subreqs.length := (List.getElem?_eq_some_iff.mp hj).1
  have hself : r'.pgReqgroups[i]? = some pg' := by
    rw [hpgs]
    exact getElem?_set_self hlt
  have hother : ∀ a, a ≠ i → r'.pgReqgroups[a]? = r.pgReqgroups[a]? := fun a ha => by
    rw [hpgs]
    exact getElem?_set_ne (Ne.symm ha)
  have hsubreqs : ∀ a, a ≠ i → r'.subreqs a = r.subreqs a := fun a ha => by
    unfold subreqs
    rw [hother a ha]
  refine ⟨hcounted, hvarid, hfired, ?_, fun a => ?_, fun a b => ?_, fun a ha => ?_,
    fun pg₁ subreq₁ hi₁ hj₁ hopen => ?_⟩
  · rw [hpgs, length_set]
  · by_cases ha : a = i
    · rw [ha, subreqs_of_get hself, subreqs_of_get hi, hsubs, length_set]
    · rw [hsubreqs a ha]
  · unfold subreqCompleted
    by_cases ha : a = i
    · rw [ha, subreqs_of_get hself, subreqs_of_get hi, hsubs]
      by_cases hb : b = j
      · rw [hb, getElem?_set_self hltj]
        exact ⟨fun _ => .inr ⟨rfl, rfl⟩, fun _ => rfl⟩
      · rw [getElem?_set_ne (Ne.symm hb)]
        exact ⟨fun h => .inl h, fun h => h.resolve_right fun heq => hb heq.2⟩
    · rw [hsubreqs a ha]
      exact ⟨fun h => .inl h, fun h => h.resolve_right fun heq => ha heq.1⟩
  · unfold pgCompleted
    rw [hother a ha]
  · rw [hi] at hi₁
    cases hi₁
    rw [hj] at hj₁
    cases hj₁
    unfold ReadRequest.waiting
    rw [hpgs, hvarid]
    refine Lists.flatMap_perm_cons_set hi ?_
    unfold PgReadRequest.waiting
    rw [htimestep, hsubs]
    refine Lists.flatMap_perm_cons_set hj ?_
    show (if subreq.completed then [] else [_] : List Key).Perm [_]
    rw [hopen, if_neg Bool.false_ne_true]

theorem Counted.set (h : r.Counted) (hi : r.pgReqgroups[i]? = some pg) {pg' : PgReadRequest}
    (hcounted : pg'.Counted) (hopen : pg.completed = false) (completed : Bool) (n : Nat)
    (hn : n = r.numCompletedPgReqgroups + if pg'.completed then 1 else 0)
    (hflag : completed = true ↔ n = r.numPgReqgroups) :
    Counted { r with
      completed, pgReqgroups := r.pgReqgroups.set i pg', numCompletedPgReqgroups := n } where
  total := by
    show r.numPgReqgroups = (r.pgReqgroups.set i pg').length
    rw [length_set]
    exact h.total
  count := by
    obtain ⟨hlt, hget⟩ := List.getElem?_eq_some_iff.mp hi
    show n = (r.pgReqgroups.set i pg').countP _
    rw [countP_set hlt, hget, hopen, hn, h.count]
    rfl
  flag := hflag
  pgs := by
    intro pg₁ hpg₁
    cases mem_or_eq_of_mem_set hpg₁ with
    | inl hmem => exact h.pgs pg₁ hmem
    | inr heq => exact heq ▸ hcounted

theorem Counted.markComplete (h : r.Counted) (hi : r.pgReqgroups[i]? = some pg)
    (hj : pg.subreqs[j]? = some subreq) (hopen : subreq.completed = false) :
    Marked r i j (r.markComplete i j) := by
  have hpg := h.pgs pg (mem_of_getElem? hi)
  have hnotPg : pg.completed = false := Bool.eq_false_iff.mpr fun hcompleted => by
    rw [hpg.completed_iff.mp hcompleted subreq (mem_of_getElem? hj)] at hopen
    cases hopen
  have hnot : r.completed = false := Bool.eq_false_iff.mpr fun hcompleted => by
    rw [h.completed_iff.mp hcompleted pg (mem_of_getElem? hi)] at hnotPg
    cases hnotPg
  have hneq : r.numCompletedPgReqgroups ≠ r.numPgReqgroups := fun heq => by
    rw [h.flag.mpr heq] at hnot
    cases hnot
  unfold ReadRequest.markComplete
  rw [hi]
  dsimp only
  rw [hj]
  dsimp only
  rw [hopen, if_neg Bool.false_ne_true]
  by_cases hlast : pg.numCompletedSubreqs + 1 = pg.numSubreqs
  · rw [if_pos hlast]
    have hmarked := hpg.mark hj hopen true ⟨fun _ => hlast, fun _ => rfl⟩
    by_cases hall : r.numCompletedPgReqgroups + 1 = r.numPgReqgroups
    · rw [if_pos hall]
      refine marked_of_set hi hj ?_ rfl rfl rfl rfl rfl
      exact h.set hi hmarked hnotPg _ _ rfl ⟨fun _ => hall, fun _ => rfl⟩
    · rw [if_neg hall]
      refine marked_of_set hi hj ?_ rfl rfl rfl rfl rfl
      refine h.set hi hmarked hnotPg _ _ rfl ⟨fun hcompleted => ?_, fun heq => absurd heq hall⟩
      rw [hnot] at hcompleted
      cases hcompleted
  · rw [if_neg hlast]
    have hmarked := hpg.mark hj hopen pg.completed (by
      rw [hnotPg]
      exact ⟨fun heq => absurd heq Bool.false_ne_true, fun heq => absurd heq hlast⟩)
    refine marked_of_set hi hj ?_ rfl rfl rfl rfl rfl
    refine h.set hi hmarked hnotPg r.completed r.numCompletedPgReqgroups ?_ ?_
    · rw [hnotPg]
      rfl
    · rw [hnot]
      exact ⟨fun heq => absurd heq Bool.false_ne_true, fun heq => absurd heq hneq⟩

/-! ## Calls -/

/-- A request group; calls that are due are those of `late`. -/
structure Inv (r : ReadRequest) (late : List Callback) : Prop where
  counted : r.Counted
  fired : ∀ c, c ∈ r.fired ↔ r.Flag c ∧ c ∉ late
  behind : Lists.Behind r.Child r.fired

variable {late : List Callback} {c : Callback}

theorem Marked.child_eq (h : Marked r i j r') : r'.Child = r.Child := by
  funext d c
  cases d with
  | readReqgroup => rfl
  | subrequest a b =>
    cases c with
    | pgReqgroup a' =>
      show (a = a' ∧ b < (r'.subreqs a).length) = (a = a' ∧ b < (r.subreqs a).length)
      rw [h.lengths]
    | _ => rfl
  | pgReqgroup a =>
    cases c with
    | readReqgroup =>
      show (a < r'.pgReqgroups.length) = (a < r.pgReqgroups.length)
      rw [h.length]
    | _ => rfl

theorem flag_call (d : Callback) : (r.call c).Flag d ↔ r.Flag d := by
  cases d <;> exact Iff.rfl

theorem child_call : (r.call c).Child = r.Child := by
  funext d c
  cases d <;> cases c <;> rfl

theorem Inv.mark (h : r.Inv late) (hmarked : Marked r i j r')
    (hopen : r.subreqCompleted i j = false) (hpg : .pgReqgroup i ∉ r.fired)
    (hr : .readReqgroup ∉ r.fired) (hlate : ∀ c ∈ late, c = .pgReqgroup i ∨ c = .readReqgroup) :
    (r'.call (.subrequest i j)).Inv [.pgReqgroup i, .readReqgroup] where
  counted := ⟨hmarked.counted.total, hmarked.counted.count, hmarked.counted.flag,
    hmarked.counted.pgs⟩
  fired := by
    intro d
    rw [flag_call]
    show d ∈ r'.fired ++ [_] ↔ _
    rw [hmarked.fired, mem_append, mem_singleton, h.fired]
    cases d with
    | subrequest a b =>
      have hnot : ∀ cs : List Callback, (∀ c ∈ cs, c = .pgReqgroup i ∨ c = .readReqgroup) →
          .subrequest a b ∉ cs := fun cs hcs hmem => by
        obtain heq | heq := hcs _ hmem <;> cases heq
      have hflag : r'.Flag (.subrequest a b) ↔ r.Flag (.subrequest a b) ∨ (a = i ∧ b = j) :=
        hmarked.subreq a b
      rw [hflag, Callback.subrequest.injEq, and_iff_left (hnot late hlate),
        and_iff_left (hnot _ fun c hc => by simpa using hc)]
    | pgReqgroup a =>
      by_cases ha : a = i
      · rw [ha]
        refine iff_of_false (fun hor => ?_) fun hand => hand.2 mem_cons_self
        obtain hfired | heq := hor
        · exact hpg ((h.fired _).mpr hfired)
        · cases heq
      · have hflag : r'.Flag (.pgReqgroup a) ↔ r.Flag (.pgReqgroup a) := by
          show r'.pgCompleted a = true ↔ r.pgCompleted a = true
          rw [hmarked.pg a ha]
        have hnot : .pgReqgroup a ∉ late := fun hmem => by
          obtain heq | heq := hlate _ hmem
          · exact ha (Callback.pgReqgroup.inj heq)
          · cases heq
        rw [hflag, and_iff_left hnot]
        simp [ha]
    | readReqgroup =>
      refine iff_of_false (fun hor => ?_) fun hand => hand.2 (by simp)
      obtain hfired | heq := hor
      · exact hr ((h.fired _).mpr hfired)
      · cases heq
  behind := by
    rw [child_call, hmarked.child_eq]
    show Lists.Behind r.Child (r'.fired ++ [_])
    rw [hmarked.fired]
    refine h.behind.concat (fun hmem => ?_) fun d hd => ?_
    · have hflag : r.subreqCompleted i j = true := ((h.fired _).mp hmem).1
      rw [hopen] at hflag
      cases hflag
    · cases d <;> cases hd

theorem Inv.fire (h : r.Inv (c :: late)) (hflag : r.Flag c) (hc : c ∉ late)
    (hchildren : ∀ d, r.Child d c → d ∈ r.fired) : (r.call c).Inv late where
  counted := ⟨h.counted.total, h.counted.count, h.counted.flag, h.counted.pgs⟩
  fired := by
    intro d
    rw [flag_call]
    show d ∈ r.fired ++ [c] ↔ _
    rw [mem_append, mem_singleton, h.fired, mem_cons, not_or]
    by_cases hd : d = c
    · rw [hd]
      exact iff_of_true (.inr rfl) ⟨hflag, hc⟩
    · exact ⟨fun hor => hor.elim (fun hand => ⟨hand.1, hand.2.2⟩) fun heq => absurd heq hd,
        fun hand => .inl ⟨hand.1, hd, hand.2⟩⟩
  behind := by
    rw [child_call]
    refine h.behind.concat (fun hmem => ?_) hchildren
    exact ((h.fired c).mp hmem).2 mem_cons_self

theorem Inv.drop (h : r.Inv (c :: late)) (hflag : ¬r.Flag c) : r.Inv late where
  counted := h.counted
  fired := by
    intro d
    rw [h.fired, mem_cons, not_or]
    by_cases hd : d = c
    · rw [hd]
      exact iff_of_false (fun hand => hflag hand.1) fun hand => hflag hand.1
    · exact ⟨fun hand => ⟨hand.1, hand.2.2⟩, fun hand => ⟨hand.1, hd, hand.2⟩⟩
  behind := h.behind

theorem Inv.wait (h : r.Inv late) (hfired : c ∉ r.fired) : r.Inv (c :: late) where
  counted := h.counted
  fired := by
    intro d
    rw [mem_cons, not_or, h.fired]
    refine ⟨fun hand => ⟨hand.1, fun heq => ?_, hand.2⟩, fun hand => ⟨hand.1, hand.2.2⟩⟩
    rw [heq, ← h.fired] at hand
    exact hfired hand
  behind := h.behind

theorem subreqCompleted_of_get (hi : r.pgReqgroups[i]? = some pg)
    (hj : pg.subreqs[j]? = some subreq) : r.subreqCompleted i j = subreq.completed := by
  rw [subreqCompleted, subreqs_of_get hi, hj]
  rfl

theorem Inv.children_pg (h : r.Inv [.pgReqgroup i, .readReqgroup])
    (hflag : r.pgCompleted i = true) :
    ∀ d, r.Child d (.pgReqgroup i) → d ∈ r.fired := by
  intro d hd
  cases d with
  | pgReqgroup a => cases hd
  | readReqgroup => cases hd
  | subrequest a b =>
    obtain ⟨rfl, hb⟩ : a = i ∧ b < (r.subreqs a).length := hd
    refine (h.fired _).mpr ⟨?_, by simp⟩
    show r.subreqCompleted a b = true
    cases hget : r.pgReqgroups[a]? with
    | none =>
      rw [pgCompleted, hget] at hflag
      cases hflag
    | some pg =>
      rw [subreqs_of_get hget] at hb
      rw [pgCompleted_of_get hget] at hflag
      have hall := (h.counted.pgs pg (mem_of_getElem? hget)).completed_iff.mp hflag
      have hj : pg.subreqs[b]? = some pg.subreqs[b] := getElem?_eq_getElem hb
      rw [subreqCompleted_of_get hget hj]
      exact hall _ (getElem_mem hb)

theorem Inv.children (h : r.Inv [.readReqgroup]) (hflag : r.completed = true) :
    ∀ d, r.Child d .readReqgroup → d ∈ r.fired := by
  intro d hd
  cases d with
  | subrequest a b => cases hd
  | readReqgroup => cases hd
  | pgReqgroup a =>
    have ha : a < r.pgReqgroups.length := hd
    refine (h.fired _).mpr ⟨?_, by simp⟩
    show r.pgCompleted a = true
    have hget : r.pgReqgroups[a]? = some r.pgReqgroups[a] := getElem?_eq_getElem ha
    rw [pgCompleted_of_get hget]
    exact h.counted.completed_iff.mp hflag _ (getElem_mem ha)

theorem Inv.fire_pg (h : r.Inv [.pgReqgroup i, .readReqgroup]) (hflag : r.pgCompleted i = true) :
    (r.call (.pgReqgroup i)).Inv [.readReqgroup] :=
  h.fire hflag (by simp) (h.children_pg hflag)

theorem Inv.fire_last (h : r.Inv [.readReqgroup]) (hflag : r.completed = true) :
    (r.call .readReqgroup).Inv [] :=
  h.fire hflag (by simp) (h.children hflag)

theorem Inv.finishSubreq (h : r.Inv []) (hi : r.pgReqgroups[i]? = some pg)
    (hj : pg.subreqs[j]? = some subreq) (hopen : subreq.completed = false) :
    ∃ r', r.finishSubreq i j = .ok r' ∧ r'.Inv [] ∧
      r.waiting.Perm ((r.varid, pg.timestep, canonical subreq.rawSel) :: r'.waiting) := by
  have hpg := h.counted.pgs pg (mem_of_getElem? hi)
  have hsub : r.subreqCompleted i j = false := by rw [subreqCompleted_of_get hi hj, hopen]
  have hnotPg : pg.completed = false := Bool.eq_false_iff.mpr fun hcompleted => by
    rw [hpg.completed_iff.mp hcompleted subreq (mem_of_getElem? hj)] at hopen
    cases hopen
  have hnot : r.completed = false := Bool.eq_false_iff.mpr fun hcompleted => by
    rw [h.counted.completed_iff.mp hcompleted pg (mem_of_getElem? hi)] at hnotPg
    cases hnotPg
  have hassert : ¬(r.subreqCompleted i j = true ∨ r.pgCompleted i = true ∨ r.completed = true) := by
    rw [hsub, pgCompleted_of_get hi, hnotPg, hnot]
    decide
  have hmarked := h.counted.markComplete hi hj hopen
  have hfiredPg : .pgReqgroup i ∉ r.fired := fun hmem => by
    have hflag : r.pgCompleted i = true := ((h.fired _).mp hmem).1
    rw [pgCompleted_of_get hi, hnotPg] at hflag
    cases hflag
  have hfired : .readReqgroup ∉ r.fired := fun hmem => by
    have hflag : r.completed = true := ((h.fired _).mp hmem).1
    rw [hnot] at hflag
    cases hflag
  have hwaiting := hmarked.waiting pg subreq hi hj hopen
  have hmark := h.mark hmarked hsub hfiredPg hfired (by simp)
  unfold ReadRequest.finishSubreq
  rw [if_neg hassert]
  refine ⟨_, rfl, ?_, ?_⟩
  · by_cases hcompleted : ((r.markComplete i j).call (.subrequest i j)).pgCompleted i = true
    · rw [if_pos hcompleted]
      have hnext := hmark.fire_pg hcompleted
      split_ifs with hall
      · exact hnext.fire_last hall
      · exact hnext.drop hall
    · rw [if_neg hcompleted]
      have hnext := hmark.drop hcompleted
      split_ifs with hall
      · exact hnext.fire_last hall
      · exact hnext.drop hall
  · split_ifs <;> exact hwaiting

/-! ## All reads of a blocking call -/

theorem exists_get_of_lt (hj : j < (r.subreqs i).length) :
    ∃ pg subreq, r.pgReqgroups[i]? = some pg ∧ pg.subreqs[j]? = some subreq := by
  unfold subreqs at hj
  cases hget : r.pgReqgroups[i]? with
  | none =>
    rw [hget] at hj
    cases hj
  | some pg =>
    rw [hget] at hj
    exact ⟨pg, pg.subreqs[j], rfl, getElem?_eq_getElem hj⟩

/-- The loop over the raw reads of process group `i`, in front of the read at place `j`. -/
structure InPg (start : ReadRequest) (i j : Nat) (r : ReadRequest) : Prop where
  inv : r.Inv [.pgReqgroup i, .readReqgroup]
  length : r.pgReqgroups.length = start.pgReqgroups.length
  lengths : ∀ a, (r.subreqs a).length = (start.subreqs a).length
  marked : ∀ b < j, r.subreqCompleted i b = true
  others : ∀ a, a ≠ i → r.pgCompleted a = start.pgCompleted a

variable {start : ReadRequest}

theorem InPg.next (h : InPg start i j r) (hj : j < (start.subreqs i).length) :
    ∃ r', completeSubreq i r j = .ok r' ∧ InPg start i (j + 1) r' := by
  unfold completeSubreq
  by_cases hdone : r.subreqCompleted i j = true
  · rw [if_pos hdone]
    refine ⟨r, rfl, h.inv, h.length, h.lengths, fun b hb => ?_, h.others⟩
    cases Nat.lt_succ_iff_lt_or_eq.mp hb with
    | inl hlt => exact h.marked b hlt
    | inr heq => exact heq ▸ hdone
  · rw [if_neg hdone]
    rw [← h.lengths] at hj
    obtain ⟨pg, subreq, hi, hget⟩ := exists_get_of_lt hj
    have hopen : r.subreqCompleted i j = false := Bool.eq_false_iff.mpr hdone
    rw [subreqCompleted_of_get hi hget] at hopen
    have hmarked := h.inv.counted.markComplete hi hget hopen
    have hself : (r.markComplete i j).subreqCompleted i j = true :=
      (hmarked.subreq i j).mpr (.inr ⟨rfl, rfl⟩)
    dsimp only
    rw [if_neg (not_not.mpr hself)]
    refine ⟨_, rfl, ?_, ?_, fun a => ?_, fun b hb => ?_, fun a ha => ?_⟩
    · refine h.inv.mark hmarked (Bool.eq_false_iff.mpr hdone) (fun hmem => ?_) (fun hmem => ?_)
        (by simp)
      · exact ((h.inv.fired _).mp hmem).2 (by simp)
      · exact ((h.inv.fired _).mp hmem).2 (by simp)
    · exact hmarked.length.trans h.length
    · exact (hmarked.lengths a).trans (h.lengths a)
    · refine (hmarked.subreq i b).mpr ?_
      cases Nat.lt_succ_iff_lt_or_eq.mp hb with
      | inl hlt => exact .inl (h.marked b hlt)
      | inr heq => exact .inr ⟨rfl, heq⟩
    · exact (hmarked.pg a ha).trans (h.others a ha)

/-- The loop over the process groups, in front of the one at place `i`. -/
structure InRequest (start : ReadRequest) (i : Nat) (r : ReadRequest) : Prop where
  inv : r.Inv [.readReqgroup]
  length : r.pgReqgroups.length = start.pgReqgroups.length
  completed : ∀ a < i, r.pgCompleted a = true

theorem InRequest.next (h : InRequest start i r) (hi : i < start.pgReqgroups.length) :
    ∃ r', completePg r i = .ok r' ∧ InRequest start (i + 1) r' := by
  unfold completePg
  by_cases hdone : r.pgCompleted i = true
  · rw [if_pos hdone]
    refine ⟨r, rfl, h.inv, h.length, fun a ha => ?_⟩
    cases Nat.lt_succ_iff_lt_or_eq.mp ha with
    | inl hlt => exact h.completed a hlt
    | inr heq => exact heq ▸ hdone
  · rw [if_neg hdone]
    have hfired : .pgReqgroup i ∉ r.fired := fun hmem => hdone ((h.inv.fired _).mp hmem).1
    have hstart : InPg r i 0 r :=
      ⟨h.inv.wait hfired, rfl, fun _ => rfl, fun b hb => absurd hb (Nat.not_lt_zero b),
        fun _ _ => rfl⟩
    obtain ⟨r', hloop, hin⟩ := Lists.exists_foldlM_range hstart fun j hj t ht => ht.next hj
    rw [hloop, ok_bind]
    -- all raw reads are completed, so the process group is
    have hcompleted : r'.pgCompleted i = true := by
      have hlt : i < r'.pgReqgroups.length := by
        rw [hin.length, h.length]
        exact hi
      have hget : r'.pgReqgroups[i]? = some r'.pgReqgroups[i] := getElem?_eq_getElem hlt
      have hpg := hin.inv.counted.pgs _ (getElem_mem hlt)
      rw [pgCompleted_of_get hget]
      refine hpg.completed_iff.mpr fun subreq hsubreq => ?_
      obtain ⟨b, hb, rfl⟩ := mem_iff_getElem.mp hsubreq
      have hb' : b < (r.subreqs i).length := by
        rw [← hin.lengths, subreqs_of_get hget]
        exact hb
      have hflag := hin.marked b hb'
      rw [subreqCompleted_of_get hget (getElem?_eq_getElem hb)] at hflag
      exact hflag
    rw [if_neg (not_not.mpr hcompleted)]
    refine ⟨_, rfl, hin.inv.fire_pg hcompleted, ?_, fun a ha => ?_⟩
    · exact hin.length.trans h.length
    · show r'.pgCompleted a = true
      cases Nat.lt_succ_iff_lt_or_eq.mp ha with
      | inl hlt =>
        rw [hin.others a (Nat.ne_of_lt hlt)]
        exact h.completed a hlt
      | inr heq => exact heq ▸ hcompleted

theorem Inv.process (h : r.Inv []) :
    ∃ r', r.process = .ok r' ∧ r'.Inv [] ∧ r'.completed = true := by
  unfold ReadRequest.process
  by_cases hdone : r.completed = true
  · rw [if_pos hdone]
    exact ⟨r, rfl, h, hdone⟩
  · rw [if_neg hdone]
    have hfired : .readReqgroup ∉ r.fired := fun hmem => hdone ((h.fired _).mp hmem).1
    have hstart : InRequest r 0 r :=
      ⟨h.wait hfired, rfl, fun a ha => absurd ha (Nat.not_lt_zero a)⟩
    obtain ⟨r', hloop, hin⟩ := Lists.exists_foldlM_range hstart fun i hi t ht => ht.next hi
    rw [hloop, ok_bind]
    have hcompleted : r'.completed = true := by
      refine hin.inv.counted.completed_iff.mpr fun pg hpg => ?_
      obtain ⟨a, ha, rfl⟩ := mem_iff_getElem.mp hpg
      have hflag := hin.completed a (by
        rw [← hin.length]
        exact ha)
      rw [pgCompleted_of_get (getElem?_eq_getElem ha)] at hflag
      exact hflag
    rw [if_neg (not_not.mpr hcompleted)]
    exact ⟨_, rfl, hin.inv.fire_last hcompleted, hcompleted⟩

end ReadRequest

end Adios.RequestGroups
