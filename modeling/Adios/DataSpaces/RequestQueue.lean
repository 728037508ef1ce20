import Adios.Heap.LinkedList
import Adios.Runs.Every
import Adios.Types

/-!
# DataSpaces — the queue of read requests

`adios_read_dataspaces_schedule_read_byid` appends to a list with a pointer to its tail;
`adios_read_dataspaces_perform_reads` and `adios_read_dataspaces_check_reads` serve what is at the
head of it and free it. `adios_errno` is 0 when one of them is called.
-/

namespace Adios.RequestQueue

open List Heap Runs

/-! ## The code -/

/-- `read_request`, with the memory of the user if there is any. -/
structure Request where
  varid : Nat
  data : Option Nat
  datasize : UInt64

/-- `req_list` and `req_list_tail`, the memory that they point to, which `malloc` hands out from
`next` on, and what has been accepted and served so far. -/
structure Queue where
  store : Store Request
  next : Addr
  reqList : Option Addr
  reqListTail : Option Addr
  accepted : List Request
  served : List Request

/-- Behind `adios_read_dataspaces_open`. -/
def Queue.init : Queue := ⟨.empty, 0, none, none, [], []⟩

/-- What the arguments of a call ask for: the selection does not fit the variable, or selects nothing
for this process. -/
inductive Target where
  | outOfBound
  | nothing
  | request (r : Request)

/-- A call; `memory` tells whether `malloc` succeeds, and a read `fails` when it sets `adios_errno`.
-/
inductive Call where
  | scheduleRead (nsteps : Int) (memory : Bool) (target : Target)
  | checkReads (fails : Bool)
  | performReads (blocking : Bool) (fails : Request → Bool)

inductive Reply where
  | noError
  | chunk
  | invalidTimestep
  | noMemory
  | outOfBound
  | operationNotSupported
  | readFailed
  deriving DecidableEq

/-- "`while (head->next)`" -/
def lastCell (store : Store Request) : Nat → Addr → Except Fault (Addr × Request)
  | 0, _ => .error .endless
  | n + 1, head =>
    match store head with
    | none => .error .wildPointer
    | some ⟨r, none⟩ => .ok (head, r)
    | some ⟨_, some a⟩ => lastCell store n a

namespace Queue

variable (q : Queue)

/-- `list_append_read_request_list`, with what is in `*h` behind it. -/
def listAppend (h : Option Addr) (a : Addr) : Except Fault (Store Request × Option Addr) :=
  match h with
  | none => .ok (q.store, some a)
  | some head => do
    let (last, r) ← lastCell q.store q.next head
    .ok (q.store.set last ⟨r, some a⟩, some head)

/-- The end of `adios_read_dataspaces_schedule_read_byid`. -/
def append (r : Request) : Except Fault Queue := do
  let a := q.next
  let q := { q with store := q.store.set a ⟨r, none⟩, next := a + 1, accepted := q.accepted ++ [r] }
  match q.reqList with
  | none => do
    let (store, reqList) ← q.listAppend none a
    .ok { q with store, reqList, reqListTail := reqList }
  | some _ => do
    -- "just speed up insert directly after the tail"
    let (store, reqListTail) ← q.listAppend q.reqListTail a
    .ok { q with store, reqListTail }

def serve (a : Addr) : Except Fault (Request × Queue) :=
  match q.store a with
  | none => .error .wildPointer
  | some ⟨r, next⟩ =>
    .ok (r, { q with store := q.store.free a, reqList := next, served := q.served ++ [r] })

end Queue

def withoutMemory (store : Store Request) : Nat → Option Addr → Except Fault Bool
  | _, none => .ok false
  | 0, some _ => .error .endless
  | n + 1, some a =>
    match store a with
    | none => .error .wildPointer
    | some ⟨r, next⟩ => if r.data = none then .ok true else withoutMemory store n next

/-- "`while (ds->req_list != NULL && adios_errno == err_no_error)`", and whether `adios_errno` has
been set. -/
def serveAll (fails : Request → Bool) : Nat → Queue → Except Fault (Bool × Queue)
  | 0, q => if q.reqList = none then .ok (false, q) else .error .endless
  | n + 1, q =>
    match q.reqList with
    | none => .ok (false, q)
    | some a => do
      let (r, q) ← q.serve a
      if fails r then .ok (true, q) else serveAll fails n q

namespace Queue

variable (q : Queue)

/-- `adios_read_dataspaces_schedule_read_byid` -/
def scheduleRead (nsteps : Int) (memory : Bool) (target : Target) : Except Fault (Queue × Reply) :=
  if nsteps ≠ 1 then .ok (q, .invalidTimestep)
  else if memory = false then .ok (q, .noMemory)
  else
    match target with
    | .outOfBound => .ok (q, .outOfBound)
    | .nothing => .ok (q, .noError)
    | .request r => (q.append r).map (·, .noError)

/-- `adios_read_dataspaces_check_reads` -/
def checkReads (fails : Bool) : Except Fault (Queue × Reply) :=
  match q.reqList with
  | none => .ok ({ q with reqListTail := none }, .noError)
  | some a => (q.serve a).map fun s => (s.2, if fails then .readFailed else .chunk)

/-- `adios_read_dataspaces_perform_reads` -/
def performReads (blocking : Bool) (fails : Request → Bool) : Except Fault (Queue × Reply) :=
  if blocking = false then .ok (q, .noError)
  else do
    if ← withoutMemory q.store q.next q.reqList then .ok (q, .operationNotSupported)
    else do
      let (failed, q) ← serveAll fails q.next q
      .ok ({ q with reqListTail := none }, if failed then .readFailed else .noError)

def step : Call → Except Fault (Option (Queue × Reply))
  | .scheduleRead nsteps memory target => (q.scheduleRead nsteps memory target).map some
  | .checkReads fails => (q.checkReads fails).map some
  | .performReads blocking fails => (q.performReads blocking fails).map some

/-! ## The statement -/

/-- The tail is null or in the list, and what has been accepted is what has been served and then what
is in the list, in this order. -/
def Sound : Prop :=
  ∃ cells, IsList q.store q.reqList cells ∧ (∀ a, q.reqListTail = some a → a ∈ addrs cells) ∧
    q.accepted = q.served ++ cells.map Prod.snd

def Kept (c : Call) : Prop :=
  ∃ q' reply, q.step c = .ok (some (q', reply)) ∧ q'.Sound

/-- A request is accepted into an empty list or into one with a tail, and is taken from a list without
one by `check_reads`. -/
def Clear : Call → Prop
  | .scheduleRead nsteps memory (.request _) =>
    nsteps = 1 → memory = true → q.reqList = none ∨ q.reqListTail ≠ none
  | .checkReads _ => q.reqList = none ∨ q.reqListTail = none
  | _ => True

structure Holds (cells : List (Addr × Request)) : Prop where
  list : IsList q.store q.reqList cells
  length : cells.length ≤ q.next
  free : ∀ a, q.next ≤ a → q.store a = none
  served : q.accepted = q.served ++ cells.map Prod.snd

def Inv : Prop :=
  (∃ cells, q.Holds cells) ∧ (q.reqListTail = none ∨ q.reqListTail = q.reqList)

end Queue

/-! ## Walks -/

section

variable {store : Store Request} {p : Option Addr} {cells : List (Addr × Request)} {n : Nat}

theorem lastCell_eq {x : Addr × Request} {a : Addr} (h : IsList store (some a) (cells ++ [x]))
    (hn : cells.length < n) : lastCell store n a = .ok x := by
  induction cells generalizing a n with
  | nil =>
    obtain ⟨n, rfl⟩ := Nat.exists_eq_succ_of_ne_zero (Nat.ne_of_gt hn)
    obtain ⟨ha, next, hcell, rfl⟩ := h
    obtain rfl := Option.some.inj ha
    rw [lastCell, hcell]
  | cons y cells ih =>
    obtain ⟨n, rfl⟩ := Nat.exists_eq_succ_of_ne_zero (Nat.ne_of_gt (Nat.zero_lt_of_lt hn))
    obtain ⟨ha, next, hcell, hrest⟩ := h
    obtain rfl := Option.some.inj ha
    obtain ⟨b, rfl⟩ : ∃ b, next = some b := by
      cases cells with
      | nil => exact ⟨_, hrest.1⟩
      | cons z cells => exact ⟨_, hrest.1⟩
    rw [lastCell, hcell]
    exact ih hrest (Nat.lt_of_succ_lt_succ hn)

theorem withoutMemory_ok (h : IsList store p cells) (hn : cells.length ≤ n) :
    ∃ missing, withoutMemory store n p = .ok missing := by
  induction cells generalizing p n with
  | nil =>
    obtain rfl : p = none := h
    exact ⟨false, by rw [withoutMemory]⟩
  | cons x cells ih =>
    obtain ⟨n, rfl⟩ := Nat.exists_eq_succ_of_ne_zero (Nat.ne_of_gt (Nat.zero_lt_of_lt hn))
    obtain ⟨rfl, next, hcell, hrest⟩ := h
    rw [withoutMemory, hcell]
    dsimp only
    split_ifs
    · exact ⟨true, rfl⟩
    · exact ih hrest (Nat.le_of_succ_le_succ hn)

end

namespace Queue

variable {q q' : Queue}

variable {cells : List (Addr × Request)} {x : Addr × Request}

theorem inv_init : init.Inv := ⟨⟨[], rfl, Nat.le_refl 0, fun _ _ => rfl, rfl⟩, .inl rfl⟩

theorem Holds.head (h : q.Holds (x :: cells)) : q.reqList = some x.1 := h.list.1

theorem Holds.eq_nil (h : q.Holds cells) (hnone : q.reqList = none) : cells = [] := by
  cases cells with
  | nil => rfl
  | cons x cells => cases hnone.symm.trans h.head

theorem Inv.sound (h : q.Inv) : q.Sound := by
  obtain ⟨⟨cells, hcells⟩, htail⟩ := h
  refine ⟨cells, hcells.list, fun a ha => ?_, hcells.served⟩
  have hhead : q.reqList = some a := by
    rcases htail with hnone | hhead
    · cases hnone.symm.trans ha
    · rw [← hhead, ha]
  cases cells with
  | nil => cases hhead.symm.trans hcells.list
  | cons x cells =>
    obtain rfl := Option.some.inj (hhead.symm.trans hcells.head)
    exact mem_cons_self

/-! ## Taking from the list -/

theorem Holds.serve (h : q.Holds (x :: cells)) :
    ∃ q', q.serve x.1 = .ok (x.2, q') ∧ q'.Holds cells ∧ q'.reqListTail = q.reqListTail ∧
      q'.store = q.store.free x.1 ∧ q'.next = q.next := by
  obtain ⟨-, next, hcell, hrest⟩ := h.list
  have hnodup := h.list.nodup
  rw [addrs_cons, nodup_cons] at hnodup
  refine ⟨{ q with store := q.store.free x.1, reqList := next, served := q.served ++ [x.2] },
    by rw [Queue.serve, hcell], ⟨hrest.free hnodup.1, Nat.le_of_succ_le h.length, fun a ha => ?_, ?_⟩,
    rfl, rfl, rfl⟩
  · show (if a = x.1 then none else q.store a) = none
    rw [h.free a ha, ite_self]
  · show q.accepted = (q.served ++ [x.2]) ++ cells.map Prod.snd
    rw [h.served, append_assoc]
    rfl

theorem Holds.serveAll (fails : Request → Bool) {n : Nat} (h : q.Holds cells)
    (hn : cells.length ≤ n) :
    ∃ failed q' rest, serveAll fails n q = .ok (failed, q') ∧ q'.Holds rest := by
  induction cells generalizing q n with
  | nil =>
    have hnone : q.reqList = none := h.list
    refine ⟨false, q, [], ?_, h⟩
    cases n with
    | zero => exact if_pos hnone
    | succ n => rw [RequestQueue.serveAll, hnone]
  | cons x cells ih =>
    obtain ⟨n, rfl⟩ := Nat.exists_eq_succ_of_ne_zero (Nat.ne_of_gt (Nat.zero_lt_of_lt hn))
    obtain ⟨q', hserve, hcells, -⟩ := h.serve
    rw [RequestQueue.serveAll, h.head]
    dsimp only
    rw [hserve]
    show ∃ failed q'' rest, (if fails x.2 then Except.ok (true, q') else
      RequestQueue.serveAll fails n q') = Except.ok (failed, q'') ∧ q''.Holds rest
    split_ifs
    · exact ⟨true, q', cells, rfl, hcells⟩
    · exact ih hcells (Nat.le_of_succ_le_succ hn)

theorem Holds.append (h : q.Holds cells) (hclear : q.reqList = none ∨ q.reqListTail = q.reqList)
    (r : Request) : ∃ q', q.append r = .ok q' ∧ q'.Holds (cells ++ [(q.next, r)]) ∧
      q'.reqListTail = q'.reqList := by
  have hfresh : q.next ∉ addrs cells := Seg.notMem_of_none h.list (h.free _ (Nat.le_refl _))
  have hlen : (cells ++ [(q.next, r)]).length ≤ q.next + 1 := by
    rw [length_append]
    exact Nat.succ_le_succ h.length
  have hserved : q.accepted ++ [r] = q.served ++ (cells ++ [(q.next, r)]).map Prod.snd := by
    rw [h.served, map_append, append_assoc]
    rfl
  have hnew : IsList (q.store.set q.next ⟨r, none⟩) (some q.next) [(q.next, r)] :=
    ⟨rfl, none, Store.set_self _ _ _, rfl⟩
  rcases eq_nil_or_concat' cells with rfl | ⟨front, last, rfl⟩
  · have hnone : q.reqList = none := h.list
    refine ⟨⟨q.store.set q.next ⟨r, none⟩, q.next + 1, some q.next, some q.next, q.accepted ++ [r],
      q.served⟩, ?_, ⟨hnew, hlen, fun a ha => ?_, hserved⟩, rfl⟩
    · rw [Queue.append, hnone]
      rfl
    · exact (Store.set_of_ne _ _ (Nat.ne_of_gt ha)).trans (h.free a (Nat.le_of_succ_le ha))
  · -- from the head the walk comes to the last cell
    obtain ⟨a, ha⟩ : ∃ a, q.reqList = some a := by
      cases hhead : q.reqList with
      | some a => exact ⟨a, rfl⟩
      | none => cases append_ne_nil_of_right_ne_nil _ (cons_ne_nil _ _) (h.eq_nil hhead)
    have htail : q.reqListTail = some a :=
      (hclear.resolve_left fun hnone => by cases ha.symm.trans hnone).trans ha
    have hkept : IsList (q.store.set q.next ⟨r, none⟩) (some a) (front ++ [last]) :=
      ha ▸ h.list.set hfresh
    have hlast : last.1 ≠ q.next := fun heq => hfresh (heq ▸ mem_addrs (by simp))
    have hwalk := lastCell_eq hkept (n := q.next + 1) (by
      have hlength := h.length
      rw [length_append] at hlength
      exact Nat.lt_succ_of_le (Nat.le_of_succ_le hlength))
    refine ⟨⟨(q.store.set q.next ⟨r, none⟩).set last.1 ⟨last.2, some q.next⟩, q.next + 1, some a,
      some a, q.accepted ++ [r], q.served⟩, ?_,
      ⟨hkept.link hnew (by simpa using hlast), hlen, fun b hb => ?_, hserved⟩, rfl⟩
    · rw [Queue.append, ha]
      dsimp only
      rw [htail, listAppend]
      dsimp only
      rw [hwalk]
      rfl
    · have hne : b ≠ last.1 := fun heq => by
        obtain ⟨next, hcell⟩ := h.list.cell (x := last) (by simp)
        rw [← heq, h.free b (Nat.le_of_succ_le hb)] at hcell
        cases hcell
      exact (Store.set_of_ne _ _ hne).trans
        ((Store.set_of_ne _ _ (Nat.ne_of_gt hb)).trans (h.free b (Nat.le_of_succ_le hb)))

theorem Holds.append_lost (h : q.Holds (x :: cells)) (htail : q.reqListTail = none) (r : Request) :
    ∃ q', q.append r = .ok q' ∧ ¬q'.Sound := by
  have hfresh : q.next ∉ addrs (x :: cells) :=
    Seg.notMem_of_none h.list (h.free _ (Nat.le_refl _))
  refine ⟨⟨q.store.set q.next ⟨r, none⟩, q.next + 1, q.reqList, some q.next, q.accepted ++ [r],
    q.served⟩, ?_, fun hsound => ?_⟩
  · rw [Queue.append, h.head]
    dsimp only
    rw [htail]
    rfl
  · obtain ⟨cells', hlist, hmem, -⟩ := hsound
    rw [IsList.unique hlist (h.list.set hfresh)] at hmem
    exact hfresh (hmem _ rfl)

/-! ## A call -/

variable {c : Call}

theorem scheduleRead_eq {nsteps : Int} (h : nsteps = 1) (target : Target) :
    q.scheduleRead nsteps true target =
      match target with
      | .outOfBound => .ok (q, .outOfBound)
      | .nothing => .ok (q, .noError)
      | .request r => (q.append r).map (·, .noError) :=
  (if_neg (not_not.mpr h)).trans (if_neg (by decide))

theorem step_of_clear (h : q.Inv) (hclear : q.Clear c) :
    ∃ q' reply, q.step c = .ok (some (q', reply)) ∧ q'.Inv := by
  obtain ⟨⟨cells, hcells⟩, htail⟩ := h
  cases c with
  | scheduleRead nsteps memory target =>
    show ∃ q' reply, (q.scheduleRead nsteps memory target).map some = _ ∧ _
    by_cases hsteps : nsteps = 1
    · cases hmemory : memory with
      | false =>
        have hrefused : q.scheduleRead nsteps false target = .ok (q, .noMemory) :=
          (if_neg (not_not.mpr hsteps)).trans (if_pos rfl)
        rw [hrefused]
        exact ⟨q, _, rfl, ⟨cells, hcells⟩, htail⟩
      | true =>
        rw [scheduleRead_eq hsteps]
        cases target with
        | outOfBound => exact ⟨q, _, rfl, ⟨cells, hcells⟩, htail⟩
        | nothing => exact ⟨q, _, rfl, ⟨cells, hcells⟩, htail⟩
        | request r =>
          have hlink : q.reqList = none ∨ q.reqListTail = q.reqList :=
            (hclear hsteps hmemory).imp_right fun hne => htail.resolve_left hne
          obtain ⟨q', happend, hcells', htail'⟩ := hcells.append hlink r
          dsimp only
          rw [happend]
          exact ⟨q', _, rfl, ⟨_, hcells'⟩, .inr htail'⟩
    · have hrefused : q.scheduleRead nsteps memory target = .ok (q, .invalidTimestep) :=
        if_pos hsteps
      rw [hrefused]
      exact ⟨q, _, rfl, ⟨cells, hcells⟩, htail⟩
  | checkReads fails =>
    show ∃ q' reply, (q.checkReads fails).map some = _ ∧ _
    cases cells with
    | nil =>
      have hnone : q.reqList = none := hcells.list
      have hread : q.checkReads fails = .ok ({ q with reqListTail := none }, .noError) := by
        unfold Queue.checkReads
        rw [hnone]
      rw [hread]
      exact ⟨_, _, rfl, ⟨[], hcells.list, hcells.length, hcells.free, hcells.served⟩, .inl rfl⟩
    | cons x cells =>
      obtain ⟨q', hserve, hcells', htail', -⟩ := hcells.serve
      rw [Queue.checkReads, hcells.head]
      dsimp only
      rw [hserve]
      have hnone := hclear.resolve_left fun hnone => by cases hcells.head.symm.trans hnone
      exact ⟨q', _, rfl, ⟨_, hcells'⟩, .inl (htail'.trans hnone)⟩
  | performReads blocking fails =>
    show ∃ q' reply, (q.performReads blocking fails).map some = _ ∧ _
    rw [Queue.performReads]
    cases blocking with
    | false => exact ⟨q, _, rfl, ⟨cells, hcells⟩, htail⟩
    | true =>
      obtain ⟨missing, hwalk⟩ := withoutMemory_ok hcells.list hcells.length
      obtain ⟨failed, q', rest, hserve, hrest⟩ := hcells.serveAll fails hcells.length
      rw [if_neg (by decide), hwalk]
      cases missing with
      | true => exact ⟨q, _, rfl, ⟨cells, hcells⟩, htail⟩
      | false =>
        refine ⟨{ q' with reqListTail := none }, if failed then .readFailed else .noError, ?_,
          ⟨rest, ⟨hrest.list, hrest.length, hrest.free, hrest.served⟩⟩, .inl rfl⟩
        show ((serveAll fails q.next q >>= fun s => Except.ok _).map some) = _
        rw [hserve]
        rfl

theorem not_kept_of_not_clear (h : q.Inv) (hclear : ¬q.Clear c) : ¬q.Kept c := by
  obtain ⟨⟨cells, hcells⟩, htail⟩ := h
  rintro ⟨q', reply, hstep, hsound⟩
  cases c with
  | scheduleRead nsteps memory target =>
    cases target with
    | outOfBound => exact hclear trivial
    | nothing => exact hclear trivial
    | request r =>
      simp only [Clear, not_forall, not_or, not_not] at hclear
      obtain ⟨hsteps, hmemory, hhead, hnone⟩ := hclear
      cases cells with
      | nil => exact hhead hcells.list
      | cons x cells =>
        obtain ⟨q'', happend, hlost⟩ := hcells.append_lost hnone r
        rw [hmemory] at hstep
        have hstep : (q.scheduleRead nsteps true (.request r)).map some = _ := hstep
        rw [scheduleRead_eq hsteps] at hstep
        dsimp only at hstep
        rw [happend] at hstep
        cases hstep
        exact hlost hsound
  | checkReads fails =>
    simp only [Clear, not_or] at hclear
    cases cells with
    | nil => exact hclear.1 hcells.list
    | cons x cells =>
      obtain ⟨q'', hserve, hcells', htail', hstore, -⟩ := hcells.serve
      have hstep : (q.checkReads fails).map some = _ := hstep
      rw [Queue.checkReads, hcells.head] at hstep
      dsimp only at hstep
      rw [hserve] at hstep
      cases hstep
      obtain ⟨rest, hlist, hmem, -⟩ := hsound
      -- the tail still points to the request that has been freed
      have hdangling := hmem x.1 (htail'.trans ((htail.resolve_left hclear.2).trans hcells.head))
      refine Seg.notMem_of_none hlist ?_ hdangling
      rw [hstore]
      exact if_pos rfl
  | performReads blocking fails => exact hclear trivial

/-- In a run all calls are served well exactly when each of them finds the tail as it needs it. -/
theorem requests_served_iff (calls : List Call) :
    Every Queue.step Kept init calls ↔ Every Queue.step Clear init calls := by
  refine every_iff_of_invariant (L := fun _ _ => True) (fun q c (h : Inv q) _ => ?_)
    (fun q c h _ hkept q' reply hstep => ?_) inv_init (every_true _ _)
  · refine ⟨fun hkept => by_contra fun hclear => not_kept_of_not_clear h hclear hkept, fun hclear => ?_⟩
    obtain ⟨q', reply, hstep, hinv⟩ := step_of_clear h hclear
    exact ⟨q', reply, hstep, hinv.sound⟩
  · have hclear : q.Clear c := by_contra fun hclear => not_kept_of_not_clear h hclear hkept
    obtain ⟨q'', reply', hstep', hinv⟩ := step_of_clear h hclear
    rw [hstep] at hstep'
    cases hstep'
    exact hinv

def scalar : Request := ⟨0, none, 8⟩

/-- Two requests are scheduled, one is read, and a third one is scheduled. -/
theorem not_served_afterOneRead : ¬Every Queue.step Kept init
    [.scheduleRead 1 true (.request scalar), .scheduleRead 1 true (.request scalar),
      .checkReads false, .scheduleRead 1 true (.request scalar)] := by
  intro h
  -- the third one goes behind the request that has been freed
  obtain ⟨q', reply, hstep, -⟩ := (((h.2 _ _ rfl).2 _ _ rfl).2 _ _ rfl).1
  cases hstep

end Queue

end Adios.RequestQueue
