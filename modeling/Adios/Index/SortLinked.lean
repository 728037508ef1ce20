import Adios.Heap.LinkedList
import Adios.Index.Sort

/-!
# Adios — sorting an index in memory

The list of the process groups in `adios_sort_index_v1`, with its pointers. `Sort` has what comes of
it as lists; here the cells are taken from one list and linked into the other, and a group that is
older than the first one is linked in front of it and behind it. The sets of the variables are
sorted where they are.
-/

namespace Adios

open List Heap Lists

/-! ## The pointers -/

/-- "`a->next = p`" -/
def setNext (h : Store IndexProcessGroup) (a : Addr) (p : Option Addr) :
    Except Fault (Store IndexProcessGroup) :=
  match h a with
  | none => .error .wildPointer
  | some c => .ok (h.set a { c with next := p })

/-- "`a->next`" -/
def getNext (h : Store IndexProcessGroup) (a : Addr) : Except Fault (Option Addr) :=
  match h a with
  | none => .error .wildPointer
  | some c => .ok c.next

/-- "`while (p2_temp && (*p1)->time_index >= p2_temp->time_index)`": `p2_temp` and `p2_temp_prev`
at its end, if this is reached after so many steps. -/
def walk (h : Store IndexProcessGroup) (timeIndex : UInt32) :
    Nat → Option Addr → Addr → Except Fault (Option Addr × Addr)
  | 0, _, _ => .error .endless
  | _ + 1, none, prev => .ok (none, prev)
  | steps + 1, some a, prev =>
    match h a with
    | none => .error .wildPointer
    | some c =>
      if timeIndex ≥ c.val.timeIndex then walk h timeIndex steps c.next a else .ok (some a, prev)

/-- The pointers and the memory of the loop "`while (*p1)`". -/
structure SortState where
  p1 : Option Addr
  p2 : Option Addr
  store : Store IndexProcessGroup

/-- The body of the loop, with `*p1 = a`. -/
def sortRound (steps : Nat) (a : Addr) (s : SortState) : Except Fault SortState :=
  match s.p2 with
  | none => do
    let p1 ← getNext s.store a
    let store ← setNext s.store a none
    .ok { p1, p2 := some a, store }
  | some p2 =>
    match s.store a with
    | none => .error .wildPointer
    | some c => do
      let (p2Temp, prev) ← walk s.store c.val.timeIndex steps (some p2) p2
      match p2Temp with
      | none => do
        let store ← setNext s.store prev (some a)
        let p1 ← getNext store a
        let store ← setNext store a none
        .ok { p1, p2 := some p2, store }
      | some b => do
        let p1 ← getNext s.store a
        let store ← setNext s.store a (some b)
        let store ← setNext store prev (some a)
        .ok { p1, p2 := some p2, store }

def sortLoop (steps : Nat) : Nat → SortState → Except Fault SortState
  | 0, _ => .error .endless
  | rounds + 1, s =>
    match s.p1 with
    | none => .ok s
    | some a => do
      let s ← sortRound steps a s
      sortLoop steps rounds s

/-- What `adios_sort_index_v1` leaves of the list of process groups: "`*p1 = p2`". -/
def sortProcessGroups (steps : Nat) (l : Linked IndexProcessGroup) :
    Except Fault (Linked IndexProcessGroup) := do
  let s ← sortLoop steps steps ⟨l.root, none, l.store⟩
  .ok { root := s.p2, store := s.store }

/-! ## Lists of cells -/

abbrev PgCell := Addr × IndexProcessGroup

/-- `insertProcessGroup` for cells. -/
def insertCell (x : PgCell) : List PgCell → List PgCell
  | [] => [x]
  | y :: ys => if y.2.timeIndex ≤ x.2.timeIndex then y :: insertCell x ys else x :: y :: ys

theorem map_snd_insertCell (x : PgCell) (ys : List PgCell) :
    (insertCell x ys).map Prod.snd = insertProcessGroup x.2 (ys.map Prod.snd) := by
  induction ys with
  | nil => rfl
  | cons y ys ih =>
    rw [insertCell, map_cons, insertProcessGroup]
    split_ifs
    · rw [map_cons, ih]
    · rfl

theorem insertCell_split (x : PgCell) (ys : List PgCell) :
    ∃ front back, ys = front ++ back ∧ insertCell x ys = front ++ x :: back ∧
      (∀ y ∈ front, y.2.timeIndex ≤ x.2.timeIndex) ∧
      ∀ y ∈ back.head?, ¬y.2.timeIndex ≤ x.2.timeIndex := by
  induction ys with
  | nil => exact ⟨[], [], rfl, rfl, forall_mem_nil _, fun y hy => nomatch hy⟩
  | cons y ys ih =>
    rw [insertCell]
    by_cases hle : y.2.timeIndex ≤ x.2.timeIndex
    · obtain ⟨front, back, rfl, heq, hfront, hback⟩ := ih
      rw [if_pos hle, heq]
      exact ⟨y :: front, back, rfl, rfl, forall_mem_cons.mpr ⟨hle, hfront⟩, hback⟩
    · rw [if_neg hle]
      refine ⟨[], y :: ys, rfl, rfl, forall_mem_nil _, fun z hz => ?_⟩
      cases hz
      exact hle

def Ascending (ys : List PgCell) : Prop :=
  ys.Pairwise fun y z => y.2.timeIndex.toNat ≤ z.2.timeIndex.toNat

def ofTime (τ : UInt32) (ys : List PgCell) : List PgCell := ys.filter fun y => y.2.timeIndex = τ

theorem ofTime_append (τ : UInt32) (ys zs : List PgCell) :
    ofTime τ (ys ++ zs) = ofTime τ ys ++ ofTime τ zs := filter_append _ _

theorem insertCell_spec (x : PgCell) {ys : List PgCell} (h : Ascending ys) :
    Ascending (insertCell x ys) ∧ ∀ τ, ofTime τ (insertCell x ys) = ofTime τ (ys ++ [x]) := by
  obtain ⟨front, back, rfl, heq, hfront, hback⟩ := insertCell_split x ys
  obtain ⟨hasc, hascBack, hcross⟩ := pairwise_append.mp h
  have hyounger : ∀ z ∈ back, x.2.timeIndex.toNat < z.2.timeIndex.toNat := fun z hz => by
    cases back with
    | nil => cases hz
    | cons y back =>
      have hy : x.2.timeIndex.toNat < y.2.timeIndex.toNat := by
        have hnot := hback y rfl
        rw [UInt32.le_iff_toNat_le] at hnot
        omega
      cases hz with
      | head => exact hy
      | tail _ hz => exact Nat.lt_of_lt_of_le hy ((pairwise_cons.mp hascBack).1 z hz)
  rw [heq]
  refine ⟨pairwise_append.mpr ⟨hasc, pairwise_cons.mpr ⟨fun z hz =>
    Nat.le_of_lt (hyounger z hz), hascBack⟩, fun y hy z hz => ?_⟩, fun τ => ?_⟩
  · cases hz with
    | head => exact UInt32.le_iff_toNat_le.mp (hfront y hy)
    | tail _ hz => exact hcross y hy z hz
  · rw [ofTime_append, ofTime_append, ofTime_append, append_assoc]
    congr 1
    show ofTime τ ([x] ++ back) = _
    rw [ofTime_append]
    by_cases hτ : x.2.timeIndex = τ
    · have hnil : ofTime τ back = [] := filter_eq_nil_iff.mpr fun z hz heq => by
        have hlt := hyounger z hz
        rw [hτ, of_decide_eq_true heq] at hlt
        exact Nat.lt_irrefl _ hlt
      rw [hnil, append_nil, nil_append]
    · have hnil : ofTime τ [x] = [] := filter_eq_nil_iff.mpr fun z hz heq => by
        rw [mem_singleton.mp hz] at heq
        exact hτ (of_decide_eq_true heq)
      rw [hnil]
      exact (append_nil _).symm

/-! ## One round -/

structure SortState.Holds (s : SortState) (ys xs : List PgCell) : Prop where
  placed : IsList s.store s.p2 ys
  rest : IsList s.store s.p1 xs
  disjoint : ∀ a ∈ addrs ys, a ∉ addrs xs

section

variable {h : Store IndexProcessGroup} {timeIndex : UInt32} {front back : List PgCell}
  {p : Option Addr} (hlist : IsList h p (front ++ back))
  (hfront : ∀ y ∈ front, y.2.timeIndex ≤ timeIndex)

include hlist hfront

theorem walk_eq (hback : ∀ y ∈ back.head?, ¬y.2.timeIndex ≤ timeIndex) {steps : Nat}
    (hsteps : front.length < steps) (prev : Addr) :
    walk h timeIndex steps p prev =
      .ok (back.head?.map Prod.fst, (addrs front).getLast?.getD prev) := by
  obtain ⟨steps, rfl⟩ := Nat.exists_eq_succ_of_ne_zero (Nat.ne_zero_of_lt hsteps)
  induction front generalizing p prev steps with
  | nil =>
    cases back with
    | nil =>
      obtain rfl : p = none := hlist
      rfl
    | cons y back =>
      obtain ⟨rfl, next, hcell, -⟩ := hlist
      rw [walk, hcell]
      exact if_neg (hback y rfl)
  | cons y front ih =>
    obtain ⟨rfl, next, hcell, hlist⟩ := hlist
    obtain ⟨hy, hfront⟩ := forall_mem_cons.mp hfront
    obtain ⟨steps, rfl⟩ := Nat.exists_eq_succ_of_ne_zero
      (Nat.ne_zero_of_lt (Nat.lt_of_succ_lt_succ hsteps))
    rw [walk, hcell]
    dsimp only
    rw [if_pos hy, ih hlist hfront y.1 steps (Nat.lt_of_succ_lt_succ hsteps), addrs_cons,
      List.getLast?_cons]
    rfl

theorem walk_short {steps : Nat} (hsteps : steps ≤ front.length)
    (prev : Addr) : walk h timeIndex steps p prev = .error .endless := by
  induction steps generalizing p prev front with
  | zero => rfl
  | succ steps ih =>
    cases front with
    | nil => exact absurd hsteps (Nat.not_succ_le_zero _)
    | cons y front =>
      obtain ⟨rfl, next, hcell, hlist⟩ := hlist
      obtain ⟨hy, hfront⟩ := forall_mem_cons.mp hfront
      rw [walk, hcell]
      dsimp only
      rw [if_pos hy]
      exact ih hlist hfront (Nat.le_of_succ_le_succ hsteps) y.1

end

variable {x : PgCell} {next : Option Addr} {rest : List PgCell} {steps : Nat} {s' : SortState}

theorem setNext_eq {h : Store IndexProcessGroup} (hcell : h x.1 = some ⟨x.2, next⟩)
    (p : Option Addr) :
    setNext h x.1 p = .ok (h.set x.1 ⟨x.2, p⟩) := by
  rw [setNext, hcell]

theorem getNext_eq {h : Store IndexProcessGroup} (hcell : h x.1 = some ⟨x.2, next⟩) :
    getNext h x.1 = .ok next := by
  rw [getNext, hcell]

theorem sortRound_first {s : SortState} (h : s.Holds [] (x :: rest)) (steps : Nat) :
    ∃ s', sortRound steps x.1 s = .ok s' ∧ s'.Holds [x] rest := by
  have hp2 : s.p2 = none := h.placed
  obtain ⟨-, next, hcell, hrest⟩ := h.rest
  have hnodup := h.rest.nodup
  rw [addrs_cons, nodup_cons] at hnodup
  refine ⟨⟨next, some x.1, s.store.set x.1 ⟨x.2, none⟩⟩, ?_, ?_, hrest.set hnodup.1, ?_⟩
  · rw [sortRound, hp2]
    dsimp only
    rw [getNext_eq hcell, ok_bind, setNext_eq hcell, ok_bind]
  · exact ⟨rfl, none, Store.set_self _ _ _, rfl⟩
  · intro a ha
    rw [mem_singleton.mp ha]
    exact hnodup.1

theorem sortRound_link {s : SortState} {z : PgCell} {p2 : Addr} {nx nz : Option Addr}
    (hp2 : s.p2 = some p2) (hx : s.store x.1 = some ⟨x.2, nx⟩) (hz : s.store z.1 = some ⟨z.2, nz⟩)
    (hxz : x.1 ≠ z.1) (hwalk : walk s.store x.2.timeIndex steps (some p2) p2 = .ok (next, z.1)) :
    ∃ s', sortRound steps x.1 s = .ok s' ∧ s'.p1 = nx ∧ s'.p2 = s.p2 ∧
      s'.store z.1 = some ⟨z.2, some x.1⟩ ∧ s'.store x.1 = some ⟨x.2, next⟩ ∧
      ∀ a, a ≠ z.1 → a ≠ x.1 → s'.store a = s.store a := by
  unfold sortRound
  rw [hp2, hx]
  dsimp only
  rw [hwalk, ok_bind]
  cases next with
  | none =>
    have hx₁ : (s.store.set z.1 ⟨z.2, some x.1⟩) x.1 = some ⟨x.2, nx⟩ :=
      (Store.set_of_ne _ _ hxz).trans hx
    refine ⟨⟨nx, some p2, (s.store.set z.1 ⟨z.2, some x.1⟩).set x.1 ⟨x.2, none⟩⟩, ?_, rfl, rfl,
      ?_, Store.set_self _ _ _, fun a hz' hx' => ?_⟩
    · dsimp only
      rw [setNext_eq hz, ok_bind, getNext_eq hx₁, ok_bind, setNext_eq hx₁, ok_bind]
    · exact (Store.set_of_ne _ _ hxz.symm).trans (Store.set_self _ _ _)
    · exact (Store.set_of_ne _ _ hx').trans (Store.set_of_ne _ _ hz')
  | some y =>
    have hz₁ : (s.store.set x.1 ⟨x.2, some y⟩) z.1 = some ⟨z.2, nz⟩ :=
      (Store.set_of_ne _ _ hxz.symm).trans hz
    refine ⟨⟨nx, some p2, (s.store.set x.1 ⟨x.2, some y⟩).set z.1 ⟨z.2, some x.1⟩⟩, ?_, rfl,
      rfl, Store.set_self _ _ _, ?_, fun a hz' hx' => ?_⟩
    · dsimp only
      rw [getNext_eq hx, ok_bind, setNext_eq hx, ok_bind, setNext_eq hz₁, ok_bind]
    · exact (Store.set_of_ne _ _ hxz).trans (Store.set_self _ _ _)
    · exact (Store.set_of_ne _ _ hz').trans (Store.set_of_ne _ _ hx')

theorem sortRound_short {s : SortState} {first : PgCell} {placed front back : List PgCell}
    {nx : Option Addr} (hplaced : IsList s.store s.p2 (first :: placed))
    (hsplit : first :: placed = front ++ back) (hx : s.store x.1 = some ⟨x.2, nx⟩)
    (hfront : ∀ y ∈ front, y.2.timeIndex ≤ x.2.timeIndex) (hlen : steps ≤ front.length) :
    sortRound steps x.1 s = .error .endless ∧ steps ≤ placed.length + 1 := by
  have hp2 : s.p2 = some first.1 := hplaced.1
  have hlength := congrArg List.length hsplit
  rw [length_cons, length_append] at hlength
  rw [hsplit] at hplaced
  have hshort := walk_short hplaced hfront hlen first.1
  rw [hp2] at hshort
  refine ⟨?_, by omega⟩
  unfold sortRound
  rw [hp2, hx]
  dsimp only
  rw [hshort]
  rfl

theorem sortRound_next {s : SortState} {first : PgCell} {placed : List PgCell}
    (h : s.Holds (first :: placed) (x :: rest)) (hle : first.2.timeIndex ≤ x.2.timeIndex)
    (steps : Nat) :
    (∃ s', sortRound steps x.1 s = .ok s' ∧ s'.Holds (insertCell x (first :: placed)) rest) ∨
      sortRound steps x.1 s = .error .endless ∧ steps ≤ placed.length + 1 := by
  obtain ⟨front, back, hsplit, hinsert, hfront, hback⟩ := insertCell_split x (first :: placed)
  -- the walk goes behind the first cell
  obtain ⟨front, z, rfl⟩ : ∃ front' z, front = front' ++ [z] := by
    rcases eq_nil_or_concat front with rfl | ⟨front', z, rfl⟩
    · rw [nil_append] at hsplit
      exact absurd hle (hback first (by rw [← hsplit]; rfl))
    · exact ⟨front', z, concat_eq_append⟩
  have hplaced := h.placed
  have hp2 : s.p2 = some first.1 := h.placed.1
  obtain ⟨hp1, nx, hx, hrest⟩ := h.rest
  by_cases hlen : steps ≤ (front ++ [z]).length
  · exact .inr (sortRound_short hplaced hsplit hx hfront hlen)
  refine .inl ?_
  rw [hsplit] at hplaced
  have hwalk := walk_eq hplaced hfront hback (Nat.not_le.mp hlen) first.1
  have hlast : (addrs front ++ addrs [z]).getLast?.getD first.1 = z.1 := by
    rw [addrs_cons, addrs_nil, List.getLast?_append]
    rfl
  rw [addrs_append, hp2, hlast] at hwalk
  obtain ⟨nz, hz⟩ := Seg.cell hplaced (show z ∈ front ++ [z] ++ back by simp)
  have hnodup := h.rest.nodup
  rw [addrs_cons, nodup_cons] at hnodup
  have hzmem : z.1 ∈ addrs (first :: placed) := by
    rw [hsplit]
    exact mem_addrs (by simp)
  have hxz : x.1 ≠ z.1 := fun heq => h.disjoint z.1 hzmem (heq ▸ mem_cons_self)
  have hxnot : x.1 ∉ addrs (first :: placed) := fun hmem => h.disjoint x.1 hmem mem_cons_self
  obtain ⟨s', hround, hp1', hp2', hz', hx', hother⟩ := sortRound_link hp2 hx hz hxz hwalk
  refine ⟨s', hround, ?_, ?_, fun a ha hmem => ?_⟩
  · rw [append_assoc] at hplaced hsplit
    rw [hinsert, hp2', append_assoc]
    exact @IsList.splice _ _ _ front back s'.store z x hplaced (hsplit ▸ hxnot) hz' hx' hother
  · rw [hp1']
    refine hrest.congr fun a ha => hother a (fun heq => ?_) fun heq => hnodup.1 (heq ▸ ha)
    exact h.disjoint z.1 hzmem (heq ▸ mem_cons_of_mem _ ha)
  · rw [hinsert] at ha
    have hcases : a = x.1 ∨ a ∈ addrs (first :: placed) := by
      rw [hsplit]
      simp only [addrs_append, addrs_cons, mem_append, mem_cons] at ha ⊢
      grind
    rcases hcases with rfl | ha
    · exact hnodup.1 hmem
    · exact h.disjoint a ha (mem_cons_of_mem _ hmem)

/-! ## The ring -/

structure SortState.Ring (s : SortState) (f o : PgCell) (xs : List PgCell) : Prop where
  p2 : s.p2 = some f.1
  first : s.store f.1 = some ⟨f.2, some o.1⟩
  old : s.store o.1 = some ⟨o.2, some f.1⟩
  older : ¬f.2.timeIndex ≤ o.2.timeIndex
  rest : IsList s.store s.p1 xs
  outside : f.1 ∉ addrs xs

theorem sortRound_older {s : SortState} {first : PgCell} (hp2 : s.p2 = some first.1)
    (hfirst : s.store first.1 = some ⟨first.2, next⟩) (hrest : IsList s.store s.p1 (x :: rest))
    (hout : first.1 ∉ addrs (x :: rest)) (hlt : ¬first.2.timeIndex ≤ x.2.timeIndex)
    (hround : sortRound steps x.1 s = .ok s') : s'.Ring first x rest := by
  have hnodup := hrest.nodup
  obtain ⟨hp1, nx, hx, htail⟩ := hrest
  rw [addrs_cons, nodup_cons] at hnodup
  rw [addrs_cons, mem_cons, not_or] at hout
  have hfirst₁ : (s.store.set x.1 ⟨x.2, some first.1⟩) first.1 = some ⟨first.2, next⟩ :=
    (Store.set_of_ne _ _ hout.1).trans hfirst
  unfold sortRound at hround
  rw [hp2, hx] at hround
  cases steps with
  | zero => cases hround
  | succ steps =>
    dsimp only at hround
    rw [walk, hfirst] at hround
    dsimp only at hround
    rw [if_neg hlt, ok_bind] at hround
    dsimp only at hround
    rw [getNext_eq hx, ok_bind, setNext_eq hx, ok_bind, setNext_eq hfirst₁, ok_bind] at hround
    obtain rfl := Except.ok.inj hround
    refine ⟨rfl, Store.set_self _ _ _, ?_, hlt, ?_, hout.2⟩
    · exact (Store.set_of_ne _ _ (Ne.symm hout.1)).trans (Store.set_self _ _ _)
    · exact (htail.set hnodup.1).set hout.2

variable {s : SortState} {first old : PgCell} {xs : List PgCell}

theorem walk_ring (h : s.Ring first old xs) {timeIndex : UInt32}
    (hle : first.2.timeIndex ≤ timeIndex) (steps : Nat) :
    (∀ prev, walk s.store timeIndex steps (some first.1) prev = .error .endless) ∧
      ∀ prev, walk s.store timeIndex steps (some old.1) prev = .error .endless := by
  have hold : old.2.timeIndex ≤ timeIndex := by
    have hlt := h.older
    rw [UInt32.le_iff_toNat_le] at hlt hle ⊢
    omega
  induction steps with
  | zero => exact ⟨fun _ => rfl, fun _ => rfl⟩
  | succ steps ih =>
    refine ⟨fun prev => ?_, fun prev => ?_⟩
    · rw [walk, h.first]
      dsimp only
      rw [if_pos hle]
      exact ih.2 _
    · rw [walk, h.old]
      dsimp only
      rw [if_pos hold]
      exact ih.1 _

theorem sortLoop_ring (h : s.Ring first old xs) (steps : Nat) {rounds : Nat}
    (hloop : sortLoop steps rounds s = .ok s') : ∃ old' xs', s'.Ring first old' xs' := by
  induction rounds generalizing s old xs with
  | zero => cases hloop
  | succ rounds ih =>
    rw [sortLoop] at hloop
    cases xs with
    | nil =>
      have hp1 : s.p1 = none := h.rest
      rw [hp1] at hloop
      cases hloop
      exact ⟨old, [], h⟩
    | cons x xs =>
      have hp1 : s.p1 = some x.1 := h.rest.1
      rw [hp1] at hloop
      obtain ⟨s₁, hround, hloop⟩ := exists_of_bind_eq_ok hloop
      by_cases hle : first.2.timeIndex ≤ x.2.timeIndex
      · obtain ⟨-, nx, hx, -⟩ := h.rest
        unfold sortRound at hround
        rw [h.p2, hx] at hround
        dsimp only at hround
        rw [(walk_ring h hle steps).1] at hround
        cases hround
      · exact ih (sortRound_older h.p2 h.first h.rest h.outside hle hround) hloop

theorem not_isList_of_ring (h : s.Ring first old xs) (ys : List PgCell) :
    ¬IsList s.store s.p2 ys := fun hlist => by
  rw [h.p2] at hlist
  have hnodup := hlist.nodup
  cases ys with
  | nil => cases hlist
  | cons y ys =>
    obtain ⟨hy, next, hcell, hlist⟩ := hlist
    rw [← Option.some.inj hy, h.first] at hcell
    obtain ⟨-, rfl⟩ := Cell.mk.inj (Option.some.inj hcell)
    cases ys with
    | nil => cases hlist
    | cons z ys =>
      obtain ⟨hz, next, hcell, hlist⟩ := hlist
      rw [← Option.some.inj hz, h.old] at hcell
      obtain ⟨-, rfl⟩ := Cell.mk.inj (Option.some.inj hcell)
      cases ys with
      | nil => cases hlist
      | cons w ys =>
        have hw := Option.some.inj hlist.1
        rw [addrs_cons, addrs_cons, addrs_cons, ← hw, ← Option.some.inj hy, nodup_cons] at hnodup
        exact hnodup.1 (mem_cons_of_mem _ mem_cons_self)

/-! ## All rounds -/

def placeCells (ys xs : List PgCell) : List PgCell := xs.foldl (fun ys x => insertCell x ys) ys

theorem insertCell_cons {first : PgCell} (h : first.2.timeIndex ≤ x.2.timeIndex) (ys : List PgCell)
    : insertCell x (first :: ys) = first :: insertCell x ys := if_pos h

theorem length_insertCell (x : PgCell) (ys : List PgCell) :
    (insertCell x ys).length = ys.length + 1 := by
  obtain ⟨front, back, rfl, heq, -, -⟩ := insertCell_split x ys
  rw [heq, length_append, length_append, length_cons, Nat.add_assoc]

theorem placeCells_spec {ys : List PgCell} (h : Ascending ys) (xs : List PgCell) :
    Ascending (placeCells ys xs) ∧ ∀ τ, ofTime τ (placeCells ys xs) = ofTime τ (ys ++ xs) := by
  induction xs generalizing ys with
  | nil => exact ⟨h, fun τ => by rw [append_nil]; rfl⟩
  | cons x xs ih =>
    obtain ⟨hasc, htimes⟩ := insertCell_spec x h
    obtain ⟨hall, hall'⟩ := ih hasc
    refine ⟨hall, fun τ => (hall' τ).trans ?_⟩
    rw [ofTime_append, htimes τ, ← ofTime_append, append_assoc]
    rfl

theorem sortLoop_place {ys : List PgCell} (h : s.Holds (first :: ys) xs)
    (hxs : ∀ x ∈ xs, first.2.timeIndex ≤ x.2.timeIndex) {steps rounds : Nat}
    (hsteps : ys.length + xs.length + 1 < steps) (hrounds : xs.length < rounds) :
    ∃ s', sortLoop steps rounds s = .ok s' ∧
      IsList s'.store s'.p2 (placeCells (first :: ys) xs) := by
  induction xs generalizing s ys rounds with
  | nil =>
    obtain ⟨rounds, rfl⟩ := Nat.exists_eq_succ_of_ne_zero (Nat.ne_zero_of_lt hrounds)
    have hp1 : s.p1 = none := h.rest
    exact ⟨s, by rw [sortLoop, hp1], h.placed⟩
  | cons x xs ih =>
    obtain ⟨rounds, rfl⟩ := Nat.exists_eq_succ_of_ne_zero (Nat.ne_zero_of_lt hrounds)
    obtain ⟨hx, hxs⟩ := forall_mem_cons.mp hxs
    rw [length_cons] at hsteps hrounds
    have hp1 : s.p1 = some x.1 := h.rest.1
    obtain ⟨s₁, hround, hholds⟩ | ⟨-, hshort⟩ := sortRound_next h hx steps
    · rw [insertCell_cons hx] at hholds
      have hlen := length_insertCell x ys
      obtain ⟨s', hloop, hlist⟩ := ih hholds hxs (by omega) (Nat.lt_of_succ_lt_succ hrounds)
      refine ⟨s', ?_, ?_⟩
      · rw [sortLoop, hp1]
        dsimp only
        rw [hround, ok_bind, hloop]
      · rw [← insertCell_cons hx] at hlist
        exact hlist
    · omega

theorem sortLoop_older {ys : List PgCell} (h : s.Holds (first :: ys) xs)
    (hold : ∃ x ∈ xs, ¬first.2.timeIndex ≤ x.2.timeIndex) {rounds : Nat}
    (hloop : sortLoop steps rounds s = .ok s') : ∃ old xs', s'.Ring first old xs' := by
  induction xs generalizing s ys rounds with
  | nil =>
    obtain ⟨x, hx, -⟩ := hold
    cases hx
  | cons x xs ih =>
    cases rounds with
    | zero => cases hloop
    | succ rounds =>
      have hp1 : s.p1 = some x.1 := h.rest.1
      rw [sortLoop, hp1] at hloop
      obtain ⟨s₁, hround, hloop⟩ := exists_of_bind_eq_ok hloop
      by_cases hle : first.2.timeIndex ≤ x.2.timeIndex
      · obtain ⟨s₂, hround', hholds⟩ | ⟨hshort, -⟩ := sortRound_next h hle steps
        · obtain rfl := Except.ok.inj (hround'.symm.trans hround)
          rw [insertCell_cons hle] at hholds
          refine ih hholds ?_ hloop
          obtain ⟨y, hy, hlt⟩ := hold
          cases hy with
          | head => exact absurd hle hlt
          | tail _ hy => exact ⟨y, hy, hlt⟩
        · rw [hshort] at hround
          cases hround
      · obtain ⟨hp2, next, hcell, -⟩ := h.placed
        exact sortLoop_ring (sortRound_older hp2 hcell h.rest
          (h.disjoint first.1 mem_cons_self) hle hround) steps hloop

theorem placeCells_perm (ys xs : List PgCell) : (placeCells ys xs).Perm (ys ++ xs) := by
  induction xs generalizing ys with
  | nil => rw [append_nil]; exact .refl _
  | cons x xs ih =>
    obtain ⟨front, back, rfl, heq, -, -⟩ := insertCell_split x ys
    refine (ih (insertCell x (front ++ back))).trans ?_
    rw [heq]
    exact ((perm_middle.append_right xs).trans perm_middle.symm)

/-- What comes of cells in memory is what `sortIndexV1` makes of their process groups. -/
theorem map_snd_placeCells {first : PgCell} {xs : List PgCell}
    (hxs : ∀ x ∈ xs, first.2.timeIndex ≤ x.2.timeIndex) (ys : List PgCell) :
    (xs.map Prod.snd).foldlM placeProcessGroup ((first :: ys).map Prod.snd) =
      .ok ((placeCells (first :: ys) xs).map Prod.snd) := by
  induction xs generalizing ys with
  | nil => rfl
  | cons x xs ih =>
    obtain ⟨hx, hxs⟩ := forall_mem_cons.mp hxs
    have hstep : placeProcessGroup ((first :: ys).map Prod.snd) x.2 =
        .ok ((insertCell x (first :: ys)).map Prod.snd) := by
      rw [map_snd_insertCell]
      exact if_pos hx
    rw [@map_cons _ _ Prod.snd x xs, List.foldlM_cons, hstep, ok_bind, insertCell_cons hx,
      ih hxs, ← insertCell_cons hx]
    rfl

/-! ## The sorted list -/

structure LinkedPgs extends Linked IndexProcessGroup where
  cells : List PgCell
  isList : IsList store root cells

namespace LinkedPgs

def Sorts (l : LinkedPgs) : Prop :=
  ∃ steps l', sortProcessGroups steps l.toLinked = .ok l' ∧
    ∃ ys, IsList l'.store l'.root ys ∧ ys.Perm l.cells ∧ Ascending ys ∧
      ∀ τ, ofTime τ ys = ofTime τ l.cells

theorem holds (l : LinkedPgs) : SortState.Holds ⟨l.root, none, l.store⟩ [] l.cells :=
  ⟨rfl, l.isList, fun _ ha => nomatch ha⟩

theorem sortProcessGroups_eq {l : LinkedPgs} {first : PgCell} {xs : List PgCell}
    (hcells : l.cells = first :: xs) (hxs : ∀ x ∈ xs, first.2.timeIndex ≤ x.2.timeIndex) :
    ∃ l', sortProcessGroups (xs.length + 2) l.toLinked = .ok l' ∧
      IsList l'.store l'.root (placeCells [first] xs) := by
  have hholds := l.holds
  rw [hcells] at hholds
  have hroot : l.root = some first.1 := hholds.rest.1
  obtain ⟨s₁, hround, h₁⟩ := sortRound_first hholds (xs.length + 2)
  obtain ⟨s', hloop, hlist⟩ := @sortLoop_place s₁ first xs [] h₁ hxs (xs.length + 2) (xs.length + 1)
    (by rw [length_nil]; omega) (Nat.lt_succ_self _)
  refine ⟨⟨s'.p2, s'.store⟩, ?_, hlist⟩
  rw [hroot] at hround
  rw [sortProcessGroups, hroot, sortLoop]
  dsimp only
  rw [hround, ok_bind, hloop, ok_bind]

theorem not_sorts {l : LinkedPgs} {first : PgCell} {xs : List PgCell}
    (hcells : l.cells = first :: xs) (hold : ∃ x ∈ xs, ¬first.2.timeIndex ≤ x.2.timeIndex) :
    ¬l.Sorts := by
  rintro ⟨steps, l', hsort, ys, hlist, -⟩
  have hholds := l.holds
  rw [hcells] at hholds
  have hroot : l.root = some first.1 := hholds.rest.1
  obtain ⟨s', hloop, hout⟩ := exists_of_bind_eq_ok hsort
  obtain rfl := Except.ok.inj hout
  cases steps with
  | zero => cases hloop
  | succ steps =>
    obtain ⟨s₁, hround, h₁⟩ := sortRound_first hholds (steps + 1)
    rw [hroot] at hround
    rw [sortLoop, hroot] at hloop
    dsimp only at hloop
    rw [hround, ok_bind] at hloop
    obtain ⟨old, xs', hring⟩ := sortLoop_older h₁ hold hloop
    exact not_isList_of_ring hring ys hlist

theorem sortProcessGroups_nil {l : LinkedPgs} (h : l.cells = []) :
    sortProcessGroups 1 l.toLinked = .ok ⟨none, l.store⟩ := by
  have hlist := l.isList
  rw [h] at hlist
  have hroot : l.root = none := hlist
  rw [sortProcessGroups, sortLoop, hroot]
  rfl

theorem sortProcessGroups_refines {l : LinkedPgs} {ix : Index}
    (hpgs : ix.pgRoot = l.cells.map Prod.snd) (h : OldestFirst ix.pgRoot) :
    ∃ steps l' ys ix', sortProcessGroups steps l.toLinked = .ok l' ∧ sortIndexV1 ix = .ok ix' ∧
      IsList l'.store l'.root ys ∧ ix'.pgRoot = ys.map Prod.snd := by
  cases hcells : l.cells with
  | nil =>
    rw [hcells] at hpgs
    refine ⟨1, ⟨none, l.store⟩, [], ⟨[], ix.varsRoot.map sortSets, ix.attrsRoot⟩,
      sortProcessGroups_nil hcells, ?_, rfl, rfl⟩
    rw [sortIndexV1, hpgs]
    rfl
  | cons first xs =>
    rw [hcells] at hpgs
    rw [hpgs] at h
    have hxs : ∀ x ∈ xs, first.2.timeIndex ≤ x.2.timeIndex := fun x hx =>
      h first.2 rfl x.2 (mem_map_of_mem (mem_cons_of_mem _ hx))
    obtain ⟨l', hsort, hlist⟩ := sortProcessGroups_eq hcells hxs
    refine ⟨_, l', placeCells [first] xs, ⟨(placeCells [first] xs).map Prod.snd,
      ix.varsRoot.map sortSets, ix.attrsRoot⟩, hsort, ?_, hlist, rfl⟩
    have hplace : placeProcessGroup [] first.2 = .ok [first.2] := rfl
    have hrest := map_snd_placeCells hxs []
    rw [map_cons, map_nil] at hrest
    rw [sortIndexV1, hpgs, map_cons, List.foldlM_cons, hplace, ok_bind, hrest, ok_bind]
    rfl

/-- **The process groups are sorted** exactly if none of them is older than the first one: the root
of the new list is not moved to a cell that is put in front of it. -/
theorem sorts_iff (l : LinkedPgs) : l.Sorts ↔ OldestFirst (l.cells.map Prod.snd) := by
  cases hcells : l.cells with
  | nil =>
    refine ⟨fun _ _ hfirst => (nomatch hfirst), fun _ => ⟨1, ⟨none, l.store⟩,
      sortProcessGroups_nil hcells, [], rfl, ?_, List.Pairwise.nil, fun τ => ?_⟩⟩
    · rw [hcells]
    · rw [hcells]
  | cons first xs =>
    constructor
    · intro hsorts f hf pg hpg
      obtain rfl : first.2 = f := Option.some.inj hf
      obtain ⟨x, hx, rfl⟩ := mem_map.mp hpg
      by_contra hlt
      refine not_sorts hcells ⟨x, ?_, hlt⟩ hsorts
      cases hx with
      | head => exact absurd (UInt32.le_refl _) hlt
      | tail _ hx => exact hx
    · intro hfirst
      have hxs : ∀ x ∈ xs, first.2.timeIndex ≤ x.2.timeIndex := fun x hx =>
        hfirst first.2 rfl x.2 (mem_map_of_mem (mem_cons_of_mem _ hx))
      obtain ⟨l', hsort, hlist⟩ := sortProcessGroups_eq hcells hxs
      obtain ⟨hasc, htimes⟩ := @placeCells_spec [first] (pairwise_singleton _ _) xs
      refine ⟨_, l', hsort, _, hlist, ?_, hasc, fun τ => ?_⟩
      · rw [hcells]
        exact placeCells_perm [first] xs
      · rw [hcells, htimes τ]
        rfl

def twoThenOne : LinkedPgs where
  root := some 0
  store := fun a => if a = 0 then some ⟨pgOfTime 2, some 1⟩ else
    if a = 1 then some ⟨pgOfTime 1, none⟩ else none
  cells := [(0, pgOfTime 2), (1, pgOfTime 1)]
  isList := ⟨rfl, some 1, rfl, rfl, none, rfl, rfl⟩

/-- The two cells are the next ones of one another. -/
theorem not_sorts_twoThenOne : ¬twoThenOne.Sorts :=
  not_sorts rfl ⟨_, mem_singleton.mpr rfl, by decide⟩

end LinkedPgs

/-! ## The characteristics sets -/

/-- What `adios_sort_index_v1` leaves in `*p1`, `*v1` and `*a1`. -/
def sortIndexLinked (steps : Nat) (p1 : Linked IndexProcessGroup) (v1 a1 : List IndexEntry) :
    Except Fault (Linked IndexProcessGroup × List IndexEntry × List IndexEntry) := do
  let p1 ← sortProcessGroups steps p1
  -- "no need to sort attributes"
  .ok (p1, v1.map sortSets, a1)

/-- **Sorting in memory refines sorting of lists**: where the lists can be sorted, the memory that
is left holds what comes of it, and where they cannot, it holds no sorted list. -/
theorem sortIndexLinked_refines (l : LinkedPgs) (v1 a1 : List IndexEntry) :
    (∀ ix', sortIndexV1 ⟨l.cells.map Prod.snd, v1, a1⟩ = .ok ix' → ∃ steps p1 ys,
      sortIndexLinked steps l.toLinked v1 a1 = .ok (p1, ix'.varsRoot, ix'.attrsRoot) ∧
        IsList p1.store p1.root ys ∧ ix'.pgRoot = ys.map Prod.snd) ∧
    ∀ f, sortIndexV1 ⟨l.cells.map Prod.snd, v1, a1⟩ = .error f → ¬l.Sorts := by
  constructor
  · intro ix' hix'
    have holdest := (sortIndexV1_ok_iff _).mp ⟨ix', hix'⟩
    obtain ⟨steps, p1, ys, ix₂, hsort, hix₂, hlist, hpgs⟩ :=
      l.sortProcessGroups_refines rfl holdest
    obtain rfl := Except.ok.inj (hix₂.symm.trans hix')
    obtain ⟨pgRoot, -, hparts⟩ := exists_of_bind_eq_ok hix'
    obtain rfl := Except.ok.inj hparts
    refine ⟨steps, p1, ys, ?_, hlist, hpgs⟩
    rw [sortIndexLinked, hsort]
    rfl
  · intro f herror
    have hyoung : ¬OldestFirst (l.cells.map Prod.snd) := fun holdest => by
      obtain ⟨ix', hix'⟩ := (sortIndexV1_ok_iff ⟨l.cells.map Prod.snd, v1, a1⟩).mpr holdest
      rw [hix'] at herror
      cases herror
    cases hcells : l.cells with
    | nil =>
      rw [hcells] at hyoung
      exact absurd (fun _ hfirst => nomatch hfirst) hyoung
    | cons first xs =>
      refine LinkedPgs.not_sorts hcells ?_
      by_contra hnone
      refine hyoung fun pg hpg pg' hpg' => ?_
      rw [hcells] at hpg hpg'
      obtain rfl : first.2 = pg := Option.some.inj hpg
      obtain ⟨x, hx, rfl⟩ := mem_map.mp hpg'
      by_contra hlt
      rcases mem_cons.mp hx with rfl | hx
      · exact hlt (UInt32.le_refl _)
      · exact hnone ⟨x, hx, hlt⟩

def IndexCharacteristic.withoutVarId (c : IndexCharacteristic) : IndexCharacteristic :=
  { c with varId := 0 }

def setsOfTime (τ : Nat) (v : IndexEntry) : List IndexCharacteristic :=
  v.characteristics.filter fun c => c.timeIndex.toNat = τ

structure StablySorted (v v' : IndexEntry) : Prop where
  entry : { v with characteristics := [] } = { v' with characteristics := [] }
  ascending : v'.characteristics.Pairwise fun c d => c.timeIndex.toNat ≤ d.timeIndex.toNat
  perm : (v'.characteristics.map IndexCharacteristic.withoutVarId).Perm
    (v.characteristics.map IndexCharacteristic.withoutVarId)
  stable (τ : Nat) : (setsOfTime τ v').map IndexCharacteristic.withoutVarId =
    (setsOfTime τ v).map IndexCharacteristic.withoutVarId

theorem sortSets_stablySorted (v : IndexEntry) : StablySorted v (sortSets v) where
  entry := rfl
  ascending := (sortSets_spec v).1
  perm := (sortSets_spec v).2 IndexCharacteristic.withoutVarId fun _ => rfl
  stable τ := @map_filter_bubbleSort _ (fun c : IndexCharacteristic => c.timeIndex.toNat)
    IndexCharacteristic.exchanged _ IndexCharacteristic.withoutVarId (fun _ => rfl) (fun _ => rfl) τ
    v.characteristics

def setOfTime (τ : UInt32) : IndexCharacteristic := { IndexCharacteristic.zero with timeIndex := τ }

def entryTwoOne : IndexEntry where
  id := 0
  groupName := CString.empty
  name := CString.empty
  path := CString.empty
  type := .byte
  characteristics := [setOfTime 2, setOfTime 1]

end Adios
