import Adios.Index.Struct
import Adios.Lists.KeyRuns
import Adios.Lists.Results
import Mathlib.Data.List.Perm.Subperm

/-!
# Adios — the table of the process groups

`bp_parse_pgs`, behind the parsing of the process groups: the groups, the first and the last time,
and for each group and each time the first process group and how many there are.
-/

namespace Adios

open List Lists

/-- The rows of `time_index[0]` and `time_index[1]`: by group and by time from the first one. -/
abbrev TimeTable : Type := Nat → Nat → UInt32 × UInt32

/-- "`time_index [0][grpid][t] = first_pg; time_index [1][grpid][t] = pg_time_count;`", with the
sizes that were allocated. -/
def TimeTable.store (groupCount size : Nat) (table : TimeTable) (grpid t : Nat)
    (entry : UInt32 × UInt32) : Except Fault TimeTable :=
  if grpid < groupCount ∧ t < size then
    .ok fun g u => if g = grpid ∧ u = t then entry else table g u
  else .error .outOfBounds

/-- The first loop: `namelist`, and `grpidlist` of the process groups that are left. -/
def groupIds (namelist : List CString) : List IndexProcessGroup → List CString × List UInt16
  | [] => (namelist, [])
  | pg :: pgs =>
    -- "if (!strcmp(namelist[j], (*root)->group_name)) break;"
    let j := namelist.idxOf pg.groupName
    let namelist := if j = namelist.length then namelist ++ [pg.groupName] else namelist
    let (names, ids) := groupIds namelist pgs
    (names, UInt16.ofNat j :: ids)

structure PgKey (γ : Type) where
  group : γ
  time : UInt32
  deriving DecidableEq

structure PgPass where
  grpid : Nat
  pgTimeCount : UInt32
  firstPg : UInt32
  timeId : UInt32
  table : TimeTable

namespace PgPass

variable (groupCount size : Nat) (tidxStart : UInt32)

/-- The entry of `grpid` and `time_id`. -/
def flush (s : PgPass) : Except Fault TimeTable :=
  s.table.store groupCount size s.grpid (s.timeId - tidxStart).toNat (s.firstPg, s.pgTimeCount)

/-- The second loop at the process group `i`. -/
def round (s : PgPass) (i : Nat) (grpid : Nat) (timeIndex : UInt32) : Except Fault PgPass :=
  if timeIndex = s.timeId then
    if s.grpid = grpid then .ok { s with pgTimeCount := s.pgTimeCount + 1 }
    else do
      let table ← s.flush groupCount size tidxStart
      .ok { s with table, grpid, pgTimeCount := 1, firstPg := UInt32.ofNat i }
  else if groupCount = 1 then do
    let table ← s.flush groupCount size tidxStart
    .ok { s with table, firstPg := UInt32.ofNat i, timeId := timeIndex, pgTimeCount := 1 }
  else if s.grpid = grpid then
    -- "pg_time_count += 1;", but behind it "pg_time_count = 1;"
    .ok { s with timeId := timeIndex, pgTimeCount := 1 }
  else do
    let table ← s.flush groupCount size tidxStart
    .ok { s with
      table, grpid, firstPg := UInt32.ofNat i, timeId := timeIndex, pgTimeCount := 1 }

/-- The second loop, and "set last grp/time count to complete the above procedure". -/
def loop (s : PgPass) (i : Nat) : List (PgKey Nat) → Except Fault TimeTable
  | [] => s.flush groupCount size tidxStart
  | ⟨grpid, timeIndex⟩ :: pgs => do
    let s ← s.round groupCount size tidxStart i grpid timeIndex
    s.loop (i + 1) pgs

end PgPass

/-- What `bp_parse_pgs` leaves in `fh->gvar_h` and in `fh`. -/
structure PgTable where
  namelist : List CString
  timeIndex : TimeTable
  tidxStart : UInt32
  tidxStop : UInt32

/-- `bp_parse_pgs` behind the first loop, with what `malloc` leaves in the rows. -/
def bpParsePgs (garbage : TimeTable) (pgs : List IndexProcessGroup) : Except Fault PgTable :=
  let (namelist, grpidlist) := groupIds [] pgs
  match grpidlist, pgs.head?, pgs.getLast? with
  | grpid :: _, some first, some last => do
    let tidxStart := first.timeIndex
    let tidxStop := last.timeIndex
    let timeSteps := (tidxStop - tidxStart + 1).toNat
    let size := if pgs.length < timeSteps then pgs.length else timeSteps
    let pass : PgPass := ⟨grpid.toNat, 0, 0, tidxStart, garbage⟩
    let timeIndex ← pass.loop namelist.length size tidxStart 0
      (List.zipWith PgKey.mk (grpidlist.map UInt16.toNat) (pgs.map IndexProcessGroup.timeIndex))
    .ok { namelist, timeIndex, tidxStart, tidxStop }
  -- "grpid = grpidlist[0];" of an empty list
  | _, _, _ => .error .outOfBounds

theorem prefix_groupIds (pgs : List IndexProcessGroup) (names : List CString) :
    ∃ more, (groupIds names pgs).1 = names ++ more := by
  induction pgs generalizing names with
  | nil => exact ⟨[], (append_nil names).symm⟩
  | cons pg pgs ih =>
    rw [groupIds]
    dsimp only
    obtain ⟨more, hmore⟩ := ih (if names.idxOf pg.groupName = names.length then
      names ++ [pg.groupName] else names)
    rw [hmore]
    split_ifs
    · exact ⟨[pg.groupName] ++ more, append_assoc _ _ _⟩
    · exact ⟨more, rfl⟩

theorem mem_names_iff (names : List CString) (name : CString) :
    (if names.idxOf name = names.length then names ++ [name] else names) =
      if name ∈ names then names else names ++ [name] := by
  by_cases hmem : name ∈ names
  · rw [if_pos hmem, if_neg fun hlen => idxOf_eq_length_iff.mp hlen hmem]
  · rw [if_neg hmem, if_pos (idxOf_eq_length_iff.mpr hmem)]

theorem groupIds_spec (pgs : List IndexProcessGroup) {names : List CString} (h : names.Nodup) :
    (groupIds names pgs).1.Nodup ∧
      (∀ name, name ∈ (groupIds names pgs).1 ↔
        name ∈ names ∨ name ∈ pgs.map IndexProcessGroup.groupName) ∧
      (groupIds names pgs).2 = pgs.map fun pg =>
        UInt16.ofNat ((groupIds names pgs).1.idxOf pg.groupName) := by
  induction pgs generalizing names with
  | nil => exact ⟨h, fun name => by simp [groupIds], rfl⟩
  | cons pg pgs ih =>
    rw [groupIds]
    dsimp only
    rw [mem_names_iff]
    by_cases hmem : pg.groupName ∈ names
    · rw [if_pos hmem]
      obtain ⟨hnodup, hall, hids⟩ := ih h
      obtain ⟨more, hmore⟩ := prefix_groupIds pgs names
      refine ⟨hnodup, fun name => (hall name).trans ?_, ?_⟩
      · rw [map_cons, mem_cons]
        refine ⟨fun h => h.imp_right .inr, fun h => ?_⟩
        rcases h with h | rfl | h
        · exact .inl h
        · exact .inl hmem
        · exact .inr h
      · rw [map_cons, hids]
        congr 2
        rw [hmore, idxOf_append_of_mem hmem]
    · rw [if_neg hmem]
      have hnew : (names ++ [pg.groupName]).Nodup := by
        rw [nodup_append]
        exact ⟨h, pairwise_singleton _ _, fun a ha b hb hab => hmem (by
          rw [← mem_singleton.mp hb, ← hab]
          exact ha)⟩
      obtain ⟨hnodup, hall, hids⟩ := ih hnew
      obtain ⟨more, hmore⟩ := prefix_groupIds pgs (names ++ [pg.groupName])
      refine ⟨hnodup, fun name => (hall name).trans ?_, ?_⟩
      · rw [map_cons, mem_cons, mem_append, mem_singleton, or_assoc]
      · rw [map_cons, hids]
        congr 2
        rw [hmore, idxOf_append_of_mem (mem_append_right _ (mem_singleton.mpr rfl)),
          idxOf_append_of_notMem hmem, idxOf_eq_length_iff.mpr hmem, idxOf_cons_self, Nat.add_zero]

/-! ## The runs -/

def flushes (groupCount : Nat) {γ : Type} [DecidableEq γ] (a b : PgKey γ) : Bool :=
  groupCount = 1 || a.group ≠ b.group

def fill (groupCount size : Nat) (tidxStart : UInt32) (table : TimeTable)
    (runs : List (KeyRun (PgKey Nat))) : Except Fault TimeTable :=
  runs.foldlM (fun table r => table.store groupCount size r.key.group (r.key.time - tidxStart).toNat
    (UInt32.ofNat r.first, UInt32.ofNat r.count)) table

section

variable {groupCount size : Nat} {tidxStart : UInt32}

theorem loop_eq {s : PgPass} {first count : Nat} (hfirst : s.firstPg = UInt32.ofNat first)
    (hcount : s.pgTimeCount = UInt32.ofNat count) {ks : List (PgKey Nat)}
    (hks : groupCount = 1 → ∀ k ∈ ks, k.group = s.grpid) (i : Nat) :
    s.loop groupCount size tidxStart i ks = fill groupCount size tidxStart s.table
      (keyRuns (flushes groupCount) ⟨s.grpid, s.timeId⟩ first count i ks) := by
  induction ks generalizing s first count i with
  | nil =>
    rw [PgPass.loop, keyRuns, fill, List.foldlM_cons, PgPass.flush, hfirst, hcount]
    dsimp only
    cases s.table.store groupCount size s.grpid (s.timeId - tidxStart).toNat
      (UInt32.ofNat first, UInt32.ofNat count) <;> rfl
  | cons k ks ih =>
    obtain ⟨grpid, timeIndex⟩ := k
    have hone : groupCount = 1 → grpid = s.grpid ∧ ∀ k ∈ ks, k.group = s.grpid := fun h =>
      forall_mem_cons.mp (hks h)
    -- what is done where a run is recorded
    have hflush : ∀ (s' : TimeTable → PgPass), (∀ table, (s' table).table = table) →
        (∀ table, (s' table).firstPg = UInt32.ofNat i) →
        (∀ table, (s' table).pgTimeCount = UInt32.ofNat 1) →
        (∀ table, (s' table).grpid = grpid) → (∀ table, (s' table).timeId = timeIndex) →
        (do
          let s ← (do
            let table ← s.flush groupCount size tidxStart
            .ok (s' table))
          s.loop groupCount size tidxStart (i + 1) ks) =
          fill groupCount size tidxStart s.table (⟨⟨s.grpid, s.timeId⟩, first, count⟩ ::
            keyRuns (flushes groupCount) ⟨grpid, timeIndex⟩ i 1 (i + 1) ks) := by
      intro s' htable hfirst' hcount' hgrpid htime
      rw [fill, List.foldlM_cons, PgPass.flush, hfirst, hcount]
      dsimp only
      cases s.table.store groupCount size s.grpid (s.timeId - tidxStart).toNat
          (UInt32.ofNat first, UInt32.ofNat count) with
      | error e => rfl
      | ok table =>
        rw [ok_bind, ok_bind, ok_bind,
          ih (hfirst' table) (hcount' table) (fun h k hk => ?_) (i + 1), htable, hgrpid, htime]
        · rfl
        · rw [hgrpid, (hone h).1]
          exact (hone h).2 k hk
    have hkey : PgKey.mk grpid timeIndex = ⟨s.grpid, s.timeId⟩ ↔
        s.grpid = grpid ∧ timeIndex = s.timeId := by
      rw [PgKey.mk.injEq, @eq_comm _ s.grpid]
    rw [PgPass.loop, keyRuns, PgPass.round]
    by_cases htime : timeIndex = s.timeId
    · rw [if_pos htime]
      by_cases hgrpid : s.grpid = grpid
      · rw [if_pos hgrpid, if_pos (hkey.mpr ⟨hgrpid, htime⟩), ok_bind]
        have hcount' : s.pgTimeCount + 1 = UInt32.ofNat (count + 1) := by
          rw [hcount, UInt32.ofNat_add]
          rfl
        exact @ih { s with pgTimeCount := s.pgTimeCount + 1 } first (count + 1) hfirst hcount'
          (fun h => (hone h).2) (i + 1)
      · rw [if_neg hgrpid, if_neg fun heq => hgrpid (hkey.mp heq).1,
          if_pos (by simp [flushes, hgrpid])]
        exact hflush _ (fun _ => rfl) (fun _ => rfl) (fun _ => rfl) (fun _ => rfl)
          (fun _ => htime.symm)
    · rw [if_neg htime, if_neg fun heq => htime (hkey.mp heq).2]
      by_cases hsingle : groupCount = 1
      · rw [if_pos hsingle, if_pos (by simp [flushes, hsingle])]
        exact hflush _ (fun _ => rfl) (fun _ => rfl) (fun _ => rfl) (fun _ => (hone hsingle).1.symm)
          (fun _ => rfl)
      · rw [if_neg hsingle]
        by_cases hgrpid : s.grpid = grpid
        · rw [if_pos hgrpid, if_neg (by simp [flushes, hsingle, hgrpid]), ok_bind, ← hgrpid]
          exact @ih { s with timeId := timeIndex, pgTimeCount := 1 } first 1 hfirst rfl
            (fun h => (hone h).2) (i + 1)
        · rw [if_neg hgrpid, if_pos (by simp [flushes, hgrpid])]
          exact hflush _ (fun _ => rfl) (fun _ => rfl) (fun _ => rfl) (fun _ => rfl) (fun _ => rfl)

def InTable (groupCount size : Nat) (tidxStart : UInt32) (r : KeyRun (PgKey Nat)) : Prop :=
  r.key.group < groupCount ∧ (r.key.time - tidxStart).toNat < size

def runEntry (r : KeyRun (PgKey Nat)) : UInt32 × UInt32 :=
  (UInt32.ofNat r.first, UInt32.ofNat r.count)

theorem store_of_inTable {r : KeyRun (PgKey Nat)} (h : InTable groupCount size tidxStart r)
    (table : TimeTable) : ∃ table', table.store groupCount size r.key.group
      (r.key.time - tidxStart).toNat (runEntry r) = .ok table' ∧
      ∀ k : PgKey Nat, table' k.group (k.time - tidxStart).toNat =
        if k = r.key then runEntry r else table k.group (k.time - tidxStart).toNat := by
  refine ⟨_, if_pos h, fun k => ?_⟩
  have hiff : (k.group = r.key.group ∧
      (k.time - tidxStart).toNat = (r.key.time - tidxStart).toNat) ↔ k = r.key := by
    rw [UInt32.toNat_inj, UInt32.sub_left_inj]
    exact (PgKey.mk.injEq _ _ _ _ ▸ Iff.rfl)
  by_cases hk : k = r.key
  · rw [if_pos hk]
    exact if_pos (hiff.mpr hk)
  · rw [if_neg hk]
    exact if_neg fun heq => hk (hiff.mp heq)

theorem inTable_of_fill {runs : List (KeyRun (PgKey Nat))} {table table' : TimeTable}
    (h : fill groupCount size tidxStart table runs = .ok table') :
    ∀ r ∈ runs, InTable groupCount size tidxStart r := by
  induction runs generalizing table with
  | nil => exact fun _ hr => nomatch hr
  | cons r runs ih =>
    rw [fill, List.foldlM_cons] at h
    obtain ⟨table₁, hstore, hrest⟩ := exists_of_bind_eq_ok h
    refine forall_mem_cons.mpr ⟨?_, ih hrest⟩
    by_contra hout
    have herror : table.store groupCount size r.key.group (r.key.time - tidxStart).toNat
        (UInt32.ofNat r.first, UInt32.ofNat r.count) = .error .outOfBounds := if_neg hout
    rw [herror] at hstore
    cases hstore

theorem fill_spec {runs : List (KeyRun (PgKey Nat))}
    (h : ∀ r ∈ runs, InTable groupCount size tidxStart r) (table : TimeTable) :
    ∃ table', fill groupCount size tidxStart table runs = .ok table' ∧
      ∀ k : PgKey Nat,
        (∃ r ∈ runs, r.key = k ∧ table' k.group (k.time - tidxStart).toNat = runEntry r) ∨
        (∀ r ∈ runs, r.key ≠ k) ∧
          table' k.group (k.time - tidxStart).toNat = table k.group (k.time - tidxStart).toNat := by
  induction runs generalizing table with
  | nil => exact ⟨table, rfl, fun k => .inr ⟨fun _ hr => (nomatch hr), rfl⟩⟩
  | cons r runs ih =>
    obtain ⟨hr, hruns⟩ := forall_mem_cons.mp h
    obtain ⟨table₁, hstore, hentry⟩ := store_of_inTable hr table
    obtain ⟨table', hfill, hall⟩ := ih hruns table₁
    refine ⟨table', ?_, fun k => ?_⟩
    · rw [fill, List.foldlM_cons]
      exact (congrArg (· >>= _) hstore).trans hfill
    · rcases hall k with ⟨r', hr', hkey, heq⟩ | ⟨hnone, heq⟩
      · exact .inl ⟨r', mem_cons_of_mem _ hr', hkey, heq⟩
      · rw [heq, hentry k]
        by_cases hk : k = r.key
        · exact .inl ⟨r, mem_cons_self, hk.symm, if_pos hk⟩
        · refine .inr ⟨forall_mem_cons.mpr ⟨fun heq => hk heq.symm, hnone⟩, if_neg hk⟩

end

/-! ## The whole function -/

/-- `namelist` -/
def groupNames (pgs : List IndexProcessGroup) : List CString := (groupIds [] pgs).1

def pgKey (pg : IndexProcessGroup) : PgKey CString := ⟨pg.groupName, pg.timeIndex⟩

def idKey (names : List CString) (k : PgKey CString) : PgKey Nat :=
  ⟨(UInt16.ofNat (names.idxOf k.group)).toNat, k.time⟩

def rowSize (pgs : List IndexProcessGroup) (timeSteps : Nat) : Nat :=
  if pgs.length < timeSteps then pgs.length else timeSteps

theorem nodup_groupNames (pgs : List IndexProcessGroup) : (groupNames pgs).Nodup :=
  (groupIds_spec pgs nodup_nil).1

theorem mem_groupNames (pgs : List IndexProcessGroup) (name : CString) :
    name ∈ groupNames pgs ↔ name ∈ pgs.map IndexProcessGroup.groupName := by
  rw [groupNames, (groupIds_spec pgs nodup_nil).2.1, or_iff_right not_mem_nil]

theorem bpParsePgs_eq (garbage : TimeTable) {pgs rest : List IndexProcessGroup}
    {first last : IndexProcessGroup} (hpgs : pgs = first :: rest)
    (hlast : pgs.getLast? = some last) :
    bpParsePgs garbage pgs = (do
      let timeIndex ← fill (groupNames pgs).length
        (rowSize pgs (last.timeIndex - first.timeIndex + 1).toNat) first.timeIndex garbage
        (keyRuns (flushes (groupNames pgs).length) (idKey (groupNames pgs) (pgKey first)) 0 0 0
          ((pgs.map pgKey).map (idKey (groupNames pgs))))
      .ok ⟨groupNames pgs, timeIndex, first.timeIndex, last.timeIndex⟩) := by
  have hids := (groupIds_spec pgs nodup_nil).2.2
  have hzip : List.zipWith PgKey.mk ((groupIds [] pgs).2.map UInt16.toNat)
      (pgs.map IndexProcessGroup.timeIndex) = (pgs.map pgKey).map (idKey (groupNames pgs)) := by
    rw [hids, map_map, map_map, zipWith_map, zipWith_self]
    rfl
  have hfirst : (groupIds [] pgs).2 = UInt16.ofNat ((groupNames pgs).idxOf first.groupName) ::
      (groupIds [] pgs).2.tail := by
    rw [hids, hpgs]
    rfl
  have hhead : pgs.head? = some first := by
    rw [hpgs]
    rfl
  -- with one group only there is one id
  have hsingle : (groupNames pgs).length = 1 →
      ∀ k ∈ (pgs.map pgKey).map (idKey (groupNames pgs)),
        k.group = (idKey (groupNames pgs) (pgKey first)).group := fun hone k hk => by
    have hzero : ∀ pg ∈ pgs, (groupNames pgs).idxOf pg.groupName = 0 := fun pg hpg => by
      have hlt := idxOf_lt_length_of_mem
        ((mem_groupNames pgs pg.groupName).mpr (mem_map_of_mem hpg))
      omega
    rw [map_map] at hk
    obtain ⟨pg, hpg, rfl⟩ := mem_map.mp hk
    show (UInt16.ofNat _).toNat = (UInt16.ofNat _).toNat
    rw [pgKey, pgKey, hzero pg hpg, hzero first (hpgs ▸ mem_cons_self)]
  have hloop := @loop_eq (groupNames pgs).length
    (rowSize pgs (last.timeIndex - first.timeIndex + 1).toNat) first.timeIndex
    ⟨(idKey (groupNames pgs) (pgKey first)).group, 0, 0, first.timeIndex,
      garbage⟩ 0 0 rfl rfl _ hsingle 0
  unfold bpParsePgs
  unfold groupNames at *
  generalize groupIds [] pgs = out at *
  obtain ⟨names, ids⟩ := out
  dsimp only at *
  rw [hfirst, hhead, hlast]
  dsimp only
  rw [← hfirst, hzip]
  exact congrArg (· >>= fun timeIndex => Except.ok (PgTable.mk names timeIndex _ _)) hloop

/-! ## What the table is for -/

structure SortedPgs where
  pgs : List IndexProcessGroup
  sorted : pgs.Pairwise fun p q => p.timeIndex.toNat ≤ q.timeIndex.toNat

structure PgTable.Right (t : PgTable) (pgs : List IndexProcessGroup) : Prop where
  nodup : t.namelist.Nodup
  groups (name : CString) : name ∈ t.namelist ↔ name ∈ pgs.map IndexProcessGroup.groupName
  start : pgs.head?.map IndexProcessGroup.timeIndex = some t.tidxStart
  stop : pgs.getLast?.map IndexProcessGroup.timeIndex = some t.tidxStop
  counts {g : Nat} {name : CString} (hname : t.namelist[g]? = some name) (time : UInt32) :
    t.tidxStart.toNat ≤ time.toNat → time.toNat ≤ t.tidxStop.toNat →
    (t.timeIndex g (time - t.tidxStart).toNat).2.toNat = (pgs.map pgKey).count ⟨name, time⟩
  firsts {g : Nat} {name : CString} (hname : t.namelist[g]? = some name) (time : UInt32) :
    t.tidxStart.toNat ≤ time.toNat → time.toNat ≤ t.tidxStop.toNat →
    ⟨name, time⟩ ∈ pgs.map pgKey →
    (t.timeIndex g (time - t.tidxStart).toNat).1.toNat = (pgs.map pgKey).idxOf ⟨name, time⟩

def SortedPgs.Tabulated (l : SortedPgs) : Prop :=
  ∀ garbage, ∃ t, bpParsePgs garbage l.pgs = .ok t ∧ t.Right l.pgs

/-- Each group has process groups at each time; they stand together, and behind them comes another
group, if there is one. -/
structure Regular (pgs : List IndexProcessGroup) (first last : IndexProcessGroup) : Prop where
  head : pgs.head? = some first
  getLast : pgs.getLast? = some last
  groups : (groupNames pgs).length ≤ 65536
  span : last.timeIndex.toNat - first.timeIndex.toNat + 1 < 4294967296
  blocks {name : CString} (hname : name ∈ groupNames pgs) (time : UInt32) :
    first.timeIndex.toNat ≤ time.toNat → time.toNat ≤ last.timeIndex.toNat →
    ∃ before count after, IsBlock (flushes (groupNames pgs).length) (pgs.map pgKey) ⟨name, time⟩
      before (count + 1) after ∧ before.length < 4294967296 ∧ count + 1 < 4294967296

/-! ## The ids -/

section

variable {names : List CString} (hlen : names.length ≤ 65536)

include hlen

theorem idKey_group {k : PgKey CString} (hk : k.group ∈ names) :
    (idKey names k).group = names.idxOf k.group := by
  have hlt := idxOf_lt_length_of_mem hk
  show (UInt16.ofNat _).toNat = _
  rw [UInt16.toNat_ofNat']
  exact Nat.mod_eq_of_lt (Nat.lt_of_lt_of_le hlt hlen)

theorem idKey_inj (a b : PgKey CString) (ha : a.group ∈ names) (hb : b.group ∈ names)
    (heq : idKey names a = idKey names b) : a = b := by
  obtain ⟨hgroup, htime⟩ := PgKey.mk.inj heq
  have hidx : (idKey names a).group = (idKey names b).group := hgroup
  rw [idKey_group hlen ha, idKey_group hlen hb] at hidx
  obtain ⟨group, time⟩ := a
  obtain ⟨group', time'⟩ := b
  exact PgKey.mk.injEq _ _ _ _ ▸ ⟨(idxOf_inj ha).mp hidx, htime⟩

theorem idKey_of_getElem? (hnodup : names.Nodup) {g : Nat} {name : CString}
    (hname : names[g]? = some name) (time : UInt32) : idKey names ⟨name, time⟩ = ⟨g, time⟩ := by
  obtain ⟨hlt, rfl⟩ := List.getElem?_eq_some_iff.mp hname
  have hgroup := @idKey_group names hlen ⟨names[g], time⟩ (getElem_mem hlt)
  rw [hnodup.idxOf_getElem] at hgroup
  exact congrArg (PgKey.mk · time) hgroup

theorem flushes_idKey (groupCount : Nat) (a b : PgKey CString) (ha : a.group ∈ names)
    (hb : b.group ∈ names) :
    flushes groupCount (idKey names a) (idKey names b) = flushes groupCount a b := by
  unfold flushes
  rw [idKey_group hlen ha, idKey_group hlen hb]
  congr 1
  rw [decide_eq_decide, not_iff_not]
  exact idxOf_inj ha

end

theorem span_le_length {pgs : List IndexProcessGroup} {a b : Nat}
    (h : ∀ t, a ≤ t → t ≤ b → ∃ pg ∈ pgs, pg.timeIndex.toNat = t) : b + 1 - a ≤ pgs.length := by
  have hsub : List.range' a (b + 1 - a) ⊆ pgs.map fun pg => pg.timeIndex.toNat := fun t ht => by
    obtain ⟨hle, hlt⟩ := mem_range'_1.mp ht
    obtain ⟨pg, hpg, heq⟩ := h t hle (by omega)
    exact mem_map.mpr ⟨pg, hpg, heq⟩
  have hle := (subperm_of_subset nodup_range' hsub).length_le
  rw [length_range', length_map] at hle
  exact hle

/-! ## When it is right -/

section

variable {pgs rest : List IndexProcessGroup} {first last : IndexProcessGroup}

theorem key_between (l : SortedPgs) {first last : IndexProcessGroup}
    (hhead : l.pgs.head? = some first) (hlast : l.pgs.getLast? = some last) {k : PgKey CString}
    (hk : k ∈ l.pgs.map pgKey) : k.group ∈ groupNames l.pgs ∧
      first.timeIndex.toNat ≤ k.time.toNat ∧ k.time.toNat ≤ last.timeIndex.toNat := by
  obtain ⟨pg, hpg, rfl⟩ := mem_map.mp hk
  refine ⟨(mem_groupNames l.pgs _).mpr (mem_map_of_mem hpg), ?_, ?_⟩
  · obtain ⟨rest, hcons⟩ := List.head?_eq_some_iff.mp hhead
    have hsorted := l.sorted
    rw [hcons] at hpg hsorted
    cases hpg with
    | head => exact Nat.le_refl _
    | tail _ hpg => exact (pairwise_cons.mp hsorted).1 pg hpg
  · obtain ⟨front, hconcat⟩ := List.getLast?_eq_some_iff.mp hlast
    have hsorted := l.sorted
    rw [hconcat] at hpg hsorted
    rcases mem_append.mp hpg with hpg | hpg
    · exact (pairwise_append.mp hsorted).2.2 pg hpg last (mem_singleton.mpr rfl)
    · rw [mem_singleton.mp hpg]
      exact Nat.le_refl _

def nameRuns (pgs : List IndexProcessGroup) (first : IndexProcessGroup) :
    List (KeyRun (PgKey CString)) :=
  keyRuns (flushes (groupNames pgs).length) (pgKey first) 0 0 0 (pgs.map pgKey)

theorem idRuns_eq (hlen : (groupNames pgs).length ≤ 65536) (hhead : pgs.head? = some first) :
    keyRuns (flushes (groupNames pgs).length) (idKey (groupNames pgs) (pgKey first)) 0 0 0
      ((pgs.map pgKey).map (idKey (groupNames pgs))) =
    (nameRuns pgs first).map fun r => ⟨idKey (groupNames pgs) r.key, r.first, r.count⟩ := by
  have hnames : ∀ pg ∈ pgs, (pgKey pg).group ∈ groupNames pgs := fun pg hpg =>
    (mem_groupNames pgs _).mpr (mem_map_of_mem hpg)
  refine keyRuns_map (idKey_inj hlen) (flushes_idKey hlen _)
    (hnames first (mem_of_mem_head? hhead)) (fun k hk => ?_) 0 0 0
  obtain ⟨pg, hpg, rfl⟩ := mem_map.mp hk
  exact hnames pg hpg

theorem mem_of_mem_nameRuns (hhead : pgs.head? = some first) {r : KeyRun (PgKey CString)}
    (hr : r ∈ nameRuns pgs first) : r.key ∈ pgs.map pgKey := by
  rcases mem_cons.mp (mem_of_mem_keyRuns hr) with hkey | hmem
  · rw [hkey]
    exact mem_map_of_mem (mem_of_mem_head? hhead)
  · exact hmem

theorem nameRuns_right (hhead : pgs.head? = some first)
    (h : InBlocks (flushes (groupNames pgs).length) (pgs.map pgKey)) :
    (∀ r ∈ nameRuns pgs first,
      r.first = (pgs.map pgKey).idxOf r.key ∧ r.count = (pgs.map pgKey).count r.key) ∧
    ∀ k ∈ pgs.map pgKey, ∃ r ∈ nameRuns pgs first, r.key = k := by
  obtain ⟨rest, hcons⟩ := List.head?_eq_some_iff.mp hhead
  have hkeys : pgs.map pgKey = pgKey first :: rest.map pgKey := by
    rw [hcons]
    rfl
  have hruns : nameRuns pgs first = keyRuns (flushes (groupNames pgs).length) (pgKey first) 0 1 1
      (rest.map pgKey) := by
    rw [nameRuns, hkeys, keyRuns, if_pos rfl]
  have hright := @keyRuns_of_inBlocks _ _ _ (pgKey first) 0 _ [] (rest.map pgKey) h hkeys
    not_mem_nil
  rw [hruns]
  rw [hkeys] at *
  exact hright

theorem timeSteps_eq {start stop : UInt32} (hle : start.toNat ≤ stop.toNat)
    (hspan : stop.toNat - start.toNat + 1 < 4294967296) :
    (stop - start + 1).toNat = stop.toNat - start.toNat + 1 := by
  rw [UInt32.toNat_add, UInt32.toNat_sub]
  have hstop := stop.toNat_lt
  have hone : (1 : UInt32).toNat = 1 := rfl
  omega

section

variable {l : SortedPgs} (h : Regular l.pgs first last)

include h

section

variable {name : CString} (hname : name ∈ groupNames l.pgs) (time : UInt32)
  (hle : first.timeIndex.toNat ≤ time.toNat) (hge : time.toNat ≤ last.timeIndex.toNat)

include hname time hle hge

theorem Regular.mem_keys :
    PgKey.mk name time ∈ l.pgs.map pgKey := by
  obtain ⟨before, count, after, hblock, -⟩ := h.blocks hname time hle hge
  rw [hblock.keys_eq]
  exact mem_append_right _ (mem_append_left _ mem_cons_self)

theorem Regular.fits :
    (l.pgs.map pgKey).idxOf ⟨name, time⟩ < 4294967296 ∧
      (l.pgs.map pgKey).count ⟨name, time⟩ < 4294967296 := by
  obtain ⟨before, count, after, hblock, hfirst, hcount⟩ := h.blocks hname time hle hge
  rw [hblock.idxOf_eq, hblock.count_eq]
  exact ⟨hfirst, hcount⟩

end

theorem Regular.rowSize_eq :
    rowSize l.pgs (last.timeIndex - first.timeIndex + 1).toNat =
      last.timeIndex.toNat - first.timeIndex.toNat + 1 := by
  have hmem : first ∈ l.pgs := mem_of_mem_head? h.head
  have hstart : first.timeIndex.toNat ≤ last.timeIndex.toNat :=
    (key_between l h.head h.getLast (mem_map_of_mem hmem)).2.2
  have hname := (mem_groupNames l.pgs first.groupName).mpr (mem_map_of_mem hmem)
  have hspan : last.timeIndex.toNat + 1 - first.timeIndex.toNat ≤ l.pgs.length := by
    refine span_le_length fun t hle hge => ?_
    have hlast := last.timeIndex.toNat_lt
    have htime : (UInt32.ofNat t).toNat = t := UInt32.toNat_ofNat_of_lt' (by
      show t < 4294967296
      omega)
    obtain ⟨pg, hpg, heq⟩ := mem_map.mp
      (h.mem_keys hname (UInt32.ofNat t) (by omega) (by omega))
    have htimes := (PgKey.mk.inj heq).2
    exact ⟨pg, hpg, by rw [htimes, htime]⟩
  rw [rowSize, timeSteps_eq hstart h.span, if_neg (by omega)]

theorem Regular.inTable :
    ∀ r ∈ (nameRuns l.pgs first).map fun r =>
      KeyRun.mk (idKey (groupNames l.pgs) r.key) r.first r.count,
    InTable (groupNames l.pgs).length (rowSize l.pgs (last.timeIndex - first.timeIndex + 1).toNat)
      first.timeIndex r := fun r hr => by
  obtain ⟨r, hmem, rfl⟩ := mem_map.mp hr
  obtain ⟨hname, hle, hge⟩ := key_between l h.head h.getLast (mem_of_mem_nameRuns h.head hmem)
  refine ⟨?_, ?_⟩
  · show (idKey (groupNames l.pgs) r.key).group < _
    rw [idKey_group h.groups hname]
    exact idxOf_lt_length_of_mem hname
  · show (r.key.time - first.timeIndex).toNat < _
    rw [h.rowSize_eq, UInt32.toNat_sub]
    have hlast := last.timeIndex.toNat_lt
    omega

theorem Regular.fill_right (garbage : TimeTable) :
    ∃ table, fill (groupNames l.pgs).length
        (rowSize l.pgs (last.timeIndex - first.timeIndex + 1).toNat) first.timeIndex garbage
        ((nameRuns l.pgs first).map fun r =>
          ⟨idKey (groupNames l.pgs) r.key, r.first, r.count⟩) = .ok table ∧
      ∀ {g : Nat} {name : CString} {time : UInt32}, (groupNames l.pgs)[g]? = some name →
        PgKey.mk name time ∈ l.pgs.map pgKey → table g (time - first.timeIndex).toNat =
          (UInt32.ofNat ((l.pgs.map pgKey).idxOf ⟨name, time⟩),
            UInt32.ofNat ((l.pgs.map pgKey).count ⟨name, time⟩)) := by
  -- each key has a block
  have hblocks : InBlocks (flushes (groupNames l.pgs).length) (l.pgs.map pgKey) := fun k hk => by
    obtain ⟨hname, hle, hge⟩ := key_between l h.head h.getLast hk
    obtain ⟨before, count, after, hblock, -⟩ := h.blocks hname k.time hle hge
    exact ⟨before, count + 1, after, hblock⟩
  obtain ⟨hright, hall⟩ := nameRuns_right h.head hblocks
  obtain ⟨table, hfill, hentries⟩ := fill_spec h.inTable garbage
  refine ⟨table, hfill, ?_⟩
  intro g name time hname hkey
  have hid := idKey_of_getElem? h.groups (nodup_groupNames l.pgs) hname time
  rcases hentries ⟨g, time⟩ with ⟨r, hr, hrkey, heq⟩ | ⟨hnone, -⟩
  · obtain ⟨r, hmem, rfl⟩ := mem_map.mp hr
    have hrname := (key_between l h.head h.getLast (mem_of_mem_nameRuns h.head hmem)).1
    have hsame : r.key = ⟨name, time⟩ := idKey_inj h.groups _ _ hrname
      (mem_of_getElem? hname) (hrkey.trans hid.symm)
    obtain ⟨hfirst, hcount⟩ := hright r hmem
    rw [hsame] at hfirst hcount
    rw [← hfirst, ← hcount]
    exact heq
  · obtain ⟨r, hmem, hsame⟩ := hall _ hkey
    exact absurd (by rw [hsame, hid]) (hnone _ (mem_map_of_mem hmem))

theorem tabulated_of_regular : l.Tabulated := by
  intro garbage
  obtain ⟨rest, hcons⟩ := List.head?_eq_some_iff.mp h.head
  obtain ⟨table, hfill, hentry⟩ := h.fill_right garbage
  refine ⟨⟨groupNames l.pgs, table, first.timeIndex, last.timeIndex⟩, ?_, nodup_groupNames l.pgs,
    mem_groupNames l.pgs, by rw [h.head]; rfl, by rw [h.getLast]; rfl, ?_, ?_⟩
  · rw [bpParsePgs_eq garbage hcons h.getLast, idRuns_eq h.groups h.head, hfill, ok_bind]
  · intro g name hname time hle hge
    have hmem := mem_of_getElem? hname
    dsimp only
    rw [hentry hname (h.mem_keys hmem time hle hge)]
    exact UInt32.toNat_ofNat_of_lt' (h.fits hmem time hle hge).2
  · intro g name hname time hle hge hkey
    dsimp only
    rw [hentry hname hkey]
    exact UInt32.toNat_ofNat_of_lt' (h.fits (mem_of_getElem? hname) time hle hge).1

end

section

variable {l : SortedPgs} (h : l.Tabulated) (hhead : l.pgs.head? = some first)
  (hlast : l.pgs.getLast? = some last)

include h hhead hlast

theorem entries_of_tabulated (garbage : TimeTable) :
    ∃ table, (PgTable.mk (groupNames l.pgs) table first.timeIndex last.timeIndex).Right l.pgs ∧
      ∀ runs, runs = keyRuns (flushes (groupNames l.pgs).length)
          (idKey (groupNames l.pgs) (pgKey first)) 0 0 0
          ((l.pgs.map pgKey).map (idKey (groupNames l.pgs))) →
        (∀ r ∈ runs, InTable (groupNames l.pgs).length
          (rowSize l.pgs (last.timeIndex - first.timeIndex + 1).toNat) first.timeIndex r) ∧
        ∀ k : PgKey Nat,
          (∃ r ∈ runs, r.key = k ∧
            table k.group (k.time - first.timeIndex).toNat = runEntry r) ∨
          (∀ r ∈ runs, r.key ≠ k) ∧ table k.group (k.time - first.timeIndex).toNat =
            garbage k.group (k.time - first.timeIndex).toNat := by
  obtain ⟨rest, hcons⟩ := List.head?_eq_some_iff.mp hhead
  obtain ⟨t, hok, hright⟩ := h garbage
  rw [bpParsePgs_eq garbage hcons hlast] at hok
  obtain ⟨table, hfill, hok⟩ := exists_of_bind_eq_ok hok
  obtain rfl := Except.ok.inj hok
  refine ⟨table, hright, fun runs hruns => ?_⟩
  subst hruns
  have hin := inTable_of_fill hfill
  obtain ⟨table', hfill', hentries⟩ := fill_spec hin garbage
  obtain rfl := Except.ok.inj (hfill.symm.trans hfill')
  exact ⟨hin, hentries⟩

theorem groups_of_tabulated : (groupNames l.pgs).length ≤ 65536 := by
  by_contra hlen
  rw [Nat.not_le] at hlen
  obtain ⟨table, hright, hruns⟩ := entries_of_tabulated h hhead hlast fun _ _ => (0, 0)
  obtain ⟨-, hentries⟩ := hruns _ rfl
  have hname : (groupNames l.pgs)[65536]? = some (groupNames l.pgs)[65536] :=
    getElem?_eq_getElem hlen
  obtain ⟨pg, hpg, hgroup⟩ := mem_map.mp
    ((mem_groupNames l.pgs _).mp (mem_of_getElem? hname))
  have hkey : pgKey pg ∈ l.pgs.map pgKey := mem_map_of_mem hpg
  obtain ⟨-, hle, hge⟩ := key_between l hhead hlast hkey
  have hcount := hright.counts hname pg.timeIndex hle hge
  rw [← hgroup] at hcount
  have hpos : 0 < (l.pgs.map pgKey).count (pgKey pg) := count_pos_iff.mpr hkey
  rcases hentries ⟨65536, pg.timeIndex⟩ with ⟨r, hr, hrkey, -⟩ | ⟨-, heq⟩
  · -- no id is that large
    obtain ⟨k, -, hk⟩ : ∃ k : PgKey CString, True ∧ idKey (groupNames l.pgs) k = r.key := by
      rcases mem_cons.mp (mem_of_mem_keyRuns hr) with hfirst | hmem
      · exact ⟨_, trivial, hfirst.symm⟩
      · obtain ⟨k, -, hk⟩ := mem_map.mp hmem
        exact ⟨k, trivial, hk⟩
    have hlt := (UInt16.ofNat ((groupNames l.pgs).idxOf k.group)).toNat_lt
    have hid : (UInt16.ofNat ((groupNames l.pgs).idxOf k.group)).toNat = 65536 :=
      congrArg PgKey.group (hk.trans hrkey)
    omega
  · dsimp only at heq hcount
    rw [heq] at hcount
    exact absurd hcount.symm (Nat.ne_of_gt hpos)

theorem span_of_tabulated :
    last.timeIndex.toNat - first.timeIndex.toNat + 1 < 4294967296 := by
  by_contra hspan
  obtain ⟨table, -, hruns⟩ := entries_of_tabulated h hhead hlast fun _ _ => (0, 0)
  obtain ⟨hin, -⟩ := hruns _ rfl
  obtain ⟨r, hr⟩ := @exists_mem_keyRuns _ (flushes (groupNames l.pgs).length) _
    (idKey (groupNames l.pgs) (pgKey first)) 0 0 0
    ((l.pgs.map pgKey).map (idKey (groupNames l.pgs)))
  have hlt := (hin r hr).2
  have hfirst := first.timeIndex.toNat_lt
  have hstop := last.timeIndex.toNat_lt
  have hsteps : (last.timeIndex - first.timeIndex + 1).toNat = 0 := by
    have hone : (1 : UInt32).toNat = 1 := rfl
    rw [UInt32.toNat_add, UInt32.toNat_sub]
    omega
  rw [hsteps, rowSize, if_neg (Nat.not_lt_zero _)] at hlt
  exact Nat.not_lt_zero _ hlt

theorem blocks_of_tabulated {name : CString} (hname : name ∈ groupNames l.pgs)
    (time : UInt32) (hle : first.timeIndex.toNat ≤ time.toNat)
    (hge : time.toNat ≤ last.timeIndex.toNat) :
    ∃ before count after, IsBlock (flushes (groupNames l.pgs).length) (l.pgs.map pgKey) ⟨name, time⟩
      before (count + 1) after ∧ before.length < 4294967296 ∧ count + 1 < 4294967296 := by
  have hlen := groups_of_tabulated h hhead hlast
  obtain ⟨g, hg⟩ := getElem?_of_mem hname
  have hid := idKey_of_getElem? hlen (nodup_groupNames l.pgs) hg time
  -- what is stored is a run of the key, or nothing is
  have hstored : ∀ garbage : TimeTable, ∃ table,
      (PgTable.mk (groupNames l.pgs) table first.timeIndex last.timeIndex).Right l.pgs ∧
      ((∃ r ∈ nameRuns l.pgs first, r.key = ⟨name, time⟩ ∧
        table g (time - first.timeIndex).toNat = (UInt32.ofNat r.first, UInt32.ofNat r.count)) ∨
        table g (time - first.timeIndex).toNat = garbage g (time - first.timeIndex).toNat) := by
    intro garbage
    obtain ⟨table, hright, hruns⟩ := entries_of_tabulated h hhead hlast garbage
    obtain ⟨-, hentries⟩ := hruns _ (idRuns_eq hlen hhead).symm
    refine ⟨table, hright, ?_⟩
    rcases hentries ⟨g, time⟩ with ⟨r, hr, hrkey, heq⟩ | ⟨-, heq⟩
    · obtain ⟨r, hmem, rfl⟩ := mem_map.mp hr
      have hrname := (key_between l hhead hlast (mem_of_mem_nameRuns hhead hmem)).1
      exact .inl ⟨r, hmem, idKey_inj hlen _ _ hrname hname (hrkey.trans hid.symm), heq⟩
    · exact .inr heq
  have hkey : PgKey.mk name time ∈ l.pgs.map pgKey := by
    by_contra hnot
    obtain ⟨table, hright, hcases⟩ := hstored fun _ _ => (0, 1)
    have hcount := hright.counts hg time hle hge
    rw [List.count_eq_zero.mpr hnot] at hcount
    rcases hcases with ⟨r, hr, hrkey, -⟩ | heq
    · exact hnot (hrkey ▸ mem_of_mem_nameRuns hhead hr)
    · dsimp only at hcount
      rw [heq] at hcount
      cases hcount
  have hpos := count_pos_iff.mpr hkey
  obtain ⟨table, hright, hcases⟩ := hstored fun _ _ => (0, 0)
  have hcount := hright.counts hg time hle hge
  have hfirst := hright.firsts hg time hle hge hkey
  dsimp only at hcount hfirst
  rcases hcases with ⟨r, hr, hrkey, heq⟩ | heq
  · rw [heq] at hcount hfirst
    dsimp only at hcount hfirst
    have hstands : r.Stands (flushes (groupNames l.pgs).length) (l.pgs.map pgKey) :=
      keyRuns_stands (show l.pgs.map pgKey =
        [] ++ (List.replicate 0 (pgKey first) ++ l.pgs.map pgKey) from rfl) 0 hr
    have hcountle := hstands.count_le
    have hmod : (UInt32.ofNat r.count).toNat = r.count % 4294967296 := UInt32.toNat_ofNat'
    have hmodle := Nat.mod_le r.count 4294967296
    have hmodlt := Nat.mod_lt r.count (show 0 < 4294967296 by decide)
    rw [hrkey] at hcountle
    obtain ⟨before, after, hblock⟩ := hstands.isBlock (by rw [hrkey]; omega)
    obtain ⟨n, hn⟩ : ∃ n, r.count = n + 1 := ⟨r.count - 1, by omega⟩
    rw [hrkey, hn] at hblock
    refine ⟨before, n, after, hblock, ?_, by omega⟩
    rw [← hblock.idxOf_eq, ← hfirst]
    exact UInt32.toNat_lt _
  · rw [heq] at hcount
    exact absurd hcount (Nat.ne_of_lt hpos)

end

theorem regular_of_tabulated {l : SortedPgs} (h : l.Tabulated) :
    ∃ first last, Regular l.pgs first last := by
  obtain ⟨t, -, hright⟩ := h fun _ _ => (0, 0)
  obtain ⟨first, hhead, -⟩ := Option.map_eq_some_iff.mp hright.start
  obtain ⟨last, hlast, -⟩ := Option.map_eq_some_iff.mp hright.stop
  exact ⟨first, last, hhead, hlast, groups_of_tabulated h hhead hlast,
    span_of_tabulated h hhead hlast, blocks_of_tabulated h hhead hlast⟩

/-- **The table is right** exactly for such lists. -/
theorem tabulated_iff (l : SortedPgs) : l.Tabulated ↔ ∃ first last, Regular l.pgs first last :=
  ⟨regular_of_tabulated, fun ⟨_, _, h⟩ => tabulated_of_regular h⟩

end

def timesOneAndThree : SortedPgs where
  pgs := [pgOfTime 1, pgOfTime 3]
  sorted := by decide

/-- The rows have two places, and the last entry goes to the third one. -/
theorem not_tabulated_gap : ¬timesOneAndThree.Tabulated := fun h => by
  obtain ⟨t, hok, -⟩ := h fun _ _ => (0, 0)
  have hfault : bpParsePgs (fun _ _ => (0, 0)) timesOneAndThree.pgs = .error .outOfBounds := rfl
  rw [hfault] at hok
  cases hok

end Adios
