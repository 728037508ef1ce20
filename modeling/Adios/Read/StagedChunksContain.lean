import Adios.Read.StagedChunks

/-!
# Staged read — which bytes the chunks contain
-/

namespace Adios.StagedChunks

open List Lists UInt64

theorem insertRequest_eq (r : SplitRequest) (list : List SplitRequest) :
    insertRequest r list = insertBehind SplitRequest.key r list := by
  induction list with
  | nil => rfl
  | cons t ts ih =>
    have hlt : r.key < t.key ↔
        t.fileIdx > r.fileIdx ∨ t.fileIdx = r.fileIdx ∧ t.offset > r.offset := by
      rw [SplitRequest.key, SplitRequest.key, Prod.Lex.toLex_lt_toLex, gt_iff_lt, gt_iff_lt,
        lt_iff_toNat_lt, eq_comm]
    rw [insertRequest, insertBehind, ih]
    simp only [hlt]

theorem sortReadRequests_eq (list : List SplitRequest) :
    sortReadRequests list = sortBehind SplitRequest.key list := by
  unfold sortReadRequests sortBehind
  congr 1
  funext n r
  exact insertRequest_eq r n

theorem sorted_sortReadRequests (list : List SplitRequest) :
    Sorted list (sortReadRequests list) := by
  obtain ⟨hperm, hordered, hstable⟩ := @sortBehind_spec _ _ _ SplitRequest.key list
  rw [← sortReadRequests_eq] at hperm hordered hstable
  refine ⟨hperm, hordered.imp fun {r r'} hle => ?_, fun fileIdx offset => ?_⟩
  · rw [SplitRequest.key, SplitRequest.key, Prod.Lex.toLex_le_toLex] at hle
    exact hle.imp id fun h => ⟨h.1, le_iff_toNat_le.mpr h.2⟩
  · have hkey : ∀ r : SplitRequest, (r.fileIdx = fileIdx ∧ r.offset = offset) ↔
        r.key = toLex (fileIdx, offset.toNat) := fun r => by
      rw [SplitRequest.key, EmbeddingLike.apply_eq_iff_eq, Prod.mk.injEq, UInt64.toNat_inj]
    simp only [hkey]
    exact hstable _

/-! ## Groups -/

section

variable {chunkBufferSize : Int} {xs : List SplitRequest} {groups : List (List SplitRequest)}

theorem Grouping.flatten (h : Grouping chunkBufferSize xs groups) : groups.flatten = xs := by
  induction h with
  | nil => rfl
  | cons _ _ _ ih => rw [flatten_cons, ih]

theorem Grouping.unique {groups' : List (List SplitRequest)}
    (h : Grouping chunkBufferSize xs groups) (h' : Grouping chunkBufferSize xs groups') :
    groups = groups' := by
  induction h generalizing groups' with
  | nil =>
    cases h'
    rfl
  | @cons o group behind groups together apart _ ih =>
    generalize hxs : o :: group ++ behind = xs at h'
    cases h' with
    | nil => cases hxs
    | @cons o' group' behind' groups' together' apart' others' =>
      obtain ⟨rfl, htail⟩ := List.cons.inj hxs
      -- neither of the two can be longer
      have hsame : group = group' ∧ behind = behind' := by
        rcases append_eq_append_iff.mp htail with ⟨rest, hgroup, hbehind⟩ |
          ⟨rest, hgroup, hbehind⟩
        · cases rest with
          | nil => exact ⟨by simpa using hgroup.symm, by simpa using hbehind⟩
          | cons r rest =>
            refine absurd (together' r ?_) (apart r (by rw [hbehind]; rfl))
            rw [hgroup]
            exact mem_append_right _ mem_cons_self
        · cases rest with
          | nil => exact ⟨by simpa using hgroup, by simpa using hbehind.symm⟩
          | cons r rest =>
            refine absurd (together r ?_) (apart' r (by rw [hbehind]; rfl))
            rw [hgroup]
            exact mem_append_right _ mem_cons_self
      obtain ⟨rfl, rfl⟩ := hsame
      rw [ih others']

end

def readGroups (s : Setting) :
    List (List SplitRequest) → Option UInt64 → Except Fault (List Chunk × Option UInt64)
  | [], payloadSize => return ([], payloadSize)
  | group :: groups, payloadSize => do
    match group.head?, group.getLast? with
    | some o, some l =>
      match ((← getDataAddr s l).map Address.payloadSize).or payloadSize with
      | none => throw .wildPointer
      | some size =>
        let (chunks, payloadSize) ← readGroups s groups (some size)
        return (⟨o.fileIdx, o.offset, l.offset - o.offset + size, group⟩ :: chunks, payloadSize)
    | _, _ => throw .wildPointer

theorem readGroups_append (s : Setting) (gs gs' : List (List SplitRequest))
    (payloadSize : Option UInt64) :
    readGroups s (gs ++ gs') payloadSize = (do
      let r ← readGroups s gs payloadSize
      let r' ← readGroups s gs' r.2
      return (r.1 ++ r'.1, r'.2)) := by
  induction gs generalizing payloadSize with
  | nil =>
    show readGroups s gs' payloadSize = (readGroups s gs' payloadSize >>= fun r' => pure (_, r'.2))
    cases readGroups s gs' payloadSize <;> rfl
  | cons group gs ih =>
    rw [cons_append, readGroups, readGroups]
    cases group.head? with
    | none => rfl
    | some o =>
      cases group.getLast? with
      | none => rfl
      | some l =>
        dsimp only
        cases getDataAddr s l with
        | error e => rfl
        | ok a =>
          rw [ok_bind, ok_bind]
          cases (a.map Address.payloadSize).or payloadSize with
          | none => rfl
          | some size =>
            dsimp only
            rw [ih]
            cases readGroups s gs (some size) with
            | error e => rfl
            | ok r =>
              show (readGroups s gs' r.2 >>= _) >>= _ = (readGroups s gs' r.2 >>= _)
              cases readGroups s gs' r.2 with
              | error e => rfl
              | ok r' => rfl

/-! ## The loops -/

section

variable {chunkBufferSize : Int}

theorem near_iff (hpos : 0 < chunkBufferSize) (hint : chunkBufferSize < 2147483648)
    {o r : SplitRequest} (hle : o.offset ≤ r.offset) :
    r.offset - o.offset ≤ UInt64.ofInt chunkBufferSize ↔
      (r.offset.toNat : Int) - o.offset.toNat ≤ chunkBufferSize := by
  have hle := le_iff_toNat_le.mp hle
  have hchunk : ((UInt64.ofInt chunkBufferSize).toNat : Int) = chunkBufferSize := by
    rw [UInt64.ofInt, toNat_ofNat_of_lt' (show _ < 18446744073709551616 by omega)]
    omega
  have hsub : (r.offset - o.offset).toNat = r.offset.toNat - o.offset.toNat :=
    UInt64.toNat_sub_of_le _ _ (le_iff_toNat_le.mpr hle)
  rw [le_iff_toNat_le, hsub]
  omega

theorem head?_dropWhile_not {p : SplitRequest → Bool} {xs : List SplitRequest} {r : SplitRequest}
    (h : r ∈ (xs.dropWhile p).head?) : p r = false := by
  have hnot := List.head?_dropWhile_not p xs
  rw [Option.mem_def.mp h] at hnot
  exact hnot

theorem grouping_cons (hpos : 0 < chunkBufferSize) (hint : chunkBufferSize < 2147483648)
    {o : SplitRequest} {rest behind : List SplitRequest} (hfile : ∀ r ∈ rest, r.fileIdx = o.fileIdx)
    (hle : ∀ r ∈ rest, o.offset ≤ r.offset) (hbehind : ∀ r ∈ behind.head?, r.fileIdx ≠ o.fileIdx)
    {near : SplitRequest → Bool}
    (hnear : near = fun r => decide (r.offset - o.offset ≤ UInt64.ofInt chunkBufferSize))
    {groups : List (List SplitRequest)}
    (h : Grouping chunkBufferSize (rest.dropWhile near ++ behind) groups) :
    Grouping chunkBufferSize (o :: rest ++ behind) ((o :: rest.takeWhile near) :: groups) := by
  have hiff : ∀ r ∈ rest, near r = true ↔
      (r.offset.toNat : Int) - o.offset.toNat ≤ chunkBufferSize := fun r hr => by
    rw [hnear]
    exact decide_eq_true_iff.trans (near_iff hpos hint (hle r hr))
  have hsplit : rest ++ behind =
      rest.takeWhile near ++ (rest.dropWhile near ++ behind) := by
    rw [← append_assoc, takeWhile_append_dropWhile]
  rw [cons_append, hsplit]
  refine .cons (fun r hr => ?_) (fun r hr htogether => ?_) h
  · have hmem := (takeWhile_sublist near).subset hr
    exact ⟨hfile r hmem, (hiff r hmem).mp (mem_takeWhile_imp hr)⟩
  · -- the first request behind the group is too far away, or in another subfile
    cases hdrop : rest.dropWhile near with
    | nil =>
      rw [hdrop] at hr
      exact hbehind r hr htogether.1
    | cons q qs =>
      rw [hdrop] at hr
      obtain rfl : q = r := Option.some.inj hr
      have hmem : q ∈ rest := (dropWhile_sublist near).subset (by
        rw [hdrop]
        exact mem_cons_self)
      have hnot : near q = false := @head?_dropWhile_not near rest q (by rw [hdrop]; rfl)
      rw [(hiff q hmem).mpr htogether.2] at hnot
      cases hnot

theorem chunkLoop_eq (s : Setting) (hpos : 0 < chunkBufferSize)
    (hint : chunkBufferSize < 2147483648) {fuel : Nat} {xs behind : List SplitRequest} {f : Int}
    (hlen : xs.length ≤ fuel) (hfile : ∀ r ∈ xs, r.fileIdx = f)
    (hordered : xs.Pairwise fun r r' => r.offset ≤ r'.offset)
    (hbehind : ∀ r ∈ behind.head?, r.fileIdx ≠ f) :
    ∃ gs, (∀ gs', Grouping chunkBufferSize behind gs' →
        Grouping chunkBufferSize (xs ++ behind) (gs ++ gs')) ∧
      ∀ payloadSize, chunkLoop s chunkBufferSize fuel xs payloadSize =
        readGroups s gs payloadSize := by
  induction fuel generalizing xs with
  | zero =>
    obtain rfl := eq_nil_of_length_eq_zero (Nat.le_zero.mp hlen)
    exact ⟨[], fun gs' h => h, fun _ => by rw [chunkLoop]; rfl⟩
  | succ fuel ih =>
    match xs with
    | [] => exact ⟨[], fun gs' h => h, fun _ => by rw [chunkLoop]; rfl⟩
    | o :: rest =>
      obtain ⟨hfirst, hrest⟩ := pairwise_cons.mp hordered
      obtain ⟨rfl, hfileRest⟩ := forall_mem_cons.mp hfile
      generalize hnear : (fun r : SplitRequest =>
        decide (r.offset - o.offset ≤ UInt64.ofInt chunkBufferSize)) = near
      have hself : near o = true := by
        rw [← hnear]
        refine decide_eq_true ((near_iff hpos hint (UInt64.le_refl _)).mpr ?_)
        omega
      obtain ⟨gs, hgrouping, hloop⟩ := @ih (rest.dropWhile near)
        (Nat.le_trans (dropWhile_sublist near).length_le (Nat.le_of_succ_le_succ hlen))
        (fun r hr => hfileRest r ((dropWhile_sublist near).subset hr))
        (hrest.sublist (dropWhile_sublist near))
      refine ⟨(o :: rest.takeWhile near) :: gs, fun gs' h => ?_, fun payloadSize => ?_⟩
      · exact grouping_cons hpos hint hfileRest hfirst hbehind hnear.symm (hgrouping gs' h)
      · rw [chunkLoop, hnear, takeWhile_cons_of_pos hself, dropWhile_cons_of_pos hself,
          readGroups, List.head?_cons]
        cases hlast : (o :: rest.takeWhile near).getLast? with
        | none => rfl
        | some l =>
          dsimp only
          cases getDataAddr s l with
          | error e => rfl
          | ok a =>
            rw [ok_bind, ok_bind]
            cases (a.map Address.payloadSize).or payloadSize with
            | none => rfl
            | some size =>
              dsimp only
              rw [hloop]

theorem fileLoop_eq (s : Setting) (hpos : 0 < chunkBufferSize)
    (hint : chunkBufferSize < 2147483648) {fuel : Nat} {xs : List SplitRequest}
    (hlen : xs.length ≤ fuel)
    (hordered : xs.Pairwise fun r r' =>
      r.fileIdx < r'.fileIdx ∨ r.fileIdx = r'.fileIdx ∧ r.offset ≤ r'.offset) :
    ∃ gs, Grouping chunkBufferSize xs gs ∧ ∀ payloadSize,
      fileLoop s chunkBufferSize fuel xs payloadSize = (readGroups s gs payloadSize).map Prod.fst := by
  induction fuel generalizing xs with
  | zero =>
    obtain rfl := eq_nil_of_length_eq_zero (Nat.le_zero.mp hlen)
    exact ⟨[], .nil, fun _ => by rw [fileLoop]; rfl⟩
  | succ fuel ih =>
    match xs with
    | [] => exact ⟨[], .nil, fun _ => by rw [fileLoop]; rfl⟩
    | f :: rest =>
      generalize hin : (fun r : SplitRequest => decide (r.fileIdx = f.fileIdx)) = inFile
      have hself : inFile f = true := by rw [← hin]; exact decide_eq_true rfl
      have hsplit : (f :: rest).takeWhile inFile ++ (f :: rest).dropWhile inFile = f :: rest :=
        takeWhile_append_dropWhile
      have hfile : ∀ r ∈ (f :: rest).takeWhile inFile, r.fileIdx = f.fileIdx := fun r hr => by
        have hr := mem_takeWhile_imp hr
        rw [← hin] at hr
        exact of_decide_eq_true hr
      have hbehind : ∀ r ∈ ((f :: rest).dropWhile inFile).head?, r.fileIdx ≠ f.fileIdx :=
        fun r hr => by
          have hr := head?_dropWhile_not hr
          rw [← hin] at hr
          exact of_decide_eq_false hr
      have hoffsets : ((f :: rest).takeWhile inFile).Pairwise fun r r' => r.offset ≤ r'.offset := by
        refine (hordered.sublist (takeWhile_sublist inFile)).imp_of_mem ?_
        intro r r' hr hr' hle
        have hsame := (hfile r hr).trans (hfile r' hr').symm
        rcases hle with hlt | ⟨-, hle⟩
        · omega
        · exact hle
      obtain ⟨gs, hgrouping, hloop⟩ := @chunkLoop_eq _ s hpos hint (fuel + 1) _ _ _
        (Nat.le_trans (takeWhile_sublist inFile).length_le hlen) hfile hoffsets hbehind
      have hshorter : ((f :: rest).dropWhile inFile).length ≤ fuel := by
        rw [dropWhile_cons_of_pos hself]
        exact Nat.le_trans (dropWhile_sublist inFile).length_le (Nat.le_of_succ_le_succ hlen)
      obtain ⟨gs', hgrouping', hloop'⟩ := ih hshorter
        (hordered.sublist (dropWhile_sublist inFile))
      refine ⟨gs ++ gs', ?_, fun payloadSize => ?_⟩
      · rw [← hsplit]
        exact hgrouping gs' hgrouping'
      · rw [fileLoop, hin, readGroups_append, hloop]
        cases readGroups s gs payloadSize with
        | error e => rfl
        | ok r =>
          dsimp only [ok_bind]
          rw [hloop']
          cases readGroups s gs' r.2 with
          | error e => rfl
          | ok r' => rfl

end

/-! ## The bytes -/

structure IsGroup (chunkBufferSize : Int) (o l : SplitRequest) (group : List SplitRequest) : Prop where
  first : group.head? = some o
  last : group.getLast? = some l
  file : ∀ r ∈ group, r.fileIdx = o.fileIdx
  behind : ∀ r ∈ group, o.offset.toNat ≤ r.offset.toNat
  span : ∀ r ∈ group, (r.offset.toNat : Int) - o.offset.toNat ≤ chunkBufferSize

theorem Grouping.isGroup {chunkBufferSize : Int} (hpos : 0 < chunkBufferSize)
    {xs : List SplitRequest} {groups : List (List SplitRequest)}
    (h : Grouping chunkBufferSize xs groups)
    (hordered : xs.Pairwise fun r r' =>
      r.fileIdx < r'.fileIdx ∨ r.fileIdx = r'.fileIdx ∧ r.offset ≤ r'.offset) :
    ∀ group ∈ groups, ∃ o l, IsGroup chunkBufferSize o l group := by
  induction h with
  | nil => exact forall_mem_nil _
  | @cons o group behind groups together _ _ ih =>
    obtain ⟨hgroup, hbehind, -⟩ := pairwise_append.mp hordered
    obtain ⟨hfirst, -⟩ := pairwise_cons.mp hgroup
    refine forall_mem_cons.mpr ⟨?_, ih hbehind⟩
    refine ⟨o, (o :: group).getLast (cons_ne_nil _ _), rfl,
      List.getLast?_eq_some_getLast _, ?_, ?_, ?_⟩
    · exact forall_mem_cons.mpr ⟨rfl, fun r hr => (together r hr).1⟩
    · refine forall_mem_cons.mpr ⟨Nat.le_refl _, fun r hr => ?_⟩
      have hfile := (together r hr).1
      rcases hfirst r hr with hlt | ⟨-, hle⟩
      · omega
      · exact le_iff_toNat_le.mp hle
    · exact forall_mem_cons.mpr ⟨by omega, fun r hr => (together r hr).2⟩

section

variable {chunkBufferSize : Int} {o l : SplitRequest} {group : List SplitRequest}

theorem IsGroup.contains_iff (h : IsGroup chunkBufferSize o l group) (size : UInt64) :
    (⟨o.fileIdx, o.offset, l.offset - o.offset + size, group⟩ : Chunk).Contains ↔
      l.offset.toNat - o.offset.toNat + size.toNat < 18446744073709551616 ∧
        ∀ r ∈ group, r.offset.toNat + r.payload.toNat ≤ l.offset.toNat + size.toNat := by
  have hl := mem_of_getLast? h.last
  have hle := h.behind l hl
  have hsub : (l.offset - o.offset).toNat = l.offset.toNat - o.offset.toNat :=
    UInt64.toNat_sub_of_le _ _ (le_iff_toNat_le.mpr hle)
  have hsize : (l.offset - o.offset + size).toNat =
      (l.offset.toNat - o.offset.toNat + size.toNat) % 18446744073709551616 := by
    rw [UInt64.toNat_add, hsub]
  have hsizeLt := size.toNat_lt
  have hoffsetLt := l.offset.toNat_lt
  unfold Chunk.Contains
  dsimp only
  rw [hsize]
  constructor
  · intro hcontains
    -- a sum that wraps ends before the last request starts
    have hlast := (hcontains l hl).2
    have hlt : l.offset.toNat - o.offset.toNat + size.toNat < 18446744073709551616 := by omega
    refine ⟨hlt, fun r hr => ?_⟩
    have hend := (hcontains r hr).2
    omega
  · intro hends
    obtain ⟨hlt, hends⟩ := hends
    intro r hr
    have hend := hends r hr
    have hbehind := h.behind r hr
    exact ⟨hbehind, by omega⟩

theorem IsGroup.grouped (h : IsGroup chunkBufferSize o l group) (size : UInt64) :
    (⟨o.fileIdx, o.offset, size, group⟩ : Chunk).Grouped chunkBufferSize where
  nonempty := by
    intro hnil
    have hfirst := h.first
    rw [show group = [] from hnil] at hfirst
    cases hfirst
  file := h.file
  span := fun r hr => ⟨h.behind r hr, h.span r hr⟩

end

section

variable {s : Setting} {chunkBufferSize : Int} {groups : List (List SplitRequest)}

variable {before : Option UInt64}

theorem readGroups_cons {o l : SplitRequest} {group : List SplitRequest}
    (h : IsGroup chunkBufferSize o l group) {a : Option Address} (ha : getDataAddr s l = .ok a)
    {size : UInt64} (hsize : (a.map Address.payloadSize).or before = some size) :
    readGroups s (group :: groups) before = (do
      let r ← readGroups s groups (some size)
      return (⟨o.fileIdx, o.offset, l.offset - o.offset + size, group⟩ :: r.1, r.2)) := by
  rw [readGroups, h.first, h.last]
  dsimp only
  rw [ha, ok_bind, hsize]

theorem exists_of_readGroups {o l : SplitRequest} {group : List SplitRequest}
    (h : IsGroup chunkBufferSize o l group) {r : List Chunk × Option UInt64}
    (hr : readGroups s (group :: groups) before = .ok r) :
    ∃ a size r', getDataAddr s l = .ok a ∧ (a.map Address.payloadSize).or before = some size ∧
      readGroups s groups (some size) = .ok r' ∧
      r.1 = ⟨o.fileIdx, o.offset, l.offset - o.offset + size, group⟩ :: r'.1 := by
  rw [readGroups, h.first, h.last] at hr
  dsimp only at hr
  obtain ⟨a, ha, hr⟩ := exists_of_bind_eq_ok hr
  cases hsize : (a.map Address.payloadSize).or before with
  | none =>
    rw [hsize] at hr
    cases hr
  | some size =>
    rw [hsize] at hr
    dsimp only at hr
    obtain ⟨r', hr', hr⟩ := exists_of_bind_eq_ok hr
    obtain rfl := Except.ok.inj hr
    exact ⟨a, size, r', ha, hsize, hr', rfl⟩

theorem readGroups_iff (h : ∀ group ∈ groups, ∃ o l, IsGroup chunkBufferSize o l group)
    (before : Option UInt64) :
    (∃ r, readGroups s groups before = .ok r ∧ ∀ c ∈ r.1, c.Contains) ↔
      Reaches s before groups := by
  induction groups generalizing before with
  | nil =>
    refine iff_of_true ⟨_, rfl, ?_⟩ trivial
    exact forall_mem_nil _
  | cons group groups ih =>
    obtain ⟨⟨o, l, hgroup⟩, hgroups⟩ := forall_mem_cons.mp h
    constructor
    · intro hex
      obtain ⟨r, hr, hcontains⟩ := hex
      obtain ⟨a, size, r', ha, hsize, hr', hchunks⟩ := exists_of_readGroups hgroup hr
      rw [hchunks] at hcontains
      obtain ⟨hcontains, hothers⟩ := forall_mem_cons.mp hcontains
      obtain ⟨hlt, hends⟩ := (hgroup.contains_iff size).mp hcontains
      exact ⟨o, hgroup.first, l, hgroup.last, a, size, ha, hsize, hlt, hends,
        (ih hgroups (some size)).mp ⟨r', hr', hothers⟩⟩
    · intro hreaches
      obtain ⟨o', ho', l', hl', a, size, ha, hsize, hlt, hends, hothers⟩ := hreaches
      obtain rfl : o = o' := Option.some.inj (hgroup.first.symm.trans ho')
      obtain rfl : l = l' := Option.some.inj (hgroup.last.symm.trans hl')
      obtain ⟨r', hr', hcontains⟩ := (ih hgroups (some size)).mpr hothers
      refine ⟨_, by rw [readGroups_cons hgroup ha hsize, hr']; rfl, ?_⟩
      exact forall_mem_cons.mpr ⟨(hgroup.contains_iff size).mpr ⟨hlt, hends⟩, hcontains⟩

theorem grouped_of_readGroups (h : ∀ group ∈ groups, ∃ o l, IsGroup chunkBufferSize o l group)
    {r : List Chunk × Option UInt64} (hr : readGroups s groups before = .ok r) :
    r.1.flatMap Chunk.requests = groups.flatten ∧ ∀ c ∈ r.1, c.Grouped chunkBufferSize := by
  induction groups generalizing before r with
  | nil =>
    obtain rfl := Except.ok.inj hr
    exact ⟨rfl, forall_mem_nil _⟩
  | cons group groups ih =>
    obtain ⟨⟨o, l, hgroup⟩, hgroups⟩ := forall_mem_cons.mp h
    obtain ⟨a, size, r', -, -, hr', hchunks⟩ := exists_of_readGroups hgroup hr
    obtain ⟨hflat, hgrouped⟩ := ih hgroups hr'
    rw [hchunks, flatMap_cons, hflat, flatten_cons]
    exact ⟨rfl, forall_mem_cons.mpr ⟨hgroup.grouped _, hgrouped⟩⟩

end

/-! ## The result -/

namespace Input

theorem exists_groups (i : Input) :
    ∃ groups, Grouping i.chunkBufferSize (sortReadRequests i.list) groups ∧
      (∀ group ∈ groups, ∃ o l, IsGroup i.chunkBufferSize o l group) ∧
      ∀ fuel, i.list.length ≤ fuel →
        doRead i.setting i.chunkBufferSize fuel (sortReadRequests i.list) =
          (readGroups i.setting groups none).map Prod.fst := by
  have hsorted := sorted_sortReadRequests i.list
  have hlen := hsorted.perm.length_eq
  obtain ⟨groups, hgrouping, -⟩ := fileLoop_eq i.setting i.positive i.isInt (Nat.le_refl _)
    hsorted.ordered
  refine ⟨groups, hgrouping, hgrouping.isGroup i.positive hsorted.ordered, fun fuel hfuel => ?_⟩
  obtain ⟨groups', hgrouping', hloop⟩ := fileLoop_eq i.setting i.positive i.isInt
    (hlen.trans_le hfuel) hsorted.ordered
  obtain rfl := hgrouping.unique hgrouping'
  exact hloop none

end Input

def blockOfFour (ldim offset : UInt64) (τ : UInt32) (payloadOffset : UInt64) :
    IndexCharacteristic :=
  { IndexCharacteristic.zero with dims := ⟨1, [ldim, 4, offset]⟩, timeIndex := τ, payloadOffset }

def arrayOfFour : IndexEntry where
  id := 0
  groupName := CString.empty
  name := CString.empty
  path := CString.empty
  type := .byte
  characteristics := [blockOfFour 1 0 1 100, blockOfFour 3 1 1 101, blockOfFour 4 0 2 200]

def bothSteps : Input where
  setting := {
    fh := { version := 3, pgsCount := 3, tidxStart := 1, tidxStop := 2 }
    fileIsFortran := false
    streaming := false
    currentStep := 0
    varsTable := fun id => if id = 0 then some arrayOfFour else none }
  chunkBufferSize := 1048576
  positive := by decide
  isInt := by decide
  list := [⟨0, [0], [1], 0, 2, 0, 100, 1⟩, ⟨0, [1], [3], 0, 2, 0, 101, 3⟩,
    ⟨0, [0], [4], 0, 2, 0, 200, 4⟩]

end Adios.StagedChunks
