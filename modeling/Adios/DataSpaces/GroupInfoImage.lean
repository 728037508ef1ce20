import Adios.DataSpaces.GroupInfo

/-!
# DataSpaces — the image of a variable in a group's metadata

What a name, the dimensions and a value become on the way from the writer to the reader is said of
each by itself. From these comes what the reader gets at the image of a variable or an attribute.
-/

namespace Adios.DataSpaces

open List Wire

/-! ## Names -/

variable {bs : List UInt8} {e : IndexEntry} {dims : List Dimension}

theorem ofBuffer_val_of_forall (h : ∀ c ∈ bs, c ≠ 0) :
    (CString.ofBuffer bs).val = bs :=
  takeWhile_eq_self_iff.mpr fun c hc => decide_eq_true (h c hc)

theorem length_ofBuffer_le (bs : List UInt8) : (CString.ofBuffer bs).val.length ≤ bs.length :=
  (List.takeWhile_prefix _).length_le

theorem fullPath_root (h : e.path.val = [47]) :
    (fullPath e).val = 47 :: e.name.val := by
  have hne : ¬e.path.val = [] := fun hnil => by rw [hnil] at h; cases h
  rw [fullPath, if_neg hne, if_pos h, ofBuffer_val_of_forall]
  intro c hc
  cases hc with
  | head => decide
  | tail _ hc => exact e.name.property c hc

theorem fullPath_path (hne : ¬e.path.val = []) (h : ¬e.path.val = [47]) :
    (fullPath e).val = e.path.val ++ 47 :: e.name.val := by
  rw [fullPath, if_neg hne, if_neg h, ofBuffer_val_of_forall]
  intro c hc
  cases mem_append.mp hc with
  | inl hc => exact e.path.property c hc
  | inr hc =>
    cases hc with
    | head => decide
    | tail _ hc => exact e.name.property c hc

theorem length_strncpy (s : CString) (n : Nat) : (strncpy s n).length = n := by
  rw [strncpy, length_append, length_take, length_replicate]
  omega

theorem take_strncpy {s : CString} {n : Nat} (h : s.val.length ≤ n) :
    (strncpy s n).take s.val.length = s.val := by
  rw [strncpy, take_of_length_le h, take_left]

theorem memcpy_eq_ok {out : List UInt8} {n : Int} (h : memcpy (some bs) n = .ok out) :
    out.length = n ∧ out.length ≤ bs.length ∧ out = bs.take n.toNat := by
  unfold memcpy at h
  by_cases hn : n = 0
  · rw [if_pos hn] at h
    cases h
    subst hn
    exact ⟨rfl, Nat.zero_le _, rfl⟩
  · rw [if_neg hn] at h
    dsimp only at h
    by_cases hfits : 0 ≤ n ∧ n ≤ bs.length
    · rw [if_pos hfits] at h
      cases h
      rw [length_take]
      refine ⟨?_, ?_, rfl⟩ <;> omega
    · rw [if_neg hfits] at h
      cases h

theorem memcpy_of_le {n : Nat} (h : n ≤ bs.length) :
    memcpy (some bs) n = .ok (bs.take n) := by
  unfold memcpy
  by_cases hn : (n : Int) = 0
  · obtain rfl : n = 0 := by omega
    rfl
  · rw [if_neg hn]
    dsimp only
    rw [if_pos ⟨by omega, by omega⟩, Int.toNat_natCast]

theorem length_dsGetFullName {path name : CString} {out : List UInt8} {namelen : Int}
    (h : dsGetFullName path name nameSize = .ok (out, namelen)) : out.length = nameSize := by
  unfold dsGetFullName at h
  split_ifs at h with hbare hroot
  · obtain ⟨rfl, -⟩ := Prod.mk.inj (Except.ok.inj h)
    exact length_strncpy name nameSize
  · exact absurd (.inr hroot) hbare
  · dsimp only at h
    split_ifs at h with hlen
    obtain ⟨rfl, -⟩ := Prod.mk.inj (Except.ok.inj h)
    have hpath := length_strncpy path (nameSize - 1)
    have hname := length_strncpy name (nameSize - (cut32 path.val.length).toNat - 1)
    rw [length_append, length_take, length_cons, hpath, hname]
    unfold nameSize at *
    omega

theorem packName_of_kept (host : Endian) (h : NameKept e) :
    packName host e =
      .ok (host.i32 (fullPath e).val.length ++ (fullPath e).val) := by
  obtain ⟨hroot, hlen⟩ := h
  have hsize : nameSize = 256 := rfl
  by_cases hbare : e.path.val = []
  · have hfull : fullPath e = e.name := if_pos hbare
    rw [hfull] at hlen ⊢
    have hcut : cut32 e.name.val.length = (e.name.val.length : Int) :=
      cut32_of_fits (by omega) (by omega)
    have hcopy : memcpy (some (strncpy e.name nameSize)) e.name.val.length = .ok e.name.val := by
      rw [memcpy_of_le (by rw [length_strncpy]; exact hlen), take_strncpy hlen]
    unfold packName dsGetFullName
    rw [if_pos (.inl hbare), hcut, ok_bind]
    dsimp only
    rw [hcopy]
    rfl
  · have hfull := fullPath_path hbare hroot
    rw [hfull] at hlen ⊢
    rw [length_append, length_cons] at hlen
    have hcut : cut32 e.path.val.length = (e.path.val.length : Int) :=
      cut32_of_fits (by omega) (by omega)
    have hsum : cut32 ((e.path.val.length : Int) + e.name.val.length + 1) =
        ((e.path.val ++ 47 :: e.name.val).length : Int) := by
      rw [length_append, length_cons, cut32_of_fits (by omega) (by omega)]
      omega
    have hpath : (strncpy e.path (nameSize - 1)).take e.path.val.length = e.path.val :=
      take_strncpy (by omega)
    have hcopy : memcpy (some (e.path.val ++ 47 :: strncpy e.name
        (nameSize - e.path.val.length - 1))) (e.path.val ++ 47 :: e.name.val).length =
        .ok (e.path.val ++ 47 :: e.name.val) := by
      rw [memcpy_of_le, length_append, take_length_add_append, length_cons,
        take_succ_cons, take_strncpy (by omega)]
      rw [length_append, length_append, length_cons, length_cons, length_strncpy]
      omega
    unfold packName dsGetFullName
    rw [if_neg (not_or.mpr ⟨hbare, hroot⟩), if_neg hroot]
    dsimp only
    rw [hcut, if_pos ⟨by omega, by omega⟩, Int.toNat_natCast, hpath, hsum, ok_bind]
    dsimp only
    rw [hcopy]
    rfl

theorem dsGetFullNameLen_of_kept (h : NameKept e) :
    dsGetFullNameLen e.path e.name = (fullPath e).val.length := by
  obtain ⟨hroot, hlen⟩ := h
  have hsize : nameSize = 256 := rfl
  unfold dsGetFullNameLen
  by_cases hbare : e.path.val = []
  · have hfull : fullPath e = e.name := if_pos hbare
    rw [hfull] at hlen ⊢
    rw [if_pos hbare, cut32_of_fits (by omega) (by omega)]
  · rw [fullPath_path hbare hroot] at hlen ⊢
    rw [length_append, length_cons] at hlen ⊢
    rw [if_neg hbare, if_neg hroot, cut32_of_fits (by omega) (by omega)]
    omega

theorem packName_eq_ok {host : Endian} {bytes : List UInt8} (h : packName host e = .ok bytes) :
    ∃ name : List UInt8, name.length ≤ nameSize ∧
      bytes = host.i32 name.length ++ name ∧
      (CString.ofBuffer name = fullPath e → NameKept e) := by
  obtain ⟨⟨out, namelen⟩, hfull, h⟩ := exists_of_bind_eq_ok h
  obtain ⟨name, hcopy, h⟩ := exists_of_bind_eq_ok h
  cases h
  obtain ⟨hlen, hle, -⟩ := memcpy_eq_ok hcopy
  have hout := length_dsGetFullName hfull
  refine ⟨name, hout ▸ hle, by rw [hlen], fun heq => ?_⟩
  have hshort : (fullPath e).val.length ≤ name.length := heq ▸ length_ofBuffer_le name
  refine ⟨fun hroot => ?_, le_trans hshort (hout ▸ hle)⟩
  -- the slash of the root is not written
  unfold dsGetFullName at hfull
  rw [if_pos (.inr hroot)] at hfull
  obtain ⟨-, rfl⟩ := Prod.mk.inj (Except.ok.inj hfull)
  rw [fullPath_root hroot, length_cons] at hshort
  have hcut : cut32 e.name.val.length ≤ (e.name.val.length : Int) := by
    unfold cut32
    omega
  omega

/-! ## Dimensions -/

def triples (dims : List Dimension) : List UInt64 :=
  dims.flatMap fun d => [d.ldim, d.gdim, d.offset]

theorem getElem?_triples (pre : List Dimension) (d : Dimension) (post : List Dimension) :
    (triples (pre ++ d :: post))[pre.length * 3]? = some d.ldim ∧
      (triples (pre ++ d :: post))[pre.length * 3 + 1]? = some d.gdim := by
  have hlen : (triples pre).length = pre.length * 3 := by
    induction pre with
    | nil => rfl
    | cons d pre ih =>
      show (triples pre).length + 3 = _
      rw [ih, length_cons]
      omega
  have hsplit : triples (pre ++ d :: post) =
      triples pre ++ [d.ldim, d.gdim, d.offset] ++ triples post := by
    unfold triples
    rw [flatMap_append, flatMap_cons, append_assoc]
  rw [hsplit, append_assoc, ← hlen]
  constructor
  · rw [getElem?_append_right (Nat.le_refl _), Nat.sub_self]
    rfl
  · rw [getElem?_append_right (Nat.le_add_right _ 1), Nat.add_sub_cancel_left]
    rfl

def untimed (dims : List Dimension) : List Dimension := dims.takeWhile fun d => ¬d.LikeTime

def Dimension.pair (d : Dimension) : UInt64 × UInt64 := (d.ldim, d.gdim)

theorem scanDims_stay {pre : List Dimension} {d : Dimension} (post : List Dimension)
    (hd : d.LikeTime) (hroom : pre.length < maxDsNdim) (n : Nat) :
    scanDims (triples (pre ++ d :: post)) n (pre.map Dimension.pair, true) =
      .ok (pre.map Dimension.pair, true) := by
  induction n with
  | zero => rfl
  | succ n ih =>
    obtain ⟨hl, hg⟩ := getElem?_triples pre d post
    rw [scanDims, length_map, hl, hg]
    dsimp only
    have htime : d.gdim = 0 ∧ d.ldim = 1 := hd
    rw [if_neg (Nat.not_le.mpr hroom), if_pos htime, ih]

theorem scanDims_append (pre rest : List Dimension) (hpre : pre.length ≤ maxDsNdim) :
    scanDims (triples (pre ++ rest)) rest.length (pre.map Dimension.pair, false) =
      if maxDsNdim ≤ (pre ++ untimed rest).length ∧ maxDsNdim < (pre ++ rest).length then
        .error .outOfBounds
      else .ok ((pre ++ untimed rest).map Dimension.pair, (untimed rest).length < rest.length) := by
  induction rest generalizing pre with
  | nil =>
    rw [append_nil, if_neg fun h => Nat.not_lt.mpr hpre h.2, untimed, takeWhile_nil, append_nil]
    rfl
  | cons d rest ih =>
    obtain ⟨hl, hg⟩ := getElem?_triples pre d rest
    have hlen : (pre ++ d :: rest).length = pre.length + rest.length + 1 := by
      rw [length_append, length_cons]
      rfl
    rw [length_cons, scanDims, length_map, hl, hg]
    dsimp only
    by_cases hroom : maxDsNdim ≤ pre.length
    · have hfull : maxDsNdim ≤ (pre ++ untimed (d :: rest)).length ∧
          maxDsNdim < (pre ++ d :: rest).length := by
        rw [hlen, length_append]
        omega
      rw [if_pos hroom, if_pos hfull]
    · rw [if_neg hroom]
      by_cases hd : d.LikeTime
      · have huntimed : untimed (d :: rest) = [] :=
          takeWhile_cons_of_neg (by simpa using hd)
        have htime : d.gdim = 0 ∧ d.ldim = 1 := hd
        rw [if_pos htime, scanDims_stay rest hd (by omega), huntimed, append_nil,
          if_neg fun h => hroom h.1]
        simp
      · have huntimed : untimed (d :: rest) = d :: untimed rest :=
          takeWhile_cons_of_pos (by simpa using hd)
        have hnext := ih (pre ++ [d]) (by rw [length_append, length_singleton]; omega)
        rw [append_assoc, append_assoc, map_append] at hnext
        have htime : ¬(d.gdim = 0 ∧ d.ldim = 1) := hd
        rw [if_neg htime, huntimed]
        refine hnext.trans ?_
        rw [length_cons]
        simp

theorem scanDims_triples (dims : List Dimension) :
    scanDims (triples dims) dims.length ([], false) =
      if maxDsNdim ≤ (untimed dims).length ∧ maxDsNdim < dims.length then .error .outOfBounds
      else .ok ((untimed dims).map Dimension.pair, (untimed dims).length < dims.length) :=
  scanDims_append [] dims (Nat.zero_le _)

def shifted (ldim : UInt64) : List Dimension → List Dimension
  | [] => [⟨ldim, 0, 0⟩]
  | d :: dims => { d with ldim } :: shifted d.ldim dims

theorem layout_firstUnbounded (dims : List Dimension) :
    Time.firstUnbounded.layout dims = shifted 1 dims := by
  have hshift : ∀ ldim, List.zipWith (fun ldim (d : Dimension) => { d with ldim })
      (ldim :: dims.map (·.ldim)) (dims ++ [⟨0, 0, 0⟩]) = shifted ldim dims := by
    induction dims with
    | nil => exact fun _ => rfl
    | cons d dims ih =>
      intro ldim
      rw [map_cons, cons_append, zipWith_cons_cons, ih, shifted]
  exact hshift 1

theorem length_shifted (ldim : UInt64) (dims : List Dimension) :
    (shifted ldim dims).length = dims.length + 1 := by
  induction dims generalizing ldim with
  | nil => rfl
  | cons d dims ih => exact congrArg (· + 1) (ih d.ldim)

def lastLdim (ldim : UInt64) : List Dimension → UInt64
  | [] => ldim
  | d :: dims => lastLdim d.ldim dims

theorem lastLdim_eq_one {ldim : UInt64} (h : dims ≠ []) :
    lastLdim ldim dims = 1 ↔ ∃ d, dims.getLast? = some d ∧ d.ldim = 1 := by
  induction dims generalizing ldim with
  | nil => exact absurd rfl h
  | cons d dims ih =>
    cases dims with
    | nil => simp [lastLdim]
    | cons d' dims =>
      rw [lastLdim, ih (cons_ne_nil _ _), List.getLast?_cons_cons]

def Dimension.extent (d : Dimension) : UInt64 := DataSpaces.extent d.ldim d.gdim

theorem untimed_shifted {ldim : UInt64} {dims : List Dimension} (hglobal : ∀ d ∈ dims, d.gdim ≠ 0) :
    (untimed (shifted ldim dims)).map Dimension.extent =
      dims.map Dimension.extent ++ if lastLdim ldim dims = 1 then [] else [lastLdim ldim dims] := by
  induction dims generalizing ldim with
  | nil =>
    rw [lastLdim, shifted, untimed]
    by_cases hone : ldim = 1
    · rw [if_pos hone, takeWhile_cons_of_neg (by simp [Dimension.LikeTime, hone])]
      rfl
    · rw [if_neg hone, takeWhile_cons_of_pos (by simp [Dimension.LikeTime, hone])]
      rfl
  | cons d dims ih =>
    obtain ⟨hd, hdims⟩ := forall_mem_cons.mp hglobal
    have hhead : Dimension.extent { d with ldim } = d.extent := by
      unfold Dimension.extent DataSpaces.extent
      rw [if_pos hd, if_pos hd]
    rw [lastLdim, shifted, untimed, takeWhile_cons_of_pos (by simp [Dimension.LikeTime, hd]),
      map_cons, map_cons, cons_append, ← ih hdims, hhead]
    rfl

theorem untimed_eq_self_iff :
    (untimed dims).length = dims.length ↔ ∀ d ∈ dims, ¬d.LikeTime := by
  constructor
  · intro hlen d hd
    have heq : untimed dims = dims := (List.takeWhile_prefix _).eq_of_length hlen
    rw [← heq] at hd
    simpa using mem_takeWhile_imp hd
  · intro hall
    rw [untimed, takeWhile_eq_self_iff.mpr fun d hd => decide_eq_true (hall d hd)]

theorem untimed_append_time (dims : List Dimension) :
    untimed (dims ++ [⟨1, 0, 0⟩]) = untimed dims := by
  unfold untimed
  rw [takeWhile_append]
  by_cases hlen : (dims.takeWhile fun d => ¬d.LikeTime).length = dims.length
  · rw [if_pos hlen, (List.takeWhile_prefix _).eq_of_length hlen]
    exact append_nil dims
  · rw [if_neg hlen]

theorem Time.kept_iff {time : Time} (hfew : dims.length ≤ maxDsNdim)
    (hglobal : time = .firstUnbounded → ∀ d ∈ dims, d.gdim ≠ 0) :
    time.Kept dims ↔
      ¬(maxDsNdim ≤ (untimed (time.layout dims)).length ∧
          maxDsNdim < (time.layout dims).length) ∧
        ((untimed (time.layout dims)).length < (time.layout dims).length ↔ time ≠ .absent) ∧
        (untimed (time.layout dims)).map Dimension.extent = dims.map Dimension.extent := by
  cases time with
  | absent =>
    show (∀ d ∈ dims, ¬d.LikeTime) ↔ ¬(_ ∧ maxDsNdim < dims.length) ∧
      ((untimed dims).length < dims.length ↔ _) ∧ (untimed dims).map _ = dims.map _
    rw [← untimed_eq_self_iff]
    constructor
    · intro hlen
      have heq : untimed dims = dims := (List.takeWhile_prefix _).eq_of_length hlen
      rw [heq]
      exact ⟨by omega, by simp, rfl⟩
    · rintro ⟨-, -, hmap⟩
      simpa using congrArg List.length hmap
  | last =>
    have hpre : untimed dims <+: dims := List.takeWhile_prefix _
    have hle := hpre.length_le
    show (∀ d ∈ dims, ¬d.LikeTime) ∧ dims.length < maxDsNdim ↔
      ¬(maxDsNdim ≤ (untimed (dims ++ [_])).length ∧ maxDsNdim < (dims ++ [_]).length) ∧
        ((untimed (dims ++ [_])).length < (dims ++ [_]).length ↔ _) ∧
        (untimed (dims ++ [_])).map _ = dims.map _
    rw [untimed_append_time, ← untimed_eq_self_iff, length_append, length_singleton]
    constructor
    · rintro ⟨hlen, hroom⟩
      refine ⟨by omega, ⟨fun _ => by decide, fun _ => by omega⟩, ?_⟩
      rw [hpre.eq_of_length hlen]
    · rintro ⟨hroom, -, hmap⟩
      have hlen : (untimed dims).length = dims.length := by simpa using congrArg List.length hmap
      exact ⟨hlen, by omega⟩
  | first =>
    have huntimed : untimed (Time.first.layout dims) = [] :=
      takeWhile_cons_of_neg (by decide)
    show dims = [] ↔ _
    rw [huntimed]
    constructor
    · rintro rfl
      decide
    · rintro ⟨-, -, hmap⟩
      exact map_eq_nil_iff.mp hmap.symm
  | firstUnbounded =>
    have hshifted := @untimed_shifted 1 dims (hglobal rfl)
    have hlen := congrArg List.length hshifted
    rw [length_append, length_map, length_map] at hlen
    rw [layout_firstUnbounded, length_shifted, hshifted, hlen]
    have hlast : lastLdim 1 dims = 1 ↔ dims = [] ∨ ∃ d, dims.getLast? = some d ∧ d.ldim = 1 := by
      cases dims with
      | nil => exact ⟨fun _ => .inl rfl, fun _ => rfl⟩
      | cons d dims =>
        rw [lastLdim_eq_one (cons_ne_nil d dims)]
        exact ⟨.inr, fun h => h.resolve_left (cons_ne_nil d dims)⟩
    show dims = [] ∨ _ ∧ dims.length < maxDsNdim ↔ _
    by_cases hone : lastLdim 1 dims = 1
    · rw [if_pos hone]
      have hten : maxDsNdim = 10 := rfl
      constructor
      · intro hkept
        refine ⟨?_, ⟨fun _ => by decide, fun _ => Nat.lt_succ_self _⟩, append_nil _⟩
        cases hkept with
        | inl hnil =>
          rw [hnil]
          decide
        | inr h =>
          have hroom := h.2
          rw [length_nil]
          omega
      · rintro ⟨hroom, -, -⟩
        rw [length_nil] at hroom
        exact (hlast.mp hone).imp_right fun h => ⟨h, by omega⟩
    · rw [if_neg hone]
      constructor
      · intro hkept
        exact absurd (hlast.mpr (hkept.imp_right And.left)) hone
      · rintro ⟨-, hflag, -⟩
        rw [length_singleton] at hflag
        exact absurd (hflag.mpr (by decide)) (Nat.lt_irrefl _)

theorem getD_dsDimensionOrdering {ndims i : Nat} (fortran : Bool) (h : i < maxDsNdim) :
    (dsDimensionOrdering ndims fortran).getD i 0 =
      if i < ndims then if fortran then i else ndims - 1 - i else i := by
  unfold dsDimensionOrdering
  rw [getD_eq_getElem?_getD, getElem?_map, getElem?_range h]
  rfl

theorem reorder_ordering (caller : Caller) {dims : List UInt64} (hfew : dims.length ≤ maxDsNdim)
    (fill : List UInt64) :
    reorder caller dims.length ((dsDimensionOrdering dims.length caller.fortran).map fun i =>
      (dims ++ fill).getD i 1) = .ok dims := by
  rw [reorder, if_neg (by omega), Int.toNat_natCast]
  refine congrArg Except.ok (ext_getElem (by simp) fun j hj hj' => ?_)
  have hten : maxDsNdim = 10 := rfl
  rw [getElem_map, getElem_range, getD_dsDimensionOrdering _ (by omega), if_pos hj',
    getD_eq_getElem?_getD, getElem?_map]
  have hplace : (if caller.fortran = true then j else dims.length - 1 - j) < dims.length := by
    split_ifs <;> omega
  have hback : (dsDimensionOrdering dims.length caller.fortran)[
      if caller.fortran = true then j else dims.length - 1 - j]? = some j := by
    unfold dsDimensionOrdering
    rw [getElem?_map, getElem?_range (by omega)]
    show some (if (if caller.fortran = true then j else dims.length - 1 - j) < dims.length then
      if caller.fortran = true then (if caller.fortran = true then j else dims.length - 1 - j)
      else dims.length - 1 - (if caller.fortran = true then j else dims.length - 1 - j) else _) = _
    rw [if_pos hplace]
    congr 1
    split_ifs <;> omega
  rw [hback]
  show (dims ++ fill).getD j 1 = dims[j]
  rw [getD_eq_getElem?_getD, getElem?_append_left hj', getElem?_eq_getElem hj']
  rfl

/-! ## What the reader reads -/

section

variable {host : Endian} {caller : Caller}

theorem parses_copied {bytes : List UInt8} {extrabyte : Int} (hpos : 0 < bytes.length + extrabyte)
    (hfits : bytes.length + extrabyte < 2147483648) :
    Parser.Parses (copied caller bytes.length extrabyte) bytes bytes := by
  unfold copied
  rw [if_neg (by omega), if_neg (by omega), if_neg (by omega), Int.toNat_natCast]
  exact Parser.Parses.take _ rfl

variable {name : List UInt8} {type : Datatype}

theorem parses_unpackName (h : name.length < 2147483647) :
    Parser.Parses (unpackName host caller) (host.i32 name.length ++ name) (.ofBuffer name) :=
  (Parser.Parses.int32 host _ (by omega) (by omega)).bind
    ((parses_copied (by omega) (by omega)).bind_pure rfl)

theorem datatypeOf_toInt (h : type.IsDefined) : datatypeOf type.toInt = type := by
  cases type with
  | unknown | other => exact absurd h id
  | _ => rfl

theorem toInt_fits (h : type.IsDefined) :
    -2147483648 ≤ type.toInt ∧ type.toInt < 2147483648 := by
  cases type with
  | unknown | other => exact absurd h id
  | _ => decide

theorem typeSize_fits (hdef : type.IsDefined) (hstring : type ≠ .string) :
    0 < (getTypeSize type none).toNat ∧ (getTypeSize type none).toNat ≤ 16 := by
  have hmem := getTypeSize_mem ⟨hdef, hstring⟩ none
  simp only [mem_cons, not_mem_nil, or_false] at hmem
  omega

theorem packValue_numeric {type : Datatype} (hdef : type.IsDefined) (hstring : type ≠ .string)
    {bytes : List UInt8} (hlen : bytes.length = (getTypeSize type none).toNat) :
    packValue host type (some bytes) = .ok bytes ∧
      Parser.Parses (unpackValue host caller type) bytes bytes := by
  obtain ⟨hpos, hfits⟩ := typeSize_fits hdef hstring
  have hcut : cut32 (getTypeSize type none).toNat = (bytes.length : Int) := by
    rw [← hlen]
    exact cut32_of_fits (by omega) (by omega)
  constructor
  · rw [packValue, if_pos hstring, hcut, memcpy_of_le (Nat.le_refl _), take_length]
  · have hsize : CopySubvolume.bpGetTypeSize type = getTypeSize type none := if_neg hstring
    rw [unpackValue, if_pos hstring, hsize, hcut]
    exact parses_copied (by omega) (by omega)

theorem parses_string {bytes : List UInt8} (h : bytes.length < 2147483647) :
    Parser.Parses (unpackValue host caller .string) (host.i32 bytes.length ++ bytes)
      (bytes ++ [0]) :=
  (Parser.Parses.int32 host _ (by omega) (by omega)).bind
    ((parses_copied (by omega) (by omega)).bind_pure rfl)

theorem packValue_eq_ok {type : Datatype} {value : Option (List UInt8)} (hdef : type.IsDefined)
    (hholds : Holds type value) {bytes : List UInt8} (h : packValue host type value = .ok bytes)
    (hlen : bytes.length < 2147483648) :
    ∃ stored, Parser.Parses (unpackValue host caller type) bytes stored ∧
      (stored = storedValue type value → bytes.length = valueLength type value) := by
  obtain ⟨held, rfl, hheld⟩ := hholds
  by_cases hstring : type = .string
  · subst hstring
    rw [packValue, if_neg fun hne => hne rfl] at h
    obtain ⟨copy, hcopy, h⟩ := exists_of_bind_eq_ok h
    cases h
    obtain ⟨hsize, -, -⟩ := memcpy_eq_ok hcopy
    rw [← hsize] at hlen ⊢
    rw [length_append, Endian.length_i32] at hlen
    refine ⟨copy ++ [0], parses_string (by omega), fun heq => ?_⟩
    have hsame : copy = held := append_cancel_right heq
    rw [length_append, Endian.length_i32, hsame]
    rfl
  · rw [if_neg hstring] at hheld
    obtain ⟨hpack, hparse⟩ := @packValue_numeric host caller type hdef hstring held hheld
    rw [hpack] at h
    cases h
    refine ⟨bytes, hparse, fun _ => ?_⟩
    rw [valueLength, if_neg hstring]
    rfl

theorem packValue_of_small {type : Datatype} {value : Option (List UInt8)} (hdef : type.IsDefined)
    (hholds : Holds type value) (hsmall : valueLength type value < 2147483648) :
    valueSize type value = valueLength type value ∧
    ∃ bytes, packValue host type value = .ok bytes ∧ bytes.length = valueLength type value ∧
      Parser.Parses (unpackValue host caller type) bytes (storedValue type value) := by
  obtain ⟨held, rfl, hheld⟩ := hholds
  by_cases hstring : type = .string
  · subst hstring
    rw [if_pos rfl] at hheld
    have hlen : valueLength .string (some held) = 4 + held.length := rfl
    have hsize : (getTypeSize .string (some held)).toNat = held.length := by
      show (UInt64.ofNat (strlen held)).toNat = _
      rw [strlen_of_forall hheld, UInt64.toNat_ofNat']
      omega
    have hcut : cut32 (getTypeSize .string (some held)).toNat = (held.length : Int) := by
      rw [hsize]
      exact cut32_of_fits (by omega) (by omega)
    refine ⟨?_, host.i32 held.length ++ held, ?_, ?_, parses_string (by omega)⟩
    · rw [valueSize, if_neg fun hne => hne rfl, hsize, hlen]
      omega
    · rw [packValue, if_neg fun hne => hne rfl, hcut]
      dsimp only
      rw [memcpy_of_le (Nat.le_refl _), take_length]
      rfl
    · rw [length_append, Endian.length_i32, hlen]
  · rw [if_neg hstring] at hheld
    obtain ⟨hpack, hparse⟩ := @packValue_numeric host caller type hdef hstring held hheld
    have hlen : valueLength type (some held) = held.length := if_neg hstring
    have hstored : storedValue type (some held) = held := if_neg hstring
    rw [hlen, hstored, valueSize, if_pos hstring, hheld]
    exact ⟨rfl, held, hpack, hheld, hparse⟩

def ordered (fortran : Bool) (dims fill : List UInt64) : List UInt64 :=
  (dsDimensionOrdering dims.length fortran).map fun i => (dims ++ fill).getD i 1

theorem length_ordered (fortran : Bool) (dims fill : List UInt64) :
    (ordered fortran dims fill).length = maxDsNdim := by
  unfold ordered dsDimensionOrdering
  rw [length_map, length_map, length_range]

def middle (host : Endian) (fortran : Bool) (type : Datatype) (hastime : Bool)
    (dims fill : List UInt64) : List UInt8 :=
  host.i32 type.toInt ++ (host.i32 (if hastime then 1 else 0) ++ (host.i32 dims.length ++
    (ordered fortran dims fill).flatMap host.u64))

theorem length_middle (fortran : Bool) (type : Datatype) (hastime : Bool)
    (dims fill : List UInt64) :
    (middle host fortran type hastime dims fill).length = 3 * 4 + maxDsNdim * 8 := by
  unfold middle
  rw [length_append, length_append, length_append, Endian.length_i32,
    Endian.length_i32, Endian.length_i32, Endian.length_flatMap_u64, length_ordered]
  omega

theorem parses_dims (dims : List UInt64) (h : dims.length = maxDsNdim) :
    Parser.Parses (Parser.loop maxDsNdim (fun dims => do
      let d ← Parser.uint64 host Fault.outOfBounds
      return dims ++ [d]) []) (dims.flatMap host.u64) dims := by
  have hloop :=
    Parser.Parses.loop_append (fun _ => Parser.uint64 host Fault.outOfBounds) host.u64 id
    id dims fun _ d _ _ => Parser.Parses.uint64 host _ d
  rw [h] at hloop
  exact hloop.congr rfl (map_id dims)

theorem parses_unpackVar (hname : name.length ≤ nameSize) (hdef : type.IsDefined) (hastime : Bool)
    {dims : List UInt64} (hfew : dims.length ≤ maxDsNdim) (fill : List UInt64) {value : List UInt8}
    {stored : Option (List UInt8)} (hvalue : if dims.length = 0 ∧ hastime = false then ∃ bytes,
      stored = some bytes ∧ Parser.Parses (unpackValue host caller type) value bytes else stored =
      none ∧ value = []) :
    Parser.Parses (unpackVar host caller) (host.i32 name.length ++ name ++
        (middle host caller.fortran type hastime dims fill ++ value))
      ⟨.ofBuffer name, type, if hastime then 1 else 0, dims.length, dims, stored⟩ := by
  have hten : maxDsNdim = 10 := rfl
  have hsize : nameSize = 256 := rfl
  have hkept : Parser.Parses (liftM (reorder caller dims.length
      (ordered caller.fortran dims fill)) : Parser Fault (List UInt64)) [] dims := by
    rw [ordered, reorder_ordering caller hfew]
    exact fun _ => rfl
  have hmiddle : middle host caller.fortran type hastime dims fill ++ value =
      host.i32 type.toInt ++ (host.i32 (if hastime then 1 else 0) ++ (host.i32 dims.length ++
        ((ordered caller.fortran dims fill).flatMap host.u64 ++ value))) := by
    rw [middle, append_assoc, append_assoc, append_assoc]
  rw [hmiddle]
  have hfits : name.length < 2147483647 := by omega
  refine (parses_unpackName hfits).bind ?_
  refine (Parser.Parses.int32 host _ (toInt_fits hdef).1 (toInt_fits hdef).2).bind ?_
  refine (Parser.Parses.int32 host _ (by split_ifs <;> omega) (by split_ifs <;> omega)).bind ?_
  refine (Parser.Parses.int32 host _ (by omega) (by omega)).bind ?_
  refine (parses_dims _ (length_ordered _ _ _)).bind (hkept.bind_nil ?_)
  rw [datatypeOf_toInt hdef]
  by_cases hscalar : dims.length = 0 ∧ hastime = false
  · rw [if_pos hscalar] at hvalue
    obtain ⟨bytes, rfl, hparse⟩ := hvalue
    have hcond : (dims.length : Int) = 0 ∧ (if hastime then 1 else 0 : Int) = 0 := by
      rw [hscalar.1, hscalar.2]
      decide
    rw [if_pos hcond]
    exact hparse.bind_pure rfl
  · rw [if_neg hscalar] at hvalue
    obtain ⟨rfl, rfl⟩ := hvalue
    have hcond : ¬((dims.length : Int) = 0 ∧ (if hastime then 1 else 0 : Int) = 0) := by
      rintro ⟨hzero, htime⟩
      refine hscalar ⟨by omega, ?_⟩
      cases hastime with
      | false => rfl
      | true => cases htime
    rw [if_neg hcond]
    exact Parser.Parses.pure _

theorem parses_unpackAttr {value stored : List UInt8} (hname : name.length ≤ 256)
    (hdef : type.IsDefined) (hvalue : Parser.Parses (unpackValue host caller type) value stored) :
    Parser.Parses (unpackAttr host caller)
      (host.i32 name.length ++ name ++ (host.i32 type.toInt ++ value))
      ⟨.ofBuffer name, type, stored⟩ := by
  have hfits : name.length < 2147483647 := by omega
  refine (parses_unpackName hfits).bind ?_
  refine (Parser.Parses.int32 host _ (toInt_fits hdef).1 (toInt_fits hdef).2).bind ?_
  rw [datatypeOf_toInt hdef]
  exact hvalue.bind_pure rfl

/-! ## A variable and an attribute -/

namespace Var

variable (v : Var)

def layout : List Dimension := v.time.layout v.dims

def kept : List UInt64 := (untimed v.layout).map Dimension.extent

def hastime : Bool := (untimed v.layout).length < v.layout.length

theorem size_eq : v.size = 4 * 4 + (fullPath v.entry).val.length + maxDsNdim * 8 +
    if v.layout = [] then valueLength v.entry.type v.first.value else 0 := rfl

theorem length_layout_le : v.layout.length ≤ maxDsNdim + 1 := by
  have hfew := v.few
  unfold layout
  cases v.time with
  | absent => exact Nat.le_succ_of_le hfew
  | last =>
    show (v.dims ++ [_]).length ≤ _
    rw [length_append, length_singleton]
    omega
  | first =>
    show v.dims.length + 1 ≤ _
    omega
  | firstUnbounded =>
    rw [layout_firstUnbounded, length_shifted]
    omega

theorem count_dims : v.first.dims.count.toNat = v.layout.length := by
  have hle : v.layout.length ≤ 11 := v.length_layout_le
  rw [v.dims_eq]
  show (UInt8.ofNat v.layout.length).toNat = _
  rw [UInt8.toNat_ofNat']
  omega

theorem count_eq_zero : v.first.dims.count = 0 ↔ v.layout = [] := by
  rw [← UInt8.toNat_inj, count_dims]
  exact length_eq_zero_iff

theorem length_kept_le : v.kept.length ≤ v.layout.length := by
  rw [kept, length_map]
  exact (List.takeWhile_prefix _).length_le

theorem scalar_iff : v.kept.length = 0 ∧ v.hastime = false ↔ v.layout = [] := by
  have hlen : (untimed v.layout).length = v.kept.length := by rw [kept, length_map]
  rw [← length_eq_zero_iff, hastime, hlen, decide_eq_false_iff_not]
  have hle := v.length_kept_le
  omega

/-- The places of `ldims` and `gdims` behind those of the dimensions. -/
def fill : List UInt64 := List.replicate (maxDsNdim - v.kept.length) 1

theorem scanDims_eq : scanDims v.first.dims.dims v.first.dims.count.toNat ([], false) =
    if maxDsNdim ≤ v.kept.length ∧ maxDsNdim < v.layout.length then .error .outOfBounds
    else .ok ((untimed v.layout).map Dimension.pair, v.hastime) := by
  have hdims : v.first.dims.dims = triples v.layout := by
    rw [v.dims_eq]
    rfl
  rw [count_dims, hdims, scanDims_triples, kept, length_map]
  rfl

theorem packVar_eq (fortran : Bool) : packVar host fortran v.entry =
    (packName host v.entry >>= fun name =>
      if maxDsNdim ≤ v.kept.length ∧ maxDsNdim < v.layout.length then .error .outOfBounds
      else (if v.layout = [] then packValue host v.entry.type v.first.value else .ok []) >>=
        fun value => .ok (name ++
          (middle host fortran v.entry.type v.hastime v.kept v.fill ++ value))) := by
  have hfirst : firstCharacteristic v.entry = .ok v.first := by
    unfold firstCharacteristic
    rw [v.characteristics]
  unfold packVar
  refine congrArg (packName host v.entry >>= ·) (funext fun name => ?_)
  rw [hfirst, ok_bind, scanDims_eq]
  by_cases hover : maxDsNdim ≤ v.kept.length ∧ maxDsNdim < v.layout.length
  · rw [if_pos hover, if_pos hover]
    rfl
  · rw [if_neg hover, if_neg hover, ok_bind]
    dsimp only
    have hlen : ((untimed v.layout).map Dimension.pair).length = v.kept.length := by
      rw [kept, length_map, length_map]
    have hndims : (if v.kept.length < maxDsNdim then v.kept.length else maxDsNdim) =
        v.kept.length := by
      have hle := v.length_kept_le
      have hle' := v.length_layout_le
      split_ifs <;> omega
    have hextent : ∀ i, (fun d : UInt64 × UInt64 => extent d.1 d.2)
        (((untimed v.layout).map Dimension.pair ++
          List.replicate (maxDsNdim - v.kept.length) (1, 1)).getD i (1, 1)) =
        (v.kept ++ v.fill).getD i 1 := by
      intro i
      have hmap : v.kept ++ v.fill = ((untimed v.layout).map Dimension.pair ++
          List.replicate (maxDsNdim - v.kept.length) (1, 1)).map
            fun d : UInt64 × UInt64 => extent d.1 d.2 := by
        rw [map_append, map_map, map_replicate]
        rfl
      rw [hmap, getD_eq_getElem?_getD, getD_eq_getElem?_getD, getElem?_map]
      cases ((untimed v.layout).map Dimension.pair ++
        List.replicate (maxDsNdim - v.kept.length) (1, 1))[i]? <;> rfl
    have hdims : ((dsDimensionOrdering v.kept.length fortran).flatMap fun i =>
        let d := ((untimed v.layout).map Dimension.pair ++
          List.replicate (maxDsNdim - v.kept.length) (1, 1)).getD i (1, 1)
        host.u64 (extent d.1 d.2)) = (ordered fortran v.kept v.fill).flatMap host.u64 := by
      rw [ordered, flatMap_map]
      exact congrArg (List.flatMap · _) (funext fun i => congrArg host.u64 (hextent i))
    rw [hlen, hndims, hdims]
    have hassoc : ∀ value, name ++ host.i32 v.entry.type.toInt ++
        host.i32 (if v.hastime then 1 else 0) ++ host.i32 v.kept.length ++
        (ordered fortran v.kept v.fill).flatMap host.u64 ++ value =
        name ++ (middle host fortran v.entry.type v.hastime v.kept v.fill ++ value) :=
          fun value => by
      unfold middle
      simp only [append_assoc]
    by_cases hscalar : v.layout = []
    · rw [if_pos (v.count_eq_zero.mpr hscalar), if_pos hscalar]
      exact congrArg (packValue host v.entry.type v.first.value >>= ·)
        (funext fun value => congrArg Except.ok (hassoc value))
    · rw [if_neg (fun hzero => hscalar (v.count_eq_zero.mp hzero)), if_neg hscalar]
      exact congrArg Except.ok (hassoc [])

theorem packed_value {value : List UInt8}
    (h : (if v.layout = [] then packValue host v.entry.type v.first.value else .ok []) = .ok value)
    (hlen : value.length < 2147483648) :
    ∃ stored, (if v.kept.length = 0 ∧ v.hastime = false then ∃ bytes, stored = some bytes ∧
          Parser.Parses (unpackValue host caller v.entry.type) value bytes
        else stored = none ∧ value = []) ∧
      (stored = v.unpacked.value → value.length =
        if v.layout = [] then valueLength v.entry.type v.first.value else 0) := by
  by_cases hscalar : v.layout = []
  · rw [if_pos hscalar] at h
    obtain ⟨stored, hparse, hall⟩ :=
      @packValue_eq_ok host caller _ _ v.isDefined (v.holds hscalar) value h hlen
    refine ⟨some stored, ?_, fun heq => ?_⟩
    · rw [if_pos (v.scalar_iff.mpr hscalar)]
      exact ⟨stored, rfl, hparse⟩
    · have hunpacked : v.unpacked.value = some (storedValue v.entry.type v.first.value) :=
        if_pos hscalar
      rw [hunpacked] at heq
      rw [if_pos hscalar, hall (Option.some.inj heq)]
  · rw [if_neg hscalar] at h
    cases h
    refine ⟨none, ?_, fun _ => ?_⟩
    · rw [if_neg fun hzero => hscalar (v.scalar_iff.mp hzero)]
      exact ⟨rfl, rfl⟩
    · rw [if_neg hscalar]
      rfl

theorem parses_of_packed {bytes : List UInt8}
    (h : packVar host caller.fortran v.entry = .ok bytes) (hlen : bytes.length < 2147483648) :
    ∃ u, Parser.Parses (unpackVar host caller) bytes u ∧ (u = v.unpacked →
      (NameKept v.entry ∧ v.time.Kept v.dims) ∧ bytes.length = v.size) := by
  rw [packVar_eq] at h
  obtain ⟨packed, hpacked, h⟩ := exists_of_bind_eq_ok h
  by_cases hover : maxDsNdim ≤ v.kept.length ∧ maxDsNdim < v.layout.length
  · rw [if_pos hover] at h
    cases h
  · rw [if_neg hover] at h
    obtain ⟨value, hvalue, h⟩ := exists_of_bind_eq_ok h
    cases h
    obtain ⟨name, hname, rfl, hfull⟩ := packName_eq_ok hpacked
    rw [length_append, length_append, length_append, length_middle] at hlen ⊢
    have hle := v.length_kept_le
    have hle' := v.length_layout_le
    obtain ⟨stored, hstored, hall⟩ := @packed_value host caller v value hvalue (by omega)
    refine ⟨_, parses_unpackVar hname v.isDefined v.hastime (by omega) v.fill hstored,
      fun heq => ?_⟩
    obtain ⟨hnm, -, htime, -, hdims, hval⟩ := UnpackedVar.mk.inj heq
    have hkeptName := hfull hnm
    refine ⟨⟨hkeptName, (Time.kept_iff v.few v.global).mpr ⟨?_, ?_, hdims⟩⟩, ?_⟩
    · rw [kept, length_map] at hover
      exact hover
    · have hflag : v.hastime = true ↔ v.time ≠ .absent := by
        by_cases habsent : v.time = .absent
        · rw [if_pos habsent] at htime
          refine ⟨fun h => ?_, fun h => absurd habsent h⟩
          rw [if_pos h] at htime
          cases htime
        · rw [if_neg habsent] at htime
          refine ⟨fun _ => habsent, fun _ => ?_⟩
          by_contra hfalse
          rw [if_neg hfalse] at htime
          cases htime
      exact decide_eq_true_iff.symm.trans hflag
    · rw [packName_of_kept host hkeptName] at hpacked
      have hsame := congrArg List.length (Except.ok.inj hpacked)
      rw [length_append, length_append] at hsame
      rw [v.size_eq, ← hall hval]
      rw [Endian.length_i32] at hsame ⊢
      rw [Endian.length_i32] at hsame
      omega

theorem varSize_of_kept (hname : NameKept v.entry)
    (hvalue : v.layout = [] → valueSize v.entry.type v.first.value =
      valueLength v.entry.type v.first.value) : varSize v.entry = .ok (v.size : Int) := by
  unfold varSize firstCharacteristic
  rw [v.characteristics, ok_bind, dsGetFullNameLen_of_kept hname, v.size_eq]
  dsimp only
  refine congrArg Except.ok ?_
  by_cases hscalar : v.layout = []
  · rw [if_pos (v.count_eq_zero.mpr hscalar), if_pos hscalar, hvalue hscalar]
    omega
  · rw [if_neg (fun hzero => hscalar (v.count_eq_zero.mp hzero)), if_neg hscalar]
    omega

theorem packed_of_kept (hname : NameKept v.entry) (hdims : v.time.Kept v.dims)
    (hsmall : v.size < 2147483648) : varSize v.entry = .ok (v.size : Int) ∧
      ∃ bytes, packVar host caller.fortran v.entry = .ok bytes ∧ bytes.length = v.size ∧
        Parser.Parses (unpackVar host caller) bytes v.unpacked := by
  obtain ⟨hroom, htime, hkept⟩ := (Time.kept_iff v.few v.global).mp hdims
  have hsize := v.size_eq
  have hkeptDims : v.kept = v.dims.map Dimension.extent := hkept
  have hlen : v.kept.length = v.dims.length := by rw [hkeptDims, length_map]
  have hover : ¬(maxDsNdim ≤ v.kept.length ∧ maxDsNdim < v.layout.length) := by
    rw [kept, length_map]
    exact hroom
  have hflag : (if v.hastime then 1 else 0 : Int) = if v.time = .absent then 0 else 1 := by
    have hiff : v.hastime = true ↔ v.time ≠ .absent := decide_eq_true_iff.trans htime
    by_cases habsent : v.time = .absent
    · rw [if_pos habsent, if_neg fun h => hiff.mp h habsent]
    · rw [if_neg habsent, if_pos (hiff.mpr habsent)]
  have hvalue : ∃ value, (if v.layout = [] then packValue host v.entry.type v.first.value
        else .ok []) = .ok value ∧
      value.length = (if v.layout = [] then valueLength v.entry.type v.first.value else 0) ∧
      (if v.kept.length = 0 ∧ v.hastime = false then ∃ bytes, v.unpacked.value = some bytes ∧
          Parser.Parses (unpackValue host caller v.entry.type) value bytes
        else v.unpacked.value = none ∧ value = []) ∧
      (v.layout = [] → valueSize v.entry.type v.first.value =
        valueLength v.entry.type v.first.value) := by
    by_cases hscalar : v.layout = []
    · rw [if_pos hscalar] at hsize
      obtain ⟨hvalueSize, value, hpack, hlength, hparse⟩ :=
        @packValue_of_small host caller _ _ v.isDefined (v.holds hscalar) (by omega)
      rw [if_pos hscalar, if_pos hscalar]
      refine ⟨value, hpack, hlength, ?_, fun _ => hvalueSize⟩
      rw [if_pos (v.scalar_iff.mpr hscalar)]
      exact ⟨_, if_pos hscalar, hparse⟩
    · rw [if_neg hscalar, if_neg hscalar]
      refine ⟨[], rfl, rfl, ?_, fun h => absurd h hscalar⟩
      rw [if_neg fun hzero => hscalar (v.scalar_iff.mp hzero)]
      exact ⟨if_neg hscalar, rfl⟩
  obtain ⟨value, hpack, hlength, hstored, hvalueSize⟩ := hvalue
  refine ⟨v.varSize_of_kept hname hvalueSize, host.i32 (fullPath v.entry).val.length ++
    (fullPath v.entry).val ++
    (middle host caller.fortran v.entry.type v.hastime v.kept v.fill ++ value), ?_, ?_, ?_⟩
  · rw [packVar_eq, packName_of_kept host hname, ok_bind, if_neg hover, hpack, ok_bind]
  · rw [length_append, length_append, length_append, length_middle, hsize, hlength,
      Endian.length_i32]
    omega
  · refine (parses_unpackVar hname.2 v.isDefined v.hastime ?_ v.fill hstored).congr rfl ?_
    · rw [hlen]
      exact v.few
    · rw [CString.ofBuffer_val, hflag, hlen, hkeptDims]
      rfl

end Var

namespace Attr

variable (a : Attr)

theorem first_eq : firstCharacteristic a.entry = .ok a.first := by
  unfold firstCharacteristic
  rw [a.characteristics]

theorem parses_of_packed {bytes : List UInt8} (h : packAttr host a.entry = .ok bytes)
    (hlen : bytes.length < 2147483648) :
    ∃ u, Parser.Parses (unpackAttr host caller) bytes u ∧ (u = a.unpacked →
      NameKept a.entry ∧ bytes.length = a.size) := by
  obtain ⟨packed, hpacked, h⟩ := exists_of_bind_eq_ok h
  rw [first_eq, ok_bind] at h
  obtain ⟨value, hvalue, h⟩ := exists_of_bind_eq_ok h
  cases h
  obtain ⟨name, hname, rfl, hfull⟩ := packName_eq_ok hpacked
  have hsize : nameSize = 256 := rfl
  rw [length_append, length_append, length_append] at hlen ⊢
  obtain ⟨stored, hparse, hall⟩ :=
    @packValue_eq_ok host caller _ _ a.isDefined a.holds value hvalue (by omega)
  refine ⟨⟨.ofBuffer name, a.entry.type, stored⟩, ?_, fun heq => ?_⟩
  · rw [append_assoc]
    exact parses_unpackAttr hname a.isDefined hparse
  · obtain ⟨hnm, -, hval⟩ := UnpackedAttr.mk.inj heq
    have hkeptName := hfull hnm
    rw [packName_of_kept host hkeptName] at hpacked
    have hsame := congrArg List.length (Except.ok.inj hpacked)
    rw [length_append, length_append] at hsame
    rw [hall hval, Endian.length_i32, Endian.length_i32] at *
    refine ⟨hkeptName, ?_⟩
    unfold size
    omega

theorem packed_of_kept (hname : NameKept a.entry) (hsmall : a.size < 2147483648) :
    attrSize a.entry = .ok (a.size : Int) ∧
      ∃ bytes, packAttr host a.entry = .ok bytes ∧ bytes.length = a.size ∧
        Parser.Parses (unpackAttr host caller) bytes a.unpacked := by
  have hsize : a.size = 4 + (fullPath a.entry).val.length + 4 +
      valueLength a.entry.type a.first.value := rfl
  have hlen : (fullPath a.entry).val.length ≤ 256 := hname.2
  obtain ⟨hvalueSize, value, hpack, hlength, hparse⟩ :=
    @packValue_of_small host caller _ _ a.isDefined a.holds (by omega)
  refine ⟨?_, host.i32 (fullPath a.entry).val.length ++ (fullPath a.entry).val ++
    host.i32 a.entry.type.toInt ++ value, ?_, ?_, ?_⟩
  · unfold attrSize
    rw [first_eq, ok_bind, dsGetFullNameLen_of_kept hname, hvalueSize, hsize]
    refine congrArg Except.ok ?_
    omega
  · unfold packAttr
    rw [packName_of_kept host hname, ok_bind, first_eq, ok_bind, hpack, ok_bind]
    rfl
  · rw [length_append, length_append, length_append, hsize, hlength,
      Endian.length_i32, Endian.length_i32]
  · rw [append_assoc]
    refine (parses_unpackAttr hlen a.isDefined hparse).congr rfl ?_
    rw [CString.ofBuffer_val]
    rfl

end Attr

end

end Adios.DataSpaces
