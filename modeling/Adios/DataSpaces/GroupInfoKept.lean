import Adios.DataSpaces.GroupInfoImage
import Adios.Lists.Results
import Mathlib.Algebra.Order.BigOperators.Group.List

/-!
# DataSpaces — what of a group's metadata the reader gets

The buffer that the writer packs, unpacked by a reader of the same language: the loops of the reader
come from one image to the next, and the group is what it was exactly if the condition holds.
-/

namespace Adios.DataSpaces

open List Wire

/-! ## Lists of images -/

section

variable {α υ : Type} {pack : α → Except Fault (List UInt8)} {p : Parser Fault υ} {unpacked : α → υ}
  {size : α → Nat}

theorem exists_parses {P : α → Prop}
    (hone : ∀ x bytes, pack x = .ok bytes → bytes.length < 2147483648 →
      ∃ u, Parser.Parses p bytes u ∧ (u = unpacked x → P x ∧ bytes.length = size x))
    {xs : List α} {images : List (List UInt8)}
    (h : Forall₂ (fun x bytes => pack x = .ok bytes) xs images)
    (hlen : images.flatten.length < 2147483648) :
    ∃ us, Forall₂ (Parser.Parses p) images us ∧ (us = xs.map unpacked →
      (∀ x ∈ xs, P x) ∧ images.flatten.length = (xs.map size).sum) := by
  induction h with
  | nil => exact ⟨[], .nil, fun _ => ⟨forall_mem_nil _, rfl⟩⟩
  | @cons x bytes xs images hx _ ih =>
    rw [flatten_cons, length_append] at hlen
    obtain ⟨u, hu, hall⟩ := hone x bytes hx (by omega)
    obtain ⟨us, hus, halls⟩ := ih (by omega)
    refine ⟨u :: us, .cons hu hus, fun heq => ?_⟩
    obtain ⟨heq, heqs⟩ := List.cons.inj heq
    obtain ⟨hP, hsize⟩ := hall heq
    obtain ⟨hPs, hsizes⟩ := halls heqs
    refine ⟨forall_mem_cons.mpr ⟨hP, hPs⟩, ?_⟩
    rw [flatten_cons, length_append, map_cons, sum_cons, hsize, hsizes]

theorem exists_images {xs : List α}
    (h : ∀ x ∈ xs, ∃ bytes, pack x = .ok bytes ∧ bytes.length = size x ∧
      Parser.Parses p bytes (unpacked x)) :
    ∃ images, xs.mapM pack = .ok images ∧ images.flatten.length = (xs.map size).sum ∧
      Forall₂ (Parser.Parses p) images (xs.map unpacked) := by
  induction xs with
  | nil => exact ⟨[], rfl, rfl, .nil⟩
  | cons x xs ih =>
    obtain ⟨hx, hxs⟩ := forall_mem_cons.mp h
    obtain ⟨bytes, hpack, hsize, hparse⟩ := hx
    obtain ⟨images, hpacks, hsizes, hparses⟩ := ih hxs
    refine ⟨bytes :: images, ?_, ?_, .cons hparse hparses⟩
    · rw [Lists.mapM_cons_ok hpack, hpacks]
      rfl
    · rw [flatten_cons, length_append, hsize, hsizes, map_cons, sum_cons]

end

theorem length_le_sum {α : Type} {size : α → Nat} (h : ∀ x, 0 < size x) (xs : List α) :
    xs.length ≤ (xs.map size).sum := by
  induction xs with
  | nil => exact Nat.le_refl _
  | cons x xs ih =>
    have hx := h x
    rw [length_cons, map_cons, sum_cons]
    omega

theorem foldl_cut32 {ns : List Nat} {start : Nat} (h : start + ns.sum < 2147483648) :
    (ns.map fun n : Nat => (n : Int)).foldl (fun size n => cut32 (size + n)) start =
      ((start + ns.sum : Nat) : Int) := by
  induction ns generalizing start with
  | nil => rfl
  | cons n ns ih =>
    rw [sum_cons] at h ⊢
    have hcut : cut32 ((start : Int) + n) = ((start + n : Nat) : Int) := by
      rw [cut32_of_fits (by omega) (by omega)]
      omega
    rw [map_cons, foldl_cons, hcut, ih (by omega), Nat.add_assoc]

theorem mapM_of_forall {α β ε : Type} {f : α → Except ε β} {g : α → β} {xs : List α}
    (h : ∀ x ∈ xs, f x = .ok (g x)) : xs.mapM f = .ok (xs.map g) := by
  rw [Lists.mapM_eq_ok_iff, forall₂_map_right_iff]
  exact forall₂_same.mpr h

/-! ## The buffer -/

section

variable {host : Endian} {caller : Caller} {g : Group}

theorem Group.size_of_var_le {v : Var} (h : v ∈ g.vars) : v.size ≤ g.size := by
  have hle := le_sum_of_mem (mem_map_of_mem (f := Var.size) h)
  unfold size
  omega

theorem Group.size_of_attr_le {a : Attr} (h : a ∈ g.attrs) : a.size ≤ g.size := by
  have hle := le_sum_of_mem (mem_map_of_mem (f := Attr.size) h)
  unfold size
  omega

theorem Group.length_le_size (g : Group) : g.vars.length ≤ g.size ∧ g.attrs.length ≤ g.size := by
  have hv := @length_le_sum _ Var.size (fun v => by unfold Var.size; omega) g.vars
  have ha := @length_le_sum _ Attr.size (fun a => by unfold Attr.size; omega) g.attrs
  unfold size
  omega

theorem groupInfoSize_lt {varsRoot attrsRoot : List IndexEntry} {size alignBytes : Int}
    (h : groupInfoSize varsRoot attrsRoot = .ok (size, alignBytes)) :
    size < 2147483648 ∧ varsRoot.length < 2147483648 ∧ attrsRoot.length < 2147483648 := by
  obtain ⟨vars, -, h⟩ := exists_of_bind_eq_ok h
  obtain ⟨attrs, -, h⟩ := exists_of_bind_eq_ok h
  split_ifs at h with hlengths
  dsimp only at h
  split_ifs at h with hover
  all_goals
    obtain ⟨rfl, -⟩ := Prod.mk.inj (Except.ok.inj h)
    omega

theorem groupInfoSize_of_small
    (hvars : ∀ v ∈ g.vars, varSize v.entry = .ok (v.size : Int))
    (hattrs : ∀ a ∈ g.attrs, attrSize a.entry = .ok (a.size : Int)) (h : g.size < 2147483648) :
    groupInfoSize (g.vars.map (·.entry)) (g.attrs.map (·.entry)) =
      if 2147483648 ≤ (g.size + 7) / 8 * 8 then .error .signedOverflow
      else .ok (((g.size + 7) / 8 * 8 : Nat), ((g.size + 7) / 8 * 8 : Nat) - g.size) := by
  have hvarSizes : (g.vars.map (·.entry)).mapM varSize =
    .ok (g.vars.map fun v => (v.size : Int)) := by
    rw [mapM_map]
    exact mapM_of_forall hvars
  have hattrSizes : (g.attrs.map (·.entry)).mapM attrSize =
      .ok (g.attrs.map fun a => (a.size : Int)) := by
    rw [mapM_map]
    exact mapM_of_forall hattrs
  have hsize : g.size = 3 * 4 + (g.vars.map Var.size ++ g.attrs.map Attr.size).sum := by
    rw [sum_append, ← Nat.add_assoc]
    rfl
  have hfold : ((g.vars.map fun v => (v.size : Int)) ++ g.attrs.map fun a => (a.size : Int)).foldl
      (fun size n => cut32 (size + n)) (3 * 4) = g.size := by
    have hmap : ((g.vars.map fun v => (v.size : Int)) ++ g.attrs.map fun a => (a.size : Int)) =
        (g.vars.map Var.size ++ g.attrs.map Attr.size).map fun n : Nat => (n : Int) := by
      rw [map_append, map_map, map_map]
      rfl
    rw [hmap, hsize]
    exact @foldl_cut32 _ (3 * 4) (by omega)
  have hlengths : ¬(2147483648 ≤ (g.vars.map (·.entry)).length ∨
      2147483648 ≤ (g.attrs.map (·.entry)).length) := by
    obtain ⟨hv, ha⟩ := g.length_le_size
    rw [length_map, length_map]
    omega
  have halign : (g.size : Int) +
    (if (g.size : Int).tmod 8 = 0 then 0 else 8 - (g.size : Int).tmod 8) =
      ((g.size + 7) / 8 * 8 : Nat) := by
    rw [Int.tmod_eq_emod_of_nonneg (by omega)]
    split_ifs <;> omega
  unfold groupInfoSize
  rw [hvarSizes, ok_bind, hattrSizes, ok_bind, if_neg hlengths, hfold]
  dsimp only
  rw [halign]
  by_cases hover : 2147483648 ≤ (g.size + 7) / 8 * 8
  · rw [if_pos hover, if_pos (by omega)]
  · rw [if_neg hover, if_neg (by omega), ← halign]
    congr 2
    omega

def Allocates (caller : Caller) (us : List UnpackedVar) (ws : List UnpackedAttr) : Prop :=
  caller.mallocZero = true ∨ us ≠ [] ∧ ws ≠ []

theorem parses_allocated {n : Nat} (h : caller.mallocZero = true ∨ n ≠ 0) :
    Parser.Parses (allocated caller n) [] () := by
  unfold allocated
  rw [if_neg]
  · exact Parser.Parses.pure ()
  · rintro (hneg | ⟨hzero, hrefused⟩)
    · omega
    · cases h with
      | inl h => rw [h] at hrefused; cases hrefused
      | inr h => omega

theorem fails_allocated (h : caller.mallocZero = false) :
    Parser.Fails (allocated caller (0 : Nat)) [] := by
  intro rest
  unfold allocated
  rw [if_pos (.inr ⟨rfl, h⟩)]
  exact ⟨_, rfl⟩

section

variable {vars attrs : List (List UInt8)} {us : List UnpackedVar} {ws : List UnpackedAttr} {n : Nat}

theorem unpackGroup_images (halloc : Allocates caller us ws)
    (hvars : Forall₂ (Parser.Parses (unpackVar host caller)) vars us)
    (hattrs : Forall₂ (Parser.Parses (unpackAttr host caller)) attrs ws)
    (hus : us.length < 2147483648) (hws : ws.length < 2147483648) (hn : n < 2147483648) :
    Parser.Parses (unpackGroup host caller) (host.i32 n ++ (host.i32 us.length ++
      (host.i32 ws.length ++ (vars.flatten ++ attrs.flatten)))) ⟨us, ws⟩ := by
  have hlen : ∀ {α : Type} {as : List α}, as ≠ [] → as.length ≠ 0 := fun hne hzero =>
    hne (length_eq_zero_iff.mp hzero)
  refine (Parser.Parses.int32 host _ (by omega) (by omega)).bind ?_
  refine (Parser.Parses.int32 host _ (by omega) (by omega)).bind ?_
  refine (Parser.Parses.int32 host _ (by omega) (by omega)).bind ?_
  refine (parses_allocated (halloc.imp_right fun h => hlen h.1)).bind_nil ?_
  refine (parses_allocated (halloc.imp_right fun h => hlen h.2)).bind_nil ?_
  rw [Int.toNat_natCast, Int.toNat_natCast]
  exact (Parser.Parses.loop_forall₂ hvars).bind ((Parser.Parses.loop_forall₂ hattrs).bind_pure rfl)

theorem unpackGroup_refused (halloc : ¬Allocates caller us ws)
    (hus : us.length < 2147483648) (hws : ws.length < 2147483648) (hn : n < 2147483648)
    (rest : List UInt8) : Parser.Fails (unpackGroup host caller)
      (host.i32 n ++ (host.i32 us.length ++ (host.i32 ws.length ++ rest))) := by
  unfold Allocates at halloc
  rw [not_or, Bool.not_eq_true] at halloc
  obtain ⟨hrefused, hsome⟩ := halloc
  refine Parser.Fails.bind_right (Parser.Parses.int32 host _ (by omega) (by omega)) ?_
  refine Parser.Fails.bind_right (Parser.Parses.int32 host _ (by omega) (by omega)) ?_
  refine Parser.Fails.bind_right (Parser.Parses.int32 host _ (by omega) (by omega)) ?_
  by_cases hus : us = []
  · rw [hus]
    exact (fails_allocated hrefused).bind_left _ rest
  · have hws : ws = [] := by_contra fun hne => hsome ⟨hus, hne⟩
    have hpos : us.length ≠ 0 := fun hzero => hus (length_eq_zero_iff.mp hzero)
    rw [hws]
    exact Parser.Fails.bind_right (x := []) (parses_allocated (.inr hpos))
      ((fails_allocated hrefused).bind_left _ rest)

end

/-! ## The round trip -/

def content (host : Endian) (g : Group) (vars attrs : List (List UInt8)) (alignBytes : Nat) :
    List UInt8 :=
  host.i32 (g.vars.map (·.entry)).length ++ host.i32 (g.attrs.map (·.entry)).length ++
    vars.flatten ++ attrs.flatten ++ List.replicate alignBytes 0

theorem length_content (vars attrs : List (List UInt8)) (alignBytes : Nat) :
    (content host g vars attrs alignBytes).length =
      2 * 4 + vars.flatten.length + attrs.flatten.length + alignBytes := by
  unfold content
  rw [length_append, length_append, length_append, length_append,
    Endian.length_i32, Endian.length_i32, length_replicate]

theorem buffer_eq (vars attrs : List (List UInt8)) (alignBytes : Nat) (n : Int) :
    host.i32 n ++ content host g vars attrs alignBytes =
      host.i32 n ++ (host.i32 g.vars.length ++ (host.i32 g.attrs.length ++
        (vars.flatten ++ attrs.flatten))) ++ List.replicate alignBytes 0 := by
  unfold content
  rw [length_map, length_map]
  simp only [append_assoc]

theorem dsPackGroupInfo_eq {fortran : Bool} {size alignBytes : Int}
    (hinfo : groupInfoSize (g.vars.map (·.entry)) (g.attrs.map (·.entry)) =
      .ok (size, alignBytes)) :
    dsPackGroupInfo host fortran (g.vars.map (·.entry)) (g.attrs.map (·.entry)) =
      if size < 0 then .error .wildPointer
      else (g.vars.mapM fun v => packVar host fortran v.entry) >>= fun vars =>
        (g.attrs.mapM fun a => packAttr host a.entry) >>= fun attrs =>
          if size < 4 + (content host g vars attrs alignBytes.toNat).length then .error .outOfBounds
          else .ok (host.i32 (4 + (content host g vars attrs alignBytes.toNat).length) ++
            content host g vars attrs alignBytes.toNat) := by
  unfold dsPackGroupInfo
  rw [hinfo, mapM_map, mapM_map]
  rfl

theorem Group.roundTrip_of_kept (h : g.Kept caller) : g.RoundTrip host caller := by
  have hfits := h.size
  have hsmall : g.size < 2147483648 := by omega
  have hvars := fun v hv => @Var.packed_of_kept host caller v (h.names.1 v hv) (h.dims v hv)
    (lt_of_le_of_lt (Group.size_of_var_le hv) hsmall)
  have hattrs := fun a ha => @Attr.packed_of_kept host caller a (h.names.2 a ha)
    (lt_of_le_of_lt (Group.size_of_attr_le ha) hsmall)
  have hinfo := groupInfoSize_of_small (fun v hv => (hvars v hv).1) (fun a ha => (hattrs a ha).1)
    hsmall
  rw [if_neg (by omega)] at hinfo
  obtain ⟨vars, hpackVars, hlenVars, hparseVars⟩ := exists_images fun v hv => (hvars v hv).2
  obtain ⟨attrs, hpackAttrs, hlenAttrs, hparseAttrs⟩ := exists_images fun a ha => (hattrs a ha).2
  have hsize : g.size = 3 * 4 + vars.flatten.length + attrs.flatten.length := by
    rw [hlenVars, hlenAttrs]
    rfl
  have hpad : (((g.size + 7) / 8 * 8 : Nat) - g.size : Int).toNat =
      (g.size + 7) / 8 * 8 - g.size := by omega
  have hcontent := @length_content host g vars attrs ((g.size + 7) / 8 * 8 - g.size)
  have hpack := @dsPackGroupInfo_eq host g caller.fortran _ _ hinfo
  rw [if_neg (by omega), hpackVars, ok_bind, hpackAttrs, ok_bind, hpad, if_neg (by omega)] at hpack
  have halloc : Allocates caller (g.vars.map Var.unpacked) (g.attrs.map Attr.unpacked) :=
    h.allocated.imp_right fun ⟨hv, ha⟩ =>
      ⟨fun hnil => hv (map_eq_nil_iff.mp hnil), fun hnil => ha (map_eq_nil_iff.mp hnil)⟩
  obtain ⟨hlenV, hlenA⟩ := g.length_le_size
  have hparse := @unpackGroup_images host caller _ _ _ _
    (4 + (content host g vars attrs ((g.size + 7) / 8 * 8 - g.size)).length) halloc hparseVars
    hparseAttrs (by rw [length_map]; omega) (by rw [length_map]; omega) (by omega)
  refine ⟨_, _, _, (g.size + 7) / 8 * 8 - g.size, hpack, hinfo, ?_, ?_, by omega⟩
  · rw [length_append, Endian.length_i32]
    omega
  · unfold dsUnpackGroupInfo
    rw [if_neg (by rw [length_append, Endian.length_i32]; omega), buffer_eq]
    rw [length_map, length_map] at hparse
    exact hparse _

theorem Group.kept_of_roundTrip (h : g.RoundTrip host caller) : g.Kept caller := by
  obtain ⟨buffer, size, alignBytes, pad, hpack, hinfo, -, hunpack, -⟩ := h
  rw [dsPackGroupInfo_eq hinfo] at hpack
  by_cases hneg : size < 0
  · rw [if_pos hneg] at hpack
    cases hpack
  rw [if_neg hneg] at hpack
  obtain ⟨vars, hpackVars, hpack⟩ := exists_of_bind_eq_ok hpack
  obtain ⟨attrs, hpackAttrs, hpack⟩ := exists_of_bind_eq_ok hpack
  have hcontent := @length_content host g vars attrs alignBytes.toNat
  by_cases hover : size < 4 + (content host g vars attrs alignBytes.toNat).length
  · rw [if_pos hover] at hpack
    cases hpack
  rw [if_neg hover] at hpack
  obtain rfl := Except.ok.inj hpack
  obtain ⟨hsize, hlenV, hlenA⟩ := groupInfoSize_lt hinfo
  rw [length_map] at hlenV hlenA
  obtain ⟨us, hparseVars, hvars⟩ := exists_parses
    (fun v bytes => @Var.parses_of_packed host caller v bytes)
    (Lists.mapM_eq_ok_iff.mp hpackVars) (by omega)
  obtain ⟨ws, hparseAttrs, hattrs⟩ := exists_parses
    (fun a bytes => @Attr.parses_of_packed host caller a bytes)
    (Lists.mapM_eq_ok_iff.mp hpackAttrs) (by omega)
  have hus : us.length = g.vars.length :=
    hparseVars.length_eq.symm.trans (Lists.mapM_eq_ok_iff.mp hpackVars).length_eq.symm
  have hws : ws.length = g.attrs.length :=
    hparseAttrs.length_eq.symm.trans (Lists.mapM_eq_ok_iff.mp hpackAttrs).length_eq.symm
  unfold dsUnpackGroupInfo at hunpack
  rw [if_neg (by rw [length_append, Endian.length_i32]; omega), buffer_eq, ← hus, ← hws]
    at hunpack
  by_cases halloc : Allocates caller us ws
  · -- what has been read is the group
    have hparse := @unpackGroup_images host caller _ _ _ _
      (4 + (content host g vars attrs alignBytes.toNat).length) halloc hparseVars hparseAttrs
      (by omega) (by omega) (by omega)
    obtain ⟨hgroup, -⟩ := Prod.mk.inj (Except.ok.inj ((hparse _).symm.trans hunpack))
    obtain ⟨husEq, hwsEq⟩ := GroupInfo.mk.inj hgroup
    obtain ⟨hkeptVars, hlenVars⟩ := hvars husEq
    obtain ⟨hkeptAttrs, hlenAttrs⟩ := hattrs hwsEq
    have hsizeEq : g.size = 3 * 4 + vars.flatten.length + attrs.flatten.length := by
      rw [hlenVars, hlenAttrs]
      rfl
    have hsmall : g.size < 2147483648 := by omega
    have hinfo' := groupInfoSize_of_small
      (fun v hv => (@Var.packed_of_kept host caller v (hkeptVars v hv).1 (hkeptVars v hv).2
        (lt_of_le_of_lt (Group.size_of_var_le hv) hsmall)).1)
      (fun a ha => (@Attr.packed_of_kept host caller a (hkeptAttrs a ha)
        (lt_of_le_of_lt (Group.size_of_attr_le ha) hsmall)).1) hsmall
    refine ⟨⟨fun v hv => (hkeptVars v hv).1, hkeptAttrs⟩, fun v hv => (hkeptVars v hv).2, ?_, ?_⟩
    · by_contra hover'
      rw [if_pos (by omega), hinfo] at hinfo'
      cases hinfo'
    · refine halloc.imp_right fun ⟨hu, hw⟩ => ⟨fun hnil => hu ?_, fun hnil => hw ?_⟩
      · rw [husEq, hnil]
        rfl
      · rw [hwsEq, hnil]
        rfl
  · obtain ⟨e, he⟩ := @unpackGroup_refused host caller us ws
      (4 + (content host g vars attrs alignBytes.toNat).length) halloc (by omega) (by omega)
      (by omega)
      (vars.flatten ++ attrs.flatten) (List.replicate alignBytes.toNat 0)
    cases he.symm.trans hunpack

/-- The reader gets the group back exactly if the condition holds. -/
theorem Group.roundTrip_iff (host : Endian) (caller : Caller) (g : Group) :
    g.RoundTrip host caller ↔ g.Kept caller :=
  ⟨Group.kept_of_roundTrip, Group.roundTrip_of_kept⟩

/-- The dimensions `iter,10` of a local array. -/
def timeThenTen : IndexCharacteristic :=
  { IndexCharacteristic.zero with dims := ⟨2, [1, 0, 0, 10, 0, 0]⟩ }

def timeFirst : Var where
  entry := ⟨1, CString.empty, CString.ofBuffer [97], CString.empty, .double, [timeThenTen]⟩
  first := timeThenTen
  rest := []
  characteristics := rfl
  isDefined := trivial
  time := .first
  dims := [⟨10, 0, 0⟩]
  few := by decide
  global := fun h => by cases h
  dims_eq := rfl
  holds := fun h => by cases h

/-- The loop stays at the time dimension, and the reader gets no dimension. -/
theorem not_roundTrip_timeFirst :
    ¬Group.RoundTrip .little ⟨false, true⟩ ⟨[timeFirst], []⟩ := by
  intro h
  have hkept : ([⟨10, 0, 0⟩] : List Dimension) = [] :=
    (Group.kept_of_roundTrip h).dims timeFirst mem_cons_self
  cases hkept

end

end Adios.DataSpaces
