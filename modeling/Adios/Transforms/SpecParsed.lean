import Adios.Transforms.SpecParse
import Mathlib.Data.List.Forall2

/-!
# Transforms — what is read from the text of a transform

The specification that the parser makes has the texts of the string, each at its place in the
backing string, and its copy has the same ones in a backing string of its own.
-/

namespace Adios.SpecParse

open List Separated Wire

/-! ## The statement -/

def Kept (c b : UInt8) : Prop := b = c ∨ b = 0 ∧ c ∈ [58, 44, 61]

/-- The parameters behind the first `:`. -/
def paramsOf (s : List UInt8) : List (List UInt8) :=
  match behind 58 s with
  | none => []
  | some list => list.splitOn 44

/-- The transform that is named before the first `:`. -/
def namedTransform (s : List UInt8) : TransformType := findTypeByXmlAlias (before 58 s)

/-- The parameters that are read: "`If the transform type is unknown (error) or none, stop now`". -/
def paramsRead (s : List UInt8) : List (List UInt8) :=
  if namedTransform s = .unknown ∨ namedTransform s = .none then [] else paramsOf s

def Block.Holds (b : Block) (p : Int) : Prop := b.addr ≤ p ∧ p < b.addr + b.bytes.length

/-- Key and value of a parameter: the value is null when there is no `=`. -/
def textsOf (item : List UInt8) : Option (List UInt8) × Option (List UInt8) :=
  (some (before 61 item), behind 61 item)

def Block.texts (b : Block) (kv : KvPair) : Option (List UInt8) × Option (List UInt8) :=
  (kv.key.map b.text, kv.value.map b.text)

def Block.HoldsPair (b : Block) (kv : KvPair) : Prop :=
  (∀ p ∈ kv.key, b.Holds p) ∧ ∀ p ∈ kv.value, b.Holds p

structure Parsed (s : List UInt8) (items : List (List UInt8)) (spec : Spec) (b : Block) : Prop where
  backing : spec.backingStr = some b
  length : spec.backingStrLen = s.length
  kept : Forall₂ Kept (s ++ [0]) b.bytes
  type : spec.transformType = namedTransform s
  typeStr : spec.transformTypeStr = some b.addr
  typeText : b.text b.addr = before 58 s
  count : spec.paramCount = items.length
  texts : (spec.params.getD []).map b.texts = items.map textsOf
  inside : ∀ kv ∈ spec.params.getD [], b.HoldsPair kv

def SameText (a b : Block) (p q : Option Int) : Prop :=
  q.map b.text = p.map a.text ∧ ∀ r ∈ q, b.Holds r

structure Same (a b : Block) (src dst : Spec) : Prop where
  type : dst.transformType = src.transformType
  length : dst.backingStrLen = src.backingStrLen
  backing : src.backingStr = some a ∧ dst.backingStr = some b ∧ b.bytes = a.bytes
  typeStr : SameText a b src.transformTypeStr dst.transformTypeStr
  count : dst.paramCount = src.paramCount
  params : Option.Rel (Forall₂ fun p q => SameText a b p.key q.key ∧
    SameText a b p.value q.value) src.params dst.params

def Handled (items : List UInt8 → List (List UInt8)) (specStr : Option CString) : Prop :=
  ∀ addr, ∃ spec, parseSpec addr specStr = .ok spec ∧
    match specStr with
    | none => spec = blank ∧ ∀ addr' strdup dst, specCopy addr' strdup dst spec = .ok blank
    | some s =>
      if s.val = [] then
        spec = blank ∧ ∀ addr' strdup dst, specCopy addr' strdup dst spec = .ok blank
      else ∃ b, Parsed s.val (items s.val) spec b ∧
        ∀ addr' strdup dst, ∃ copy, specCopy addr' strdup dst spec = .ok copy ∧
          ∃ b', b'.addr = addr' ∧ Same b b' spec copy

/-! ## Cutting -/

variable {c : UInt8} {addr : Int} {front rest tail : List UInt8}

theorem toNat_front : (addr + front.length - addr).toNat = front.length := by omega

theorem at_front (bytes : List UInt8) :
    Block.at ⟨addr, front ++ bytes⟩ (addr + front.length) = .ok bytes := by
  rw [Block.at, if_neg (by dsimp only; omega)]
  dsimp only
  rw [toNat_front, drop_left]

theorem text_front (bytes : List UInt8) :
    Block.text ⟨addr, front ++ bytes⟩ (addr + front.length) = bytes.takeWhile (· ≠ 0) := by
  rw [Block.text]
  dsimp only
  rw [toNat_front, drop_left]

theorem set_between (front l tail : List UInt8) (a b : UInt8) :
    (front ++ (l ++ a :: tail)).set (front.length + l.length) b = front ++ (l ++ b :: tail) := by
  rw [set_append_right _ _ (Nat.le_add_right _ _), Nat.add_sub_cancel_left,
    set_append_right _ _ (Nat.le_refl _), Nat.sub_self]
  rfl

theorem strsplit_none (hc : c ≠ 0) (hrest : ∀ a ∈ rest, a ≠ 0) (hb : behind c rest = none) :
    strsplit ⟨addr, front ++ (rest ++ 0 :: tail)⟩ (addr + front.length) c =
      .ok (⟨addr, front ++ (rest ++ 0 :: tail)⟩, none) := by
  rw [strsplit, at_front, ok_bind, strchr_eq hc hrest, hb]
  rfl

theorem strsplit_some {r : List UInt8} (hc : c ≠ 0) (hrest : ∀ a ∈ rest, a ≠ 0)
    (hb : behind c rest = some r) :
    strsplit ⟨addr, front ++ (rest ++ 0 :: tail)⟩ (addr + front.length) c =
      .ok (⟨addr, front ++ (before c rest ++ 0 :: (r ++ 0 :: tail))⟩,
        some (addr + (front ++ (before c rest ++ [0])).length)) := by
  have hset : (front ++ (rest ++ 0 :: tail)).set (front.length + (before c rest).length) 0 =
      front ++ (before c rest ++ 0 :: (r ++ 0 :: tail)) := by
    have hcut := set_between front (before c rest) (r ++ 0 :: tail) c 0
    rwa [← cons_append, ← append_assoc (before c rest), ← eq_of_behind hb] at hcut
  have hpos : (addr + front.length + (before c rest).length - addr).toNat =
      front.length + (before c rest).length := by omega
  rw [strsplit, at_front, ok_bind, strchr_eq hc hrest, hb]
  show Except.ok ((⟨addr, List.set _ _ 0⟩ : Block), some _) = _
  dsimp only
  rw [hpos, hset, length_append, length_append]
  congr 3
  simp only [length_singleton]
  omega

/-! ## The parameters -/

def cutItem (item : List UInt8) : List UInt8 :=
  match behind 61 item with
  | none => item
  | some value => before 61 item ++ 0 :: value

def cutItems (items : List (List UInt8)) : List UInt8 :=
  items.flatMap fun item => cutItem item ++ [0]

def pairsAt (p : Int) : List (List UInt8) → List KvPair
  | [] => []
  | item :: items =>
    ⟨some p, (behind 61 item).map fun _ => p + (before 61 item ++ [0]).length⟩ ::
      pairsAt (p + (cutItem item ++ [0]).length) items

theorem length_cutItem (item : List UInt8) : (cutItem item).length = item.length := by
  unfold cutItem
  cases hb : behind 61 item with
  | none => rfl
  | some value =>
    show (before 61 item ++ 0 :: value).length = _
    rw [length_of_behind hb, length_append, length_cons]
    omega

variable {item s : List UInt8} {b : Block}

theorem strsplit_item (hitem : ∀ a ∈ item, a ≠ 0) :
    strsplit ⟨addr, front ++ (item ++ 0 :: tail)⟩ (addr + front.length) 61 =
      .ok (⟨addr, front ++ (cutItem item ++ 0 :: tail)⟩,
        (behind 61 item).map fun _ => addr + (front ++ (before 61 item ++ [0])).length) := by
  unfold cutItem
  cases hb : behind 61 item with
  | none => exact strsplit_none (by decide) hitem hb
  | some value =>
    rw [strsplit_some (by decide) hitem hb]
    show _ = Except.ok ((⟨addr, front ++ ((before 61 item ++ 0 :: value) ++ 0 :: tail)⟩ : Block), _)
    rw [append_assoc]
    rfl

theorem front_item (item : List UInt8) :
    addr + ((front ++ (cutItem item ++ [0])).length : Nat) =
      addr + front.length + (cutItem item ++ [0]).length := by
  rw [length_append]
  omega

theorem pair_item (item : List UInt8) :
    addr + ((front ++ (before 61 item ++ [0])).length : Nat) =
      addr + front.length + (before 61 item ++ [0]).length := by
  rw [length_append]
  omega

theorem paramLoop_eq (hrest : ∀ a ∈ rest, a ≠ 0) (room : Nat) :
    paramLoop ((rest.splitOn 44).length + room) ⟨addr, front ++ (rest ++ [0])⟩
        (some (addr + front.length)) =
      .ok (⟨addr, front ++ cutItems (rest.splitOn 44)⟩,
        pairsAt (addr + front.length) (rest.splitOn 44)) := by
  induction rest using separated_induction (44 : UInt8) generalizing front with
  | last rest hb =>
    rw [splitOn_of_behind_eq_none hb, length_singleton, Nat.add_comm, paramLoop,
      strsplit_none (by decide) hrest hb, ok_bind]
    dsimp only
    rw [strsplit_item hrest, ok_bind]
    dsimp only
    rw [paramLoop, ok_bind, pair_item, cutItems, flatMap_singleton]
    rfl
  | item rest r hb ih =>
    have hitem : ∀ a ∈ before 44 rest, a ≠ 0 := fun a ha => hrest a (mem_of_mem_before ha)
    have hr : ∀ a ∈ r, a ≠ 0 := fun a ha => hrest a (mem_of_mem_behind hb ha)
    have hroom : (before 44 rest :: r.splitOn 44).length + room =
        (r.splitOn 44).length + room + 1 := by
      rw [length_cons]
      omega
    have hfront : front ++ (cutItem (before 44 rest) ++ 0 :: (r ++ [0])) =
        (front ++ (cutItem (before 44 rest) ++ [0])) ++ (r ++ [0]) := by
      simp only [append_assoc, singleton_append]
    have hnext : addr + ((front ++ (before 44 rest ++ [0])).length : Nat) =
        addr + (front ++ (cutItem (before 44 rest) ++ [0])).length := by
      simp only [length_append, length_cutItem]
    have hbytes : (front ++ (cutItem (before 44 rest) ++ [0])) ++ cutItems (r.splitOn 44) =
        front ++ cutItems (before 44 rest :: r.splitOn 44) := by
      rw [cutItems, cutItems, flatMap_cons, append_assoc]
    rw [splitOn_of_behind hb, hroom, paramLoop, strsplit_some (by decide) hrest hb, ok_bind]
    dsimp only
    rw [strsplit_item hitem, ok_bind]
    dsimp only
    rw [hfront, hnext, ih hr, ok_bind, front_item, pair_item, hbytes]
    rfl

theorem strcount_eq (hrest : ∀ a ∈ rest, a ≠ 0) {fuel : Nat} (hfuel : rest.length < fuel)
    {n : Int} (hn : n + rest.length < 2147483648) :
    strcount 44 fuel (rest ++ [0]) n = .ok (n + (rest.splitOn 44).length - 1) := by
  induction rest using separated_induction (44 : UInt8) generalizing fuel n with
  | last rest hb =>
    obtain ⟨fuel, rfl⟩ := Nat.exists_eq_succ_of_ne_zero (Nat.ne_of_gt (Nat.zero_lt_of_lt hfuel))
    rw [splitOn_of_behind_eq_none hb, strcount, strchr_eq (by decide) hrest, hb, ok_bind]
    show Except.ok n = _
    rw [length_singleton]
    congr 1
    omega
  | item rest r hb ih =>
    obtain ⟨fuel, rfl⟩ := Nat.exists_eq_succ_of_ne_zero (Nat.ne_of_gt (Nat.zero_lt_of_lt hfuel))
    have hlen := length_of_behind hb
    have hr : ∀ a ∈ r, a ≠ 0 := fun a ha => hrest a (mem_of_mem_behind hb ha)
    have hdrop : (rest ++ [0]).drop ((before 44 rest).length + 1) = r ++ [0] := by
      have heq : rest ++ [0] = (before 44 rest ++ [44]) ++ (r ++ [0]) := by
        conv_lhs => rw [eq_of_behind hb]
        simp only [append_assoc, cons_append, nil_append]
      have hcut : (before 44 rest).length + 1 = (before 44 rest ++ [44]).length := by
        rw [length_append, length_singleton]
      rw [heq, hcut, drop_left]
    rw [splitOn_of_behind hb, strcount, strchr_eq (by decide) hrest, hb, ok_bind]
    show (increment n >>= fun m => strcount 44 fuel
      ((rest ++ [0]).drop ((before 44 rest).length + 1)) m) = _
    rw [increment, if_pos (by omega), ok_bind, hdrop, ih hr (by omega) (by omega), length_cons]
    congr 1
    omega

/-! ## What the pointers point to -/

theorem nonzero_of_mem_splitOn (hrest : ∀ a ∈ rest, a ≠ 0) (hitem : item ∈ rest.splitOn c) :
    ∀ a ∈ item, a ≠ 0 :=
  fun a ha => hrest a (mem_of_mem_splitOn hitem ha)

theorem texts_item (hitem : ∀ a ∈ item, a ≠ 0) :
    Block.texts ⟨addr, front ++ (cutItem item ++ 0 :: tail)⟩ ⟨some (addr + front.length),
      (behind 61 item).map fun _ => addr + front.length + (before 61 item ++ [0]).length⟩ =
      textsOf item := by
  have hkey : ∀ a ∈ before 61 item, a ≠ 0 := fun a ha => hitem a (mem_of_mem_before ha)
  have htext : Block.text ⟨addr, front ++ (cutItem item ++ 0 :: tail)⟩ (addr + front.length) =
      before 61 item := by
    rw [text_front, cutItem]
    cases hb : behind 61 item with
    | none => exact (takeWhile_string hitem).trans (before_of_behind_eq_none hb).symm
    | some value =>
      show ((before 61 item ++ 0 :: value) ++ 0 :: tail).takeWhile _ = _
      rw [append_assoc]
      exact takeWhile_string hkey
  refine Prod.ext (congrArg some htext) ?_
  show ((behind 61 item).map fun _ => addr + front.length + _).map (Block.text _) = behind 61 item
  cases hb : behind 61 item with
  | none => rfl
  | some value =>
    have hvalue : ∀ a ∈ value, a ≠ 0 := fun a ha => hitem a (mem_of_mem_behind hb ha)
    have hbytes : front ++ (cutItem item ++ 0 :: tail) =
        (front ++ (before 61 item ++ [0])) ++ (value ++ 0 :: tail) := by
      rw [cutItem, hb]
      simp only [append_assoc, cons_append, nil_append]
    rw [Option.map_some, Option.map_some, ← pair_item, hbytes, text_front, takeWhile_string hvalue]

theorem texts_pairsAt {items : List (List UInt8)} (hitems : ∀ item ∈ items, ∀ a ∈ item, a ≠ 0) :
    (pairsAt (addr + front.length) items).map (Block.texts ⟨addr, front ++ cutItems items⟩) =
      items.map textsOf := by
  induction items generalizing front with
  | nil => rfl
  | cons item items ih =>
    obtain ⟨hitem, hitems⟩ := forall_mem_cons.mp hitems
    have hhead : front ++ cutItems (item :: items) =
        front ++ (cutItem item ++ 0 :: cutItems items) := by
      rw [cutItems, flatMap_cons, append_assoc]
      rfl
    have htail : front ++ cutItems (item :: items) =
        (front ++ (cutItem item ++ [0])) ++ cutItems items := by
      rw [cutItems, flatMap_cons, ← append_assoc]
      rfl
    rw [pairsAt, map_cons, map_cons]
    refine congrArg₂ List.cons ?_ ?_
    · rw [hhead]
      exact texts_item hitem
    · rw [← front_item, htail]
      exact ih hitems

theorem holdsPair_pairsAt {items : List (List UInt8)} {p : Int} (hlo : b.addr ≤ p)
    (hhi : p + (cutItems items).length ≤ b.addr + b.bytes.length) :
    ∀ kv ∈ pairsAt p items, b.HoldsPair kv := by
  induction items generalizing p with
  | nil => exact fun kv hkv => absurd hkv not_mem_nil
  | cons item items ih =>
    have hlength : (cutItems (item :: items)).length =
        item.length + 1 + (cutItems items).length := by
      rw [cutItems, flatMap_cons, length_append, length_append, length_cutItem]
      rfl
    rw [hlength] at hhi
    refine forall_mem_cons.mpr ⟨⟨fun q hq => ?_, fun q hq => ?_⟩, ih ?_ ?_⟩
    · rw [← Option.mem_some.mp hq]
      exact ⟨hlo, by omega⟩
    · obtain ⟨value, hb, rfl⟩ := Option.map_eq_some_iff.mp hq
      have hlen := length_of_behind hb
      rw [length_append, length_singleton]
      exact ⟨by omega, by omega⟩
    · omega
    · rw [length_append, length_cutItem, length_singleton]
      omega

/-! ## What is kept -/

theorem kept_refl (l : List UInt8) : Forall₂ Kept l l :=
  forall₂_same.mpr fun _ _ => Or.inl rfl

theorem kept_append {k l k' l' : List UInt8} (h : Forall₂ Kept k l)
    (h' : Forall₂ Kept k' l') : Forall₂ Kept (k ++ k') (l ++ l') :=
  rel_append h h'

theorem kept_cut {k l k' l' : List UInt8} (hc : c ∈ [58, 44, 61]) (h : Forall₂ Kept k l)
    (h' : Forall₂ Kept k' l') : Forall₂ Kept (k ++ c :: k') (l ++ 0 :: l') :=
  kept_append h (Forall₂.cons (Or.inr ⟨rfl, hc⟩) h')

theorem kept_cutItem (item : List UInt8) : Forall₂ Kept item (cutItem item) := by
  unfold cutItem
  cases hb : behind 61 item with
  | none => exact kept_refl item
  | some value =>
    conv => arg 2; rw [eq_of_behind hb]
    exact kept_cut (by decide) (kept_refl _) (kept_refl value)

theorem kept_cutItems (rest : List UInt8) :
    Forall₂ Kept (rest ++ [0]) (cutItems (rest.splitOn 44)) := by
  induction rest using separated_induction (44 : UInt8) with
  | last rest hb =>
    rw [splitOn_of_behind_eq_none hb, cutItems, flatMap_singleton]
    exact kept_append (kept_cutItem rest) (kept_refl [0])
  | item rest r hb ih =>
    have hbytes : cutItems (rest.splitOn 44) =
        cutItem (before 44 rest) ++ 0 :: cutItems (r.splitOn 44) := by
      rw [splitOn_of_behind hb, cutItems, flatMap_cons, append_assoc]
      rfl
    have htext : rest ++ [0] = before 44 rest ++ 44 :: (r ++ [0]) := by
      conv_lhs => rw [eq_of_behind hb]
      rw [append_assoc, cons_append]
    rw [hbytes, htext]
    exact kept_cut (by decide) (kept_cutItem _) ih

/-! ## The parser -/

theorem length_of_kept (h : Forall₂ Kept (s ++ [0]) b.bytes) :
    b.bytes.length = s.length + 1 := by
  rw [← h.length_eq, length_append, length_singleton]

theorem parsed_nil (hkept : Forall₂ Kept (s ++ [0]) b.bytes) (htext : b.text b.addr = before 58 s) :
    Parsed s [] ⟨namedTransform s, some b.addr, 0, none, s.length, some b⟩ b where
  backing := rfl
  length := rfl
  kept := hkept
  type := rfl
  typeStr := rfl
  typeText := htext
  count := rfl
  texts := rfl
  inside := fun _ h => absurd h not_mem_nil

theorem text_addr (bytes : List UInt8) :
    Block.text ⟨addr, bytes⟩ addr = bytes.takeWhile (· ≠ 0) := by
  rw [Block.text, Int.sub_self]
  rfl

theorem strsplit_name {list : List UInt8} (hs : ∀ a ∈ s, a ≠ 0) (hb : behind 58 s = some list) :
    strsplit ⟨addr, s ++ [0]⟩ addr 58 = .ok (⟨addr, before 58 s ++ 0 :: (list ++ [0])⟩,
      some (addr + (before 58 s ++ [0]).length)) := by
  have hzero : (addr : Int) = addr + ([] : List UInt8).length := (Int.add_zero addr).symm
  conv_lhs => arg 2; rw [hzero]
  exact @strsplit_some 58 addr [] s [] list (by decide) hs hb

theorem strsplit_no_name (hs : ∀ a ∈ s, a ≠ 0) (hb : behind 58 s = none) :
    strsplit ⟨addr, s ++ [0]⟩ addr 58 = .ok (⟨addr, s ++ [0]⟩, none) := by
  have hzero : (addr : Int) = addr + ([] : List UInt8).length := (Int.add_zero addr).symm
  conv_lhs => arg 2; rw [hzero]
  exact @strsplit_none 58 addr [] s [] (by decide) hs hb

theorem text_name {s : List UInt8} (hs : ∀ a ∈ s, a ≠ 0) (bytes : List UInt8) :
    Block.text ⟨addr, before 58 s ++ 0 :: bytes⟩ addr = before 58 s := by
  rw [text_addr, takeWhile_string fun a ha => hs a (mem_of_mem_before ha)]

theorem kept_name {list bytes : List UInt8} (hb : behind 58 s = some list)
    (h : Forall₂ Kept (list ++ [0]) bytes) :
    Forall₂ Kept (s ++ [0]) (before 58 s ++ 0 :: bytes) := by
  have hs : s ++ [0] = before 58 s ++ 58 :: (list ++ [0]) := by
    conv_lhs => rw [eq_of_behind hb]
    rw [append_assoc, cons_append]
  rw [hs]
  exact kept_cut (by decide) (kept_refl _) h

theorem parsed_of_name (addr : Int) (s : CString) (hne : s.val ≠ [])
    (hlen : cut32 s.val.length = s.val.length) (hb : behind 58 s.val = none) :
    ∃ spec b, parseSpec addr (some s) = .ok spec ∧ Parsed s.val (paramsRead s.val) spec b := by
  have htext : Block.text ⟨addr, s.val ++ [0]⟩ addr = before 58 s.val := by
    rw [text_addr, takeWhile_string s.property, before_of_behind_eq_none hb]
  have hnone : paramsRead s.val = [] := by
    rw [paramsRead, paramsOf, hb, ite_self]
  refine ⟨_, ⟨addr, s.val ++ [0]⟩, ?_, hnone ▸ parsed_nil (kept_refl _) htext⟩
  rw [parseSpec, if_neg hne, hlen]
  dsimp only
  rw [strsplit_no_name s.property hb, ok_bind]
  dsimp only
  rw [htext]
  exact ite_self _

/-- "If the transform type is unknown (error) or none, stop now" -/
theorem parsed_of_stop (addr : Int) (s : CString) (hne : s.val ≠ [])
    (hlen : cut32 s.val.length = s.val.length) {list : List UInt8}
    (hb : behind 58 s.val = some list)
    (hstop : namedTransform s.val = .unknown ∨ namedTransform s.val = .none) :
    ∃ spec b, parseSpec addr (some s) = .ok spec ∧ Parsed s.val (paramsRead s.val) spec b := by
  have hnone : paramsRead s.val = [] := if_pos hstop
  have htext := @text_name addr s.val s.property
  refine ⟨_, ⟨addr, before 58 s.val ++ 0 :: (list ++ [0])⟩, ?_,
    hnone ▸ parsed_nil (kept_name hb (kept_refl _)) (htext _)⟩
  rw [parseSpec, if_neg hne, hlen]
  dsimp only
  rw [strsplit_name s.property hb, ok_bind]
  dsimp only
  rw [htext]
  exact if_pos hstop

section

variable {name list : List UInt8}

theorem at_list : Block.at ⟨addr, name ++ 0 :: (list ++ [0])⟩ (addr + (name ++ [0]).length) =
    .ok (list ++ [0]) := by
  have hfront : Block.at ⟨addr, (name ++ [0]) ++ (list ++ [0])⟩ (addr + (name ++ [0]).length) =
      .ok (list ++ [0]) := at_front _
  rwa [append_assoc] at hfront

theorem count_of_list (hlist : ∀ a ∈ list, a ≠ 0) {n : Nat} (hn : list.length < n)
    (hfit : list.length + 1 < 2147483647) :
    strcount 44 n (list ++ [0]) 0 = .ok (((list.splitOn 44).length : Int) - 1) ∧
      increment (((list.splitOn 44).length : Int) - 1) = .ok ((list.splitOn 44).length : Int) := by
  have hmany : (list.splitOn 44).length ≤ list.length + 1 := length_splitOn_le
  constructor
  · rw [strcount_eq hlist (by omega) (by omega), Int.zero_add]
  · rw [increment, if_pos (by omega), Int.sub_add_cancel]

theorem paramLoop_list (hlist : ∀ a ∈ list, a ≠ 0) : paramLoop (list.splitOn 44).length
    ⟨addr, name ++ 0 :: (list ++ [0])⟩ (some (addr + (name ++ [0]).length)) =
      .ok (⟨addr, name ++ 0 :: cutItems (list.splitOn 44)⟩,
        pairsAt (addr + (name ++ [0]).length) (list.splitOn 44)) := by
  have hloop : paramLoop (list.splitOn 44).length ⟨addr, (name ++ [0]) ++ (list ++ [0])⟩
      (some (addr + (name ++ [0]).length)) =
        .ok (⟨addr, (name ++ [0]) ++ cutItems (list.splitOn 44)⟩,
          pairsAt (addr + (name ++ [0]).length) (list.splitOn 44)) := paramLoop_eq hlist 0
  rwa [append_assoc, append_assoc] at hloop

end

theorem parsed_of_list (addr : Int) (s : CString) (hne : s.val ≠ [])
    (hlen : cut32 s.val.length = s.val.length) (hfit : s.val.length < 2147483647)
    {list : List UInt8} (hb : behind 58 s.val = some list)
    (hgoes : ¬(namedTransform s.val = .unknown ∨ namedTransform s.val = .none)) :
    ∃ spec b, parseSpec addr (some s) = .ok spec ∧ Parsed s.val (paramsRead s.val) spec b := by
  have hlist : ∀ a ∈ list, a ≠ 0 := fun a ha => s.property a (mem_of_mem_behind hb ha)
  have hlength := length_of_behind hb
  have htext := @text_name addr s.val s.property
  have hitems : paramsRead s.val = list.splitOn 44 := by
    rw [paramsRead, if_neg hgoes, paramsOf, hb]
  have hitem : ∀ item ∈ list.splitOn 44, ∀ a ∈ item, a ≠ 0 :=
    fun item hitem => nonzero_of_mem_splitOn hlist hitem
  obtain ⟨hcommas, hcount⟩ := @count_of_list list hlist (s.val.length + 1) (by omega) (by omega)
  refine ⟨⟨namedTransform s.val, some addr, (list.splitOn 44).length,
      some (pairsAt (addr + (before 58 s.val ++ [0]).length) (list.splitOn 44)), s.val.length,
      some ⟨addr, before 58 s.val ++ 0 :: cutItems (list.splitOn 44)⟩⟩,
    ⟨addr, before 58 s.val ++ 0 :: cutItems (list.splitOn 44)⟩, ?_, ?_⟩
  · rw [parseSpec, if_neg hne, hlen]
    dsimp only
    rw [strsplit_name s.property hb, ok_bind]
    dsimp only
    rw [htext]
    refine (if_neg hgoes).trans ?_
    rw [at_list, ok_bind, hcommas, ok_bind, hcount, ok_bind, Int.toNat_natCast]
    exact congrArg (· >>= _) (paramLoop_list hlist)
  · rw [hitems]
    exact
      { backing := rfl
        length := rfl
        kept := kept_name hb (kept_cutItems list)
        type := rfl
        typeStr := rfl
        typeText := htext _
        count := rfl
        texts := by
          have htexts := @texts_pairsAt addr (before 58 s.val ++ [0]) _ hitem
          rwa [append_assoc] at htexts
        inside := holdsPair_pairsAt (by dsimp only; omega) (by
          simp only [length_append, length_cons, length_nil]
          omega) }

theorem parsed_of_ne_nil (addr : Int) (s : CString) (hne : s.val ≠ [])
    (hfit : s.val.length < 2147483647) :
    ∃ spec b, parseSpec addr (some s) = .ok spec ∧ Parsed s.val (paramsRead s.val) spec b := by
  have hlen : cut32 s.val.length = s.val.length := cut32_of_fits (by omega) (by omega)
  cases hb : behind 58 s.val with
  | none => exact parsed_of_name addr s hne hlen hb
  | some list =>
    by_cases hstop : namedTransform s.val = .unknown ∨ namedTransform s.val = .none
    · exact parsed_of_stop addr s hne hlen hb hstop
    · exact parsed_of_list addr s hne hlen hfit hb hstop

theorem bufdup_eq {len : Int} (hlen : b.bytes.length = len + 1) (hpos : 0 ≤ len)
    (hfit : len < 2147483647) (addr : Int) :
    bufdup addr b len = .ok ⟨addr, b.bytes⟩ := by
  have hcount : ((len + 1) % 18446744073709551616).toNat = b.bytes.length := by omega
  rw [bufdup, increment, if_pos hfit, ok_bind]
  dsimp only
  rw [hcount, if_pos (Nat.le_refl _), take_length]

theorem sameText_rebase (b : Block) (addr : Int) (strdup : Int → Int) {p : Option Int}
    (hp : ∀ q ∈ p, b.Holds q) :
    SameText b ⟨addr, b.bytes⟩ p (p.map (rebaseOrDup (some b) (some ⟨addr, b.bytes⟩) strdup)) := by
  cases p with
  | none => exact ⟨rfl, fun _ h => nomatch h⟩
  | some q =>
    obtain ⟨hlo, hhi⟩ := hp q rfl
    refine ⟨congrArg some ?_, fun r hr => ?_⟩
    · have hplace : q - b.addr + addr - addr = q - b.addr := Int.add_sub_cancel _ _
      rw [Block.text, rebaseOrDup, hplace]
      rfl
    · rw [← Option.mem_some.mp hr, rebaseOrDup]
      refine ⟨?_, ?_⟩
      · dsimp only
        omega
      · dsimp only
        omega

theorem exists_copy {items : List (List UInt8)} {spec : Spec} (h : Parsed s items spec b)
    (hfit : s.length < 2147483647) (addr : Int) (strdup : Int → Int) (dst : Spec) :
    ∃ copy, specCopy addr strdup dst spec = .ok copy ∧
      ∃ b', b'.addr = addr ∧ Same b b' spec copy := by
  have hdup : bufdup addr b spec.backingStrLen = .ok ⟨addr, b.bytes⟩ := by
    have hbytes := length_of_kept h.kept
    refine bufdup_eq ?_ ?_ ?_ addr <;> rw [h.length] <;> omega
  have hstart : b.Holds b.addr := by
    have hbytes := length_of_kept h.kept
    exact ⟨Int.le_refl _, by omega⟩
  have htype := sameText_rebase b addr strdup (p := spec.transformTypeStr) fun q hq => by
    rw [h.typeStr, Option.mem_some] at hq
    exact hq ▸ hstart
  rw [specCopy, h.backing]
  dsimp only
  rw [hdup, ok_bind]
  cases hparams : spec.params with
  | none =>
    refine ⟨_, rfl, ⟨addr, b.bytes⟩, rfl, rfl, rfl, ⟨h.backing, rfl, rfl⟩, htype, ?_, ?_⟩
    · have htexts := h.texts
      rw [hparams, Option.getD_none, map_nil] at htexts
      rw [h.count, map_eq_nil_iff.mp htexts.symm]
      rfl
    · rw [hparams]
      exact Option.Rel.none
  | some kvs =>
    have hcount : spec.paramCount.toNat = kvs.length := by
      have hlengths := congrArg List.length h.texts
      rw [hparams, Option.getD_some, length_map, length_map] at hlengths
      rw [h.count, Int.toNat_natCast, hlengths]
    refine ⟨_, rfl, ⟨addr, b.bytes⟩, rfl, rfl, rfl, ⟨h.backing, rfl, rfl⟩, htype, rfl, ?_⟩
    rw [hparams, hcount, take_length]
    refine Option.Rel.some (forall₂_map_right_iff.mpr (forall₂_same.mpr fun kv hkv => ?_))
    have hinside := h.inside kv (by rwa [hparams])
    exact ⟨sameText_rebase b addr strdup hinside.1, sameText_rebase b addr strdup hinside.2⟩

/-! ## All texts -/

/-- The text of a transform, if there is one: its length with the NUL fits an `int`. -/
structure SpecText where
  text : Option CString
  fits : ∀ s ∈ text, s.val.length + 1 < 2147483648

/-- A text is parsed into the transform that it names and its parameters, except that those of an
unknown transform and of `none` are left out, and the copy is the same. -/
theorem parsed_and_copied (t : SpecText) : Handled paramsRead t.text := by
  intro addr
  have hfits := t.fits
  cases htext : t.text with
  | none => exact ⟨blank, rfl, rfl, fun _ _ _ => rfl⟩
  | some s =>
    by_cases hnil : s.val = []
    · refine ⟨blank, if_pos hnil, ?_⟩
      dsimp only
      rw [if_pos hnil]
      exact ⟨rfl, fun _ _ _ => rfl⟩
    · have hfit : s.val.length < 2147483647 := Nat.lt_of_succ_lt_succ (hfits s htext)
      obtain ⟨spec, b, hparse, hparsed⟩ := parsed_of_ne_nil addr s hnil hfit
      refine ⟨spec, hparse, ?_⟩
      dsimp only
      rw [if_neg hnil]
      exact ⟨b, hparsed, fun addr' strdup dst => exists_copy hparsed hfit addr' strdup dst⟩

/-- `none:a` -/
def noneWithParam : CString := CString.ofBuffer (chars "none:a")

/-- The parameter of `none` is not read. -/
theorem not_handled_noneWithParam : ¬Handled paramsOf (some noneWithParam) := by
  intro h
  obtain ⟨spec, hparse, hspec⟩ := h 0
  have hne : noneWithParam.val ≠ [] := by decide
  have hfit : noneWithParam.val.length < 2147483647 := by decide
  dsimp only at hspec
  rw [if_neg hne] at hspec
  obtain ⟨b, hparsed, -⟩ := hspec
  obtain ⟨spec', b', hparse', hparsed'⟩ := parsed_of_ne_nil 0 noneWithParam hne hfit
  have heq : spec = spec' := Except.ok.inj (hparse.symm.trans hparse')
  have hone : (paramsOf noneWithParam.val).length = 1 := by decide +kernel
  have hzero : (paramsRead noneWithParam.val).length = 0 := by decide +kernel
  have hcount := hparsed.count
  rw [heq, hparsed'.count, hone, hzero] at hcount
  exact absurd hcount (by decide)

end Adios.SpecParse
