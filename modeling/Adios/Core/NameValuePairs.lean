import Adios.Core.Strings
import Adios.Wire.Signed

/-!
# Adios — lists of parameters

`text_to_name_value_pairs` of `util.c` with `splitnamevalue` and `remove_whitespace`, and the pairs
that a text has.
-/

namespace Adios.NameValue

open List Separated Wire

/-! ## The code -/

/-- `PairStruct` -/
structure Pair where
  name : List UInt8
  value : Option (List UInt8)
  deriving DecidableEq

/-- The white space that `remove_whitespace` looks for. -/
def isBlank (c : UInt8) : Bool := c = 32 || c = 9 || c = 10

/-- `remove_whitespace`, with the character behind `end`. -/
def removeWhitespace (line : List UInt8) (start stop : Nat) : Option (List UInt8) :=
  -- "`remove front whitespace`"
  match ((line.take stop).drop start).dropWhile isBlank with
  | [] => none
  | c :: cs =>
    -- "`remove tail whitespace`"
    let res := ((c :: cs).reverse.dropWhile isBlank).reverse
    if 0 < res.length then some res else none

/-- `splitnamevalue` -/
def splitnamevalue (line : List UInt8) (linelen : Nat) :
    Except Fault (Option (List UInt8) × Option (List UInt8)) := do
  match ← strchr 61 line with
  | none => return (removeWhitespace line 0 linelen, none)
  | some 0 => return (none, none)
  | some equal => return (removeWhitespace line 0 equal, removeWhitespace line (equal + 1) linelen)

/-- `char line[256]` -/
def lineSize : Nat := 256

/-- "`strncpy (line, item, len)`" and "`line[len] = '\0'`" -/
def copyLine (item : List UInt8) (len : Int) : Except Fault (List UInt8) :=
  if len < 0 ∨ (lineSize : Int) ≤ len then .error .outOfBounds
  else .ok (item.take len.toNat ++ [0])

/-- "`while (item)`" -/
def pairsLoop : Nat → List UInt8 → Except Fault (List Pair)
  | 0, _ => .error .endless
  | fuel + 1, item => do
    let delim ← strchr 59 item
    let len : Int := match delim with
      | some delim => cut32 delim
      | none => cut32 (strlen item)
    let line ← copyLine item len
    let (name, value) ← splitnamevalue line len.toNat
    let rest ← match delim with
      | some delim => pairsLoop fuel (item.drop (delim + 1))
      | none => pure []
    match name with
    | some name => return ⟨name, value⟩ :: rest
    | none => return rest

/-- `text_to_name_value_pairs` -/
def textToNameValuePairs (text : Option CString) : Except Fault (List Pair) :=
  match text with
  | none => .ok []
  | some text => pairsLoop (text.val.length + 1) (text.val ++ [0])

/-! ## The statement -/

def trim (p : UInt8 → Bool) (l : List UInt8) : List UInt8 :=
  ((l.dropWhile p).reverse.dropWhile p).reverse

def nonempty (l : List UInt8) : Option (List UInt8) := if l = [] then none else some l

def pairOf (item : List UInt8) : Option Pair :=
  (nonempty (trim isBlank (before 61 item))).map fun name =>
    ⟨name, (behind 61 item).bind fun value => nonempty (trim isBlank value)⟩

def pairsOf : Option CString → List Pair
  | none => []
  | some text => (text.val.splitOn 59).filterMap pairOf

def isBlankOrQuote (c : UInt8) : Bool := isBlank c || c = 34 || c = 39

def pairAsked (item : List UInt8) : Pair :=
  ⟨trim isBlankOrQuote (before 61 item), (behind 61 item).map (trim isBlankOrQuote)⟩

structure ItemText where
  text : Option CString
  fits : ∀ s ∈ text, ∀ item ∈ s.val.splitOn 59, item.length < lineSize

theorem trim_eq_nil {p : UInt8 → Bool} {l : List UInt8} (h : l.dropWhile p = []) :
    trim p l = [] := by
  rw [trim, h]
  rfl

variable {line : List UInt8}

theorem removeWhitespace_eq (start stop : Nat) :
    removeWhitespace line start stop = nonempty (trim isBlank ((line.take stop).drop start)) := by
  unfold removeWhitespace nonempty
  cases hdrop : ((line.take stop).drop start).dropWhile isBlank with
  | nil => rw [if_pos (trim_eq_nil hdrop)]
  | cons c cs =>
    rw [trim, hdrop]
    dsimp only
    by_cases hnil : ((c :: cs).reverse.dropWhile isBlank).reverse = []
    · rw [if_pos hnil, hnil]
      rfl
    · rw [if_neg hnil, if_pos (length_pos_of_ne_nil hnil)]

theorem splitnamevalue_eq {item : List UInt8} (hitem : ∀ a ∈ item, a ≠ 0) :
    ∃ name value, splitnamevalue (item ++ [0]) item.length = .ok (name, value) ∧
      name.map (fun name => (⟨name, value⟩ : Pair)) = pairOf item := by
  have hall : (item ++ [0]).take item.length = item := take_left
  rw [splitnamevalue, strchr_eq (by decide) hitem, ok_bind]
  unfold pairOf
  cases hb : behind 61 item with
  | none =>
    refine ⟨_, _, rfl, ?_⟩
    rw [removeWhitespace_eq, hall, drop_zero, before_of_behind_eq_none hb]
    rfl
  | some value =>
    have hlen := length_of_behind hb
    rw [Option.map_some]
    cases hbefore : (before 61 item).length with
    | zero =>
      refine ⟨none, none, rfl, ?_⟩
      rw [eq_nil_of_length_eq_zero hbefore]
      rfl
    | succ n =>
      refine ⟨_, _, rfl, ?_⟩
      have hfront : (item ++ [0]).take (n + 1) = before 61 item := by
        conv_lhs => rw [eq_of_behind hb]
        rw [← hbefore, append_assoc, take_left]
      have hvalue : item.drop (n + 1 + 1) = value := by
        conv_lhs => rw [eq_of_behind hb]
        rw [← hbefore, ← drop_drop, drop_left]
        rfl
      rw [removeWhitespace_eq, removeWhitespace_eq, hall, drop_zero, hfront, hvalue]
      rfl

/-! ## All items -/

theorem copyLine_eq {item more : List UInt8} (hfits : item.length < lineSize) :
    copyLine (item ++ more) (cut32 item.length) = .ok (item ++ [0]) := by
  unfold lineSize at hfits
  have hcut : cut32 item.length = item.length := cut32_of_fits (by omega) (by omega)
  rw [copyLine, hcut, if_neg (by unfold lineSize; omega), Int.toNat_natCast, take_left]

theorem toNat_cut32 {item : List UInt8} (hfits : item.length < lineSize) :
    (cut32 item.length).toNat = item.length := by
  unfold lineSize at hfits
  rw [cut32_of_fits (by omega) (by omega), Int.toNat_natCast]

theorem pairsLoop_eq {rest : List UInt8} (hrest : ∀ a ∈ rest, a ≠ 0)
    (hfits : ∀ item ∈ rest.splitOn 59, item.length < lineSize) {fuel : Nat}
    (hfuel : rest.length < fuel) :
    pairsLoop fuel (rest ++ [0]) = .ok ((rest.splitOn 59).filterMap pairOf) := by
  induction rest using separated_induction (59 : UInt8) generalizing fuel with
  | last rest hb =>
    obtain ⟨fuel, rfl⟩ := Nat.exists_eq_succ_of_ne_zero (Nat.ne_of_gt (Nat.zero_lt_of_lt hfuel))
    rw [splitOn_of_behind_eq_none hb] at hfits ⊢
    have hroom := forall_mem_singleton.mp hfits
    have hlen : strlen (rest ++ [0]) = rest.length :=
      congrArg List.length (takeWhile_string hrest)
    obtain ⟨name, value, hsplit, hpair⟩ := splitnamevalue_eq hrest
    rw [pairsLoop, strchr_eq (by decide) hrest, hb, ok_bind, Option.map_none]
    dsimp only
    rw [hlen, copyLine_eq hroom, ok_bind, toNat_cut32 hroom, hsplit, ok_bind,
      filterMap_cons, ← hpair]
    cases name <;> rfl
  | item rest r hb ih =>
    obtain ⟨fuel, rfl⟩ := Nat.exists_eq_succ_of_ne_zero (Nat.ne_of_gt (Nat.zero_lt_of_lt hfuel))
    have hlength := length_of_behind hb
    rw [splitOn_of_behind hb] at hfits ⊢
    obtain ⟨hroom, hfits⟩ := forall_mem_cons.mp hfits
    have hitem : ∀ a ∈ before 59 rest, a ≠ 0 := fun a ha => hrest a (mem_of_mem_before ha)
    have hr : ∀ a ∈ r, a ≠ 0 := fun a ha => hrest a (mem_of_mem_behind hb ha)
    have htext : rest ++ [0] = before 59 rest ++ 59 :: (r ++ [0]) := by
      conv_lhs => rw [eq_of_behind hb]
      rw [append_assoc, cons_append]
    have hdrop : (rest ++ [0]).drop ((before 59 rest).length + 1) = r ++ [0] := by
      rw [htext, ← drop_drop, drop_left]
      rfl
    obtain ⟨name, value, hsplit, hpair⟩ := splitnamevalue_eq hitem
    rw [pairsLoop, strchr_eq (by decide) hrest, hb, ok_bind, Option.map_some]
    dsimp only
    rw [hdrop, htext, copyLine_eq hroom, ok_bind, toNat_cut32 hroom, hsplit, ok_bind]
    dsimp only
    rw [ih hr hfits (by omega), ok_bind, filterMap_cons, ← hpair]
    cases name <;> rfl

/-- Every text whose items fit gives the pairs of its items with a name, in order. -/
theorem textToNameValuePairs_eq (t : ItemText) :
    textToNameValuePairs t.text = .ok (pairsOf t.text) := by
  have hfits := t.fits
  cases htext : t.text with
  | none => rfl
  | some s => exact pairsLoop_eq s.property (hfits s htext) (Nat.lt_succ_self _)

/-- `x="1"` -/
def quotedValue : CString := CString.ofBuffer [120, 61, 34, 49, 34]

/-- The quotes stay. -/
theorem not_asked_quotedValue :
    textToNameValuePairs (some quotedValue) ≠ .ok ((quotedValue.val.splitOn 59).map pairAsked) := by
  decide +kernel

end Adios.NameValue
