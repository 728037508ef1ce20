import Adios.Transforms.AplodComponents

/-!
# Adios — numbers in strings

`adios_parse_scalar_string` for the eight integer types. Each of its branches calls one of the
`strto…` functions, tells an overflow by a change of `errno`, and looks at the end of the string. A
`long` has 64 bits.
-/

namespace Adios.ScalarString

open List
open Aplod (isSpace)

/-! ## The conversions of the C library -/

def erange : Int := 34

def einval : Int := 22

/-- What the C standard leaves open: "the implementation may also set `errno` to `EINVAL`" where no
number is found. -/
structure Library where
  setsEinval : Bool

def isDigit (c : UInt8) : Bool := 48 ≤ c && c ≤ 57

def decimal (digits : List UInt8) : Nat :=
  digits.foldl (fun n c => n * 10 + (c.toNat - 48)) 0

structure Subject where
  negative : Bool
  digits : List UInt8
  rest : List UInt8

def subject (text : List UInt8) : Option Subject :=
  let (negative, text) :=
    match text.dropWhile isSpace with
    | [] => (false, [])
    | c :: cs => if c = 45 then (true, cs) else if c = 43 then (false, cs) else (false, c :: cs)
  let digits := text.takeWhile isDigit
  if digits = [] then none else some ⟨negative, digits, text.dropWhile isDigit⟩

/-- What a call leaves: its value, `*end`, and `errno`. -/
structure Converted where
  value : Int
  rest : List UInt8
  errno : Int

def convert (lib : Library) (errno : Int) (text : List UInt8) (number : Bool → Nat → Int × Bool) :
    Converted :=
  match subject text with
  | none => ⟨0, text, if lib.setsEinval then einval else errno⟩
  | some s =>
    let (value, tooLarge) := number s.negative (decimal s.digits)
    ⟨value, s.rest, if tooLarge then erange else errno⟩

def signedNumber (negative : Bool) (n : Nat) : Int × Bool :=
  let t : Int := if negative then -n else n
  if t < -9223372036854775808 then (-9223372036854775808, true)
  else if t > 9223372036854775807 then (9223372036854775807, true)
  else (t, false)

def unsignedNumber (negative : Bool) (n : Nat) : Int × Bool :=
  if n > 18446744073709551615 then (18446744073709551615, true)
  else if negative then ((18446744073709551616 - n) % 18446744073709551616, false)
  else (n, false)

variable (lib : Library) (errno : Int)

/-- `strtol` and `strtoll`, with base 10. -/
def strtol (text : List UInt8) : Converted := convert lib errno text signedNumber

/-- `strtoul` and `strtoull`, with base 10. -/
def strtoul (text : List UInt8) : Converted := convert lib errno text unsignedNumber

/-! ## The function -/

/-- The integer types of `enum ADIOS_DATATYPES`. -/
inductive IntegerType where
  | byte | short | integer | long
  | unsignedByte | unsignedShort | unsignedInteger | unsignedLong
  deriving DecidableEq

/-- The two errors that end in "`return 0`". -/
inductive Rejection where
  /-- `err_invalid_argument`, "`value: '%s' not valid integer\n`" -/
  | notValidInteger
  /-- `err_out_of_bound`, "`type is %s, value is out of range: '%s'\n`" -/
  | outOfRange
  deriving DecidableEq

/-- A branch: `errno` or the end of the string tells that there is no number, and then the number is
compared with the limits. -/
def checked (t : Converted) (invalid : Rejection) (outside : Int → Bool) : Except Rejection Int :=
  if t.errno ≠ errno ∨ t.rest ≠ [] then .error invalid
  else if outside t.value then .error .outOfRange
  else .ok t.value

/-- `adios_parse_scalar_string`: `**out`, if 1 is returned. -/
def adiosParseScalarString (value : List UInt8) : IntegerType → Except Rejection Int
  | .byte => checked errno (strtol lib errno value) .notValidInteger fun t => t < -128 || t > 127
  | .short =>
    checked errno (strtol lib errno value) .notValidInteger fun t => t < -32768 || t > 32767
  | .integer =>
    checked errno (strtol lib errno value) .notValidInteger fun t =>
      t < -2147483648 || t > 2147483647
  | .long => checked errno (strtol lib errno value) .outOfRange fun _ => false
  | .unsignedByte => checked errno (strtoul lib errno value) .notValidInteger fun t => t > 255
  | .unsignedShort => checked errno (strtoul lib errno value) .notValidInteger fun t => t > 65535
  | .unsignedInteger =>
    checked errno (strtoul lib errno value) .notValidInteger fun t => t > 4294967295
  | .unsignedLong => checked errno (strtoul lib errno value) .outOfRange fun _ => false

/-! ## What the function is for -/

inductive Represents : List UInt8 → Int → Prop where
  | plain (digits : List UInt8) (hne : digits ≠ []) (hdigits : ∀ d ∈ digits, isDigit d = true) :
    Represents digits (decimal digits)
  | plus (digits : List UInt8) (hne : digits ≠ []) (hdigits : ∀ d ∈ digits, isDigit d = true) :
    Represents (43 :: digits) (decimal digits)
  | minus (digits : List UInt8) (hne : digits ≠ []) (hdigits : ∀ d ∈ digits, isDigit d = true) :
    Represents (45 :: digits) (-(decimal digits : Int))

namespace IntegerType

def IsSigned : IntegerType → Prop
  | byte | short | integer | long => True
  | _ => False

def max : IntegerType → Int
  | byte => 2 ^ 7 - 1
  | short => 2 ^ 15 - 1
  | integer => 2 ^ 31 - 1
  | long => 2 ^ 63 - 1
  | unsignedByte => 2 ^ 8 - 1
  | unsignedShort => 2 ^ 16 - 1
  | unsignedInteger => 2 ^ 32 - 1
  | unsignedLong => 2 ^ 64 - 1

def min : IntegerType → Int
  | byte => -2 ^ 7
  | short => -2 ^ 15
  | integer => -2 ^ 31
  | long => -2 ^ 63
  | _ => 0

def InRange (type : IntegerType) (v : Int) : Prop := type.min ≤ v ∧ v ≤ type.max

instance (type : IntegerType) (v : Int) : Decidable (type.InRange v) :=
  inferInstanceAs (Decidable (_ ∧ _))

end IntegerType

structure Call where
  lib : Library
  errno : Int
  type : IntegerType
  text : List UInt8

namespace Call

variable (c : Call)

def run : Except Rejection Int := adiosParseScalarString c.lib c.errno c.text c.type

/-- A value is given exactly for the representation of a number of the type, and it is that
number. -/
def Right : Prop := ∀ v, c.run = .ok v ↔ Represents c.text v ∧ c.type.InRange v

/-- An overflow that cannot be seen, as `errno` is `ERANGE` before the call, and the number is not
compared with limits. -/
def Missed (v : Int) : Prop :=
  c.errno = erange ∧
    (c.type = .long ∧ ¬(-2 ^ 63 ≤ v ∧ v < 2 ^ 63) ∨
      c.type = .unsignedLong ∧ ¬(-2 ^ 64 < v ∧ v < 2 ^ 64))

def Wraps (v : Int) : Prop := ¬c.type.IsSigned ∧ -2 ^ 64 < v ∧ v < 0 ∧ v + 2 ^ 64 ≤ c.type.max

def Takes (v : Int) : Prop := c.type.InRange v ∨ c.Missed v ∨ c.Wraps v

/-- The empty string is refused by the library, a text with white space in front is not the
representation of a number that is taken, and a representation not that of one that is taken
wrongly. -/
structure Clear : Prop where
  empty : c.text = [] → ¬(c.lib.setsEinval = true → c.errno = einval)
  space : ∀ first rest, c.text = first :: rest → isSpace first = true →
    ∀ v, Represents (c.text.dropWhile isSpace) v → ¬c.Takes v
  number : ∀ v, Represents c.text v → ¬c.Missed v ∧ ¬c.Wraps v

end Call

/-! ## What is converted -/

section Subject

variable {text digits : List UInt8} {c : UInt8} {v : Int}

theorem not_isSpace_of_isDigit (h : isDigit c = true) : isSpace c = false := by
  unfold isDigit at h
  unfold isSpace
  rw [Bool.and_eq_true, decide_eq_true_eq, decide_eq_true_eq, UInt8.le_iff_toNat_le,
    UInt8.le_iff_toNat_le] at h
  have hlow : 48 ≤ c.toNat := h.1
  rw [Bool.or_eq_false_iff, Bool.and_eq_false_iff, decide_eq_false_iff_not, decide_eq_false_iff_not,
    decide_eq_false_iff_not, UInt8.le_iff_toNat_le, UInt8.le_iff_toNat_le, ← UInt8.toNat_inj]
  exact ⟨fun heq => by rw [heq] at hlow; exact absurd hlow (by decide),
    .inr fun hle => absurd (Nat.le_trans hlow hle) (by decide)⟩

def Subject.number (s : Subject) : Int :=
  if s.negative then -(decimal s.digits : Int) else decimal s.digits

theorem takeWhile_isDigit (h : ∀ d ∈ digits, isDigit d = true) :
    digits.takeWhile isDigit = digits ∧ digits.dropWhile isDigit = [] :=
  ⟨takeWhile_eq_self_iff.mpr h, dropWhile_eq_nil_iff.mpr h⟩

theorem subject_of_represents (h : Represents (text.dropWhile isSpace) v) :
    ∃ s, subject text = some s ∧ s.rest = [] ∧ s.number = v := by
  unfold subject
  generalize text.dropWhile isSpace = body at h
  cases h with
  | plain _ hne hdigits =>
    obtain ⟨htake, hdrop⟩ := takeWhile_isDigit hdigits
    cases body with
    | nil => exact absurd rfl hne
    | cons c cs =>
      have hc := hdigits c mem_cons_self
      have hminus : c ≠ 45 := by
        rintro rfl
        exact absurd hc (by decide)
      have hplus : c ≠ 43 := by
        rintro rfl
        exact absurd hc (by decide)
      refine ⟨⟨false, c :: cs, []⟩, ?_, rfl, rfl⟩
      simp only [if_neg hminus, if_neg hplus, htake, hdrop, if_neg hne]
  | plus digits hne hdigits =>
    obtain ⟨htake, hdrop⟩ := takeWhile_isDigit hdigits
    refine ⟨⟨false, digits, []⟩, ?_, rfl, rfl⟩
    simp only [if_neg (show (43 : UInt8) ≠ 45 by decide), if_pos, htake, hdrop, if_neg hne]
  | minus digits hne hdigits =>
    obtain ⟨htake, hdrop⟩ := takeWhile_isDigit hdigits
    refine ⟨⟨true, digits, []⟩, ?_, rfl, rfl⟩
    simp only [if_pos, htake, hdrop, if_neg hne]

theorem represents_of_subject {s : Subject} (h : subject text = some s) (hrest : s.rest = []) :
    Represents (text.dropWhile isSpace) s.number := by
  unfold subject at h
  generalize text.dropWhile isSpace = body at h ⊢
  have hall {l : List UInt8} (hdrop : l.dropWhile isDigit = []) :
      (∀ d ∈ l, isDigit d = true) ∧ l.takeWhile isDigit = l := by
    have hdigits := dropWhile_eq_nil_iff.mp hdrop
    exact ⟨hdigits, takeWhile_eq_self_iff.mpr hdigits⟩
  cases body with
  | nil => cases h
  | cons c cs =>
    by_cases hminus : c = 45
    · subst hminus
      simp only [if_pos] at h
      split_ifs at h with hnone
      cases h
      obtain ⟨hdigits, htake⟩ := hall hrest
      rw [htake] at hnone ⊢
      exact .minus cs hnone hdigits
    · by_cases hplus : c = 43
      · subst hplus
        simp only [if_neg hminus, if_pos] at h
        split_ifs at h with hnone
        cases h
        obtain ⟨hdigits, htake⟩ := hall hrest
        rw [htake] at hnone ⊢
        exact .plus cs hnone hdigits
      · simp only [if_neg hminus, if_neg hplus] at h
        split_ifs at h with hnone
        cases h
        obtain ⟨hdigits, htake⟩ := hall hrest
        rw [htake] at hnone ⊢
        exact .plain (c :: cs) hnone hdigits

end Subject

/-! ## One number -/

section Number

def IntegerType.number : IntegerType → Bool → Nat → Int × Bool
  | .byte | .short | .integer | .long => signedNumber
  | .unsignedByte | .unsignedShort | .unsignedInteger | .unsignedLong => unsignedNumber

def IntegerType.outside : IntegerType → Int → Bool
  | .byte => fun t => t < -128 || t > 127
  | .short => fun t => t < -32768 || t > 32767
  | .integer => fun t => t < -2147483648 || t > 2147483647
  | .unsignedByte => fun t => t > 255
  | .unsignedShort => fun t => t > 65535
  | .unsignedInteger => fun t => t > 4294967295
  | .long | .unsignedLong => fun _ => false

variable {c : Call} {s : Subject} {v w : Int}

theorem run_eq (c : Call) : ∃ invalid, c.run =
    checked c.errno (convert c.lib c.errno c.text c.type.number) invalid c.type.outside := by
  obtain ⟨lib, errno, type, text⟩ := c
  cases type <;> exact ⟨_, rfl⟩

theorem zero_inRange (type : IntegerType) : type.outside 0 = false ∧ type.InRange 0 := by
  cases type <;> exact ⟨rfl, by decide⟩

theorem checked_eq_ok_iff {errno : Int} {t : Converted} {invalid : Rejection}
    {outside : Int → Bool} : checked errno t invalid outside = .ok v ↔
      t.errno = errno ∧ t.rest = [] ∧ outside t.value = false ∧ t.value = v := by
  unfold checked
  by_cases hinvalid : t.errno ≠ errno ∨ t.rest ≠ []
  · rw [if_pos hinvalid]
    exact iff_of_false (fun h => by cases h) fun h =>
      hinvalid.elim (fun hne => hne h.1) fun hne => hne h.2.1
  · rw [if_neg hinvalid]
    have herrno : t.errno = errno := by
      by_contra hne
      exact hinvalid (.inl hne)
    have hrest : t.rest = [] := by
      by_contra hne
      exact hinvalid (.inr hne)
    cases hout : outside t.value with
    | true => simp
    | false => simp [herrno, hrest]

theorem errno_same_iff (P : Prop) [Decidable P] (errno e : Int) :
    (if P then e else errno) = errno ↔ (P → errno = e) := by
  by_cases hP : P
  · rw [if_pos hP]
    exact ⟨fun h _ => h.symm, fun h => (h hP).symm⟩
  · rw [if_neg hP]
    exact iff_of_true rfl fun h => absurd h hP

theorem run_of_none (hnone : subject c.text = none) : c.run = .ok v ↔
    c.text = [] ∧ (c.lib.setsEinval = true → c.errno = einval) ∧ v = 0 := by
  obtain ⟨invalid, hrun⟩ := run_eq c
  rw [hrun, checked_eq_ok_iff, convert, hnone, errno_same_iff]
  have hzero := (zero_inRange c.type).1
  constructor
  · rintro ⟨herrno, htext, -, rfl⟩
    exact ⟨htext, herrno, rfl⟩
  · rintro ⟨htext, herrno, rfl⟩
    exact ⟨herrno, htext, hzero, rfl⟩

theorem run_of_some (hsome : subject c.text = some s) : c.run = .ok v ↔
    s.rest = [] ∧ ((c.type.number s.negative (decimal s.digits)).2 = true → c.errno = erange) ∧
      c.type.outside (c.type.number s.negative (decimal s.digits)).1 = false ∧
      (c.type.number s.negative (decimal s.digits)).1 = v := by
  obtain ⟨invalid, hrun⟩ := run_eq c
  rw [hrun, checked_eq_ok_iff, convert, hsome, errno_same_iff]
  exact and_left_comm

theorem takes_iff (c : Call) (s : Subject) :
    (((c.type.number s.negative (decimal s.digits)).2 = true → c.errno = erange) ∧
      c.type.outside (c.type.number s.negative (decimal s.digits)).1 = false ↔
        c.Takes s.number) ∧
    (c.type.InRange s.number → (c.type.number s.negative (decimal s.digits)).1 = s.number) := by
  obtain ⟨lib, errno, type, text⟩ := c
  obtain ⟨negative, digits, rest⟩ := s
  generalize hn : decimal digits = n
  unfold Call.Takes Call.Missed Call.Wraps IntegerType.InRange Subject.number
  dsimp only
  rw [hn]
  cases type <;> cases negative <;>
    simp [IntegerType.number, IntegerType.outside, IntegerType.IsSigned, IntegerType.min,
      IntegerType.max, signedNumber, unsignedNumber] <;>
    split_ifs <;> simp <;> omega

end Number

/-! ## Exactly when -/

namespace Call

variable {c : Call} {v : Int}

theorem subject_nil : subject [] = none := rfl

theorem dropWhile_of_represents {text : List UInt8} (h : Represents text v) :
    text.dropWhile isSpace = text := by
  have hfirst {digits : List UInt8} (hne : digits ≠ [])
      (hdigits : ∀ d ∈ digits, isDigit d = true) : digits.dropWhile isSpace = digits := by
    cases digits with
    | nil => exact absurd rfl hne
    | cons d digits =>
      have hd := not_isSpace_of_isDigit (hdigits d mem_cons_self)
      exact dropWhile_cons_of_neg (by simp [hd])
  cases h with
  | plain _ hne hdigits => exact hfirst hne hdigits
  | plus digits hne hdigits => rfl
  | minus digits hne hdigits => rfl

theorem exists_run_iff (c : Call) : (∃ v, c.run = .ok v) ↔
    (c.text = [] ∧ (c.lib.setsEinval = true → c.errno = einval)) ∨
      ∃ v, Represents (c.text.dropWhile isSpace) v ∧ c.Takes v := by
  cases hsubject : subject c.text with
  | none =>
    simp only [run_of_none hsubject]
    constructor
    · rintro ⟨v, htext, herrno, -⟩
      exact .inl ⟨htext, herrno⟩
    · rintro (⟨htext, herrno⟩ | ⟨v, hrepresents, -⟩)
      · exact ⟨0, htext, herrno, rfl⟩
      · obtain ⟨s, hsome, -⟩ := subject_of_represents hrepresents
        rw [hsubject] at hsome
        cases hsome
  | some s =>
    simp only [run_of_some hsubject]
    constructor
    · rintro ⟨v, hrest, herrno, hinside, -⟩
      exact .inr ⟨s.number, represents_of_subject hsubject hrest,
        (takes_iff c s).1.mp ⟨herrno, hinside⟩⟩
    · rintro (⟨htext, -⟩ | ⟨v, hrepresents, htakes⟩)
      · rw [htext, subject_nil] at hsubject
        cases hsubject
      · obtain ⟨s', hsome, hrest, rfl⟩ := subject_of_represents hrepresents
        rw [hsubject] at hsome
        cases hsome
        have htaken := (takes_iff c s).1.mpr htakes
        exact ⟨_, hrest, htaken.1, htaken.2, rfl⟩

theorem run_of_inRange (h : Represents c.text v) (hin : c.type.InRange v) : c.run = .ok v := by
  have htext := dropWhile_of_represents h
  rw [← htext] at h
  obtain ⟨s, hsome, hrest, rfl⟩ := subject_of_represents h
  have htaken := (takes_iff c s).1.mpr (.inl hin)
  exact (run_of_some hsome).mpr ⟨hrest, htaken.1, htaken.2, (takes_iff c s).2 hin⟩

theorem represents_unique {text : List UInt8} {w : Int} (h : Represents text v)
    (h' : Represents text w) : v = w := by
  have htext := dropWhile_of_represents h
  rw [← htext] at h h'
  obtain ⟨s, hsome, -, rfl⟩ := subject_of_represents h
  obtain ⟨s', hsome', -, rfl⟩ := subject_of_represents h'
  rw [hsome] at hsome'
  cases hsome'
  rfl

/-- Exactly then numbers are told from other texts. -/
theorem scalar_right_iff (c : Call) : c.Right ↔ c.Clear := by
  constructor
  · intro h
    have hrun (hex : ∃ v, c.run = .ok v) : ∃ v, Represents c.text v ∧ c.type.InRange v := by
      obtain ⟨v, hv⟩ := hex
      exact ⟨v, (h v).mp hv⟩
    refine ⟨fun htext herrno => ?_, fun first rest htext hspace v hrepresents htakes => ?_,
      fun v hrepresents => ?_⟩
    · obtain ⟨v, hrepresents, -⟩ := hrun ((exists_run_iff c).mpr (.inl ⟨htext, herrno⟩))
      rw [htext] at hrepresents
      cases hrepresents with
      | plain _ hne _ => exact hne rfl
    · obtain ⟨w, hwhole, -⟩ := hrun ((exists_run_iff c).mpr (.inr ⟨v, hrepresents, htakes⟩))
      have hstays := dropWhile_of_represents hwhole
      rw [htext, dropWhile_cons_of_pos hspace] at hstays
      have hlen := (dropWhile_sublist isSpace (l := rest)).length_le
      rw [hstays, length_cons] at hlen
      omega
    · -- a number that is taken wrongly is not in the range of the type
      have hin (htakes : c.Takes v) : c.type.InRange v := by
        rw [← dropWhile_of_represents hrepresents] at hrepresents
        obtain ⟨w, hwhole, hin⟩ := hrun ((exists_run_iff c).mpr (.inr ⟨v, hrepresents, htakes⟩))
        rw [dropWhile_of_represents hwhole] at hrepresents
        rwa [represents_unique hrepresents hwhole]
      constructor
      · intro hmissed
        have hrange := hin (.inr (.inl hmissed))
        obtain ⟨-, ⟨htype, hout⟩ | ⟨htype, hout⟩⟩ := hmissed
        · rw [htype] at hrange
          exact hout ⟨hrange.1, Int.lt_add_one_of_le hrange.2⟩
        · rw [htype] at hrange
          exact hout ⟨Int.lt_of_lt_of_le (by decide) hrange.1, Int.lt_add_one_of_le hrange.2⟩
      · intro hwraps
        have hrange := hin (.inr (.inr hwraps))
        obtain ⟨hunsigned, -, hneg, -⟩ := hwraps
        have hmin : c.type.min = 0 := by
          cases htype : c.type <;> rw [htype] at hunsigned <;>
            first | rfl | exact absurd trivial hunsigned
        have hle := hrange.1
        omega
  · intro h v
    constructor
    · intro hv
      rcases (exists_run_iff c).mp ⟨v, hv⟩ with ⟨htext, herrno⟩ | ⟨w, hrepresents, htakes⟩
      · exact absurd herrno (h.empty htext)
      · have htext : c.text.dropWhile isSpace = c.text := by
          cases hc : c.text with
          | nil => rfl
          | cons first rest =>
            refine dropWhile_cons_of_neg fun hspace => ?_
            exact h.space first rest hc hspace w hrepresents htakes
        rw [htext] at hrepresents
        have hnumber := h.number w hrepresents
        have hin : c.type.InRange w := by
          rcases htakes with hin | hmissed | hwraps
          · exact hin
          · exact absurd hmissed hnumber.1
          · exact absurd hwraps hnumber.2
        have hw := run_of_inRange hrepresents hin
        rw [hv] at hw
        cases hw
        exact ⟨hrepresents, hin⟩
    · rintro ⟨hrepresents, hin⟩
      exact run_of_inRange hrepresents hin

/-- "-1" as an `unsigned long`. -/
def minusOne : Call := ⟨⟨false⟩, 0, .unsignedLong, [45, 49]⟩

/-- It is taken for the largest number. -/
theorem not_right_minusOne : ¬minusOne.Right := by
  intro h
  obtain ⟨hlargest, -⟩ := (h 18446744073709551615).mp (by decide)
  have hrepresents : Represents [45, 49] (-(decimal [49] : Int)) :=
    .minus [49] (by decide) (forall_mem_singleton.mpr rfl)
  have heq := represents_unique hlargest hrepresents
  exact absurd heq (by decide)

end Call

end Adios.ScalarString
