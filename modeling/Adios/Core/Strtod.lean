import Adios.Core.ScalarString
import Adios.Transforms.SpecParse
import Mathlib.Algebra.Order.Field.Rat

/-!
# Core — numbers with a fraction in a text

`strtod` of the C library: white space, a sign, and then decimal digits, hexadecimal digits or the
name of what is no number. The value is the one before it is rounded.
-/

namespace Adios.Strtod

open List
open Aplod (isSpace)
open ScalarString (isDigit erange einval)
open SpecParse (sameIgnoringCase)

abbrev Text := List UInt8

inductive Number where
  | finite (q : ℚ)
  | infinite (negative : Bool)
  | nan

def sign : Text → Bool × Text
  | [] => (false, [])
  | c :: cs => if c = 45 then (true, cs) else if c = 43 then (false, cs) else (false, c :: cs)

def isLetter (first last : UInt8) (c : UInt8) : Bool :=
  first ≤ SpecParse.toLower c && SpecParse.toLower c ≤ last

def isHexDigit (c : UInt8) : Bool := isDigit c || isLetter 97 102 c

def digitValue (c : UInt8) : Nat :=
  if isDigit c then c.toNat - 48 else (SpecParse.toLower c).toNat - 87

def digitsValue (base : Nat) (digits : Text) : Nat :=
  digits.foldl (fun n c => n * base + digitValue c) 0

def mantissa (digit : UInt8 → Bool) (text : Text) : Option (Text × Text × Text) :=
  let whole := text.takeWhile digit
  let (fraction, rest) :=
    match text.dropWhile digit with
    | [] => ([], [])
    | c :: cs => if c = 46 then (cs.takeWhile digit, cs.dropWhile digit) else ([], c :: cs)
  if whole ++ fraction = [] then none else some (whole, fraction, rest)

def exponent (letter : UInt8) : Text → Int × Text
  | [] => (0, [])
  | c :: cs =>
    let (negative, text) := sign cs
    let digits := text.takeWhile isDigit
    if SpecParse.toLower c = letter ∧ digits ≠ [] then
      (if negative then -digitsValue 10 digits else digitsValue 10 digits, text.dropWhile isDigit)
    else (0, c :: cs)

def decimalNumber (text : Text) : Option (ℚ × Text) :=
  (mantissa isDigit text).map fun (whole, fraction, rest) =>
    let (e, rest) := exponent 101 rest
    (digitsValue 10 (whole ++ fraction) * 10 ^ (e - fraction.length), rest)

def hexNumber : Text → Option (ℚ × Text)
  | c :: x :: text =>
    if c = 48 ∧ SpecParse.toLower x = 120 then
      (mantissa isHexDigit text).map fun (whole, fraction, rest) =>
        let (e, rest) := exponent 112 rest
        (digitsValue 16 (whole ++ fraction) * 2 ^ (e - 4 * fraction.length), rest)
    else none
  | _ => none

/-- The characters in parentheses behind "`nan`". -/
def nanRest (text : Text) : Text :=
  match text with
  | [] => []
  | c :: cs =>
    match cs.dropWhile fun c => isDigit c || isLetter 97 122 c || c = 95 with
    | [] => text
    | d :: rest => if c = 40 ∧ d = 41 then rest else text

def specialNumber (negative : Bool) (text : Text) : Option (Number × Text) :=
  if sameIgnoringCase (text.take 8) (chars "infinity") then some (.infinite negative, text.drop 8)
  else if sameIgnoringCase (text.take 3) (chars "inf") then some (.infinite negative, text.drop 3)
  else if sameIgnoringCase (text.take 3) (chars "nan") then some (.nan, nanRest (text.drop 3))
  else none

/-- `strtod`: the number and `*end`, unless there is no number. -/
def strtod (text : Text) : Option (Number × Text) :=
  let (negative, text) := sign (text.dropWhile isSpace)
  match (hexNumber text).or (decimalNumber text) with
  | some (q, rest) => some (.finite (if negative then -q else q), rest)
  | none => specialNumber negative text

/-- What the C standard leaves open: `errno` where no number is found, and where it is below the
normal doubles. -/
structure Library extends ScalarString.Library where
  setsErange : ℚ → Bool

/-- `ERANGE`: a number that is rounded to none of the doubles, or to one that is below the normal
ones. -/
def outOfRange (lib : Library) : Number → Bool
  | .finite q => |q| ≥ 2 ^ 1024 - 2 ^ 970 || (q ≠ 0 && |q| < 1 / 2 ^ 1022 && lib.setsErange q)
  | _ => false

/-- `errno` behind a call. -/
def errnoBehind (lib : Library) (errno : Int) (text : Text) : Int :=
  match strtod text with
  | some (n, _) => if outOfRange lib n then erange else errno
  | none => if lib.setsEinval then einval else errno

def IsNumber (text : Text) : Bool :=
  match strtod text with
  | some (_, rest) => rest = []
  | none => false

/-- `*end` is the end of the text. -/
def endsThere (text : Text) : Bool := (strtod text).elim text Prod.snd = []

theorem errnoBehind_errnoBehind (lib : Library) (errno : Int) (text : Text) :
    errnoBehind lib (errnoBehind lib errno text) text = errnoBehind lib errno text := by
  unfold errnoBehind
  cases strtod text with
  | none => dsimp only; split_ifs <;> rfl
  | some n => dsimp only; split_ifs <;> rfl

theorem endsThere_eq {text : Text} (h : text ≠ []) : endsThere text = IsNumber text := by
  unfold endsThere IsNumber
  cases strtod text with
  | none => exact decide_eq_false h
  | some n => rfl

section

variable {digits : Text} (hdigits : ∀ c ∈ digits, isDigit c = true) (hne : digits ≠ [])

include hdigits hne

theorem strtod_digits (negative : Bool) :
    strtod (if negative then 45 :: digits else digits) =
      some (.finite (if negative then -digitsValue 10 digits else digitsValue 10 digits), []) := by
  obtain ⟨c, cs, rfl⟩ := exists_cons_of_ne_nil hne
  obtain ⟨hc, hcs⟩ := forall_mem_cons.mp hdigits
  have hlow : 48 ≤ c ∧ c ≤ 57 := by simpa [isDigit] using hc
  have hsign : sign ((if negative then 45 :: c :: cs else c :: cs).dropWhile isSpace) =
      (negative, c :: cs) := by
    cases negative with
    | true => rfl
    | false =>
      have hspace : isSpace c = false := by
        unfold isSpace
        grind
      rw [if_neg Bool.false_ne_true, dropWhile_cons_of_neg (by simp [hspace])]
      dsimp only [sign]
      rw [if_neg (by grind), if_neg (by grind)]
  have hhex : hexNumber (c :: cs) = none := by
    cases cs with
    | nil => rfl
    | cons d cs =>
      have hd : 48 ≤ d ∧ d ≤ 57 := by simpa [isDigit] using hcs d mem_cons_self
      refine if_neg fun hx => ?_
      have hlower := hx.2
      unfold SpecParse.toLower at hlower
      split at hlower <;> grind
  have hdecimal : decimalNumber (c :: cs) = some ((digitsValue 10 (c :: cs) : ℚ), []) := by
    unfold decimalNumber mantissa
    rw [takeWhile_eq_self_iff.mpr hdigits, dropWhile_eq_nil_iff.mpr hdigits]
    simp [exponent]
  unfold strtod
  rw [hsign]
  dsimp only
  rw [hhex, hdecimal]
  rfl

end

end Adios.Strtod
