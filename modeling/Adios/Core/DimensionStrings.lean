import Adios.Core.ScalarString
import Adios.Lists.Separated
import Adios.Transforms.SpecParse

/-!
# Core — the dimensions of a variable

`adios_common_define_var`: three strings with the local dimensions, the global dimensions and the
offsets are split at their commas, and each item is a number or the name of something in the group.
-/

namespace Adios.DefineVar

open List Aplod Separated

abbrev Text := List UInt8

/-! ## The tokenizer -/

/-- `trim_spaces`; "`strcpy (t, p)`" copies from the front. -/
def trimSpaces : Text → Text
  | [] => []
  | c :: str => if c = 32 then trimSpaces str else c :: trimSpaces str

/-- "`strtok (.., ",")`", with what is left for the next call. -/
def strtok (str : Text) : Option (Text × Text) :=
  match str.dropWhile (· = 44) with
  | [] => none
  | c :: str => some (before 44 (c :: str), (behind 44 (c :: str)).getD [])

/-- So many calls of `strtok`, and a `strdup` of what each of them returns. -/
def tokens : Nat → Text → Except Fault (List Text)
  | 0, _ => .ok []
  | n + 1, str =>
    match strtok str with
    | none => .error .wildPointer
    | some (token, str) => do
      let rest ← tokens n str
      .ok (token :: rest)

/-- `tokenize_dimensions` -/
def tokenizeDimensions : Option Text → Except Fault (List Text)
  | none => .ok []
  | some str =>
    let saveStr := trimSpaces str
    if saveStr = [] then .ok [] else tokens (saveStr.count 44 + 1) saveStr

/-! ## The definition -/

/-- `struct adios_var_struct`, which is at an address. -/
structure Var where
  addr : Nat
  path : Text
  name : Text
  type : Datatype
  id : UInt16

/-- `struct adios_attribute_struct` -/
structure Attribute where
  path : Text
  name : Text
  type : Datatype
  var : Option Var

structure Names where
  vars : List Var
  attributes : List Attribute
  timeIndexName : Option Text
  allUniqueVarNames : Bool

/-- The `is_dim` of the variable at an address. -/
abbrev Flags := Nat → Bool

/-- `struct adios_group_struct` -/
structure Group where
  names : Names
  isDim : Flags
  memberCount : UInt16

/-- The key of `genkey`, and what `adios_find_attribute_by_name` compares. -/
def fullPath (path name : Text) : Text :=
  if path = [] then name else if path = [47] then 47 :: name else path ++ 47 :: name

/-- `adios_find_var_by_name`; of variables with one key the table keeps the first. -/
def findVarByName (g : Names) (name : Text) : Option Var :=
  g.vars.find? fun v => fullPath v.path v.name = name

/-- What `adios_find_attribute_by_name` looks for. -/
def Attribute.isNamed (g : Names) (name : Text) (a : Attribute) : Bool :=
  SpecParse.sameIgnoringCase name a.name ||
    !g.allUniqueVarNames && SpecParse.sameIgnoringCase name (fullPath a.path a.name)

/-- "`!strcasecmp (g->time_index_name, dimension)`" -/
def isTimeIndex (g : Names) (name : Text) : Bool :=
  g.timeIndexName.any (SpecParse.sameIgnoringCase · name)

/-- `adios_int_is_var` -/
def intIsVar : Text → Bool
  | [] => true
  | c :: cs => !((c = 45 || ScalarString.isDigit c) && cs.all ScalarString.isDigit)

/-- "the integral numeric types are all fine" -/
def integral : Datatype → Bool
  | .string | .real | .double | .longDouble | .complex | .doubleComplex => false
  | _ => true

def Attribute.dimensionType (a : Attribute) : Datatype := (a.var.map Var.type).getD a.type

inductive Field where
  | dimension | global | offset
  deriving DecidableEq

inductive Target where
  | number
  | time
  | var (v : Var)
  | attr (a : Attribute)
  | invalidType
  | unknown

def lookUp (g : Names) (field : Field) (s : Text) : Target :=
  if field = .dimension ∧ isTimeIndex g s then .time
  else if ¬intIsVar s then .number
  else
    match findVarByName g s with
    | some v => if integral v.type then .var v else .invalidType
    | none =>
      match g.attributes.find? (·.isNamed g s) with
      | some a => if integral a.dimensionType then .attr a else .invalidType
      | none => if isTimeIndex g s then .time else .unknown

/-- `struct adios_dimension_item_struct` -/
structure Item where
  rank : UInt64
  var : Option Var
  attr : Option Attribute
  timeIndex : Bool

/-- `struct adios_dimension_struct` -/
structure Dimension where
  dimension : Item
  globalDimension : Item
  localOffset : Item

/-- The errors that end in "`return 0;`". -/
inductive Rejection where
  | invalidDimension | invalidGlobalDimension | invalidOffset | invalidVarAsDimension

def Field.invalid : Field → Rejection
  | .dimension => .invalidDimension
  | .global => .invalidGlobalDimension
  | .offset => .invalidOffset

/-- `strtol` -/
def strtol (s : Text) : Int :=
  (ScalarString.signedNumber (decide (textValue s < 0)) (textValue s).natAbs).1

/-- "`atoi (dimension)`", and `strtol` for the other two. -/
def Field.rank : Field → Text → Except Fault UInt64
  | .dimension, s => do .ok (UInt64.ofInt (← atoi s))
  | _, s => .ok (UInt64.ofInt (strtol s))

/-- What a part of `adios_parse_dimension` leaves of the flags, and an error or what it sets. -/
abbrev Parsed (α : Type) := Except Fault (Flags × Except Rejection α)

/-- "`var->is_dim = adios_flag_yes;`" -/
def setIsDim (isDim : Flags) : Option Var → Flags
  | none => isDim
  | some v => Function.update isDim v.addr true

/-- One of the three parts of `adios_parse_dimension`. -/
def parseItem (g : Names) (isDim : Flags) (field : Field) (s : Text) : Parsed Item :=
  match lookUp g field s with
  | .number => (field.rank s).map fun rank => (isDim, .ok ⟨rank, none, none, false⟩)
  | .time => .ok (isDim, .ok ⟨0, none, none, true⟩)
  | .var v => .ok (setIsDim isDim (some v), .ok ⟨0, some v, none, false⟩)
  | .attr a => .ok (setIsDim isDim a.var, .ok ⟨0, none, some a, false⟩)
  | .invalidType => .ok (isDim, .error .invalidVarAsDimension)
  | .unknown => .ok (isDim, .error field.invalid)

def andThen {α β : Type} (x : Parsed α) (next : Flags → α → Parsed β) : Parsed β :=
  match x with
  | .error fault => .error fault
  | .ok (isDim, .error e) => .ok (isDim, .error e)
  | .ok (isDim, .ok a) => next isDim a

structure Entry where
  dim : Text
  gDim : Text
  loDim : Text

/-- `adios_parse_dimension` -/
def parseDimension (g : Names) (isDim : Flags) (e : Entry) : Parsed Dimension :=
  andThen (parseItem g isDim .dimension e.dim) fun isDim dimension =>
  andThen (parseItem g isDim .global e.gDim) fun isDim globalDimension =>
  andThen (parseItem g isDim .offset e.loDim) fun isDim localOffset =>
  .ok (isDim, .ok ⟨dimension, globalDimension, localOffset⟩)

/-- "`while (i < dim_count)`" -/
def defineDimensions (g : Names) (isDim : Flags) : List Entry → Parsed (List Dimension)
  | [] => .ok (isDim, .ok [])
  | e :: es =>
    andThen (parseDimension g isDim e) fun isDim d =>
    andThen (defineDimensions g isDim es) fun isDim ds =>
    .ok (isDim, .ok (d :: ds))

/-- `"0"` where the other strings have fewer items. -/
def entries (dims gDims loDims : List Text) : List Entry :=
  dims.zipIdx.map fun (dim, i) => ⟨dim, (gDims[i]?).getD [48], (loDims[i]?).getD [48]⟩

/-- `dup_path` -/
def dupPath (path : Text) : Text :=
  match (path.reverse.dropWhile (· = 47)).reverse with
  | [] => path.take 1
  | c :: cs => c :: cs

/-- The arguments of `adios_common_define_var`, and where its variable is allocated. -/
structure Input where
  group : Group
  addr : Nat
  name : Text
  path : Option Text
  type : Datatype
  dimensions : Option Text
  globalDimensions : Option Text
  localOffsets : Option Text

def Input.finish (q : Input) : Flags × Except Rejection (List Dimension) →
    Group × Option (Var × List Dimension)
  | (isDim, .error _) => ({ q.group with isDim }, none)
  | (isDim, .ok ds) =>
    let memberCount := q.group.memberCount + 1
    let v : Var := ⟨q.addr, dupPath (q.path.getD []), q.name, q.type, memberCount⟩
    (⟨{ q.group.names with vars := q.group.names.vars ++ [v] },
      Function.update isDim v.addr false, memberCount⟩, some (v, ds))

/-- `adios_common_define_var`: the group, and the variable with its dimensions if 0 is not returned.
-/
def Input.defineVar (q : Input) : Except Fault (Group × Option (Var × List Dimension)) :=
  if q.dimensions.getD [] = [] then .ok (q.finish (q.group.isDim, .ok []))
  else do
    let dims ← tokenizeDimensions q.dimensions
    let gDims ← tokenizeDimensions q.globalDimensions
    let loDims ← tokenizeDimensions q.localOffsets
    let r ← defineDimensions q.group.names q.group.isDim (entries dims gDims loDims)
    .ok (q.finish r)

/-! ## What the strings mean -/

def items (str : Option Text) : List Text :=
  let text := (str.getD []).filter (· ≠ 32)
  if text = [] then [] else text.splitOn 44

/-- A number that a `long` has. -/
def IsLong (n : Int) : Prop := -9223372036854775808 ≤ n ∧ n < 9223372036854775808

inductive Holds (g : Names) (s : Text) : Item → Prop where
  | number (hnum : intIsVar s = false) (hfits : IsLong (textValue s)) :
    Holds g s ⟨UInt64.ofInt (textValue s), none, none, false⟩
  | var (v : Var) (hmem : v ∈ g.vars) (hname : fullPath v.path v.name = s)
    (htype : integral v.type = true) : Holds g s ⟨0, some v, none, false⟩
  | attr (a : Attribute) (hmem : a ∈ g.attributes) (hname : a.isNamed g s = true)
    (htype : integral a.dimensionType = true) : Holds g s ⟨0, none, some a, false⟩
  | time (htime : isTimeIndex g s = true) : Holds g s ⟨0, none, none, true⟩

structure Entry.Held (g : Names) (e : Entry) (d : Dimension) : Prop where
  dimension : Holds g e.dim d.dimension
  globalDimension : Holds g e.gDim d.globalDimension
  localOffset : Holds g e.loDim d.localOffset

def Input.entries (q : Input) : List Entry :=
  DefineVar.entries (items q.dimensions) (items q.globalDimensions) (items q.localOffsets)

/-- A string is split at its commas, and then there is a dimension for each item, or the group is
what it was. -/
structure Input.Right (q : Input) : Prop where
  tokenized : ∀ str ∈ [q.dimensions, q.globalDimensions, q.localOffsets],
    tokenizeDimensions str = .ok (items str)
  defined : ∃ g r, q.defineVar = .ok (g, r) ∧
    match r with
    | none => g = q.group
    | some (v, ds) => g.names.vars = q.group.names.vars ++ [v] ∧
      Forall₂ (Entry.Held q.group.names) q.entries ds

/-! ## When it is right -/

structure Piece where
  field : Field
  text : Text

def Entry.pieces (e : Entry) : List Piece :=
  [⟨.dimension, e.dim⟩, ⟨.global, e.gDim⟩, ⟨.offset, e.loDim⟩]

def Input.pieces (q : Input) : List Piece := q.entries.flatMap Entry.pieces

namespace Piece

variable (g : Names) (p : Piece)

def Resolved : Prop := lookUp g p.field p.text ≠ .invalidType ∧ lookUp g p.field p.text ≠ .unknown

/-- A number that is a dimension is one that an `int` has. -/
def Readable : Prop :=
  p.field = .dimension → lookUp g p.field p.text = .number → IsInt (textValue p.text)

/-- A number is one that a `long` has. -/
def Exact : Prop := lookUp g p.field p.text = .number → IsLong (textValue p.text)

def marks : Option Var :=
  match lookUp g p.field p.text with
  | .var v => some v
  | .attr a => a.var
  | _ => none

end Piece

/-- No string has an empty item. All items are known and their numbers not too large, or there is an
item that is not, and those before it make no variable a dimension that has been none. -/
structure Input.Clear (q : Input) : Prop where
  noEmpty : ∀ str ∈ [q.dimensions, q.globalDimensions, q.localOffsets], [] ∉ items str
  parsed : (∀ p ∈ q.pieces, p.Resolved q.group.names ∧ p.Readable q.group.names ∧
      p.Exact q.group.names) ∨
    ∃ pre p post, q.pieces = pre ++ p :: post ∧ ¬p.Resolved q.group.names ∧
      ∀ p' ∈ pre, p'.Resolved q.group.names ∧ p'.Readable q.group.names ∧
        ∀ v ∈ p'.marks q.group.names, q.group.isDim v.addr = true

/-! ## The tokens -/

theorem trimSpaces_eq (str : Text) : trimSpaces str = str.filter (· ≠ 32) := by
  induction str with
  | nil => rfl
  | cons c str ih =>
    rw [trimSpaces, ih]
    by_cases hc : c = 32
    · rw [if_pos hc, filter_cons_of_neg (by simpa using hc)]
    · rw [if_neg hc, filter_cons_of_pos (by simpa using hc)]

def words (str : Text) : List Text := (str.splitOn 44).filter (· ≠ [])

theorem strtok_eq (str : Text) :
    (strtok str = none ∧ words str = []) ∨
      ∃ token rest, strtok str = some (token, rest) ∧ words str = token :: words rest := by
  induction str with
  | nil => exact .inl ⟨rfl, rfl⟩
  | cons c str ih =>
    by_cases hc : c = 44
    · -- a comma in front is skipped
      have hskip : strtok (c :: str) = strtok str := by
        rw [strtok, strtok, dropWhile_cons_of_pos (by simpa using hc)]
      have hwords : words (c :: str) = words str := by
        have hbehind : behind 44 (c :: str) = some str := if_pos hc
        rw [words, splitOn_of_behind hbehind, before, if_pos hc]
        exact filter_cons_of_neg (by simp)
      rw [hskip, hwords]
      exact ih
    · have hstrtok : strtok (c :: str) =
          some (before 44 (c :: str), (behind 44 (c :: str)).getD []) := by
        rw [strtok, dropWhile_cons_of_neg (by simpa using hc)]
      refine .inr ⟨_, _, hstrtok, ?_⟩
      have hne : before 44 (c :: str) ≠ [] := by
        rw [before, if_neg hc]
        exact cons_ne_nil _ _
      cases hb : behind 44 (c :: str) with
      | none =>
        rw [words, splitOn_of_behind_eq_none hb, before_of_behind_eq_none hb]
        exact filter_cons_of_pos (by simp)
      | some rest =>
        rw [words, splitOn_of_behind hb]
        exact filter_cons_of_pos (by simpa using hne)

theorem tokens_eq (n : Nat) (str : Text) :
    tokens n str = if n ≤ (words str).length then .ok ((words str).take n)
      else .error .wildPointer := by
  induction n generalizing str with
  | zero => rw [tokens, if_pos (Nat.zero_le _), take_zero]
  | succ n ih =>
    rw [tokens]
    rcases strtok_eq str with ⟨hnone, hwords⟩ | ⟨token, rest, hsome, hwords⟩
    · rw [hnone, hwords]
      exact (if_neg (Nat.not_succ_le_zero n)).symm
    · rw [hsome, hwords]
      dsimp only
      rw [ih, length_cons, take_succ_cons]
      by_cases hn : n ≤ (words rest).length
      · rw [if_pos hn, if_pos (Nat.succ_le_succ hn)]
        rfl
      · rw [if_neg hn, if_neg fun h => hn (Nat.le_of_succ_le_succ h)]
        rfl

theorem tokenizeDimensions_iff (str : Option Text) :
    tokenizeDimensions str = .ok (items str) ↔ [] ∉ items str := by
  cases str with
  | none => exact iff_of_true rfl not_mem_nil
  | some str =>
    rw [tokenizeDimensions, items, Option.getD_some, ← trimSpaces_eq]
    split_ifs with hnil
    · exact iff_of_true rfl not_mem_nil
    · generalize trimSpaces str = text
      rw [← length_splitOn, tokens_eq, words]
      constructor
      · intro h hmem
        rw [if_neg] at h
        · cases h
        · exact Nat.not_le.mpr (length_filter_lt_length_iff_exists.mpr ⟨[], hmem, by simp⟩)
      · intro h
        have hall : (text.splitOn 44).filter (· ≠ []) = text.splitOn 44 :=
          filter_eq_self.mpr fun item hitem => by
            have hne : item ≠ [] := fun heq => h (heq ▸ hitem)
            simpa using hne
        rw [hall, if_pos (Nat.le_refl _), take_length]

/-! ## The items -/

variable {g : Names}

theorem lookUp_spec (field : Field) (s : Text) :
    match lookUp g field s with
    | .number => intIsVar s = false
    | .time => isTimeIndex g s = true
    | .var v => v ∈ g.vars ∧ fullPath v.path v.name = s ∧ integral v.type = true
    | .attr a => a ∈ g.attributes ∧ a.isNamed g s = true ∧ integral a.dimensionType = true
    | _ => True := by
  unfold lookUp
  by_cases htime : field = .dimension ∧ isTimeIndex g s = true
  · rw [if_pos htime]
    exact htime.2
  rw [if_neg htime]
  by_cases hvar : ¬intIsVar s = true
  · rw [if_pos hvar]
    exact Bool.eq_false_iff.mpr hvar
  rw [if_neg hvar]
  cases hv : findVarByName g s with
  | some v =>
    dsimp only
    split_ifs with htype
    · have hname := List.find?_some hv
      exact ⟨mem_of_find?_eq_some hv, of_decide_eq_true hname, htype⟩
    · trivial
  | none =>
    cases ha : g.attributes.find? (·.isNamed g s) with
    | some a =>
      dsimp only
      split_ifs with htype
      · exact ⟨mem_of_find?_eq_some ha, List.find?_some ha, htype⟩
      · trivial
    | none =>
      dsimp only
      split_ifs with hlast
      · exact hlast
      · trivial

theorem isLong_of_isInt {n : Int} (h : IsInt n) : IsLong n := by
  obtain ⟨hlo, hhi⟩ := h
  exact ⟨by omega, by omega⟩

theorem strtol_of_isLong {s : Text} (h : IsLong (textValue s)) : strtol s = textValue s := by
  obtain ⟨hlo, hhi⟩ := h
  unfold strtol ScalarString.signedNumber
  by_cases hneg : textValue s < 0
  · simp only [hneg, decide_true, ↓reduceIte]
    split_ifs <;> omega
  · simp only [hneg, decide_false, Bool.false_eq_true, ↓reduceIte]
    split_ifs <;> omega

def Piece.value (g : Names) (p : Piece) : Item :=
  match lookUp g p.field p.text with
  | .number => ⟨UInt64.ofInt (strtol p.text), none, none, false⟩
  | .time => ⟨0, none, none, true⟩
  | .var v => ⟨0, some v, none, false⟩
  | .attr a => ⟨0, none, some a, false⟩
  | _ => ⟨0, none, none, false⟩

theorem Piece.holds_value_iff {p : Piece} (h : p.Resolved g) :
    Holds g p.text (p.value g) ↔ p.Exact g := by
  have hspec := @lookUp_spec g p.field p.text
  unfold Piece.Resolved at h
  unfold Piece.Exact Piece.value
  generalize hlook : lookUp g p.field p.text = target at hspec h ⊢
  cases target with
  | number =>
    constructor
    · intro hholds _
      generalize UInt64.ofInt (strtol p.text) = rank at hholds
      cases hholds with
      | number _ hfits => exact hfits
    · intro hexact
      dsimp only
      rw [strtol_of_isLong (hexact rfl)]
      exact .number hspec (hexact rfl)
  | time => exact iff_of_true (.time hspec) fun h => by cases h
  | var v => exact iff_of_true (.var v hspec.1 hspec.2.1 hspec.2.2) fun h => by cases h
  | attr a => exact iff_of_true (.attr a hspec.1 hspec.2.1 hspec.2.2) fun h => by cases h
  | invalidType => exact absurd rfl h.1
  | unknown => exact absurd rfl h.2

/-! ## Items after one another -/

def markAll (g : Names) (isDim : Flags) (ps : List Piece) : Flags :=
  ps.foldl (fun isDim p => setIsDim isDim (p.marks g)) isDim

theorem markAll_eq_iff {isDim : Flags} {ps : List Piece} :
    markAll g isDim ps = isDim ↔ ∀ p ∈ ps, ∀ v ∈ p.marks g, isDim v.addr = true := by
  have hset : ∀ (fl : Flags) (v : Option Var) (a : Nat),
      setIsDim fl v a = true ↔ fl a = true ∨ ∃ w ∈ v, w.addr = a := fun fl v a => by
    cases v with
    | none => simp [setIsDim]
    | some v =>
      by_cases ha : a = v.addr
      · rw [setIsDim, ha, Function.update_self]
        exact iff_of_true rfl (.inr ⟨v, rfl, rfl⟩)
      · rw [setIsDim, Function.update_of_ne ha]
        exact (or_iff_left fun ⟨w, hw, heq⟩ => ha (by cases hw; exact heq.symm)).symm
  have hall : ∀ (qs : List Piece) (fl : Flags) (a : Nat), markAll g fl qs a = true ↔
      fl a = true ∨ ∃ p ∈ qs, ∃ v ∈ p.marks g, v.addr = a := fun qs => by
    induction qs with
    | nil => simp [markAll]
    | cons p qs ih =>
      intro fl a
      have hstep : markAll g fl (p :: qs) = markAll g (setIsDim fl (p.marks g)) qs := rfl
      rw [hstep, ih, hset, exists_mem_cons_iff, or_assoc]
  constructor
  · intro h p hp v hv
    rw [← h]
    exact (hall ps isDim v.addr).mpr (.inr ⟨p, hp, v, hv, rfl⟩)
  · intro h
    funext a
    rw [Bool.eq_iff_iff, hall]
    refine or_iff_left_of_imp ?_
    rintro ⟨p, hp, v, hv, rfl⟩
    exact h p hp v hv

def Piece.Passes (g : Names) (p : Piece) : Prop := p.Resolved g ∧ p.Readable g

/-- What comes of some items: the value of all, an error at the first that is not known, or a number
that `atoi` has no `int` for. -/
inductive Does (g : Names) {α : Type} (isDim : Flags) (ps : List Piece) (a : α) : Parsed α → Prop
  | ok (h : ∀ p ∈ ps, p.Passes g) : Does g isDim ps a (.ok (markAll g isDim ps, .ok a))
  | rejected (pre p post) (e : Rejection) (heq : ps = pre ++ p :: post)
    (hpre : ∀ p' ∈ pre, p'.Passes g) (hp : ¬p.Resolved g) :
    Does g isDim ps a (.ok (markAll g isDim pre, .error e))
  | fault (pre p post) (e : Fault) (heq : ps = pre ++ p :: post) (hpre : ∀ p' ∈ pre, p'.Passes g)
    (hp : p.Resolved g) (hread : ¬p.Readable g) : Does g isDim ps a (.error e)

variable {isDim : Flags}

theorem Does.andThen {α β : Type} {ps qs : List Piece} {a : α} {b : β} {x : Parsed α}
    {next : Flags → α → Parsed β} (h : Does g isDim ps a x)
    (hnext : ∀ isDim, Does g isDim qs b (next isDim a)) :
    Does g isDim (ps ++ qs) b (andThen x next) := by
  cases h with
  | ok h =>
    have hrest := hnext (markAll g isDim ps)
    have hmark (rs : List Piece) : markAll g (markAll g isDim ps) rs = markAll g isDim (ps ++ rs) :=
      foldl_append.symm
    show Does g isDim (ps ++ qs) b (next (markAll g isDim ps) a)
    generalize next (markAll g isDim ps) a = r at hrest ⊢
    cases hrest with
    | ok h' =>
      rw [hmark]
      exact .ok (forall_mem_append.mpr ⟨h, h'⟩)
    | rejected pre p post e heq hpre hp =>
      rw [hmark]
      exact .rejected (ps ++ pre) p post e (by rw [heq, append_assoc])
        (forall_mem_append.mpr ⟨h, hpre⟩) hp
    | fault pre p post e heq hpre hp hread =>
      exact .fault (ps ++ pre) p post e (by rw [heq, append_assoc])
        (forall_mem_append.mpr ⟨h, hpre⟩) hp hread
  | rejected pre p post e heq hpre hp =>
    exact .rejected pre p (post ++ qs) e (by rw [heq, append_assoc]; rfl) hpre hp
  | fault pre p post e heq hpre hp hread =>
    exact .fault pre p (post ++ qs) e (by rw [heq, append_assoc]; rfl) hpre hp hread

theorem parseItem_does (isDim : Flags) (p : Piece) :
    Does g isDim [p] (p.value g) (parseItem g isDim p.field p.text) := by
  have hnone : ∀ p' ∈ ([] : List Piece), p'.Passes g := fun _ h => absurd h not_mem_nil
  have hok (h : p.Passes g) :
      Does g isDim [p] (p.value g) (.ok (setIsDim isDim (p.marks g), .ok (p.value g))) :=
    .ok fun p' hp' => by rwa [mem_singleton.mp hp']
  unfold parseItem Piece.value
  unfold Piece.Passes Piece.Resolved Piece.marks Piece.value at hok
  cases hlook : lookUp g p.field p.text with
  | number =>
    rw [hlook] at hok
    have hres : p.Resolved g := by
      rw [Piece.Resolved, hlook]
      exact ⟨by simp, by simp⟩
    cases hfield : p.field with
    | dimension =>
      have hrank : Field.rank .dimension p.text =
          toInt (textValue p.text) >>= fun n => .ok (UInt64.ofInt n) := rfl
      dsimp only
      rw [hrank, toInt]
      by_cases hint : IsInt (textValue p.text)
      · rw [if_pos hint]
        rw [strtol_of_isLong (isLong_of_isInt hint)] at hok ⊢
        exact hok ⟨⟨by simp, by simp⟩, fun _ _ => hint⟩
      · rw [if_neg hint]
        exact .fault [] p [] _ rfl hnone hres fun h => hint (h hfield hlook)
    | global => exact hok ⟨⟨by simp, by simp⟩, fun h => by rw [hfield] at h; cases h⟩
    | offset => exact hok ⟨⟨by simp, by simp⟩, fun h => by rw [hfield] at h; cases h⟩
  | invalidType => exact .rejected [] p [] _ rfl hnone fun h => h.1 hlook
  | unknown => exact .rejected [] p [] _ rfl hnone fun h => h.2 hlook
  | _ =>
    rw [hlook] at hok
    exact hok ⟨⟨by simp, by simp⟩, fun _ hn => by rw [hlook] at hn; cases hn⟩

theorem Entry.forall_pieces {e : Entry} {P : Piece → Prop} : (∀ p ∈ e.pieces, P p) ↔
    P ⟨.dimension, e.dim⟩ ∧ P ⟨.global, e.gDim⟩ ∧ P ⟨.offset, e.loDim⟩ := by
  simp [Entry.pieces]

def Entry.value (g : Names) (e : Entry) : Dimension :=
  ⟨Piece.value g ⟨.dimension, e.dim⟩, Piece.value g ⟨.global, e.gDim⟩,
    Piece.value g ⟨.offset, e.loDim⟩⟩

theorem parseDimension_does (isDim : Flags) (e : Entry) :
    Does g isDim e.pieces (e.value g) (parseDimension g isDim e) :=
  (parseItem_does isDim ⟨.dimension, e.dim⟩).andThen fun isDim =>
  (parseItem_does isDim ⟨.global, e.gDim⟩).andThen fun isDim =>
  (parseItem_does isDim ⟨.offset, e.loDim⟩).andThen fun _ =>
  .ok fun _ h => absurd h not_mem_nil

theorem defineDimensions_does (isDim : Flags) (es : List Entry) :
    Does g isDim (es.flatMap Entry.pieces) (es.map (Entry.value g))
      (defineDimensions g isDim es) := by
  induction es generalizing isDim with
  | nil => exact .ok fun _ h => absurd h not_mem_nil
  | cons e es ih =>
    refine (parseDimension_does isDim e).andThen fun isDim => ?_
    have hlast (isDim : Flags) : Does g isDim [] (e.value g :: es.map (Entry.value g))
        (.ok (isDim, .ok (e.value g :: es.map (Entry.value g)))) :=
      .ok fun _ h => absurd h not_mem_nil
    have hrest := @Does.andThen g isDim _ _ _ _ _ _ _
      (fun isDim ds => .ok (isDim, .ok (e.value g :: ds))) (ih isDim) hlast
    rwa [append_nil] at hrest

/-! ## The definition -/

theorem first_unique {P : Piece → Prop} {pre pre' post post' : List Piece} {p p' : Piece}
    (h : pre ++ p :: post = pre' ++ p' :: post') (hpre : ∀ x ∈ pre, P x) (hpre' : ∀ x ∈ pre', P x)
    (hp : ¬P p) (hp' : ¬P p') : pre = pre' ∧ p = p' := by
  rcases append_eq_append_iff.mp h with ⟨as, hfront, hback⟩ | ⟨as, hfront, hback⟩
  · cases as with
    | nil =>
      injection hback with heq
      exact ⟨by rw [hfront, append_nil], heq⟩
    | cons a as =>
      injection hback with heq
      exact absurd (hpre' a (by rw [hfront]; exact mem_append_right _ mem_cons_self))
        (heq ▸ hp)
  · cases as with
    | nil =>
      injection hback with heq
      exact ⟨by rw [hfront, append_nil], heq.symm⟩
    | cons a as =>
      injection hback with heq
      exact absurd (hpre a (by rw [hfront]; exact mem_append_right _ mem_cons_self))
        (heq ▸ hp')

namespace Input

variable {q : Input}

theorem defineVar_eq
    (h : ∀ str ∈ [q.dimensions, q.globalDimensions, q.localOffsets], [] ∉ items str) :
    q.defineVar =
      (defineDimensions q.group.names q.group.isDim q.entries).map q.finish := by
  obtain ⟨hdims, hglobal, hoffsets⟩ : [] ∉ items q.dimensions ∧ [] ∉ items q.globalDimensions ∧
      [] ∉ items q.localOffsets := by simpa using h
  unfold defineVar
  by_cases hnil : q.dimensions.getD [] = []
  · have hitems : items q.dimensions = [] := by
      rw [items, hnil]
      rfl
    rw [if_pos hnil, entries, hitems]
    rfl
  · rw [if_neg hnil, (tokenizeDimensions_iff _).mpr hdims, (tokenizeDimensions_iff _).mpr hglobal,
      (tokenizeDimensions_iff _).mpr hoffsets]
    show Except.bind (defineDimensions _ _ q.entries) _ = _
    cases defineDimensions q.group.names q.group.isDim q.entries <;> rfl

theorem held_iff (es : List Entry) (h : ∀ p ∈ es.flatMap Entry.pieces, p.Resolved g) :
    Forall₂ (Entry.Held g) es (es.map (Entry.value g)) ↔
      ∀ p ∈ es.flatMap Entry.pieces, p.Exact g := by
  rw [forall₂_map_right_iff, forall₂_same, forall_mem_flatMap]
  refine forall₂_congr fun e he => ?_
  rw [forall_mem_flatMap] at h
  obtain ⟨hdim, hglobal, hoffset⟩ := Entry.forall_pieces.mp (h e he)
  rw [Entry.forall_pieces, ← Piece.holds_value_iff hdim, ← Piece.holds_value_iff hglobal,
    ← Piece.holds_value_iff hoffset]
  exact ⟨fun ⟨h1, h2, h3⟩ => ⟨h1, h2, h3⟩, fun ⟨h1, h2, h3⟩ => ⟨h1, h2, h3⟩⟩

def emptyItem : Input where
  group := ⟨⟨[], [], none, false⟩, fun _ => false, 0⟩
  addr := 0
  name := [65]
  path := none
  type := .integer
  dimensions := some [50, 44, 44, 51]
  globalDimensions := none
  localOffsets := none

end Input

end Adios.DefineVar
