import Adios.Heap.LinkedList
import Adios.Index.Struct
import Mathlib.Algebra.Ring.Int.Defs
import Mathlib.Algebra.Ring.Nat
import Mathlib.Logic.Function.Basic

/-!
# Adios — merging indexes

`adios_merge_index_v1`: the three lists of an index of another process are taken apart and
appended to the lists of the main index. The variables have a pointer to the last one and a hash
table beside their list; a variable whose path and name are in the table already gives its
characteristics sets to the one that is there. The attributes have neither, and are looked for in
the list.

The lists are cells in memory. `fuel` bounds the rounds of the loops over them.
-/

namespace Adios

open Heap

/-- A `struct adios_index_var_struct_v1` in memory: the sets in use are those of the entry, and
`room` is how many there is memory for behind `characteristics`. -/
structure StoredEntry where
  entry : IndexEntry
  characteristicsCount : UInt64
  characteristicsAllocated : UInt64
  room : Nat

abbrev VarKey := CString × CString

/-- `get2 (hashtbl_vars, item->var_path, item->var_name)` -/
def varKey (v : IndexEntry) : VarKey := (v.path, v.name)

/-- A `struct adios_index_struct_v1` and the memory its lists are in. -/
structure IndexStore where
  pgs : Linked IndexProcessGroup
  vars : Linked StoredEntry
  varsTail : Option Addr
  hashtblVars : VarKey → Option Addr
  attrs : Linked StoredEntry

def IndexStore.empty : IndexStore where
  pgs := ⟨none, .empty⟩
  vars := ⟨none, .empty⟩
  varsTail := none
  hashtblVars := fun _ => none
  attrs := ⟨none, .empty⟩

def deref {α : Type} : Option α → Except Fault α
  | some x => .ok x
  | none => .error .wildPointer

/-! ## Characteristics -/

/-- `int new_items = (count == 1) ? 100 : count`, as it is added to a `uint64_t`. -/
def newItems (count : UInt64) : UInt64 :=
  if count = 1 then 100 else UInt64.ofInt (Int.bmod count.toNat (2 ^ 32))

/-- Room for the sets of `item` behind those of `old`, and whether there was memory for it. -/
def reallocCharacteristics (canAlloc : UInt64 → Bool) (old item : StoredEntry) :
    StoredEntry × Bool :=
  if old.characteristicsAllocated < old.characteristicsCount + item.characteristicsCount then
    -- the new size is there already when `realloc` fails
    let allocated := old.characteristicsCount + newItems item.characteristicsCount
    let old := { old with characteristicsAllocated := allocated }
    if canAlloc allocated then ({ old with room := allocated.toNat }, true) else (old, false)
  else (old, true)

/-- `memcpy` of the sets of `item` behind those of `old`. -/
def copyCharacteristics (old item : StoredEntry) : Except Fault StoredEntry :=
  if old.characteristicsCount.toNat + item.characteristicsCount.toNat ≤ old.room then
    .ok { old with
      entry := { old.entry with
        characteristics := old.entry.characteristics ++
          item.entry.characteristics.take item.characteristicsCount.toNat }
      characteristicsCount := old.characteristicsCount + item.characteristicsCount }
  else .error .outOfBounds

/-- The sets of `item` appended to `old`, if there is memory for them. -/
def appendCharacteristics (canAlloc : UInt64 → Bool) (old item : StoredEntry) :
    Except Fault (StoredEntry × Bool) :=
  let (old, ok) := reallocCharacteristics canAlloc old item
  if ok then (·, true) <$> copyCharacteristics old item else .ok (old, false)

/-- `index_append_process_group_v1`, from a place in the list on. -/
def indexAppendProcessGroupV1 (item : Option Addr) :
    Nat → Slot → Linked IndexProcessGroup → Except Fault (Linked IndexProcessGroup)
  | 0, _, _ => .error .endless
  | fuel + 1, slot, l => do
    match ← deref (l.get slot) with
    | none => deref (l.put slot item)
    | some a => indexAppendProcessGroupV1 item fuel (.next a) l

/-! ## Variables -/

/-- "new variable, insert into var list" -/
def insertVar (item : Addr) (i : Cell StoredEntry) (st : IndexStore) :
    Except Fault IndexStore := do
  let store := st.vars.store.set item { i with next := none }
  let hashtblVars := Function.update st.hashtblVars (varKey i.val.entry) (some item)
  match st.vars.root with
  | none =>
    return { st with vars := ⟨some item, store⟩, varsTail := some item, hashtblVars }
  | some root => do
    let tail ← deref st.varsTail
    let t ← deref (store tail)
    return { st with
             vars := ⟨some root, store.set tail { t with next := some item }⟩
             varsTail := some item
             hashtblVars }

/-- "existing variable, add this item to its characteristics". A variable of another group stays
where it is, in no list: "We do not support same path in two groups". -/
def mergeVar (canAlloc : UInt64 → Bool) (old item : Addr) (i : Cell StoredEntry)
    (st : IndexStore) : Except Fault IndexStore := do
  let o ← deref (st.vars.store old)
  if o.val.entry.groupName ≠ i.val.entry.groupName then return st
  else do
    let (merged, done) ← appendCharacteristics canAlloc o.val i.val
    let store := st.vars.store.set old { o with val := merged }
    return { st with vars := ⟨st.vars.root, if done then store.free item else store⟩ }

/-- `index_append_var_v1` -/
def indexAppendVarV1 (canAlloc : UInt64 → Bool) (item : Addr) (st : IndexStore) :
    Except Fault IndexStore := do
  let i ← deref (st.vars.store item)
  match st.hashtblVars (varKey i.val.entry) with
  | none => insertVar item i st
  | some old => mergeVar canAlloc old item i st

/-- `while (v)` of `adios_merge_index_v1` -/
def mergeVars (canAlloc : UInt64 → Bool) :
    Nat → Option Addr → IndexStore → Except Fault IndexStore
  | _, none, st => .ok st
  | 0, some _, _ => .error .endless
  | fuel + 1, some v, st => do
    let c ← deref (st.vars.store v)
    let store := st.vars.store.set v { c with next := none }
    let st ← indexAppendVarV1 canAlloc v { st with vars := ⟨st.vars.root, store⟩ }
    mergeVars canAlloc fuel c.next st

/-! ## Attributes -/

/-- `tolower` in the C locale. -/
def toLower (c : UInt8) : UInt8 := if 65 ≤ c ∧ c ≤ 90 then c + 32 else c

/-- What `strcasecmp` compares of a string. -/
def caseless (s : CString) : List UInt8 := s.val.map toLower

/-- What the three comparisons of `index_append_attribute_v1` look at. -/
def attrKey (a : IndexEntry) : List UInt8 × List UInt8 × List UInt8 :=
  (caseless a.groupName, caseless a.name, caseless a.path)

def mergeAttr (canAlloc : UInt64 → Bool) (old item : Addr) (o i : Cell StoredEntry)
    (l : Linked StoredEntry) : Except Fault (Linked StoredEntry) := do
  let (merged, done) ← appendCharacteristics canAlloc o.val i.val
  let store := l.store.set old { o with val := merged }
  return ⟨l.root, if done then store.free item else store⟩

/-- `index_append_attribute_v1`, from a place in the list on. -/
def indexAppendAttributeV1 (canAlloc : UInt64 → Bool) (item : Addr) :
    Nat → Slot → Linked StoredEntry → Except Fault (Linked StoredEntry)
  | 0, _, _ => .error .endless
  | fuel + 1, slot, l => do
    match ← deref (l.get slot) with
    | none => deref (l.put slot (some item))
    | some a => do
      let i ← deref (l.store item)
      let o ← deref (l.store a)
      if attrKey i.val.entry = attrKey o.val.entry then mergeAttr canAlloc a item o i l
      else indexAppendAttributeV1 canAlloc item fuel (.next a) l

/-- `while (a)` of `adios_merge_index_v1` -/
def mergeAttrs (canAlloc : UInt64 → Bool) (rounds : Nat) :
    Nat → Option Addr → Linked StoredEntry → Except Fault (Linked StoredEntry)
  | _, none, l => .ok l
  | 0, some _, _ => .error .endless
  | fuel + 1, some a, l => do
    let c ← deref (l.store a)
    let l ← indexAppendAttributeV1 canAlloc a rounds .root
      ⟨l.root, l.store.set a { c with next := none }⟩
    mergeAttrs canAlloc rounds fuel c.next l

/-- `adios_merge_index_v1` -/
def mergeIndexV1 (canAlloc : UInt64 → Bool) (fuel : Nat)
    (newPgRoot newVarsRoot newAttrsRoot : Option Addr) (st : IndexStore) :
    Except Fault IndexStore := do
  let pgs ← indexAppendProcessGroupV1 newPgRoot fuel .root st.pgs
  let st ← mergeVars canAlloc fuel newVarsRoot { st with pgs }
  let attrs ← mergeAttrs canAlloc fuel fuel newAttrsRoot st.attrs
  return { st with attrs }

end Adios
