import Adios.Runs.Every

/-!
# DataSpaces — the steps of a stream

`get_step` of `read/read_dataspaces.c` and its callers, with the space that it looks into. A step of
the system is one access of the reader to the space, with what the code does up to the next one, or
something that happens in the space. What happens between two accesses is not restricted by the read
lock.
-/

namespace Adios.DataSpaces

/-! ## The space -/

structure Space where
  /-- The last version announced; -1 when there is no VERSION@. -/
  last : Int
  terminated : Bool
  /-- The writer is putting the version behind the last one. -/
  putting : Bool
  files : Int → Bool
  /-- The group metadata can be read and unpacked. -/
  groups : Int → Bool

namespace Space

def newest (s : Space) : Int := if s.putting then s.last + 1 else s.last

end Space

inductive SpaceEvent where
  | put
  | announce
  | terminate
  /-- FILE@ or GROUP@ of a version can be read from now on. -/
  | fileArrives (v : Int)
  | groupArrives (v : Int)
  | fileDisappears (v : Int)
  | groupDisappears (v : Int)

/-- "last version put in space; not terminated", and `adios_dataspaces_finalize`. -/
def Space.step (s : Space) : SpaceEvent → Option Space
  | .put => if s.putting ∨ s.terminated then none else some { s with putting := true }
  | .announce => if s.putting then some { s with last := s.last + 1, putting := false } else none
  | .terminate =>
    if s.putting ∨ s.last < 0 then none else some { s with terminated := true }
  | .fileArrives v =>
    if v ≤ s.newest then some { s with files := fun w => if w = v then true else s.files w }
    else none
  | .groupArrives v =>
    if v ≤ s.newest then some { s with groups := fun w => if w = v then true else s.groups w }
    else none
  | .fileDisappears v => some { s with files := fun w => if w = v then false else s.files w }
  | .groupDisappears v => some { s with groups := fun w => if w = v then false else s.groups w }

/-! ## The code -/

/-- `enum WHICH_VERSION` -/
inductive WhichVersion where
  | nextVersion | nextAvailableVersion | lastVersion
  deriving DecidableEq

/-- `enum STEP_STATUS` -/
inductive StepStatus where
  | ok | streamNotFound | stepNotReady | stepDisappeared | streamTerminated | otherError
  deriving DecidableEq

/-- `enum ADIOS_LOCKMODE` -/
inductive LockMode where
  | none | current | all
  deriving DecidableEq

/-- A call of `get_step`. -/
structure Call where
  whichVersion : WhichVersion
  /-- The argument `step`, which the code goes on with as a variable. -/
  asked : Int
  step : Int
  /-- `ds->current_step` before the call. -/
  before : Int
  lastVersion : Int
  maxCheckVersion : Int
  /-- The versions that this poll has looked for, and if they were there. -/
  looked : List (Int × Bool)

inductive Phase where
  /-- not opened, or the open has failed -/
  | closed
  /-- The step has been released. -/
  | released
  /-- at the start of the poll loop -/
  | poll (c : Call)
  /-- in front of the `dspaces_get` of FILE@ -/
  | lookup (c : Call)
  /-- in `get_groupdata` -/
  | groupdata (c : Call)
  /-- behind the accesses of a poll, with `step_status` and `stay_in_poll_loop` -/
  | settle (c : Call) (status : StepStatus) (stay : Bool)
  /-- `get_step` has returned. -/
  | returned (c : Call) (status : StepStatus)

/-- `struct dataspaces_data_struct` -/
structure Reader where
  lockMode : LockMode
  currentStep : Int
  lockedFname : Bool
  phase : Phase

namespace Reader

variable (r : Reader)

/-- `get_step` up to its loop. -/
def getStep (step : Int) (whichVersion : WhichVersion) : Reader :=
  { r with phase := .poll ⟨whichVersion, step, step, r.currentStep, 0, 0, []⟩ }

/-- `adios_read_dataspaces_open` -/
def openStream (lockMode : LockMode) : Reader :=
  getStep { lockMode, currentStep := -1, lockedFname := false, phase := .closed } 0
    .nextAvailableVersion

/-- `adios_read_dataspaces_release_step`: "Release read lock locked in fopen" -/
def releaseStep : Reader := { r with lockedFname := false, phase := .released }

/-- `adios_read_dataspaces_close` -/
def close : Reader := { r with lockedFname := false, phase := .closed }

/-- `adios_read_dataspaces_advance_step` -/
def advanceStep (last : Bool) : Reader :=
  let whichVersion := if last then .lastVersion
    else if r.lockMode = .all then .nextVersion else .nextAvailableVersion
  let r := if r.lockedFname then r.releaseStep else r
  r.getStep (r.currentStep + 1) whichVersion

/-- The start of the poll loop: `lock_file` and the `dspaces_get` of VERSION@. -/
def pollVersion (space : Space) (c : Call) : Reader :=
  let r := { r with lockedFname := true }
  let c := { c with looked := [] }
  -- "This stream does not exist yet"
  if space.last < 0 then { r with phase := .settle c .streamNotFound true }
  else
    let lastVersion := space.last
    if lastVersion < c.step then
      if space.terminated then { r with phase := .settle c .streamTerminated false }
      else { r with phase := .settle c .stepNotReady true }
    else
      let step := if c.whichVersion = .lastVersion then lastVersion else c.step
      let maxCheckVersion := if c.whichVersion = .nextVersion then step else lastVersion
      { r with phase := .lookup { c with step, lastVersion, maxCheckVersion } }

/-- A round of "Loop until we find what we need or go past the last version", and what follows. -/
def lookUp (space : Space) (c : Call) : Reader :=
  let found := space.files c.step
  -- "value will go over the target with 1"
  let c' := { c with step := c.step + 1, looked := c.looked ++ [(c.step, found)] }
  if found then
    -- "undo the last increment above"
    { r with currentStep := c'.step - 1, phase := .groupdata { c' with step := c'.step - 1 } }
  else if c'.step ≤ c.maxCheckVersion then { r with phase := .lookup c' }
  else if c.whichVersion = .nextVersion then
    if c'.step < c.lastVersion then { r with phase := .settle c' .stepDisappeared false }
    else { r with phase := .settle c' .stepNotReady true }
  else { r with phase := .settle c' .otherError false }

/-- `get_groupdata` -/
def getGroupdata (space : Space) (c : Call) : Reader :=
  if space.groups c.step then { r with phase := .settle c .ok false }
  else { r with phase := .settle c .otherError false }

/-- The end of a poll; `expired` is "`timeout_sec >= 0.0 && (adios_gettime()-t1 > timeout_sec)`". -/
def endPoll (expired : Bool) (c : Call) (status : StepStatus) (stay : Bool) : Reader :=
  let r := if status ≠ .ok then { r with lockedFname := false } else r
  if stay then
    if expired then { r with phase := .returned c status } else { r with phase := .poll c }
  else { r with phase := .returned c status }

end Reader

/-! ## The system -/

structure System where
  space : Space
  reader : Reader

inductive Event where
  | space (e : SpaceEvent)
  | openStream (lockMode : LockMode)
  | advanceStep (last : Bool)
  | releaseStep
  | close
  /-- The reader goes on; the clock says whether the timeout is over. -/
  | go (expired : Bool)

def Phase.isOpen : Phase → Bool
  | .released => true
  | .returned c status => status = .ok ∨ 0 < c.asked
  | _ => false

def Phase.isClosed : Phase → Bool
  | .closed => true
  | .returned c status => status ≠ .ok ∧ ¬0 < c.asked
  | _ => false

def System.step (s : System) : Event → Option System
  | .space e => (s.space.step e).map fun space => { s with space }
  | .openStream lockMode =>
    if s.reader.phase.isClosed then some { s with reader := .openStream lockMode } else none
  | .advanceStep last =>
    if s.reader.phase.isOpen then some { s with reader := s.reader.advanceStep last } else none
  | .releaseStep =>
    if s.reader.phase.isOpen then some { s with reader := s.reader.releaseStep } else none
  | .close => if s.reader.phase.isOpen then some { s with reader := s.reader.close } else none
  | .go expired =>
    match s.reader.phase with
    | .poll c => some { s with reader := s.reader.pollVersion s.space c }
    | .lookup c => some { s with reader := s.reader.lookUp s.space c }
    | .groupdata c => some { s with reader := s.reader.getGroupdata s.space c }
    | .settle c status stay => some { s with reader := s.reader.endPoll expired c status stay }
    | _ => none

def System.initial : System where
  space := ⟨-1, false, false, fun _ => false, fun _ => false⟩
  reader := ⟨.none, -1, false, .closed⟩

/-! ## The statement -/

def Call.Reaches (c : Call) (step : Int) : Prop :=
  (step, true) ∈ c.looked ∧
    match c.whichVersion with
    | .nextVersion => step = c.before + 1
    -- the smallest one: all versions between have been looked for and were not there
    | .nextAvailableVersion =>
      c.before < step ∧ ∀ v, c.before < v → v < step → (v, false) ∈ c.looked
    | .lastVersion => step = c.lastVersion

structure Space.EndedAt (space : Space) (step : Int) : Prop where
  terminated : space.terminated = true
  last : space.last ≤ step
  files : ∀ v, step < v → space.files v = false

structure Call.Right (c : Call) (status : StepStatus) (space : Space) (r : Reader) : Prop where
  reaches : status = .ok → c.Reaches r.currentStep
  unchanged : status ≠ .ok → r.currentStep = c.before
  locked : r.lockedFname = true ↔ status = .ok
  ended : status = .streamTerminated → space.EndedAt c.before

/-- Each poll looks for the step that was asked for, and each call that has come to its end is
right. -/
def System.Right (s : System) : Prop :=
  match s.reader.phase with
  | .poll c => c.step = c.asked ∧ c.asked = c.before + 1
  | .returned c status => c.Right status s.space s.reader
  | _ => True

/-- A poll in which an announced version has been looked for in vain is the last one of its call,
and the group metadata of a version that has been found can be read. -/
def System.Meets (s : System) : Event → Prop
  | .go expired =>
    match s.reader.phase with
    | .settle c _ true => expired = false → c.looked = []
    | .groupdata c => s.space.groups c.step = true
    | _ => True
  | _ => True

end Adios.DataSpaces
