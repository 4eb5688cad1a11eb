/-
This file models what the detector remembers about one address.

The last write is one id. The reads since that write are one id while a single
thread has read, and a list of ids with one entry for each thread afterwards.
The value 0 of an id means that there is none.
-/

import Drace.ThreadState

namespace Drace

/-- Stores information about a memory location. A null `shared_vc` is `none`. -/
structure VarState where
  sharedVc : Option (List ℕ) := none
  wId : ℕ := 0
  rId : ℕ := 0
  size : ℕ
  deriving DecidableEq

namespace VarState

/-- `VAR_NOT_INIT`, the value of an id that is not set. -/
def varNotInit : ℕ := 0

variable (layout : Layout)

/-- The constructor takes the size as `uint16_t`. -/
def new (varSize : ℕ) : VarState := { size := varSize % 0x10000 }

/-- The comparison the four race checks share: the id is set, belongs to another thread, and its
clock is not below the one the calling thread knows for that thread. -/
def racesWith (id : ℕ) (thread : ThreadState) : Prop :=
  id ≠ varNotInit ∧ thread.getTid layout ≠ layout.makeTid id ∧
    thread.getClockByTid layout (layout.makeTid id) ≤ layout.makeClock id

instance (id : ℕ) (thread : ThreadState) : Decidable (racesWith layout id thread) :=
  inferInstanceAs (Decidable (_ ∧ _ ∧ _))

/-- Evaluates for write/write races through this and an access through the thread. -/
def isWwRace (var : VarState) (thread : ThreadState) : Prop := racesWith layout var.wId thread

/-- Evaluates for write/read races through this and an access through the thread. -/
def isWrRace (var : VarState) (thread : ThreadState) : Prop := racesWith layout var.wId thread

/-- Evaluates for read-exclusive/write races through this and an access through the thread. -/
def isRwExRace (var : VarState) (thread : ThreadState) : Prop := racesWith layout var.rId thread

instance (var : VarState) (thread : ThreadState) : Decidable (var.isWwRace layout thread) :=
  inferInstanceAs (Decidable (racesWith layout _ _))

instance (var : VarState) (thread : ThreadState) : Decidable (var.isWrRace layout thread) :=
  inferInstanceAs (Decidable (racesWith layout _ _))

instance (var : VarState) (thread : ThreadState) : Decidable (var.isRwExRace layout thread) :=
  inferInstanceAs (Decidable (racesWith layout _ _))

/-- Returns the id of the last write access. -/
def getWriteId (var : VarState) : ℕ := var.wId

/-- Returns the id of the last read access, when the read is not shared. -/
def getReadId (var : VarState) : ℕ := var.rId

/-- Returns the tid of the thread which last wrote this variable. -/
def getWTid (var : VarState) : ℕ := layout.makeTid var.wId

/-- Returns the tid of the thread which last read this variable, if not read shared. -/
def getRTid (var : VarState) : ℕ := layout.makeTid var.rId

/-- Returns true when the read is shared. -/
def isReadShared (var : VarState) : Bool := var.sharedVc.isSome

/-- The list behind `shared_vc`, which the source only follows when the read is shared. -/
def sharedIds (var : VarState) : List ℕ := var.sharedVc.getD []

/-- The first shared entry the loop of `is_rw_sh_race` stops at. -/
def firstShRace (var : VarState) (thread : ThreadState) : Option ℕ :=
  var.sharedIds.find? fun id => racesWith layout id thread

/-- Evaluates for read-shared/write races: the tid of the first entry that races, else 0. -/
def isRwShRace (var : VarState) (thread : ThreadState) : ℕ :=
  match var.firstShRace layout thread with
  | some id => layout.makeTid id
  | none => 0

/-- Finds the entry with the tid in the shared vector clock. -/
def findInVec (var : VarState) (tid : ℕ) : Option ℕ :=
  var.sharedIds.find? fun id => layout.makeTid id = tid

/-- Returns the stored id which belongs to the tid, 0 if not available. -/
def getVcByThr (var : VarState) (tid : ℕ) : ℕ := (var.findInVec layout tid).getD 0

/-- Updates the state because of a new read or write access through a thread. -/
def update (var : VarState) (isWrite : Bool) (id : ℕ) : VarState :=
  if isWrite then { var with sharedVc := none, rId := varNotInit, wId := id }
  else match var.sharedVc with
    | none => { var with rId := id }
    | some vec => { var with
        sharedVc := some (vec.eraseP (fun other => layout.makeTid other = layout.makeTid id) ++
          [id]) }

/-- Sets the read state to shared. -/
def setReadShared (var : VarState) (id : ℕ) : VarState :=
  { var with sharedVc := some [var.rId, id], rId := varNotInit }

/-- The ids of the reads the state holds, exclusive or shared. -/
def readIds (var : VarState) : List ℕ :=
  match var.sharedVc with
  | some vec => vec
  | none => if var.rId = varNotInit then [] else [var.rId]

variable {layout} {var : VarState} {thread : ThreadState} {id : ℕ}

@[simp]
theorem update_write : var.update layout true id =
    { var with sharedVc := none, rId := varNotInit, wId := id } := rfl

@[simp]
theorem wId_update_read : (var.update layout false id).wId = var.wId := by
  unfold update
  cases var.sharedVc <;> rfl

@[simp]
theorem wId_setReadShared : (var.setReadShared id).wId = var.wId := rfl

@[simp]
theorem size_update {isWrite : Bool} : (var.update layout isWrite id).size = var.size := by
  unfold update
  cases isWrite <;> cases var.sharedVc <;> rfl

@[simp]
theorem size_setReadShared : (var.setReadShared id).size = var.size := rfl

theorem isRwShRace_ne_zero (races : var.isRwShRace layout thread ≠ 0) :
    ∃ shared ∈ var.sharedIds, racesWith layout shared thread ∧
      layout.makeTid shared = var.isRwShRace layout thread := by
  unfold isRwShRace firstShRace at races ⊢
  cases found : var.sharedIds.find? fun id => racesWith layout id thread with
  | none => rw [found] at races; exact absurd rfl races
  | some shared =>
    exact ⟨shared, List.mem_of_find?_eq_some found, by simpa using List.find?_some found, rfl⟩

/-- A shared entry that races is never overlooked: the loop stops at it or at an earlier one. -/
theorem exists_firstShRace {shared : ℕ} (member : shared ∈ var.sharedIds)
    (races : racesWith layout shared thread) :
    ∃ first, var.firstShRace layout thread = some first := by
  rw [← Option.isSome_iff_exists, firstShRace, List.find?_isSome]
  exact ⟨shared, member, by simpa using races⟩

end VarState

end Drace
