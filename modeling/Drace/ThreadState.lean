/-
This file models the state of one thread: its vector clock, its own id (tid and
current clock in one word) and its stack depot.

A child starts with a copy of its parent's clock, which replaces the entry of the
child itself; the own entry appears when the child first counts its clock up.
-/

import Drace.VectorClock
import Drace.StackTrace

namespace Drace

/-- The state of a thread. -/
structure ThreadState extends VectorClock where
  id : ℕ
  traceDepot : StackTrace := {}

namespace ThreadState

variable (layout : Layout)

/-- Constructor of a `ThreadState`: initializes tid and clock, and copies the vector of the
parent thread if one exists. -/
def new (ownTid : ℕ) (parent : Option ThreadState) : ThreadState :=
  let id := layout.makeId ownTid
  match parent with
  | none => { vc := (∅ : AList fun _ : ℕ => ℕ).insert ownTid id, id := id }
  | some parent => { vc := parent.vc, id := id }

/-- Increases the own clock value. -/
def incVc (thread : ThreadState) : ThreadState :=
  let id := (thread.id + 1) % layout.sizeRange
  { thread with id := id, vc := thread.vc.insert (layout.makeTid id) id }

/-- Returns the own clock value and thread id. -/
def returnOwnId (thread : ThreadState) : ℕ := thread.id

/-- Returns the thread id. -/
def getTid (thread : ThreadState) : ℕ := layout.makeTid thread.id

/-- Returns the current clock. -/
def getClock (thread : ThreadState) : ℕ := layout.makeClock thread.id

/-- The merge inherited from the vector clock; id and depot stay. -/
def mergeClock (thread : ThreadState) (other : VectorClock) : ThreadState :=
  { thread with toVectorClock := thread.toVectorClock.update other }

/-- The deletion inherited from the vector clock; id and depot stay. -/
def dropEntry (thread : ThreadState) (tid : ℕ) : ThreadState :=
  { thread with toVectorClock := thread.toVectorClock.deleteVc tid }

variable {layout} {thread : ThreadState} {parent : Option ThreadState} {other : VectorClock}
  {tid addr pc : ℕ}

@[simp]
theorem id_new : (new layout tid parent).id = layout.makeId tid := by cases parent <;> rfl

@[simp]
theorem traceDepot_new : (new layout tid parent).traceDepot = {} := by cases parent <;> rfl

@[simp]
theorem id_mergeClock : (thread.mergeClock other).id = thread.id := rfl

@[simp]
theorem traceDepot_mergeClock : (thread.mergeClock other).traceDepot = thread.traceDepot := rfl

@[simp]
theorem id_dropEntry : (thread.dropEntry tid).id = thread.id := rfl

@[simp]
theorem traceDepot_dropEntry : (thread.dropEntry tid).traceDepot = thread.traceDepot := rfl

@[simp]
theorem traceDepot_incVc : (thread.incVc layout).traceDepot = thread.traceDepot := rfl

@[simp]
theorem toVectorClock_mergeClock :
    (thread.mergeClock other).toVectorClock = thread.toVectorClock.update other := rfl

@[simp]
theorem toVectorClock_dropEntry :
    (thread.dropEntry tid).toVectorClock = thread.toVectorClock.deleteVc tid := rfl

theorem toVectorClock_incVc :
    (thread.incVc layout).toVectorClock =
      ⟨thread.vc.insert (layout.makeTid (thread.incVc layout).id) (thread.incVc layout).id⟩ := rfl

end ThreadState

end Drace
