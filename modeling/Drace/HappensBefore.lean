/-
This file defines happens-before for the detector's events and reads the vector
clocks as thresholds.

An event belongs to the thread behind its handle; a fork or join belongs to the
parent if the parent is registered. Program order, fork edges, join edges, and
the edges of mutexes and identifiers make up the order. Which joins pass the
past of the child on is a parameter. The threshold of a clock for a thread is its
entry for that thread, and a thread's own clock counts its current id as known.
-/

import Drace.Causality
import Drace.ClockStep

namespace Drace

open Causality

/-- The handle an event comes with. -/
def Event.tls? : Event → Option ℕ
  | .read tls .. | .write tls .. | .funcEnter tls _ | .funcExit tls => some tls
  | .acquire tls .. | .release tls .. | .happensBefore tls _ | .happensAfter tls _ => some tls
  | .allocate tls .. | .deallocate tls _ | .detach tls _ | .finish tls _ => some tls
  | .fork .. | .join .. | .mapShadow .. | .finalize => none

/-- The child an event forks. -/
def Event.forks? : Event → Option ℕ
  | .fork _ child => some child
  | _ => none

/-- The thread an event finishes. -/
def Event.finishes? : Event → Option ℕ
  | .finish _ threadId => some threadId
  | _ => none

/-- The mutex an event acquires. -/
def Event.acquires? : Event → Option ℕ
  | .acquire _ mutex _ _ => some mutex
  | _ => none

/-- The mutex an event releases. -/
def Event.releases? : Event → Option ℕ
  | .release _ mutex _ => some mutex
  | _ => none

/-- The identifier an event announces. -/
def Event.announces? : Event → Option ℕ
  | .happensBefore _ identifier => some identifier
  | _ => none

/-- The identifier an event waits for. -/
def Event.awaits? : Event → Option ℕ
  | .happensAfter _ identifier => some identifier
  | _ => none

namespace Clocks

/-- The thread an event belongs to. -/
def caller (clocks : Clocks) : Event → Option ℕ
  | .fork parent _ | .join parent _ => (clocks.idOf parent).map fun _ => parent
  | event => event.tls?

/-- The thread that a fork with a registered parent starts. -/
def starts (layout : Layout) (clocks : Clocks) : Event → Option ℕ
  | .fork parent child => (clocks.idOf parent).map fun _ => child % layout.tidRange
  | _ => none

/-- The thread whose past a join with a registered parent passes on. -/
def joins (clocks : Clocks) : Event → Option ℕ
  | .join parent child => (clocks.idOf parent).map fun _ => child
  | _ => none

/-- The thread whose past a join passes on if parent and child are both registered. -/
def joinsLive (clocks : Clocks) : Event → Option ℕ
  | .join parent child =>
    (clocks.idOf parent).bind fun _ => (clocks.idOf child).map fun _ => child
  | _ => none

/-- The carriers an event leaves its past at. -/
def Puts (layout : Layout) (clocks : Clocks) (event : Event) : Carrier → Prop
  | .thread tid => clocks.caller event = some tid ∨ clocks.starts layout event = some tid
  | .mutex mutex => event.releases? = some mutex
  | .identifier identifier => event.announces? = some identifier

/-- The carriers an event inherits a past from. -/
def Takes (joined : Clocks → Event → Option ℕ) (clocks : Clocks) (event : Event) : Carrier → Prop
  | .thread tid => clocks.caller event = some tid ∨ joined clocks event = some tid
  | .mutex mutex => event.acquires? = some mutex
  | .identifier identifier => event.awaits? = some identifier

instance (layout : Layout) (clocks : Clocks) (event : Event) :
    (carrier : Carrier) → Decidable (clocks.Puts layout event carrier)
  | .thread _ => inferInstanceAs (Decidable (_ ∨ _))
  | .mutex _ => inferInstanceAs (Decidable (_ = _))
  | .identifier _ => inferInstanceAs (Decidable (_ = _))

instance (joined : Clocks → Event → Option ℕ) (clocks : Clocks) (event : Event) :
    (carrier : Carrier) → Decidable (clocks.Takes joined event carrier)
  | .thread _ => inferInstanceAs (Decidable (_ ∨ _))
  | .mutex _ => inferInstanceAs (Decidable (_ = _))
  | .identifier _ => inferInstanceAs (Decidable (_ = _))

/-- What a carrier's clock knows of a thread: ids below the threshold. -/
def view (clocks : Clocks) (carrier : Carrier) (tid : ℕ) : ℕ :=
  if carrier = .thread tid then ((clocks.idOf tid).map Nat.succ).getD 0
  else (clocks.clockOrNew carrier).getIdByTid tid

/-- The clocks as thresholds. A mutex or identifier without a clock knows nothing. -/
def snapshot (clocks : Clocks) : Snapshot Carrier ℕ where
  live tid := clocks.idOf tid ≠ none
  tracked
    | .thread tid => clocks.idOf tid ≠ none
    | _ => True
  view := clocks.view

end Clocks

/-- The flow of the detector's events, with a choice of the joins that count. -/
def flow (layout : Layout) (joined : Clocks → Event → Option ℕ) : Flow Step Carrier where
  puts step := step.pre.clocks.Puts layout step.event
  takes step := step.pre.clocks.Takes joined step.event

instance (layout : Layout) (joined : Clocks → Event → Option ℕ) (step : Step) (carrier : Carrier) :
    Decidable ((flow layout joined).puts step carrier) :=
  inferInstanceAs (Decidable (step.pre.clocks.Puts layout step.event carrier))

instance (layout : Layout) (joined : Clocks → Event → Option ℕ) (step : Step) (carrier : Carrier) :
    Decidable ((flow layout joined).takes step carrier) :=
  inferInstanceAs (Decidable (step.pre.clocks.Takes joined step.event carrier))

/-- A step carries the id its thread has when it makes the call. -/
def stamp (step : Step) (tid id : ℕ) : Prop :=
  step.pre.clocks.caller step.event = some tid ∧ step.pre.clocks.idOf tid = some id

/-- Some fork of the history had this thread as its child. -/
def Forked (layout : Layout) (past : List Step) (tid : ℕ) : Prop :=
  ∃ step ∈ past, ∃ child, step.event.forks? = some child ∧ child % layout.tidRange = tid

instance (layout : Layout) (past : List Step) (tid : ℕ) : Decidable (Forked layout past tid) :=
  inferInstanceAs (Decidable (∃ step ∈ past, ∃ child ∈ step.event.forks?, _ = tid))

namespace Clocks

variable {layout : Layout} {clocks before after : Clocks} {carrier other : Carrier}
  {clock own : VectorClock} {tid key id : ℕ} {event : Event}

/-! ### Views after the elementary changes -/

theorem view_own (current : clocks.idOf tid = some id) :
    clocks.view (.thread tid) tid = id + 1 := by
  rw [view, if_pos rfl, current]
  rfl

theorem view_other (differs : carrier ≠ .thread tid) :
    clocks.view carrier tid = (clocks.clockOrNew carrier).getIdByTid tid := if_neg differs

@[simp]
theorem clockOrNew_setThread_self :
    (clocks.setThread tid clock id).clockOrNew (.thread tid) = clock := by
  simp [clockOrNew]

theorem clockOrNew_setThread_of_ne (differs : carrier ≠ .thread tid) :
    (clocks.setThread tid clock id).clockOrNew carrier = clocks.clockOrNew carrier := by
  rw [clockOrNew, clockOrNew, clockAt_setThread_of_ne differs]

@[simp]
theorem clockOrNew_setClock_self : (clocks.setClock carrier clock).clockOrNew carrier = clock := by
  simp [clockOrNew]

theorem clockOrNew_setClock_of_ne (differs : other ≠ carrier) :
    (clocks.setClock carrier clock).clockOrNew other = clocks.clockOrNew other := by
  rw [clockOrNew, clockOrNew, clockAt_setClock_of_ne differs]

theorem clockOrNew_remove_of_ne (differs : carrier ≠ .thread tid) :
    (clocks.remove tid).clockOrNew carrier = clocks.clockOrNew carrier := by
  rw [clockOrNew, clockOrNew, clockAt_remove_of_ne differs]

theorem getIdByTid_clockOrNew_sweep (differs : key ≠ tid) :
    ((clocks.sweep tid).clockOrNew carrier).getIdByTid key =
      (clocks.clockOrNew carrier).getIdByTid key := by
  unfold clockOrNew
  rw [clockAt_sweep]
  cases clocks.clockAt carrier with
  | none => rfl
  | some clock => exact VectorClock.getIdByTid_deleteVc.trans (if_neg differs)

theorem clockOrNew_of_holds (holds : clocks.Holds tid clock id) :
    clocks.clockOrNew (.thread tid) = clock := clockOrNew_of_some holds.1

/-- A thread's clock knows the thread's current id, and its entries for the others. -/
theorem view_of_holds (holds : clocks.Holds tid clock id) :
    clocks.view (.thread tid) key = if key = tid then id + 1 else clock.getIdByTid key := by
  split
  · next same => rw [same, view_own holds.2]
  · next differs => rw [view_other (by simpa using Ne.symm differs), clockOrNew_of_holds holds]

theorem holds_setThread : (clocks.setThread tid clock id).Holds tid clock id :=
  ⟨clockAt_setThread_self, idOf_setThread_self⟩

/-- Removing a thread does not change what is known of the others. -/
theorem view_removeSweep (differs : carrier ≠ .thread tid) (other : key ≠ tid) :
    ((clocks.remove tid).sweep tid).view carrier key = clocks.view carrier key := by
  by_cases own : carrier = .thread key
  · rw [view, view, if_pos own, if_pos own, idOf_sweep, idOf_remove_of_ne other]
  · rw [view_other own, view_other own, getIdByTid_clockOrNew_sweep other,
      clockOrNew_remove_of_ne differs]

theorem view_setThread_of_ne (differs : carrier ≠ .thread tid) (own : carrier ≠ .thread key) :
    (clocks.setThread tid clock id).view carrier key = clocks.view carrier key := by
  rw [view_other own, view_other own, clockOrNew_setThread_of_ne differs]

theorem view_setClock_of_ne (differs : carrier ≠ other) (own : carrier ≠ .thread key) :
    (clocks.setClock other clock).view carrier key = clocks.view carrier key := by
  rw [view_other own, view_other own, clockOrNew_setClock_of_ne differs]

theorem view_setClock_self (own : carrier ≠ .thread key) :
    (clocks.setClock carrier clock).view carrier key = clock.getIdByTid key := by
  rw [view_other own, clockOrNew_setClock_self]

/-- Creating a clock changes no threshold. -/
theorem view_setClock_clockOrNew :
    (clocks.setClock other (clocks.clockOrNew other)).view carrier key =
      clocks.view carrier key := by
  unfold view
  rw [idOf_setClock]
  by_cases same : carrier = other
  · subst same
    rw [clockOrNew_setClock_self]
  · rw [clockOrNew_setClock_of_ne same]

theorem tracked_setThread_of_ne (differs : carrier ≠ .thread tid)
    (tracked : (clocks.setThread tid clock id).snapshot.tracked carrier) :
    clocks.snapshot.tracked carrier := by
  cases carrier with
  | thread other =>
    have other : other ≠ tid := by simpa using differs
    exact fun none => tracked ((idOf_setThread_of_ne other).trans none)
  | _ => trivial

theorem tracked_setClock (tracked : (clocks.setClock other clock).snapshot.tracked carrier) :
    clocks.snapshot.tracked carrier := by
  cases carrier with
  | thread other => exact tracked
  | _ => trivial

theorem tracked_removeSweep (tracked : ((clocks.remove tid).sweep tid).snapshot.tracked carrier) :
    carrier ≠ .thread tid ∧ clocks.snapshot.tracked carrier := by
  cases carrier with
  | thread other =>
    have differs : other ≠ tid := by
      rintro rfl
      exact tracked idOf_remove_self
    exact ⟨by simpa using differs, fun none => tracked ((idOf_remove_of_ne differs).trans none)⟩
  | _ => exact ⟨by simp, trivial⟩

theorem view_sweep_le (own : carrier ≠ .thread key) :
    (clocks.sweep tid).view carrier key ≤ clocks.view carrier key := by
  rw [view_other own, view_other own]
  unfold clockOrNew
  rw [clockAt_sweep]
  cases clocks.clockAt carrier with
  | none => exact le_rfl
  | some clock =>
    rw [Option.map_some, Option.getD_some, Option.getD_some, VectorClock.getIdByTid_deleteVc]
    split
    · exact Nat.zero_le _
    · exact le_rfl

theorem view_mutex {mutex : ℕ} :
    clocks.view (.mutex mutex) tid = (clocks.clockOrNew (.mutex mutex)).getIdByTid tid :=
  view_other (by simp)

theorem view_identifier {identifier : ℕ} :
    clocks.view (.identifier identifier) tid =
      (clocks.clockOrNew (.identifier identifier)).getIdByTid tid := view_other (by simp)

/-- No clock is ahead of a thread. -/
theorem WellFormed.getIdByTid_le (wellFormed : clocks.WellFormed layout)
    (current : clocks.idOf tid = some id) (carrier : Carrier) :
    (clocks.clockOrNew carrier).getIdByTid tid ≤ id := by
  unfold clockOrNew
  cases kept : clocks.clockAt carrier with
  | none => exact Nat.zero_le _
  | some clock =>
    rw [Option.getD_some, VectorClock.getIdByTid]
    cases entry : clock.vc.lookup tid with
    | none => exact Nat.zero_le _
    | some known =>
      obtain ⟨now, _, nowId, _, below, _⟩ := wellFormed.known carrier clock kept tid known entry
      obtain ⟨rfl⟩ : now = id := Option.some.inj (nowId.symm.trans current)
      exact below

/-- The ids are those of the source's comparison: an epoch races unless it is below the view. -/
theorem WellFormed.clock_le_iff (wellFormed : clocks.WellFormed layout)
    (bound : id < layout.sizeRange) (kept : clocks.clockAt carrier = some clock) :
    clock.getClockByTid layout (layout.makeTid id) ≤ layout.makeClock id ↔
      clock.getIdByTid (layout.makeTid id) ≤ id := by
  unfold VectorClock.getClockByTid VectorClock.getIdByTid
  cases entry : clock.vc.lookup (layout.makeTid id) with
  | none => exact iff_of_true (Nat.zero_le _) (Nat.zero_le _)
  | some known =>
    obtain ⟨current, _, currentId, decodes, below, _⟩ :=
      wellFormed.known carrier clock kept _ known entry
    have knownBound : known < layout.sizeRange :=
      below.trans_lt (wellFormed.encodes _ current currentId).1
    exact Layout.makeClock_le_iff knownBound bound decodes

end Clocks

end Drace
