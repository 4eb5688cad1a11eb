/-
This file abstracts the detector to its clocks: which vector clock is kept for
which thread, mutex or identifier, and the current id of every thread.

A clock is well formed when each of its entries names a registered thread, is an
id of that thread no newer than the thread's current one, and the thread itself
has published its current id in its own clock. The lemmas say how the elementary
changes the calls are made of keep this, and what they do to the known clocks.
-/

import Mathlib
import Drace.Fasttrack

namespace Drace

/-- What a vector clock is kept for. -/
inductive Carrier
  | thread (tid : ℕ)
  | mutex (mutex : ℕ)
  | identifier (identifier : ℕ)
  deriving DecidableEq

/-- The clocks of a detector state: the vector clock of each carrier and the id of each thread. -/
@[ext]
structure Clocks where
  clockAt : Carrier → Option VectorClock
  idOf : ℕ → Option ℕ

/-- The clocks of the detector. -/
def Fasttrack.clocks (ft : Fasttrack) : Clocks where
  clockAt
    | .thread tid => (ft.threads.lookup tid).map fun thread => thread.toVectorClock
    | .mutex mutex => ft.locks.lookup mutex
    | .identifier identifier => ft.happensStates.lookup identifier
  idOf tid := (ft.threads.lookup tid).map fun thread => thread.id

namespace Clocks

/-! ### Elementary changes -/

/-- A thread gets a new clock and id. -/
def setThread (clocks : Clocks) (tid : ℕ) (clock : VectorClock) (id : ℕ) : Clocks where
  clockAt := Function.update clocks.clockAt (.thread tid) (some clock)
  idOf := Function.update clocks.idOf tid (some id)

/-- A mutex or identifier gets a new clock. -/
def setClock (clocks : Clocks) (carrier : Carrier) (clock : VectorClock) : Clocks :=
  { clocks with clockAt := Function.update clocks.clockAt carrier (some clock) }

/-- A thread is taken off the table. -/
def remove (clocks : Clocks) (tid : ℕ) : Clocks where
  clockAt := Function.update clocks.clockAt (.thread tid) none
  idOf := Function.update clocks.idOf tid none

/-- All entries of a tid are deleted. -/
def sweep (clocks : Clocks) (tid : ℕ) : Clocks :=
  { clocks with clockAt := fun carrier => (clocks.clockAt carrier).map fun clock =>
    clock.deleteVc tid }

variable {layout : Layout} {clocks : Clocks} {carrier other : Carrier}
  {clock added own : VectorClock}
  {tid key id : ℕ}

@[simp]
theorem clockAt_setThread_self : (clocks.setThread tid clock id).clockAt (.thread tid) =
    some clock := by
  simp [setThread]

theorem clockAt_setThread_of_ne (differs : carrier ≠ .thread tid) :
    (clocks.setThread tid clock id).clockAt carrier = clocks.clockAt carrier :=
  Function.update_of_ne differs _ _

@[simp]
theorem idOf_setThread_self : (clocks.setThread tid clock id).idOf tid = some id := by
  simp [setThread]

theorem idOf_setThread_of_ne (differs : key ≠ tid) :
    (clocks.setThread tid clock id).idOf key = clocks.idOf key :=
  Function.update_of_ne differs _ _

@[simp]
theorem clockAt_setClock_self : (clocks.setClock carrier clock).clockAt carrier = some clock := by
  simp [setClock]

theorem clockAt_setClock_of_ne (differs : other ≠ carrier) :
    (clocks.setClock carrier clock).clockAt other = clocks.clockAt other :=
  Function.update_of_ne differs _ _

@[simp]
theorem idOf_setClock : (clocks.setClock carrier clock).idOf = clocks.idOf := rfl

@[simp]
theorem clockAt_remove_self : (clocks.remove tid).clockAt (.thread tid) = none := by simp [remove]

theorem clockAt_remove_of_ne (differs : carrier ≠ .thread tid) :
    (clocks.remove tid).clockAt carrier = clocks.clockAt carrier :=
  Function.update_of_ne differs _ _

@[simp]
theorem idOf_remove_self : (clocks.remove tid).idOf tid = none := by simp [remove]

theorem idOf_remove_of_ne (differs : key ≠ tid) : (clocks.remove tid).idOf key = clocks.idOf key :=
  Function.update_of_ne differs _ _

@[simp]
theorem clockAt_sweep :
    (clocks.sweep tid).clockAt carrier = (clocks.clockAt carrier).map fun clock =>
      clock.deleteVc tid :=
  rfl

@[simp]
theorem idOf_sweep : (clocks.sweep tid).idOf = clocks.idOf := rfl

theorem setThread_same (kept : clocks.clockAt (.thread tid) = some clock)
    (current : clocks.idOf tid = some id) : clocks.setThread tid clock id = clocks := by
  refine Clocks.ext ?_ ?_
  · exact Function.update_eq_self_iff.mpr kept.symm
  · exact Function.update_eq_self_iff.mpr current.symm

theorem setClock_same (kept : clocks.clockAt carrier = some clock) :
    clocks.setClock carrier clock = clocks :=
  Clocks.ext (Function.update_eq_self_iff.mpr kept.symm) rfl

theorem remove_absent (noClock : clocks.clockAt (.thread tid) = none)
    (noId : clocks.idOf tid = none) : clocks.remove tid = clocks := by
  refine Clocks.ext ?_ ?_
  · exact Function.update_eq_self_iff.mpr noClock.symm
  · exact Function.update_eq_self_iff.mpr noId.symm

theorem remove_setThread : (clocks.setThread tid clock id).remove tid = clocks.remove tid := by
  refine Clocks.ext ?_ ?_ <;> exact Function.update_idem _ _ _

theorem setThread_comm {otherClock : VectorClock} {otherId : ℕ} (differs : key ≠ tid) :
    (clocks.setThread tid clock id).setThread key otherClock otherId =
      (clocks.setThread key otherClock otherId).setThread tid clock id := by
  refine Clocks.ext ?_ ?_
  · exact (Function.update_comm (by simpa using differs.symm) _ _ _)
  · exact (Function.update_comm differs.symm _ _ _)

/-- A clock that is replaced later need not be put in place first. -/
theorem setClock_setThread_setClock {identifier : ℕ} :
    ((clocks.setClock (.identifier identifier) own).setThread tid clock id).setClock
        (.identifier identifier) added =
      (clocks.setThread tid clock id).setClock (.identifier identifier) added := by
  refine Clocks.ext ?_ rfl
  funext carrier
  by_cases same : carrier = .identifier identifier
  · rw [same, clockAt_setClock_self, clockAt_setClock_self]
  · rw [clockAt_setClock_of_ne same, clockAt_setClock_of_ne same]
    by_cases atThread : carrier = .thread tid
    · rw [atThread, clockAt_setThread_self, clockAt_setThread_self]
    · rw [clockAt_setThread_of_ne atThread, clockAt_setThread_of_ne atThread,
        clockAt_setClock_of_ne same]

/-! ### Well-formedness -/

/-- Every entry of the clock is an id of a registered thread, no newer than the thread's current
id, and the thread's own clock holds its current id. -/
def Known (layout : Layout) (clocks : Clocks) (clock : VectorClock) : Prop :=
  ∀ key id, clock.vc.lookup key = some id → ∃ current own, clocks.idOf key = some current ∧
    layout.makeTid id = key ∧ id ≤ current ∧ clocks.clockAt (.thread key) = some own ∧
    own.vc.lookup key = some current

/-- The ids of the registered threads decode to their tids, and every kept clock is known. -/
structure WellFormed (layout : Layout) (clocks : Clocks) : Prop where
  encodes : ∀ tid id, clocks.idOf tid = some id → id < layout.sizeRange ∧ layout.makeTid id = tid
  known : ∀ carrier clock, clocks.clockAt carrier = some clock → clocks.Known layout clock

theorem known_empty : clocks.Known layout {} := by
  intro key id found
  simp at found

theorem Known.update (known : clocks.Known layout clock) (addedKnown : clocks.Known layout added) :
    clocks.Known layout (clock.update added) := by
  intro key id found
  rw [VectorClock.lookup_update] at found
  rcases VectorClock.joinEntry_eq_some found with first | second
  · exact known key id first
  · exact addedKnown key id second

theorem Known.updateEntry (known : clocks.Known layout clock) (current : clocks.idOf tid = some id)
    (decodes : layout.makeTid id = tid) (kept : clocks.clockAt (.thread tid) = some own)
    (published : own.vc.lookup tid = some id) : clocks.Known layout (clock.updateEntry tid id) := by
  intro key entry found
  rw [VectorClock.lookup_updateEntry] at found
  split at found
  · next same =>
    subst same
    have entryEq := Option.some.inj found
    cases old : clock.vc.lookup key with
    | none =>
      rw [VectorClock.getIdByTid, old, Nat.zero_max] at entryEq
      exact ⟨id, own, current, entryEq ▸ decodes, entryEq.ge, kept, published⟩
    | some before =>
      obtain ⟨now, _, currentNow, decodesOld, below, _, _⟩ := known key before old
      obtain ⟨rfl⟩ : now = id := Option.some.inj (currentNow.symm.trans current)
      rw [VectorClock.getIdByTid_of_lookup old, max_eq_right below] at entryEq
      exact ⟨id, own, current, entryEq ▸ decodes, entryEq.ge, kept, published⟩
  · exact known key entry found

/-- Knowledge survives a change that keeps every published thread published with an id that is
no older. -/
theorem Known.mono {next : Clocks} (known : clocks.Known layout clock)
    (grows : ∀ key current own, clocks.idOf key = some current →
      clocks.clockAt (.thread key) = some own → own.vc.lookup key = some current →
      ∃ later ownLater, next.idOf key = some later ∧ current ≤ later ∧
        next.clockAt (.thread key) = some ownLater ∧ ownLater.vc.lookup key = some later) :
    next.Known layout clock := by
  intro key id found
  obtain ⟨current, own, currentId, decodes, below, kept, published⟩ := known key id found
  obtain ⟨later, ownLater, laterId, above, keptLater, publishedLater⟩ :=
    grows key current own currentId kept published
  exact ⟨later, ownLater, laterId, decodes, below.trans above, keptLater, publishedLater⟩

/-- A clock change of one thread that publishes its id keeps the knowledge of all clocks. -/
theorem Known.setThread (known : clocks.Known layout added)
    (published : ∀ current own, clocks.idOf tid = some current →
      clocks.clockAt (.thread tid) = some own → own.vc.lookup tid = some current →
      current ≤ id ∧ clock.vc.lookup tid = some id) :
    (clocks.setThread tid clock id).Known layout added := by
  refine known.mono fun key current own currentId kept publishedBefore => ?_
  by_cases same : key = tid
  · subst same
    obtain ⟨above, publishedNow⟩ := published current own currentId kept publishedBefore
    exact ⟨id, clock, idOf_setThread_self, above, clockAt_setThread_self, publishedNow⟩
  · refine ⟨current, own, ?_, le_rfl, ?_, publishedBefore⟩
    · rw [idOf_setThread_of_ne same, currentId]
    · rw [clockAt_setThread_of_ne (by simpa using same), kept]

theorem WellFormed.setThread (wellFormed : clocks.WellFormed layout)
    (encodes : id < layout.sizeRange ∧ layout.makeTid id = tid)
    (published : ∀ current own, clocks.idOf tid = some current →
      clocks.clockAt (.thread tid) = some own → own.vc.lookup tid = some current →
      current ≤ id ∧ clock.vc.lookup tid = some id)
    (known : (clocks.setThread tid clock id).Known layout clock) :
    (clocks.setThread tid clock id).WellFormed layout where
  encodes := by
    intro key current found
    by_cases same : key = tid
    · subst same
      rw [idOf_setThread_self] at found
      exact Option.some.inj found ▸ encodes
    · exact wellFormed.encodes key current (by rwa [idOf_setThread_of_ne same] at found)
  known := by
    intro carrier kept found
    by_cases same : carrier = .thread tid
    · subst same
      rw [clockAt_setThread_self] at found
      exact Option.some.inj found ▸ known
    · rw [clockAt_setThread_of_ne same] at found
      exact (wellFormed.known carrier kept found).setThread published

/-- Counting a clock up, below the clock maximum, publishes the new id. -/
theorem WellFormed.tick (wellFormed : clocks.WellFormed layout)
    (current : clocks.idOf tid = some id)
    (kept : clocks.clockAt (.thread tid) = some clock)
    (room : layout.makeClock id + 1 < layout.clockRange) :
    (clocks.setThread tid ⟨clock.vc.insert tid (id + 1)⟩ (id + 1)).WellFormed layout := by
  obtain ⟨bound, decodes⟩ := wellFormed.encodes tid id current
  obtain ⟨_, next, sameTid, _⟩ := Layout.succ_id bound room
  have published : ∀ before own, clocks.idOf tid = some before →
      clocks.clockAt (.thread tid) = some own → own.vc.lookup tid = some before →
      before ≤ id + 1 ∧ (clock.vc.insert tid (id + 1)).lookup tid = some (id + 1) := by
    intro before own found _ _
    obtain ⟨rfl⟩ : before = id := Option.some.inj (found.symm.trans current)
    exact ⟨Nat.le_succ _, AList.lookup_insert _⟩
  refine wellFormed.setThread ⟨next, sameTid.trans decodes⟩ published ?_
  intro key entry found
  rw [AList.lookup_insert_eq_ite] at found
  split at found
  · next same =>
    subst same
    have entryEq := Option.some.inj found
    exact ⟨id + 1, _, idOf_setThread_self, entryEq ▸ sameTid.trans decodes, entryEq.ge,
      clockAt_setThread_self, AList.lookup_insert _⟩
  · exact (wellFormed.known _ clock kept).setThread published key entry found

/-- Merging a known clock into a thread's clock. -/
theorem WellFormed.merge (wellFormed : clocks.WellFormed layout)
    (current : clocks.idOf tid = some id) (kept : clocks.clockAt (.thread tid) = some clock)
    (known : clocks.Known layout added) :
    (clocks.setThread tid (clock.update added) id).WellFormed layout := by
  have published : ∀ before own, clocks.idOf tid = some before →
      clocks.clockAt (.thread tid) = some own → own.vc.lookup tid = some before →
      before ≤ id ∧ (clock.update added).vc.lookup tid = some id := by
    intro before own found keptOwn ownEntry
    obtain ⟨rfl⟩ : before = id := Option.some.inj (found.symm.trans current)
    obtain ⟨rfl⟩ : own = clock := Option.some.inj (keptOwn.symm.trans kept)
    refine ⟨le_rfl, ?_⟩
    rw [VectorClock.lookup_update, ownEntry]
    cases entry : added.vc.lookup tid with
    | none => rfl
    | some new =>
      obtain ⟨now, _, nowId, _, below, _⟩ := known tid new entry
      obtain ⟨rfl⟩ : now = id := Option.some.inj (nowId.symm.trans current)
      rw [VectorClock.joinEntry, max_eq_left below]
  refine wellFormed.setThread (wellFormed.encodes tid id current) published ?_
  exact ((wellFormed.known _ clock kept).update known).setThread published

/-- A mutex or identifier takes over a known clock. -/
theorem WellFormed.setClock (wellFormed : clocks.WellFormed layout)
    (notThread : ∀ tid, carrier ≠ .thread tid) (known : clocks.Known layout clock) :
    (clocks.setClock carrier clock).WellFormed layout := by
  have keeps : ∀ added, clocks.Known layout added →
      (clocks.setClock carrier clock).Known layout added := by
    intro added addedKnown
    refine addedKnown.mono fun key current own currentId kept published => ?_
    refine ⟨current, own, currentId, le_rfl, ?_, published⟩
    rw [clockAt_setClock_of_ne (notThread key).symm, kept]
  refine ⟨wellFormed.encodes, fun other kept found => ?_⟩
  by_cases same : other = carrier
  · subst same
    rw [clockAt_setClock_self] at found
    exact Option.some.inj found ▸ keeps clock known
  · rw [clockAt_setClock_of_ne same] at found
    exact keeps kept (wellFormed.known other kept found)

/-- A new thread starts at clock 0, either with an entry for itself or with a known clock. -/
theorem WellFormed.spawn (wellFormed : clocks.WellFormed layout) (bound : tid < layout.tidRange)
    (absent : clocks.idOf tid = none)
    (origin : clocks.Known layout clock ∨
      clock = ⟨(∅ : AList fun _ : ℕ => ℕ).insert tid (layout.makeId tid)⟩) :
    (clocks.setThread tid clock (layout.makeId tid)).WellFormed layout := by
  have published : ∀ before own, clocks.idOf tid = some before →
      clocks.clockAt (.thread tid) = some own → own.vc.lookup tid = some before →
      before ≤ layout.makeId tid ∧ clock.vc.lookup tid = some (layout.makeId tid) := by
    intro before _ found
    rw [absent] at found
    cases found
  refine wellFormed.setThread ⟨Layout.makeId_lt, Layout.makeTid_makeId bound⟩ published ?_
  rcases origin with known | rfl
  · exact known.setThread published
  · intro key entry found
    rw [AList.lookup_insert_eq_ite] at found
    split at found
    · next same =>
      subst same
      obtain ⟨rfl⟩ := Option.some.inj found
      exact ⟨_, _, idOf_setThread_self, Layout.makeTid_makeId bound, le_rfl, clockAt_setThread_self,
        AList.lookup_insert _⟩
    · simp at found

/-- Sweeping a tid out of every clock. -/
theorem WellFormed.sweep (wellFormed : clocks.WellFormed layout) :
    (clocks.sweep tid).WellFormed layout := by
  refine ⟨wellFormed.encodes, fun carrier kept found => ?_⟩
  obtain ⟨clock, before, rfl⟩ := Option.map_eq_some_iff.mp found
  intro key id entry
  rw [VectorClock.deleteVc, AList.lookup_erase_eq_ite] at entry
  split at entry
  · cases entry
  · next differs =>
    obtain ⟨current, own, currentId, decodes, below, keptOwn, published⟩ :=
      wellFormed.known carrier clock before key id entry
    refine ⟨current, own.deleteVc tid, currentId, decodes, below, ?_, ?_⟩
    · rw [clockAt_sweep, keptOwn]
      rfl
    · rw [VectorClock.deleteVc, AList.lookup_erase_ne differs, published]

/-- Removing a thread and sweeping its tid. -/
theorem WellFormed.removeSweep (wellFormed : clocks.WellFormed layout) :
    ((clocks.remove tid).sweep tid).WellFormed layout := by
  constructor
  · intro key id found
    by_cases same : key = tid
    · subst same
      rw [idOf_sweep, idOf_remove_self] at found
      cases found
    · rw [idOf_sweep, idOf_remove_of_ne same] at found
      exact wellFormed.encodes key id found
  · intro carrier kept found
    obtain ⟨clock, before, rfl⟩ := Option.map_eq_some_iff.mp found
    have notSelf : carrier ≠ .thread tid := by
      rintro rfl
      rw [clockAt_remove_self] at before
      cases before
    rw [clockAt_remove_of_ne notSelf] at before
    intro key id entry
    rw [VectorClock.deleteVc, AList.lookup_erase_eq_ite] at entry
    split at entry
    · cases entry
    · next differs =>
      obtain ⟨current, own, currentId, decodes, below, keptOwn, published⟩ :=
        wellFormed.known carrier clock before key id entry
      refine ⟨current, own.deleteVc tid, ?_, decodes, below, ?_, ?_⟩
      · rw [idOf_sweep, idOf_remove_of_ne differs, currentId]
      · rw [clockAt_sweep, clockAt_remove_of_ne (by simpa using differs), keptOwn]
        rfl
      · rw [VectorClock.deleteVc, AList.lookup_erase_ne differs, published]

end Clocks

end Drace
