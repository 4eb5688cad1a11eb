/-
This file says once what a call does to the clocks of the detector.

`ClockStep` is the vector clock protocol on its own: one rule for each way a call
ends, guards included, with the new clocks written as elementary changes of the
old ones. Every defined call in a well-formed state is such a step, as long as no
clock is about to reach its maximum, and every step keeps well-formedness.
-/

import Drace.Run

namespace Drace

/-- The calls that never touch a clock. -/
def Event.keepsClocks : Event → Bool
  | .read .. | .write .. | .funcEnter .. | .funcExit .. | .allocate .. | .deallocate .. => true
  | .detach .. | .mapShadow .. => true
  | _ => false

namespace Clocks

/-- Counts up the clock of a thread. -/
def tick (clocks : Clocks) (tid : ℕ) (clock : VectorClock) (id : ℕ) : Clocks :=
  clocks.setThread tid ⟨clock.vc.insert tid (id + 1)⟩ (id + 1)

/-- The clock kept for a carrier, empty if it is only being created. -/
def clockOrNew (clocks : Clocks) (carrier : Carrier) : VectorClock :=
  (clocks.clockAt carrier).getD {}

/-- A thread is registered with this clock and id. -/
def Holds (clocks : Clocks) (tid : ℕ) (clock : VectorClock) (id : ℕ) : Prop :=
  clocks.clockAt (.thread tid) = some clock ∧ clocks.idOf tid = some id

variable {clocks : Clocks} {carrier : Carrier} {clock added : VectorClock} {tid id : ℕ}

theorem clockOrNew_of_none (unknown : clocks.clockAt carrier = none) :
    clocks.clockOrNew carrier = {} := by rw [clockOrNew, unknown, Option.getD_none]

theorem clockOrNew_of_some (kept : clocks.clockAt carrier = some clock) :
    clocks.clockOrNew carrier = clock := by rw [clockOrNew, kept, Option.getD_some]

/-- The clock of a mutex or identifier is not that of a thread. -/
theorem Holds.setClock (holds : clocks.Holds tid clock id) (differs : .thread tid ≠ carrier) :
    (clocks.setClock carrier added).Holds tid clock id :=
  ⟨(clockAt_setClock_of_ne differs).trans holds.1, holds.2⟩

end Clocks

open Clocks

/-- What a call does to the clocks. -/
inductive ClockStep (layout : Layout) (before : Clocks) : Event → Clocks → Prop
  | keep {event : Event} : event.keepsClocks → ClockStep layout before event before
  | acquireRecursive {tls mutex : ℕ} {recursive : ℤ} {write : Bool} : 1 < recursive →
      ClockStep layout before (.acquire tls mutex recursive write) before
  | acquire {tls mutex id : ℕ} {recursive : ℤ} {write : Bool} {clock : VectorClock} :
      ¬ 1 < recursive → before.Holds tls clock id →
      ClockStep layout before (.acquire tls mutex recursive write)
        ((before.setClock (.mutex mutex) (before.clockOrNew (.mutex mutex))).setThread tls
          (clock.update (before.clockOrNew (.mutex mutex))) id)
  | releaseUnknown {tls mutex : ℕ} {write : Bool} : before.clockAt (.mutex mutex) = none →
      ClockStep layout before (.release tls mutex write) (before.setClock (.mutex mutex) {})
  | release {tls mutex id : ℕ} {write : Bool} {clock lock : VectorClock} :
      before.clockAt (.mutex mutex) = some lock → before.Holds tls clock id →
      ClockStep layout before (.release tls mutex write)
        ((before.tick tls clock id).setClock (.mutex mutex)
          (lock.update ⟨clock.vc.insert tls (id + 1)⟩))
  | happensBefore {tls identifier id : ℕ} {clock : VectorClock} : before.Holds tls clock id →
      ClockStep layout before (.happensBefore tls identifier)
        ((before.tick tls clock id).setClock (.identifier identifier)
          ((before.clockOrNew (.identifier identifier)).updateEntry tls (id + 1)))
  | happensAfterUnknown {tls identifier : ℕ} : before.clockAt (.identifier identifier) = none →
      ClockStep layout before (.happensAfter tls identifier)
        (before.setClock (.identifier identifier) {})
  | happensAfter {tls identifier id : ℕ} {clock state : VectorClock} :
      before.clockAt (.identifier identifier) = some state → before.Holds tls clock id →
      ClockStep layout before (.happensAfter tls identifier)
        (before.setThread tls (clock.update state) id)
  | forkOrphan {parent child : ℕ} : before.idOf parent = none →
      before.idOf (child % layout.tidRange) = none →
      ClockStep layout before (.fork parent child)
        (before.setThread (child % layout.tidRange)
          ⟨(∅ : AList fun _ : ℕ => ℕ).insert (child % layout.tidRange)
            (layout.makeId (child % layout.tidRange))⟩
          (layout.makeId (child % layout.tidRange)))
  | forkOrphanAgain {parent child : ℕ} : before.idOf parent = none →
      before.idOf (child % layout.tidRange) ≠ none →
        ClockStep layout before (.fork parent child) before
  | fork {parent child id : ℕ} {clock : VectorClock} : before.Holds parent clock id →
      before.idOf (child % layout.tidRange) = none →
      ClockStep layout before (.fork parent child)
        ((before.tick parent clock id).setThread (child % layout.tidRange)
          ⟨clock.vc.insert parent (id + 1)⟩ (layout.makeId (child % layout.tidRange)))
  | forkAgain {parent child id : ℕ} {clock : VectorClock} : before.Holds parent clock id →
      before.idOf (child % layout.tidRange) ≠ none →
      ClockStep layout before (.fork parent child) (before.tick parent clock id)
  | joinInvalid {parent child : ℕ} : before.idOf parent = none ∨ before.idOf child = none →
      ClockStep layout before (.join parent child) before
  | joinSelf {child : ℕ} : before.idOf child ≠ none →
      ClockStep layout before (.join child child) ((before.remove child).sweep child)
  | join {parent child id parentId : ℕ} {clock parentClock : VectorClock} : parent ≠ child →
      before.Holds child clock id → before.Holds parent parentClock parentId →
      ClockStep layout before (.join parent child)
        (((before.setThread parent (parentClock.update ⟨clock.vc.insert child (id + 1)⟩)
          parentId).remove child).sweep child)
  | finishUnknown {tls threadId : ℕ} : before.idOf threadId = none →
      ClockStep layout before (.finish tls threadId) (before.sweep (threadId % layout.tidRange))
  | finish {tls threadId : ℕ} : before.idOf threadId ≠ none →
      ClockStep layout before (.finish tls threadId) ((before.remove threadId).sweep threadId)
  | finalize : ClockStep layout before .finalize ⟨fun _ => none, fun _ => none⟩

/-! ### The clocks after the elementary changes of the detector -/

namespace Fasttrack

variable {layout : Layout} {ft next : Fasttrack} {tls tid id : ℕ} {thread : ThreadState}
  {clock : VectorClock}

theorem holds_of_lookup (found : ft.threads.lookup tls = some thread) :
    ft.clocks.Holds tls thread.toVectorClock thread.id := by
  simp [Clocks.Holds, clocks, found]

theorem idOf_eq_none : ft.clocks.idOf tid = none ↔ ft.threads.lookup tid = none := by
  simp [clocks]

theorem idOf_ne_none : ft.clocks.idOf tid ≠ none ↔ tid ∈ ft.threads := by
  rw [ne_eq, idOf_eq_none, AList.lookup_eq_none, not_not]

theorem mem_threads_of_lookup (found : ft.threads.lookup tls = some thread) : tls ∈ ft.threads := by
  rw [← AList.lookup_isSome, found]
  rfl

theorem clocks_setThread :
    (ft.setThread tls thread).clocks = ft.clocks.setThread tls thread.toVectorClock thread.id := by
  refine Clocks.ext ?_ ?_
  · funext carrier
    cases carrier with
    | thread tid =>
      by_cases same : tid = tls
      · subst same
        simp [clocks, setThread]
      · rw [Clocks.clockAt_setThread_of_ne (by simpa using same)]
        simp [clocks, setThread, AList.lookup_insert_ne same]
    | mutex mutex => rw [Clocks.clockAt_setThread_of_ne (by simp)]; rfl
    | identifier identifier => rw [Clocks.clockAt_setThread_of_ne (by simp)]; rfl
  · funext tid
    by_cases same : tid = tls
    · subst same
      simp [clocks, setThread]
    · rw [Clocks.idOf_setThread_of_ne same]
      simp [clocks, setThread, AList.lookup_insert_ne same]

theorem clocks_insertLock (ft : Fasttrack) (mutex : ℕ) (clock : VectorClock) :
    ({ ft with locks := ft.locks.insert mutex clock } : Fasttrack).clocks =
      ft.clocks.setClock (.mutex mutex) clock := by
  refine Clocks.ext ?_ rfl
  funext carrier
  by_cases same : carrier = .mutex mutex
  · subst same
    simp [clocks]
  · rw [Clocks.clockAt_setClock_of_ne same]
    cases carrier with
    | mutex other => exact AList.lookup_insert_ne (by simpa using same)
    | _ => rfl

theorem clocks_insertHappens (ft : Fasttrack) (identifier : ℕ) (clock : VectorClock) :
    ({ ft with happensStates := ft.happensStates.insert identifier clock } : Fasttrack).clocks =
      ft.clocks.setClock (.identifier identifier) clock := by
  refine Clocks.ext ?_ rfl
  funext carrier
  by_cases same : carrier = .identifier identifier
  · subst same
    simp [clocks]
  · rw [Clocks.clockAt_setClock_of_ne same]
    cases carrier with
    | identifier other => exact AList.lookup_insert_ne (by simpa using same)
    | _ => rfl

theorem clocks_createLock (mutex : ℕ) :
    (ft.createLock mutex).clocks =
      ft.clocks.setClock (.mutex mutex) (ft.clocks.clockOrNew (.mutex mutex)) := by
  unfold createLock
  split
  · next member =>
    obtain ⟨lock, found⟩ := AList.exists_lookup member
    have kept : ft.clocks.clockAt (.mutex mutex) = some lock := found
    rw [Clocks.clockOrNew_of_some kept]
    exact (Clocks.setClock_same kept).symm
  · next absent =>
    have none : ft.clocks.clockAt (.mutex mutex) = none := AList.lookup_eq_none.mpr absent
    rw [clocks_insertLock ft, Clocks.clockOrNew_of_none none]

theorem clocks_createHappens (identifier : ℕ) :
    (ft.createHappens identifier).clocks =
      ft.clocks.setClock (.identifier identifier)
        (ft.clocks.clockOrNew (.identifier identifier)) := by
  unfold createHappens
  split
  · next member =>
    obtain ⟨state, found⟩ := AList.exists_lookup member
    have kept : ft.clocks.clockAt (.identifier identifier) = some state := found
    rw [Clocks.clockOrNew_of_some kept]
    exact (Clocks.setClock_same kept).symm
  · next absent =>
    have none : ft.clocks.clockAt (.identifier identifier) = none := AList.lookup_eq_none.mpr absent
    rw [clocks_insertHappens ft, Clocks.clockOrNew_of_none none]

theorem clocks_eraseThread :
    ({ ft with threads := ft.threads.erase tid } : Fasttrack).clocks = ft.clocks.remove tid := by
  refine Clocks.ext ?_ ?_
  · funext carrier
    cases carrier with
    | thread key =>
      by_cases same : key = tid
      · subst same
        simp [clocks]
      · rw [Clocks.clockAt_remove_of_ne (by simpa using same)]
        simp [clocks, AList.lookup_erase_ne same]
    | mutex mutex => rw [Clocks.clockAt_remove_of_ne (by simp)]; rfl
    | identifier identifier => rw [Clocks.clockAt_remove_of_ne (by simp)]; rfl
  · funext key
    by_cases same : key = tid
    · subst same
      simp [clocks]
    · rw [Clocks.idOf_remove_of_ne same]
      simp [clocks, AList.lookup_erase_ne same]

theorem clocks_cleanup : (ft.cleanup layout tid).clocks =
    ft.clocks.sweep (tid % layout.tidRange) := by
  have same : tid % 0x100000000 % layout.tidRange = tid % layout.tidRange :=
    Nat.mod_mod_of_dvd tid layout.tidRange_dvd
  refine Clocks.ext ?_ ?_
  · funext carrier
    unfold cleanup
    rw [same]
    cases carrier <;> simp [clocks, Function.comp_def]
  · funext key
    unfold cleanup
    simp [clocks, Function.comp_def]

/-- A new stack depot leaves the clocks alone. -/
theorem clocks_setDepot (found : ft.threads.lookup tls = some thread) (depot : StackTrace) :
    (ft.setThread tls { thread with traceDepot := depot }).clocks = ft.clocks := by
  rw [clocks_setThread]
  exact Clocks.setThread_same (holds_of_lookup found).1 (holds_of_lookup found).2

theorem clocks_countRule (rule : Rule) : (ft.countRule rule).clocks = ft.clocks := by
  unfold countRule
  split <;> rfl

/-! ### Every call is a clock step -/

/-- Below the clock maximum, counting up adds one to the id and publishes it. -/
theorem incVc_eq (wellFormed : ft.clocks.WellFormed layout) (room : ft.clocks.Room layout)
    (found : ft.threads.lookup tls = some thread) :
    (thread.incVc layout).id = thread.id + 1 ∧
      (thread.incVc layout).toVectorClock = ⟨thread.vc.insert tls (thread.id + 1)⟩ := by
  have current := (holds_of_lookup found).2
  obtain ⟨bound, decodes⟩ := wellFormed.encodes tls thread.id current
  obtain ⟨noWrap, _, sameTid, _⟩ := Layout.succ_id bound (room tls thread.id current)
  have idEq : (thread.incVc layout).id = thread.id + 1 := noWrap
  refine ⟨idEq, ?_⟩
  rw [ThreadState.toVectorClock_incVc, idEq, sameTid, decodes]

theorem clocks_tick (wellFormed : ft.clocks.WellFormed layout) (room : ft.clocks.Room layout)
    (found : ft.threads.lookup tls = some thread) :
    (ft.setThread tls (thread.incVc layout)).clocks =
      ft.clocks.tick tls thread.toVectorClock thread.id := by
  obtain ⟨idEq, clockEq⟩ := incVc_eq wellFormed room found
  rw [clocks_setThread, idEq, clockEq]
  rfl

theorem clocks_createThread (tid : ℕ) (parent : Option ThreadState) :
    (ft.createThread layout tid parent).1.clocks =
      if ft.clocks.idOf (tid % layout.tidRange) = none then
        ft.clocks.setThread (tid % layout.tidRange)
          (ThreadState.new layout (tid % layout.tidRange) parent).toVectorClock
          (layout.makeId (tid % layout.tidRange))
      else ft.clocks := by
  unfold createThread
  by_cases member : tid % layout.tidRange ∈ ft.threads
  · simp only [if_pos member]
    rw [if_neg (idOf_ne_none.mpr member)]
  · simp only [if_neg member]
    rw [if_pos (idOf_eq_none.mpr (AList.lookup_eq_none.mpr member)), clocks_setThread,
      ThreadState.id_new]

theorem clockStep_access (found : ft.threads.lookup tls = some thread) (pc addr : ℕ)
    (result : VarState × List Race × Rule) :
    ((ft.recordAccess tls thread pc addr).storeAccess addr result).1.clocks = ft.clocks := by
  unfold storeAccess
  rw [clocks_countRule]
  exact clocks_setDepot found _

theorem clockStep_fork (wellFormed : ft.clocks.WellFormed layout) (room : ft.clocks.Room layout)
    (parent child : ℕ) :
    ClockStep layout ft.clocks (.fork parent child) (ft.fork layout parent child).1.clocks := by
  unfold fork
  cases found : ft.threads.lookup parent with
  | none =>
    have orphan : ft.clocks.idOf parent = none := idOf_eq_none.mpr found
    simp only
    rw [clocks_createThread]
    split
    · next absent => exact .forkOrphan orphan absent
    · next present => exact .forkOrphanAgain orphan present
  | some thread =>
    have holds := holds_of_lookup found
    have sameThreads : (ft.clocks.tick parent thread.toVectorClock thread.id).idOf
          (child % layout.tidRange) = none ↔ ft.clocks.idOf (child % layout.tidRange) = none := by
      by_cases same : child % layout.tidRange = parent
      · rw [same, Clocks.tick, Clocks.idOf_setThread_self, holds.2]
        simp
      · rw [Clocks.tick, Clocks.idOf_setThread_of_ne same]
    simp only
    rw [clocks_createThread, clocks_tick wellFormed room found]
    split
    · next absent =>
      have clockEq : (ThreadState.new layout (child % layout.tidRange)
          (some (thread.incVc layout))).toVectorClock = ⟨thread.vc.insert parent (thread.id + 1)⟩ :=
        (incVc_eq wellFormed room found).2
      rw [clockEq]
      exact .fork holds (sameThreads.mp absent)
    · next present => exact .forkAgain holds (mt sameThreads.mpr present)

theorem clockStep_join (wellFormed : ft.clocks.WellFormed layout) (room : ft.clocks.Room layout)
    (parent child : ℕ) :
    ClockStep layout ft.clocks (.join parent child) (ft.join layout parent child).clocks := by
  unfold join
  cases foundChild : ft.threads.lookup child with
  | none => exact .joinInvalid (Or.inr (idOf_eq_none.mpr foundChild))
  | some thread =>
    cases foundParent : ft.threads.lookup parent with
    | none => exact .joinInvalid (Or.inl (idOf_eq_none.mpr foundParent))
    | some parentThread =>
      have holds := holds_of_lookup foundChild
      have small : child % layout.tidRange = child :=
        Nat.mod_eq_of_lt ((wellFormed.encodes child _ holds.2).2 ▸ Layout.makeTid_lt)
      have clockEq := (incVc_eq wellFormed room foundChild).2
      simp only
      rw [clocks_cleanup, clocks_eraseThread, small]
      by_cases same : parent = child
      · subst same
        have merged : ∀ change, ((ft.setThread parent (thread.incVc layout)).modifyThread parent
            change).clocks.remove parent = ft.clocks.remove parent := by
          intro change
          unfold modifyThread
          rw [setThread, AList.lookup_insert]
          simp only
          rw [clocks_setThread, Clocks.remove_setThread, ← setThread, clocks_setThread,
            Clocks.remove_setThread]
        rw [merged]
        exact .joinSelf (by rw [holds.2]; simp)
      · have merged : ((ft.setThread child (thread.incVc layout)).modifyThread parent fun other =>
              other.mergeClock (thread.incVc layout).toVectorClock).clocks.remove child =
            (ft.clocks.setThread parent
              (parentThread.toVectorClock.update ⟨thread.vc.insert child (thread.id + 1)⟩)
              parentThread.id).remove child := by
          unfold modifyThread
          rw [setThread, AList.lookup_insert_ne same, foundParent]
          simp only
          rw [← setThread, clocks_setThread, clocks_setThread, Clocks.setThread_comm same,
            Clocks.remove_setThread, clockEq]
          rfl
        rw [merged]
        exact .join same holds (holds_of_lookup foundParent)

theorem clockStep_acquire {mutex : ℕ} {recursive : ℤ} (write : Bool)
    (defined : ft.acquire tls mutex recursive = some next) :
    ClockStep layout ft.clocks (.acquire tls mutex recursive write) next.clocks := by
  unfold acquire at defined
  split at defined
  · next nested =>
    obtain ⟨rfl⟩ := Option.some.inj defined
    exact .acquireRecursive nested
  · next outermost =>
    have sameThreads : (ft.createLock mutex).threads = ft.threads := by
      unfold createLock
      split <;> rfl
    have lockEq : ((ft.createLock mutex).locks.lookup mutex).getD {} =
        ft.clocks.clockOrNew (.mutex mutex) := by
      have kept : (ft.createLock mutex).clocks.clockAt (.mutex mutex) =
          some (ft.clocks.clockOrNew (.mutex mutex)) := by
        rw [clocks_createLock, Clocks.clockAt_setClock_self]
      exact congrArg (fun clock => clock.getD {}) kept
    obtain ⟨thread, found, rfl⟩ := Option.map_eq_some_iff.mp defined
    rw [sameThreads] at found
    rw [clocks_setThread, clocks_createLock, lockEq]
    exact .acquire outermost (holds_of_lookup found)

theorem clockStep_release (wellFormed : ft.clocks.WellFormed layout) (room : ft.clocks.Room layout)
    {mutex : ℕ} (write : Bool) (defined : ft.release layout tls mutex = some next) :
    ClockStep layout ft.clocks (.release tls mutex write) next.clocks := by
  unfold release at defined
  cases foundLock : ft.locks.lookup mutex with
  | none =>
    rw [foundLock] at defined
    obtain ⟨rfl⟩ := Option.some.inj defined
    have unknown : ft.clocks.clockAt (.mutex mutex) = none := foundLock
    rw [clocks_createLock, Clocks.clockOrNew_of_none unknown]
    exact .releaseUnknown unknown
  | some lock =>
    rw [foundLock] at defined
    obtain ⟨thread, found, rfl⟩ := Option.map_eq_some_iff.mp defined
    have clockEq := (incVc_eq wellFormed room found).2
    have result := clocks_insertLock (ft.setThread tls (thread.incVc layout)) mutex
      (lock.update (thread.incVc layout).toVectorClock)
    rw [clocks_tick wellFormed room found] at result
    have kept : ft.clocks.clockAt (.mutex mutex) = some lock := foundLock
    have step : ClockStep layout ft.clocks (.release tls mutex write) _ :=
      .release kept (holds_of_lookup found)
    rw [← clockEq] at step
    exact result ▸ step

theorem clockStep_happensBefore (wellFormed : ft.clocks.WellFormed layout)
    (room : ft.clocks.Room layout) {identifier : ℕ}
    (defined : ft.happensBefore layout tls identifier = some next) :
    ClockStep layout ft.clocks (.happensBefore tls identifier) next.clocks := by
  unfold happensBefore at defined
  have sameThreads : (ft.createHappens identifier).threads = ft.threads := by
    unfold createHappens
    split <;> rfl
  have stateEq : ((ft.createHappens identifier).happensStates.lookup identifier).getD {} =
      ft.clocks.clockOrNew (.identifier identifier) := by
    have kept : (ft.createHappens identifier).clocks.clockAt (.identifier identifier) =
        some (ft.clocks.clockOrNew (.identifier identifier)) := by
      rw [clocks_createHappens, Clocks.clockAt_setClock_self]
    exact congrArg (fun clock => clock.getD {}) kept
  obtain ⟨thread, found, rfl⟩ := Option.map_eq_some_iff.mp defined
  rw [sameThreads] at found
  have holds := holds_of_lookup found
  obtain ⟨idEq, clockEq⟩ := incVc_eq wellFormed room found
  have tidEq : (thread.incVc layout).getTid layout = tls := by
    obtain ⟨bound, decodes⟩ := wellFormed.encodes tls thread.id holds.2
    obtain ⟨_, _, sameTid, _⟩ := Layout.succ_id bound (room tls thread.id holds.2)
    rw [ThreadState.getTid, idEq, sameTid, decodes]
  have result := clocks_insertHappens
    ((ft.createHappens identifier).setThread tls (thread.incVc layout)) identifier
    ((ft.clocks.clockOrNew (.identifier identifier)).updateEntry tls (thread.id + 1))
  rw [clocks_setThread, clocks_createHappens, idEq, clockEq,
    Clocks.setClock_setThread_setClock] at result
  simp only [stateEq, tidEq, ThreadState.returnOwnId, idEq]
  exact result ▸ .happensBefore holds

theorem clockStep_happensAfter {identifier : ℕ}
    (defined : ft.happensAfter tls identifier = some next) :
    ClockStep layout ft.clocks (.happensAfter tls identifier) next.clocks := by
  unfold happensAfter at defined
  cases foundState : ft.happensStates.lookup identifier with
  | none =>
    rw [foundState] at defined
    obtain ⟨rfl⟩ := Option.some.inj defined
    have unknown : ft.clocks.clockAt (.identifier identifier) = none := foundState
    rw [clocks_createHappens, Clocks.clockOrNew_of_none unknown]
    exact .happensAfterUnknown unknown
  | some state =>
    rw [foundState] at defined
    obtain ⟨thread, found, rfl⟩ := Option.map_eq_some_iff.mp defined
    rw [clocks_setThread]
    exact .happensAfter foundState (holds_of_lookup found)

theorem clockStep_finish (wellFormed : ft.clocks.WellFormed layout) (tls threadId : ℕ) :
    ClockStep layout ft.clocks (.finish tls threadId) (ft.finish layout threadId).clocks := by
  unfold finish
  rw [clocks_cleanup, clocks_eraseThread]
  cases found : ft.threads.lookup threadId with
  | none =>
    have noId : ft.clocks.idOf threadId = none := idOf_eq_none.mpr found
    have noClock : ft.clocks.clockAt (.thread threadId) = none := by simp [clocks, found]
    rw [Clocks.remove_absent noClock noId]
    exact .finishUnknown noId
  | some thread =>
    have holds := holds_of_lookup found
    rw [Nat.mod_eq_of_lt ((wellFormed.encodes threadId _ holds.2).2 ▸ Layout.makeTid_lt)]
    exact .finish (by rw [holds.2]; simp)

/-- In a well-formed state, and as long as no clock is about to reach its maximum, every defined
call is a step of the vector clock protocol. -/
theorem call_clockStep (wellFormed : ft.clocks.WellFormed layout) (room : ft.clocks.Room layout)
    {event : Event} {output : Output} (defined : ft.call layout event = some (next, output)) :
    ClockStep layout ft.clocks event next.clocks := by
  cases event with
  | read tls pc addr size =>
    obtain ⟨result, read, same⟩ := Option.map_eq_some_iff.mp defined
    obtain ⟨thread, found, rfl⟩ := Option.map_eq_some_iff.mp read
    obtain ⟨rfl, _⟩ := Prod.mk.inj same
    rw [clockStep_access found]
    exact .keep rfl
  | write tls pc addr size =>
    obtain ⟨result, write, same⟩ := Option.map_eq_some_iff.mp defined
    obtain ⟨thread, found, rfl⟩ := Option.map_eq_some_iff.mp write
    obtain ⟨rfl, _⟩ := Prod.mk.inj same
    rw [clockStep_access found]
    exact .keep rfl
  | funcEnter tls pc =>
    obtain ⟨entered, enter, same⟩ := Option.map_eq_some_iff.mp defined
    obtain ⟨thread, found, rfl⟩ := Option.map_eq_some_iff.mp enter
    obtain ⟨rfl, _⟩ := Prod.mk.inj same
    rw [clocks_setDepot found]
    exact .keep rfl
  | funcExit tls =>
    obtain ⟨left, exit, same⟩ := Option.map_eq_some_iff.mp defined
    obtain ⟨thread, found, popped⟩ := Option.bind_eq_some_iff.mp exit
    obtain ⟨depot, _, rfl⟩ := Option.map_eq_some_iff.mp popped
    obtain ⟨rfl, _⟩ := Prod.mk.inj same
    rw [clocks_setDepot found]
    exact .keep rfl
  | fork parent child =>
    obtain ⟨rfl, _⟩ := Prod.mk.inj (Option.some.inj defined)
    exact clockStep_fork wellFormed room parent child
  | join parent child =>
    obtain ⟨rfl, _⟩ := Prod.mk.inj (Option.some.inj defined)
    exact clockStep_join wellFormed room parent child
  | acquire tls mutex recursive write =>
    obtain ⟨after, acquired, same⟩ := Option.map_eq_some_iff.mp defined
    obtain ⟨rfl, _⟩ := Prod.mk.inj same
    exact clockStep_acquire write acquired
  | release tls mutex write =>
    obtain ⟨after, released, same⟩ := Option.map_eq_some_iff.mp defined
    obtain ⟨rfl, _⟩ := Prod.mk.inj same
    exact clockStep_release wellFormed room write released
  | happensBefore tls identifier =>
    obtain ⟨after, happens, same⟩ := Option.map_eq_some_iff.mp defined
    obtain ⟨rfl, _⟩ := Prod.mk.inj same
    exact clockStep_happensBefore wellFormed room happens
  | happensAfter tls identifier =>
    obtain ⟨after, happens, same⟩ := Option.map_eq_some_iff.mp defined
    obtain ⟨rfl, _⟩ := Prod.mk.inj same
    exact clockStep_happensAfter happens
  | allocate tls pc addr size =>
    obtain ⟨rfl, _⟩ := Prod.mk.inj (Option.some.inj defined)
    unfold allocate
    split <;> exact .keep rfl
  | deallocate tls addr =>
    obtain ⟨rfl, _⟩ := Prod.mk.inj (Option.some.inj defined)
    exact .keep rfl
  | detach tls threadId =>
    obtain ⟨rfl, _⟩ := Prod.mk.inj (Option.some.inj defined)
    exact .keep rfl
  | finish tls threadId =>
    obtain ⟨rfl, _⟩ := Prod.mk.inj (Option.some.inj defined)
    exact clockStep_finish wellFormed tls threadId
  | mapShadow startaddr sizeInBytes =>
    obtain ⟨rfl, _⟩ := Prod.mk.inj (Option.some.inj defined)
    exact .keep rfl
  | finalize =>
    obtain ⟨rfl, _⟩ := Prod.mk.inj (Option.some.inj defined)
    have cleared : ft.finalize.clocks = ⟨fun _ => none, fun _ => none⟩ := by
      refine Clocks.ext ?_ rfl
      funext carrier
      cases carrier <;> rfl
    exact cleared ▸ .finalize

end Fasttrack

end Drace
