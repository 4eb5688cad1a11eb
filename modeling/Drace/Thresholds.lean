/-
This file proves what each step of the clock protocol owes its thresholds.

No step lowers a threshold that is still kept. A step that puts its past at a
carrier raises that carrier's thresholds to those it has taken over, unless it
announces more than the identifier knows already, since only one entry is
published, or a lock is released that was never acquired. In the other direction,
no step raises a threshold above what it has taken, whatever the locks do.
-/

import Mathlib
import Drace.HappensBefore
import Drace.WellFormed

namespace Drace

open Causality Clocks

namespace Clocks

variable {layout : Layout} {before middle after : Clocks} {carrier source : Carrier}
  {clock old added : VectorClock} {tid key id current : ℕ}

/-! ### Thresholds do not drop -/

/-- No threshold that is kept for a thread that stays gets lower. -/
def Grows (before after : Clocks) : Prop :=
  ∀ carrier tid, before.snapshot.tracked carrier → before.idOf tid ≠ none →
    after.snapshot.tracked carrier → after.idOf tid ≠ none →
    before.view carrier tid ≤ after.view carrier tid

theorem Grows.refl : Grows before before := fun _ _ _ _ _ _ => le_rfl

theorem Grows.trans (first : Grows before middle) (second : Grows middle after)
    (stay : ∀ tid, before.idOf tid ≠ none → middle.idOf tid ≠ none) : Grows before after := by
  intro carrier tid tracked live trackedAfter liveAfter
  have trackedMiddle : middle.snapshot.tracked carrier := by
    cases carrier with
    | thread other => exact stay other tracked
    | _ => trivial
  exact (first carrier tid tracked live trackedMiddle (stay tid live)).trans
    (second carrier tid trackedMiddle (stay tid live) trackedAfter liveAfter)

theorem idOf_setThread_ne_none (live : before.idOf key ≠ none) :
    (before.setThread tid clock id).idOf key ≠ none := by
  by_cases same : key = tid
  · rw [same, idOf_setThread_self]
    simp
  · rwa [idOf_setThread_of_ne same]

theorem grows_setThread (holds : before.Holds tid old current)
    (entries : ∀ key, old.getIdByTid key ≤ clock.getIdByTid key) (later : current ≤ id) :
    Grows before (before.setThread tid clock id) := by
  intro carrier key _ live _ _
  by_cases own : carrier = .thread key
  · subst own
    obtain ⟨now, nowId⟩ := Option.ne_none_iff_exists'.mp live
    rw [view_own nowId]
    by_cases same : key = tid
    · subst same
      obtain ⟨rfl⟩ : now = current := Option.some.inj (nowId.symm.trans holds.2)
      rw [view_own idOf_setThread_self]
      exact Nat.succ_le_succ later
    · rw [view_own ((idOf_setThread_of_ne same).trans nowId)]
  · rw [view_other own, view_other own]
    by_cases same : carrier = .thread tid
    · subst same
      rw [clockOrNew_setThread_self, clockOrNew_of_holds holds]
      exact entries key
    · rw [clockOrNew_setThread_of_ne same]

theorem grows_setClock (notThread : ∀ tid, carrier ≠ .thread tid)
    (entries : ∀ key, (before.clockOrNew carrier).getIdByTid key ≤ clock.getIdByTid key) :
    Grows before (before.setClock carrier clock) := by
  intro other key _ _ _ _
  by_cases own : other = .thread key
  · exact le_of_eq (by rw [view, view, if_pos own, if_pos own, idOf_setClock])
  · rw [view_other own, view_other own]
    by_cases same : other = carrier
    · subst same
      rw [clockOrNew_setClock_self]
      exact entries key
    · rw [clockOrNew_setClock_of_ne same]

/-- A thread that is not registered yet has no threshold to lower. -/
theorem grows_spawn (absent : before.idOf tid = none) :
    Grows before (before.setThread tid clock id) := by
  intro carrier key tracked live _ _
  have other : key ≠ tid := by
    rintro rfl
    exact live absent
  have differs : carrier ≠ .thread tid := by
    rintro rfl
    exact tracked absent
  by_cases own : carrier = .thread key
  · exact le_of_eq (by rw [view, view, if_pos own, if_pos own, idOf_setThread_of_ne other])
  · rw [view_other own, view_other own, clockOrNew_setThread_of_ne differs]

/-- Deleting the entries of a thread that is not registered lowers nothing that counts. -/
theorem grows_sweep (absent : before.idOf tid = none) : Grows before (before.sweep tid) := by
  intro carrier key _ live _ _
  have other : key ≠ tid := by
    rintro rfl
    exact live absent
  by_cases own : carrier = .thread key
  · exact le_of_eq (by rw [view, view, if_pos own, if_pos own, idOf_sweep])
  · rw [view_other own, view_other own, getIdByTid_clockOrNew_sweep other]

theorem grows_remove : Grows before (before.remove tid) := by
  intro carrier key _ live tracked liveAfter
  have other : key ≠ tid := by
    rintro rfl
    exact liveAfter idOf_remove_self
  have differs : carrier ≠ .thread tid := by
    rintro rfl
    exact tracked idOf_remove_self
  by_cases own : carrier = .thread key
  · exact le_of_eq (by rw [view, view, if_pos own, if_pos own, idOf_remove_of_ne other])
  · rw [view_other own, view_other own, clockOrNew_remove_of_ne differs]

theorem grows_removeSweep : Grows before ((before.remove tid).sweep tid) := by
  intro carrier key tracked live trackedAfter liveAfter
  have removed : (before.remove tid).snapshot.tracked carrier := by
    cases carrier with
    | thread other => exact trackedAfter
    | _ => trivial
  exact (grows_remove carrier key tracked live removed liveAfter).trans
    (grows_sweep idOf_remove_self carrier key removed liveAfter trackedAfter liveAfter)

theorem getIdByTid_le_insert (below : old.getIdByTid tid ≤ id) (key : ℕ) :
    old.getIdByTid key ≤ (VectorClock.mk (old.vc.insert tid id)).getIdByTid key := by
  rw [VectorClock.getIdByTid_insert]
  split
  · next same => exact same ▸ below
  · exact le_rfl

theorem WellFormed.getIdByTid_own (wellFormed : before.WellFormed layout)
    (holds : before.Holds tid clock id) : clock.getIdByTid tid ≤ id :=
  clockOrNew_of_holds holds ▸ wellFormed.getIdByTid_le holds.2 (.thread tid)

/-- No clock is ahead of the next id of a thread. -/
theorem WellFormed.getIdByTid_le_next (wellFormed : before.WellFormed layout)
    (holds : before.Holds tid clock id) (carrier : Carrier) :
    (before.clockOrNew carrier).getIdByTid tid ≤ id + 1 :=
  (wellFormed.getIdByTid_le holds.2 carrier).trans (Nat.le_succ _)

theorem WellFormed.grows_tick (wellFormed : before.WellFormed layout)
    (holds : before.Holds tid clock id) : Grows before (before.tick tid clock id) :=
  grows_setThread holds
    (getIdByTid_le_insert ((wellFormed.getIdByTid_own holds).trans (Nat.le_succ _))) (Nat.le_succ _)

end Clocks

variable {layout : Layout} {before after : Clocks} {event : Event} {carrier source : Carrier}
  {tid key id : ℕ}

/-- The tids a call ends fit the type of the tables. -/
def Event.Fits (layout : Layout) (event : Event) : Prop :=
  ∀ threadId, event.finishes? = some threadId → threadId < layout.tidRange

instance (layout : Layout) (event : Event) : Decidable (event.Fits layout) :=
  inferInstanceAs (Decidable (∀ threadId ∈ event.finishes?, _ < _))

/-- A tid that is finished without being registered is not converted to that of a registered
thread. -/
def Event.Spares (layout : Layout) (clocks : Clocks) (event : Event) : Prop :=
  ∀ threadId, event.finishes? = some threadId → clocks.idOf threadId = none →
    clocks.idOf (threadId % layout.tidRange) = none

instance (layout : Layout) (clocks : Clocks) (event : Event) :
    Decidable (event.Spares layout clocks) :=
  inferInstanceAs (Decidable (∀ threadId ∈ event.finishes?, _ = none → _ = none))

theorem Event.Fits.spares (fits : event.Fits layout) : event.Spares layout before := by
  intro threadId finishes absent
  rwa [Nat.mod_eq_of_lt (fits threadId finishes)]

/-- The handle of a call belongs to a registered thread. -/
def Event.Registered (clocks : Clocks) (event : Event) : Prop :=
  ∀ tls, event.tls? = some tls → clocks.idOf tls ≠ none

instance (clocks : Clocks) (event : Event) : Decidable (event.Registered clocks) :=
  inferInstanceAs (Decidable (∀ tls ∈ event.tls?, _ ≠ _))

/-- An announcement only publishes the caller's own entry, so it leaves nothing out if the clock of
the identifier is not behind the caller's in any other entry. -/
def Clocks.Publishes (clocks : Clocks) : Event → Prop
  | .happensBefore tls identifier => ∀ tid, tid ≠ tls → clocks.idOf tid ≠ none →
      clocks.view (.thread tls) tid ≤ clocks.view (.identifier identifier) tid
  | _ => True

instance (ft : Fasttrack) : (event : Event) → Decidable (ft.clocks.Publishes event)
  | .happensBefore tls identifier => decidable_of_iff
      (∀ tid ∈ ft.threads.keys, tid ≠ tls →
        ft.clocks.view (.thread tls) tid ≤ ft.clocks.view (.identifier identifier) tid)
      ⟨fun all tid differs live => all tid (Fasttrack.idOf_ne_none.mp live) differs,
        fun publishes tid member differs =>
          publishes tid differs (Fasttrack.idOf_ne_none.mpr member)⟩
  | .read .. | .write .. | .acquire .. | .release .. | .happensAfter .. | .allocate .. =>
    isTrue trivial
  | .deallocate .. | .fork .. | .join .. | .detach .. | .finish .. | .funcEnter .. => isTrue trivial
  | .funcExit .. | .mapShadow .. | .finalize => isTrue trivial

theorem publishes_of_silent (silent : event.announces? = none) : before.Publishes event := by
  cases event with
  | happensBefore => cases silent
  | _ => trivial

/-- Thresholds do not drop, as long as the end of a thread sweeps out no registered one. -/
theorem ClockStep.grows (step : ClockStep layout before event after)
    (wellFormed : before.WellFormed layout) (spares : event.Spares layout before) :
    Grows before after := by
  cases step with
  | keep | acquireRecursive | forkOrphanAgain | joinInvalid => exact .refl
  | @acquire tls mutex id recursive write clock outermost holds =>
    have created : Grows before
        (before.setClock (.mutex mutex) (before.clockOrNew (.mutex mutex))) :=
      grows_setClock (by simp) fun _ => le_rfl
    exact created.trans (grows_setThread (holds.setClock (by simp))
      (fun _ => VectorClock.getIdByTid_le_update) le_rfl) fun tid live => live
  | releaseUnknown unknown | happensAfterUnknown unknown =>
    refine grows_setClock (by simp) fun key => ?_
    rw [clockOrNew_of_none unknown]
  | release kept holds =>
    refine (wellFormed.grows_tick holds).trans (grows_setClock (by simp) fun key => ?_)
      fun _ => idOf_setThread_ne_none
    rw [Clocks.tick, clockOrNew_setThread_of_ne (by simp), clockOrNew_of_some kept]
    exact VectorClock.getIdByTid_le_update
  | happensBefore holds =>
    refine (wellFormed.grows_tick holds).trans (grows_setClock (by simp) fun key => ?_)
      fun _ => idOf_setThread_ne_none
    rw [VectorClock.getIdByTid_updateEntry, Clocks.tick, clockOrNew_setThread_of_ne (by simp)]
    split
    · next same => exact same ▸ le_max_left _ _
    · exact le_rfl
  | happensAfter kept holds =>
    exact grows_setThread holds (fun _ => VectorClock.getIdByTid_le_update) le_rfl
  | forkOrphan orphan absent => exact grows_spawn absent
  | @fork parent child id clock holds absent =>
    have differs : child % layout.tidRange ≠ parent := by
      rintro same
      rw [same, holds.2] at absent
      cases absent
    refine (wellFormed.grows_tick holds).trans (grows_spawn ?_) fun _ => idOf_setThread_ne_none
    rw [Clocks.tick, idOf_setThread_of_ne differs, absent]
  | forkAgain holds _ => exact wellFormed.grows_tick holds
  | joinSelf _ | finish _ => exact grows_removeSweep
  | join differs holds parentHolds =>
    exact (grows_setThread parentHolds (fun _ => VectorClock.getIdByTid_le_update) le_rfl).trans
      grows_removeSweep fun _ => idOf_setThread_ne_none
  | @finishUnknown tls threadId absent => exact grows_sweep (spares threadId rfl absent)
  | finalize => exact fun _ _ _ _ _ live => absurd rfl live

/-! ### What a step puts where -/

theorem takes_tracked (registered : event.Registered before)
    (takes : before.Takes joinsLive event source) : before.snapshot.tracked source := by
  cases source with
  | mutex | identifier => trivial
  | thread tid =>
    rcases takes with calls | joins
    · cases event with
      | fork parent child | join parent child =>
        obtain ⟨id, current, rfl⟩ := Option.map_eq_some_iff.mp calls
        exact fun none => by rw [none] at current; cases current
      | _ => exact registered tid calls
    · cases event with
      | join parent child =>
        obtain ⟨_, _, live⟩ := Option.bind_eq_some_iff.mp joins
        obtain ⟨id, current, rfl⟩ := Option.map_eq_some_iff.mp live
        exact fun none => by rw [none] at current; cases current
      | _ => cases joins

/-- An event passes a past from one carrier to another in six ways. -/
inductive Passes (layout : Layout) (before : Clocks) : Event → Carrier → Carrier → Prop
  | acquire {tls mutex : ℕ} {recursive : ℤ} {write : Bool} :
      Passes layout before (.acquire tls mutex recursive write) (.mutex mutex) (.thread tls)
  | release {tls mutex : ℕ} {write : Bool} :
      Passes layout before (.release tls mutex write) (.thread tls) (.mutex mutex)
  | happensBefore {tls identifier : ℕ} :
      Passes layout before (.happensBefore tls identifier) (.thread tls) (.identifier identifier)
  | happensAfter {tls identifier : ℕ} :
      Passes layout before (.happensAfter tls identifier) (.identifier identifier) (.thread tls)
  | fork {parent child : ℕ} : before.idOf parent ≠ none → Passes layout before (.fork parent child)
      (.thread parent) (.thread (child % layout.tidRange))
  | join {parent child : ℕ} : before.idOf parent ≠ none → before.idOf child ≠ none →
      Passes layout before (.join parent child) (.thread child) (.thread parent)

theorem passes_of_takes_puts (takes : before.Takes joinsLive event source)
    (puts : before.Puts layout event carrier) (differs : source ≠ carrier) :
    Passes layout before event source carrier := by
  cases event <;> cases carrier <;> cases source <;>
    simp_all [Takes, Puts, caller, starts, joinsLive, Event.tls?, Event.acquires?, Event.releases?,
      Event.announces?, Event.awaits?, Option.map_eq_some_iff, Option.bind_eq_some_iff]
  case acquire.thread.mutex => exact puts ▸ takes ▸ .acquire
  case release.mutex.thread => exact puts ▸ takes ▸ .release
  case happensBefore.identifier.thread => exact puts ▸ takes ▸ .happensBefore
  case happensAfter.thread.identifier => exact puts ▸ takes ▸ .happensAfter
  case fork.thread.thread =>
    obtain ⟨⟨id, current⟩, rfl⟩ := puts
    exact .fork (by rw [current]; simp)
  case join.thread.thread =>
    rcases takes with ⟨_, same⟩ | ⟨⟨id, current⟩, ⟨childId, childCurrent⟩, rfl⟩
    · exact absurd same.symm differs
    · exact .join (by rw [current]; simp) (by rw [childCurrent]; simp)

/-- A thread that has merged a clock into its own knows what that clock knows. -/
theorem Clocks.le_view_merge {tls : ℕ} {clock passed : VectorClock}
    (below : passed.getIdByTid tls ≤ id + 1) :
    passed.getIdByTid tid ≤
      (before.setThread tls (clock.update passed) id).view (.thread tls) tid := by
  rw [view_of_holds holds_setThread]
  split
  · next same => exact same ▸ below
  · exact VectorClock.getIdByTid_other_le_update

section Passing

variable {tls mutex identifier parent child : ℕ} {recursive : ℤ} {write : Bool}

theorem ClockStep.acquire_le
    (made : ClockStep layout before (.acquire tls mutex recursive write) after)
    (wellFormed : before.WellFormed layout)
    (held : 1 < recursive → before.view (.mutex mutex) tid ≤ before.view (.thread tls) tid) :
    before.view (.mutex mutex) tid ≤ after.view (.thread tls) tid := by
  cases made with
  | keep keeps => cases keeps
  | acquireRecursive nested => exact held nested
  | acquire outermost holds =>
    rw [view_mutex]
    exact le_view_merge (wellFormed.getIdByTid_le_next holds _)

theorem ClockStep.release_le
    (made : ClockStep layout before (.release tls mutex write) after)
    (acquired : before.clockAt (.mutex mutex) ≠ none) :
    before.view (.thread tls) tid ≤ after.view (.mutex mutex) tid := by
  cases made with
  | keep keeps => cases keeps
  | releaseUnknown unknown => exact absurd unknown acquired
  | release kept holds =>
    rw [view_of_holds holds, view_mutex, clockOrNew_setClock_self,
      ← VectorClock.getIdByTid_insert]
    exact VectorClock.getIdByTid_other_le_update

theorem ClockStep.happensBefore_le
    (made : ClockStep layout before (.happensBefore tls identifier) after)
    (publishes : tid ≠ tls →
      before.view (.thread tls) tid ≤ before.view (.identifier identifier) tid) :
    before.view (.thread tls) tid ≤ after.view (.identifier identifier) tid := by
  cases made with
  | keep keeps => cases keeps
  | happensBefore holds =>
    rw [view_setClock_self (by simp), VectorClock.getIdByTid_updateEntry]
    split
    · next same =>
      subst same
      rw [view_own holds.2]
      exact le_max_right _ _
    · next other =>
      rw [← view_identifier]
      exact publishes other

theorem ClockStep.happensAfter_le
    (made : ClockStep layout before (.happensAfter tls identifier) after)
    (wellFormed : before.WellFormed layout) :
    before.view (.identifier identifier) tid ≤ after.view (.thread tls) tid := by
  cases made with
  | keep keeps => cases keeps
  | happensAfterUnknown unknown =>
    rw [view_identifier, clockOrNew_of_none unknown]
    exact Nat.zero_le _
  | happensAfter kept holds =>
    have known := wellFormed.getIdByTid_le_next holds (.identifier identifier)
    rw [clockOrNew_of_some kept] at known
    rw [view_identifier, clockOrNew_of_some kept]
    exact le_view_merge known

theorem ClockStep.fork_le (made : ClockStep layout before (.fork parent child) after)
    (registered : before.idOf parent ≠ none)
    (absent : before.idOf (child % layout.tidRange) = none) (live : before.idOf tid ≠ none) :
    before.view (.thread parent) tid ≤ after.view (.thread (child % layout.tidRange)) tid := by
  cases made with
  | keep keeps => cases keeps
  | forkOrphan orphan => exact absurd orphan registered
  | forkOrphanAgain orphan => exact absurd orphan registered
  | forkAgain holds present => exact absurd absent present
  | fork holds _ =>
    have other : tid ≠ child % layout.tidRange := by
      rintro rfl
      exact live absent
    rw [view_of_holds holds, view_of_holds holds_setThread, if_neg other,
      VectorClock.getIdByTid_insert]

theorem ClockStep.join_le (made : ClockStep layout before (.join parent child) after)
    (wellFormed : before.WellFormed layout) (registered : before.idOf parent ≠ none)
    (childRegistered : before.idOf child ≠ none) (differs : child ≠ parent)
    (stays : after.idOf tid ≠ none) :
    before.view (.thread child) tid ≤ after.view (.thread parent) tid := by
  cases made with
  | keep keeps => cases keeps
  | joinInvalid invalid => exact absurd invalid (not_or.mpr ⟨registered, childRegistered⟩)
  | joinSelf => exact absurd rfl differs
  | @join _ _ id parentId clock parentClock apart holds parentHolds =>
    have other : tid ≠ child := by
      rintro rfl
      exact stays idOf_remove_self
    have passed : ∀ key, key ≠ child →
        (VectorClock.mk (clock.vc.insert child (id + 1))).getIdByTid key =
          clock.getIdByTid key := fun key differs => by
      rw [VectorClock.getIdByTid_insert, if_neg differs]
    have known := wellFormed.getIdByTid_le_next parentHolds (.thread child)
    rw [clockOrNew_of_holds holds, ← passed parent apart] at known
    rw [view_removeSweep (by simpa using Ne.symm differs) other, view_of_holds holds,
      if_neg other, ← passed tid other]
    exact le_view_merge known

end Passing

/-- The carrier that a past is passed to takes over the thresholds of the carrier it comes from, as
long as locks are released after they were acquired, a recursive acquire has nothing to take
over, no thread is forked twice and announcements leave nothing out. -/
theorem ClockStep.view_le_of_passes (made : ClockStep layout before event after)
    (wellFormed : before.WellFormed layout) (publishes : before.Publishes event)
    (acquired : ∀ mutex, event.releases? = some mutex → before.clockAt (.mutex mutex) ≠ none)
    (held : ∀ tls mutex recursive write, event = .acquire tls mutex recursive write →
      1 < recursive → ∀ tid, before.idOf tid ≠ none →
      before.view (.mutex mutex) tid ≤ before.view (.thread tls) tid)
    (fresh : ∀ tid, before.starts layout event = some tid → before.idOf tid = none)
    (passes : Passes layout before event source carrier) (differs : source ≠ carrier)
    (live : before.idOf tid ≠ none) (stays : after.idOf tid ≠ none) :
    before.view source tid ≤ after.view carrier tid := by
  cases passes with
  | acquire => exact made.acquire_le wellFormed fun nested => held _ _ _ _ rfl nested tid live
  | release => exact made.release_le (acquired _ rfl)
  | happensBefore => exact made.happensBefore_le fun other => publishes tid other live
  | happensAfter => exact made.happensAfter_le wellFormed
  | @fork parent child registered =>
    have absent := fresh (child % layout.tidRange) (by
      obtain ⟨id, found⟩ := Option.ne_none_iff_exists'.mp registered
      rw [starts, found]
      rfl)
    exact made.fork_le registered absent live
  | join registered childRegistered =>
    exact made.join_le wellFormed registered childRegistered (by simpa using differs) stays

/-- A step raises each carrier it puts to by what it takes, and counts itself there. -/
theorem ClockStep.raises {step : Step} (made : ClockStep layout step.pre.clocks step.event after)
    (wellFormed : step.pre.clocks.WellFormed layout)
    (spares : step.event.Spares layout step.pre.clocks)
    (registered : step.event.Registered step.pre.clocks)
    (publishes : step.pre.clocks.Publishes step.event)
    (acquired : ∀ mutex, step.event.releases? = some mutex →
      step.pre.clocks.clockAt (.mutex mutex) ≠ none)
    (held : ∀ tls mutex recursive write, step.event = .acquire tls mutex recursive write →
      1 < recursive → ∀ tid, step.pre.clocks.idOf tid ≠ none →
      step.pre.clocks.view (.mutex mutex) tid ≤ step.pre.clocks.view (.thread tls) tid)
    (fresh : ∀ tid, step.pre.clocks.starts layout step.event = some tid →
      step.pre.clocks.idOf tid = none) :
    Raises (flow layout joinsLive) stamp step step.pre.clocks.snapshot after.snapshot := by
  have takesOver : ∀ carrier source tid, after.snapshot.tracked carrier → after.snapshot.live tid →
      step.pre.clocks.snapshot.live tid → (flow layout joinsLive).puts step carrier →
      (flow layout joinsLive).takes step source → step.pre.clocks.snapshot.tracked source ∧
        step.pre.clocks.snapshot.view source tid ≤ after.snapshot.view carrier tid := by
    intro carrier source tid tracked live wasLive puts takes
    have sourceTracked := takes_tracked registered takes
    refine ⟨sourceTracked, ?_⟩
    by_cases same : source = carrier
    · subst same
      exact made.grows wellFormed spares source tid sourceTracked wasLive tracked live
    · exact made.view_le_of_passes wellFormed publishes acquired held fresh
        (passes_of_takes_puts takes puts same) same wasLive live
  refine ⟨fun carrier tid tracked live wasTracked wasLive =>
    made.grows wellFormed spares carrier tid wasTracked wasLive tracked live, takesOver, ?_⟩
  -- the call takes its own thread's past, which counts the current id
  rintro carrier tid id tracked live puts ⟨calls, current⟩
  have takes : (flow layout joinsLive).takes step (.thread tid) := Or.inl calls
  have wasLive : step.pre.clocks.idOf tid ≠ none := by rw [current]; simp
  have below := (takesOver carrier (.thread tid) tid tracked live wasLive puts takes).2
  have own : step.pre.clocks.snapshot.view (.thread tid) tid = id + 1 := view_own current
  omega

/-! ### Thresholds rise for a reason -/

theorem Clocks.Holds.live {clock : VectorClock} (holds : before.Holds tid clock id) :
    before.idOf tid ≠ none := by
  rw [holds.2]
  simp

/-- What is passed is put at the one carrier and taken from the other. -/
theorem Passes.puts_takes (passes : Passes layout before event source carrier)
    (registered : event.Registered before) :
    before.Puts layout event carrier ∧ before.Takes joinsLive event source ∧
      before.snapshot.tracked source := by
  have both : before.Puts layout event carrier ∧ before.Takes joinsLive event source := by
    cases passes with
    | acquire | happensAfter => exact ⟨Or.inl rfl, rfl⟩
    | release | happensBefore => exact ⟨rfl, Or.inl rfl⟩
    | fork live =>
      obtain ⟨id, found⟩ := Option.ne_none_iff_exists'.mp live
      exact ⟨Or.inr (by rw [starts, found]; rfl), Or.inl (by rw [caller, found]; rfl)⟩
    | join live childLive =>
      obtain ⟨id, found⟩ := Option.ne_none_iff_exists'.mp live
      obtain ⟨childId, childFound⟩ := Option.ne_none_iff_exists'.mp childLive
      exact ⟨Or.inl (by rw [caller, found]; rfl),
        Or.inr (by rw [joinsLive, found, childFound]; rfl)⟩
  exact ⟨both.1, both.2, takes_tracked registered both.2⟩

/-- A threshold after a step was there before, or it was passed on. -/
def HasOrigin (layout : Layout) (before : Clocks) (event : Event) (carrier : Carrier)
    (tid threshold : ℕ) : Prop :=
  before.snapshot.tracked carrier ∧ threshold ≤ before.view carrier tid ∨
    ∃ source, Passes layout before event source carrier ∧
      (source = .thread tid ∨ threshold ≤ before.view source tid)

/-- A merged threshold comes from one of the two clocks. -/
theorem getIdByTid_update_or (clock other : VectorClock) (key : ℕ) :
    (clock.update other).getIdByTid key ≤ clock.getIdByTid key ∨
      (clock.update other).getIdByTid key ≤ other.getIdByTid key := by
  rw [VectorClock.getIdByTid_update]
  exact le_max_iff.mp le_rfl

/-- A clock that is passed on and merged into the clock of a thread. -/
theorem Passes.merge_origin {tls id : ℕ} {clock passed : VectorClock}
    (holds : before.Holds tls clock id)
    (passes : Passes layout before event source (.thread tls))
    (below : passed.getIdByTid tid ≤ before.view source tid) (other : tid ≠ tls) :
    HasOrigin layout before event (.thread tls) tid ((clock.update passed).getIdByTid tid) := by
  rw [HasOrigin, view_of_holds holds, if_neg other]
  rcases getIdByTid_update_or clock passed tid with kept | taken
  · exact Or.inl ⟨holds.live, kept⟩
  · exact Or.inr ⟨source, passes, Or.inr (taken.trans below)⟩

/-- Counting a clock up changes the own entry only. -/
theorem Clocks.Holds.tick_origin {tls id : ℕ} {clock : VectorClock}
    (holds : before.Holds tls clock id)
    (own : carrier ≠ .thread tid) (trackedAfter :
      (before.tick tls clock id).snapshot.tracked carrier) :
    before.snapshot.tracked carrier ∧
      (before.tick tls clock id).view carrier tid ≤ before.view carrier tid := by
  by_cases same : carrier = .thread tls
  · subst same
    have other : tid ≠ tls := by simpa using Ne.symm own
    rw [Clocks.tick, view_of_holds holds_setThread, view_of_holds holds, if_neg other,
      if_neg other, VectorClock.getIdByTid_insert, if_neg other]
    exact ⟨holds.live, le_rfl⟩
  · exact ⟨tracked_setThread_of_ne same trackedAfter, (view_setThread_of_ne same own).le⟩

/-- The end of a thread changes no other entry of the clocks that stay. -/
theorem Clocks.removeSweep_origin {child : ℕ}
    (tracked : ((before.remove child).sweep child).snapshot.tracked carrier)
    (stays : ((before.remove child).sweep child).idOf tid ≠ none) :
    before.snapshot.tracked carrier ∧
      ((before.remove child).sweep child).view carrier tid ≤ before.view carrier tid := by
  obtain ⟨differs, wasTracked⟩ := tracked_removeSweep tracked
  rw [view_removeSweep differs (by rintro rfl; exact stays idOf_remove_self)]
  exact ⟨wasTracked, le_rfl⟩

section Origin

variable {tls mutex identifier parent child : ℕ} {recursive : ℤ} {write : Bool}
  (tracked : after.snapshot.tracked carrier) (own : carrier ≠ .thread tid)

include tracked own

theorem ClockStep.origin_acquire
    (made : ClockStep layout before (.acquire tls mutex recursive write) after) :
    HasOrigin layout before (.acquire tls mutex recursive write) carrier tid
      (after.view carrier tid) := by
  cases made with
  | keep keeps => cases keeps
  | acquireRecursive => exact Or.inl ⟨tracked, le_rfl⟩
  | acquire outermost holds =>
    by_cases same : carrier = .thread tls
    · subst same
      have other : tid ≠ tls := by simpa using Ne.symm own
      rw [view_of_holds holds_setThread, if_neg other]
      exact Passes.acquire.merge_origin holds view_mutex.ge other
    · rw [view_setThread_of_ne same own, view_setClock_clockOrNew]
      exact Or.inl ⟨tracked_setClock (tracked_setThread_of_ne same tracked), le_rfl⟩

theorem ClockStep.origin_release
    (made : ClockStep layout before (.release tls mutex write) after) :
    HasOrigin layout before (.release tls mutex write) carrier tid (after.view carrier tid) := by
  cases made with
  | keep keeps => cases keeps
  | releaseUnknown unknown =>
    refine Or.inl ⟨tracked_setClock tracked, ?_⟩
    rw [← clockOrNew_of_none unknown, view_setClock_clockOrNew]
  | @release _ _ id _ clock lock kept holds =>
    by_cases same : carrier = .mutex mutex
    · subst same
      rw [view_setClock_self own]
      by_cases self : tid = tls
      · exact Or.inr ⟨.thread tls, .release, Or.inl (by rw [self])⟩
      rcases getIdByTid_update_or lock ⟨clock.vc.insert tls (id + 1)⟩ tid with old | taken
      · refine Or.inl ⟨trivial, ?_⟩
        rwa [view_mutex, clockOrNew_of_some kept]
      · rw [VectorClock.getIdByTid_insert, if_neg self] at taken
        exact Or.inr ⟨.thread tls, .release, Or.inr (by rwa [view_of_holds holds, if_neg self])⟩
    · rw [view_setClock_of_ne same own]
      exact Or.inl (holds.tick_origin own (tracked_setClock tracked))

theorem ClockStep.origin_happensBefore
    (made : ClockStep layout before (.happensBefore tls identifier) after) :
    HasOrigin layout before (.happensBefore tls identifier) carrier tid
      (after.view carrier tid) := by
  cases made with
  | keep keeps => cases keeps
  | happensBefore holds =>
    by_cases same : carrier = .identifier identifier
    · subst same
      rw [view_setClock_self own, VectorClock.getIdByTid_updateEntry]
      by_cases self : tid = tls
      · exact Or.inr ⟨.thread tls, .happensBefore, Or.inl (by rw [self])⟩
      · rw [if_neg self, HasOrigin, view_identifier]
        exact Or.inl ⟨trivial, le_rfl⟩
    · rw [view_setClock_of_ne same own]
      exact Or.inl (holds.tick_origin own (tracked_setClock tracked))

theorem ClockStep.origin_happensAfter
    (made : ClockStep layout before (.happensAfter tls identifier) after) :
    HasOrigin layout before (.happensAfter tls identifier) carrier tid
      (after.view carrier tid) := by
  cases made with
  | keep keeps => cases keeps
  | happensAfterUnknown unknown =>
    refine Or.inl ⟨tracked_setClock tracked, ?_⟩
    rw [← clockOrNew_of_none unknown, view_setClock_clockOrNew]
  | happensAfter kept holds =>
    by_cases same : carrier = .thread tls
    · subst same
      have other : tid ≠ tls := by simpa using Ne.symm own
      rw [view_of_holds holds_setThread, if_neg other]
      refine Passes.happensAfter.merge_origin holds ?_ other
      rw [view_identifier, clockOrNew_of_some kept]
    · rw [view_setThread_of_ne same own]
      exact Or.inl ⟨tracked_setThread_of_ne same tracked, le_rfl⟩

theorem ClockStep.origin_fork (made : ClockStep layout before (.fork parent child) after)
    (positive : 0 < after.view carrier tid) :
    HasOrigin layout before (.fork parent child) carrier tid (after.view carrier tid) := by
  cases made with
  | keep keeps => cases keeps
  | forkOrphanAgain => exact Or.inl ⟨tracked, le_rfl⟩
  | forkAgain holds present => exact Or.inl (holds.tick_origin own tracked)
  | forkOrphan orphan absent =>
    by_cases same : carrier = .thread (child % layout.tidRange)
    · subst same
      have other : tid ≠ child % layout.tidRange := by simpa using Ne.symm own
      rw [view_of_holds holds_setThread, if_neg other, VectorClock.getIdByTid_insert, if_neg other]
        at positive
      exact absurd positive (lt_irrefl _)
    · rw [view_setThread_of_ne same own]
      exact Or.inl ⟨tracked_setThread_of_ne same tracked, le_rfl⟩
  | fork holds absent =>
    by_cases same : carrier = .thread (child % layout.tidRange)
    · subst same
      have other : tid ≠ child % layout.tidRange := by simpa using Ne.symm own
      rw [view_of_holds holds_setThread, if_neg other, VectorClock.getIdByTid_insert]
      by_cases self : tid = parent
      · exact Or.inr ⟨.thread parent, .fork holds.live, Or.inl (by rw [self])⟩
      · rw [if_neg self]
        exact Or.inr ⟨.thread parent, .fork holds.live,
          Or.inr (by rw [view_of_holds holds, if_neg self])⟩
    · rw [view_setThread_of_ne same own]
      exact Or.inl (holds.tick_origin own (tracked_setThread_of_ne same tracked))

theorem ClockStep.origin_join (made : ClockStep layout before (.join parent child) after)
    (stays : after.idOf tid ≠ none) :
    HasOrigin layout before (.join parent child) carrier tid (after.view carrier tid) := by
  cases made with
  | keep keeps => cases keeps
  | joinInvalid => exact Or.inl ⟨tracked, le_rfl⟩
  | joinSelf => exact Or.inl (removeSweep_origin tracked stays)
  | join differs holds parentHolds =>
    obtain ⟨notChild, trackedSynced⟩ := tracked_removeSweep tracked
    have other : tid ≠ child := by
      rintro rfl
      exact stays idOf_remove_self
    rw [view_removeSweep notChild other]
    by_cases same : carrier = .thread parent
    · subst same
      have notParent : tid ≠ parent := by simpa using Ne.symm own
      rw [view_of_holds holds_setThread, if_neg notParent]
      refine (Passes.join parentHolds.live holds.live).merge_origin parentHolds ?_ notParent
      rw [VectorClock.getIdByTid_insert, if_neg other, view_of_holds holds, if_neg other]
    · rw [view_setThread_of_ne same own]
      exact Or.inl ⟨tracked_setThread_of_ne same trackedSynced, le_rfl⟩

theorem ClockStep.origin_finish (made : ClockStep layout before (.finish tls child) after)
    (stays : after.idOf tid ≠ none) :
    HasOrigin layout before (.finish tls child) carrier tid (after.view carrier tid) := by
  cases made with
  | keep keeps => cases keeps
  | finish => exact Or.inl (removeSweep_origin tracked stays)
  | finishUnknown absent =>
    refine Or.inl ⟨?_, view_sweep_le own⟩
    cases carrier with
    | thread other => exact tracked
    | _ => trivial

/-- Where a threshold after a step comes from. -/
theorem ClockStep.view_origin (made : ClockStep layout before event after)
    (stays : after.idOf tid ≠ none) (positive : 0 < after.view carrier tid) :
    HasOrigin layout before event carrier tid (after.view carrier tid) := by
  cases event with
  | acquire => exact made.origin_acquire tracked own
  | release => exact made.origin_release tracked own
  | happensBefore => exact made.origin_happensBefore tracked own
  | happensAfter => exact made.origin_happensAfter tracked own
  | fork => exact made.origin_fork tracked own positive
  | join => exact made.origin_join tracked own stays
  | finish => exact made.origin_finish tracked own stays
  | finalize =>
    cases made with
    | keep keeps => cases keeps
    | finalize => exact absurd rfl stays
  | _ =>
    cases made
    exact Or.inl ⟨tracked, le_rfl⟩

end Origin

/-- A step raises a threshold only to what it has taken, and counts itself only where it puts. -/
theorem ClockStep.limits {step : Step} (made : ClockStep layout step.pre.clocks step.event after)
    (wellFormed : step.pre.clocks.WellFormed layout)
    (registered : step.event.Registered step.pre.clocks) :
    Limits (flow layout joinsLive) stamp .thread step step.pre.clocks.snapshot after.snapshot where
  inherits carrier tid id tracked live wasLive own below := by
    rcases made.view_origin tracked own live (Nat.zero_lt_of_lt below) with ⟨wasTracked, le⟩ |
      ⟨source, passes, origin⟩
    · exact Or.inl ⟨wasTracked, below.trans_le le⟩
    · obtain ⟨puts, takes, sourceTracked⟩ := passes.puts_takes registered
      exact Or.inr ⟨puts, source, takes,
        origin.imp_right fun le => ⟨sourceTracked, below.trans_le le⟩⟩
  counts := by
    rintro carrier tid id tracked live ⟨calls, current⟩ below
    by_cases own : carrier = .thread tid
    · exact own ▸ Or.inl calls
    -- no clock but its own was ahead of the caller before the step
    have behind : ∀ source, source ≠ .thread tid → step.pre.clocks.view source tid ≤ id := by
      intro source differs
      rw [view_other differs]
      exact wellFormed.getIdByTid_le current source
    rcases made.view_origin tracked own live (Nat.zero_lt_of_lt below) with ⟨_, le⟩ |
      ⟨source, passes, same | le⟩
    · exact absurd (below.trans_le le) (not_lt.mpr (behind carrier own))
    · exact (passes.puts_takes registered).1
    · by_cases self : source = .thread tid
      · exact (passes.puts_takes registered).1
      · exact absurd (below.trans_le le) (not_lt.mpr (behind source self))

end Drace
