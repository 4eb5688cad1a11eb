/-
This file says when a thread that locks a mutex for writing knows all that the
mutex knows.

A mutex can be held shared or exclusively, and a thread that holds it may acquire
it again, also for writing once it is the only holder. The detector skips such a
nested acquire, since only the calling thread may have updated the mutex. That is
so as long as the thread holds the mutex exclusively. A shared hold does not keep
other shared holders from releasing the mutex, so a thread that upgrades its hold
may miss what they have published.

The holds are read from the history. As long as no other thread has released the
mutex since the outermost acquire of a thread that upgrades, its clock dominates
that of the mutex after every acquire for writing, and what others did before they
released it is not reported any more.
-/

import Drace.Annotations
import Drace.Completeness
import Drace.ThreadTable

namespace Drace

open Clocks Machine

/-- A thread holds a mutex, exclusively or shared with others. -/
structure Hold where
  tls : ℕ
  mutex : ℕ
  write : Bool
  deriving DecidableEq

/-- The holds after an event. A thread that ends gives up its holds. -/
def Event.holdsAfter (holds : List Hold) : Event → List Hold
  | .acquire tls mutex _ exclusive => ⟨tls, mutex, exclusive⟩ :: holds
  | .release tls mutex exclusive => holds.erase ⟨tls, mutex, exclusive⟩
  | .join _ child => holds.filter fun hold => hold.tls ≠ child
  | .finish _ threadId => holds.filter fun hold => hold.tls ≠ threadId
  | .finalize => []
  | _ => holds

/-- The holds after a history. -/
def holdsOf (past : List Step) : List Hold :=
  past.foldl (fun holds step => step.event.holdsAfter holds) []

/-- What the lock discipline asks of an event: an acquire counts the holds its caller already has,
and shares the mutex with other threads only if all of them hold it shared. A release gives up a
hold of its caller. -/
def Event.Disciplined (holds : List Hold) : Event → Prop
  | .acquire tls mutex recursive exclusive =>
    recursive = holds.countP (fun hold => hold.tls = tls ∧ hold.mutex = mutex) + 1 ∧
      ∀ hold ∈ holds, hold.mutex = mutex → hold.tls = tls ∨ hold.write = false ∧ exclusive = false
  | .release tls mutex exclusive => ⟨tls, mutex, exclusive⟩ ∈ holds
  | _ => True

instance (holds : List Hold) : (event : Event) → Decidable (event.Disciplined holds)
  | .acquire .. => inferInstanceAs (Decidable (_ ∧ _))
  | .release .. => inferInstanceAs (Decidable (_ ∈ _))
  | .read .. | .write .. | .allocate .. | .deallocate .. | .happensBefore .. => isTrue trivial
  | .happensAfter .. | .fork .. | .join .. | .detach .. | .finish .. => isTrue trivial
  | .funcEnter .. | .funcExit .. | .mapShadow .. | .finalize => isTrue trivial

/-- The thread and mutex of a nested acquire for writing. -/
def Event.nestsWrite? : Event → Option (ℕ × ℕ)
  | .acquire tls mutex recursive exclusive =>
    if 1 < recursive ∧ exclusive then some (tls, mutex) else none
  | _ => none

/-- A nested acquire for writing finds the mutex as its thread has left it: the thread holds the
mutex exclusively, or no other thread has released it since the thread's outermost acquire. -/
def Undisturbed (front : List Step) (step : Step) : Prop :=
  ∀ lock ∈ step.event.nestsWrite?,
    ⟨lock.1, lock.2, true⟩ ∈ holdsOf front ∨ HeldSince front lock.1 lock.2

instance (front : List Step) (step : Step) : Decidable (Undisturbed front step) :=
  inferInstanceAs (Decidable (∀ lock ∈ step.event.nestsWrite?, _ ∨ HeldSince front lock.1 lock.2))

/-- The clock of a thread is not behind that of a mutex in any entry. -/
def Clocks.Dominates (clocks : Clocks) (tls mutex : ℕ) : Prop :=
  ∀ key, (clocks.clockOrNew (.mutex mutex)).getIdByTid key ≤
    (clocks.clockOrNew (.thread tls)).getIdByTid key

variable {layout : Layout} {past front : List Step} {step : Step} {ft next : Fasttrack}
  {event : Event} {output : Output} {before after : Clocks} {holds : List Hold} {hold : Hold}
  {clock : VectorClock} {exclusive : Bool} {tls tid mutex id : ℕ}

/-! ### Dominance along a step -/

/-- Counting up raises the clock of the thread. -/
theorem Clocks.Dominates.tick (dominates : before.Dominates tls mutex)
    (wellFormed : before.WellFormed layout) (holds : before.Holds tid clock id) :
    (before.tick tid clock id).Dominates tls mutex := by
  intro key
  rw [Clocks.tick, clockOrNew_setThread_of_ne (by simp)]
  by_cases same : tls = tid
  · subst same
    rw [clockOrNew_setThread_self]
    refine (dominates key).trans ?_
    rw [clockOrNew_of_holds holds]
    exact getIdByTid_le_insert ((wellFormed.getIdByTid_own holds).trans (Nat.le_succ _)) key
  · rw [clockOrNew_setThread_of_ne (by simpa using same)]
    exact dominates key

/-- Merging a clock into that of a thread raises it. -/
theorem Clocks.Dominates.merge (dominates : before.Dominates tls mutex)
    (holds : before.Holds tid clock id) (added : VectorClock) :
    (before.setThread tid (clock.update added) id).Dominates tls mutex := by
  intro key
  rw [clockOrNew_setThread_of_ne (by simp)]
  by_cases same : tls = tid
  · subst same
    rw [clockOrNew_setThread_self, ← clockOrNew_of_holds holds]
    exact (dominates key).trans VectorClock.getIdByTid_le_update
  · rw [clockOrNew_setThread_of_ne (by simpa using same)]
    exact dominates key

/-- A new thread leaves the others alone. -/
theorem Clocks.Dominates.spawn (dominates : before.Dominates tls mutex) (differs : tls ≠ tid) :
    (before.setThread tid clock id).Dominates tls mutex := by
  intro key
  rw [clockOrNew_setThread_of_ne (by simp), clockOrNew_setThread_of_ne (by simpa using differs)]
  exact dominates key

/-- The clock of anything but the mutex and the thread does not count. -/
theorem Clocks.Dominates.setClock (dominates : before.Dominates tls mutex) {carrier : Carrier}
    (notMutex : Carrier.mutex mutex ≠ carrier) (notThread : Carrier.thread tls ≠ carrier) :
    (before.setClock carrier clock).Dominates tls mutex := by
  intro key
  rw [clockOrNew_setClock_of_ne notMutex, clockOrNew_setClock_of_ne notThread]
  exact dominates key

/-- Sweeping out a tid deletes its entries from both clocks. -/
theorem Clocks.Dominates.sweep (dominates : before.Dominates tls mutex) :
    (before.sweep tid).Dominates tls mutex := by
  have swept : ∀ carrier key, ((before.sweep tid).clockOrNew carrier).getIdByTid key =
      if key = tid then 0 else (before.clockOrNew carrier).getIdByTid key := by
    intro carrier key
    split
    · next same =>
      subst same
      unfold clockOrNew
      rw [clockAt_sweep]
      cases before.clockAt carrier with
      | none => rfl
      | some clock => exact VectorClock.getIdByTid_deleteVc.trans (if_pos rfl)
    · next differs => exact getIdByTid_clockOrNew_sweep differs
  intro key
  rw [swept, swept]
  split
  · exact le_rfl
  · exact dominates key

theorem Clocks.Dominates.remove (dominates : before.Dominates tls mutex) (differs : tls ≠ tid) :
    (before.remove tid).Dominates tls mutex := by
  intro key
  rw [clockOrNew_remove_of_ne (by simp), clockOrNew_remove_of_ne (by simpa using differs)]
  exact dominates key

/-- An outermost acquire takes over the clock of the mutex. -/
theorem ClockStep.locks_dominates (made : ClockStep layout before event after)
    (locks : event.locks? = some (tls, mutex)) : after.Dominates tls mutex := by
  obtain ⟨recursive, exclusive, rfl, outermost⟩ := Event.locks?_eq locks
  cases made with
  | keep keeps => cases keeps
  | acquireRecursive nested => exact absurd nested outermost
  | acquire =>
    intro key
    rw [clockOrNew_setThread_of_ne (by simp), clockOrNew_setClock_self, clockOrNew_setThread_self]
    exact VectorClock.getIdByTid_other_le_update

theorem ClockStep.locks_live {recursive : ℤ} (outermost : ¬ 1 < recursive)
    (made : ClockStep layout before (.acquire tls mutex recursive exclusive) after) :
    before.idOf tls ≠ none := by
  cases made with
  | keep keeps => cases keeps
  | acquireRecursive nested => exact absurd nested outermost
  | acquire _ holds => exact holds.live

/-- A nested acquire is skipped. -/
theorem ClockStep.nests_eq {recursive : ℤ} (nested : 1 < recursive)
    (made : ClockStep layout before (.acquire tls mutex recursive exclusive) after) :
    after = before := by
  cases made with
  | keep keeps => cases keeps
  | acquireRecursive => rfl
  | acquire outermost => exact absurd nested outermost

/-- A clock that dominates that of a mutex keeps doing so until another thread releases the
mutex. -/
theorem ClockStep.keepsDominates (made : ClockStep layout before event after)
    (wellFormed : before.WellFormed layout) (dominates : before.Dominates tls mutex)
    (live : before.idOf tls ≠ none) (stays : after.idOf tls ≠ none)
    (undisturbed : ∀ other exclusive, event = .release other mutex exclusive → other = tls) :
    after.Dominates tls mutex := by
  have other : ∀ {key}, before.idOf key = none → tls ≠ key := by
    rintro key absent rfl
    exact live absent
  cases made with
  | keep | acquireRecursive | forkOrphanAgain | joinInvalid => exact dominates
  | @acquire caller locked caller_id recursive exclusive clock outermost holds =>
    have created : (before.setClock (.mutex locked) (before.clockOrNew (.mutex locked))).Dominates
        tls mutex := by
      intro key
      by_cases same : mutex = locked
      · subst same
        rw [clockOrNew_setClock_self, clockOrNew_setClock_of_ne (by simp)]
        exact dominates key
      · rw [clockOrNew_setClock_of_ne (by simpa using same), clockOrNew_setClock_of_ne (by simp)]
        exact dominates key
    exact created.merge (holds.setClock (by simp)) _
  | @releaseUnknown caller released exclusive unknown =>
    by_cases same : mutex = released
    · subst same
      intro key
      rw [clockOrNew_setClock_self]
      exact Nat.zero_le _
    · exact dominates.setClock (by simpa using same) (by simp)
  | @release caller released caller_id exclusive clock lock kept holds =>
    have ticked := dominates.tick wellFormed holds
    by_cases same : mutex = released
    · subst same
      obtain rfl := undisturbed caller exclusive rfl
      intro key
      have known := ticked key
      rw [Clocks.tick, clockOrNew_setThread_of_ne (by simp), clockOrNew_of_some kept,
        clockOrNew_setThread_self] at known
      rw [clockOrNew_setClock_self, VectorClock.getIdByTid_update,
        clockOrNew_setClock_of_ne (by simp), Clocks.tick, clockOrNew_setThread_self]
      exact max_le known le_rfl
    · exact ticked.setClock (by simpa using same) (by simp)
  | happensBefore holds => exact (dominates.tick wellFormed holds).setClock (by simp) (by simp)
  | happensAfterUnknown => exact dominates.setClock (by simp) (by simp)
  | happensAfter kept holds => exact dominates.merge holds _
  | forkOrphan orphan absent => exact dominates.spawn (other absent)
  | fork holds absent => exact (dominates.tick wellFormed holds).spawn (other absent)
  | forkAgain holds present => exact dominates.tick wellFormed holds
  | joinSelf _ | finish _ =>
    refine (dominates.remove ?_).sweep
    rintro rfl
    exact stays idOf_remove_self
  | join differs holds parentHolds =>
    refine ((dominates.merge parentHolds _).remove ?_).sweep
    rintro rfl
    exact stays idOf_remove_self
  | finishUnknown absent => exact dominates.sweep
  | finalize => exact absurd rfl stays

/-! ### The holds along a run -/

theorem holdsOf_append : holdsOf (past ++ [step]) = step.event.holdsAfter (holdsOf past) := by
  rw [holdsOf, List.foldl_append]
  rfl

/-- A hold after an event is new, or its thread had it and has not ended. -/
theorem Event.mem_holdsAfter (held : hold ∈ event.holdsAfter holds)
    (defined : ft.call layout event = some (next, output)) :
    (∃ recursive, event = .acquire hold.tls hold.mutex recursive hold.write) ∨
      hold ∈ holds ∧ (hold.tls ∈ ft.threads → hold.tls ∈ next.threads) := by
  rw [Fasttrack.mem_threads_call defined]
  cases event with
  | acquire tls mutex recursive exclusive =>
    rcases List.mem_cons.mp held with rfl | old
    · exact Or.inl ⟨recursive, rfl⟩
    · exact Or.inr ⟨old, fun registered => registered⟩
  | release tls mutex exclusive =>
    exact Or.inr ⟨List.mem_of_mem_erase held, fun registered => registered⟩
  | join parent child =>
    obtain ⟨old, differs⟩ := List.mem_filter.mp held
    exact Or.inr ⟨old, fun registered => ⟨registered, fun ended => by simp [ended.1] at differs⟩⟩
  | finish tls threadId =>
    obtain ⟨old, differs⟩ := List.mem_filter.mp held
    exact Or.inr ⟨old, fun registered => ⟨registered, by simpa using differs⟩⟩
  | fork => exact Or.inr ⟨held, Or.inr⟩
  | finalize => cases held
  | _ => exact Or.inr ⟨held, fun registered => registered⟩

/-- A nested acquire comes from a thread that holds the mutex. -/
theorem Event.Disciplined.nested {recursive : ℤ} {exclusive : Bool}
    (disciplined : (Event.acquire tls mutex recursive exclusive).Disciplined holds)
    (nested : 1 < recursive) : ∃ mode, ⟨tls, mutex, mode⟩ ∈ holds := by
  have positive : 0 < holds.countP (fun hold => hold.tls = tls ∧ hold.mutex = mutex) := by
    have counted := disciplined.1
    omega
  obtain ⟨hold, member, same⟩ := List.countP_pos_iff.mp positive
  obtain ⟨rfl, rfl⟩ := of_decide_eq_true same
  exact ⟨hold.write, member⟩

/-- What the holds say about the tables and clocks along a disciplined run. -/
structure Locked (layout : Layout) (past : List Step) (ft : Fasttrack) : Prop where
  wellFormed : ft.clocks.WellFormed layout
  registered : ∀ hold ∈ holdsOf past, hold.tls ∈ ft.threads
  excludes : ∀ hold ∈ holdsOf past, ∀ other ∈ holdsOf past, hold.write = true →
    other.mutex = hold.mutex → other.tls = hold.tls
  created : ∀ hold ∈ holdsOf past, ft.clocks.clockAt (.mutex hold.mutex) ≠ none
  dominates : ∀ hold ∈ holdsOf past, hold.write = true ∨ HeldSince past hold.tls hold.mutex →
    ft.clocks.Dominates hold.tls hold.mutex

section Step

variable (locked : Locked layout past step.pre)
  (disciplined : step.event.Disciplined (holdsOf past))
  (defined : step.pre.call layout step.event = some (step.post, step.output))
  (made : ClockStep layout step.pre.clocks step.event step.post.clocks)

include locked disciplined made

/-- A thread that acquires a mutex is registered. -/
theorem Locked.caller_registered {recursive : ℤ}
    (acquires : step.event = .acquire tls mutex recursive exclusive) : tls ∈ step.pre.threads := by
  by_cases nested : 1 < recursive
  · obtain ⟨mode, held⟩ := (acquires ▸ disciplined).nested nested
    exact locked.registered _ held
  · exact Fasttrack.idOf_ne_none.mp (ClockStep.locks_live nested (acquires ▸ made))

/-- A mutex that is acquired has a clock afterwards. -/
theorem Locked.acquired_created {recursive : ℤ}
    (acquires : step.event = .acquire tls mutex recursive exclusive) :
    step.post.clocks.clockAt (.mutex mutex) ≠ none := by
  by_cases nested : 1 < recursive
  · obtain ⟨mode, held⟩ := (acquires ▸ disciplined).nested nested
    exact made.keepsLock (by rw [acquires]; simp) (locked.created _ held)
  · have locks : step.event.locks? = some (tls, mutex) := by
      rw [acquires, Event.locks?, if_neg nested]
    exact made.createsLock locks

omit made in
/-- Only its own thread releases a mutex that is held exclusively. -/
theorem Locked.released_by_holder {mode : Bool} (held : hold ∈ holdsOf past)
    (exclusive : hold.write = true)
    (releases : step.event = .release tls hold.mutex mode) : tls = hold.tls := by
  rw [releases] at disciplined
  exact locked.excludes hold held _ disciplined exclusive rfl

/-- A thread that acquires a mutex for writing, or that has held it undisturbed, knows all that
the mutex knows. -/
theorem Locked.acquired_dominates {recursive : ℤ} (undisturbed : Undisturbed past step)
    (acquires : step.event = .acquire tls mutex recursive exclusive)
    (knows : exclusive = true ∨ HeldSince (past ++ [step]) tls mutex) :
    step.post.clocks.Dominates tls mutex := by
  by_cases nested : 1 < recursive
  · obtain ⟨mode, held⟩ := (acquires ▸ disciplined).nested nested
    have same : step.post.clocks = step.pre.clocks :=
      ClockStep.nests_eq nested (acquires ▸ made)
    rw [same]
    have since : HeldSince past tls mutex → step.pre.clocks.Dominates tls mutex :=
      fun since => locked.dominates _ held (Or.inr since)
    rcases knows with rfl | knows
    · have upgrades : step.event.nestsWrite? = some (tls, mutex) := by
        rw [acquires, Event.nestsWrite?, if_pos ⟨nested, rfl⟩]
      rcases undisturbed _ upgrades with owns | free
      · exact locked.dominates _ owns (Or.inl rfl)
      · exact since free
    · rcases heldSince_append knows with locks | ⟨earlier, _⟩
      · rw [acquires, Event.locks?, if_pos nested] at locks
        cases locks
      · exact since earlier
  · exact made.locks_dominates (by rw [acquires, Event.locks?, if_neg nested])

/-- A thread that keeps its hold keeps knowing what the mutex knows, if it holds it exclusively or
undisturbed. -/
theorem Locked.kept_dominates (held : hold ∈ holdsOf past) (stays : hold.tls ∈ step.post.threads)
    (knows : hold.write = true ∨ HeldSince (past ++ [step]) hold.tls hold.mutex) :
    step.post.clocks.Dominates hold.tls hold.mutex := by
  have keeps := fun dominates : step.pre.clocks.Dominates hold.tls hold.mutex =>
    made.keepsDominates locked.wellFormed dominates
      (Fasttrack.idOf_ne_none.mpr (locked.registered hold held))
      (Fasttrack.idOf_ne_none.mpr stays)
  rcases knows with exclusive | since
  · exact keeps (locked.dominates hold held (Or.inl exclusive)) fun _ _ releases =>
      locked.released_by_holder disciplined held exclusive releases
  · rcases heldSince_append since with locks | ⟨earlier, undisturbed⟩
    · exact made.locks_dominates locks
    · exact keeps (locked.dominates hold held (Or.inr earlier)) undisturbed

include defined in
/-- The step rule for holds. -/
theorem Locked.append (room : step.pre.clocks.Room layout) (undisturbed : Undisturbed past step) :
    Locked layout (past ++ [step]) step.post := by
  have origin : ∀ hold ∈ holdsOf (past ++ [step]),
      (∃ recursive, step.event = .acquire hold.tls hold.mutex recursive hold.write) ∨
        hold ∈ holdsOf past ∧ hold.tls ∈ step.post.threads := by
    intro hold held
    rw [holdsOf_append] at held
    exact (Event.mem_holdsAfter held defined).imp_right fun ⟨old, stays⟩ =>
      ⟨old, stays (locked.registered hold old)⟩
  have registered : ∀ hold ∈ holdsOf (past ++ [step]), hold.tls ∈ step.post.threads := by
    intro hold held
    rcases origin hold held with ⟨recursive, acquires⟩ | ⟨_, stays⟩
    · refine (Fasttrack.mem_threads_call defined).mpr ?_
      rw [acquires]
      exact locked.caller_registered disciplined made acquires
    · exact stays
  refine ⟨made.wellFormed locked.wellFormed room, registered, ?_, ?_, ?_⟩
  · intro hold held other otherHeld exclusive same
    rcases origin hold held with ⟨recursive, acquires⟩ | ⟨old, _⟩ <;>
      rcases origin other otherHeld with ⟨otherRecursive, otherAcquires⟩ | ⟨otherOld, _⟩
    · rw [acquires] at otherAcquires
      exact (Event.acquire.inj otherAcquires).1.symm
    · rw [acquires] at disciplined
      exact (disciplined.2 other otherOld same).resolve_right fun shared => by
        simp [exclusive] at shared
    · rw [otherAcquires] at disciplined
      exact ((disciplined.2 hold old same.symm).resolve_right fun shared => by
        simp [exclusive] at shared).symm
    · exact locked.excludes hold old other otherOld exclusive same
  · intro hold held
    rcases origin hold held with ⟨recursive, acquires⟩ | ⟨old, stays⟩
    · exact locked.acquired_created disciplined made acquires
    · refine made.keepsLock ?_ (locked.created hold old)
      intro finalizes
      have kept := (Fasttrack.mem_threads_call defined).mp stays
      rw [finalizes] at kept
      exact kept
  · intro hold held knows
    rcases origin hold held with ⟨recursive, acquires⟩ | ⟨old, stays⟩
    · exact locked.acquired_dominates disciplined made undisturbed acquires knows
    · exact locked.kept_dominates disciplined made old stays knows

end Step

/-- The holds are as they should be after every run that obeys the lock discipline, if no nested
acquire for writing was disturbed. -/
theorem Reaches.locked (reaches : Reaches layout past ft) (room : RoomAlong layout past)
    (disciplined : Always (fun front step => step.event.Disciplined (holdsOf front)) past)
    (undisturbed : Always Undisturbed past) : Locked layout past ft := by
  refine Machine.Reaches.induct (fun past ft => Locked layout past ft) ?_ ?_ reaches
    ((always_iff_forall_mem.mpr room).and (disciplined.and undisturbed))
  · intro ft begins
    exact ⟨Reaches.wellFormed (.start begins) fun step member => (nomatch member),
      fun hold held => (nomatch held), fun hold held => (nomatch held),
      fun hold held => (nomatch held), fun hold held => (nomatch held)⟩
  · rintro past state event next output _ defined ⟨room, disciplined, undisturbed⟩ locked
    have made := Fasttrack.call_clockStep locked.wellFormed room defined
    exact Locked.append locked disciplined defined made room undisturbed

/-! ### The main result -/

/-- After an acquire for writing the thread is registered and its clock dominates that of the
mutex. -/
def WriterDominates (step : Step) : Prop :=
  ∀ tls mutex recursive, step.event = .acquire tls mutex recursive true →
    ∃ thread, step.post.threads.lookup tls = some thread ∧
      ∀ key, ((step.post.locks.lookup mutex).getD {}).getIdByTid key ≤ thread.getIdByTid key

/-- After the call at one position a thread releases a mutex, and another one acquires it for
writing before the call at the last position. Both stay registered. -/
structure HandsOver (past : List Step) (first last owner tls : ℕ) : Prop where
  release : ∃ released acquired mutex, first < released ∧ released < acquired ∧ acquired < last ∧
    (∃ step exclusive, past[released]? = some step ∧ step.event = .release owner mutex exclusive) ∧
    (∃ step recursive, past[acquired]? = some step ∧
      step.event = .acquire tls mutex recursive true) ∧
    Stays past acquired last tls
  stays : Stays past first last owner

/-- A release passes the current id of its thread on to a mutex that was acquired before. -/
theorem ClockStep.release_publishes
    (made : ClockStep layout before (.release tls mutex exclusive) after)
    (created : before.clockAt (.mutex mutex) ≠ none) :
    before.view (.thread tls) tls ≤ after.view (.mutex mutex) tls := by
  cases made with
  | keep keeps => cases keeps
  | releaseUnknown unknown => exact absurd unknown created
  | release kept holds =>
    rw [view_own holds.2, view_mutex, clockOrNew_setClock_self, VectorClock.getIdByTid_update,
      VectorClock.getIdByTid_insert, if_pos rfl]
    exact le_max_right _ _

theorem Locked.writerDominates (locked : Locked layout (past ++ [step]) step.post) :
    WriterDominates step := by
  intro tls mutex recursive acquires
  have held : ⟨tls, mutex, true⟩ ∈ holdsOf (past ++ [step]) := by
    rw [holdsOf_append, acquires]
    exact List.mem_cons_self
  obtain ⟨thread, found⟩ := AList.exists_lookup (locked.registered _ held)
  refine ⟨thread, found, fun key => ?_⟩
  have known := locked.dominates _ held (Or.inl rfl) key
  rwa [clockOrNew_of_holds (Fasttrack.holds_of_lookup found)] at known

section Run

variable (reaches : Reaches layout past ft) (room : RoomAlong layout past)
  (disciplined : Always (fun front step => step.event.Disciplined (holdsOf front)) past)
  (undisturbed : Always Undisturbed past)

include reaches room disciplined undisturbed

theorem Reaches.locked_at {position : ℕ} (found : past[position]? = some step) :
    ∃ front, step.event.Disciplined (holdsOf front) ∧ Locked layout front step.pre ∧
      Locked layout (front ++ [step]) step.post := by
  obtain ⟨bound, rfl⟩ := List.getElem?_eq_some_iff.mp found
  have initial : past.take position ++ [past[position]] <+: past := by
    rw [List.take_concat_get' past position bound]
    exact List.take_prefix _ _
  have shorter := (List.prefix_append _ [past[position]]).trans initial
  obtain ⟨before, defined⟩ := reaches.step initial
  have both : Reaches layout (past.take position ++ [past[position]]) past[position].post :=
    before.call defined
  exact ⟨past.take position, disciplined _ _ initial,
    Reaches.locked before (room.before shorter) (disciplined.before shorter)
      (undisturbed.before shorter),
    Reaches.locked both (room.before initial) (disciplined.before initial)
      (undisturbed.before initial)⟩

theorem Reaches.writerDominates (member : step ∈ past) : WriterDominates step := by
  obtain ⟨position, found⟩ := List.getElem?_of_mem member
  obtain ⟨front, _, _, after⟩ := Reaches.locked_at reaches room disciplined undisturbed found
  exact after.writerDominates

/-- A mutex that is released has a clock, since its holder has acquired it. -/
theorem Reaches.released_created {position : ℕ} (found : past[position]? = some step)
    (releases : step.event = .release tls mutex exclusive) :
    step.pre.clocks.clockAt (.mutex mutex) ≠ none := by
  obtain ⟨front, held, before, _⟩ :=
    Reaches.locked_at reaches room disciplined undisturbed found
  rw [releases] at held
  exact before.created _ held

/-- What a thread has accessed before it hands a mutex over is below all that is reported against
it afterwards. -/
theorem Reaches.lt_of_handsOver (fits : ∀ step ∈ past, step.event.Fits layout)
    {first last owner addr accused : ℕ} {kind : Bool} {earlier later : Step} {race : Race}
    (hands : HandsOver past first last owner tls) (atFirst : past[first]? = some earlier)
    (makes : Makes earlier kind addr owner id) (atLast : past[last]? = some later)
    (reported : race ∈ later.output.races) (firstThread : race.first.threadId = owner)
    (secondThread : race.second.threadId = tls) (accuses : Accuses layout later race accused) :
    id < accused := by
  obtain ⟨⟨released, acquired, mutex, afterFirst, between, beforeLast,
    ⟨release, exclusive, atRelease, releases⟩, ⟨acquire, recursive, atAcquire, acquires⟩,
    writerStays⟩, ownerStays⟩ := hands
  obtain ⟨access, accesses, _, _, _, now⟩ := makes
  have bounded : ∀ step ∈ past, Bounded layout step :=
    fun step member => ⟨room step member, fits step member⟩
  have staysWithin : ∀ {start stop : ℕ}, first ≤ start → stop ≤ last →
      Stays past start stop owner := fun later sooner position step after before =>
    ownerStays position step (later.trans_lt after) (before.trans sooner)
  obtain ⟨writer, writerFound, known⟩ :=
    Reaches.writerDominates reaches room disciplined undisturbed (List.mem_of_getElem? atAcquire)
      tls mutex recursive acquires
  have created := Reaches.released_created reaches room disciplined undisturbed atRelease releases
  obtain ⟨_, madeFirst⟩ := clockStep_at reaches bounded atFirst
  obtain ⟨_, madeRelease⟩ := clockStep_at reaches bounded atRelease
  obtain ⟨acquireFormed, madeAcquire⟩ := clockStep_at reaches bounded atAcquire
  have inside := List.mem_of_getElem? atAcquire
  have live : acquire.pre.clocks.idOf owner ≠ none := Fasttrack.idOf_ne_none.mpr
    (ownerStays acquired acquire (afterFirst.trans between) beforeLast.le atAcquire)
  have remembers : acquire.event.forgets = false := by
    rw [acquires]
    rfl
  have threshold := view_le_of_accuses reaches bounded atLast reported accuses
  rw [firstThread, secondThread] at threshold
  calc id + 1 = earlier.post.clocks.view (.thread owner) owner := by
        rw [madeFirst.eq_of_access accesses, view_own now]
    _ ≤ release.pre.clocks.view (.thread owner) owner :=
        view_le_of_stays reaches bounded atFirst afterFirst atRelease
          (staysWithin le_rfl (between.trans beforeLast).le) fun tid same =>
            Carrier.thread.inj same ▸ staysWithin le_rfl (between.trans beforeLast).le
    _ ≤ release.post.clocks.view (.mutex mutex) owner :=
        ClockStep.release_publishes (releases ▸ madeRelease) created
    _ ≤ acquire.pre.clocks.view (.mutex mutex) owner :=
        view_le_of_stays reaches bounded atRelease between atAcquire
          (staysWithin afterFirst.le beforeLast.le) (by simp)
    _ ≤ acquire.post.clocks.view (.mutex mutex) owner :=
        madeAcquire.grows acquireFormed (fits acquire inside).spares _ owner trivial live trivial
          (madeAcquire.keepsThread remembers live)
    _ ≤ writer.getIdByTid owner := view_mutex.trans_le (known owner)
    _ ≤ acquire.post.clocks.view (.thread tls) owner :=
        (madeAcquire.wellFormed acquireFormed (room acquire inside)).entry_le_view
          (Fasttrack.holds_of_lookup writerFound) owner
    _ ≤ later.pre.clocks.view (.thread tls) owner :=
        view_le_of_stays reaches bounded atAcquire beforeLast atLast
          (staysWithin (afterFirst.trans between).le le_rfl) fun tid same =>
            Carrier.thread.inj same ▸ writerStays
    _ ≤ accused := threshold

end Run

/-- In every run that obeys the lock discipline, if at each nested acquire for writing the thread
holds the mutex exclusively or no other thread has released it since the thread's outermost
acquire: after every acquire for writing the clock of the thread dominates that of the mutex. What
another thread has accessed before it released the mutex is not reported against the thread. -/
theorem write_acquire_dominates (reaches : Reaches layout past ft) (room : RoomAlong layout past)
    (disciplined : Always (fun front step => step.event.Disciplined (holdsOf front)) past)
    (undisturbed : Always Undisturbed past) :
    (∀ step ∈ past, WriterDominates step) ∧
    ((∀ step ∈ past, step.event.Fits layout) → ∀ first last owner tls,
      HandsOver past first last owner tls → ∀ earlier later kind addr id race accused,
      past[first]? = some earlier → Makes earlier kind addr owner id →
      past[last]? = some later → race ∈ later.output.races → race.first.threadId = owner →
      race.second.threadId = tls → Accuses layout later race accused → id < accused) :=
  ⟨fun _ member => Reaches.writerDominates reaches room disciplined undisturbed member,
    fun fits _ _ _ _ hands _ _ _ _ _ _ _ atFirst makes atLast reported firstThread secondThread
      accuses => Reaches.lt_of_handsOver reaches room disciplined undisturbed fits hands atFirst
        makes atLast reported firstThread secondThread accuses⟩

/-- Thread 1 upgrades a hold that no other thread has shared. -/
theorem write_acquire_dominates_upgrade :
    Always (fun _ step => WriterDominates step) (ran .x64 [.fork 9 1, .fork 9 2,
      .acquire 2 7 1 false, .write 2 0 0x100 3, .release 2 7 false, .acquire 1 7 1 false,
      .acquire 1 7 2 true, .write 1 0 0x100 3]).1 :=
  always_iff_forall_mem.mpr (write_acquire_dominates (reaches_ran .x64 _) (by decide +kernel)
    (by decide +kernel) (by decide +kernel)).1

/-- Two threads share a mutex. Thread 2 reads and releases it, then thread 1 upgrades its hold and
writes. -/
def sharedUpgrade : List Event :=
  [.fork 9 1, .write 1 0 0x100 3, .fork 1 2, .acquire 1 7 1 false, .acquire 2 7 1 false,
    .read 2 0 0x100 3, .release 2 7 false, .acquire 1 7 2 true, .write 1 0 0x100 3]

/-- The nested acquire of an upgrade is skipped although another holder has updated the mutex, and
the write is reported as a race with the read. -/
theorem shared_upgrade_missed :
    Reaches .x64 (ran .x64 sharedUpgrade).1 (ran .x64 sharedUpgrade).2 ∧
      RoomAlong .x64 (ran .x64 sharedUpgrade).1 ∧
      Always (fun front step => step.event.Disciplined (holdsOf front)) (ran .x64 sharedUpgrade).1 ∧
      (∀ step ∈ (ran .x64 sharedUpgrade).1, step.event.Fits .x64) ∧
      ¬ (∀ step ∈ (ran .x64 sharedUpgrade).1, WriterDominates step) ∧
      (∃ step ∈ (ran .x64 sharedUpgrade).1, ∃ race ∈ step.output.races,
        race.first.threadId = 2 ∧ race.second.threadId = 1) := by
  refine ⟨reaches_ran .x64 _, by decide +kernel, by decide +kernel, by decide +kernel, ?_,
    by decide +kernel⟩
  intro dominates
  have upgrades : ((ran .x64 sharedUpgrade).1.get ⟨7, by decide +kernel⟩).event =
      .acquire 1 7 2 true := by decide +kernel
  obtain ⟨thread, found, known⟩ := dominates _ (List.get_mem _ _) 1 7 2 upgrades
  have behind : ∀ thread ∈
      ((ran .x64 sharedUpgrade).1.get ⟨7, by decide +kernel⟩).post.threads.lookup 1,
      thread.getIdByTid 2 <
        ((((ran .x64 sharedUpgrade).1.get ⟨7, by decide +kernel⟩).post.locks.lookup 7).getD
          {}).getIdByTid 2 := by
    decide +kernel
  exact absurd (known 2) (not_le.mpr (behind thread found))

end Drace
