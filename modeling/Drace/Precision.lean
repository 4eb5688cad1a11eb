/-
This file proves that the detector reports no ordered accesses.

In a run that follows the rules of the interface, the vector clocks cover
happens-before: whatever a registered thread, a mutex or an identifier has heard
of is below its threshold. Recursive acquires are skipped by the detector, which
is harmless as long as no other thread has released the mutex since the calling
thread acquired it. A reported epoch is not below the threshold of the thread
that makes the access, so it was not ordered before it.

A join of a thread that is not registered any more is ignored, so it adds no edge.
-/

import Drace.History

namespace Drace

open Causality Clocks Machine

/-- The thread and mutex of an acquire that is not recursive. -/
def Event.locks? : Event → Option (ℕ × ℕ)
  | .acquire tls mutex recursive _ => if 1 < recursive then none else some (tls, mutex)
  | _ => none

/-- The thread and mutex of a recursive acquire. -/
def Event.nests? : Event → Option (ℕ × ℕ)
  | .acquire tls mutex recursive _ => if 1 < recursive then some (tls, mutex) else none
  | _ => none

/-- Whether a thread's lock of a mutex is undisturbed after an event: the thread acquires it,
and a release by another thread disturbs it. -/
def Event.undisturbed (tls mutex : ℕ) (held : Bool) : Event → Bool
  | .acquire other locked recursive _ =>
    held || other = tls && locked = mutex && ¬ 1 < recursive
  | .release other released _ => held && ¬ (released = mutex ∧ other ≠ tls)
  | _ => held

/-- The thread has acquired the mutex and no other thread has released it since. This holds in
particular while the thread holds the mutex, from its outermost acquire on, as long as no other
thread releases it. -/
def HeldSince (past : List Step) (tls mutex : ℕ) : Prop :=
  past.foldl (fun held step => step.event.undisturbed tls mutex held) false = true

instance (past : List Step) (tls mutex : ℕ) : Decidable (HeldSince past tls mutex) :=
  inferInstanceAs (Decidable (_ = true))

/-- Some call of the history acquired the mutex. -/
def Acquired (past : List Step) (mutex : ℕ) : Prop :=
  ∃ step ∈ past, step.event.acquires? = some mutex

instance (past : List Step) (mutex : ℕ) : Decidable (Acquired past mutex) :=
  inferInstanceAs (Decidable (∃ step ∈ past, _ = _))

/-- The rules a call follows: no clock is at its maximum, the handle belongs to a registered
thread, tids fit and none is forked twice, a release comes after some acquire of the mutex, a
recursive acquire comes from a thread that has held the mutex undisturbed, and the analysis does
not end. -/
structure Obeys (layout : Layout) (past : List Step) (step : Step) : Prop where
  room : step.pre.clocks.Room layout
  registered : step.event.Registered step.pre.clocks
  fits : step.event.Fits layout
  forksOnce : ∀ child, step.event.forks? = some child →
    child < layout.tidRange ∧ ¬ Forked layout past child
  releases : ∀ mutex, step.event.releases? = some mutex → Acquired past mutex
  nests : ∀ tls mutex, step.event.nests? = some (tls, mutex) → HeldSince past tls mutex
  goes : step.event ≠ .finalize

/-- The rules as far as the clocks depend on them: tids need not fit, but no two forks name tids
that are converted to the same one. -/
structure Premises (layout : Layout) (past : List Step) (step : Step) : Prop where
  room : step.pre.clocks.Room layout
  registered : step.event.Registered step.pre.clocks
  forksOnce : ∀ child, step.event.forks? = some child →
    ¬ Forked layout past (child % layout.tidRange)
  releases : ∀ mutex, step.event.releases? = some mutex → Acquired past mutex
  nests : ∀ tls mutex, step.event.nests? = some (tls, mutex) → HeldSince past tls mutex
  goes : step.event ≠ .finalize

instance (layout : Layout) (past : List Step) (step : Step) : Decidable (Obeys layout past step) :=
  decidable_of_iff
    (step.pre.clocks.Room layout ∧ step.event.Registered step.pre.clocks ∧ step.event.Fits layout ∧
      (∀ child ∈ step.event.forks?, child < layout.tidRange ∧ ¬ Forked layout past child) ∧
      (∀ mutex ∈ step.event.releases?, Acquired past mutex) ∧
      (∀ lock ∈ step.event.nests?, HeldSince past lock.1 lock.2) ∧ step.event ≠ .finalize)
    ⟨fun ⟨room, registered, fits, forksOnce, releases, nests, goes⟩ =>
      ⟨room, registered, fits, forksOnce, releases, fun _ _ nested => nests _ nested, goes⟩,
    fun ⟨room, registered, fits, forksOnce, releases, nests, goes⟩ =>
      ⟨room, registered, fits, forksOnce, releases, fun _ nested => nests _ _ nested, goes⟩⟩

instance (layout : Layout) (past : List Step) (step : Step) :
    Decidable (Premises layout past step) :=
  decidable_of_iff
    (step.pre.clocks.Room layout ∧ step.event.Registered step.pre.clocks ∧
      (∀ child ∈ step.event.forks?, ¬ Forked layout past (child % layout.tidRange)) ∧
      (∀ mutex ∈ step.event.releases?, Acquired past mutex) ∧
      (∀ lock ∈ step.event.nests?, HeldSince past lock.1 lock.2) ∧ step.event ≠ .finalize)
    ⟨fun ⟨room, registered, forksOnce, releases, nests, goes⟩ =>
      ⟨room, registered, forksOnce, releases, fun _ _ nested => nests _ nested, goes⟩,
    fun ⟨room, registered, forksOnce, releases, nests, goes⟩ =>
      ⟨room, registered, forksOnce, releases, fun _ nested => nests _ _ nested, goes⟩⟩

/-- A reported race names two accesses of different threads to one address, one of them a write:
the second is the current call, and the first is an earlier one that does not happen before it. -/
def Unordered (layout : Layout) (joined : Clocks → Event → Option ℕ) (front : List Step)
    (step : Step) (race : Race) : Prop :=
  (race.first.write = true ∨ race.second.write = true) ∧
  race.first.threadId ≠ race.second.threadId ∧
  race.first.accessedMemory = race.second.accessedMemory ∧
  (∃ id, Makes step race.second.write race.second.accessedMemory race.second.threadId id) ∧
  ∃ position earlier id, front[position]? = some earlier ∧
    Makes earlier race.first.write race.first.accessedMemory race.first.threadId id ∧
    ¬ (flow layout joined).HappensBefore (front ++ [step]) position front.length

variable {layout : Layout} {past front : List Step} {ft : Fasttrack} {before after : Clocks}
  {event : Event} {step : Step} {tid tls mutex id : ℕ}

/-! ### Locks -/

theorem Event.locks?_eq (locks : event.locks? = some (tls, mutex)) :
    ∃ recursive write, event = .acquire tls mutex recursive write ∧ ¬ 1 < recursive := by
  cases event with
  | acquire other locked recursive write =>
    rw [Event.locks?] at locks
    split at locks
    · cases locks
    · next outermost =>
      obtain ⟨rfl, rfl⟩ := Prod.mk.inj (Option.some.inj locks)
      exact ⟨recursive, write, rfl, outermost⟩
  | _ => cases locks

theorem acquired_append :
    Acquired (past ++ [step]) mutex ↔ Acquired past mutex ∨ step.event.acquires? = some mutex := by
  simp [Acquired, or_and_right, exists_or]

theorem heldSince_append (held : HeldSince (past ++ [step]) tls mutex) :
    step.event.locks? = some (tls, mutex) ∨ HeldSince past tls mutex ∧
      ∀ other write, step.event = .release other mutex write → other = tls := by
  unfold HeldSince at held ⊢
  rw [List.foldl_append] at held
  cases same : step.event with
  | acquire other locked recursive write =>
    simp only [List.foldl_cons, List.foldl_nil, same, Event.undisturbed, Event.locks?] at held ⊢
    simp only [Bool.or_eq_true, Bool.and_eq_true, decide_eq_true_eq] at held
    rcases held with held | ⟨⟨rfl, rfl⟩, outermost⟩
    · exact Or.inr ⟨held, fun _ _ releases => (nomatch releases)⟩
    · exact Or.inl (if_neg outermost)
  | release other released write =>
    simp only [List.foldl_cons, List.foldl_nil, same, Event.undisturbed, Bool.and_eq_true,
      decide_eq_true_eq] at held
    refine Or.inr ⟨held.1, ?_⟩
    rintro _ _ ⟨⟩
    by_contra differs
    exact held.2 ⟨rfl, differs⟩
  | _ =>
    simp only [List.foldl_cons, List.foldl_nil, same, Event.undisturbed] at held
    exact Or.inr ⟨held, fun _ _ releases => (nomatch releases)⟩

/-- A lock that was held undisturbed was acquired by its thread. -/
theorem HeldSince.acquired (held : HeldSince past tls mutex) :
    Acquired past mutex ∧ ∃ step ∈ past, step.event.tls? = some tls ∧
      step.event.acquires? = some mutex := by
  induction past using List.reverseRecOn with
  | nil => cases held
  | append_singleton past step inductionHypothesis =>
    rcases heldSince_append held with locks | ⟨earlier, _⟩
    · obtain ⟨recursive, write, acquires, _⟩ := Event.locks?_eq locks
      have member : step ∈ past ++ [step] := List.mem_append_right _ (List.mem_singleton_self _)
      exact ⟨⟨step, member, by rw [acquires]; rfl⟩, step, member,
        by rw [acquires]; exact ⟨rfl, rfl⟩⟩
    · obtain ⟨acquired, last, member, acquires⟩ := inductionHypothesis earlier
      exact ⟨acquired_append.mpr (Or.inl acquired), last, List.mem_append_left _ member, acquires⟩

/-- Until the end of the analysis the clock of a mutex is kept. -/
theorem ClockStep.keepsLock (made : ClockStep layout before event after) (goes : event ≠ .finalize)
    (kept : before.clockAt (.mutex mutex) ≠ none) : after.clockAt (.mutex mutex) ≠ none := by
  have sets : ∀ {clocks : Clocks} {carrier : Carrier} {clock : VectorClock},
      clocks.clockAt (.mutex mutex) ≠ none →
        (clocks.setClock carrier clock).clockAt (.mutex mutex) ≠ none := by
    intro clocks carrier clock kept
    by_cases same : Carrier.mutex mutex = carrier
    · rw [same, clockAt_setClock_self]
      simp
    · rwa [clockAt_setClock_of_ne same]
  have threads : ∀ {clocks : Clocks} {tid id : ℕ} {clock : VectorClock},
      clocks.clockAt (.mutex mutex) ≠ none →
      (clocks.setThread tid clock id).clockAt (.mutex mutex) ≠ none := by
    intro clocks tid id clock kept
    rwa [clockAt_setThread_of_ne (by simp)]
  have removes : ∀ {clocks : Clocks} {tid : ℕ}, clocks.clockAt (.mutex mutex) ≠ none →
      ((clocks.remove tid).sweep tid).clockAt (.mutex mutex) ≠ none := by
    intro clocks tid kept
    rwa [clockAt_sweep, ne_eq, Option.map_eq_none_iff, clockAt_remove_of_ne (by simp)]
  cases made with
  | keep | acquireRecursive | forkOrphanAgain | joinInvalid => exact kept
  | acquire => exact threads (sets kept)
  | releaseUnknown | happensAfterUnknown => exact sets kept
  | release | happensBefore => exact sets (threads kept)
  | happensAfter | forkOrphan | forkAgain => exact threads kept
  | fork => exact threads (threads kept)
  | joinSelf | finish => exact removes kept
  | join => exact removes (threads kept)
  | finishUnknown => rwa [clockAt_sweep, ne_eq, Option.map_eq_none_iff]
  | finalize => exact absurd rfl goes

/-- An acquire that is not recursive leaves a clock for the mutex. -/
theorem ClockStep.createsLock (made : ClockStep layout before event after)
    (locks : event.locks? = some (tls, mutex)) : after.clockAt (.mutex mutex) ≠ none := by
  obtain ⟨recursive, write, rfl, outermost⟩ := Event.locks?_eq locks
  cases made with
  | keep keeps => cases keeps
  | acquireRecursive nested => exact absurd nested outermost
  | acquire =>
    rw [clockAt_setThread_of_ne (by simp), clockAt_setClock_self]
    simp

/-- What the clocks know along a run that follows the rules. -/
structure Covered (layout : Layout) (past : List Step) (clocks : Clocks) : Prop where
  wellFormed : clocks.WellFormed layout
  forked : AllForked layout past clocks
  locks : ∀ mutex, Acquired past mutex → clocks.clockAt (.mutex mutex) ≠ none
  held : ∀ tls mutex, HeldSince past tls mutex → clocks.idOf tls ≠ none →
    ∀ tid, clocks.idOf tid ≠ none → clocks.view (.mutex mutex) tid ≤ clocks.view (.thread tls) tid
  covers : Covers (flow layout joinsLive) stamp past clocks.snapshot

theorem Obeys.premises (obeys : Obeys layout past step) : Premises layout past step where
  room := obeys.room
  registered := obeys.registered
  forksOnce child forks := by
    obtain ⟨fits, fresh⟩ := obeys.forksOnce child forks
    rwa [Nat.mod_eq_of_lt fits]
  releases := obeys.releases
  nests := obeys.nests
  goes := obeys.goes

theorem Premises.freshFork (premises : Premises layout past step) :
    FreshFork layout past step.pre.clocks step.event :=
  fun child forks _ => premises.forksOnce child forks

theorem Clocks.WellFormed.view_eq_zero {carrier : Carrier} (wellFormed : before.WellFormed layout)
    (absent : before.idOf tid = none) : before.view carrier tid = 0 := by
  by_cases own : carrier = .thread tid
  · rw [view, if_pos own, absent]
    rfl
  · rw [view_other own, Clocks.clockOrNew]
    cases kept : before.clockAt carrier with
    | none => rfl
    | some clock =>
      rw [Option.getD_some, VectorClock.getIdByTid]
      cases entry : clock.vc.lookup tid with
      | none => rfl
      | some known =>
        obtain ⟨current, _, found, _⟩ := wellFormed.known carrier clock kept tid known entry
        rw [absent] at found
        cases found

/-! ### A step that follows the rules -/

section Step

variable (covered : Covered layout past step.pre.clocks) (premises : Premises layout past step)
  (made : ClockStep layout step.pre.clocks step.event after)

include covered premises

/-- A recursive acquire has nothing to take over. -/
theorem Covered.nested (tls mutex : ℕ) (recursive : ℤ) (write : Bool)
    (acquires : step.event = .acquire tls mutex recursive write) (nested : 1 < recursive) (tid : ℕ)
    (live : step.pre.clocks.idOf tid ≠ none) :
    step.pre.clocks.view (.mutex mutex) tid ≤ step.pre.clocks.view (.thread tls) tid := by
  refine covered.held tls mutex (premises.nests tls mutex ?_) (premises.registered tls ?_) tid live
  · rw [acquires, Event.nests?, if_pos nested]
  · rw [acquires]
    rfl

theorem Covered.starts_fresh (tid : ℕ)
    (starts : step.pre.clocks.starts layout step.event = some tid) :
    step.pre.clocks.idOf tid = none := by
  cases same : step.event with
  | fork parent child =>
    rw [same] at starts
    obtain ⟨_, _, rfl⟩ := Option.map_eq_some_iff.mp starts
    by_contra live
    exact premises.forksOnce child (by rw [same]; rfl) (covered.forked.registered _ live)
  | _ => rw [same] at starts; cases starts

theorem Covered.locked (mutex : ℕ) (releases : step.event.releases? = some mutex) :
    step.pre.clocks.clockAt (.mutex mutex) ≠ none :=
  covered.locks mutex (premises.releases mutex releases)

include made

/-- A thread that holds a mutex undisturbed knows all that the mutex knows. -/
theorem Covered.held_step (wellFormed : after.WellFormed layout)
    (spares : step.event.Spares layout step.pre.clocks)
    (held : HeldSince (past ++ [step]) tls mutex) (live : after.idOf tls ≠ none)
    (stays : after.idOf tid ≠ none) :
    after.view (.mutex mutex) tid ≤ after.view (.thread tls) tid := by
  rcases Nat.eq_zero_or_pos (after.view (.mutex mutex) tid) with unknown | positive
  · rw [unknown]
    exact Nat.zero_le _
  have wasLive : ∀ {carrier : Carrier},
      after.view (.mutex mutex) tid ≤ step.pre.clocks.view carrier tid →
      step.pre.clocks.idOf tid ≠ none := by
    intro carrier le absent
    rw [covered.wellFormed.view_eq_zero absent] at le
    exact absurd positive (not_lt.mpr le)
  have tracked : after.snapshot.tracked (.mutex mutex) := trivial
  have origin := made.view_origin tracked (by simp) stays positive
  rcases heldSince_append held with locks | ⟨earlier, undisturbed⟩
  · obtain ⟨recursive, write, acquires, _⟩ := Event.locks?_eq locks
    rcases origin with ⟨_, le⟩ | ⟨source, passes, _⟩
    · have silent : step.event.announces? = none := by rw [acquires]; rfl
      refine le.trans (made.view_le_of_passes covered.wellFormed (publishes_of_silent silent)
        (covered.locked premises) (covered.nested premises) (covered.starts_fresh premises) ?_
        (by simp) (wasLive le) stays)
      rw [acquires]
      exact .acquire
    · rw [acquires] at passes
      cases passes
  -- the thread is registered already, since it has acquired the mutex
  have registered : step.pre.clocks.idOf tls ≠ none := by
    rcases made.registers live with was | ⟨was, child, forks, same⟩
    · exact was
    obtain ⟨_, last, member, calls, acquires⟩ := earlier.acquired
    have puts : last.pre.clocks.Puts layout last.event (.thread tls) := by
      cases lastEvent : last.event with
      | acquire => rw [lastEvent] at calls; exact Or.inl calls
      | _ => rw [lastEvent] at acquires; cases acquires
    exact absurd (covered.forked.heard last member tls puts)
      (same ▸ premises.freshFork child forks (same.symm ▸ was))
  have grows := fun live => made.grows covered.wellFormed spares
    (.thread tls) tid registered live
    ‹after.idOf tls ≠ none› stays
  rcases origin with ⟨_, le⟩ | ⟨source, passes, self | le⟩
  · have was := wasLive le
    exact le.trans ((covered.held tls mutex earlier registered tid was).trans (grows was))
  · cases same : step.event with
    | release other released write =>
      rw [same] at passes
      cases passes
      obtain ⟨rfl⟩ := undisturbed other write same
      obtain ⟨rfl⟩ := Carrier.thread.inj self
      obtain ⟨current, found⟩ := Option.ne_none_iff_exists'.mp stays
      rw [view_own found, view_mutex]
      exact (wellFormed.getIdByTid_le found _).trans (Nat.le_succ _)
    | _ => rw [same] at passes; cases passes
  · cases same : step.event with
    | release other released write =>
      rw [same] at passes
      cases passes
      obtain ⟨rfl⟩ := undisturbed other write same
      exact le.trans (grows (wasLive le))
    | _ => rw [same] at passes; cases passes

/-- The rules keep the clocks covering. -/
theorem Covered.append (publishes : step.pre.clocks.Publishes step.event)
    (spares : step.event.Spares layout step.pre.clocks) :
    Covered layout (past ++ [step]) after := by
  have wellFormed := made.wellFormed covered.wellFormed premises.room
  refine ⟨wellFormed, allForked_append covered.forked made premises.registered, ?_, ?_, ?_⟩
  · intro mutex acquired
    rcases acquired_append.mp acquired with earlier | acquires
    · exact made.keepsLock premises.goes (covered.locks mutex earlier)
    · cases same : step.event with
      | acquire tls locked recursive write =>
        rw [same] at acquires
        obtain ⟨rfl⟩ := Option.some.inj acquires
        by_cases nested : 1 < recursive
        · have held := premises.nests tls mutex (by rw [same, Event.nests?, if_pos nested])
          exact made.keepsLock premises.goes (covered.locks mutex held.acquired.1)
        · have locks : step.event.locks? = some (tls, mutex) := by
            rw [same, Event.locks?, if_neg nested]
          exact made.createsLock locks
      | _ => rw [same] at acquires; cases acquires
  · exact fun tls mutex held live tid stays =>
      covered.held_step premises made wellFormed spares held live stays
  · exact covered.covers.append (made.extends covered.forked premises.freshFork)
      (made.raises covered.wellFormed spares premises.registered publishes (covered.locked premises)
        (covered.nested premises) (covered.starts_fresh premises))

end Step

/-! ### Runs that follow the rules -/

theorem covered_start {ft : Fasttrack} (begins : (Fasttrack.machine layout).start ft) :
    Covered layout [] ft.clocks := by
  have absent : ∀ tid, ft.clocks.idOf tid = none := by
    obtain ⟨argv, rfl⟩ := begins
    exact fun tid => rfl
  refine ⟨?_, ⟨fun tid live => absurd (absent tid) live, fun step member => (nomatch member)⟩, ?_,
    ?_, covers_nil⟩
  · exact Reaches.wellFormed (.start begins) (fun step member => (nomatch member))
  · rintro mutex ⟨step, member, _⟩
    cases member
  · intro tls mutex held
    cases held

/-- In a run that follows the rules the clocks cover happens-before, if no announcement leaves
anything out and no registered thread is swept out. -/
theorem Reaches.covered_of_premises (reaches : Reaches layout past ft)
    (premises : Always (Premises layout) past)
    (publishes : Always (fun _ step => step.pre.clocks.Publishes step.event) past)
    (spares : Always (fun _ step => step.event.Spares layout step.pre.clocks) past) :
    Covered layout past ft.clocks := by
  refine Machine.Reaches.induct (fun past ft => Covered layout past ft.clocks) ?_ ?_ reaches
    (premises.and (publishes.and spares))
  · exact fun ft begins => covered_start begins
  · rintro past state event next output _ defined ⟨rules, publishes, spares⟩ covered
    have made := Fasttrack.call_clockStep covered.wellFormed rules.room defined
    have premises : Premises layout past ⟨state, event, next, output⟩ := rules
    exact Covered.append covered premises made publishes spares

theorem Reaches.covered (reaches : Reaches layout past ft) (obeys : Always (Obeys layout) past)
    (publishes : Always (fun _ step => step.pre.clocks.Publishes step.event) past) :
    Covered layout past ft.clocks :=
  Reaches.covered_of_premises reaches (obeys.imp fun _ _ rules => rules.premises) publishes
    (obeys.imp fun _ _ rules => rules.fits.spares)

/-- The detector reports no false alarms: in a run that follows the rules and announces nothing, the
first entry of every reported race stands for an access that does not happen before the second
one. -/
theorem report_unordered (reaches : Reaches layout past ft) (obeys : Always (Obeys layout) past)
    (silent : ∀ step ∈ past, step.event.announces? = none) :
    Always (fun front step => ∀ race ∈ step.output.races,
      Unordered layout joinsLive front step race)
      past := by
  intro front step initial race member
  obtain ⟨before, defined⟩ := reaches.step initial
  have rules : Always (Obeys layout) front := obeys.before ((List.prefix_append _ _).trans initial)
  have publishes : Always (fun _ step => step.pre.clocks.Publishes step.event) front :=
    always_iff_forall_mem.mpr fun earlier made => publishes_of_silent
      (silent earlier (initial.subset (List.mem_append_left _ made)))
  have covered := Reaches.covered before rules publishes
  have room : RoomAlong layout front :=
    always_iff_forall_mem.mp (rules.imp fun _ _ rule => rule.room)
  obtain ⟨access, thread, var, id, accesses, registered, found, recorded, races, conflict, first,
    live, firstAddr, second, kind, secondAddr⟩ := race_of_call covered.wellFormed defined member
  obtain ⟨earlier, made, tid, makes⟩ := Reaches.recorded before found recorded
  obtain ⟨position, atPosition⟩ := List.getElem?_of_mem made
  obtain ⟨bound, rfl⟩ := makes.makeTid (Reaches.wellFormed_pre before room made)
  have holds := Fasttrack.holds_of_lookup registered
  obtain ⟨_, other, unknown⟩ := (covered.wellFormed.racesWith_iff holds bound).mp races
  refine ⟨conflict, by rwa [first, second], by rw [firstAddr, secondAddr],
    ⟨thread.id, access, accesses, kind.symm, secondAddr.symm, second.symm, second ▸ holds.2⟩,
    position, earlier, id, atPosition, by rwa [firstAddr, first], fun ordered => ?_⟩
  -- an access only knows what its thread has heard of, and the epoch is not below that threshold
  obtain ⟨carrier, takes, heard⟩ := Flow.happensBefore_last.mp ordered
  obtain ⟨rfl⟩ := takes_of_access accesses takes
  have below := covered.covers (.thread access.tls) position (layout.makeTid id) id holds.live
    (Fasttrack.idOf_ne_none.mpr (first ▸ live)) ⟨earlier, atPosition, makes.stamp⟩ heard
  exact absurd below (not_lt.mpr unknown)

theorem report_unordered_two_writes :
    Always (fun front step => ∀ race ∈ step.output.races, Unordered .x64 joinsLive front step race)
      (ran .x64 [.fork 9 1, .fork 9 2, .acquire 1 7 1 true, .acquire 1 7 2 true, .write 1 0 0x100 3,
        .release 1 7 true, .release 1 7 true, .write 2 0 0x100 3]).1 :=
  report_unordered (reaches_ran .x64 _) (by decide +kernel) (by decide +kernel)

/-- Thread 2 learns of the write of thread 1 and is joined twice, by thread 4 and then by thread 3.
-/
def doubleJoin : List Event :=
  [.fork 9 1, .fork 9 2, .fork 9 3, .fork 9 4, .write 1 0 0x100 3, .acquire 1 7 1 true,
    .release 1 7 true, .acquire 2 7 1 true, .join 4 2, .join 3 2, .write 3 0 0x100 3]

/-- If every join with a registered parent counts, an ordered access is reported: the second join
of thread 2 is ignored. -/
theorem double_join_reported :
    Reaches .x64 (ran .x64 doubleJoin).1 (ran .x64 doubleJoin).2 ∧
      Always (Obeys .x64) (ran .x64 doubleJoin).1 ∧
      (∀ step ∈ (ran .x64 doubleJoin).1, step.event.announces? = none) ∧
      ¬ Always (fun front step => ∀ race ∈ step.output.races, Unordered .x64 joins front step race)
        (ran .x64 doubleJoin).1 := by
  refine ⟨reaches_ran .x64 _, by decide +kernel, by decide +kernel, fun always => ?_⟩
  obtain ⟨race, member, thread, kind, addr⟩ :
      ∃ race ∈ ((ran .x64 doubleJoin).1.get ⟨10, by decide +kernel⟩).output.races,
        race.first.threadId = 1 ∧ race.first.write = true ∧ race.first.accessedMemory = 0x100 := by
    decide +kernel
  obtain ⟨_, _, _, _, position, earlier, id, found, ⟨access, accesses, write, same, tls, _⟩,
    unordered⟩ :=
    always_iff_forall_index.mp always ⟨10, by decide +kernel⟩ race member
  -- the reported access is the write at position 4
  have only : ∀ position < 10, ∀ earlier ∈ ((ran .x64 doubleJoin).1.take 10)[position]?,
      ∀ access ∈ earlier.event.access?, access.tls = 1 → position = 4 := by decide +kernel
  have less : position < 10 := by
    have inside := (List.getElem?_eq_some_iff.mp found).1
    simp only [List.length_take] at inside
    omega
  obtain ⟨rfl⟩ := only position less earlier found access accesses (tls.trans thread)
  -- which reaches the release, the acquire of thread 2, its second join and the write of thread 3
  refine unordered ?_
  have ordered : (flow .x64 joins).HappensBefore ((ran .x64 doubleJoin).1.take 10 ++
      [(ran .x64 doubleJoin).1.get ⟨10, by decide +kernel⟩]) 4 10 := by
    refine .tail (.tail (.tail (.single ?_) (b := 6) ?_) (b := 7) ?_) (b := 9) ?_
    · exact Flow.edge_of_carrier _ (.thread 1) (by decide) (by decide +kernel)
    · exact Flow.edge_of_carrier _ (.mutex 7) (by decide) (by decide +kernel)
    · exact Flow.edge_of_carrier _ (.thread 2) (by decide) (by decide +kernel)
    · exact Flow.edge_of_carrier _ (.thread 3) (by decide) (by decide +kernel)
  have length : ((ran .x64 doubleJoin).1.take 10).length = 10 := by decide +kernel
  exact length.symm ▸ ordered

end Drace
