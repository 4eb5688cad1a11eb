/-
This file says when happens-before annotations are transitive.

A thread that waits for an identifier should know afterwards all that the thread
that announced it knew. An announcement publishes the caller's own entry only, so
this needs the identifier to know the caller's other entries already. Then the
clock of the waiting thread dominates that of the announcing one, for every thread
that stays registered, and no access that was ordered before the announcement is
reported.
-/

import Drace.Precision

namespace Drace

open Causality Clocks Machine

/-- The call at one position announces an identifier and a later one waits for it. The thread
objects are those of the two callers right after their calls. -/
structure Signals (past : List Step) (first second identifier tls : ℕ)
    (announcer waiter : ThreadState) : Prop where
  order : first < second
  announces : ∃ step, past[first]? = some step ∧
    ∃ caller, step.event = .happensBefore caller identifier ∧
    step.post.threads.lookup caller = some announcer
  waits : ∃ step, past[second]? = some step ∧ step.event = .happensAfter tls identifier ∧
    step.post.threads.lookup tls = some waiter

/-- A thread is registered from the state after one call until the state before another. -/
def Stays (past : List Step) (first last tid : ℕ) : Prop :=
  ∀ position step, first < position → position ≤ last → past[position]? = some step →
    tid ∈ step.pre.threads

instance (past : List Step) (first last tid : ℕ) : Decidable (Stays past first last tid) :=
  decidable_of_iff (∀ position : Fin past.length, first < position → position ≤ last →
      tid ∈ past[position].pre.threads)
    ⟨fun all position step after before found => by
      obtain ⟨bound, rfl⟩ := List.getElem?_eq_some_iff.mp found
      exact all ⟨position, bound⟩ after before,
    fun stays position after before => stays position _ after before (List.getElem?_eq_getElem _)⟩

/-- The limits a call keeps to: no clock is at its maximum, and a tid that is ended fits. -/
def Bounded (layout : Layout) (step : Step) : Prop :=
  step.pre.clocks.Room layout ∧ step.event.Fits layout

instance (layout : Layout) (step : Step) : Decidable (Bounded layout step) :=
  inferInstanceAs (Decidable (_ ∧ _))

variable {layout : Layout} {past : List Step} {ft : Fasttrack} {step last : Step}
  {announcer waiter : ThreadState} {carrier : Carrier}
  {first second third identifier tls tid id : ℕ}

/-! ### The two calls -/

theorem announces_live {before after : Clocks} {caller : ℕ}
    (made : ClockStep layout before (.happensBefore caller identifier) after) :
    before.idOf caller ≠ none := by
  cases made with
  | keep keeps => cases keeps
  | happensBefore holds => exact holds.live

/-- An announcing thread comes out with the thresholds it had when it made the call. -/
theorem entry_announcer {before after : Clocks} {caller : ℕ} {clock : VectorClock}
    (made : ClockStep layout before (.happensBefore caller identifier) after)
    (found : after.clockAt (.thread caller) = some clock) (tid : ℕ) :
    clock.getIdByTid tid = before.view (.thread caller) tid := by
  cases made with
  | keep keeps => cases keeps
  | @happensBefore _ _ id old holds =>
    rw [clockAt_setClock_of_ne (by simp), Clocks.tick, clockAt_setThread_self] at found
    obtain ⟨rfl⟩ := Option.some.inj found
    rw [view_of_holds holds, VectorClock.getIdByTid_insert]

/-- An announcement takes the past of its caller only. -/
theorem takes_of_announces {clocks : Clocks} {event : Event} {caller : ℕ} {source : Carrier}
    (announces : event = .happensBefore caller identifier)
    (takes : clocks.Takes joinsLive event source) : source = .thread caller := by
  subst announces
  cases source with
  | thread tid =>
    rcases takes with calls | joins
    · exact congrArg _ (Option.some.inj calls).symm
    · cases joins
  | mutex | identifier => cases takes

/-- After an announcement that leaves nothing out, the identifier knows all the caller does. -/
theorem announcer_le_identifier {before after : Clocks} {caller : ℕ} {clock : VectorClock}
    (made : ClockStep layout before (.happensBefore caller identifier) after)
    (wellFormed : before.WellFormed layout)
    (publishes : before.Publishes (.happensBefore caller identifier))
    (found : after.clockAt (.thread caller) = some clock) (tid : ℕ) :
    clock.getIdByTid tid ≤ after.view (.identifier identifier) tid := by
  rw [entry_announcer made found]
  cases made with
  | keep keeps => cases keeps
  | @happensBefore _ _ id old holds =>
    rw [view_setClock_self (by simp), VectorClock.getIdByTid_updateEntry]
    split
    · next same =>
      subst same
      rw [view_own holds.2]
      exact le_max_right _ _
    · next other =>
      by_cases live : before.idOf tid = none
      · rw [wellFormed.view_eq_zero live]
        exact Nat.zero_le _
      · rw [← view_identifier]
        exact publishes tid other live

/-- A waiting thread takes over all the identifier knows. -/
theorem identifier_le_waiter {before after : Clocks} {clock : VectorClock}
    (made : ClockStep layout before (.happensAfter tls identifier) after)
    (found : after.clockAt (.thread tls) = some clock) (tid : ℕ) :
    before.view (.identifier identifier) tid ≤ clock.getIdByTid tid := by
  rw [view_identifier, clockOrNew]
  cases made with
  | keep keeps => cases keeps
  | happensAfterUnknown unknown =>
    rw [unknown]
    exact Nat.zero_le _
  | happensAfter kept holds =>
    rw [clockAt_setThread_self] at found
    obtain ⟨rfl⟩ := Option.some.inj found
    rw [kept]
    exact VectorClock.getIdByTid_other_le_update

theorem Clocks.WellFormed.entry_le_view {clocks : Clocks} {clock : VectorClock}
    (wellFormed : clocks.WellFormed layout) (holds : clocks.Holds tls clock id) (tid : ℕ) :
    clock.getIdByTid tid ≤ clocks.view (.thread tls) tid := by
  rw [view_of_holds holds]
  split
  · next same => exact same ▸ (wellFormed.getIdByTid_own holds).trans (Nat.le_succ _)
  · exact le_rfl

/-! ### Between the calls -/

section Between

variable (reaches : Reaches layout past ft) (bounded : ∀ step ∈ past, Bounded layout step)

include reaches bounded

theorem clockStep_at {position : ℕ} (found : past[position]? = some step) :
    step.pre.clocks.WellFormed layout ∧
      ClockStep layout step.pre.clocks step.event step.post.clocks := by
  have member := List.mem_of_getElem? found
  have room : RoomAlong layout past := fun step member => (bounded step member).1
  have wellFormed := Reaches.wellFormed_pre reaches room member
  exact ⟨wellFormed, Fasttrack.call_clockStep wellFormed (room step member) (reaches.at found).2⟩

/-- What a kept clock knows of a thread that stays registered is not forgotten. -/
theorem view_le_of_stays (found : past[first]? = some step) (order : first < second)
    (later : past[second]? = some last) (stays : Stays past first second tid)
    (kept : ∀ tid, carrier = .thread tid → Stays past first second tid) :
    step.post.clocks.view carrier tid ≤ last.pre.clocks.view carrier tid := by
  have tracked : ∀ position step, first < position → position ≤ second →
      past[position]? = some step → step.pre.clocks.snapshot.tracked carrier := by
    intro position step after before found
    cases carrier with
    | thread tid => exact Fasttrack.idOf_ne_none.mpr (kept tid rfl position step after before found)
    | mutex | identifier => trivial
  induction second, order using Nat.le_induction generalizing last with
  | base => exact (congrArg (fun ft => ft.clocks.view carrier tid) (reaches.chain found later)).ge
  | succ position order inductionHypothesis =>
    obtain ⟨middle, atPosition⟩ : ∃ middle, past[position]? = some middle := by
      have inside := (List.getElem?_eq_some_iff.mp later).1
      exact ⟨_, List.getElem?_eq_getElem (Nat.lt_of_succ_lt inside)⟩
    have earlier := inductionHypothesis atPosition
      (fun position step after before => stays position step after (before.trans (Nat.le_succ _)))
      (fun tid same position step after before =>
        kept tid same position step after (before.trans (Nat.le_succ _)))
      (fun position step after before => tracked position step after (before.trans (Nat.le_succ _)))
    obtain ⟨wellFormed, made⟩ := clockStep_at reaches bounded atPosition
    have same := reaches.chain atPosition later
    refine earlier.trans (same ▸ made.grows wellFormed
      (bounded middle (List.mem_of_getElem? atPosition)).2.spares
      carrier tid (tracked _ _ order (Nat.le_succ _) atPosition)
      (Fasttrack.idOf_ne_none.mpr (stays _ _ order (Nat.le_succ _) atPosition))
      (same ▸ tracked _ _ (Nat.lt_succ_of_lt order) le_rfl later)
      (same ▸ Fasttrack.idOf_ne_none.mpr (stays _ _ (Nat.lt_succ_of_lt order) le_rfl later)))

end Between

/-! ### The main result -/

theorem clockAt_of_lookup {thread : ThreadState} (found : ft.threads.lookup tid = some thread) :
    ft.clocks.clockAt (.thread tid) = some thread.toVectorClock :=
  (Fasttrack.holds_of_lookup found).1

/-- A reported epoch is not below the threshold of the thread that makes the access. -/
theorem view_le_of_accuses (reaches : Reaches layout past ft)
    (bounded : ∀ step ∈ past, Bounded layout step) {position : ℕ}
    (found : past[position]? = some step)
    {race : Race} (reported : race ∈ step.output.races) (accuses : Accuses layout step race id) :
    step.pre.clocks.view (.thread race.second.threadId) race.first.threadId ≤ id := by
  obtain ⟨wellFormed, _⟩ := clockStep_at reaches bounded found
  have room : RoomAlong layout past := fun step member => (bounded step member).1
  obtain ⟨before, defined⟩ := reaches.at found
  obtain ⟨access, thread, var, other, accesses, registered, stored, recorded, races, _, first, _,
    firstAddr, second, _⟩ := race_of_call wellFormed defined reported
  obtain ⟨named, state, storedState, member⟩ := accuses
  rw [firstAddr] at storedState
  obtain ⟨rfl⟩ : state = var := Option.some.inj (storedState.symm.trans stored)
  obtain ⟨rfl⟩ : id = other := (Reaches.tidy before stored).unique member recorded
    (named.trans first)
  obtain ⟨earlier, made, tid, makes⟩ := Reaches.recorded before stored recorded
  have earlierRoom : RoomAlong layout (past.take position) :=
    room.before (List.take_prefix _ _)
  obtain ⟨bound, _⟩ := makes.makeTid (Reaches.wellFormed_pre before earlierRoom made)
  have holds := Fasttrack.holds_of_lookup registered
  obtain ⟨_, _, unknown⟩ := (wellFormed.racesWith_iff holds bound).mp races
  rwa [second, first]

/-- In a run that follows the rules and leaves nothing out, all accesses that happen before an
announcement are below the entries of the announcing thread. -/
theorem lt_entry_of_happensBefore (reaches : Reaches layout past ft)
    (obeys : Always (Obeys layout) past)
    (publishes : ∀ step ∈ past, step.pre.clocks.Publishes step.event) {caller position addr : ℕ}
    (found : past[first]? = some last) (announces : last.event = .happensBefore caller identifier)
    (announcerFound : last.post.threads.lookup caller = some announcer)
    (made : ClockStep layout last.pre.clocks last.event last.post.clocks)
    (live : last.pre.clocks.idOf tid ≠ none) {kind : Bool}
    (atPosition : past[position]? = some step)
    (makes : Makes step kind addr tid id)
    (ordered : (flow layout joinsLive).HappensBefore past position first) :
    id < announcer.getIdByTid tid := by
  obtain ⟨bound, same⟩ := List.getElem?_eq_some_iff.mp found
  have initial : past.take first <+: past := List.take_prefix _ _
  have covered := Reaches.covered (reaches.at found).1 (obeys.before initial)
    (always_iff_forall_mem.mpr fun step member => publishes step (initial.subset member))
  -- the announcement takes the past of its caller only, and the caller's clock covers it
  have whole : past.take first ++ [last] ++ past.drop (first + 1) = past := by
    rw [← same, List.take_concat_get' past first bound, List.take_append_drop]
  have length : (past.take first).length = first := List.length_take_of_le bound.le
  have inside : first < (past.take first ++ [last]).length := by
    rw [List.length_append, length]
    exact Nat.lt_succ_self _
  have less := ordered.lt
  rw [← whole] at ordered
  have orderedHere := (Flow.happensBefore_append inside).mp ordered
  obtain ⟨carrier, takes, heard⟩ := Flow.happensBefore_last.mp (by rwa [length])
  obtain rfl := takes_of_announces announces takes
  rw [announces] at made
  rw [entry_announcer made (clockAt_of_lookup announcerFound)]
  exact covered.covers (.thread caller) position tid id (announces_live made) live
    ⟨step, by rwa [List.getElem?_take_of_lt less], makes.stamp⟩ heard

/-- If an announcement leaves nothing out, a thread that waits for the identifier later dominates
the announcing one in the entries of all threads that stay registered, and reports no access of
theirs that is below these entries. In a run that follows the rules, these are all accesses that
happen before the announcement. -/
theorem waiter_dominates (reaches : Reaches layout past ft)
    (bounded : ∀ step ∈ past, Bounded layout step)
    (publishes : ∀ step ∈ past, step.pre.clocks.Publishes step.event)
    (signals : Signals past first second identifier tls announcer waiter) :
    (∀ tid, Stays past first second tid → announcer.getIdByTid tid ≤ waiter.getIdByTid tid) ∧
    (∀ third step race id, second < third → past[third]? = some step → Stays past second third tls →
      race ∈ step.output.races → race.second.threadId = tls →
      Stays past first third race.first.threadId → Accuses layout step race id →
      announcer.getIdByTid race.first.threadId ≤ id) ∧
    (Always (Obeys layout) past → ∀ position step kind addr tid id, past[position]? = some step →
      Makes step kind addr tid id → (flow layout joinsLive).HappensBefore past position first →
      Stays past first second tid → id < announcer.getIdByTid tid) := by
  obtain ⟨order, ⟨announce, atFirst, caller, announces, announcerFound⟩,
    ⟨wait, atSecond, waits, waiterFound⟩⟩ := signals
  obtain ⟨wellFormed, announced⟩ := clockStep_at reaches bounded atFirst
  obtain ⟨waitFormed, waited⟩ := clockStep_at reaches bounded atSecond
  have dominates : ∀ tid, Stays past first second tid →
      announcer.getIdByTid tid ≤ waiter.getIdByTid tid := by
    intro tid stays
    have publishesHere := publishes announce (List.mem_of_getElem? atFirst)
    calc announcer.getIdByTid tid
        ≤ announce.post.clocks.view (.identifier identifier) tid :=
          announcer_le_identifier (announces ▸ announced) wellFormed (announces ▸ publishesHere)
            (clockAt_of_lookup announcerFound) tid
      _ ≤ wait.pre.clocks.view (.identifier identifier) tid :=
          view_le_of_stays reaches bounded atFirst order atSecond stays (by simp)
      _ ≤ waiter.getIdByTid tid :=
          identifier_le_waiter (waits ▸ waited) (clockAt_of_lookup waiterFound) tid
  refine ⟨dominates, ?_, ?_⟩
  · intro third step race id later atThird calls reported same stays accuses
    have threshold := view_le_of_accuses reaches bounded atThird reported accuses
    rw [same] at threshold
    have waiterKept := waited.wellFormed waitFormed (bounded wait (List.mem_of_getElem? atSecond)).1
    calc announcer.getIdByTid race.first.threadId
        ≤ waiter.getIdByTid race.first.threadId :=
          dominates _ fun position step after before =>
            stays position step after (before.trans later.le)
      _ ≤ wait.post.clocks.view (.thread tls) race.first.threadId :=
          waiterKept.entry_le_view (Fasttrack.holds_of_lookup waiterFound) _
      _ ≤ step.pre.clocks.view (.thread tls) race.first.threadId :=
          view_le_of_stays reaches bounded atSecond later atThird
            (fun position step after before => stays position step (order.trans after) before)
            (fun tid same => Carrier.thread.inj same ▸ calls)
      _ ≤ id := threshold
  · intro obeys position step kind addr tid id atPosition makes ordered stays
    refine lt_entry_of_happensBefore reaches obeys publishes atFirst announces announcerFound
      announced ?_
      atPosition makes ordered
    -- the thread is registered after the announcement, which registers none
    obtain ⟨next, atNext⟩ : ∃ next, past[first + 1]? = some next :=
      ⟨_, List.getElem?_eq_getElem (lt_of_le_of_lt order (List.getElem?_eq_some_iff.mp atSecond).1)⟩
    have registered := stays (first + 1) next (Nat.lt_succ_self _) order atNext
    rw [reaches.chain atFirst atNext] at registered
    refine (announced.registers (Fasttrack.idOf_ne_none.mpr registered)).resolve_right ?_
    rintro ⟨_, _, forks, _⟩
    rw [announces] at forks
    cases forks

/-- Thread 1 announces to thread 2, and thread 2 to thread 3 by the same identifier. -/
def relay : List Event :=
  [.fork 9 1, .fork 9 2, .fork 9 3, .write 1 0 0x100 3, .happensBefore 1 7, .happensAfter 2 7,
    .happensBefore 2 7, .happensAfter 3 7, .write 3 0 0x100 3]

theorem waiter_dominates_relay :
    ∃ announcer waiter, Signals (ran .x64 relay).1 6 7 7 3 announcer waiter ∧
      ∀ tid, Stays (ran .x64 relay).1 6 7 tid →
        announcer.getIdByTid tid ≤ waiter.getIdByTid tid := by
  obtain ⟨announcer, announcerFound⟩ : ∃ announcer,
      ((ran .x64 relay).1.get ⟨6, by decide +kernel⟩).post.threads.lookup 2 = some announcer :=
    Option.isSome_iff_exists.mp (by decide +kernel)
  obtain ⟨waiter, waiterFound⟩ : ∃ waiter,
      ((ran .x64 relay).1.get ⟨7, by decide +kernel⟩).post.threads.lookup 3 = some waiter :=
    Option.isSome_iff_exists.mp (by decide +kernel)
  have signals : Signals (ran .x64 relay).1 6 7 7 3 announcer waiter :=
    ⟨by decide, ⟨_, List.getElem?_eq_getElem _, 2, by decide +kernel, announcerFound⟩,
      ⟨_, List.getElem?_eq_getElem _, by decide +kernel, waiterFound⟩⟩
  exact ⟨announcer, waiter, signals,
    (waiter_dominates (reaches_ran .x64 _) (by decide +kernel) (by decide +kernel) signals).1⟩

/-- Thread 1 passes its write on to thread 2 by a mutex, and thread 2 announces to thread 3. -/
def mixedChain : List Event :=
  [.fork 9 1, .fork 9 2, .fork 9 3, .write 1 0 0x100 3, .acquire 1 5 1 true, .release 1 5 true,
    .acquire 2 5 1 true, .happensBefore 2 7, .happensAfter 3 7, .write 3 0 0x100 3]

/-- An announcement publishes the caller's own entry only: thread 3 does not learn of the write of
thread 1, and its own write is reported as a race although the two are ordered. -/
theorem announcement_incomplete :
    Reaches .x64 (ran .x64 mixedChain).1 (ran .x64 mixedChain).2 ∧
      Always (Obeys .x64) (ran .x64 mixedChain).1 ∧
      ∃ announcer waiter, Signals (ran .x64 mixedChain).1 7 8 7 3 announcer waiter ∧
        ¬ (∀ tid, Stays (ran .x64 mixedChain).1 7 8 tid →
          announcer.getIdByTid tid ≤ waiter.getIdByTid tid) ∧
        ¬ (∀ third step race id, 8 < third → (ran .x64 mixedChain).1[third]? = some step →
          Stays (ran .x64 mixedChain).1 8 third 3 → race ∈ step.output.races →
          race.second.threadId = 3 → Stays (ran .x64 mixedChain).1 7 third race.first.threadId →
          Accuses .x64 step race id → announcer.getIdByTid race.first.threadId ≤ id) := by
  obtain ⟨announcer, announcerFound, known⟩ : ∃ announcer ∈
      ((ran .x64 mixedChain).1.get ⟨7, by decide +kernel⟩).post.threads.lookup 2,
      announcer.getIdByTid 1 = Layout.x64.makeId 1 + 1 := by decide +kernel
  obtain ⟨waiter, waiterFound, unknown⟩ : ∃ waiter ∈
      ((ran .x64 mixedChain).1.get ⟨8, by decide +kernel⟩).post.threads.lookup 3,
      waiter.getIdByTid 1 = 0 := by decide +kernel
  have signals : Signals (ran .x64 mixedChain).1 7 8 7 3 announcer waiter :=
    ⟨by decide, ⟨_, List.getElem?_eq_getElem _, 2, by decide +kernel, announcerFound⟩,
      ⟨_, List.getElem?_eq_getElem _, by decide +kernel, waiterFound⟩⟩
  refine ⟨reaches_ran .x64 _, by decide +kernel, announcer, waiter, signals, fun dominates => ?_,
    fun never => ?_⟩
  · have le := dominates 1 (by decide +kernel)
    rw [known, unknown] at le
    exact absurd le (by decide)
  · obtain ⟨race, reported, second, first, accuses⟩ : ∃ race ∈
        ((ran .x64 mixedChain).1.get ⟨9, by decide +kernel⟩).output.races,
        race.second.threadId = 3 ∧ race.first.threadId = 1 ∧ Accuses .x64
          ((ran .x64 mixedChain).1.get ⟨9, by decide +kernel⟩) race (Layout.x64.makeId 1) := by
      decide +kernel
    have le := never 9 _ race (Layout.x64.makeId 1) (by decide) (List.getElem?_eq_getElem _)
      (by decide +kernel) reported second (first ▸ by decide +kernel) accuses
    rw [first, known] at le
    exact absurd le (by decide)

end Drace
