/-
This file relates what the detector has stored to the calls of its history.

Every recorded epoch was recorded by an access of the history, and every reported
race names such an epoch. Every registered thread, and every thread that an event
left its past at, has been forked. With that, no thread or clock comes to life
with a past of its own unless a tid is forked again.
-/

import Drace.Access
import Drace.Thresholds

namespace Drace

open Causality Clocks Machine

/-- The step is an access of one kind to an address, by a thread with this id. -/
def Makes (step : Step) (write : Bool) (addr tid id : ℕ) : Prop :=
  ∃ access, step.event.access? = some access ∧ access.write = write ∧ access.addr = addr ∧
    access.tls = tid ∧ step.pre.clocks.idOf tid = some id

/-- An epoch is recorded for an address, among the accesses of one kind. -/
def Records (ft : Fasttrack) (write : Bool) (addr id : ℕ) : Prop :=
  ∃ var, ft.vars.lookup addr = some var ∧ id ∈ var.recorded write

/-- The first entry of a race stands for this epoch. -/
def Accuses (layout : Layout) (step : Step) (race : Race) (id : ℕ) : Prop :=
  layout.makeTid id = race.first.threadId ∧
    Records step.pre race.first.write race.first.accessedMemory id

instance (step : Step) (write : Bool) (addr tid id : ℕ) :
    Decidable (Makes step write addr tid id) :=
  inferInstanceAs (Decidable (∃ access ∈ step.event.access?, _))

instance (ft : Fasttrack) (write : Bool) (addr id : ℕ) : Decidable (Records ft write addr id) :=
  inferInstanceAs (Decidable (∃ var ∈ ft.vars.lookup addr, _))

instance (layout : Layout) (step : Step) (race : Race) (id : ℕ) :
    Decidable (Accuses layout step race id) := inferInstanceAs (Decidable (_ ∧ _))

variable {layout : Layout} {past front : List Step} {ft next : Fasttrack} {event : Event}
  {output : Output} {access : Access} {step : Step} {var : VarState} {write kind : Bool}
  {addr tid id size : ℕ}

theorem tls_of_access (accesses : event.access? = some access) : event.tls? = some access.tls := by
  cases event with
  | read | write =>
    obtain ⟨rfl⟩ := Option.some.inj accesses
    rfl
  | _ => cases accesses

theorem caller_of_access (accesses : event.access? = some access) (clocks : Clocks) :
    clocks.caller event = some access.tls := by
  cases event with
  | read | write =>
    obtain ⟨rfl⟩ := Option.some.inj accesses
    rfl
  | _ => cases accesses

/-- An access takes the past of its own thread only. -/
theorem takes_of_access (accesses : event.access? = some access) {clocks : Clocks}
    {source : Carrier}
    (takes : clocks.Takes joinsLive event source) : source = .thread access.tls := by
  cases event with
  | read | write =>
    obtain ⟨rfl⟩ := Option.some.inj accesses
    cases source with
    | thread tid =>
      rcases takes with calls | joins
      · exact congrArg _ (Option.some.inj calls).symm
      · cases joins
    | mutex | identifier => cases takes
  | _ => cases accesses

/-- An access carries the stamp of its thread and id. -/
theorem Makes.stamp (makes : Makes step write addr tid id) : stamp step tid id := by
  obtain ⟨access, accesses, _, _, rfl, current⟩ := makes
  exact ⟨caller_of_access accesses _, current⟩

/-! ### Where epochs come from -/

theorem recorded_createVar (member : id ∈ (ft.createVar addr size).recorded kind) :
    ∃ var, ft.vars.lookup addr = some var ∧ id ∈ var.recorded kind := by
  unfold Fasttrack.createVar at member
  cases found : ft.vars.lookup addr with
  | none =>
    rw [found, VarState.recorded_new] at member
    cases member
  | some var =>
    rw [found] at member
    exact ⟨var, rfl, member⟩

/-- An epoch that is recorded after a call was recorded before, or the call is the access. -/
theorem recorded_call (defined : ft.call layout event = some (next, output))
    (found : next.vars.lookup addr = some var) (member : id ∈ var.recorded kind) :
    (∃ before, ft.vars.lookup addr = some before ∧ id ∈ before.recorded kind) ∨
      ∃ tid, Makes ⟨ft, event, next, output⟩ kind addr tid id := by
  cases accesses : event.access? with
  | none => exact Or.inl ⟨var, Fasttrack.call_forgets accesses defined found, member⟩
  | some access =>
    obtain ⟨thread, registered, _, _, vars, _⟩ := Fasttrack.call_access accesses defined
    rw [vars, AList.lookup_insert_eq_ite] at found
    split at found
    · next same =>
      obtain ⟨rfl⟩ := Option.some.inj found
      rcases VarState.mem_recorded_after member with old | ⟨rfl, rfl⟩
      · exact Or.inl (same ▸ recorded_createVar old)
      · exact Or.inr ⟨access.tls, access, accesses, rfl, same.symm, rfl,
          (Fasttrack.holds_of_lookup registered).2⟩
    · exact Or.inl ⟨var, found, member⟩

/-- Every recorded epoch is that of an access of its kind to its address. -/
theorem Reaches.recorded (reaches : Reaches layout past ft)
    (found : ft.vars.lookup addr = some var) (member : id ∈ var.recorded kind) :
    ∃ step ∈ past, ∃ tid, Makes step kind addr tid id := by
  induction reaches generalizing var with
  | start begins =>
    obtain ⟨argv, rfl⟩ := begins
    simp [Fasttrack.init] at found
  | @call past before next event output earlier defined inductionHypothesis =>
    rcases recorded_call defined found member with ⟨old, oldFound, oldMember⟩ | ⟨tid, makes⟩
    · obtain ⟨step, made, makes⟩ := inductionHypothesis oldFound oldMember
      exact ⟨step, List.mem_append_left _ made, makes⟩
    · exact ⟨_, List.mem_append_right _ (List.mem_singleton_self _), tid, makes⟩

/-- The state of every address is tidy. -/
theorem Reaches.tidy (reaches : Reaches layout past ft) (found : ft.vars.lookup addr = some var) :
    var.Tidy layout := by
  induction reaches generalizing var with
  | start begins =>
    obtain ⟨argv, rfl⟩ := begins
    simp [Fasttrack.init] at found
  | @call past before next event output earlier defined inductionHypothesis =>
    cases accesses : event.access? with
    | none => exact inductionHypothesis (Fasttrack.call_forgets accesses defined found)
    | some access =>
      obtain ⟨thread, _, _, _, vars, _⟩ := Fasttrack.call_access accesses defined
      rw [vars, AList.lookup_insert_eq_ite] at found
      split at found
      · next same =>
        obtain ⟨rfl⟩ := Option.some.inj found
        refine VarState.Tidy.after ?_
        rw [← same, Fasttrack.createVar]
        cases stored : before.vars.lookup addr with
        | none => exact VarState.tidy_new
        | some old => exact inductionHypothesis stored
      · exact inductionHypothesis found

theorem Reaches.tidy_createVar (reaches : Reaches layout past ft) {size : ℕ} :
    (ft.createVar addr size).Tidy layout := by
  unfold Fasttrack.createVar
  cases found : ft.vars.lookup addr with
  | none => exact VarState.tidy_new
  | some var => exact Reaches.tidy reaches found

theorem RoomAlong.before (room : RoomAlong layout past) (initial : front <+: past) :
    RoomAlong layout front :=
  fun step member => room step (initial.subset member)

/-- Every step of a run is made in a well-formed state. -/
theorem Reaches.wellFormed_pre (reaches : Reaches layout past ft) (room : RoomAlong layout past)
    (member : step ∈ past) : step.pre.clocks.WellFormed layout := by
  obtain ⟨front, rest, rfl⟩ := List.append_of_mem member
  have initial : front ++ [step] <+: front ++ step :: rest := ⟨rest, by simp⟩
  exact Reaches.wellFormed (reaches.step initial).1
    (room.before ((List.prefix_append _ _).trans initial))

/-- The id of an access decodes to its thread. -/
theorem Makes.makeTid (makes : Makes step write addr tid id)
    (wellFormed : step.pre.clocks.WellFormed layout) :
    id < layout.sizeRange ∧ layout.makeTid id = tid := by
  obtain ⟨access, _, _, _, rfl, current⟩ := makes
  exact wellFormed.encodes _ id current

/-! ### What a report says -/

/-- An epoch races with a thread if it is set, belongs to somebody else and is not below the
threshold of the thread. -/
theorem Clocks.WellFormed.racesWith_iff {clocks : Clocks} {tls : ℕ} {thread : ThreadState}
    (wellFormed : clocks.WellFormed layout)
    (holds : clocks.Holds tls thread.toVectorClock thread.id) (bound : id < layout.sizeRange) :
    VarState.racesWith layout id thread ↔ id ≠ VarState.varNotInit ∧ layout.makeTid id ≠ tls ∧
      clocks.view (.thread tls) (layout.makeTid id) ≤ id := by
  unfold VarState.racesWith ThreadState.getTid
  rw [(wellFormed.encodes _ _ holds.2).2, wellFormed.clock_le_iff bound holds.1, @ne_comm _ tls]
  refine and_congr_right fun _ => and_congr_right fun differs => ?_
  rw [view_of_holds holds, if_neg differs]

theorem mem_reportRace {thr1 thr2 : ℕ} {wr1 wr2 : Bool} {race : Race}
    (member : race ∈ ft.reportRace thr1 thr2 wr1 wr2 var addr) :
    ∃ first second, ft.threads.lookup thr1 = some first ∧ ft.threads.lookup thr2 = some second ∧
      race = { first := .fill thr1 wr1 var addr (first.traceDepot.returnStackTrace addr)
               second := .fill thr2 wr2 var addr (second.traceDepot.returnStackTrace addr) } := by
  unfold Fasttrack.reportRace at member
  split at member
  · next first second foundFirst foundSecond =>
    exact ⟨first, second, foundFirst, foundSecond, List.mem_singleton.mp member⟩
  · cases member

theorem mem_recordAccess {tls pc : ℕ} {thread : ThreadState}
    (found : ft.threads.lookup tls = some thread) :
    tid ∈ (ft.recordAccess tls thread pc addr).threads ↔ tid ∈ ft.threads := by
  unfold Fasttrack.recordAccess Fasttrack.setThread
  rw [AList.mem_insert]
  exact or_iff_right_of_imp fun same => same ▸ Fasttrack.mem_threads_of_lookup found

/-- A race reported by a call in a well-formed state: the call is an access, and its first entry
names an epoch recorded for the address that the calling thread does not know. -/
theorem race_of_call (wellFormed : ft.clocks.WellFormed layout)
    (defined : ft.call layout event = some (next, output)) {race : Race}
    (member : race ∈ output.races) :
    ∃ access thread var id, event.access? = some access ∧
      ft.threads.lookup access.tls = some thread ∧ ft.vars.lookup access.addr = some var ∧
      id ∈ var.recorded race.first.write ∧ VarState.racesWith layout id thread ∧
      (race.first.write = true ∨ race.second.write = true) ∧
      race.first.threadId = layout.makeTid id ∧ race.first.threadId ∈ ft.threads ∧
      race.first.accessedMemory = access.addr ∧ race.second.threadId = access.tls ∧
      race.second.write = access.write ∧ race.second.accessedMemory = access.addr := by
  cases accesses : event.access? with
  | none =>
    rw [(Fasttrack.call_quiet accesses defined).1] at member
    cases member
  | some access =>
    obtain ⟨thread, registered, _, _, _, races⟩ := Fasttrack.call_access accesses defined
    rw [races] at member
    obtain ⟨⟨kind, tid⟩, verdict, reported⟩ := List.mem_flatMap.mp member
    obtain ⟨id, recorded, racing, same, conflict⟩ := VarState.mem_verdicts verdict
    obtain ⟨first, second, foundFirst, _, rfl⟩ := mem_reportRace reported
    obtain ⟨var, found, old⟩ := recorded_createVar recorded
    refine ⟨access, thread, var, id, rfl, registered, found, old, racing, conflict, same.symm,
      (mem_recordAccess registered).mp (Fasttrack.mem_threads_of_lookup foundFirst), rfl,
        ?_, rfl, rfl⟩
    exact (wellFormed.encodes _ _ (Fasttrack.holds_of_lookup registered).2).2

/-- A report needs both threads to be registered. -/
theorem exists_mem_reportRace {thr1 thr2 : ℕ} {wr1 wr2 : Bool} (first : thr1 ∈ ft.threads)
    (second : thr2 ∈ ft.threads) :
    ∃ race ∈ ft.reportRace thr1 thr2 wr1 wr2 var addr,
      race.first.write = wr1 ∧ race.first.threadId = thr1 ∧ race.second.accessedMemory = addr := by
  obtain ⟨firstState, foundFirst⟩ := AList.exists_lookup first
  obtain ⟨secondState, foundSecond⟩ := AList.exists_lookup second
  unfold Fasttrack.reportRace
  rw [foundFirst, foundSecond]
  exact ⟨_, List.mem_singleton_self _, rfl, rfl, rfl⟩

/-- An access reports a race if and only if it has such a verdict, on a registered thread, and its
own thread is registered under its tid. -/
theorem reports_iff (defined : ft.call layout event = some (next, output))
    (accesses : event.access? = some access) {thread : ThreadState}
    (registered : ft.threads.lookup access.tls = some thread) (kind : Bool) (tid : ℕ) :
    (∃ race ∈ output.races, race.first.write = kind ∧ race.first.threadId = tid ∧
        race.second.accessedMemory = access.addr) ↔
      (kind, tid) ∈ (ft.createVar access.addr access.size).verdicts layout access.write thread ∧
        tid ∈ ft.threads ∧ thread.getTid layout ∈ ft.threads := by
  obtain ⟨same, found, _, _, _, races⟩ := Fasttrack.call_access accesses defined
  obtain ⟨rfl⟩ := Option.some.inj (found.symm.trans registered)
  rw [races]
  constructor
  · rintro ⟨race, member, rfl, rfl, _⟩
    obtain ⟨⟨kind, tid⟩, verdict, reported⟩ := List.mem_flatMap.mp member
    obtain ⟨first, second, foundFirst, foundSecond, rfl⟩ := mem_reportRace reported
    exact ⟨verdict, (mem_recordAccess registered).mp (Fasttrack.mem_threads_of_lookup foundFirst),
      (mem_recordAccess registered).mp (Fasttrack.mem_threads_of_lookup foundSecond)⟩
  · rintro ⟨verdict, first, second⟩
    obtain ⟨race, reported, same⟩ := exists_mem_reportRace
      ((mem_recordAccess registered).mpr first) ((mem_recordAccess registered).mpr second)
    exact ⟨race, List.mem_flatMap.mpr ⟨_, verdict, reported⟩, same⟩

/-! ### Threads are forked before they act -/

variable {before after : Clocks} {carrier : Carrier}

theorem Forked.mono (forked : Forked layout past tid) : Forked layout (past ++ [step]) tid := by
  obtain ⟨step, member, forks⟩ := forked
  exact ⟨step, List.mem_append_left _ member, forks⟩

/-- Only a fork registers a thread. -/
theorem ClockStep.registers (made : ClockStep layout before event after)
    (registered : after.idOf tid ≠ none) :
    before.idOf tid ≠ none ∨
      before.idOf tid = none ∧ ∃ child, event.forks? = some child ∧
        child % layout.tidRange = tid := by
  by_cases was : before.idOf tid = none
  · refine Or.inr ⟨was, ?_⟩
    have kept : ∀ {clocks : Clocks} {tls id : ℕ} {clock : VectorClock}, before.idOf tls ≠ none →
        (clocks.idOf tid = none) → (clocks.setThread tls clock id).idOf tid = none := by
      intro clocks tls id clock live absent
      rw [idOf_setThread_of_ne (by rintro rfl; exact live was), absent]
    cases made with
    | keep | acquireRecursive | forkOrphanAgain | joinInvalid | releaseUnknown | happensAfterUnknown
    | finishUnknown => exact absurd was registered
    | acquire _ holds | happensAfter _ holds | forkAgain holds =>
      exact (registered (kept holds.live was)).elim
    | release _ holds | happensBefore holds =>
      rw [idOf_setClock] at registered
      exact (registered (kept holds.live was)).elim
    | @forkOrphan parent child orphan absent =>
      by_cases same : tid = child % layout.tidRange
      · exact ⟨child, rfl, same.symm⟩
      · exact absurd ((idOf_setThread_of_ne same).trans was) registered
    | @fork parent child id clock holds absent =>
      by_cases same : tid = child % layout.tidRange
      · exact ⟨child, rfl, same.symm⟩
      · exact absurd ((idOf_setThread_of_ne same).trans (kept holds.live was)) registered
    | @joinSelf child live | @finish tls child live =>
      exact absurd ((idOf_remove_of_ne (by rintro rfl; exact live was)).trans was) registered
    | @join parent child id parentId clock parentClock differs holds parentHolds =>
      refine absurd ?_ registered
      rw [idOf_sweep, idOf_remove_of_ne (by rintro rfl; exact holds.live was)]
      exact kept parentHolds.live was
    | finalize => exact absurd rfl registered
  · exact Or.inl was

/-- The registered threads and those an event has left its past at have all been forked. -/
structure AllForked (layout : Layout) (past : List Step) (clocks : Clocks) : Prop where
  registered : ∀ tid, clocks.idOf tid ≠ none → Forked layout past tid
  heard : ∀ step ∈ past, ∀ tid, step.pre.clocks.Puts layout step.event (.thread tid) →
    Forked layout past tid

theorem allForked_append (forked : AllForked layout past step.pre.clocks)
    (made : ClockStep layout step.pre.clocks step.event after)
    (handle : step.event.Registered step.pre.clocks) :
    AllForked layout (past ++ [step]) after where
  registered tid registered := by
    rcases made.registers registered with was | ⟨_, child, forks, same⟩
    · exact (forked.registered tid was).mono
    · exact ⟨step, List.mem_append_right _ (List.mem_singleton_self _), child, forks, same⟩
  heard earlier member tid puts := by
    rcases List.mem_append.mp member with old | new
    · exact (forked.heard earlier old tid puts).mono
    obtain ⟨rfl⟩ := List.mem_singleton.mp new
    rcases puts with calls | starts
    · have takes : step.pre.clocks.Takes joinsLive step.event (.thread tid) := Or.inl calls
      exact (forked.registered tid (takes_tracked handle takes)).mono
    · obtain ⟨before, event, post, output⟩ := step
      cases event with
      | fork parent child =>
        obtain ⟨_, _, same⟩ := Option.map_eq_some_iff.mp starts
        exact ⟨_, List.mem_append_right _ (List.mem_singleton_self _), child, rfl, same⟩
      | _ => cases starts

/-- A thread that was never forked has no past. -/
theorem AllForked.not_mem_past {joined : Clocks → Event → Option ℕ}
    (forked : AllForked layout past before) (fresh : ¬ Forked layout past tid) (position : ℕ) :
    position ∉ (flow layout joined).Past past (.thread tid) := by
  rintro ⟨last, step, found, puts, _⟩
  exact fresh (forked.heard step (List.mem_of_getElem? found) tid puts)

/-- No tid is registered again that was forked before. -/
def FreshFork (layout : Layout) (past : List Step) (before : Clocks) (event : Event) : Prop :=
  ∀ child, event.forks? = some child → before.idOf (child % layout.tidRange) = none →
    ¬ Forked layout past (child % layout.tidRange)

instance (past : List Step) (before : Clocks) (event : Event) :
    Decidable (FreshFork layout past before event) :=
  inferInstanceAs (Decidable (∀ child ∈ event.forks?, _ = none → ¬ _))

/-- Without such a fork, nothing comes to life with a past of its own. -/
theorem ClockStep.extends {joined : Clocks → Event → Option ℕ}
    (made : ClockStep layout before event after) (forked : AllForked layout past before)
    (fresh : FreshFork layout past before event) :
    Extends (flow layout joined) stamp past before.snapshot after.snapshot where
  live tid live := by
    rcases made.registers live with was | ⟨was, child, forks, rfl⟩
    · exact Or.inl was
    · refine Or.inr ?_
      rintro position id ⟨step, found, calls, _⟩
      have puts : (flow layout joined).puts step (.thread (child % layout.tidRange)) := Or.inl calls
      exact forked.not_mem_past (fresh child forks was) position
        (Flow.mem_past_of_puts found puts)
  tracked carrier tracked := by
    cases carrier with
    | mutex | identifier => exact Or.inl trivial
    | thread tid =>
      rcases made.registers tracked with was | ⟨was, child, forks, rfl⟩
      · exact Or.inl was
      · exact Or.inr (forked.not_mem_past (fresh child forks was))

end Drace
