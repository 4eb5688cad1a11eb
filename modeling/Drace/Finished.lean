/-
This file follows recorded epochs back to the accesses that left them, across the
end of threads.

A thread that is joined or finished is taken off every clock, but the epochs of its
accesses stay with the addresses. As long as its tid is not registered, nothing is
reported about them. They come back to life when the tid is forked again: the new
thread starts at clock 0 and shares its epochs with the old one. Without such forks,
every epoch a report or a same-epoch shortcut refers to was left by a thread that
has not ended since.
-/

import Drace.History

namespace Drace

open Causality Clocks Machine

/-- The epoch an access left at one position of the history is recorded ever since. -/
structure Stands (past : List Step) (ft : Fasttrack) (position : ℕ) (write : Bool)
    (addr tid id : ℕ) : Prop where
  made : ∃ step, past[position]? = some step ∧ Makes step write addr tid id
  kept : ∀ later step, position < later → past[later]? = some step → Records step.pre write addr id
  now : Records ft write addr id

/-- A registered thread is finished, or joined by a registered parent. -/
def Ends (step : Step) (tid : ℕ) : Prop :=
  tid ∈ step.pre.threads ∧
    (step.event.finishes? = some tid ∨ step.pre.clocks.joins step.event = some tid)

instance (step : Step) (tid : ℕ) : Decidable (Ends step tid) := inferInstanceAs (Decidable (_ ∧ _))

/-- Some call after this position has ended the thread. -/
def EndedSince (past : List Step) (position tid : ℕ) : Prop :=
  ∃ later step, position < later ∧ past[later]? = some step ∧ Ends step tid

/-- A call only registers tids that no address holds an epoch of. -/
def ForgottenFork (layout : Layout) (step : Step) : Prop :=
  ∀ child, step.event.forks? = some child → child % layout.tidRange ∉ step.pre.threads →
    ∀ write addr id, Records step.pre write addr id → layout.makeTid id ≠ child % layout.tidRange

instance (layout : Layout) (step : Step) : Decidable (ForgottenFork layout step) :=
  decidable_of_iff (∀ child ∈ step.event.forks?, child % layout.tidRange ∉ step.pre.threads →
      ∀ entry ∈ step.pre.vars.entries, ∀ write : Bool, ∀ id ∈ entry.2.recorded write,
        layout.makeTid id ≠ child % layout.tidRange)
    ⟨fun all child forks absent write addr id ⟨var, found, member⟩ =>
      all child forks absent ⟨addr, var⟩ (AList.mem_lookup_iff.mp found) write id member,
    fun forgotten child forks absent entry member write id recorded =>
      forgotten child forks absent write entry.1 id
        ⟨entry.2, AList.mem_lookup_iff.mpr member, recorded⟩⟩

/-- What the accesses of ended threads may not do: be the first access of a report, or stand for an
access of the same epoch. -/
structure Gone (layout : Layout) (front : List Step) (step : Step) : Prop where
  reports : ∀ race ∈ step.output.races, ∀ id, Accuses layout step race id →
    (∃ position, Stands front step.pre position race.first.write race.first.accessedMemory
      race.first.threadId id) ∧
    ∀ position, Stands front step.pre position race.first.write race.first.accessedMemory
      race.first.threadId id → ¬ EndedSince front position race.first.threadId
  sameEpoch : ∀ access thread var, step.event.access? = some access →
    step.pre.threads.lookup access.tls = some thread → step.pre.vars.lookup access.addr = some var →
    var.SameEpoch layout access.write thread →
    ∀ position, Stands front step.pre position access.write access.addr access.tls thread.id →
      ¬ EndedSince front position access.tls

variable {layout : Layout} {past front : List Step} {ft next : Fasttrack} {step : Step}
  {write : Bool} {position addr tid id : ℕ} {before after : Clocks} {event : Event}

/-- A thread that is finished or joined is not registered any more. -/
theorem ClockStep.ends (made : ClockStep layout before event after) (live : before.idOf tid ≠ none)
    (ends : event.finishes? = some tid ∨ before.joins event = some tid) :
      after.idOf tid = none := by
  rcases ends with finishes | joins
  · cases event with
    | finish tls threadId =>
      obtain ⟨rfl⟩ := Option.some.inj finishes
      cases made with
      | keep keeps => cases keeps
      | finishUnknown absent => exact absurd absent live
      | finish => exact idOf_remove_self
    | _ => cases finishes
  · cases event with
    | join parent child =>
      obtain ⟨id, current, rfl⟩ := Option.map_eq_some_iff.mp joins
      cases made with
      | keep keeps => cases keeps
      | joinInvalid invalid =>
        have parentLive : before.idOf parent ≠ none := by simp [current]
        exact absurd invalid (not_or.mpr ⟨parentLive, live⟩)
      | joinSelf => exact idOf_remove_self
      | join => exact idOf_remove_self
    | _ => cases joins

/-! ### Following an epoch along a run -/

/-- An epoch that stands after a call stood before it, or the call is the access. -/
theorem Stands.earlier (stands : Stands (past ++ [step]) next position write addr tid id) :
    position = past.length ∨ Stands past step.pre position write addr tid id := by
  obtain ⟨⟨origin, found, makes⟩, kept, _⟩ := stands
  rcases getElem?_concat_or found with old | ⟨same, _⟩
  · have less := (List.getElem?_eq_some_iff.mp old).1
    refine Or.inr ⟨⟨origin, old, makes⟩, ?_, kept past.length step less List.getElem?_concat_length⟩
    intro later step after atLater
    refine kept later step after ?_
    rwa [List.getElem?_append_left (List.getElem?_eq_some_iff.mp atLater).1]
  · exact Or.inl same

theorem Stands.append (stands : Stands past step.pre position write addr tid id)
    (now : Records next write addr id) :
      Stands (past ++ [step]) next position write addr tid id := by
  obtain ⟨⟨origin, found, makes⟩, kept, was⟩ := stands
  have less := (List.getElem?_eq_some_iff.mp found).1
  refine ⟨⟨origin, by rwa [List.getElem?_append_left less], makes⟩, ?_, now⟩
  intro later step after atLater
  rcases getElem?_concat_or atLater with old | ⟨_, rfl⟩
  · exact kept later step after old
  · exact was

/-- Every recorded epoch was left by some access and stands since. -/
theorem Reaches.stands (reaches : Reaches layout past ft) (records : Records ft write addr id) :
    ∃ position tid, Stands past ft position write addr tid id := by
  induction reaches with
  | start begins =>
    obtain ⟨argv, rfl⟩ := begins
    obtain ⟨var, found, _⟩ := records
    simp [Fasttrack.init] at found
  | @call past before next event output earlier defined inductionHypothesis =>
    have now := records
    obtain ⟨var, found, member⟩ := records
    rcases recorded_call defined found member with old | ⟨tid, makes⟩
    · obtain ⟨position, tid, stands⟩ := inductionHypothesis old
      exact ⟨position, tid, Stands.append stands now⟩
    · refine ⟨past.length, tid, ⟨_, List.getElem?_concat_length, makes⟩, ?_, now⟩
      intro later step after atLater
      rcases getElem?_concat_or atLater with old | ⟨rfl, _⟩
      · exact absurd (List.getElem?_eq_some_iff.mp old).1 after.not_gt
      · exact absurd after (lt_irrefl _)

theorem endedSince_append (ended : EndedSince (past ++ [step]) position tid) :
    EndedSince past position tid ∨ position < past.length ∧ Ends step tid := by
  obtain ⟨later, ending, after, found, ends⟩ := ended
  rcases getElem?_concat_or found with old | ⟨rfl, rfl⟩
  · exact Or.inl ⟨later, ending, after, old, ends⟩
  · exact Or.inr ⟨after, ends⟩

/-- The id of a standing epoch decodes to the thread of its access. -/
theorem Stands.makeTid (stands : Stands past ft position write addr tid id)
    (reaches : Reaches layout past ft) (room : RoomAlong layout past) :
      layout.makeTid id = tid := by
  obtain ⟨step, found, makes⟩ := stands.made
  exact (makes.makeTid (Reaches.wellFormed_pre reaches room (List.mem_of_getElem? found))).2

/-- If no tid is registered while an address holds an epoch of it, the epochs of a registered thread
were left since it was registered. -/
theorem Reaches.not_endedSince (reaches : Reaches layout past ft) (room : RoomAlong layout past)
    (forgotten : ∀ step ∈ past, ForgottenFork layout step)
    (stands : Stands past ft position write addr tid id) (live : tid ∈ ft.threads) :
    ¬ EndedSince past position tid := by
  induction reaches with
  | start begins =>
    rintro ⟨later, step, _, found, _⟩
    cases found
  | @call past before next event output earlier defined inductionHypothesis =>
    have roomBefore : RoomAlong layout past := room.before (List.prefix_append _ _)
    intro ended
    have last : (⟨before, event, next, output⟩ : Step) ∈ past ++ [⟨before, event, next, output⟩] :=
      List.mem_append_right _ (List.mem_singleton_self _)
    have made := Fasttrack.call_clockStep (Reaches.wellFormed earlier roomBefore)
      (room _ last) defined
    have liveAfter := Fasttrack.idOf_ne_none.mpr live
    rcases endedSince_append ended with ended | ⟨_, registered, ends⟩
    · rcases stands.earlier with rfl | stood
      · obtain ⟨later, step, after, found, _⟩ := ended
        exact absurd (List.getElem?_eq_some_iff.mp found).1 after.not_gt
      · rcases made.registers liveAfter with was | ⟨was, child, forks, same⟩
        · exact inductionHypothesis roomBefore
            (fun step member => forgotten step (List.mem_append_left _ member)) stood
            (Fasttrack.idOf_ne_none.mp was) ended
        · refine forgotten _ last child forks ?_ write addr id stood.now
            ((stood.makeTid earlier roomBefore).trans same.symm)
          rw [same]
          exact fun registered => Fasttrack.idOf_ne_none.mpr registered was
    · exact liveAfter (made.ends (Fasttrack.idOf_ne_none.mpr registered) ends)

/-- In a run that forks a tid only after all its epochs have been replaced or freed, the accesses of
ended threads are gone. -/
theorem finished_gone (reaches : Reaches layout past ft) (room : RoomAlong layout past)
    (forgotten : ∀ step ∈ past, ForgottenFork layout step) : Always (Gone layout) past := by
  intro front step initial
  obtain ⟨before, defined⟩ := reaches.step initial
  have earlier : front <+: past := (List.prefix_append _ _).trans initial
  have roomBefore := room.before earlier
  have quiet : ∀ {position write addr tid id}, Stands front step.pre position write addr tid id →
      tid ∈ step.pre.threads → ¬ EndedSince front position tid :=
    fun stands live => Reaches.not_endedSince before roomBefore
      (fun step member => forgotten step (earlier.subset member)) stands live
  constructor
  · intro race reported id accuses
    obtain ⟨position, tid, stands⟩ := Reaches.stands before accuses.2
    obtain rfl : tid = race.first.threadId :=
      (stands.makeTid before roomBefore).symm.trans accuses.1
    obtain ⟨_, _, _, _, _, _, _, _, _, _, _, live, _⟩ :=
      race_of_call (Reaches.wellFormed before roomBefore) defined reported
    exact ⟨⟨position, stands⟩, fun position stands => quiet stands live⟩
  · intro access thread var accesses registered stored same position stands
    exact quiet stands (Fasttrack.mem_threads_of_lookup registered)

theorem finished_gone_reused_tid :
    Always (Gone .x64) (ran .x64 [.fork 9 1, .fork 9 2, .write 1 0 0x100 3, .finish 1 1,
      .write 2 0 0x100 3, .fork 9 1, .write 1 0 0x100 3]).1 :=
  finished_gone (reaches_ran .x64 _) (by decide +kernel) (by decide +kernel)

/-- Thread 1 writes an address and finishes, its tid is forked again, and thread 2 writes the
address. -/
def recycledTid : List Event :=
  [.fork 9 1, .fork 9 2, .write 1 0 0x100 3, .finish 1 1, .fork 9 1, .write 2 0 0x100 3]

/-- When a tid is forked again, the old accesses come back: thread 2 gets a report against the write
of the thread 1 that has finished. -/
theorem finished_access_reported :
    Reaches .x64 (ran .x64 recycledTid).1 (ran .x64 recycledTid).2 ∧
      RoomAlong .x64 (ran .x64 recycledTid).1 ∧ ¬ Always (Gone .x64) (ran .x64 recycledTid).1 := by
  refine ⟨reaches_ran .x64 _, by decide +kernel, fun always => ?_⟩
  obtain ⟨race, reported, accuses, first, write, addr⟩ : ∃ race ∈
      ((ran .x64 recycledTid).1.get ⟨5, by decide +kernel⟩).output.races,
      Accuses .x64 ((ran .x64 recycledTid).1.get ⟨5, by decide +kernel⟩) race
        (Layout.x64.makeId 1) ∧
        race.first.threadId = 1 ∧ race.first.write = true ∧ race.first.accessedMemory = 0x100 := by
    decide +kernel
  have gone := ((always_iff_forall_index.mp always ⟨5, by decide +kernel⟩).reports race reported _
    accuses).2 2
  rw [first, write, addr] at gone
  -- the epoch of the write at position 2 is recorded until the last call, and the thread ends at 3
  have kept : ∀ later : Fin ((ran .x64 recycledTid).1.take 5).length, 2 < later.val →
      Records (((ran .x64 recycledTid).1.take 5).get later).pre true 0x100
        (Layout.x64.makeId 1) := by
    decide +kernel
  refine gone ⟨⟨_, List.getElem?_eq_getElem (by decide +kernel), by decide +kernel⟩, ?_,
    by decide +kernel⟩
    ⟨3, _, by decide, List.getElem?_eq_getElem (by decide +kernel), by decide +kernel⟩
  intro later step after found
  obtain ⟨bound, rfl⟩ := List.getElem?_eq_some_iff.mp found
  exact kept ⟨later, bound⟩ after

end Drace
