/-
This file proves that the vector clocks characterise happens-before.

In a run that follows the rules of the interface, an event of one thread is below
the clock another thread has for it exactly if the other thread has heard of it:
the event happens before something the other thread has done, or before its fork.
The fork counts, since a new thread copies the clock of its parent before it has
done anything itself. Threads may end, which deletes their entries and leaves what
is known of the others alone.

The one half is that the clocks cover happens-before, the other that every threshold
is justified, which needs no lock discipline.
-/

import Drace.Precision

namespace Drace

open Causality Clocks Machine

/-- An event happens before an event the thread has executed. -/
def BeforeExecuted (layout : Layout) (joined : Clocks → Event → Option ℕ) (past : List Step)
    (position tid : ℕ) : Prop :=
  ∃ last step, past[last]? = some step ∧ step.pre.clocks.caller step.event = some tid ∧
    (flow layout joined).HappensBefore past position last

/-- An event has reached a thread: it happens before an event the thread has executed, or it is the
fork that has registered the thread or happens before that fork. -/
def HeardBy (layout : Layout) (joined : Clocks → Event → Option ℕ) (past : List Step)
    (position tid : ℕ) : Prop :=
  BeforeExecuted layout joined past position tid ∨
  ∃ last step, past[last]? = some step ∧ step.pre.clocks.starts layout step.event = some tid ∧
    (position = last ∨ (flow layout joined).HappensBefore past position last)

/-- For two registered threads, the clock of the one for the other is beyond the clock value of an
event of the other exactly if the one has heard of it. -/
def Characterises (layout : Layout) (past : List Step) (ft : Fasttrack)
    (heard : ℕ → ℕ → Prop) : Prop :=
  ∀ tid other thread position step id, tid ≠ other → ft.threads.lookup tid = some thread →
    other ∈ ft.threads → past[position]? = some step → stamp step other id →
    (layout.makeClock id < thread.getClockByTid layout other ↔ heard position tid)

variable {layout : Layout} {past front : List Step} {ft : Fasttrack} {step : Step}
  {joined : Clocks → Event → Option ℕ} {position tid other id : ℕ}

/-- An event of another thread has reached a thread if it is in the past of its carrier. -/
theorem heardBy_iff (found : past[position]? = some step) (stamped : stamp step other id)
    (differs : tid ≠ other) :
    HeardBy layout joined past position tid ↔
      position ∈ (flow layout joined).Past past (.thread tid) := by
  constructor
  · rintro (⟨last, entry, atLast, calls, ordered⟩ | ⟨last, entry, atLast, starts, path⟩)
    · exact ⟨last, entry, atLast, Or.inl calls, Or.inr ordered⟩
    · exact ⟨last, entry, atLast, Or.inr starts, path⟩
  · rintro ⟨last, entry, atLast, calls | starts, path⟩
    · refine Or.inl ⟨last, entry, atLast, calls, path.resolve_left ?_⟩
      rintro rfl
      obtain ⟨rfl⟩ := Option.some.inj (found.symm.trans atLast)
      exact differs (Option.some.inj (calls.symm.trans stamped.1))
    · exact Or.inr ⟨last, entry, atLast, starts, path⟩

/-- In a run without tid reuse, every threshold is justified. -/
theorem Reaches.justified (reaches : Reaches layout past ft)
    (premises : Always (Premises layout) past) :
    ft.clocks.WellFormed layout ∧ AllForked layout past ft.clocks ∧
      Justified (flow layout joinsLive) stamp past ft.clocks.snapshot := by
  refine Machine.Reaches.induct (fun past ft => ft.clocks.WellFormed layout ∧
    AllForked layout past ft.clocks ∧
      Justified (flow layout joinsLive) stamp past ft.clocks.snapshot) ?_ ?_ reaches premises
  · intro ft begins
    have covered := covered_start begins
    exact ⟨covered.wellFormed, covered.forked, justified_nil⟩
  · rintro past state event next output _ defined rules ⟨wellFormed, forked, justified⟩
    have rules : Premises layout past ⟨state, event, next, output⟩ := rules
    have made : ClockStep layout (Step.pre ⟨state, event, next, output⟩).clocks event next.clocks :=
      Fasttrack.call_clockStep wellFormed rules.room defined
    have own : ∀ step tid id, stamp step tid id →
        (flow layout joinsLive).puts step (.thread tid) := fun _ _ _ stamped => Or.inl stamped.1
    exact ⟨made.wellFormed wellFormed rules.room, allForked_append forked made rules.registered,
      justified.append own (made.extends forked rules.freshFork)
        (made.limits wellFormed rules.registered)⟩

/-- The vector clocks characterise happens-before: in every run that follows the rules, announces
nothing and sweeps out no registered thread, the clock a registered thread has for another one is
beyond the clock value of an event of that one exactly if the event has reached the thread. -/
theorem clocks_characterise (reaches : Reaches layout past ft)
    (premises : Always (Premises layout) past)
    (spares : ∀ step ∈ past, step.event.Spares layout step.pre.clocks)
    (silent : ∀ step ∈ past, step.event.announces? = none) :
    Characterises layout past ft (HeardBy layout joinsLive past) := by
  intro tid other thread position step id differs registered live found stamped
  have covered := Reaches.covered_of_premises reaches premises
    (always_iff_forall_mem.mpr fun step member => publishes_of_silent (silent step member))
    (always_iff_forall_mem.mpr spares)
  obtain ⟨_, _, justified⟩ := Reaches.justified reaches premises
  have room : RoomAlong layout past :=
    always_iff_forall_mem.mp (premises.imp fun _ _ rules => rules.room)
  have holds := Fasttrack.holds_of_lookup registered
  obtain ⟨bound, rfl⟩ := (Reaches.wellFormed_pre reaches room
    (List.mem_of_getElem? found)).encodes other id stamped.2
  calc layout.makeClock id < thread.getClockByTid layout (layout.makeTid id)
      ↔ id < thread.getIdByTid (layout.makeTid id) := by
        rw [← not_le, covered.wellFormed.clock_le_iff bound holds.1, not_le]
    _ ↔ id < ft.clocks.view (.thread tid) (layout.makeTid id) := by
        rw [view_of_holds holds, if_neg differs.symm]
    _ ↔ position ∈ (flow layout joinsLive).Past past (.thread tid) :=
        covered.covers.lt_view_iff justified holds.live (Fasttrack.idOf_ne_none.mpr live)
          ⟨step, found, stamped⟩
    _ ↔ HeardBy layout joinsLive past position tid := (heardBy_iff found stamped differs).symm

/-- Thread 2 learns of the write of thread 1, forks thread 3 and is joined by it. -/
def passedOn : List Event :=
  [.fork 9 1, .fork 9 2, .write 1 0 0x100 3, .acquire 1 7 1 true, .release 1 7 true,
    .acquire 2 7 1 true, .fork 2 3, .join 3 2, .finish 3 4]

theorem clocks_characterise_passed_on :
    Characterises .x64 (ran .x64 passedOn).1 (ran .x64 passedOn).2
      (HeardBy .x64 joinsLive (ran .x64 passedOn).1) :=
  clocks_characterise (reaches_ran .x64 _) (by decide +kernel) (by decide +kernel)
    (by decide +kernel)

/-! ### What the characterisation leaves out -/

/-- A thread is forked and has not done anything yet. -/
def freshChild : List Event := [.fork 9 1, .fork 1 2]

/-- Thread 2 learns of thread 1, and a tid that is converted to 1 is finished. -/
def sweptThread : List Event :=
  [.fork 9 1, .fork 9 2, .acquire 1 7 1 true, .release 1 7 true, .acquire 2 7 1 true,
    .finish 2 0x100000001]

/-- If only the events a thread has executed count, the fork of a new thread is known too early. -/
theorem fresh_child_knows :
    ¬ Characterises .x64 (ran .x64 freshChild).1 (ran .x64 freshChild).2
      (BeforeExecuted .x64 joins (ran .x64 freshChild).1) := by
  intro characterises
  obtain ⟨child, found, knows⟩ : ∃ child ∈ (ran .x64 freshChild).2.threads.lookup 2,
      Layout.x64.makeClock (Layout.x64.makeId 1) < child.getClockByTid .x64 1 := by decide +kernel
  have stamped : stamp ((ran .x64 freshChild).1.get ⟨1, by decide +kernel⟩) 1
      (Layout.x64.makeId 1) := ⟨by decide +kernel, by decide +kernel⟩
  obtain ⟨last, step, atLast, calls, _⟩ := (characterises 2 1 child 1 _ _ (by decide) found
    (by decide +kernel) (List.getElem?_eq_getElem _) stamped).mp knows
  have idle : ∀ step ∈ (ran .x64 freshChild).1, step.pre.clocks.caller step.event ≠ some 2 := by
    decide +kernel
  exact idle step (List.mem_of_getElem? atLast) calls

/-- If every join with a registered parent counts, the second join of a thread passes on what the
clocks do not know. -/
theorem double_join_unknown :
    ¬ Characterises .x64 (ran .x64 doubleJoin).1 (ran .x64 doubleJoin).2
      (BeforeExecuted .x64 joins (ran .x64 doubleJoin).1) := by
  intro characterises
  obtain ⟨parent, found, unknown⟩ : ∃ parent ∈ (ran .x64 doubleJoin).2.threads.lookup 3,
      parent.getClockByTid .x64 1 = 0 := by decide +kernel
  have stamped : stamp ((ran .x64 doubleJoin).1.get ⟨4, by decide +kernel⟩) 1
      (Layout.x64.makeId 1) := ⟨by decide +kernel, by decide +kernel⟩
  -- the write reaches the release, the acquire of thread 2 and its second join
  have ordered : (flow .x64 joins).HappensBefore (ran .x64 doubleJoin).1 4 9 := by
    refine .tail (.tail (.single ?_) (b := 6) ?_) (b := 7) ?_
    · exact Flow.edge_of_carrier _ (.thread 1) (by decide) (by decide +kernel)
    · exact Flow.edge_of_carrier _ (.mutex 7) (by decide) (by decide +kernel)
    · exact Flow.edge_of_carrier _ (.thread 2) (by decide) (by decide +kernel)
  have knows := (characterises 3 1 parent 4 _ _ (by decide) found (by decide +kernel)
    (List.getElem?_eq_getElem _) stamped).mpr
    ⟨9, _, List.getElem?_eq_getElem (by decide +kernel), by decide +kernel, ordered⟩
  rw [unknown] at knows
  exact absurd knows (Nat.not_lt_zero _)

/-- The entries of a registered thread are swept out when a tid that is converted to its own is
finished. -/
theorem swept_thread_unknown :
    ¬ Characterises .x64 (ran .x64 sweptThread).1 (ran .x64 sweptThread).2
      (BeforeExecuted .x64 joins (ran .x64 sweptThread).1) := by
  intro characterises
  obtain ⟨thread, found, unknown⟩ : ∃ thread ∈ (ran .x64 sweptThread).2.threads.lookup 2,
      thread.getClockByTid .x64 1 = 0 := by decide +kernel
  have stamped : stamp ((ran .x64 sweptThread).1.get ⟨2, by decide +kernel⟩) 1
      (Layout.x64.makeId 1) := ⟨by decide +kernel, by decide +kernel⟩
  have ordered : (flow .x64 joins).HappensBefore (ran .x64 sweptThread).1 2 4 := by
    refine .tail (.single ?_) (b := 3) ?_
    · exact Flow.edge_of_carrier _ (.thread 1) (by decide) (by decide +kernel)
    · exact Flow.edge_of_carrier _ (.mutex 7) (by decide) (by decide +kernel)
  have knows := (characterises 2 1 thread 2 _ _ (by decide) found (by decide +kernel)
    (List.getElem?_eq_getElem _) stamped).mpr
    ⟨4, _, List.getElem?_eq_getElem (by decide +kernel), by decide +kernel, ordered⟩
  rw [unknown] at knows
  exact absurd knows (Nat.not_lt_zero _)

/-- A run that follows the rules and announces nothing, after which the executed events do not
characterise the clocks if every join with a registered parent counts. -/
def Uncharacterised (events : List Event) : Prop :=
  Reaches .x64 (ran .x64 events).1 (ran .x64 events).2 ∧
    Always (Premises .x64) (ran .x64 events).1 ∧
    (∀ step ∈ (ran .x64 events).1, step.event.announces? = none) ∧
    ¬ Characterises .x64 (ran .x64 events).1 (ran .x64 events).2
      (BeforeExecuted .x64 joins (ran .x64 events).1)

theorem characterisation_refuted :
    Uncharacterised freshChild ∧ Uncharacterised doubleJoin ∧ Uncharacterised sweptThread :=
  ⟨⟨reaches_ran .x64 _, by decide +kernel, by decide +kernel, fresh_child_knows⟩,
    ⟨reaches_ran .x64 _, by decide +kernel, by decide +kernel, double_join_unknown⟩,
    ⟨reaches_ran .x64 _, by decide +kernel, by decide +kernel, swept_thread_unknown⟩⟩

end Drace
