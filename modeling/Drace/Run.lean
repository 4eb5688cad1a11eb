/-
This file fixes what a run of the detector is and makes runs executable.

A run starts at an initialized detector and makes defined calls, and its history
is part of what is said about it. Replaying a list of events yields such a run,
so a statement about runs can be evaluated on a concrete list of events.
-/

import Drace.Clocks

namespace Drace

/-- A call of the detector with the states around it. -/
abbrev Step := Machine.Step Fasttrack Event Output

/-- The runs of the detector. -/
abbrev Reaches (layout : Layout) : List Step → Fasttrack → Prop :=
  (Fasttrack.machine layout).Reaches

namespace Clocks

/-- No clock is about to reach its maximum. -/
def Room (layout : Layout) (clocks : Clocks) : Prop :=
  ∀ tid id, clocks.idOf tid = some id → layout.makeClock id + 1 < layout.clockRange

end Clocks

/-- No thread's clock has reached its maximum before any of the calls. -/
def RoomAlong (layout : Layout) (past : List Step) : Prop :=
  ∀ step ∈ past, step.pre.clocks.Room layout

variable {layout : Layout}

theorem Fasttrack.room_iff {ft : Fasttrack} :
    ft.clocks.Room layout ↔
      ∀ entry ∈ ft.threads.entries, layout.makeClock entry.2.id + 1 < layout.clockRange := by
  constructor
  · intro room entry member
    refine room entry.1 entry.2.id ?_
    have found : ft.threads.lookup entry.1 = some entry.2 := AList.mem_lookup_iff.mpr member
    simp [clocks, found]
  · intro all tid id current
    obtain ⟨thread, found, rfl⟩ := Option.map_eq_some_iff.mp current
    exact all ⟨tid, thread⟩ (AList.mem_lookup_iff.mp found)

instance (ft : Fasttrack) : Decidable (ft.clocks.Room layout) :=
  decidable_of_iff _ Fasttrack.room_iff.symm

instance (past : List Step) : Decidable (RoomAlong layout past) :=
  inferInstanceAs (Decidable (∀ step ∈ past, step.pre.clocks.Room layout))

/-! ### Executable runs -/

/-- The steps of a list of events on a fresh detector and the state they lead to; empty if one
of the calls is undefined. -/
def ran (layout : Layout) (events : List Event) : List Step × Fasttrack :=
  ((Fasttrack.machine layout).replay {} events).getD ([], {})

theorem start_empty : (Fasttrack.machine layout).start {} := ⟨[], rfl⟩

/-- Executing events is a run, also when it fails and leaves nothing behind. -/
theorem reaches_ran (layout : Layout) (events : List Event) :
    Reaches layout (ran layout events).1 (ran layout events).2 :=
  Machine.reaches_ran start_empty events

end Drace
