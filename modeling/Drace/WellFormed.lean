/-
This file proves that the vector clocks stay well formed in every run.

Each rule of the vector clock protocol keeps well-formedness: a published id is
published in the thread's own clock first, merging brings no entry that was not
known, and a thread leaves together with all its entries. The run lemma carries
this over any sequence of calls that keeps its clocks below their maximum.
-/

import Drace.ClockStep

namespace Drace

open Clocks

variable {layout : Layout} {before after : Clocks} {event : Event} {past : List Step}
  {ft : Fasttrack}

theorem wellFormed_empty : Clocks.WellFormed layout ⟨fun _ => none, fun _ => none⟩ :=
  ⟨fun _ _ found => (nomatch found), fun _ _ found => (nomatch found)⟩

theorem Clocks.WellFormed.clockOrNew (wellFormed : before.WellFormed layout) (carrier : Carrier) :
    before.Known layout (before.clockOrNew carrier) := by
  unfold Clocks.clockOrNew
  cases kept : before.clockAt carrier with
  | none => exact known_empty
  | some clock => exact wellFormed.known carrier clock kept

/-- After counting up, the thread's own clock is known. -/
theorem Clocks.WellFormed.known_tick (wellFormed : before.WellFormed layout) {tid id : ℕ}
    {clock : VectorClock} (room : before.Room layout) (holds : before.Holds tid clock id) :
    (before.tick tid clock id).WellFormed layout ∧
      (before.tick tid clock id).Known layout ⟨clock.vc.insert tid (id + 1)⟩ := by
  have ticked := wellFormed.tick holds.2 holds.1 (room tid id holds.2)
  exact ⟨ticked, ticked.known (.thread tid) _ clockAt_setThread_self⟩

/-- Counting up keeps every clock known. -/
theorem Clocks.Known.tick {added : VectorClock} (known : before.Known layout added) {tid id : ℕ}
    {clock : VectorClock} (holds : before.Holds tid clock id) :
    (before.tick tid clock id).Known layout added := by
  refine known.setThread fun current own found _ _ => ?_
  obtain ⟨rfl⟩ : current = id := Option.some.inj (found.symm.trans holds.2)
  exact ⟨Nat.le_succ _, AList.lookup_insert _⟩

/-- A step of the protocol keeps the clocks well formed. -/
theorem ClockStep.wellFormed (step : ClockStep layout before event after)
    (wellFormed : before.WellFormed layout) (room : before.Room layout) :
    after.WellFormed layout := by
  cases step with
  | keep | acquireRecursive | forkOrphanAgain | joinInvalid => exact wellFormed
  | @acquire tls mutex id recursive write clock outermost holds =>
    have known := wellFormed.clockOrNew (.mutex mutex)
    have created : (before.setClock (.mutex mutex) (before.clockOrNew (.mutex mutex))).WellFormed
        layout := wellFormed.setClock (by simp) known
    refine created.merge holds.2 ?_ ?_
    · rw [clockAt_setClock_of_ne (by simp), holds.1]
    · exact created.known (.mutex mutex) _ clockAt_setClock_self
  | releaseUnknown | happensAfterUnknown => exact wellFormed.setClock (by simp) known_empty
  | @release tls mutex id write clock lock kept holds =>
    obtain ⟨ticked, own⟩ := wellFormed.known_tick room holds
    exact ticked.setClock (by simp) (((wellFormed.known _ lock kept).tick holds).update own)
  | @happensBefore tls identifier id clock holds =>
    obtain ⟨ticked, _⟩ := wellFormed.known_tick room holds
    refine ticked.setClock (by simp) ?_
    exact ((wellFormed.clockOrNew (.identifier identifier)).tick holds).updateEntry
      idOf_setThread_self (ticked.encodes tls (id + 1) idOf_setThread_self).2
      clockAt_setThread_self (AList.lookup_insert _)
  | happensAfter kept holds => exact wellFormed.merge holds.2 holds.1 (wellFormed.known _ _ kept)
  | forkOrphan orphan absent =>
    exact wellFormed.spawn (Nat.mod_lt _ (by rw [layout.tidRange_eq]; exact layout.multplier_pos))
      absent (Or.inr rfl)
  | @fork parent child id clock holds absent =>
    obtain ⟨ticked, own⟩ := wellFormed.known_tick room holds
    refine ticked.spawn (Nat.mod_lt _ (by rw [layout.tidRange_eq]; exact layout.multplier_pos)) ?_
      (Or.inl own)
    have differs : child % layout.tidRange ≠ parent := by
      rintro same
      rw [same, holds.2] at absent
      cases absent
    rw [Clocks.tick, idOf_setThread_of_ne differs, absent]
  | forkAgain holds _ => exact (wellFormed.known_tick room holds).1
  | joinSelf _ | finish _ => exact wellFormed.removeSweep
  | @join parent child id parentId clock parentClock differs holds parentHolds =>
    -- the entry the child counted up last is dropped again by the sweep
    have merged := wellFormed.tick holds.2 holds.1 (room child id holds.2)
    have own := merged.known (.thread child) _ clockAt_setThread_self
    have parentKept : (before.tick child clock id).Holds parent parentClock parentId := by
      refine ⟨?_, ?_⟩
      · rw [Clocks.tick, clockAt_setThread_of_ne (by simpa using differs), parentHolds.1]
      · rw [Clocks.tick, idOf_setThread_of_ne differs, parentHolds.2]
    have synced := merged.merge parentKept.2 parentKept.1 own
    rw [← remove_setThread, ← setThread_comm differs]
    exact synced.removeSweep
  | finishUnknown _ => exact wellFormed.sweep
  | finalize => exact wellFormed_empty

/-- The clocks are well formed after every run. -/
theorem Reaches.wellFormed (reaches : Reaches layout past ft) (room : RoomAlong layout past) :
    ft.clocks.WellFormed layout := by
  refine Machine.Reaches.induct (fun _ ft => ft.clocks.WellFormed layout) ?_ ?_
    reaches (Machine.always_iff_forall_mem.mpr room)
  · rintro ft ⟨argv, rfl⟩
    have empty : (({} : Fasttrack).init argv).clocks = ⟨fun _ => none, fun _ => none⟩ := by
      refine Clocks.ext ?_ rfl
      funext carrier
      cases carrier <;> rfl
    exact empty ▸ wellFormed_empty
  · intro past state event next output _ defined room wellFormed
    exact (Fasttrack.call_clockStep wellFormed room defined).wellFormed wellFormed room

/-- In every reachable state, an entry of a stored vector clock names a registered thread, is an
id of that thread and not newer than its current one, and in the thread's own clock it is the
current one. No entry of a thread that has left survives. -/
theorem vectorClock_wellFormed (reaches : Reaches layout past ft) (room : RoomAlong layout past)
    (carrier : Carrier) (clock : VectorClock) (stored : ft.clocks.clockAt carrier = some clock)
    (key id : ℕ) (entry : clock.vc.lookup key = some id) :
    ∃ thread, ft.threads.lookup key = some thread ∧ layout.makeTid id = key ∧ id ≤ thread.id ∧
      (carrier = .thread key → id = thread.id) := by
  obtain ⟨current, own, currentId, decodes, below, kept, published⟩ :=
    (reaches.wellFormed room).known carrier clock stored key id entry
  obtain ⟨thread, found, rfl⟩ := Option.map_eq_some_iff.mp currentId
  refine ⟨thread, found, decodes, below, ?_⟩
  rintro rfl
  obtain ⟨rfl⟩ : own = clock := Option.some.inj (kept.symm.trans stored)
  exact Option.some.inj (entry.symm.trans published)

theorem vectorClock_wellFormed_acquire :
    let ft := (ran .x64 [.fork 9 1, .fork 1 2, .acquire 1 7 1 true, .release 1 7 true,
      .acquire 2 7 1 true]).2
    ∃ clock thread, ft.clocks.clockAt (.thread 2) = some clock ∧
      clock.vc.lookup 1 = some 0x100000002 ∧ ft.threads.lookup 1 = some thread ∧
      Layout.x64.makeTid 0x100000002 = 1 ∧ 0x100000002 ≤ thread.id := by
  intro ft
  have entry : (ft.clocks.clockAt (.thread 2)).bind (fun clock => clock.vc.lookup 1) =
      some 0x100000002 := by decide +kernel
  obtain ⟨clock, stored, known⟩ := Option.bind_eq_some_iff.mp entry
  obtain ⟨thread, found, decodes, below, _⟩ :=
    vectorClock_wellFormed (reaches_ran .x64 _) (by decide +kernel) _ clock stored 1 _ known
  exact ⟨clock, thread, stored, known, found, decodes, below⟩

end Drace
