/-
This file says when the pointers of a thread stay in its buffer.

The flush of a full buffer starts with the head at the end of the buffer. It
starts the buffer again, unless the check of the external state disables the
detector before: then the end of the buffer is saved. Every other event keeps
both pointers in the buffer.
-/

import Drace.Analysis

namespace Drace

open Session

variable {layout : Layout} {params : RuntimeConfig} {session next : Session layout}

/-- A check of the external state notices that recording is switched off. -/
def Session.SwitchesOff (params : RuntimeConfig) (session : Session layout) : Prop :=
  params.shmdriver ∧ session.tracker.enableExternal = true ∧ session.tracker.extEnabled = false

/-- The buffer has one free entry, and a flush would notice that recording is switched off. -/
def Session.SwitchesOffFull (params : RuntimeConfig) (session : Session layout) : Prop :=
  session.data.bufPtr = session.data.slot (Layout.maxNumMemRefs - 1) ∧
    session.data.detectorData ≠ 0 ∧ ExtCheckDue params session.data ∧ session.SwitchesOff params

instance : Decidable (session.SwitchesOff params) := inferInstanceAs (Decidable (_ ∧ _ ∧ _))

instance : Decidable (session.SwitchesOffFull params) := inferInstanceAs (Decidable (_ ∧ _ ∧ _ ∧ _))

namespace ShadowThreadState

variable {data : ShadowThreadState layout}

theorem Bounded.disableScope (bounded : data.Bounded) : data.disableScope.Bounded :=
  bounded.move rfl rfl (Or.inl rfl) bounded.head

theorem Bounded.enableScope (bounded : data.Bounded) : data.enableScope.Bounded := by
  rw [enableScope_eq]
  refine bounded.move rfl rfl ?_ bounded.stored
  show data.InBuffer (if _ then _ else _)
  split
  · exact bounded.stored
  · exact bounded.head

end ShadowThreadState

open ShadowThreadState

namespace Session

theorem bounded_switchSampling (bounded : session.data.Bounded) (draw : ℕ) :
    (session.switchSampling draw).data.Bounded := by
  obtain ⟨position, same⟩ := session.switchSampling_eq draw
  rw [same]
  cases session.sampled draw with
  | false => exact bounded.move rfl rfl (Or.inl rfl) bounded.head
  | true =>
    refine bounded.move rfl rfl ?_ bounded.stored
    show session.data.InBuffer (if _ then _ else _)
    split
    · exact bounded.stored
    · exact bounded.head

theorem bounded_lazyInit (bounded : session.data.Bounded) :
    (session.lazyInit params).data.Bounded := by
  unfold lazyInit
  split
  · exact bounded.move rfl rfl inBuffer_start bounded.stored
  · exact bounded

theorem data_noticeState : session.noticeState.data =
    if session.tracker.enableExternal ≠ session.tracker.extEnabled then
      if session.tracker.extEnabled then session.data.enableScope else session.data.disableScope
    else session.data := by
  unfold noticeState
  split
  · simp only
    split <;> rfl
  · rfl

theorem bounded_noticeState (bounded : session.data.Bounded) :
    session.noticeState.data.Bounded := by
  rw [data_noticeState]
  split
  · split
    · exact bounded.enableScope
    · exact bounded.disableScope
  · exact bounded

theorem data_noticeRate : session.noticeRate.data = session.data := by
  unfold noticeRate
  split <;> rfl

theorem bounded_handleExtState (bounded : session.data.Bounded) :
    (session.handleExtState params).data.Bounded := by
  rw [handleExtState_eq]
  split
  · rw [data_noticeRate]
    exact bounded_noticeState bounded
  · exact bounded

theorem bounded_checkExtState (bounded : session.data.Bounded) :
    (session.checkExtState params).data.Bounded := by
  unfold checkExtState
  split
  · exact bounded_handleExtState bounded
  · exact bounded

/-- Dumping the buffer brings the head back into it. -/
theorem bounded_dumpBuffer
    (ends : session.data.bufEnd = layout.sizeRange - (session.data.memBuf.data + layout.memBufSize))
    (stored : session.data.InBuffer session.data.bufPtrStored) :
    (session.dumpBuffer params).data.Bounded := by
  cases enabled : session.data.isEnabled with
  | true =>
    rw [dumpBuffer_of_enabled enabled]
    exact ⟨ends, inBuffer_start, stored⟩
  | false =>
    rw [dumpBuffer_of_disabled enabled]
    exact ⟨ends, Or.inl (isEnabled_eq_false.mp enabled), stored⟩

theorem bounded_analyzeAccess (bounded : session.data.Bounded) :
    (session.analyzeAccess params).data.Bounded := by
  have checked : ((session.lazyInit params).checkExtState params).data.Bounded :=
    bounded_checkExtState (bounded_lazyInit bounded)
  exact bounded_dumpBuffer checked.ends checked.stored

theorem bounded_processBuffer (bounded : session.data.Bounded) :
    (session.processBuffer params).data.Bounded :=
  (bounded_analyzeAccess bounded).move rfl rfl (bounded_analyzeAccess bounded).head
    (bounded_analyzeAccess bounded).stored

/-- A check that does not switch recording off leaves the saved head alone. -/
theorem bufPtrStored_checkExtState (off : ExtCheckDue params session.data →
    ¬ session.SwitchesOff params) :
    (session.checkExtState params).data.bufPtrStored = session.data.bufPtrStored := by
  unfold checkExtState
  split
  · next due =>
    rw [handleExtState_eq]
    split
    · next driver =>
      rw [data_noticeRate]
      unfold noticeState
      split
      · next differs =>
        simp only
        split
        · rw [endExclRegion, enableScope_eq]
        · next disabled =>
          exact absurd ⟨driver, by simpa [disabled] using differs, by simpa using disabled⟩
            (off due)
      · rfl
    · rfl
  · rfl

/-- Recording keeps the pointers in the buffer unless the flush of the full buffer notices that
recording is switched off. -/
theorem bounded_instrumentMemFast (bounded : session.data.Bounded) (ref : MemRef)
    (off : ¬ session.SwitchesOffFull params) :
    (session.instrumentMemFast params ref).data.Bounded := by
  rcases bounded.head with null | ⟨index, bound, head⟩
  · rw [instrumentMemFast_of_disabled null]
    exact bounded
  · rw [instrumentMemFast_of_slot bound bounded.ends head]
    split
    · next last =>
      -- the head is at the end of the buffer now
      have dumped : ((session.store index ref).analyzeAccess params).data.Bounded := by
        by_cases known : session.data.detectorData = 0
        · have started : ((session.store index ref).lazyInit params).data.Bounded := by
            rw [lazyInit, if_pos (show (session.store index ref).data.detectorData = 0 from known)]
            exact bounded.move rfl rfl inBuffer_start bounded.stored
          have checked :
              (((session.store index ref).lazyInit params).checkExtState params).data.Bounded :=
            bounded_checkExtState started
          exact bounded_dumpBuffer checked.ends checked.stored
        · have initialized : (session.store index ref).lazyInit params = session.store index ref :=
            lazyInit_of_ne known
          have frame : (session.store index ref).Analyzed
              ((session.store index ref).checkExtState params) :=
            analyzed_checkExtState
          rw [analyzeAccess, initialized]
          refine bounded_dumpBuffer ?_ ?_
          · rw [frame.bufEnd, frame.memBuf]
            exact bounded.ends
          · have kept : ((session.store index ref).checkExtState params).data.bufPtrStored =
                session.data.bufPtrStored :=
              bufPtrStored_checkExtState fun due switches => off
                ⟨by rw [head, Nat.eq_sub_of_add_eq last], known, due, switches⟩
            rw [kept]
            exact bounded.stored.congr frame.memBuf
      exact dumped.move rfl rfl dumped.head dumped.stored
    · exact bounded.move rfl rfl (Or.inr ⟨index + 1, by omega, rfl⟩) bounded.stored

end Session

theorem MemoryTracker.Steady.not_switchesOffFull (steady : session.tracker.Steady params) :
    ¬ session.SwitchesOffFull params := by
  rintro ⟨-, -, due, driver, enabled, disabled⟩
  have same := (steady due.1 driver).1
  rw [enabled, disabled] at same
  cases same

end Drace
