/-
This file says all that an analysis of a thread can do.

An analysis writes the pointers, the counter, the handle and the count of flushes
of its thread, and nothing else of it: neither the entries of the buffer nor the
shadow stack nor the book of mutexes. It calls the detector to announce the thread
and to hand references over. While the external state is steady, it leaves the
counter and the saved head alone too, and it is known what it hands over.
-/

import Drace.Gate

namespace Drace

/-- The calls an analysis makes. -/
def Event.tracking : Event → Bool
  | .fork .. | .happensAfter .. | .read .. | .write .. => true
  | _ => false

theorem Access.tracking_event (access : Access) : access.event.tracking = true := by
  unfold Access.event
  split <;> rfl

namespace Session

variable {layout : Layout} {params : RuntimeConfig} {session next last : Session layout}

/-- What an analysis leaves as it is, and the calls it adds. -/
structure Analyzed (session next : Session layout) : Prop where
  memBuf : next.data.memBuf = session.data.memBuf
  bufEnd : next.data.bufEnd = session.data.bufEnd
  memory : next.data.memory = session.data.memory
  samplingPos : next.data.samplingPos = session.data.samplingPos
  tid : next.data.tid = session.data.tid
  appstack : next.data.appstackBeg = session.data.appstackBeg ∧
    next.data.appstackEnd = session.data.appstackEnd
  mutexBook : next.data.mutexBook = session.data.mutexBook
  stack : next.data.stack = session.data.stack
  freqPcs : next.data.freqPcs = session.data.freqPcs
  calls : ∃ new, next.calls = session.calls ++ new ∧ ∀ call ∈ new, call.tracking = true

namespace Analyzed

theorem refl (session : Session layout) : session.Analyzed session :=
  ⟨rfl, rfl, rfl, rfl, rfl, ⟨rfl, rfl⟩, rfl, rfl, rfl, [], (List.append_nil _).symm, by simp⟩

theorem trans (first : session.Analyzed next) (second : next.Analyzed last) :
    session.Analyzed last where
  memBuf := second.memBuf.trans first.memBuf
  bufEnd := second.bufEnd.trans first.bufEnd
  memory := second.memory.trans first.memory
  samplingPos := second.samplingPos.trans first.samplingPos
  tid := second.tid.trans first.tid
  appstack := ⟨second.appstack.1.trans first.appstack.1, second.appstack.2.trans first.appstack.2⟩
  mutexBook := second.mutexBook.trans first.mutexBook
  stack := second.stack.trans first.stack
  freqPcs := second.freqPcs.trans first.freqPcs
  calls := by
    obtain ⟨new, added, tracking⟩ := first.calls
    obtain ⟨more, addedMore, trackingMore⟩ := second.calls
    refine ⟨new ++ more, by rw [addedMore, added, List.append_assoc], ?_⟩
    exact List.forall_mem_append.mpr ⟨tracking, trackingMore⟩

end Analyzed

theorem analyzed_lazyInit : session.Analyzed (session.lazyInit params) := by
  unfold lazyInit
  split
  · refine ⟨rfl, rfl, rfl, rfl, rfl, ⟨rfl, rfl⟩, rfl, rfl, rfl, _, List.append_assoc .., ?_⟩
    simp [Event.tracking]
  · exact .refl session

theorem analyzed_endExclRegion : session.Analyzed session.endExclRegion := by
  rw [endExclRegion, ShadowThreadState.enableScope_eq]
  exact ⟨rfl, rfl, rfl, rfl, rfl, ⟨rfl, rfl⟩, rfl, rfl, rfl, [], (List.append_nil _).symm, by simp⟩

theorem analyzed_begExclRegion : session.Analyzed session.begExclRegion :=
  ⟨rfl, rfl, rfl, rfl, rfl, ⟨rfl, rfl⟩, rfl, rfl, rfl, [], (List.append_nil _).symm, by simp⟩

/-- Writing to what the threads share changes nothing of a thread. -/
theorem analyzed_tracker (tracker : MemoryTracker) :
    session.Analyzed { session with tracker := tracker } :=
  ⟨rfl, rfl, rfl, rfl, rfl, ⟨rfl, rfl⟩, rfl, rfl, rfl, [], (List.append_nil _).symm, by simp⟩

/-- The switch of the controller is followed. -/
def noticeState (session : Session layout) : Session layout :=
  if session.tracker.enableExternal ≠ session.tracker.extEnabled then
    let next := { session with tracker := { session.tracker with
      enableExternal := session.tracker.extEnabled } }
    if session.tracker.extEnabled then next.endExclRegion else next.begExclRegion
  else session

/-- The sampling rate of the controller is followed. -/
def noticeRate (session : Session layout) : Session layout :=
  if session.tracker.extSamplingRate ≠ session.tracker.samplingRate then
    { session with tracker := { session.tracker with
        samplingRate := session.tracker.extSamplingRate }.updateSampling }
  else session

theorem handleExtState_eq (params : RuntimeConfig) (session : Session layout) :
    session.handleExtState params =
      if params.shmdriver then session.noticeState.noticeRate else session := rfl

theorem analyzed_noticeState : session.Analyzed session.noticeState := by
  unfold noticeState
  split
  · simp only
    split
    · exact (analyzed_tracker _).trans analyzed_endExclRegion
    · exact (analyzed_tracker _).trans analyzed_begExclRegion
  · exact .refl session

theorem analyzed_noticeRate : session.Analyzed session.noticeRate := by
  unfold noticeRate
  split
  · exact analyzed_tracker _
  · exact .refl session

theorem analyzed_handleExtState : session.Analyzed (session.handleExtState params) := by
  rw [handleExtState_eq]
  split
  · exact analyzed_noticeState.trans analyzed_noticeRate
  · exact .refl session

theorem analyzed_checkExtState : session.Analyzed (session.checkExtState params) := by
  unfold checkExtState
  split
  · exact analyzed_handleExtState
  · exact .refl session

theorem analyzed_dumpBuffer : session.Analyzed (session.dumpBuffer params) := by
  unfold dumpBuffer
  split
  · refine ⟨rfl, rfl, rfl, rfl, rfl, ⟨rfl, rfl⟩, rfl, rfl, rfl, _, rfl, ?_⟩
    simp only [List.forall_mem_map]
    exact fun ref _ => Access.tracking_event _
  · exact .refl session

theorem analyzed_analyzeAccess : session.Analyzed (session.analyzeAccess params) :=
  (analyzed_lazyInit.trans analyzed_checkExtState).trans analyzed_dumpBuffer

theorem analyzed_processBuffer : session.Analyzed (session.processBuffer params) :=
  analyzed_analyzeAccess.trans
    ⟨rfl, rfl, rfl, rfl, rfl, ⟨rfl, rfl⟩, rfl, rfl, rfl, [], (List.append_nil _).symm, by simp⟩

/-! ### Analyses while the external state is steady -/

theorem bufPtrStored_analyzeAccess (steady : session.tracker.Steady params) :
    (session.analyzeAccess params).data.bufPtrStored = session.data.bufPtrStored := by
  rw [analyzeAccess_of_steady steady]
  unfold dumpBuffer lazyInit
  split <;> split <;> rfl

/-- The first analysis announces the thread, starts its buffer again and hands nothing over. -/
theorem analyzeAccess_of_uninitialized (steady : session.tracker.Steady params)
    (null : session.data.detectorData = 0) :
    (session.analyzeAccess params).data.bufPtr = session.data.memBuf.data ∧
      handed (session.analyzeAccess params).calls = handed session.calls := by
  have initialized : session.lazyInit params = session.delayedInitializeThread params := if_pos null
  have enabled : (session.delayedInitializeThread params).data.isEnabled = true :=
    ShadowThreadState.isEnabled_iff.mpr session.data.memBuf.data_pos.ne'
  rw [analyzeAccess_of_steady steady, initialized, dumpBuffer_of_enabled enabled]
  refine ⟨rfl, ?_⟩
  show handed ((session.calls ++ [_] ++ [_]) ++
    (((session.delayedInitializeThread params).data.entries
      session.data.memBuf.data).filter _).map _) = _
  have empty : (session.delayedInitializeThread params).data.entries session.data.memBuf.data =
      [] :=
    ShadowThreadState.entries_start
  rw [empty, handed_append, handed_append, handed_append]
  simp [handed, Event.access?]

/-- A later one hands the references of an enabled detector over and starts the buffer again. -/
theorem analyzeAccess_of_initialized (steady : session.tracker.Steady params)
    (initialized : session.data.detectorData ≠ 0) :
    session.Alike (session.analyzeAccess params) ∧
      (session.analyzeAccess params).account params = session.account params ∧
      (session.analyzeAccess params).data.bufPtr =
        if session.data.isEnabled then session.data.memBuf.data else 0 := by
  rw [analyzeAccess_of_steady steady, lazyInit_of_ne initialized]
  exact session.dumpBuffer_spec params

/-- The detector is enabled after an analysis if it was before, and after the first one. -/
theorem isEnabled_analyzeAccess (steady : session.tracker.Steady params) :
    (session.analyzeAccess params).data.isEnabled = true ↔
      session.data.isEnabled = true ∨ session.data.detectorData = 0 := by
  have start := session.data.memBuf.data_pos.ne'
  rw [ShadowThreadState.isEnabled_iff]
  by_cases null : session.data.detectorData = 0
  · rw [(analyzeAccess_of_uninitialized steady null).1]
    simp [start, null]
  · rw [(analyzeAccess_of_initialized steady null).2.2]
    simp [start, null]

/-- The decision of the sampling is the same after an analysis. -/
theorem sampled_analyzeAccess (steady : session.tracker.Steady params) (draw : ℕ) :
    (session.analyzeAccess params).sampled draw = session.sampled draw := by
  unfold sampled sampleRef
  simp only [tracker_analyzeAccess steady, analyzed_analyzeAccess.samplingPos]
  split
  · rfl
  · split <;> rfl

end Session

end Drace
