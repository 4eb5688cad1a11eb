/-
This file says what the recording of memory references amounts to.

A reference is recorded at an event if the detector is enabled then. The recorded
references that were not handed over are pending: they lie in the buffer up to
the head, or up to the saved head while the detector is disabled. A history says
which references were recorded and how many scopes are open; the calls made to
the detector say which references were handed over.
-/

import Drace.Client

namespace Drace

open Session

variable {layout : Layout} {params : RuntimeConfig} {session : Session layout}
  {data : ShadowThreadState layout} {past front : List (ThreadStep layout)}
  {step : ThreadStep layout}
  {tracker : MemoryTracker} {index pointer : ℕ}

/-! ### Recorded, handed over, pending -/

/-- The accesses among detector calls. -/
def handed (calls : List Event) : List Access := calls.filterMap Event.access?

/-- The accesses of the references that the filter of a thread admits. -/
def admitted (params : RuntimeConfig) (data : ShadowThreadState layout) (refs : List MemRef) :
    List Access :=
  (refs.filter fun ref => !data.filteredMemref params ref).map fun ref =>
    ref.access data.detectorData

/-- The references of the buffer that are not handed over yet. -/
def ShadowThreadState.pending (data : ShadowThreadState layout) : List MemRef :=
  data.entries (if data.isEnabled then data.bufPtr else data.bufPtrStored)

/-- The reference a step records. -/
def recordedAt (step : ThreadStep layout) : Option MemRef :=
  match step.event with
  | .record addr pc size write =>
    if step.pre.data.isEnabled then some (.ofAccess addr pc size write) else none
  | _ => none

/-- The references recorded in a history. -/
def recorded (past : List (ThreadStep layout)) : List MemRef := past.filterMap recordedAt

/-- The number of open scopes after an event. -/
def ThreadEvent.scopesAfter (scopes : ℕ) : ThreadEvent → ℕ
  | .disableScope => scopes + 1
  | .enableScope => scopes - 1
  | _ => scopes

/-- The number of scopes that are open after a history. -/
def openScopes (past : List (ThreadStep layout)) : ℕ :=
  past.foldl (fun scopes step => step.event.scopesAfter scopes) 0

/-- A scope is closed only while one is open. -/
def Nested (front : List (ThreadStep layout)) (step : ThreadStep layout) : Prop :=
  step.event = .enableScope → 0 < openScopes front

/-- Scopes are opened and closed in turn. -/
def InTurn (front : List (ThreadStep layout)) (step : ThreadStep layout) : Prop :=
  (step.event = .disableScope → openScopes front = 0) ∧
  (step.event = .enableScope → 0 < openScopes front)

/-- The external state is as it was noticed, so a check changes nothing. -/
def MemoryTracker.Steady (params : RuntimeConfig) (tracker : MemoryTracker) : Prop :=
  params.extctrl → params.shmdriver →
    tracker.enableExternal = tracker.extEnabled ∧ tracker.extSamplingRate = tracker.samplingRate

instance (front : List (ThreadStep layout)) (step : ThreadStep layout) :
    Decidable (Nested front step) :=
  inferInstanceAs (Decidable (_ → _))

instance (front : List (ThreadStep layout)) (step : ThreadStep layout) :
    Decidable (InTurn front step) :=
  inferInstanceAs (Decidable ((_ → _) ∧ (_ → _)))

instance : Decidable (tracker.Steady params) := inferInstanceAs (Decidable (_ → _ → _))

theorem recorded_append : recorded (past ++ [step]) = recorded past ++
    (recordedAt step).toList := by
  rw [recorded, recorded, Machine.filterMap_concat]

theorem recordedAt_of_quiet (quiet : ∀ addr pc size write,
    step.event ≠ .record addr pc size write) : recordedAt step = none := by
  unfold recordedAt
  split
  · next addr pc size write same => exact absurd same (quiet addr pc size write)
  · rfl

theorem recordedAt_of_disabled (disabled : step.pre.data.isEnabled = false) :
    recordedAt step = none := by
  unfold recordedAt
  split
  · rw [disabled]
    rfl
  · rfl

theorem openScopes_append : openScopes (past ++ [step]) =
    step.event.scopesAfter (openScopes past) := by
  rw [openScopes, openScopes, List.foldl_append]
  rfl

theorem handed_append {first second : List Event} :
    handed (first ++ second) = handed first ++ handed second :=
  List.filterMap_append

@[simp]
theorem admitted_nil : admitted params data [] = [] := rfl

theorem admitted_append {first second : List MemRef} :
    admitted params data (first ++ second) = admitted params data first ++
      admitted params data second := by
  simp only [admitted, List.filter_append, List.map_append]

theorem handed_events {refs : List MemRef} :
    handed ((refs.filter fun ref => !data.filteredMemref params ref).map
      fun ref => (ref.access data.detectorData).event) = admitted params data refs := by
  rw [handed, List.filterMap_map, admitted, ← List.filterMap_eq_map]
  congr 1
  funext ref
  exact Access.access?_event _

/-- The accesses of other calls than reads and writes are none. -/
theorem handed_detector {event : Event} (quiet : event.access? = none) :
    handed (session.detector event).calls = handed session.calls := by
  rw [detector, handed_append, handed, handed, List.filterMap_cons_none quiet, List.filterMap_nil,
    List.append_nil]

/-! ### Entries of the buffer -/

namespace ShadowThreadState

theorem entries_zero : data.entries 0 = [] := by
  have size := layout.sizeofMemRef_pos
  rw [entries, Nat.zero_sub, Nat.zero_add, Nat.div_eq_of_lt (Nat.sub_lt size Nat.one_pos)]
  rfl

theorem entries_congr {other : ShadowThreadState layout} (buffer : other.memBuf = data.memBuf)
    (memory : other.memory = data.memory) : other.entries pointer = data.entries pointer := by
  simp only [entries, slot, buffer, memory]

/-- A reference stored at the head becomes the last entry. -/
theorem entries_record {other : ShadowThreadState layout} {ref : MemRef}
    (buffer : other.memBuf = data.memBuf)
    (memory : other.memory = Function.update data.memory (data.slot index) ref) :
    other.entries (data.slot (index + 1)) = data.entries (data.slot index) ++ [ref] := by
  have sameSlot : ∀ place, data.slot place = other.slot place := fun place => by
    rw [slot, slot, buffer]
  rw [sameSlot, entries_slot, entries_slot, List.range_succ, List.map_append, List.map_singleton,
    ← sameSlot, memory, Function.update_self]
  congr 1
  refine List.map_congr_left fun place member => ?_
  have before := List.mem_range.mp member
  rw [← sameSlot, Function.update_of_ne (data.slot_injective.ne before.ne)]

theorem isEnabled_iff : data.isEnabled = true ↔ data.bufPtr ≠ 0 := by simp [isEnabled]

theorem isEnabled_eq_false : data.isEnabled = false ↔ data.bufPtr = 0 := by simp [isEnabled]

theorem pending_of_enabled (enabled : data.isEnabled = true) :
    data.pending = data.entries data.bufPtr := by
  rw [pending, if_pos enabled]

theorem pending_of_disabled (disabled : data.isEnabled = false) :
    data.pending = data.entries data.bufPtrStored := by
  rw [pending, if_neg (by simp [disabled])]

/-- The buffer lies below the last address, and the end of the buffer is negated. -/
theorem slot_lt (bound : index ≤ Layout.maxNumMemRefs) : data.slot index < layout.sizeRange := by
  refine lt_of_le_of_lt (Nat.add_le_add_left ?_ _) data.memBuf.data_fits
  rw [Layout.memBufSize, Nat.mul_comm]
  exact Nat.mul_le_mul_left _ bound

theorem slot_end : data.slot Layout.maxNumMemRefs = data.memBuf.data + layout.memBufSize := by
  rw [slot, Layout.memBufSize, Nat.mul_comm]

/-- The sum that the instrumentation tests is zero for the end of the buffer only. -/
theorem sum_eq_zero_iff (ends : data.bufEnd =
    layout.sizeRange - (data.memBuf.data + layout.memBufSize))
    (bound : index ≤ Layout.maxNumMemRefs) :
    (data.slot index + data.bufEnd) % layout.sizeRange = 0 ↔ index = Layout.maxNumMemRefs := by
  have fits := data.memBuf.data_fits
  rw [← slot_end] at fits ends
  constructor
  · intro zero
    by_contra differs
    have below : data.slot index < data.slot Layout.maxNumMemRefs :=
      Nat.add_lt_add_left (Nat.mul_lt_mul_of_pos_right (lt_of_le_of_ne bound differs)
        layout.sizeofMemRef_pos) _
    have positive : 0 < data.slot index := slot_pos
    rw [Nat.mod_eq_of_lt (by omega)] at zero
    omega
  · rintro rfl
    rw [ends, Nat.add_sub_cancel' fits.le, Nat.mod_self]

/-- A pointer into the buffer, or null. -/
def InBuffer (data : ShadowThreadState layout) (pointer : ℕ) : Prop :=
  pointer = 0 ∨ ∃ index < Layout.maxNumMemRefs, pointer = data.slot index

theorem inBuffer_start : data.InBuffer data.memBuf.data :=
  Or.inr ⟨0, by decide, by rw [slot_zero]⟩

theorem InBuffer.congr {other : ShadowThreadState layout} (inside : data.InBuffer pointer)
    (same : other.memBuf = data.memBuf) : other.InBuffer pointer := by
  unfold InBuffer slot at *
  rwa [same]

/-- Both pointers of a thread lie in its buffer or are null, and the end of the buffer is noted. -/
structure Bounded (data : ShadowThreadState layout) : Prop where
  ends : data.bufEnd = layout.sizeRange - (data.memBuf.data + layout.memBufSize)
  head : data.InBuffer data.bufPtr
  stored : data.InBuffer data.bufPtrStored

theorem Bounded.move {other : ShadowThreadState layout} (bounded : data.Bounded)
    (memBuf : other.memBuf = data.memBuf) (bufEnd : other.bufEnd = data.bufEnd)
    (head : data.InBuffer other.bufPtr) (stored : data.InBuffer other.bufPtrStored) :
      other.Bounded where
  ends := by rw [bufEnd, memBuf, bounded.ends]
  head := head.congr memBuf
  stored := stored.congr memBuf

end ShadowThreadState

/-! ### The parts of an analysis -/

namespace Session

theorem tracker_lazyInit : (session.lazyInit params).tracker = session.tracker := by
  unfold lazyInit
  split <;> rfl

theorem checkExtState_of_steady (steady : session.tracker.Steady params) :
    session.checkExtState params = session := by
  unfold checkExtState handleExtState
  split
  · next due =>
    split
    · next driver =>
      obtain ⟨sameState, sameRate⟩ := steady due.1 driver
      simp only
      rw [if_neg (not_not.mpr sameState), if_neg (not_not.mpr sameRate)]
    · rfl
  · rfl

/-- While the external state is steady, an analysis initializes the thread and dumps its buffer. -/
theorem analyzeAccess_of_steady (steady : session.tracker.Steady params) :
    session.analyzeAccess params = (session.lazyInit params).dumpBuffer params := by
  rw [analyzeAccess, checkExtState_of_steady (by rwa [tracker_lazyInit])]

theorem lazyInit_of_ne (initialized : session.data.detectorData ≠ 0) :
    session.lazyInit params = session := if_neg initialized

theorem tracker_dumpBuffer : (session.dumpBuffer params).tracker = session.tracker := by
  unfold dumpBuffer
  split <;> rfl

theorem dumpBuffer_of_enabled (enabled : session.data.isEnabled = true) :
    session.dumpBuffer params =
      { session with
        calls := session.calls ++ ((session.data.entries session.data.bufPtr).filter
          fun ref => !session.data.filteredMemref params ref).map
            fun ref => (ref.access session.data.detectorData).event
        data := { session.data with bufPtr := session.data.memBuf.data } } := if_pos enabled

theorem dumpBuffer_of_disabled (disabled : session.data.isEnabled = false) :
    session.dumpBuffer params = session := if_neg (by simp [disabled])

theorem eventCnt_lazyInit : (session.lazyInit params).data.eventCnt = session.data.eventCnt := by
  unfold lazyInit
  split <;> rfl

theorem eventCnt_dumpBuffer : (session.dumpBuffer params).data.eventCnt =
    session.data.eventCnt := by
  unfold dumpBuffer
  split <;> rfl

/-- An analysis neither opens nor closes scopes. -/
theorem eventCnt_analyzeAccess (steady : session.tracker.Steady params) :
    (session.analyzeAccess params).data.eventCnt = session.data.eventCnt := by
  rw [analyzeAccess_of_steady steady, eventCnt_dumpBuffer, eventCnt_lazyInit]

theorem tracker_analyzeAccess (steady : session.tracker.Steady params) :
    (session.analyzeAccess params).tracker = session.tracker := by
  rw [analyzeAccess_of_steady steady, tracker_dumpBuffer, tracker_lazyInit]

/-- The session with an entry stored at the head. -/
def store (session : Session layout) (index : ℕ) (ref : MemRef) : Session layout :=
  { session with data := { session.data with
      memory := Function.update session.data.memory (session.data.slot index) ref
      bufPtr := session.data.slot (index + 1) } }

theorem instrumentMemFast_of_disabled {ref : MemRef} (disabled : session.data.bufPtr = 0) :
    session.instrumentMemFast params ref = session := if_pos disabled

/-- At an entry of the buffer the instrumentation stores a reference, and it flushes if the buffer
is full then. -/
theorem instrumentMemFast_of_slot {ref : MemRef} (bound : index < Layout.maxNumMemRefs)
    (ends : session.data.bufEnd = layout.sizeRange - (session.data.memBuf.data + layout.memBufSize))
    (head : session.data.bufPtr = session.data.slot index) :
    session.instrumentMemFast params ref =
      if index + 1 = Layout.maxNumMemRefs then (session.store index ref).processBuffer params
      else session.store index ref := by
  have advanced : (session.data.slot index + layout.sizeofMemRef) % layout.sizeRange =
      session.data.slot (index + 1) := by
    rw [← ShadowThreadState.slot_succ, Nat.mod_eq_of_lt (ShadowThreadState.slot_lt bound)]
  unfold instrumentMemFast
  rw [if_neg (head ▸ ShadowThreadState.slot_pos.ne'), head, advanced]
  exact if_congr (ShadowThreadState.sum_eq_zero_iff ends bound) rfl rfl

/-! ### The account of references -/

/-- Handing over and moving the head leave everything else of a thread as it is. -/
structure Alike (session next : Session layout) : Prop where
  tracker : next.tracker = session.tracker
  detectorData : next.data.detectorData = session.data.detectorData
  memBuf : next.data.memBuf = session.data.memBuf
  bufEnd : next.data.bufEnd = session.data.bufEnd
  bufPtrStored : next.data.bufPtrStored = session.data.bufPtrStored
  eventCnt : next.data.eventCnt = session.data.eventCnt
  appstack : next.data.appstackBeg = session.data.appstackBeg ∧
    next.data.appstackEnd = session.data.appstackEnd
  freqPcs : next.data.freqPcs = session.data.freqPcs

variable {next last : Session layout} {refs : List MemRef}

theorem Alike.refl (session : Session layout) : session.Alike session :=
  ⟨rfl, rfl, rfl, rfl, rfl, rfl, ⟨rfl, rfl⟩, rfl⟩

theorem Alike.trans (first : session.Alike next) (second : next.Alike last) :
    session.Alike last where
  tracker := second.tracker.trans first.tracker
  detectorData := second.detectorData.trans first.detectorData
  memBuf := second.memBuf.trans first.memBuf
  bufEnd := second.bufEnd.trans first.bufEnd
  bufPtrStored := second.bufPtrStored.trans first.bufPtrStored
  eventCnt := second.eventCnt.trans first.eventCnt
  appstack := ⟨second.appstack.1.trans first.appstack.1, second.appstack.2.trans first.appstack.2⟩
  freqPcs := second.freqPcs.trans first.freqPcs

theorem Alike.slot (alike : session.Alike next) :
    next.data.slot index = session.data.slot index := by
  rw [ShadowThreadState.slot, ShadowThreadState.slot, alike.memBuf]

theorem Alike.admitted (alike : session.Alike next) :
    admitted params next.data refs = Drace.admitted params session.data refs := by
  simp only [Drace.admitted, ShadowThreadState.filteredMemref, alike.detectorData, alike.appstack.1,
    alike.appstack.2]

/-- The references handed over, followed by those that are pending. -/
def account (params : RuntimeConfig) (session : Session layout) : List Access :=
  handed session.calls ++ Drace.admitted params session.data session.data.pending

/-- Dumping the buffer hands the pending references over. -/
theorem dumpBuffer_spec (params : RuntimeConfig) (session : Session layout) :
    session.Alike (session.dumpBuffer params) ∧
      (session.dumpBuffer params).account params = session.account params ∧
      (session.dumpBuffer params).data.bufPtr =
        if session.data.isEnabled then session.data.memBuf.data else 0 := by
  cases enabled : session.data.isEnabled with
  | false =>
    rw [dumpBuffer_of_disabled enabled]
    exact ⟨.refl session, rfl,
      ShadowThreadState.isEnabled_eq_false.mp enabled⟩
  | true =>
    rw [dumpBuffer_of_enabled enabled]
    refine ⟨⟨rfl, rfl, rfl, rfl, rfl, rfl, ⟨rfl, rfl⟩, rfl⟩, ?_, rfl⟩
    have started : ∀ other : ShadowThreadState layout, other.bufPtr = other.memBuf.data →
        other.pending = [] := by
      intro other start
      rw [ShadowThreadState.pending_of_enabled (ShadowThreadState.isEnabled_iff.mpr
        (start ▸ other.memBuf.data_pos.ne')), start, ShadowThreadState.entries_start]
    rw [account, account, started _ rfl, ShadowThreadState.pending_of_enabled enabled,
      handed_append, handed_events, admitted_nil, List.append_nil]

theorem processBuffer_spec (steady : session.tracker.Steady params)
    (initialized : session.data.detectorData ≠ 0) :
    session.Alike (session.processBuffer params) ∧
      (session.processBuffer params).account params = session.account params ∧
      (session.processBuffer params).data.bufPtr =
        if session.data.isEnabled then session.data.memBuf.data else 0 := by
  rw [processBuffer, analyzeAccess_of_steady steady, lazyInit_of_ne initialized]
  obtain ⟨alike, same, head⟩ := session.dumpBuffer_spec params
  exact ⟨⟨alike.tracker, alike.detectorData, alike.memBuf, alike.bufEnd, alike.bufPtrStored,
    alike.eventCnt, alike.appstack, alike.freqPcs⟩, same, head⟩

/-- Storing an entry adds it to the pending references. -/
theorem store_spec (params : RuntimeConfig) (ref : MemRef)
    (head : session.data.bufPtr = session.data.slot index) :
    session.Alike (session.store index ref) ∧
      (session.store index ref).account params =
        session.account params ++ Drace.admitted params session.data [ref] := by
  have alike : session.Alike (session.store index ref) :=
    ⟨rfl, rfl, rfl, rfl, rfl, rfl, ⟨rfl, rfl⟩, rfl⟩
  refine ⟨alike, ?_⟩
  have enabled : session.data.isEnabled = true :=
    ShadowThreadState.isEnabled_iff.mpr (head ▸ ShadowThreadState.slot_pos.ne')
  have stored : (session.store index ref).data.isEnabled = true :=
    ShadowThreadState.isEnabled_iff.mpr ShadowThreadState.slot_pos.ne'
  have pending : (session.store index ref).data.pending = session.data.pending ++ [ref] := by
    rw [ShadowThreadState.pending_of_enabled stored,
      ShadowThreadState.pending_of_enabled enabled, head]
    exact ShadowThreadState.entries_record rfl rfl
  rw [account, account, alike.admitted, pending, admitted_append, List.append_assoc]
  rfl

/-- Recording a reference adds it to the account and keeps the head in the buffer. -/
theorem instrumentMemFast_spec (ref : MemRef) (bound : index < Layout.maxNumMemRefs)
    (ends : session.data.bufEnd = layout.sizeRange - (session.data.memBuf.data + layout.memBufSize))
    (head : session.data.bufPtr = session.data.slot index) (steady : session.tracker.Steady params)
    (initialized : session.data.detectorData ≠ 0) :
    session.Alike (session.instrumentMemFast params ref) ∧
      (session.instrumentMemFast params ref).account params =
        session.account params ++ Drace.admitted params session.data [ref] ∧
      ∃ index < Layout.maxNumMemRefs,
        (session.instrumentMemFast params ref).data.bufPtr = session.data.slot index := by
  obtain ⟨alike, added⟩ := store_spec params ref head
  rw [instrumentMemFast_of_slot bound ends head]
  split
  · have full : (session.store index ref).data.isEnabled = true :=
      ShadowThreadState.isEnabled_iff.mpr ShadowThreadState.slot_pos.ne'
    have sameSteady : (session.store index ref).tracker.Steady params := steady
    obtain ⟨flushed, same, start⟩ := processBuffer_spec sameSteady initialized
    rw [if_pos full] at start
    refine ⟨alike.trans flushed, same.trans added, 0, by decide, ?_⟩
    rw [start, ShadowThreadState.slot_zero]
    rfl
  · exact ⟨alike, added, index + 1, by omega, rfl⟩

end Session

namespace Session

theorem eventCnt_instrumentMemFast {ref : MemRef} (steady : session.tracker.Steady params) :
    (session.instrumentMemFast params ref).data.eventCnt = session.data.eventCnt := by
  unfold instrumentMemFast
  split
  · rfl
  · simp only
    split
    · exact eventCnt_analyzeAccess steady
    · rfl

theorem tracker_instrumentMemFast {ref : MemRef} (steady : session.tracker.Steady params) :
    (session.instrumentMemFast params ref).tracker = session.tracker := by
  unfold instrumentMemFast
  split
  · rfl
  · simp only
    split
    · exact tracker_analyzeAccess steady
    · rfl

end Session

/-- A thread that is initialized, enabled and outside all scopes. -/
structure Ready (params : RuntimeConfig) (session : Session layout) : Prop where
  initialized : session.data.detectorData ≠ 0
  outside : session.data.eventCnt = 0
  head : ∃ index < Layout.maxNumMemRefs, session.data.bufPtr = session.data.slot index
  stored : ∃ index < Layout.maxNumMemRefs, session.data.bufPtrStored = session.data.slot index
  ends : session.data.bufEnd = layout.sizeRange - (session.data.memBuf.data + layout.memBufSize)
  steady : session.tracker.Steady params

/-- A thread is ready after its first analysis, unless it is the excluded first thread. -/
theorem ready_analyzeAccess {tid : ℕ} (memBuf : AlignedBuffer layout) (memory : ℕ → MemRef)
    (appstack : ℕ × ℕ) (steady : tracker.Steady params)
    (included : ¬ (params.excludeMaster ∧ tid = params.runtimeTid))
    (handle : params.forkHandle tid ≠ 0) :
    Ready params
      ((eventThreadInit params tracker tid memBuf memory appstack).analyzeAccess params) := by
  have start : ∃ beg ending, eventThreadInit params tracker tid memBuf memory appstack =
      { tracker := tracker
        data :=
          { bufPtr := memBuf.data
            bufEnd := layout.sizeRange - (memBuf.data + layout.memBufSize)
            bufPtrStored := memBuf.data
            samplingPos := (tracker.samplingRate : ℤ).bmod 0x100000000
            tid := tid
            memBuf := memBuf
            memory := memory
            appstackBeg := beg
            appstackEnd := ending } } := by
    unfold eventThreadInit
    simp only [if_neg included]
    split
    · exact ⟨_, _, rfl⟩
    · exact ⟨_, _, rfl⟩
  obtain ⟨beg, ending, same⟩ := start
  have enabled : memBuf.data ≠ 0 := memBuf.data_pos.ne'
  rw [same, analyzeAccess_of_steady steady, lazyInit, if_pos rfl,
    dumpBuffer_of_enabled (ShadowThreadState.isEnabled_iff.mpr enabled)]
  refine ⟨handle, rfl, ⟨0, by decide, ?_⟩, ⟨0, by decide, ?_⟩, rfl, steady⟩
  · rw [ShadowThreadState.slot_zero]
  · rw [ShadowThreadState.slot_zero]
    rfl

theorem ready_started : Ready plain ((started plain {} 2).analyzeAccess plain) :=
  ready_analyzeAccess _ _ _ (by decide) (by decide) (by decide)

end Drace
