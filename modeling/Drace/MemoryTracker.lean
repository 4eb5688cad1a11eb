/-
This file models the memory tracker: the recording of memory references by the
inline instrumentation, the flush of the buffer, the scopes and the sampling that
switch recording off, and the external control.

The operations act on a session: one thread's data with the state all threads
share, and the calls made to the detector so far. The control block is shared
with the controller process. External control and its driver exist on Windows
only. A random period is drawn outside and passed in.
-/

import Drace.ShadowState

namespace Drace

/-- What all threads of the client share: the flag of the last external state that was noticed, the
sampling parameters, and the control block of the controller. -/
structure MemoryTracker where
  enableExternal : Bool := true
  minPeriod : ℕ := 1
  maxPeriod : ℕ := 1
  samplingRate : ℕ := 1
  /-- `extcb->enabled`. -/
  extEnabled : Bool := true
  /-- `extcb->sampling_rate`. -/
  extSamplingRate : ℕ := 1
  deriving DecidableEq

/-- The sampling periods for a rate, in `unsigned`. -/
def MemoryTracker.updateSampling (tracker : MemoryTracker) : MemoryTracker :=
  let delta := if tracker.samplingRate < 10 then 1 else tracker.samplingRate / 10
  { tracker with
    minPeriod := max ((tracker.samplingRate + 0x100000000 - delta) % 0x100000000) 1
    maxPeriod := (tracker.samplingRate + delta) % 0x100000000 }

/-- A thread's data with the shared state and the detector calls made so far. -/
structure Session (layout : Layout) where
  tracker : MemoryTracker
  data : ShadowThreadState layout
  calls : List Event := []

namespace Session

variable {layout : Layout}

/-- Make a call to the detector. -/
def detector (session : Session layout) (event : Event) : Session layout :=
  { session with calls := session.calls ++ [event] }

/-! ### Scopes -/

def begExclRegion (session : Session layout) : Session layout :=
  { session with data := session.data.disableScope }

def endExclRegion (session : Session layout) : Session layout :=
  { session with data := session.data.enableScope }

/-! ### Sampling -/

/-- Returns true if this reference should be sampled. The drawn period is converted to `int`. -/
def sampleRef (session : Session layout) (draw : ℕ) : Bool × Session layout :=
  let data := { session.data with samplingPos := session.data.samplingPos - 1 }
  if session.tracker.samplingRate = 1 then (true, { session with data := data })
  else if data.samplingPos = 0 then
    (true, { session with data := { data with samplingPos := (draw : ℤ).bmod 0x100000000 } })
  else (false, { session with data := data })

/-- Sets the detector state based on the sampling condition. The highest bit of the counter denotes
that this function is not sampled. -/
def switchSampling (session : Session layout) (draw : ℕ) : Session layout :=
  match session.sampleRef draw with
  | (false, session) =>
    let data := session.data.disable
    { session with data := { data with eventCnt := data.eventCnt ||| layout.flagBit } }
  | (true, session) =>
    let data := { session.data with eventCnt := session.data.eventCnt &&& (layout.flagBit - 1) }
    { session with data := if data.eventCnt = 0 then data.enable else data }

/-! ### Processing the buffer -/

/-- Discards the buffer and counts a flush. -/
def clearBuffer (session : Session layout) : Session layout :=
  { session with data := { session.data with
      flushes := session.data.flushes + 1
      bufPtr := session.data.memBuf.data } }

/-- Announces the thread to the detector, with the arc from its parent. -/
def delayedInitializeThread (params : RuntimeConfig) (session : Session layout) : Session layout :=
  let handle := params.forkHandle session.data.tid
  let session := session.detector (.fork params.runtimeTid session.data.tid)
  let session := { session with data := { session.data with detectorData := handle } }
  (session.detector (.happensAfter handle session.data.tid)).clearBuffer

/-- Reads the control block and follows it. -/
def handleExtState (params : RuntimeConfig) (session : Session layout) : Session layout :=
  if params.shmdriver then
    let state := session.tracker.extEnabled
    let session :=
      if session.tracker.enableExternal ≠ state then
        let session := { session with tracker := { session.tracker with enableExternal := state } }
        if state then session.endExclRegion else session.begExclRegion
      else session
    if session.tracker.extSamplingRate ≠ session.tracker.samplingRate then
      { session with tracker := { session.tracker with
          samplingRate := session.tracker.extSamplingRate }.updateSampling }
    else session
  else session

/-- The thread is initialized when it is analyzed for the first time. -/
def lazyInit (params : RuntimeConfig) (session : Session layout) : Session layout :=
  if session.data.detectorData = 0 then session.delayedInitializeThread params else session

/-- The external state is looked at every now and then. -/
def ExtCheckDue (params : RuntimeConfig) (data : ShadowThreadState layout) : Prop :=
  params.extctrl ∧ data.flushes &&& (0xF - 1) = 0xF - 1

instance (params : RuntimeConfig) (data : ShadowThreadState layout) :
    Decidable (ExtCheckDue params data) := inferInstanceAs (Decidable (_ ∧ _))

def checkExtState (params : RuntimeConfig) (session : Session layout) : Session layout :=
  if ExtCheckDue params session.data then session.handleExtState params else session

/-- Hands the references of the buffer to the detector and starts the buffer again. -/
def dumpBuffer (params : RuntimeConfig) (session : Session layout) : Session layout :=
  if session.data.isEnabled then
    let refs := (session.data.entries session.data.bufPtr).filter
      fun ref => !session.data.filteredMemref params ref
    { session with
      calls := session.calls ++ refs.map fun ref => (ref.access session.data.detectorData).event
      data := { session.data with bufPtr := session.data.memBuf.data } }
  else session

def analyzeAccess (params : RuntimeConfig) (session : Session layout) : Session layout :=
  ((session.lazyInit params).checkExtState params).dumpBuffer params

/-- Dumps the memory reference info into the analyzer and counts a flush. -/
def processBuffer (params : RuntimeConfig) (session : Session layout) : Session layout :=
  let session := session.analyzeAccess params
  { session with data := { session.data with flushes := session.data.flushes + 1 } }

/-- What the inline instrumentation does at a memory reference: nothing while the detector is
disabled; else it stores an entry, and it calls for a flush when the sum of the advanced pointer and
the negated end is zero. -/
def instrumentMemFast (params : RuntimeConfig) (session : Session layout) (ref : MemRef) :
    Session layout :=
  if session.data.bufPtr = 0 then session
  else
    let pointer := (session.data.bufPtr + layout.sizeofMemRef) % layout.sizeRange
    let session := { session with data := { session.data with
        memory := Function.update session.data.memory session.data.bufPtr ref
        bufPtr := pointer } }
    if (pointer + session.data.bufEnd) % layout.sizeRange = 0 then session.processBuffer params
    else session

/-! ### Thread events -/

/-- The data of a new thread with a freshly allocated buffer. The first thread starts in an excluded
region if it is excluded. The stack range is what the system tells. -/
def eventThreadInit (params : RuntimeConfig) (tracker : MemoryTracker) (tid : ℕ)
    (memBuf : AlignedBuffer layout) (memory : ℕ → MemRef) (appstack : ℕ × ℕ) : Session layout :=
  let data : ShadowThreadState layout :=
    { bufPtr := memBuf.data
      bufEnd := layout.sizeRange - (memBuf.data + layout.memBufSize)
      bufPtrStored := memBuf.data
      samplingPos := (tracker.samplingRate : ℤ).bmod 0x100000000
      tid := tid
      memBuf := memBuf
      memory := memory }
  let data := if params.excludeMaster ∧ tid = params.runtimeTid then data.disableScope else data
  let data := if params.windows ∧ tid ≠ params.runtimeTid then
      { data with appstackBeg := appstack.1, appstackEnd := appstack.2 } else data
  { tracker := tracker, data := data }

end Session

end Drace
