/-
This file models the callbacks of the function wrapping: allocations, mutexes,
thread starts, barriers, annotations, and the calls and returns of the
application.

A callback behind a wrapped function gets no context when an exception occurred,
and some do nothing then. The arguments and the return value a callback reads
come with the context. The book of mutexes is a hash table: replacing an entry
returns the previous payload, and null if there was none.
-/

import Drace.MemoryTracker

namespace Drace

namespace Session

variable {layout : Layout} (params : RuntimeConfig)

/-! ### Allocations -/

def allocPre (session : Session layout) : Session layout := session.processBuffer params

/-- Allocations with size 0 are valid if they come from reallocate. -/
def allocPost (session : Session layout) (pc retval size : ℕ) : Session layout :=
  if size ≠ 0 then session.detector (.allocate session.data.detectorData pc retval size)
    else session

/-- First deallocate, then allocate again. -/
def reallocPre (session : Session layout) (oldAddr : ℕ) : Session layout :=
  let session := session.processBuffer params
  session.detector (.deallocate session.data.detectorData oldAddr)

def freePre (session : Session layout) (addr : ℕ) : Session layout :=
  let session := session.processBuffer params
  session.detector (.deallocate session.data.detectorData addr)

/-! ### Mutexes -/

/-- `hashtable_add_replace` on the book: the previous payload and the new book. -/
def addReplace (session : Session layout) (mutex payload : ℕ) : ℕ × Session layout :=
  ((session.data.mutexBook.lookup mutex).getD 0,
    { session with data := { session.data with
        mutexBook := session.data.mutexBook.insert mutex payload } })

/-- Adds a mutex to the book or counts it up, and returns the count for the detector. -/
def countMutex (session : Session layout) (mutex : ℕ) : ℕ × Session layout :=
  let (cnt, session) := session.addReplace mutex 1
  if 1 < cnt then (cnt + 1, (session.addReplace mutex (cnt + 1)).2) else (cnt, session)

/-- Takes the mutex out of the book or counts it down. -/
def uncountMutex (session : Session layout) (mutex cnt : ℕ) : Session layout :=
  if 1 < cnt then (session.addReplace mutex (cnt - 1)).2
  else { session with
    data := { session.data with mutexBook := session.data.mutexBook.erase mutex } }

/-- The first thread is not tracked if it is excluded. -/
def Excluded (session : Session layout) : Prop :=
  params.excludeMaster ∧ session.data.tid = params.runtimeTid

instance (session : Session layout) : Decidable (session.Excluded params) :=
  inferInstanceAs (Decidable (_ ∧ _))

/-- Behind a lock function. The context holds the return value, which a trylock looks at: 0 says
that the mutex is acquired. The natural number stands for the value as an `int`, the lower 32 bits
of the register: any number but 0 stands for any value but 0, negative ones included. -/
def prepareAndAquire (session : Session layout) (wrapctx : Option ℕ) (mutex : ℕ)
    (write trylock : Bool) : Session layout :=
  match wrapctx with
  | none => session
  | some retval =>
    if session.Excluded params then session
    else if trylock ∧ retval ≠ 0 then session
    else
      let (cnt, session) := session.countMutex mutex
      session.detector (.acquire session.data.detectorData mutex ((cnt : ℤ).bmod 0x100000000) write)

/-- In front of an unlock function. The context holds the argument, the mutex. -/
def prepareAndRelease (session : Session layout) (wrapctx : Option ℕ) (write : Bool) :
    Session layout :=
  match wrapctx with
  | none => session
  | some mutex =>
    if session.Excluded params then session
    else
      let cnt := (session.data.mutexBook.lookup mutex).getD 0
      -- a mutex that is not in the book
      if cnt = 0 then session
      else
        let session := (session.uncountMutex mutex cnt).processBuffer params
        session.detector (.release session.data.detectorData mutex write)

/-- Flushes to avoid tracking the sync function itself. -/
def getArg (session : Session layout) : Session layout := session.processBuffer params

/-- Behind a wait for one object, `WAIT_OBJECT_0` if it succeeded. The natural number stands for the
return value as a `DWORD`. Windows only. -/
def waitForSingleObj (session : Session layout) (wrapctx : Option ℕ) (mutex : ℕ) : Session layout :=
  match wrapctx with
  | none => session
  | some retval =>
    if session.Excluded params then session
    else if retval ≠ 0 then session
    else
      let (cnt, session) := session.countMutex mutex
      let session := session.processBuffer params
      session.detector (.acquire session.data.detectorData mutex ((cnt : ℤ).bmod 0x100000000) true)

/-- One of the objects of a wait for several ones is acquired. -/
def acquireObj (session : Session layout) (mutex : ℕ) : Session layout :=
  let (cnt, session) := session.countMutex mutex
  session.detector (.acquire session.data.detectorData mutex ((cnt : ℤ).bmod 0x100000000) true)

/-- Behind a wait for several objects: all of them, or the one the return value names. The natural
number stands for the return value as a `DWORD`, the list for the `ncount` handles. Left out are
calls for no object, which fail: `ncount - 1` wraps there, and what lies behind the handles is
read. -/
def waitForMultObj (session : Session layout) (wrapctx : Option ℕ) (handles : List ℕ)
    (waitall : Bool) : Session layout :=
  match wrapctx with
  | none => session
  | some retval =>
    let session := session.processBuffer params
    if waitall then if retval = 0 then handles.foldl acquireObj session else session
    else match handles[retval]? with
      | some mutex => session.acquireObj mutex
      | none => session

/-! ### Threads, barriers and annotations -/

/-- Behind a thread start, on Windows. -/
def threadStart (session : Session layout) (threadid : ℕ) : Session layout :=
  if params.windows then session.detector (.happensBefore session.data.detectorData threadid)
  else session

/-- Each thread enters the barrier individually. -/
def barrierEnter (session : Session layout) (addr : ℕ) : Session layout :=
  session.detector (.happensBefore session.data.detectorData addr)

/-- Each thread leaves individually, but only after all have entered. -/
def barrierLeave (session : Session layout) (wrapctx : Option ℕ) (addr : ℕ) : Session layout :=
  match wrapctx with
  | none => session
  | some _ => session.detector (.happensAfter session.data.detectorData addr)

/-- The return value says whether the barrier was passed. -/
def barrierLeaveOrCancel (session : Session layout) (wrapctx : Option ℕ) (addr : ℕ) :
    Session layout :=
  match wrapctx with
  | none => session
  | some passed =>
    if passed ≠ 0 then session.detector (.happensAfter session.data.detectorData addr) else session

def happensBefore (session : Session layout) (wrapctx : Option ℕ) (identifier : ℕ) :
    Session layout :=
  match wrapctx with
  | none => session
  | some _ => session.detector (.happensBefore session.data.detectorData identifier)

def happensAfter (session : Session layout) (wrapctx : Option ℕ) (identifier : ℕ) :
    Session layout :=
  match wrapctx with
  | none => session
  | some _ => session.detector (.happensAfter session.data.detectorData identifier)

/-! ### Calls and returns -/

/-- Push a call site; a full stack ignores it, and the detector is not told. -/
def pushStack (session : Session layout) (addr : ℕ) : Session layout :=
  if session.data.stack.frames.length < ShadowStack.maxSize then
    { session with data := { session.data with stack := session.data.stack.push addr } }.detector
      (.funcEnter session.data.detectorData addr)
  else session

/-- Default call instrumentation. -/
def onFuncCall (session : Session layout) (callIns draw : ℕ) : Session layout :=
  let session := session.analyzeAccess params
  -- possibly disable the detector during this function
  let session := session.switchSampling draw
  let session :=
    if params.lossy ∧ ¬ params.lossyFlush ∧ session.data.pcInFreq callIns then
      { session with data := session.data.disable }
    else session
  session.pushStack callIns

/-- The return target lies behind a call instruction. -/
def ReturnsTo (layout : Layout) (callIns target : ℕ) : Prop :=
  callIns ≤ target ∧ target ≤ callIns + layout.sizeofPtr

instance (callIns target : ℕ) : Decidable (ReturnsTo layout callIns target) :=
  inferInstanceAs (Decidable (_ ∧ _))

/-- Pops frames until one fits the return target: the shadow stack that is left, and the number of
pops. A frame that does not fit is skipped. -/
def unwind (layout : Layout) (target : ℕ) : List ℕ → List ℕ × ℕ
  | [] => ([], 0)
  | callIns :: rest =>
    if ReturnsTo layout callIns target then (rest, 1)
    else ((unwind layout target rest).1, (unwind layout target rest).2 + 1)

theorem unwind_length_le (layout : Layout) (target : ℕ) (frames : List ℕ) :
    (unwind layout target frames).1.length ≤ frames.length := by
  induction frames with
  | nil => exact le_rfl
  | cons callIns rest inductionHypothesis =>
    rw [unwind, List.length_cons]
    split
    · exact Nat.le_succ _
    · exact Nat.le_succ_of_le inductionHypothesis

/-- Default return instrumentation: each pop of the shadow stack tells the detector. -/
def onFuncRet (session : Session layout) (target : ℕ) : Session layout :=
  let session := session.analyzeAccess params
  let popped := unwind layout target session.data.stack.frames
  { session with
    data := { session.data with stack :=
        ⟨popped.1, (unwind_length_le layout target _).trans session.data.stack.bounded⟩ }
    calls := session.calls ++ List.replicate popped.2 (.funcExit session.data.detectorData) }

end Session

end Drace
