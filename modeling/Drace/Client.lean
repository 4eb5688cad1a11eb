/-
This file makes the client a machine.

A thread of the application makes events on its own session: memory references,
calls and returns, and the callbacks of the wrapped functions. The client has any
number of threads that share the tracker, and its controller is a further party
that writes to the control block. Each event is processed as one step.
-/

import Drace.FunctionWrapper

namespace Drace

/-- What happens on an application thread. A callback behind a function carries its context. -/
inductive ThreadEvent
  | record (addr pc size : ℕ) (write : Bool)
  | processBuffer
  | analyzeAccess
  | switchSampling (draw : ℕ)
  | handleExtState
  | disableScope
  | enableScope
  | funcCall (callIns draw : ℕ)
  | funcRet (target : ℕ)
  | mutexLock (wrapctx : Option ℕ) (mutex : ℕ) (write trylock : Bool)
  | mutexUnlock (wrapctx : Option ℕ) (write : Bool)
  | waitForSingleObj (wrapctx : Option ℕ) (mutex : ℕ)
  | waitForMultObj (wrapctx : Option ℕ) (handles : List ℕ) (waitall : Bool)
  | threadStart (threadid : ℕ)
  | barrierEnter (addr : ℕ)
  | barrierLeave (wrapctx : Option ℕ) (addr : ℕ)
  | barrierLeaveOrCancel (wrapctx : Option ℕ) (addr : ℕ)
  | happensBefore (wrapctx : Option ℕ) (identifier : ℕ)
  | happensAfter (wrapctx : Option ℕ) (identifier : ℕ)
  | allocPost (pc retval size : ℕ)
  | reallocPre (oldAddr : ℕ)
  | freePre (addr : ℕ)
  deriving DecidableEq

namespace Session

variable {layout : Layout} (params : RuntimeConfig)

/-- One event of a thread. The callbacks that only flush are `processBuffer`. -/
def step (session : Session layout) : ThreadEvent → Session layout
  | .record addr pc size write => session.instrumentMemFast params (.ofAccess addr pc size write)
  | .processBuffer => session.processBuffer params
  | .analyzeAccess => session.analyzeAccess params
  | .switchSampling draw => session.switchSampling draw
  | .handleExtState => session.handleExtState params
  | .disableScope => session.begExclRegion
  | .enableScope => session.endExclRegion
  | .funcCall callIns draw => session.onFuncCall params callIns draw
  | .funcRet target => session.onFuncRet params target
  | .mutexLock wrapctx mutex write trylock =>
    session.prepareAndAquire params wrapctx mutex write trylock
  | .mutexUnlock wrapctx write => session.prepareAndRelease params wrapctx write
  | .waitForSingleObj wrapctx mutex => session.waitForSingleObj params wrapctx mutex
  | .waitForMultObj wrapctx handles waitall => session.waitForMultObj params wrapctx handles waitall
  | .threadStart threadid => session.threadStart params threadid
  | .barrierEnter addr => session.barrierEnter addr
  | .barrierLeave wrapctx addr => session.barrierLeave wrapctx addr
  | .barrierLeaveOrCancel wrapctx addr => session.barrierLeaveOrCancel wrapctx addr
  | .happensBefore wrapctx identifier => session.happensBefore wrapctx identifier
  | .happensAfter wrapctx identifier => session.happensAfter wrapctx identifier
  | .allocPost pc retval size => session.allocPost pc retval size
  | .reallocPre oldAddr => session.reallocPre params oldAddr
  | .freePre addr => session.freePre params addr

/-- The events of one thread as a machine. -/
def machine (start : Session layout → Prop) : Machine (Session layout) ThreadEvent Unit where
  start := start
  call session event := some (session.step params event, ())

end Session

/-- A step of a thread with the sessions around it. -/
abbrev ThreadStep (layout : Layout) := Machine.Step (Session layout) ThreadEvent Unit

namespace Session

variable {layout : Layout}

/-- The steps of a list of events on a thread and the session they lead to. -/
def ran (params : RuntimeConfig) (session : Session layout) (events : List ThreadEvent) :
    List (ThreadStep layout) × Session layout :=
  events.foldl (fun made event =>
    (made.1 ++ [⟨made.2, event, made.2.step params event, ()⟩], made.2.step params event))
      ([], session)

/-- Executing events is a run. -/
theorem reaches_ran {params : RuntimeConfig} {start : Session layout → Prop}
    {session : Session layout}
    (begins : start session) (events : List ThreadEvent) :
    (machine params start).Reaches (session.ran params events).1 (session.ran params events).2 := by
  induction events using List.reverseRecOn with
  | nil => exact .start begins
  | append_singleton front event inductionHypothesis =>
    unfold ran at inductionHypothesis ⊢
    rw [List.foldl_append]
    exact inductionHypothesis.call rfl

/-- No options, and the detector's handle of a thread is its tid. -/
def plain : RuntimeConfig := { runtimeTid := 1, forkHandle := id }

/-- External control is switched on, and its driver is connected. -/
def controlled : RuntimeConfig := { plain with extctrl := true, windows := true, shmdriver := true }

/-- A buffer at a fixed address. -/
def fixedBuffer : AlignedBuffer .x64 := ⟨0x1000, by decide, by decide⟩

/-- A new thread with a buffer at a fixed address. -/
def started (params : RuntimeConfig) (tracker : MemoryTracker) (tid : ℕ) : Session .x64 :=
  eventThreadInit params tracker tid fixedBuffer (fun _ => ⟨0, 0, 0⟩) (0, 0)

end Session

/-! ### What callbacks keep -/

/-- The callbacks of wrapped functions. They flush, keep the book of mutexes and call the
detector. -/
def ThreadEvent.callback : ThreadEvent → Bool
  | .record .. | .processBuffer | .analyzeAccess | .switchSampling _ | .handleExtState
  | .disableScope
  | .enableScope | .funcCall .. | .funcRet _ => false
  | _ => true

/-- The calls of the detector that callbacks make. -/
def Event.wrapped : Event → Bool
  | .acquire .. | .release .. | .happensBefore .. | .happensAfter .. | .allocate ..
  | .deallocate .. => true
  | _ => false

theorem Event.access?_of_wrapped {call : Event} (wrapped : call.wrapped = true) :
    call.access? = none := by
  cases call with
  | read | write => cases wrapped
  | _ => rfl

namespace Session

variable {layout : Layout} {params : RuntimeConfig} {session next : Session layout}

/-- A session after flushes, changes of the book and calls of the detector, in any order. -/
inductive Worked (params : RuntimeConfig) (session : Session layout) : Session layout → Prop
  | refl : Worked params session session
  | flush {next : Session layout} : Worked params session next →
      Worked params session (next.processBuffer params)
  | book {next : Session layout} (book : AList fun _ : ℕ => ℕ) : Worked params session next →
      Worked params session { next with data := { next.data with mutexBook := book } }
  | detector {next : Session layout} {call : Event} (wrapped : call.wrapped = true) :
      Worked params session next → Worked params session (next.detector call)

namespace Worked

theorem countMutex (mutex : ℕ) (worked : Worked params session next) :
    Worked params session (next.countMutex mutex).2 := by
  unfold Session.countMutex addReplace
  simp only
  split
  · exact worked.book _
  · exact worked.book _

theorem uncountMutex (mutex count : ℕ) (worked : Worked params session next) :
    Worked params session (next.uncountMutex mutex count) := by
  unfold Session.uncountMutex addReplace
  split
  · exact worked.book _
  · exact worked.book _

theorem acquireObj (mutex : ℕ) (worked : Worked params session next) :
    Worked params session (next.acquireObj mutex) :=
  (worked.countMutex mutex).detector rfl

theorem acquireAll (handles : List ℕ) (worked : Worked params session next) :
    Worked params session (handles.foldl Session.acquireObj next) := by
  induction handles generalizing next with
  | nil => exact worked
  | cons mutex rest inductionHypothesis => exact inductionHypothesis (worked.acquireObj mutex)

theorem prepareAndAquire (wrapctx : Option ℕ) (mutex : ℕ) (write trylock : Bool) :
    Worked params session (session.prepareAndAquire params wrapctx mutex write trylock) := by
  unfold Session.prepareAndAquire
  cases wrapctx with
  | none => exact .refl
  | some retval =>
    simp only
    split
    · exact .refl
    · split
      · exact .refl
      · exact (Worked.refl.countMutex mutex).detector rfl

theorem prepareAndRelease (wrapctx : Option ℕ) (write : Bool) :
    Worked params session (session.prepareAndRelease params wrapctx write) := by
  unfold Session.prepareAndRelease
  cases wrapctx with
  | none => exact .refl
  | some mutex =>
    simp only
    split
    · exact .refl
    · split
      · exact .refl
      · exact (Worked.refl.uncountMutex mutex _).flush.detector rfl

theorem waitForSingleObj (wrapctx : Option ℕ) (mutex : ℕ) :
    Worked params session (session.waitForSingleObj params wrapctx mutex) := by
  unfold Session.waitForSingleObj
  cases wrapctx with
  | none => exact .refl
  | some retval =>
    simp only
    split
    · exact .refl
    · split
      · exact .refl
      · exact (Worked.refl.countMutex mutex).flush.detector rfl

theorem waitForMultObj (wrapctx : Option ℕ) (handles : List ℕ) (waitall : Bool) :
    Worked params session (session.waitForMultObj params wrapctx handles waitall) := by
  unfold Session.waitForMultObj
  have flushed : Worked params session (session.processBuffer params) := Worked.refl.flush
  cases wrapctx with
  | none => exact .refl
  | some retval =>
    simp only
    split
    · split
      · exact flushed.acquireAll handles
      · exact flushed
    · split
      · exact flushed.acquireObj _
      · exact flushed

/-- This is all that callbacks do. -/
theorem callback {event : ThreadEvent} (callback : event.callback = true) :
    Worked params session (session.step params event) := by
  cases event with
  | mutexLock wrapctx mutex write trylock => exact prepareAndAquire wrapctx mutex write trylock
  | mutexUnlock wrapctx write => exact prepareAndRelease wrapctx write
  | waitForSingleObj wrapctx mutex => exact waitForSingleObj wrapctx mutex
  | waitForMultObj wrapctx handles waitall => exact waitForMultObj wrapctx handles waitall
  | threadStart threadid =>
    show Worked params session (if _ then _ else _)
    split
    · exact Worked.refl.detector rfl
    · exact .refl
  | barrierEnter addr => exact Worked.refl.detector rfl
  | barrierLeave wrapctx addr =>
    cases wrapctx with
    | none => exact .refl
    | some _ => exact Worked.refl.detector rfl
  | barrierLeaveOrCancel wrapctx addr =>
    cases wrapctx with
    | none => exact .refl
    | some passed =>
      show Worked params session (if _ then _ else _)
      split
      · exact Worked.refl.detector rfl
      · exact .refl
  | happensBefore wrapctx identifier =>
    cases wrapctx with
    | none => exact .refl
    | some _ => exact Worked.refl.detector rfl
  | happensAfter wrapctx identifier =>
    cases wrapctx with
    | none => exact .refl
    | some _ => exact Worked.refl.detector rfl
  | allocPost pc retval size =>
    show Worked params session (if _ then _ else _)
    split
    · exact Worked.refl.detector rfl
    · exact .refl
  | reallocPre oldAddr => exact Worked.refl.flush.detector rfl
  | freePre addr => exact Worked.refl.flush.detector rfl
  | _ => cases callback

end Worked

/-- What flushes, changes of the book and calls of the detector keep, that are no accesses. -/
structure Kept (params : RuntimeConfig) (property : Session layout → Prop) : Prop where
  flush : ∀ session, property session → property (session.processBuffer params)
  book : ∀ session book, property session →
    property { session with data := { session.data with mutexBook := book } }
  detector : ∀ session call, call.access? = none → property session →
    property (session.detector call)

namespace Kept

variable {property : Session layout → Prop} (kept : Kept params property)
include kept

theorem worked (worked : Worked params session next) (holds : property session) :
    property next := by
  induction worked with
  | refl => exact holds
  | flush _ inductionHypothesis => exact kept.flush _ inductionHypothesis
  | book book _ inductionHypothesis => exact kept.book _ book inductionHypothesis
  | detector wrapped _ inductionHypothesis =>
    exact kept.detector _ _ (Event.access?_of_wrapped wrapped) inductionHypothesis

/-- Every callback keeps what its parts keep. -/
theorem callback {event : ThreadEvent} (callback : event.callback = true)
    (holds : property session) :
    property (session.step params event) := kept.worked (.callback callback) holds

end Kept

end Session

/-- The client: its threads, what they share, and the detector calls they have made. -/
structure Client (layout : Layout) where
  tracker : MemoryTracker := {}
  threads : AList fun _ : ℕ => ShadowThreadState layout := ∅
  calls : List Event := []

/-- What happens to the client: a thread starts or ends, something happens on a thread, or the
controller writes to the control block. -/
inductive ClientEvent (layout : Layout)
  | threadInit (tid : ℕ) (memBuf : AlignedBuffer layout) (memory : ℕ → MemRef) (appstack : ℕ × ℕ)
  | threadExit (tid : ℕ)
  | thread (tid : ℕ) (event : ThreadEvent)
  | enableDetector (enabled : Bool)
  | setSamplingrate (rate : ℕ)

namespace Client

variable {layout : Layout} (params : RuntimeConfig)

/-- The session of a thread with this data. -/
def session (client : Client layout) (data : ShadowThreadState layout) : Session layout :=
  ⟨client.tracker, data, client.calls⟩

/-- The client after a thread has worked on its session. -/
def withSession (client : Client layout) (tid : ℕ) (session : Session layout) : Client layout :=
  { tracker := session.tracker
    threads := client.threads.insert tid session.data
    calls := session.calls }

/-- One event of the client; an event on a thread that does not exist is undefined. -/
def call (client : Client layout) : ClientEvent layout → Option (Client layout × Unit)
  | .threadInit tid memBuf memory appstack =>
    let session := Session.eventThreadInit params client.tracker tid memBuf memory appstack
    some ({ client with threads := client.threads.insert tid session.data }, ())
  | .threadExit tid =>
    (client.threads.lookup tid).map fun data =>
      let session := (client.session data).processBuffer params
      let session := session.detector (.join params.runtimeTid data.tid)
      ({ tracker := session.tracker, threads := client.threads.erase tid, calls := session.calls },
        ())
  | .thread tid event =>
    (client.threads.lookup tid).map fun data =>
      (client.withSession tid ((client.session data).step params event), ())
  | .enableDetector enabled =>
    some ({ client with tracker := { client.tracker with extEnabled := enabled } }, ())
  | .setSamplingrate rate =>
    some ({ client with tracker := { client.tracker with extSamplingRate := rate % 0x100000000 } },
      ())

/-- The client as a machine. -/
def machine (start : Client layout → Prop) : Machine (Client layout) (ClientEvent layout) Unit where
  start := start
  call := call params

end Client

/-- A step of the client with the states around it. -/
abbrev ClientStep (layout : Layout) := Machine.Step (Client layout) (ClientEvent layout) Unit

namespace Client

variable {layout : Layout} (params : RuntimeConfig)

/-- A client without threads. -/
def Fresh (client : Client layout) : Prop := client.threads = ∅

theorem fresh_mk (tracker : MemoryTracker) : Fresh ({ tracker := tracker } : Client layout) := rfl

/-- The steps of a list of events of the client and the client they lead to; empty if one of the
events is undefined. -/
def ran (start : Client layout → Prop) (client : Client layout)
    (events : List (ClientEvent layout)) :
    List (ClientStep layout) × Client layout :=
  ((machine params start).replay client events).getD ([], client)

/-- Executing events is a run. -/
theorem reaches_ran {start : Client layout → Prop} {client : Client layout} (begins : start client)
    (events : List (ClientEvent layout)) :
    (machine params start).Reaches (ran params start client events).1
    (ran params start client events).2 :=
  Machine.reaches_ran begins events

/-- What holds of a thread's new data and of all others holds of all threads. -/
theorem forall_insert {threads : AList fun _ : ℕ => ShadowThreadState layout} {tid : ℕ}
    {data : ShadowThreadState layout} {property : ℕ → ShadowThreadState layout → Prop}
    (others : ∀ other ≠ tid, ∀ found ∈ threads.lookup other, property other found)
    (one : property tid data) :
    ∀ other, ∀ found ∈ (threads.insert tid data).lookup other, property other found := by
  intro other found member
  by_cases here : other = tid
  · subst here
    rw [AList.lookup_insert] at member
    exact Option.some.inj member ▸ one
  · rw [AList.lookup_insert_ne here] at member
    exact others other here found member

end Client

end Drace
