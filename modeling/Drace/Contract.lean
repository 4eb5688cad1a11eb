/-
This file says what the interface of a detector asks of its caller, and that the client
keeps to it.

A thread is announced under a handle that is free, makes calls with this handle until it
is joined or finishes, and leaves only functions that it has entered. The client
announces a thread when it is analyzed for the first time, and joins it after its last
flush. So as long as a thread is analyzed before its first callback that does not
flush, the client keeps to the interface, whatever its threads do and however they are
interleaved. The functions it tells of a thread end with the frames of its shadow stack.
-/

import Drace.CallPath
import Drace.Forward

namespace Drace

open Session Machine

/-! ### The contract -/

/-- The functions that each announced thread is in, by its handle. -/
structure Contract where
  paths : ℕ → Option (List ℕ) := fun _ => none

namespace Contract

/-- A thread is in these functions now, or has ended. -/
def set (contract : Contract) (tls : ℕ) (path : Option (List ℕ)) : Contract :=
  { paths := Function.update contract.paths tls path }

/-- A call that keeps to the interface. -/
def call (handle : ℕ → ℕ) (contract : Contract) : Event → Option (Contract × Unit)
  | .fork _ child =>
    if contract.paths (handle child) = none then
      some (contract.set (handle child) (some []), ())
    else none
  | .join _ child =>
    if contract.paths (handle child) = none then none
    else some (contract.set (handle child) none, ())
  | .finish tls threadId =>
    if tls = handle threadId ∧ contract.paths tls ≠ none then some (contract.set tls none, ())
    else none
  | .funcEnter tls pc =>
    (contract.paths tls).map fun path => (contract.set tls (some (path ++ [pc])), ())
  | .funcExit tls => (contract.paths tls).bind fun path =>
    if path = [] then none else some (contract.set tls (some path.dropLast), ())
  | .read tls .. | .write tls .. | .acquire tls .. | .release tls .. | .happensBefore tls _
  | .happensAfter tls _ | .allocate tls .. | .deallocate tls _ | .detach tls _ =>
    if contract.paths tls = none then none else some (contract, ())
  | .mapShadow .. => some (contract, ())
  | .finalize => some ({}, ())

/-- The contract as a machine. At the start no thread is announced. -/
def machine (handle : ℕ → ℕ) : Machine Contract Event Unit where
  start contract := contract = {}
  call := call handle

variable {contract later : Contract} {tls other : ℕ} {path : Option (List ℕ)} {frames : List ℕ}

@[simp]
theorem paths_set_self : (contract.set tls path).paths tls = path :=
  Function.update_self _ _ _

theorem paths_set_of_ne (differs : other ≠ tls) :
    (contract.set tls path).paths other = contract.paths other :=
  Function.update_of_ne differs _ _

/-- A thread that goes into or out of a function stays announced. -/
theorem set_some_iff (contract : Contract) (announced : contract.paths tls ≠ none)
    {path : List ℕ} (other : ℕ) :
    (contract.set tls (some path)).paths other ≠ none ↔ contract.paths other ≠ none := by
  by_cases same : other = tls
  · rw [same, paths_set_self]
    exact iff_of_true (Option.some_ne_none path) announced
  · rw [paths_set_of_ne same]

/-- The thread is announced, and the functions it is in end with these frames. -/
def Knows (contract : Contract) (tls : ℕ) (frames : List ℕ) : Prop :=
  ∃ path, contract.paths tls = some path ∧ frames.reverse <:+ path

theorem Knows.announced (knows : contract.Knows tls frames) : contract.paths tls ≠ none := by
  obtain ⟨path, found, -⟩ := knows
  rw [found]
  exact Option.some_ne_none path

end Contract

/-! ### One thread -/

variable {layout : Layout} {params : RuntimeConfig} {session next last : Session layout}
  {contract later : Contract} {call : Event} {tid : ℕ}

/-- The call ends no thread. -/
def Event.lasting : Event → Bool
  | .join .. | .finish .. | .finalize => false
  | _ => true

/-- A call of an announced thread that does not end it, and neither enters nor leaves a function,
changes nothing. -/
theorem Contract.call_of_announced {handle : ℕ → ℕ} {tls : ℕ}
    (announced : contract.paths tls ≠ none) (own : call.tls? = some tls)
    (lasting : call.lasting = true) (still : call.still = true) :
    contract.call handle call = some (contract, ()) := by
  cases call with
  | funcEnter | funcExit => cases still
  | finish => cases lasting
  | fork | join | mapShadow | finalize => cases own
  | _ =>
    obtain rfl := Option.some.inj own
    exact if_neg announced

/-- The callbacks that call the detector without a flush. -/
def ThreadEvent.direct : ThreadEvent → Bool
  | .mutexLock .. | .threadStart _ | .barrierEnter _ | .barrierLeave .. | .barrierLeaveOrCancel ..
  | .happensBefore .. | .happensAfter .. | .allocPost .. => true
  | _ => false

theorem calls_handleExtState : (session.handleExtState params).calls = session.calls := by
  rw [handleExtState_eq]
  unfold noticeRate noticeState
  split
  · split <;> split <;> first | rfl | (split <;> rfl)
  · rfl

/-- The call neither ends nor detaches a thread. -/
def Event.ongoing : Event → Bool
  | .detach .. => false
  | call => call.lasting

theorem Event.lasting_of_ongoing (ongoing : call.ongoing = true) : call.lasting = true := by
  cases call with
  | detach => cases ongoing
  | _ => exact ongoing

/-- A call that comes with the handle it is given, neither ends nor detaches the thread, and neither
enters nor leaves a function. -/
structure Steady (call : ℕ → Event) : Prop where
  own : ∀ handle, (call handle).tls? = some handle
  ongoing : ∀ handle, (call handle).ongoing = true
  still : ∀ handle, (call handle).still = true

/-- The calls of a session have kept to the contract, and the thread is announced if the session
has its handle. -/
structure Fed (params : RuntimeConfig) (tid : ℕ) (contract : Contract) (session : Session layout) :
    Prop where
  accepts : (Contract.machine params.forkHandle).Accepts {} session.calls contract
  own : session.data.tid = tid
  known : (session.data.detectorData = 0 ∧ session.data.stack.frames = []) ∧
      contract.paths (params.forkHandle tid) = none ∨
    session.data.detectorData = params.forkHandle tid ∧
      contract.Knows (params.forkHandle tid) session.data.stack.frames

/-- The call announces no other thread, ends no thread, and releases no mutex for another one. -/
def Event.Gentle (handle : ℕ → ℕ) (tid : ℕ) : Event → Prop
  | .fork _ child => child = tid
  | .release own .. => own = handle tid
  | .join .. | .detach .. | .finish .. | .mapShadow .. | .finalize => False
  | _ => True

/-- The calls made between two sessions are gentle to the other threads. -/
def Gently (params : RuntimeConfig) (tid : ℕ) (session next : Session layout) : Prop :=
  ∃ new, next.calls = session.calls ++ new ∧ ∀ call ∈ new, call.Gentle params.forkHandle tid

/-- What a thread does on its session keeps to the contract, and concerns no other thread. -/
def Feeds (params : RuntimeConfig) (tid : ℕ) (session next : Session layout) : Prop :=
  ∀ contract, Fed params tid contract session → (∃ later, Fed params tid later next ∧
    ∀ other ≠ params.forkHandle tid, later.paths other = contract.paths other) ∧
      Gently params tid session next

theorem Gently.trans (first : Gently params tid session next)
    (second : Gently params tid next last) : Gently params tid session last := by
  obtain ⟨new, added, gently⟩ := first
  obtain ⟨more, addedMore, gentleMore⟩ := second
  refine ⟨new ++ more, by rw [addedMore, added, List.append_assoc], ?_⟩
  exact List.forall_mem_append.mpr ⟨gently, gentleMore⟩

/-- An announced thread is known under its handle. -/
theorem Fed.knows (fed : Fed params tid contract session)
    (announced : session.data.detectorData ≠ 0) :
    session.data.detectorData = params.forkHandle tid ∧
      contract.Knows (params.forkHandle tid) session.data.stack.frames :=
  fed.known.resolve_left fun unknown => announced unknown.1.1

namespace Feeds

theorem refl (session : Session layout) : Feeds params tid session session :=
  fun contract fed => ⟨⟨contract, fed, fun _ _ => rfl⟩, [], (List.append_nil _).symm,
    fun _ made => absurd made List.not_mem_nil⟩

theorem trans (first : Feeds params tid session next) (second : Feeds params tid next last) :
    Feeds params tid session last := by
  intro contract fed
  obtain ⟨⟨middle, fedMiddle, keeps⟩, gently⟩ := first contract fed
  obtain ⟨⟨later, fedLater, keepsOn⟩, gentlyOn⟩ := second middle fedMiddle
  exact ⟨⟨later, fedLater, fun other differs =>
    (keepsOn other differs).trans (keeps other differs)⟩, gently.trans gentlyOn⟩

/-- Changes of the data that concern none of this. -/
theorem same (calls : next.calls = session.calls) (stack : next.data.stack = session.data.stack)
    (tids : next.data.tid = session.data.tid)
    (handle : next.data.detectorData = session.data.detectorData) :
    Feeds params tid session next := by
  intro contract fed
  refine ⟨⟨contract, ⟨calls ▸ fed.accepts, tids.trans fed.own, ?_⟩, fun _ _ => rfl⟩,
    [], by rw [calls, List.append_nil], fun _ made => absurd made List.not_mem_nil⟩
  rw [handle, stack]
  exact fed.known

/-- A call of an announced thread that neither enters nor leaves a function. -/
theorem detector (announced : session.data.detectorData ≠ 0)
    (own : call.tls? = some session.data.detectorData) (ongoing : call.ongoing = true)
    (still : call.still = true) : Feeds params tid session (session.detector call) := by
  intro contract fed
  obtain ⟨handle, knows⟩ := fed.knows announced
  rw [handle] at own
  have defined : (Contract.machine params.forkHandle).call contract call = some (contract, ()) :=
    Contract.call_of_announced knows.announced own (Event.lasting_of_ongoing ongoing) still
  refine ⟨⟨contract, ⟨fed.accepts.append (.single defined), fed.own, fed.known⟩, fun _ _ => rfl⟩,
    [call], rfl, List.forall_mem_singleton.mpr ?_⟩
  cases call with
  | release tls => exact Option.some.inj own
  | fork | join | mapShadow | finalize => cases own
  | detach | finish => cases ongoing
  | _ => trivial

/-- Calls of an announced thread that neither enter nor leave a function. -/
theorem detectorAll {new : List Event} (announced : session.data.detectorData ≠ 0)
    (fine : ∀ call ∈ new, call.tls? = some session.data.detectorData ∧
      call.ongoing = true ∧ call.still = true) :
    Feeds params tid session { session with calls := session.calls ++ new } := by
  induction new using List.reverseRecOn with
  | nil => exact .same (List.append_nil _) rfl rfl rfl
  | append_singleton new call inductionHypothesis =>
    obtain ⟨before, last⟩ := List.forall_mem_append.mp fine
    obtain ⟨own, ongoing, still⟩ := last call (List.mem_singleton_self _)
    let middle : Session layout := { session with calls := session.calls ++ new }
    have one : Feeds params tid middle (middle.detector call) :=
      detector announced own ongoing still
    have fed := (inductionHypothesis before).trans one
    rw [Session.detector, List.append_assoc] at fed
    exact fed

end Feeds

section Thread

variable (nonzero : params.forkHandle tid ≠ 0)

include nonzero

/-- A thread is announced when it is analyzed for the first time. -/
theorem feeds_lazyInit : Feeds params tid session (session.lazyInit params) := by
  unfold lazyInit
  split
  · next unknown =>
    intro contract fed
    obtain ⟨⟨-, empty⟩, free⟩ :=
      fed.known.resolve_right fun known => nonzero (known.1.symm.trans unknown)
    obtain rfl := fed.own
    let handle := params.forkHandle session.data.tid
    let announced := contract.set handle (some [])
    have forks : (Contract.machine params.forkHandle).call contract
        (.fork params.runtimeTid session.data.tid) = some (announced, ()) := if_pos free
    have knows : announced.Knows handle [] := ⟨[], Contract.paths_set_self, List.nil_suffix⟩
    have waits : (Contract.machine params.forkHandle).call announced
        (.happensAfter handle session.data.tid) = some (announced, ()) :=
      if_neg knows.announced
    have first : (Contract.machine params.forkHandle).Accepts contract
        [.fork params.runtimeTid session.data.tid] announced := .single forks
    have second : (Contract.machine params.forkHandle).Accepts announced
        [.happensAfter handle session.data.tid] announced := .single waits
    refine ⟨⟨announced, ⟨(fed.accepts.append first).append second, rfl, Or.inr ⟨rfl, ?_⟩⟩,
      fun other => Contract.paths_set_of_ne⟩,
      [.fork params.runtimeTid session.data.tid, .happensAfter handle session.data.tid],
      List.append_assoc _ _ _,
      List.forall_mem_cons.mpr ⟨rfl, List.forall_mem_singleton.mpr trivial⟩⟩
    show announced.Knows handle session.data.stack.frames
    rw [empty]
    exact knows
  · exact .refl session

omit nonzero in
theorem feeds_checkExtState : Feeds params tid session (session.checkExtState params) := by
  unfold checkExtState
  split
  · exact .same calls_handleExtState analyzed_handleExtState.stack analyzed_handleExtState.tid
      detectorData_handleExtState
  · exact .refl session

omit nonzero in
theorem feeds_dumpBuffer (announced : session.data.detectorData ≠ 0) :
    Feeds params tid session (session.dumpBuffer params) := by
  unfold dumpBuffer
  split
  · let new := ((session.data.entries session.data.bufPtr).filter fun ref =>
      !session.data.filteredMemref params ref).map fun ref =>
        (ref.access session.data.detectorData).event
    have fine : ∀ call ∈ new, call.tls? = some session.data.detectorData ∧
        call.ongoing = true ∧ call.still = true := by
      simp only [new, List.forall_mem_map]
      intro ref _
      unfold Access.event
      split <;> exact ⟨rfl, rfl, rfl⟩
    exact (Feeds.detectorAll announced fine).trans (.same rfl rfl rfl rfl)
  · exact .refl session

omit nonzero in
/-- The handle of an analyzed thread. -/
theorem announced_analyzeAccess (fed : Fed params tid contract session) :
    (session.analyzeAccess params).data.detectorData = params.forkHandle tid := by
  rw [detectorData_analyzeAccess]
  split
  · rw [fed.own]
  · next known => exact (fed.knows known).1

theorem feeds_analyzeAccess : Feeds params tid session (session.analyzeAccess params) := by
  intro contract fed
  have announced : ((session.lazyInit params).checkExtState params).data.detectorData ≠ 0 := by
    have analyzed := announced_analyzeAccess fed
    have dumped : (((session.lazyInit params).checkExtState params).dumpBuffer
        params).data.detectorData =
          ((session.lazyInit params).checkExtState params).data.detectorData := by
      unfold dumpBuffer
      split <;> rfl
    rw [← dumped]
    exact fun unknown => nonzero (analyzed.symm.trans unknown)
  exact (((feeds_lazyInit nonzero).trans feeds_checkExtState).trans
    (feeds_dumpBuffer announced)) contract fed

theorem feeds_processBuffer : Feeds params tid session (session.processBuffer params) :=
  (feeds_analyzeAccess nonzero).trans (.same rfl rfl rfl rfl)

/-- A call after a flush comes with the handle of the thread. -/
theorem feeds_flush_detector {call : ℕ → Event} (steady : Steady call) :
    Feeds params tid session ((session.processBuffer params).detector
      (call (session.processBuffer params).data.detectorData)) := by
  intro contract fed
  have announced : (session.processBuffer params).data.detectorData ≠ 0 := by
    rw [show (session.processBuffer params).data.detectorData = params.forkHandle tid from
      announced_analyzeAccess fed]
    exact nonzero
  exact ((feeds_processBuffer nonzero).trans
    (.detector announced (steady.own _) (steady.ongoing _) (steady.still _))) contract fed

/-! ### Function calls -/

omit nonzero in
/-- A frame is pushed on the stack, and a function is entered. -/
theorem feeds_pushStack (announced : session.data.detectorData ≠ 0) (callIns : ℕ) :
    Feeds params tid session (session.pushStack callIns) := by
  unfold pushStack
  split
  · next room =>
    intro contract fed
    obtain ⟨handle, path, found, older, ends⟩ := fed.knows announced
    let entered := contract.set (params.forkHandle tid) (some (path ++ [callIns]))
    have defined : (Contract.machine params.forkHandle).call contract
        (.funcEnter session.data.detectorData callIns) = some (entered, ()) := by
      show (contract.paths _).map _ = _
      rw [handle, found]
      rfl
    have pushed : (session.data.stack.push callIns).frames =
        callIns :: session.data.stack.frames := by
      rw [ShadowStack.push, dif_pos room]
    refine ⟨⟨entered, ⟨fed.accepts.append (.single defined), fed.own,
      Or.inr ⟨handle, _, Contract.paths_set_self, older, ?_⟩⟩,
      fun other => Contract.paths_set_of_ne⟩, [_], rfl, List.forall_mem_singleton.mpr trivial⟩
    show older ++ (session.data.stack.push callIns).frames.reverse = _
    rw [pushed, List.reverse_cons, ← ends, List.append_assoc]
  · exact .refl session

omit nonzero in
/-- A frame is popped from the stack, and a function is left. -/
theorem feeds_pop (announced : session.data.detectorData ≠ 0) {stack : ShadowStack} {top : ℕ}
    (frames : session.data.stack.frames = top :: stack.frames) :
    Feeds params tid session { session with
      data := { session.data with stack := stack }
      calls := session.calls ++ [.funcExit session.data.detectorData] } := by
  intro contract fed
  obtain ⟨handle, path, found, older, ends⟩ := fed.knows announced
  rw [frames, List.reverse_cons, ← List.append_assoc] at ends
  let left := contract.set (params.forkHandle tid) (some path.dropLast)
  have defined : (Contract.machine params.forkHandle).call contract
      (.funcExit session.data.detectorData) = some (left, ()) := by
    show (contract.paths _).bind _ = _
    rw [handle, found, Option.bind_some, if_neg (ends ▸ List.concat_ne_nil _ _)]
  refine ⟨⟨left, ⟨fed.accepts.append (.single defined), fed.own,
    Or.inr ⟨handle, _, Contract.paths_set_self, older, ?_⟩⟩,
    fun other => Contract.paths_set_of_ne⟩, [_], rfl, List.forall_mem_singleton.mpr trivial⟩
  rw [← ends, List.dropLast_concat]

omit nonzero in
/-- Frames are popped from the stack, as long as there are any. -/
theorem feeds_pops (announced : session.data.detectorData ≠ 0) (count : ℕ)
    (few : count ≤ session.data.stack.frames.length) (stack : ShadowStack)
    (left : stack.frames = session.data.stack.frames.drop count) :
    Feeds params tid session { session with
      data := { session.data with stack := stack }
      calls := session.calls ++ List.replicate count (.funcExit session.data.detectorData) } := by
  induction count generalizing stack with
  | zero =>
    rw [List.replicate_zero, List.append_nil]
    intro contract fed
    have whole : stack.frames = session.data.stack.frames := left
    refine ⟨⟨contract, ⟨fed.accepts, fed.own, ?_⟩, fun _ _ => rfl⟩, [],
      (List.append_nil _).symm, fun _ made => absurd made List.not_mem_nil⟩
    rw [whole]
    exact fed.known
  | succ count inductionHypothesis =>
    have inside : count < session.data.stack.frames.length := few
    let middle : ShadowStack := ⟨session.data.stack.frames.drop count, by
      rw [List.length_drop]
      exact (Nat.sub_le _ _).trans session.data.stack.bounded⟩
    let between : Session layout := { session with
      data := { session.data with stack := middle }
      calls := session.calls ++ List.replicate count (.funcExit session.data.detectorData) }
    have popped : Feeds params tid session between := inductionHypothesis inside.le middle rfl
    have top : between.data.stack.frames = session.data.stack.frames[count] :: stack.frames :=
      (List.drop_eq_getElem_cons inside).trans (congrArg _ left.symm)
    have stillAnnounced : between.data.detectorData ≠ 0 := announced
    have last : Feeds params tid between { between with
        data := { between.data with stack := stack }
        calls := between.calls ++ [.funcExit between.data.detectorData] } :=
      feeds_pop stillAnnounced top
    rw [List.replicate_succ', ← List.append_assoc]
    exact popped.trans last

theorem feeds_onFuncRet (target : ℕ) :
    Feeds params tid session (session.onFuncRet params target) := by
  intro contract fed
  have announced : (session.analyzeAccess params).data.detectorData ≠ 0 := by
    rw [announced_analyzeAccess fed]
    exact nonzero
  obtain ⟨dropped, few⟩ := unwind_eq_drop layout target
    (session.analyzeAccess params).data.stack.frames
  exact ((feeds_analyzeAccess nonzero).trans
    (feeds_pops announced _ few _ dropped)) contract fed

omit nonzero in
theorem feeds_switchSampling (draw : ℕ) :
    Feeds params tid session (session.switchSampling draw) := by
  obtain ⟨position, same⟩ := session.switchSampling_eq draw
  rw [same]
  exact .same rfl rfl rfl rfl

theorem feeds_onFuncCall (callIns draw : ℕ) :
    Feeds params tid session (session.onFuncCall params callIns draw) := by
  intro contract fed
  have announced : ((session.analyzeAccess params).switchSampling draw).data.detectorData ≠ 0 := by
    obtain ⟨position, same⟩ := (session.analyzeAccess params).switchSampling_eq draw
    rw [same]
    show (session.analyzeAccess params).data.detectorData ≠ 0
    rw [announced_analyzeAccess fed]
    exact nonzero
  have decided : Feeds params tid session ((session.analyzeAccess params).switchSampling draw) :=
    (feeds_analyzeAccess nonzero).trans (feeds_switchSampling draw)
  refine Feeds.trans decided ?_ contract fed
  show Feeds params tid _ (Session.pushStack (if _ then _ else _) callIns)
  split
  · let disabled : Session layout := { (session.analyzeAccess params).switchSampling draw with
      data := ((session.analyzeAccess params).switchSampling draw).data.disable }
    have stillAnnounced : disabled.data.detectorData ≠ 0 := announced
    have kept : Feeds params tid ((session.analyzeAccess params).switchSampling draw) disabled :=
      .same rfl rfl rfl rfl
    exact kept.trans (feeds_pushStack stillAnnounced callIns)
  · exact feeds_pushStack announced callIns

theorem feeds_instrumentMemFast (ref : MemRef) :
    Feeds params tid session (session.instrumentMemFast params ref) := by
  unfold instrumentMemFast
  split
  · exact .refl session
  · have stored : Feeds params tid session { session with data := { session.data with
        memory := Function.update session.data.memory session.data.bufPtr ref
        bufPtr := (session.data.bufPtr + layout.sizeofMemRef) % layout.sizeRange } } :=
      .same rfl rfl rfl rfl
    simp only
    split
    · exact stored.trans (feeds_processBuffer nonzero)
    · exact stored

/-! ### Callbacks -/

omit nonzero in
theorem feeds_countMutex (mutex : ℕ) : Feeds params tid session (session.countMutex mutex).2 := by
  unfold countMutex addReplace
  simp only
  split <;> exact .same rfl rfl rfl rfl

omit nonzero in
theorem detectorData_countMutex (mutex : ℕ) :
    (session.countMutex mutex).2.data.detectorData = session.data.detectorData := by
  unfold countMutex addReplace
  simp only
  split <;> rfl

omit nonzero in
theorem feeds_uncountMutex (mutex count : ℕ) :
    Feeds params tid session (session.uncountMutex mutex count) := by
  unfold uncountMutex addReplace
  split <;> exact .same rfl rfl rfl rfl

omit nonzero in
/-- A mutex is counted and acquired. -/
theorem feeds_acquire (announced : session.data.detectorData ≠ 0) (mutex : ℕ) (recursive : ℤ)
    (write : Bool) : Feeds params tid session ((session.countMutex mutex).2.detector
      (.acquire (session.countMutex mutex).2.data.detectorData mutex recursive write)) :=
  (feeds_countMutex mutex).trans (.detector (by rwa [detectorData_countMutex])
    rfl rfl rfl)

omit nonzero in
theorem feeds_acquireAll (objects : List ℕ) (announced : session.data.detectorData ≠ 0) :
    Feeds params tid session (objects.foldl acquireObj session) := by
  induction objects generalizing session with
  | nil => exact .refl session
  | cons mutex rest inductionHypothesis =>
    have stillAnnounced : (session.acquireObj mutex).data.detectorData ≠ 0 := by
      show (session.countMutex mutex).2.data.detectorData ≠ 0
      rwa [detectorData_countMutex]
    exact (feeds_acquire announced mutex _ true).trans (inductionHypothesis stillAnnounced)

omit nonzero in
theorem feeds_prepareAndAquire (announced : session.data.detectorData ≠ 0) (wrapctx : Option ℕ)
    (mutex : ℕ) (write trylock : Bool) :
    Feeds params tid session (session.prepareAndAquire params wrapctx mutex write trylock) := by
  cases wrapctx with
  | none => exact .refl session
  | some retval =>
    unfold prepareAndAquire
    simp only
    split
    · exact .refl session
    · split
      · exact .refl session
      · exact feeds_acquire announced mutex _ write

theorem feeds_prepareAndRelease (wrapctx : Option ℕ) (write : Bool) :
    Feeds params tid session (session.prepareAndRelease params wrapctx write) := by
  cases wrapctx with
  | none => exact .refl session
  | some mutex =>
    unfold prepareAndRelease
    simp only
    split
    · exact .refl session
    · split
      · exact .refl session
      · have steady : Steady fun handle => .release handle mutex write :=
          ⟨fun _ => rfl, fun _ => rfl, fun _ => rfl⟩
        exact (feeds_uncountMutex mutex _).trans (feeds_flush_detector nonzero steady)

theorem feeds_waitForSingleObj (wrapctx : Option ℕ) (mutex : ℕ) :
    Feeds params tid session (session.waitForSingleObj params wrapctx mutex) := by
  cases wrapctx with
  | none => exact .refl session
  | some retval =>
    unfold waitForSingleObj
    simp only
    split
    · exact .refl session
    · split
      · exact .refl session
      · have steady : Steady fun handle => .acquire handle mutex
            (((session.countMutex mutex).1 : ℤ).bmod 0x100000000) true :=
          ⟨fun _ => rfl, fun _ => rfl, fun _ => rfl⟩
        exact (feeds_countMutex mutex).trans (feeds_flush_detector nonzero steady)

theorem feeds_waitForMultObj (wrapctx : Option ℕ) (objects : List ℕ) (waitall : Bool) :
    Feeds params tid session (session.waitForMultObj params wrapctx objects waitall) := by
  cases wrapctx with
  | none => exact .refl session
  | some retval =>
    intro contract fed
    have announced : (session.processBuffer params).data.detectorData ≠ 0 := by
      rw [show (session.processBuffer params).data.detectorData = params.forkHandle tid from
        announced_analyzeAccess fed]
      exact nonzero
    have flushed : Feeds params tid session (session.processBuffer params) :=
      feeds_processBuffer nonzero
    suffices
        Feeds params tid session (session.waitForMultObj params (some retval) objects waitall) from
      this contract fed
    unfold waitForMultObj
    simp only
    split
    · split
      · exact flushed.trans (feeds_acquireAll objects announced)
      · exact flushed
    · split
      · exact flushed.trans (feeds_acquire announced _ _ true)
      · exact flushed

/-- Every event of a thread keeps to the contract. -/
theorem feeds_step (event : ThreadEvent)
    (announced : event.direct = true → session.data.detectorData ≠ 0) :
    Feeds params tid session (session.step params event) := by
  have told : ∀ {call : Event}, event.direct = true →
      call.tls? = some session.data.detectorData → call.ongoing = true → call.still = true →
      Feeds params tid session (session.detector call) := fun direct own ongoing still =>
    .detector (announced direct) own ongoing still
  cases event with
  | record addr pc size write => exact feeds_instrumentMemFast nonzero _
  | processBuffer => exact feeds_processBuffer nonzero
  | analyzeAccess => exact feeds_analyzeAccess nonzero
  | switchSampling draw => exact feeds_switchSampling draw
  | handleExtState =>
    exact .same calls_handleExtState analyzed_handleExtState.stack analyzed_handleExtState.tid
      detectorData_handleExtState
  | disableScope => exact .same rfl rfl rfl rfl
  | enableScope =>
    have handle : session.endExclRegion.data.detectorData = session.data.detectorData := by
      show (if _ then _ else _ : ShadowThreadState layout).detectorData = _
      split <;> rfl
    exact .same rfl analyzed_endExclRegion.stack analyzed_endExclRegion.tid handle
  | funcCall callIns draw => exact feeds_onFuncCall nonzero callIns draw
  | funcRet target => exact feeds_onFuncRet nonzero target
  | mutexLock wrapctx mutex write trylock =>
    exact feeds_prepareAndAquire (announced rfl) wrapctx mutex write trylock
  | mutexUnlock wrapctx write => exact feeds_prepareAndRelease nonzero wrapctx write
  | waitForSingleObj wrapctx mutex =>
    exact feeds_waitForSingleObj nonzero wrapctx mutex
  | waitForMultObj wrapctx objects waitall =>
    exact feeds_waitForMultObj nonzero wrapctx objects waitall
  | threadStart threadid =>
    show Feeds params tid session (if _ then _ else _)
    split
    · exact told rfl rfl rfl rfl
    · exact .refl session
  | barrierEnter addr => exact told rfl rfl rfl rfl
  | barrierLeave wrapctx addr =>
    cases wrapctx with
    | none => exact .refl session
    | some _ => exact told rfl rfl rfl rfl
  | barrierLeaveOrCancel wrapctx addr =>
    cases wrapctx with
    | none => exact .refl session
    | some passed =>
      show Feeds params tid session (if _ then _ else _)
      split
      · exact told rfl rfl rfl rfl
      · exact .refl session
  | happensBefore wrapctx identifier =>
    cases wrapctx with
    | none => exact .refl session
    | some _ => exact told rfl rfl rfl rfl
  | happensAfter wrapctx identifier =>
    cases wrapctx with
    | none => exact .refl session
    | some _ => exact told rfl rfl rfl rfl
  | allocPost pc retval size =>
    show Feeds params tid session (if _ then _ else _)
    split
    · exact told rfl rfl rfl rfl
    · exact .refl session
  | reallocPre oldAddr =>
    have steady : Steady fun handle => .deallocate handle oldAddr :=
      ⟨fun _ => rfl, fun _ => rfl, fun _ => rfl⟩
    exact feeds_flush_detector nonzero steady
  | freePre addr =>
    have steady : Steady fun handle => .deallocate handle addr :=
      ⟨fun _ => rfl, fun _ => rfl, fun _ => rfl⟩
    exact feeds_flush_detector nonzero steady

end Thread

/-! ### The client -/

/-- The handles of threads are not null, and different threads have different ones. -/
structure Handles (params : RuntimeConfig) (valid : ℕ → Prop) : Prop where
  nonzero : ∀ tid, valid tid → params.forkHandle tid ≠ 0
  injective : ∀ first second, valid first → valid second →
    params.forkHandle first = params.forkHandle second → first = second

namespace Client

variable {steps : List (ClientStep layout)} {client next : Client layout} {valid : ℕ → Prop}

/-- The client is launched: it has no threads and has made no calls. -/
def Launched (client : Client layout) : Prop := client.threads = ∅ ∧ client.calls = []

/-- A thread starts under a tid that no thread has, and is announced before its first callback that
calls the detector without a flush. -/
def Prompt (valid : ℕ → Prop) (step : ClientStep layout) : Prop :=
  match step.event with
  | .threadInit tid .. => valid tid ∧ tid ∉ step.pre.threads
  | .thread tid event =>
    event.direct = true → ∀ data ∈ step.pre.threads.lookup tid, data.detectorData ≠ 0
  | _ => True

instance [DecidablePred valid] : (step : ClientStep layout) → Decidable (Prompt valid step)
  | ⟨_, .threadInit .., _, _⟩ => inferInstanceAs (Decidable (_ ∧ _))
  | ⟨_, .thread .., _, _⟩ => inferInstanceAs (Decidable (_ → ∀ _ ∈ _, _))
  | ⟨_, .threadExit .., _, _⟩ | ⟨_, .enableDetector .., _, _⟩ | ⟨_, .setSamplingrate .., _, _⟩ =>
    .isTrue trivial

/-- The calls of the client have kept to the contract, and just the threads that have a handle are
announced. -/
structure Served (params : RuntimeConfig) (valid : ℕ → Prop) (client : Client layout)
    (contract : Contract) : Prop where
  accepts : (Contract.machine params.forkHandle).Accepts {} client.calls contract
  threads : ∀ tid, ∀ data ∈ client.threads.lookup tid, valid tid ∧ data.tid = tid ∧
    ((data.detectorData = 0 ∧ data.stack.frames = []) ∧
        contract.paths (params.forkHandle tid) = none ∨
      data.detectorData = params.forkHandle tid ∧
        contract.Knows (params.forkHandle tid) data.stack.frames)
  free : ∀ tid, valid tid → tid ∉ client.threads → contract.paths (params.forkHandle tid) = none

namespace Served

variable {data : ShadowThreadState layout}

/-- The session of a thread. -/
theorem fed (served : Served params valid client contract)
    (found : client.threads.lookup tid = some data) :
    Fed params tid contract (client.session data) :=
  have ⟨_, own, known⟩ := served.threads tid data found
  ⟨served.accepts, own, known⟩

/-- A thread works on its session. -/
theorem work (handles : Handles params valid) (served : Served params valid client contract)
    (found : client.threads.lookup tid = some data) {worked : Session layout}
    (feeds : Feeds params tid (client.session data) worked) :
    ∃ later, Served params valid (client.withSession tid worked) later := by
  obtain ⟨⟨later, fed, keeps⟩, -⟩ := feeds contract (served.fed found)
  obtain ⟨fits, -, -⟩ := served.threads tid data found
  have apart : ∀ other, valid other → other ≠ tid →
      later.paths (params.forkHandle other) = contract.paths (params.forkHandle other) :=
    fun other otherFits differs => keeps _ (mt (handles.injective other tid otherFits fits) differs)
  refine ⟨later, fed.accepts, forall_insert (fun other differs otherData member => ?_)
    ⟨fits, fed.own, fed.known⟩, fun other otherFits absent => ?_⟩
  · obtain ⟨otherFits, own, known⟩ := served.threads other otherData member
    rw [Contract.Knows, apart other otherFits differs]
    exact ⟨otherFits, own, known⟩
  · have differs : other ≠ tid := by
      rintro rfl
      exact absent ((AList.mem_insert _).mpr (Or.inl rfl))
    rw [apart other otherFits differs]
    exact served.free other otherFits fun member =>
      absent ((AList.mem_insert _).mpr (Or.inr member))

/-- A thread flushes its buffer and is joined, and nothing changes for the others. -/
theorem exit (handles : Handles params valid) (served : Served params valid client contract)
    (found : client.threads.lookup tid = some data) (parent : ℕ) :
    ∃ later, Served params valid { client with
      tracker := ((client.session data).processBuffer params).tracker
      threads := client.threads.erase tid
      calls := ((client.session data).processBuffer params).calls ++ [.join parent tid] }
        later := by
  obtain ⟨fits, -, -⟩ := served.threads tid data found
  have nonzero := handles.nonzero tid fits
  have fed := served.fed found
  obtain ⟨⟨middle, flushed, keeps⟩, -⟩ := feeds_processBuffer nonzero contract fed
  have handle : ((client.session data).processBuffer params).data.detectorData =
      params.forkHandle tid := announced_analyzeAccess fed
  obtain ⟨-, knows⟩ := flushed.knows (handle ▸ nonzero)
  let later := middle.set (params.forkHandle tid) none
  have joined : (Contract.machine params.forkHandle).call middle (.join parent tid) =
      some (later, ()) := if_neg knows.announced
  have apart : ∀ other, valid other → other ≠ tid →
      later.paths (params.forkHandle other) = contract.paths (params.forkHandle other) := by
    intro other otherFits differs
    have handlesDiffer := mt (handles.injective other tid otherFits fits) differs
    rw [Contract.paths_set_of_ne handlesDiffer, keeps _ handlesDiffer]
  refine ⟨later, flushed.accepts.append (.single joined), fun other otherData member => ?_,
    fun other otherFits absent => ?_⟩
  · have differs : other ≠ tid := by
      rintro rfl
      rw [AList.lookup_erase] at member
      cases member
    rw [AList.lookup_erase_ne differs] at member
    obtain ⟨otherFits, own, known⟩ := served.threads other otherData member
    rw [Contract.Knows, apart other otherFits differs]
    exact ⟨otherFits, own, known⟩
  · by_cases same : other = tid
    · rw [same]
      exact Contract.paths_set_self
    · rw [apart other otherFits same]
      exact served.free other otherFits fun member => absent (AList.mem_erase.mpr ⟨same, member⟩)

end Served

/-- Every event of the client keeps to the contract. -/
theorem served_call (handles : Handles params valid) {event : ClientEvent layout} {output : Unit}
    (defined : client.call params event = some (next, output))
    (prompt : Prompt valid (⟨client, event, next, output⟩ : ClientStep layout))
    (served : Served params valid client contract) :
    ∃ later, Served params valid next later := by
  cases event with
  | threadInit tid memBuf memory appstack =>
    obtain ⟨rfl, -⟩ := Prod.mk.inj (Option.some.inj defined)
    obtain ⟨fits, absent⟩ := prompt
    have free := served.free tid fits absent
    refine ⟨contract, served.accepts, forall_insert (fun other _ => served.threads other)
      ⟨fits, ?_⟩, fun other otherFits missing => served.free other otherFits fun member =>
        missing ((AList.mem_insert _).mpr (Or.inr member))⟩
    unfold eventThreadInit
    simp only
    split <;> split <;> exact ⟨rfl, Or.inl ⟨⟨rfl, rfl⟩, free⟩⟩
  | threadExit tid =>
    obtain ⟨data, found, same⟩ := Option.map_eq_some_iff.mp defined
    obtain ⟨rfl, -⟩ := Prod.mk.inj same
    obtain ⟨-, own, -⟩ := served.threads tid data found
    subst own
    exact served.exit handles found params.runtimeTid
  | thread tid event =>
    obtain ⟨data, found, same⟩ := Option.map_eq_some_iff.mp defined
    obtain ⟨rfl, -⟩ := Prod.mk.inj same
    obtain ⟨fits, -, -⟩ := served.threads tid data found
    exact served.work handles found
      (feeds_step (handles.nonzero tid fits) event fun direct => prompt direct data found)
  | enableDetector enabled =>
    obtain ⟨rfl, -⟩ := Prod.mk.inj (Option.some.inj defined)
    exact ⟨contract, served.accepts, served.threads, served.free⟩
  | setSamplingrate rate =>
    obtain ⟨rfl, -⟩ := Prod.mk.inj (Option.some.inj defined)
    exact ⟨contract, served.accepts, served.threads, served.free⟩

/-- A client that has just been launched has kept to the contract. -/
theorem served_of_launched (launched : Launched client) : Served params valid client {} := by
  refine ⟨launched.2 ▸ .nil, fun tid data member => ?_, fun _ _ _ => rfl⟩
  rw [launched.1] at member
  cases member

/-- The client keeps to the contract, however its threads are interleaved. -/
theorem served_of_reaches (handles : Handles params valid)
    (reaches : (machine params Launched).Reaches steps client)
    (prompt : Always (fun _ step => Prompt valid step) steps) :
    ∃ contract, Served params valid client contract := by
  refine Machine.Reaches.induct
    (fun _ client => ∃ contract, Served params valid client contract) ?_ ?_ reaches prompt
  · exact fun client launched => ⟨{}, served_of_launched launched⟩
  · rintro past before event next output - defined prompt ⟨contract, served⟩
    exact served_call handles defined prompt served

end Client

end Drace
