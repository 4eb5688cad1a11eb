/-
This file says when references are delivered in time.

A release of a mutex, an annotated happens-before, the entry of a barrier and the
start of a thread end an epoch of their thread. The references recorded before
should be handed over by then. Only the release flushes the buffer, and a flush
hands nothing over while the detector is disabled. So the references are in time
where nothing is pending at the other three, and where the detector is enabled at
a release or nothing is pending.
-/

import Drace.Delivery
import Drace.Scopes

namespace Drace

open Session Machine

variable {layout : Layout} {params : RuntimeConfig} {session next last : Session layout}
  {past front : List (ThreadStep layout)} {step : ThreadStep layout} {base : List Access} {tls : ℕ}
  {refs : List MemRef}

/-- The calls that end an epoch of their thread. -/
def Event.outgoing : Event → Bool
  | .release .. | .happensBefore .. => true
  | _ => false

theorem Event.outgoing_of_tracking {call : Event} (tracking : call.tracking = true) :
    call.outgoing = false := by
  cases call with
  | release => cases tracking
  | happensBefore => cases tracking
  | _ => rfl

/-! ### Calls that end no epoch -/

namespace Session

/-- The calls made between two sessions end no epoch. -/
def Inward (session next : Session layout) : Prop :=
  ∃ new, next.calls = session.calls ++ new ∧ ∀ call ∈ new, call.outgoing = false

namespace Inward

theorem same (calls : next.calls = session.calls) : session.Inward next :=
  ⟨[], by rw [calls, List.append_nil], by simp⟩

theorem trans (first : session.Inward next) (second : next.Inward last) : session.Inward last := by
  obtain ⟨new, added, inward⟩ := first
  obtain ⟨more, addedMore, inwardMore⟩ := second
  refine ⟨new ++ more, by rw [addedMore, added, List.append_assoc], ?_⟩
  exact List.forall_mem_append.mpr ⟨inward, inwardMore⟩

theorem call {call : Event} (inward : call.outgoing = false) :
    session.Inward (session.detector call) :=
  ⟨[call], rfl, by simpa using inward⟩

end Inward

theorem Analyzed.inward (analyzed : session.Analyzed next) : session.Inward next := by
  obtain ⟨new, added, tracking⟩ := analyzed.calls
  exact ⟨new, added, fun call made => Event.outgoing_of_tracking (tracking call made)⟩

theorem inward_processBuffer : session.Inward (session.processBuffer params) :=
  analyzed_processBuffer.inward

theorem inward_instrumentMemFast (ref : MemRef) :
    session.Inward (session.instrumentMemFast params ref) := by
  unfold instrumentMemFast
  split
  · exact .same rfl
  · simp only
    split
    · exact inward_processBuffer
    · exact .same rfl

theorem inward_switchSampling (draw : ℕ) : session.Inward (session.switchSampling draw) := by
  obtain ⟨position, same⟩ := session.switchSampling_eq draw
  rw [same]
  exact .same rfl

theorem inward_pushStack (addr : ℕ) : session.Inward (session.pushStack addr) := by
  unfold pushStack
  split
  · exact .call rfl
  · exact .same rfl

theorem inward_onFuncCall (callIns draw : ℕ) :
    session.Inward (session.onFuncCall params callIns draw) := by
  have decided : session.Inward ((session.analyzeAccess params).switchSampling draw) :=
    analyzed_analyzeAccess.inward.trans (inward_switchSampling draw)
  unfold onFuncCall
  simp only
  refine decided.trans ?_
  split
  · exact .trans (.same rfl) (inward_pushStack callIns)
  · exact inward_pushStack callIns

theorem inward_onFuncRet (target : ℕ) : session.Inward (session.onFuncRet params target) := by
  refine analyzed_analyzeAccess.inward.trans ⟨_, rfl, fun call made => ?_⟩
  rw [List.eq_of_mem_replicate made]
  rfl

theorem calls_countMutex (mutex : ℕ) : (session.countMutex mutex).2.calls = session.calls := by
  unfold countMutex addReplace
  simp only
  split <;> rfl

theorem calls_uncountMutex (mutex count : ℕ) :
    (session.uncountMutex mutex count).calls = session.calls := by
  unfold uncountMutex addReplace
  split <;> rfl

theorem inward_acquireObj (mutex : ℕ) : session.Inward (session.acquireObj mutex) :=
  .trans (.same (calls_countMutex mutex)) (.call rfl)

theorem inward_acquireAll (handles : List ℕ) :
    session.Inward (handles.foldl acquireObj session) := by
  induction handles generalizing session with
  | nil => exact .same rfl
  | cons mutex rest inductionHypothesis => exact (inward_acquireObj mutex).trans inductionHypothesis

theorem inward_prepareAndAquire (wrapctx : Option ℕ) (mutex : ℕ) (write trylock : Bool) :
    session.Inward (session.prepareAndAquire params wrapctx mutex write trylock) := by
  unfold prepareAndAquire
  cases wrapctx with
  | none => exact .same rfl
  | some retval =>
    simp only
    split
    · exact .same rfl
    · split
      · exact .same rfl
      · exact .trans (.same (calls_countMutex mutex)) (.call rfl)

theorem inward_waitForSingleObj (wrapctx : Option ℕ) (mutex : ℕ) :
    session.Inward (session.waitForSingleObj params wrapctx mutex) := by
  unfold waitForSingleObj
  cases wrapctx with
  | none => exact .same rfl
  | some retval =>
    simp only
    split
    · exact .same rfl
    · split
      · exact .same rfl
      · exact .trans (.same (calls_countMutex mutex)) (inward_processBuffer.trans (.call rfl))

theorem inward_waitForMultObj (wrapctx : Option ℕ) (handles : List ℕ) (waitall : Bool) :
    session.Inward (session.waitForMultObj params wrapctx handles waitall) := by
  unfold waitForMultObj
  cases wrapctx with
  | none => exact .same rfl
  | some retval =>
    simp only
    split
    · split
      · exact inward_processBuffer.trans (inward_acquireAll handles)
      · exact inward_processBuffer
    · split
      · exact inward_processBuffer.trans (inward_acquireObj _)
      · exact inward_processBuffer

end Session

/-! ### Calls that end an epoch -/

/-- The step calls the detector to end an epoch. -/
def endsEpoch (params : RuntimeConfig) (step : ThreadStep layout) : Bool :=
  match step.event with
  | .threadStart _ => params.windows
  | .barrierEnter _ => true
  | .happensBefore wrapctx _ => wrapctx.isSome
  | .mutexUnlock (some mutex) _ =>
    decide (¬ step.pre.Excluded params ∧ (step.pre.data.mutexBook.lookup mutex).getD 0 ≠ 0)
  | _ => false

/-- The callback flushes the buffer before it calls the detector. -/
def ThreadEvent.flushesFirst : ThreadEvent → Bool
  | .mutexUnlock .. => true
  | _ => false

/-- Where an epoch ends nothing is pending, or the callback flushes the buffer of an enabled
detector. -/
def FlushesInTime (params : RuntimeConfig) (step : ThreadStep layout) : Prop :=
  endsEpoch params step = true →
    step.event.flushesFirst = true ∧ step.pre.data.isEnabled = true ∨ step.pre.data.pending = []

instance (step : ThreadStep layout) : Decidable (FlushesInTime params step) :=
  inferInstanceAs (Decidable (_ → _ ∧ _ ∨ _))

/-- Nothing is pending where an epoch ends without a flush. -/
theorem FlushesInTime.pending_eq_nil {step : ThreadStep layout}
    (flushes : FlushesInTime params step)
    (ends : endsEpoch params step = true) (unflushed : step.event.flushesFirst = false) :
    step.pre.data.pending = [] := by
  refine (flushes ends).resolve_left fun flushed => ?_
  rw [unflushed] at flushed
  cases flushed.1

/-- What a step does to the calls: none that it makes ends an epoch, or its last one does, and then
all references of the account are handed over before. -/
def InTime (params : RuntimeConfig) (base : List Access) (tls : ℕ) (refs : List MemRef)
    (session next : Session layout) : Prop :=
  session.Inward next ∨ ∃ middle call, session.Inward middle ∧ next.calls = middle.calls ++ [call] ∧
    Balanced params base tls refs middle ∧ middle.data.pending = [] ∧ next.data = middle.data

/-- A call on a session without pending references is in time. -/
theorem inTime_detector (balanced : Balanced params base tls refs session) (call : Event)
    (pending : session.data.pending = []) :
    InTime params base tls refs session (session.detector call) :=
  Or.inr ⟨session, call, .same rfl, rfl, balanced, pending, rfl⟩

/-- A flush leaves nothing pending if the detector is enabled, or if nothing was pending. -/
theorem pending_processBuffer (balanced : Balanced params base tls refs session)
    (saves : session.data.isEnabled = true ∨ session.data.pending = []) :
    (session.processBuffer params).data.pending = [] := by
  show (session.analyzeAccess params).data.pending = []
  rcases balanced.saves_analyzeAccess saves with enabled | pending
  · rw [ShadowThreadState.pending_of_enabled enabled, balanced.entries_analyzeAccess]
  · exact pending

/-- A release is in time if its flush hands everything over. -/
theorem inTime_prepareAndRelease (balanced : Balanced params base tls refs session)
    (wrapctx : Option ℕ) (write : Bool)
    (flushes : ∀ mutex ∈ wrapctx, ¬ session.Excluded params →
      (session.data.mutexBook.lookup mutex).getD 0 ≠ 0 →
        session.data.isEnabled = true ∨ session.data.pending = []) :
    InTime params base tls refs session (session.prepareAndRelease params wrapctx write) := by
  unfold prepareAndRelease
  cases wrapctx with
  | none => exact Or.inl (.same rfl)
  | some mutex =>
    simp only
    split
    · exact Or.inl (.same rfl)
    · next tracked =>
      split
      · exact Or.inl (.same rfl)
      · next booked =>
        have counted := Balanced.kept.worked (.uncountMutex mutex
          ((session.data.mutexBook.lookup mutex).getD 0) .refl) balanced
        refine Or.inr ⟨_, _, ?_, rfl, counted.flush, ?_, rfl⟩
        · exact .trans (.same (calls_uncountMutex mutex _)) inward_processBuffer
        · refine pending_processBuffer counted ?_
          unfold uncountMutex addReplace
          split
          · exact flushes mutex rfl tracked booked
          · exact flushes mutex rfl tracked booked

/-- What a step that meets the conditions does to the calls. -/
theorem inTime_step (balanced : Balanced params base tls refs session) {made : ThreadStep layout}
    (pre : made.pre = session) (inner : made.event ≠ .handleExtState)
    (flushes : FlushesInTime params made) :
    InTime params base tls refs session (session.step params made.event) := by
  obtain ⟨_, event, post, output⟩ := made
  subst pre
  cases event with
  | record addr pc size write => exact Or.inl (inward_instrumentMemFast _)
  | processBuffer => exact Or.inl inward_processBuffer
  | analyzeAccess => exact Or.inl analyzed_analyzeAccess.inward
  | switchSampling draw => exact Or.inl (inward_switchSampling draw)
  | handleExtState => exact absurd rfl inner
  | disableScope => exact Or.inl analyzed_begExclRegion.inward
  | enableScope => exact Or.inl analyzed_endExclRegion.inward
  | funcCall callIns draw => exact Or.inl (inward_onFuncCall callIns draw)
  | funcRet target => exact Or.inl (inward_onFuncRet target)
  | mutexLock wrapctx mutex write trylock =>
    exact Or.inl (inward_prepareAndAquire wrapctx mutex write trylock)
  | mutexUnlock wrapctx write =>
    refine inTime_prepareAndRelease balanced wrapctx write ?_
    rintro mutex rfl tracked booked
    exact (flushes (decide_eq_true ⟨tracked, booked⟩)).imp_left And.right
  | waitForSingleObj wrapctx mutex => exact Or.inl (inward_waitForSingleObj wrapctx mutex)
  | waitForMultObj wrapctx handles waitall =>
    exact Or.inl (inward_waitForMultObj wrapctx handles waitall)
  | threadStart threadid =>
    show InTime params base tls refs _ (if _ then _ else _)
    split
    · next windows => exact inTime_detector balanced _ (flushes.pending_eq_nil windows rfl)
    · exact Or.inl (.same rfl)
  | barrierEnter addr =>
    exact inTime_detector balanced _ (flushes.pending_eq_nil rfl rfl)
  | barrierLeave wrapctx addr =>
    cases wrapctx with
    | none => exact Or.inl (.same rfl)
    | some _ => exact Or.inl (.call rfl)
  | barrierLeaveOrCancel wrapctx addr =>
    cases wrapctx with
    | none => exact Or.inl (.same rfl)
    | some passed =>
      show InTime params base tls refs _ (if _ then _ else _)
      split
      · exact Or.inl (.call rfl)
      · exact Or.inl (.same rfl)
  | happensBefore wrapctx identifier =>
    cases wrapctx with
    | none => exact Or.inl (.same rfl)
    | some _ =>
      exact inTime_detector balanced _ (flushes.pending_eq_nil rfl rfl)
  | happensAfter wrapctx identifier =>
    cases wrapctx with
    | none => exact Or.inl (.same rfl)
    | some _ => exact Or.inl (.call rfl)
  | allocPost pc retval size =>
    show InTime params base tls refs _ (if _ then _ else _)
    split
    · exact Or.inl (.call rfl)
    · exact Or.inl (.same rfl)
  | reallocPre oldAddr => exact Or.inl (inward_processBuffer.trans (.call rfl))
  | freePre addr => exact Or.inl (inward_processBuffer.trans (.call rfl))

/-- A thread whose pointers are the start of its buffer or null, and that has made no calls, has an
empty account. -/
theorem balanced_start (steady : session.tracker.Steady params) (calls : session.calls = [])
    (ends : session.data.bufEnd = layout.sizeRange - (session.data.memBuf.data + layout.memBufSize))
    (head : session.data.bufPtr = 0 ∨ session.data.bufPtr = session.data.memBuf.data)
    (stored : session.data.bufPtrStored = session.data.memBuf.data) :
    Balanced params [] 0 [] session := by
  have none : session.data.entries session.data.bufPtr = [] := by
    rcases head with null | start
    · rw [null, ShadowThreadState.entries_zero]
    · rw [start, ShadowThreadState.entries_start]
  have noneStored : session.data.entries session.data.bufPtrStored = [] := by
    rw [stored, ShadowThreadState.entries_start]
  have bounded : session.data.Bounded := by
    refine ⟨ends, ?_, stored ▸ ShadowThreadState.inBuffer_start⟩
    rcases head with null | start
    · exact Or.inl null
    · exact start ▸ ShadowThreadState.inBuffer_start
  refine ⟨steady, bounded, fun told => absurd rfl told, ?_, fun _ => ⟨rfl, none, noneStored⟩⟩
  · have pending : session.data.pending = [] := by
      rw [ShadowThreadState.pending]
      split
      · exact none
      · exact noneStored
    rw [Session.account, calls, pending]
    rfl

theorem Started.balanced (started : Started params session) : Balanced params [] 0 [] session := by
  obtain ⟨tracker, tid, memBuf, memory, appstack, steady, rfl⟩ := started
  unfold eventThreadInit
  by_cases excluded : params.excludeMaster = true ∧ tid = params.runtimeTid
  · simp only [if_pos excluded]
    split <;> exact balanced_start steady rfl rfl (Or.inl rfl) rfl
  · simp only [if_neg excluded]
    split <;> exact balanced_start steady rfl rfl (Or.inr rfl) rfl

/-- A call among new ones splits them. -/
theorem split_new {old new before after : List Event} {call : Event}
    (same : before ++ call :: after = old ++ new) (later : old.length ≤ before.length) :
    ∃ middle, before = old ++ middle ∧ new = middle ++ call :: after := by
  obtain ⟨middle, rfl⟩ : old <+: before :=
    List.prefix_of_prefix_length_le ⟨new, same.symm⟩ (List.prefix_append _ _) later
  refine ⟨middle, rfl, ?_⟩
  rw [List.append_assoc] at same
  exact (List.append_cancel_left same).symm

/-- The calls in front of one that ends an epoch hand the whole account over. -/
theorem InTime.handed {refs : List MemRef} {before after : List Event} {call : Event}
    (inTime : InTime params base tls refs session next)
    (same : next.calls = before ++ call :: after)
    (later : session.calls.length ≤ before.length) (outgoing : call.outgoing = true) :
    handed before = base ++ admitted params next.data refs := by
  have inside : ∀ {new rest : List Event}, (∀ other ∈ new, other.outgoing = false) →
      ∀ middle, new = middle ++ call :: rest → False := by
    intro new rest inward middle found
    have made : call ∈ new := by simp [found]
    simp [inward call made] at outgoing
  rcases inTime with ⟨new, added, inward⟩ | ⟨middle, last, ⟨new, added, inward⟩, ended, balanced,
    pending, data⟩
  · obtain ⟨front, _, found⟩ := split_new (same.symm.trans added) later
    exact (inside inward front found).elim
  · rw [added, List.append_assoc] at ended
    obtain ⟨front, rfl, found⟩ := split_new (same.symm.trans ended) later
    rcases List.eq_nil_or_concat after with rfl | ⟨rest, final, rfl⟩
    · obtain ⟨rfl, -⟩ := List.append_inj' found rfl
      have account := balanced.account
      rw [Session.account, pending, admitted_nil, List.append_nil, added] at account
      rw [account, data]
    · rw [List.concat_eq_append, ← List.cons_append, ← List.append_assoc] at found
      exact (inside inward front (List.append_inj' found rfl).1).elim

/-- References are in time in a run that records after the first analysis only, that saves and
restores the head as it should, and that leaves nothing pending where an epoch ends: when a call
ends an epoch, exactly the references recorded before are handed over. -/
theorem delivered_in_time (reaches : (Session.machine params (Started params)).Reaches past session)
    (inner : ∀ step ∈ past, step.event ≠ .handleExtState)
    (saves : ∀ step ∈ past, SavesHead params step)
    (restores : ∀ step ∈ past, RestoresHead step) (known : ∀ step ∈ past, RecordsKnown step)
    (flushes : ∀ step ∈ past, FlushesInTime params step) {before after : List Event} {call : Event}
    (initial : front ++ [step] <+: past) (made : step.post.calls = before ++ call :: after)
    (later : step.pre.calls.length ≤ before.length) (outgoing : call.outgoing = true) :
    handed before = admitted params step.post.data (recorded front) := by
  obtain ⟨earlier, defined⟩ := reaches.step initial
  have within : ∀ other ∈ front, other ∈ past := fun other member =>
    initial.subset (List.mem_append_left _ member)
  have here : step ∈ past := initial.subset (List.mem_append_right _ (List.mem_singleton_self _))
  have balanced : Balanced params [] 0 (recorded front) step.pre :=
    balanced_of_reaches (fun session => Started.balanced) earlier
      (fun other member => inner other (within other member))
      (fun other member => saves other (within other member))
      (fun other member => restores other (within other member))
      fun _ other member => known other (within other member)
  have post : step.post = step.pre.step params step.event :=
    (congrArg Prod.fst (Option.some.inj defined)).symm
  have inTime := inTime_step balanced rfl (inner step here) (flushes step here)
  rw [← post] at inTime
  exact inTime.handed made later outgoing

/-- A thread records a reference within a critical section. -/
def releasing : List ThreadEvent :=
  [.analyzeAccess, .mutexLock (some 0) 64 true false, .record 8 1 4 true,
    .mutexUnlock (some 64) true]

theorem delivered_in_time_release :
    let past := (Session.ran plain (started plain {} 2) releasing).1
    let step := past.get ⟨3, by decide⟩
    handed (step.post.calls.take 4) = admitted plain step.post.data (recorded (past.take 3)) :=
  delivered_in_time (Session.reaches_ran (started_started {} 2 (by decide)) releasing) (by decide)
    (by decide) (by decide) (by decide) (by decide) ⟨[], rfl⟩ rfl (by decide) rfl

/-- Recordings, flushes, calls and returns, scopes, and the callbacks that end an epoch. -/
def ThreadEvent.ordered : ThreadEvent → Bool
  | .record .. | .processBuffer | .analyzeAccess | .funcCall .. | .funcRet _ | .disableScope
  | .enableScope | .mutexUnlock .. | .happensBefore .. | .barrierEnter _ | .threadStart _ => true
  | _ => false

/-- The entry of a barrier does not flush the buffer. -/
theorem barrier_overtakes_reference :
    ¬ ∀ (layout : Layout) (params : RuntimeConfig) (past front : List (ThreadStep layout))
      (step : ThreadStep layout) (session : Session layout) (before after : List Event)
      (call : Event), (Session.machine params (Started params)).Reaches past session →
          (∀ step ∈ past, step.event.ordered = true) → Always InTurn past →
            front ++ [step] <+: past →
            step.post.calls = before ++ call :: after → step.pre.calls.length ≤ before.length →
              call.outgoing = true →
                ∀ access ∈ admitted params step.post.data (recorded front),
                  access ∈ handed before := by
  intro always
  let past := (Session.ran plain (started plain {} 2)
    [.analyzeAccess, .record 8 1 4 true, .barrierEnter 64]).1
  let step : ThreadStep .x64 := past.get ⟨2, by decide⟩
  have delivered := always .x64 plain past (past.take 2) step _ step.pre.calls []
    (.happensBefore 2 64)
    (Session.reaches_ran (started_started {} 2 (by decide))
      [.analyzeAccess, .record 8 1 4 true, .barrierEnter 64])
    (by decide) (by decide) ⟨[], rfl⟩ rfl le_rfl rfl
  exact absurd (delivered ⟨true, 2, 1, 8, 0x40000004⟩) (by decide)

end Drace
