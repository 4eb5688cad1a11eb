/-
This file says when every recorded reference is delivered once and in time.

The references handed over, followed by the pending ones, should be the recorded
ones. Two habits of the code break this. A disable while the detector is disabled
saves null over the saved head, which loses what is pending. An enable while the
detector is enabled copies the saved head, which may lie behind or in front of the
head, so entries are handed over again. In a run without them the account of
references is exact.
-/

import Drace.Bounds

namespace Drace

open Session Machine

variable {layout : Layout} {params : RuntimeConfig} {session next : Session layout}
  {past front : List (ThreadStep layout)} {step : ThreadStep layout} {event : ThreadEvent}
  {base : List Access} {tls pointer : ℕ} {refs : List MemRef}

namespace ShadowThreadState

variable {data : ShadowThreadState layout}

/-- The call is a frequent one, so the detector is disabled for it. -/
def Frequent (params : RuntimeConfig) (data : ShadowThreadState layout) (callIns : ℕ) : Prop :=
  params.lossy ∧ ¬ params.lossyFlush ∧ data.pcInFreq callIns

instance (callIns : ℕ) : Decidable (data.Frequent params callIns) :=
  inferInstanceAs (Decidable (_ ∧ _ ∧ _))

end ShadowThreadState

/-! ### The two conditions -/

/-- The step saves the head of the detector and disables it. -/
def savesHead (params : RuntimeConfig) (step : ThreadStep layout) : Bool :=
  match step.event with
  | .disableScope => true
  | .switchSampling draw => !step.pre.sampled draw
  | .funcCall callIns draw => !step.pre.sampled draw ||
      decide (step.pre.data.Frequent params callIns ∧ step.pre.data.eventCnt % layout.flagBit ≠ 0)
  | _ => false

/-- A head is saved while the detector is enabled, or while nothing is pending. -/
def SavesHead (params : RuntimeConfig) (step : ThreadStep layout) : Prop :=
  savesHead params step = true → step.pre.data.isEnabled = true ∨ step.pre.data.pending = []

/-- The references that are pending when the step restores the saved head, if it does so: a call
hands the pending ones over first. -/
def restoredOver (step : ThreadStep layout) : Option (List MemRef) :=
  match step.event with
  | .enableScope => if step.pre.data.countDown = 0 then some step.pre.data.pending else none
  | .switchSampling draw =>
    if step.pre.sampled draw = true ∧ step.pre.data.eventCnt % layout.flagBit = 0
    then some step.pre.data.pending else none
  | .funcCall _ draw =>
    if step.pre.sampled draw = true ∧ step.pre.data.eventCnt % layout.flagBit = 0 then some []
      else none
  | _ => none

/-- A saved head that is restored while the detector is enabled stands for the pending references.
-/
def RestoresHead (step : ThreadStep layout) : Prop :=
  ∀ pending ∈ restoredOver step, step.pre.data.isEnabled = true →
    step.pre.data.entries step.pre.data.bufPtrStored = pending

/-- References are recorded after the first analysis of their thread only. -/
def RecordsKnown (step : ThreadStep layout) : Prop :=
  ∀ ref ∈ recordedAt step, step.pre.data.detectorData ≠ 0

instance (step : ThreadStep layout) : Decidable (SavesHead params step) :=
  inferInstanceAs (Decidable (_ → _ ∨ _))

instance (step : ThreadStep layout) : Decidable (RestoresHead step) :=
  inferInstanceAs (Decidable (∀ _ ∈ _, _ → _))

instance (step : ThreadStep layout) : Decidable (RecordsKnown step) :=
  inferInstanceAs (Decidable (∀ _ ∈ _, _))

/-! ### The account is exact -/

/-- The account of a thread: the references handed over, followed by the pending ones, are those of
the start, followed by the recorded ones. -/
structure Balanced (params : RuntimeConfig) (base : List Access) (tls : ℕ) (refs : List MemRef)
    (session : Session layout) : Prop where
  steady : session.tracker.Steady params
  bounded : session.data.Bounded
  known : tls ≠ 0 → session.data.detectorData = tls
  account : session.account params = base ++ admitted params session.data refs
  fresh : session.data.detectorData = 0 → refs = [] ∧
    session.data.entries session.data.bufPtr = [] ∧
      session.data.entries session.data.bufPtrStored = []

/-- A step that does not touch the buffer of its thread, except for the pointers. -/
structure Untouched (session next : Session layout) : Prop where
  tracker : next.tracker = session.tracker
  memBuf : next.data.memBuf = session.data.memBuf
  bufEnd : next.data.bufEnd = session.data.bufEnd
  memory : next.data.memory = session.data.memory
  detectorData : next.data.detectorData = session.data.detectorData
  appstack : next.data.appstackBeg = session.data.appstackBeg ∧
    next.data.appstackEnd = session.data.appstackEnd
  handed : handed next.calls = handed session.calls

theorem Untouched.entries (untouched : Untouched session next) :
    next.data.entries pointer = session.data.entries pointer :=
  ShadowThreadState.entries_congr untouched.memBuf untouched.memory

theorem Untouched.admitted (untouched : Untouched session next) :
    admitted params next.data refs = Drace.admitted params session.data refs := by
  simp only [Drace.admitted, ShadowThreadState.filteredMemref, untouched.detectorData,
    untouched.appstack.1, untouched.appstack.2]

namespace Balanced

/-- Moving pointers keeps the account if the pending references stay the same. -/
theorem move (balanced : Balanced params base tls refs session) (untouched : Untouched session next)
    (head : session.data.InBuffer next.data.bufPtr)
    (stored : session.data.InBuffer next.data.bufPtrStored)
    (pending : next.data.pending = session.data.pending)
    (fresh : session.data.detectorData = 0 → session.data.entries next.data.bufPtr = [] ∧
      session.data.entries next.data.bufPtrStored = []) : Balanced params base tls refs next where
  steady := untouched.tracker ▸ balanced.steady
  bounded := balanced.bounded.move untouched.memBuf untouched.bufEnd head stored
  known told := untouched.detectorData.trans (balanced.known told)
  account := by
    rw [untouched.admitted, ← balanced.account, Session.account, Session.account, untouched.handed,
      pending, untouched.admitted]
  fresh null := by
    simp only [untouched.entries]
    have null := untouched.detectorData ▸ null
    exact ⟨(balanced.fresh null).1, fresh null⟩

/-- Leaving the pointers alone keeps the account. -/
theorem rest (balanced : Balanced params base tls refs session) (untouched : Untouched session next)
    (head : next.data.bufPtr = session.data.bufPtr)
    (stored : next.data.bufPtrStored = session.data.bufPtrStored) :
    Balanced params base tls refs next := by
  refine balanced.move untouched (head ▸ balanced.bounded.head)
    (stored ▸ balanced.bounded.stored) ?_
    fun null => ?_
  · have enabled : next.data.isEnabled = session.data.isEnabled := by
      rw [ShadowThreadState.isEnabled, ShadowThreadState.isEnabled, head]
    rw [ShadowThreadState.pending, ShadowThreadState.pending, enabled, head, stored,
      untouched.entries]
  · rw [head, stored]
    exact (balanced.fresh null).2

/-- Saving the head of an enabled detector keeps the account, and so does saving null while nothing
is pending. -/
theorem save (balanced : Balanced params base tls refs session) (untouched : Untouched session next)
    (saves : session.data.isEnabled = true ∨ session.data.pending = [])
    (head : next.data.bufPtr = 0) (stored : next.data.bufPtrStored = session.data.bufPtr) :
    Balanced params base tls refs next := by
  refine balanced.move untouched (Or.inl head) (stored ▸ balanced.bounded.head) ?_ fun null => ?_
  · rw [ShadowThreadState.pending_of_disabled (ShadowThreadState.isEnabled_eq_false.mpr head),
      stored, untouched.entries]
    cases enabled : session.data.isEnabled with
    | true => rw [ShadowThreadState.pending_of_enabled enabled]
    | false =>
      rw [ShadowThreadState.isEnabled_eq_false.mp enabled, ShadowThreadState.entries_zero]
      exact (saves.resolve_left (by simp [enabled])).symm
  · rw [head, stored]
    exact ⟨ShadowThreadState.entries_zero, (balanced.fresh null).2.1⟩

/-- Restoring the saved head keeps the account if it stands for what is pending. -/
theorem restore (balanced : Balanced params base tls refs session)
    (untouched : Untouched session next)
    (restores : session.data.isEnabled = true →
      session.data.entries session.data.bufPtrStored = session.data.pending)
    (head : next.data.bufPtr = session.data.bufPtrStored)
    (stored : next.data.bufPtrStored = session.data.bufPtrStored) :
    Balanced params base tls refs next := by
  refine balanced.move untouched (head ▸ balanced.bounded.stored)
    (stored ▸ balanced.bounded.stored) ?_
    fun null => ?_
  · have pending : next.data.pending = session.data.entries session.data.bufPtrStored := by
      rw [ShadowThreadState.pending, head, stored, ite_self, untouched.entries]
    rw [pending]
    cases enabled : session.data.isEnabled with
    | true => exact restores enabled
    | false => rw [ShadowThreadState.pending_of_disabled enabled]
  · rw [head, stored]
    exact ⟨(balanced.fresh null).2.2, (balanced.fresh null).2.2⟩

/-- An analysis keeps the account. -/
theorem analyze (balanced : Balanced params base tls refs session) :
    Balanced params base tls refs (session.analyzeAccess params) := by
  have frame : session.Analyzed (session.analyzeAccess params) := analyzed_analyzeAccess
  have stored := bufPtrStored_analyzeAccess balanced.steady
  have start : session.data.entries session.data.memBuf.data = [] := ShadowThreadState.entries_start
  have steady : (session.analyzeAccess params).tracker.Steady params :=
    tracker_analyzeAccess balanced.steady ▸ balanced.steady
  have bounded : (session.analyzeAccess params).data.Bounded :=
    bounded_analyzeAccess balanced.bounded
  by_cases null : session.data.detectorData = 0
  · obtain ⟨head, same⟩ := analyzeAccess_of_uninitialized balanced.steady null
    obtain ⟨rfl, none, noneStored⟩ := balanced.fresh null
    have pending : session.data.pending = [] := by
      rw [ShadowThreadState.pending]
      split
      · exact none
      · exact noneStored
    have enabled : (session.analyzeAccess params).data.isEnabled = true := by
      rw [ShadowThreadState.isEnabled_iff, head]
      exact session.data.memBuf.data_pos.ne'
    have nextPending : (session.analyzeAccess params).data.pending = [] := by
      rw [ShadowThreadState.pending_of_enabled enabled, head,
        ShadowThreadState.entries_congr frame.memBuf frame.memory, start]
    refine ⟨steady, bounded, fun told => absurd (balanced.known told ▸ null) told, ?_, fun _ => ?_⟩
    · have account := balanced.account
      rw [Session.account, pending, admitted_nil] at account
      rw [Session.account, nextPending, admitted_nil, same, account]
    · rw [head, stored, ShadowThreadState.entries_congr frame.memBuf frame.memory,
        ShadowThreadState.entries_congr frame.memBuf frame.memory]
      exact ⟨rfl, start, noneStored⟩
  · obtain ⟨alike, same, -⟩ := analyzeAccess_of_initialized balanced.steady null
    exact ⟨steady, bounded, fun told => alike.detectorData.trans (balanced.known told),
      by rw [same, alike.admitted, balanced.account],
      fun nextNull => absurd (alike.detectorData ▸ nextNull) null⟩

/-- A call that is no access changes nothing of the account. -/
theorem call (balanced : Balanced params base tls refs session) {call : Event}
    (quiet : call.access? = none) : Balanced params base tls refs (session.detector call) :=
  balanced.rest ⟨rfl, rfl, rfl, rfl, rfl, ⟨rfl, rfl⟩, handed_detector quiet⟩ rfl rfl

/-- The book of mutexes is none of the account's business, and neither are the stack and the count
of flushes. -/
theorem other (balanced : Balanced params base tls refs session) (mutexBook : AList fun _ : ℕ => ℕ)
    (stack : ShadowStack) (flushes : ℕ) :
    Balanced params base tls refs { session with data := { session.data with
      mutexBook := mutexBook, stack := stack, flushes := flushes } } :=
  balanced.rest ⟨rfl, rfl, rfl, rfl, rfl, ⟨rfl, rfl⟩, rfl⟩ rfl rfl

theorem flush (balanced : Balanced params base tls refs session) :
    Balanced params base tls refs (session.processBuffer params) :=
  balanced.analyze.other _ _ _

theorem kept : Kept params (@Balanced layout params base tls refs) where
  flush _ balanced := balanced.flush
  book _ _ balanced := balanced.other _ _ _
  detector _ _ quiet balanced := balanced.call quiet

theorem pushStack (balanced : Balanced params base tls refs session) (addr : ℕ) :
    Balanced params base tls refs (session.pushStack addr) := by
  unfold Session.pushStack
  split
  · exact (balanced.other _ _ _).call rfl
  · exact balanced

/-- Recording a reference adds it to the account. -/
theorem record (balanced : Balanced params base tls refs session) (ref : MemRef)
    (known : session.data.isEnabled = true → session.data.detectorData ≠ 0) :
    Balanced params base tls (refs ++ if session.data.isEnabled then [ref] else [])
      (session.instrumentMemFast params ref) := by
  cases enabled : session.data.isEnabled with
  | false =>
    have null := ShadowThreadState.isEnabled_eq_false.mp enabled
    rw [instrumentMemFast_of_disabled null, if_neg Bool.false_ne_true, List.append_nil]
    exact balanced
  | true =>
    have initialized := known enabled
    obtain ⟨index, bound, head⟩ :=
      balanced.bounded.head.resolve_left (ShadowThreadState.isEnabled_iff.mp enabled)
    obtain ⟨alike, added, -⟩ := instrumentMemFast_spec ref bound balanced.bounded.ends head
      balanced.steady initialized
    rw [if_pos rfl]
    exact
      { steady := alike.tracker ▸ balanced.steady
        bounded :=
          bounded_instrumentMemFast balanced.bounded ref balanced.steady.not_switchesOffFull
        known := fun told => alike.detectorData.trans (balanced.known told)
        account := by
          rw [added, balanced.account, alike.admitted, admitted_append, List.append_assoc]
        fresh := fun null => absurd (alike.detectorData ▸ null) initialized }

/-- A sampling decision keeps the account. -/
theorem switchSampling (balanced : Balanced params base tls refs session) {draw : ℕ}
    (saves : session.sampled draw = false → session.data.isEnabled = true ∨
      session.data.pending = [])
    (restores : session.sampled draw = true → session.data.eventCnt % layout.flagBit = 0 →
      session.data.isEnabled = true →
        session.data.entries session.data.bufPtrStored = session.data.pending) :
    Balanced params base tls refs (session.switchSampling draw) := by
  obtain ⟨position, same⟩ := session.switchSampling_eq draw
  rw [same]
  cases decision : session.sampled draw with
  | false => exact balanced.save ⟨rfl, rfl, rfl, rfl, rfl, ⟨rfl, rfl⟩, rfl⟩ (saves decision) rfl rfl
  | true =>
    by_cases outside : session.data.eventCnt % layout.flagBit = 0
    · exact balanced.restore ⟨rfl, rfl, rfl, rfl, rfl, ⟨rfl, rfl⟩, rfl⟩ (restores decision outside)
        (if_pos outside) rfl
    · exact balanced.rest ⟨rfl, rfl, rfl, rfl, rfl, ⟨rfl, rfl⟩, rfl⟩ (if_neg outside) rfl

/-- After an analysis no reference lies in front of the head. -/
theorem entries_analyzeAccess (balanced : Balanced params base tls refs session) :
    (session.analyzeAccess params).data.entries (session.analyzeAccess params).data.bufPtr =
    [] := by
  have frame : session.Analyzed (session.analyzeAccess params) := analyzed_analyzeAccess
  rw [ShadowThreadState.entries_congr frame.memBuf frame.memory]
  by_cases null : session.data.detectorData = 0
  · rw [(analyzeAccess_of_uninitialized balanced.steady null).1, ShadowThreadState.entries_start]
  · rw [(analyzeAccess_of_initialized balanced.steady null).2.2]
    split
    · exact ShadowThreadState.entries_start
    · exact ShadowThreadState.entries_zero

/-- What was saved before an analysis is saved after it. -/
theorem saves_analyzeAccess (balanced : Balanced params base tls refs session)
    (saves : session.data.isEnabled = true ∨ session.data.pending = []) :
    (session.analyzeAccess params).data.isEnabled = true ∨
      (session.analyzeAccess params).data.pending = [] := by
  have enabledIff := isEnabled_analyzeAccess balanced.steady
  cases enabled : (session.analyzeAccess params).data.isEnabled with
  | true => exact Or.inl rfl
  | false =>
    have frame : session.Analyzed (session.analyzeAccess params) := analyzed_analyzeAccess
    have disabled : session.data.isEnabled = false := by
      cases before : session.data.isEnabled with
      | false => rfl
      | true => exact absurd (enabledIff.mpr (Or.inl before)) (by simp [enabled])
    refine Or.inr ?_
    rw [ShadowThreadState.pending_of_disabled enabled, bufPtrStored_analyzeAccess balanced.steady,
      ShadowThreadState.entries_congr frame.memBuf frame.memory,
      ← ShadowThreadState.pending_of_disabled disabled]
    exact saves.resolve_left (by simp [disabled])

/-- After a sampling decision on a flushed buffer the head can be saved. -/
theorem saves_switchSampling {draw : ℕ} (flushed : session.data.entries session.data.bufPtr = [])
    (saves : session.sampled draw = true → session.data.eventCnt % layout.flagBit ≠ 0 →
      session.data.isEnabled = true ∨ session.data.pending = []) :
    (session.switchSampling draw).data.isEnabled = true ∨
      (session.switchSampling draw).data.pending = [] := by
  obtain ⟨position, same⟩ := session.switchSampling_eq draw
  rw [same]
  cases decision : session.sampled draw with
  | false => exact Or.inr flushed
  | true =>
    by_cases outside : session.data.eventCnt % layout.flagBit = 0
    · simp only [outside, if_true, ShadowThreadState.isEnabled_iff,
        ShadowThreadState.pending, ite_self]
      refine or_iff_not_imp_left.mpr fun null => ?_
      rw [not_not.mp null]
      exact ShadowThreadState.entries_zero
    · simp only [outside, if_true, if_false]
      exact saves decision outside

/-- A call keeps the account. -/
theorem onFuncCall (balanced : Balanced params base tls refs session) {callIns draw : ℕ}
    (saves : session.sampled draw = false ∨
      session.data.Frequent params callIns ∧ session.data.eventCnt % layout.flagBit ≠ 0 →
        session.data.isEnabled = true ∨ session.data.pending = [])
    (restores : session.sampled draw = true → session.data.eventCnt % layout.flagBit = 0 →
      session.data.isEnabled = true → session.data.entries session.data.bufPtrStored = []) :
    Balanced params base tls refs (session.onFuncCall params callIns draw) := by
  have frame : session.Analyzed (session.analyzeAccess params) := analyzed_analyzeAccess
  have steady := balanced.steady
  have flushed := balanced.entries_analyzeAccess
  have decided : Balanced params base tls refs
      ((session.analyzeAccess params).switchSampling draw) := by
    refine balanced.analyze.switchSampling (fun missed => ?_) fun sampled outside enabled => ?_
    · rw [sampled_analyzeAccess steady] at missed
      exact balanced.saves_analyzeAccess (saves (Or.inl missed))
    · rw [sampled_analyzeAccess steady] at sampled
      rw [eventCnt_analyzeAccess steady] at outside
      rw [ShadowThreadState.pending_of_enabled enabled, flushed, bufPtrStored_analyzeAccess steady,
        ShadowThreadState.entries_congr frame.memBuf frame.memory]
      rcases (isEnabled_analyzeAccess steady).mp enabled with before | null
      · exact restores sampled outside before
      · exact (balanced.fresh null).2.2
  unfold Session.onFuncCall
  simp only
  refine pushStack ?_ _
  split
  · next frequent =>
    refine decided.save ⟨rfl, rfl, rfl, rfl, rfl, ⟨rfl, rfl⟩, rfl⟩ ?_ rfl rfl
    refine saves_switchSampling flushed fun sampled inside => ?_
    rw [eventCnt_analyzeAccess steady] at inside
    refine balanced.saves_analyzeAccess (saves (Or.inr ⟨?_, inside⟩))
    obtain ⟨position, same⟩ := (session.analyzeAccess params).switchSampling_eq draw
    rw [same] at frequent
    refine ⟨frequent.1, frequent.2.1, ?_⟩
    have hit := frequent.2.2
    simp only [ShadowThreadState.pcInFreq, frame.freqPcs] at hit
    exact hit
  · exact decided

theorem onFuncRet (balanced : Balanced params base tls refs session) (target : ℕ) :
    Balanced params base tls refs (session.onFuncRet params target) := by
  refine balanced.analyze.rest ⟨rfl, rfl, rfl, rfl, rfl, ⟨rfl, rfl⟩, ?_⟩ rfl rfl
  show handed (_ ++ List.replicate _ _) = _
  rw [handed_append, handed, handed, List.filterMap_replicate_of_none rfl, List.append_nil]

/-- Leaving a scope keeps the account. -/
theorem endScope (balanced : Balanced params base tls refs session)
    (restores : session.data.countDown = 0 → session.data.isEnabled = true →
      session.data.entries session.data.bufPtrStored = session.data.pending) :
    Balanced params base tls refs session.endExclRegion := by
  unfold endExclRegion
  rw [ShadowThreadState.enableScope_eq]
  by_cases zero : session.data.countDown = 0
  · exact balanced.restore ⟨rfl, rfl, rfl, rfl, rfl, ⟨rfl, rfl⟩, rfl⟩ (restores zero)
      (if_pos zero) rfl
  · exact balanced.rest ⟨rfl, rfl, rfl, rfl, rfl, ⟨rfl, rfl⟩, rfl⟩ (if_neg zero) rfl

/-- Every event of a thread that records nothing keeps the account under the two conditions. -/
theorem quiet (balanced : Balanced params base tls refs session) {made : ThreadStep layout}
    (pre : made.pre = session) (none : ∀ addr pc size write,
      made.event ≠ .record addr pc size write)
    (inner : made.event ≠ .handleExtState) (saves : SavesHead params made)
    (restores : RestoresHead made) :
      Balanced params base tls refs (session.step params made.event) := by
  obtain ⟨_, event, post, output⟩ := made
  subst pre
  cases event with
  | record addr pc size write => exact absurd rfl (none addr pc size write)
  | processBuffer => exact balanced.flush
  | analyzeAccess => exact balanced.analyze
  | switchSampling draw =>
    exact balanced.switchSampling (fun missed => saves (congrArg not missed))
      fun sampled outside => restores _ (if_pos ⟨sampled, outside⟩)
  | handleExtState => exact absurd rfl inner
  | disableScope =>
    exact balanced.save ⟨rfl, rfl, rfl, rfl, rfl, ⟨rfl, rfl⟩, rfl⟩ (saves rfl) rfl rfl
  | enableScope => exact balanced.endScope fun zero => restores _ (if_pos zero)
  | funcCall callIns draw =>
    refine balanced.onFuncCall (fun off => saves ?_)
      fun sampled outside => restores _ (if_pos ⟨sampled, outside⟩)
    simpa [savesHead] using off
  | funcRet target => exact balanced.onFuncRet target
  | _ => exact Balanced.kept.callback rfl balanced

/-- Every event of a thread keeps the account and adds to it what it records. -/
theorem keep (balanced : Balanced params base tls refs session) {made : ThreadStep layout}
    (pre : made.pre = session) (inner : made.event ≠ .handleExtState)
    (saves : SavesHead params made)
    (restores : RestoresHead made) (known : RecordsKnown made) :
    Balanced params base tls (refs ++ (recordedAt made).toList)
      (session.step params made.event) := by
  by_cases records : ∃ addr pc size write, made.event = .record addr pc size write
  · obtain ⟨addr, pc, size, write, same⟩ := records
    have found : recordedAt made =
        if session.data.isEnabled then some (.ofAccess addr pc size write) else none := by
      rw [recordedAt, same, pre]
    have recorded := balanced.record (.ofAccess addr pc size write) fun enabled => by
      rw [← pre]
      exact known (.ofAccess addr pc size write) (by rw [found, if_pos enabled]; rfl)
    rw [found, same]
    cases enabled : session.data.isEnabled with
    | true =>
      rw [enabled] at recorded
      exact recorded
    | false =>
      rw [enabled] at recorded
      exact recorded
  · have none : ∀ addr pc size write, made.event ≠ .record addr pc size write :=
      fun addr pc size write same => records ⟨addr, pc, size, write, same⟩
    rw [recordedAt_of_quiet none, Option.toList_none, List.append_nil]
    exact balanced.quiet pre none inner saves restores

end Balanced

/-! ### Runs -/

/-- A run that meets the two conditions keeps the account. -/
theorem balanced_of_reaches {start : Session layout → Prop}
    (begins : ∀ session, start session → Balanced params base tls [] session)
    (reaches : (Session.machine params start).Reaches past session)
    (inner : ∀ step ∈ past, step.event ≠ .handleExtState)
    (saves : ∀ step ∈ past, SavesHead params step)
    (restores : ∀ step ∈ past, RestoresHead step)
    (known : tls = 0 → ∀ step ∈ past, RecordsKnown step) :
    Balanced params base tls (recorded past) session := by
  induction reaches with
  | start begun => exact begins _ begun
  | @call past before next event output earlier defined inductionHypothesis =>
    obtain ⟨rfl⟩ := Prod.mk.inj (Option.some.inj defined)
    simp only [List.forall_mem_append, List.forall_mem_singleton] at inner saves restores known
    have balanced := inductionHypothesis inner.1 saves.1 restores.1 fun null => (known null).1
    rw [recorded_append]
    refine balanced.keep rfl inner.2 saves.2 restores.2 ?_
    by_cases null : tls = 0
    · exact (known null).2
    · exact fun _ _ => balanced.known null ▸ null

/-- A thread that is known to the detector, with both pointers in its buffer or null. -/
structure Initialised (params : RuntimeConfig) (session : Session layout) : Prop where
  initialized : session.data.detectorData ≠ 0
  bounded : session.data.Bounded
  steady : session.tracker.Steady params

theorem Ready.initialised (ready : Ready params session) : Initialised params session :=
  ⟨ready.initialized, ⟨ready.ends, Or.inr ready.head, Or.inr ready.stored⟩, ready.steady⟩

theorem Initialised.balanced (initialised : Initialised params session) :
    Balanced params (session.account params) session.data.detectorData [] session where
  steady := initialised.steady
  bounded := initialised.bounded
  known _ := rfl
  account := by rw [admitted_nil, List.append_nil]
  fresh null := absurd null initialised.initialized

/-- Every reference is delivered exactly once in a run that saves the head of an enabled detector
only, unless nothing is pending, and that restores a saved head over an enabled detector only if it
stands for what is pending: the references handed over and the pending ones are those of the start
and the recorded ones, in this order. -/
theorem delivered_exactly_once {initial : Session layout} (initialised : Initialised params initial)
    (reaches : (Session.machine params (initial = ·)).Reaches past session)
    (inner : ∀ step ∈ past, step.event ≠ .handleExtState)
    (saves : ∀ step ∈ past, SavesHead params step)
    (restores : ∀ step ∈ past, RestoresHead step) :
    handed session.calls ++ admitted params session.data session.data.pending =
      (handed initial.calls ++ admitted params initial.data initial.data.pending) ++
        admitted params session.data (recorded past) := by
  have balanced : Balanced params (initial.account params) initial.data.detectorData (recorded past)
      session :=
    balanced_of_reaches (fun session (same : initial = session) =>
      same ▸ initialised.balanced) reaches inner saves restores
      fun null => absurd null initialised.initialized
  exact balanced.account

theorem delivered_exactly_once_scope :
    let initial := (started plain {} 2).analyzeAccess plain
    let made := Session.ran plain initial
      [.record 8 1 4 true, .funcCall 100 0, .record 16 2 4 false, .disableScope,
        .record 24 3 4 true, .enableScope, .processBuffer, .funcRet 104]
    handed made.2.calls ++ admitted plain made.2.data made.2.data.pending =
      (handed initial.calls ++ admitted plain initial.data initial.data.pending) ++
        admitted plain made.2.data (recorded made.1) :=
  delivered_exactly_once ready_started.initialised (Session.reaches_ran rfl _)
    (by decide) (by decide)
    (by decide)

/-- Recordings, flushes, calls and returns, and scopes. -/
def ThreadEvent.delivering : ThreadEvent → Bool
  | .record .. | .processBuffer | .analyzeAccess | .funcCall .. | .funcRet _ | .disableScope
  | .enableScope => true
  | _ => false

/-- A scope saves the head behind a reference. The next call hands the reference over and restores
that head, so the reference is pending again. -/
theorem scope_replays_reference :
    ¬ ∀ (layout : Layout) (params : RuntimeConfig) (initial session : Session layout)
      (past : List (ThreadStep layout)), Ready params initial → initial.tracker.samplingRate = 1 →
        (Session.machine params (initial = ·)).Reaches past session →
          (∀ step ∈ past, step.event.delivering = true) → Always InTurn past →
            handed session.calls ++ admitted params session.data session.data.pending =
              (handed initial.calls ++ admitted params initial.data initial.data.pending) ++
                admitted params session.data (recorded past) := by
  intro always
  have once := always .x64 plain _ _ _ ready_started rfl
    (Session.reaches_ran rfl [.record 8 1 4 true, .disableScope, .enableScope, .funcCall 100 0])
    (by decide) (by decide)
  exact absurd once (by decide)

end Drace
