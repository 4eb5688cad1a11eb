/-
This file says when the detector of a thread is enabled.

The counter of a thread should be zero exactly while the detector is enabled. Two
habits of the code break this. The saved head is a single pointer, and a disable
while the detector is disabled already saves null there, so the detector never
comes back. And the lazy initialization starts the buffer again whether or not a
scope is open. In a run without them, an open gate means that the detector is
enabled, and a closed one that it is disabled.
-/

import Drace.Gate

namespace Drace

open Session Machine

variable {layout : Layout} {params : RuntimeConfig} {session next : Session layout}
  {past front : List (ThreadStep layout)} {step : ThreadStep layout} {event : ThreadEvent}
  {initial : ℕ}

/-- Recordings, analyses, scopes and sampling decisions. -/
def ThreadEvent.gated : ThreadEvent → Bool
  | .record .. | .analyzeAccess | .switchSampling _ | .disableScope | .enableScope => true
  | _ => false

/-- The step disables the detector. -/
def disables (step : ThreadStep layout) : Bool :=
  match step.event with
  | .disableScope => true
  | .switchSampling draw => !step.pre.sampled draw
  | _ => false

/-- The detector is disabled only while the counter is zero. -/
def DisablesOnce (step : ThreadStep layout) : Prop := disables step = true →
    step.pre.data.eventCnt = 0

instance (step : ThreadStep layout) : Decidable (DisablesOnce step) :=
  inferInstanceAs (Decidable (_ → _))

/-! ### Recording comes back -/

/-- What a run keeps that never disables twice: the detector is enabled while the counter is zero,
and the saved head lies in the buffer. -/
structure Restorable (params : RuntimeConfig) (past : List (ThreadStep layout))
    (session : Session layout) : Prop where
  initialized : session.data.detectorData ≠ 0
  ends : session.data.bufEnd = layout.sizeRange - (session.data.memBuf.data + layout.memBufSize)
  steady : session.tracker.Steady params
  counts : ∃ unsampled, session.data.Counts ⟨openScopes past, unsampled⟩
  stored : ∃ index < Layout.maxNumMemRefs, session.data.bufPtrStored = session.data.slot index
  enabled : session.data.eventCnt = 0 →
    ∃ index < Layout.maxNumMemRefs, session.data.bufPtr = session.data.slot index
  disabled : session.data.eventCnt ≠ 0 → session.data.bufPtr = 0

theorem Ready.restorable (ready : Ready params session) : Restorable params [] session where
  initialized := ready.initialized
  ends := ready.ends
  steady := ready.steady
  counts := ⟨false, Nat.zero_lt_of_lt layout.one_lt_flagBit, ready.outside⟩
  stored := ready.stored
  enabled _ := ready.head
  disabled inside := absurd ready.outside inside

namespace Restorable

theorem isEnabled_iff (restorable : Restorable params past session) :
    session.data.isEnabled = true ↔ session.data.eventCnt = 0 := by
  rw [ShadowThreadState.isEnabled_iff]
  constructor
  · exact fun head => by_contra fun inside => head (restorable.disabled inside)
  · intro outside
    obtain ⟨index, _, head⟩ := restorable.enabled outside
    exact head ▸ ShadowThreadState.slot_pos.ne'

/-- What moves the head within the buffer keeps the invariant. -/
theorem moves (restorable : Restorable params past session)
    (scopes : openScopes front = openScopes past)
    (alike : session.Alike next)
    (head : session.data.eventCnt = 0 →
      ∃ index < Layout.maxNumMemRefs, next.data.bufPtr = session.data.slot index)
    (off : session.data.eventCnt ≠ 0 → next.data.bufPtr = 0) : Restorable params front next where
  initialized := alike.detectorData ▸ restorable.initialized
  ends := by rw [alike.bufEnd, alike.memBuf, restorable.ends]
  steady := alike.tracker ▸ restorable.steady
  counts := by
    obtain ⟨unsampled, counts⟩ := restorable.counts
    exact ⟨unsampled, by rw [scopes]; exact counts.1,
      by rw [scopes, alike.eventCnt]; exact counts.2⟩
  stored := by
    simp only [alike.bufPtrStored, alike.slot]
    exact restorable.stored
  enabled outside := by
    simp only [alike.slot]
    exact head (alike.eventCnt ▸ outside)
  disabled inside := off (alike.eventCnt ▸ inside)

theorem analyze (restorable : Restorable params past session)
    (scopes : openScopes front = openScopes past) :
    Restorable params front (session.analyzeAccess params) := by
  rw [analyzeAccess_of_steady restorable.steady, lazyInit_of_ne restorable.initialized]
  obtain ⟨alike, _, head⟩ := session.dumpBuffer_spec params
  refine restorable.moves scopes alike (fun outside => ⟨0, by decide, ?_⟩) fun inside => ?_
  · rw [head, if_pos (restorable.isEnabled_iff.mpr outside), ShadowThreadState.slot_zero]
  · rw [head, if_neg (mt restorable.isEnabled_iff.mp inside)]

theorem record (restorable : Restorable params past session)
    (scopes : openScopes front = openScopes past)
    (ref : MemRef) : Restorable params front (session.instrumentMemFast params ref) := by
  by_cases outside : session.data.eventCnt = 0
  · obtain ⟨index, bound, head⟩ := restorable.enabled outside
    obtain ⟨alike, _, moved⟩ := instrumentMemFast_spec ref bound restorable.ends head
      restorable.steady restorable.initialized
    exact restorable.moves scopes alike (fun _ => moved) fun inside => absurd outside inside
  · have off := restorable.disabled outside
    rw [instrumentMemFast_of_disabled off]
    exact restorable.moves scopes (.refl session) (fun zero => absurd zero outside) fun _ => off

theorem disableScope (restorable : Restorable params past session)
    (outside : session.data.eventCnt = 0)
    (scopes : openScopes front = openScopes past + 1) :
      Restorable params front session.begExclRegion where
  initialized := restorable.initialized
  ends := restorable.ends
  steady := restorable.steady
  counts := by
    obtain ⟨unsampled, counts⟩ := restorable.counts
    have none : openScopes past = 0 := (counts.eventCnt_eq_zero.mp outside).1
    refine ⟨unsampled, ?_⟩
    rw [scopes]
    exact ShadowThreadState.counts_disableScope counts (by rw [none]; exact layout.one_lt_flagBit)
  stored := restorable.enabled outside
  enabled zero := by
    have counted : session.data.disableScope.eventCnt = 1 % layout.sizeRange := by
      show (session.data.eventCnt + 1) % _ = _
      rw [outside]
    rw [Nat.mod_eq_of_lt (by rw [layout.sizeRange_eq_flagBit]; have :=
      layout.one_lt_flagBit; omega)]
      at counted
    exact absurd (counted.symm.trans zero) Nat.one_ne_zero
  disabled _ := rfl

theorem enableScope (restorable : Restorable params past session) (inside : 0 < openScopes past)
    (scopes : openScopes front = openScopes past - 1) :
      Restorable params front session.endExclRegion := by
  obtain ⟨unsampled, counts⟩ := restorable.counts
  have off : session.data.bufPtr = 0 := by
    refine restorable.disabled fun zero => ?_
    exact inside.ne' (counts.eventCnt_eq_zero.mp zero).1
  have counted := ShadowThreadState.counts_enableScope counts inside
  unfold endExclRegion
  rw [ShadowThreadState.enableScope_eq] at counted ⊢
  exact
    { initialized := restorable.initialized
      ends := restorable.ends
      steady := restorable.steady
      counts := ⟨unsampled, by rw [scopes]; exact counted⟩
      stored := restorable.stored
      enabled := fun zero => by
        simp only [show session.data.countDown = 0 from zero, if_true]
        exact restorable.stored
      disabled := fun nonzero => by
        simp only [show ¬ session.data.countDown = 0 from nonzero, if_false]
        exact off }

theorem switchSampling (restorable : Restorable params past session)
    (scopes : openScopes front = openScopes past) {draw : ℕ}
    (once : session.sampled draw = false → session.data.eventCnt = 0) :
    Restorable params front (session.switchSampling draw) := by
  obtain ⟨unsampled, counts⟩ := restorable.counts
  have counted := counts_switchSampling counts draw
  obtain ⟨position, same⟩ := session.switchSampling_eq draw
  rw [same] at counted ⊢
  cases decision : session.sampled draw with
  | false =>
    have outside := once decision
    have opened := counts.eventCnt_eq_zero.mp outside
    simp only [decision, if_false, Bool.false_eq_true] at counted ⊢
    exact
      { initialized := restorable.initialized
        ends := restorable.ends
        steady := restorable.steady
        counts := ⟨true, by rw [scopes]; exact counted⟩
        stored := restorable.enabled outside
        enabled := fun zero => absurd (counted.eventCnt_eq_zero.mp zero).2 (by simp [Gate.sample])
        disabled := fun _ => rfl }
  | true =>
    simp only [decision, if_true] at counted ⊢
    have flag : session.flagged draw = session.data.eventCnt % layout.flagBit := by
      rw [flagged, decision, if_pos rfl]
    exact
      { initialized := restorable.initialized
        ends := restorable.ends
        steady := restorable.steady
        counts := ⟨false, by rw [scopes]; exact counted⟩
        stored := restorable.stored
        enabled := fun zero => by
          simp only [show session.data.eventCnt % layout.flagBit = 0 from flag ▸ zero, if_true]
          exact restorable.stored
        disabled := fun nonzero => by
          have inside : ¬ session.data.eventCnt % layout.flagBit = 0 := flag ▸ nonzero
          simp only [inside, if_false]
          exact restorable.disabled fun zero => inside (by rw [zero, Nat.zero_mod]) }

end Restorable

/-- Recording always comes back in a run that disables only while the counter is zero: whenever the
counter is zero, the detector is enabled and the head lies in the buffer. -/
theorem recording_comes_back (reaches :
    (Session.machine params (Ready params)).Reaches past session)
    (gated : ∀ step ∈ past, step.event.gated = true) (nested : Always Nested past)
    (once : ∀ step ∈ past, DisablesOnce step) (outside : session.data.eventCnt = 0) :
    session.data.isEnabled = true ∧
      ∃ index < Layout.maxNumMemRefs, session.data.bufPtr = session.data.slot index := by
  have restorable : Restorable params past session := by
    clear outside
    induction reaches with
    | start ready => exact ready.restorable
    | @call past before next event output earlier defined inductionHypothesis =>
      obtain ⟨rfl⟩ := Prod.mk.inj (Option.some.inj defined)
      obtain ⟨nestedBefore, nestedHere⟩ := always_append.mp nested
      have holds := inductionHypothesis (fun step made => gated step (List.mem_append_left _ made))
        nestedBefore fun step made => once step (List.mem_append_left _ made)
      have gatedHere := gated _ (List.mem_append_right _ (List.mem_singleton_self _))
      have onceHere := once _ (List.mem_append_right _ (List.mem_singleton_self _))
      have scopes : openScopes (past ++ [⟨before, event, before.step params event, output⟩]) =
          event.scopesAfter (openScopes past) := openScopes_append
      cases event with
      | record addr pc size write => exact holds.record scopes _
      | analyzeAccess => exact holds.analyze scopes
      | switchSampling draw =>
        exact holds.switchSampling scopes fun missed => onceHere (congrArg not missed)
      | disableScope => exact holds.disableScope (onceHere rfl) scopes
      | enableScope => exact holds.enableScope (nestedHere rfl) scopes
      | _ => cases gatedHere
  exact ⟨restorable.isEnabled_iff.mpr outside, restorable.enabled outside⟩

theorem recording_comes_back_scope :
    let made := Session.ran plain ((started plain {} 2).analyzeAccess plain)
      [.disableScope, .analyzeAccess, .enableScope, .switchSampling 0]
    made.2.data.isEnabled = true ∧
      ∃ index < Layout.maxNumMemRefs, made.2.data.bufPtr = made.2.data.slot index :=
  recording_comes_back (Session.reaches_ran ready_started _) (by decide) (by decide) (by decide)
    (by decide)

/-- Two nested scopes save the head twice, and the second time it is null. -/
theorem nested_scopes_lose_recording :
    ¬ ∀ (layout : Layout) (params : RuntimeConfig) (past : List (ThreadStep layout))
      (session : Session layout), (Session.machine params (Ready params)).Reaches past session →
        (∀ step ∈ past, step.event.gated = true) → Always Nested past → session.data.eventCnt = 0 →
          session.data.isEnabled = true ∧
            ∃ index < Layout.maxNumMemRefs, session.data.bufPtr = session.data.slot index := by
  intro always
  have restored := always .x64 plain _ _
    (Session.reaches_ran ready_started [.disableScope, .disableScope, .enableScope, .enableScope])
    (by decide) (by decide) (by decide)
  exact absurd restored.1 (by decide)

/-! ### Excluded scopes are silent -/

/-- A thread as the client starts it, while the external state is steady. -/
def Started (params : RuntimeConfig) (session : Session layout) : Prop :=
  ∃ tracker tid memBuf memory appstack, MemoryTracker.Steady params tracker ∧
    session = eventThreadInit params tracker tid memBuf memory appstack

theorem started_started (tracker : MemoryTracker) (tid : ℕ) (steady : tracker.Steady params) :
    Started params (started params tracker tid) := ⟨tracker, tid, _, _, _, steady, rfl⟩

/-- A thread is not initialized while its counter is nonzero. -/
def InitializesOutside (step : ThreadStep layout) : Prop :=
  step.event = .analyzeAccess → step.pre.data.detectorData = 0 → step.pre.data.eventCnt = 0

/-- The open scopes do not reach the sampling flag. -/
def HasRoom (step : ThreadStep layout) : Prop :=
  step.event = .disableScope → step.pre.data.eventCnt % layout.flagBit + 1 < layout.flagBit

instance (step : ThreadStep layout) : Decidable (InitializesOutside step) :=
  inferInstanceAs (Decidable (_ → _ → _))

instance (step : ThreadStep layout) : Decidable (HasRoom step) :=
  inferInstanceAs (Decidable (_ → _))

/-- What a run keeps that initializes its thread outside all scopes: the detector is disabled while
the counter is nonzero. -/
structure Barred (params : RuntimeConfig) (past : List (ThreadStep layout))
    (session : Session layout) : Prop where
  steady : session.tracker.Steady params
  counts : ∃ gate, session.data.Counts gate ∧ openScopes past ≤ gate.scopes
  disabled : session.data.eventCnt ≠ 0 → session.data.bufPtr = 0

theorem Started.barred (started : Started params session) : Barred params [] session := by
  obtain ⟨tracker, tid, memBuf, memory, appstack, steady, rfl⟩ := started
  have room := layout.one_lt_flagBit
  unfold eventThreadInit
  by_cases excluded : params.excludeMaster = true ∧ tid = params.runtimeTid
  · have counted : 1 % layout.sizeRange = 1 :=
      Nat.mod_eq_of_lt (by rw [layout.sizeRange_eq_flagBit]; omega)
    simp only [if_pos excluded]
    split <;> exact ⟨steady, ⟨⟨1, false⟩, ⟨room, counted⟩, Nat.zero_le _⟩, fun _ => rfl⟩
  · simp only [if_neg excluded]
    split <;>
      exact ⟨steady, ⟨⟨0, false⟩, ⟨Nat.zero_lt_of_lt room, rfl⟩, le_rfl⟩,
        fun inside => absurd rfl inside⟩

namespace Barred

/-- What leaves the counter alone keeps the invariant if it does not start the buffer again. -/
theorem stays (barred : Barred params past session) (scopes : openScopes front = openScopes past)
    (tracker : next.tracker = session.tracker)
    (counter : next.data.eventCnt = session.data.eventCnt)
    (off : session.data.eventCnt ≠ 0 → next.data.bufPtr = 0) : Barred params front next where
  steady := tracker ▸ barred.steady
  counts := by
    obtain ⟨gate, counts, below⟩ := barred.counts
    exact ⟨gate, ⟨counts.1, counter.trans counts.2⟩, scopes ▸ below⟩
  disabled inside := off (counter ▸ inside)

theorem quiet_analyzeAccess (barred : Barred params past session)
    (inside : session.data.eventCnt ≠ 0)
    (initialized : session.data.detectorData ≠ 0) : session.analyzeAccess params = session := by
  rw [analyzeAccess_of_steady barred.steady, lazyInit_of_ne initialized,
    dumpBuffer_of_disabled (ShadowThreadState.isEnabled_eq_false.mpr (barred.disabled inside))]

theorem quiet_record (barred : Barred params past session) (inside : session.data.eventCnt ≠ 0)
    (ref : MemRef) : session.instrumentMemFast params ref = session :=
  instrumentMemFast_of_disabled (barred.disabled inside)

theorem disableScope (barred : Barred params past session)
    (room : session.data.eventCnt % layout.flagBit + 1 < layout.flagBit)
    (scopes : openScopes front = openScopes past + 1) :
      Barred params front session.begExclRegion where
  steady := barred.steady
  counts := by
    obtain ⟨gate, counts, below⟩ := barred.counts
    rw [counts.eventCnt_mod] at room
    exact ⟨gate.enter, ShadowThreadState.counts_disableScope counts room,
      scopes ▸ Nat.succ_le_succ below⟩
  disabled _ := rfl

theorem enableScope (barred : Barred params past session) (inside : 0 < openScopes past)
    (scopes : openScopes front = openScopes past - 1) :
      Barred params front session.endExclRegion := by
  obtain ⟨gate, counts, below⟩ := barred.counts
  have opened : 0 < gate.scopes := lt_of_lt_of_le inside below
  have off : session.data.bufPtr = 0 := by
    refine barred.disabled fun zero => ?_
    exact opened.ne' (counts.eventCnt_eq_zero.mp zero).1
  have counted := ShadowThreadState.counts_enableScope counts opened
  unfold endExclRegion
  rw [ShadowThreadState.enableScope_eq] at counted ⊢
  exact
    { steady := barred.steady
      counts := ⟨gate.leave, counted, scopes ▸ Nat.sub_le_sub_right below 1⟩
      disabled := fun nonzero => by
        simp only [show ¬ session.data.countDown = 0 from nonzero, if_false]
        exact off }

theorem switchSampling (barred : Barred params past session)
    (scopes : openScopes front = openScopes past)
    (draw : ℕ) : Barred params front (session.switchSampling draw) := by
  obtain ⟨gate, counts, below⟩ := barred.counts
  have counted := counts_switchSampling counts draw
  obtain ⟨position, same⟩ := session.switchSampling_eq draw
  rw [same] at counted ⊢
  refine ⟨barred.steady, ⟨_, counted, scopes ▸ below⟩, ?_⟩
  cases decision : session.sampled draw with
  | false => exact fun _ => rfl
  | true =>
    show session.flagged draw ≠ 0 → (if true = true then
      if session.data.eventCnt % layout.flagBit = 0 then _ else _ else 0) = 0
    intro nonzero
    rw [flagged, decision, if_pos rfl] at nonzero
    rw [if_pos rfl, if_neg nonzero]
    exact barred.disabled fun zero => nonzero (by rw [zero, Nat.zero_mod])

/-- Within a scope a step records nothing and hands nothing over. -/
theorem quiet (barred : Barred params past session) (inside : session.data.eventCnt ≠ 0)
    (gated : event.gated = true)
    (initialized : event = .analyzeAccess → session.data.detectorData ≠ 0) :
    (session.step params event).calls = session.calls := by
  cases event with
  | record addr pc size write => exact congrArg calls (barred.quiet_record inside _)
  | analyzeAccess => exact congrArg calls (barred.quiet_analyzeAccess inside (initialized rfl))
  | switchSampling draw =>
    obtain ⟨position, same⟩ := session.switchSampling_eq draw
    show (session.switchSampling draw).calls = _
    rw [same]
  | disableScope => rfl
  | enableScope => rfl
  | _ => cases gated

end Barred

/-- A run that initializes its thread outside all scopes keeps the invariant. -/
theorem barred_of_reaches (reaches : (Session.machine params (Started params)).Reaches past session)
    (gated : ∀ step ∈ past, step.event.gated = true) (nested : Always Nested past)
    (outside : ∀ step ∈ past, InitializesOutside step) (room : ∀ step ∈ past, HasRoom step) :
    Barred params past session := by
  induction reaches with
  | start started => exact started.barred
  | @call past before next event output earlier defined inductionHypothesis =>
    obtain ⟨rfl⟩ := Prod.mk.inj (Option.some.inj defined)
    obtain ⟨nestedBefore, nestedHere⟩ := always_append.mp nested
    simp only [List.forall_mem_append, List.forall_mem_singleton] at gated outside room
    have holds := inductionHypothesis gated.1 nestedBefore outside.1 room.1
    have scopes : openScopes (past ++ [⟨before, event, before.step params event, output⟩]) =
        event.scopesAfter (openScopes past) := openScopes_append
    cases event with
    | record addr pc size write =>
      exact holds.stays scopes (tracker_instrumentMemFast holds.steady)
        (eventCnt_instrumentMemFast holds.steady)
        fun inside => (congrArg (fun session => session.data.bufPtr)
          (holds.quiet_record inside _)).trans
          (holds.disabled inside)
    | analyzeAccess =>
      refine holds.stays scopes (tracker_analyzeAccess holds.steady)
        (eventCnt_analyzeAccess holds.steady)
        fun inside => ?_
      have initialized : before.data.detectorData ≠ 0 := fun null => inside (outside.2 rfl null)
      show (before.analyzeAccess params).data.bufPtr = 0
      rw [holds.quiet_analyzeAccess inside initialized, holds.disabled inside]
    | switchSampling draw => exact holds.switchSampling scopes draw
    | disableScope => exact holds.disableScope (room.2 rfl) scopes
    | enableScope => exact holds.enableScope (nestedHere rfl) scopes
    | _ => cases gated.2

/-- Excluded scopes are respected in a run that initializes its thread outside all scopes and opens
fewer scopes than the counter has room for: while the counter is nonzero the detector is disabled,
and within the scope nothing is recorded and nothing is handed over. -/
theorem excluded_scope_silent (reaches :
    (Session.machine params (Started params)).Reaches past session)
    (gated : ∀ step ∈ past, step.event.gated = true) (nested : Always Nested past)
    (outside : ∀ step ∈ past, InitializesOutside step) (room : ∀ step ∈ past, HasRoom step) :
    (session.data.eventCnt ≠ 0 → session.data.isEnabled = false ∧ session.data.bufPtr = 0) ∧
      ∀ step ∈ past, step.pre.data.eventCnt ≠ 0 →
        recordedAt step = none ∧ step.post.calls = step.pre.calls := by
  have silent : ∀ {session : Session layout}, Barred params past session →
      session.data.eventCnt ≠ 0 →
        session.data.isEnabled = false ∧ session.data.bufPtr = 0 := fun barred inside =>
    ⟨ShadowThreadState.isEnabled_eq_false.mpr (barred.disabled inside), barred.disabled inside⟩
  refine ⟨silent (barred_of_reaches reaches gated nested outside room), fun step made inside => ?_⟩
  obtain ⟨front, rest, rfl⟩ := List.append_of_mem made
  have initial : front ++ [step] <+: front ++ step :: rest := ⟨rest, by simp⟩
  obtain ⟨earlier, defined⟩ := reaches.step initial
  have before : ∀ other ∈ front, other ∈ front ++ step :: rest := fun other member =>
    List.mem_append_left _ member
  have barred := barred_of_reaches earlier (fun other member => gated other (before other member))
    (nested.before (List.prefix_append _ _))
    (fun other member => outside other (before other member))
    fun other member => room other (before other member)
  refine ⟨recordedAt_of_disabled (ShadowThreadState.isEnabled_eq_false.mpr
    (barred.disabled inside)), ?_⟩
  have post : step.post = step.pre.step params step.event :=
    (congrArg Prod.fst (Option.some.inj defined)).symm
  rw [post]
  exact barred.quiet inside (gated step made) fun analyzes null =>
    inside (outside step made analyzes null)

theorem excluded_scope_silent_first_thread :
    let made := Session.ran { plain with excludeMaster := true }
      (started { plain with excludeMaster := true } {} 1)
      [.record 8 1 4 true, .disableScope, .enableScope]
    (made.2.data.eventCnt ≠ 0 → made.2.data.isEnabled = false ∧ made.2.data.bufPtr = 0) ∧
      ∀ step ∈ made.1, step.pre.data.eventCnt ≠ 0 →
        recordedAt step = none ∧ step.post.calls = step.pre.calls :=
  excluded_scope_silent (Session.reaches_ran (started_started {} 1 (by decide)) _)
    (by decide) (by decide)
    (by decide) (by decide)

/-- The first thread starts in an excluded scope, and its first analysis starts the buffer again. -/
theorem excluded_thread_recorded :
    ¬ ∀ (layout : Layout) (params : RuntimeConfig) (past : List (ThreadStep layout))
      (session : Session layout), (Session.machine params (Started params)).Reaches past session →
        (∀ step ∈ past, step.event.gated = true) → Always Nested past →
          (session.data.eventCnt ≠ 0 → session.data.isEnabled = false ∧ session.data.bufPtr = 0) ∧
            ∀ step ∈ past, step.pre.data.eventCnt ≠ 0 →
              recordedAt step = none ∧ step.post.calls = step.pre.calls := by
  intro always
  have silent := always .x64 { plain with excludeMaster := true } _ _
    (Session.reaches_ran (started_started {} 1 (by decide)) [.analyzeAccess, .record 8 1 4 true])
    (by decide) (by decide)
  exact absurd (silent.1 (by decide)).1 (by decide)

end Drace
