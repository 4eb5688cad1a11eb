/-
This file says when the sampling periods are well formed, and when the sampling
goes on.

The countdown of a thread is set when the thread is created and when it runs out. A
decision at rate 1 counts it down too, but never sets it. So while the rate is 1 it
runs past zero, and after the rate has changed nothing brings it back.
-/

import Drace.Overrun

namespace Drace

open Session Machine

variable {layout : Layout} {params : RuntimeConfig} {tracker : MemoryTracker}
  {session : Session layout} {client next : Client layout}
  {past front window : List (ClientStep layout)} {step : ClientStep layout} {tid draw : ℕ}

/-! ### Periods -/

namespace MemoryTracker

/-- The bounds of the drawn period are positive, in order and around the rate. -/
def Fits (tracker : MemoryTracker) : Prop :=
  1 ≤ tracker.minPeriod ∧ tracker.minPeriod ≤ tracker.maxPeriod ∧
    tracker.minPeriod ≤ max tracker.samplingRate 1 ∧ max tracker.samplingRate 1 ≤ tracker.maxPeriod

instance : Decidable tracker.Fits := inferInstanceAs (Decidable (_ ∧ _ ∧ _ ∧ _))

/-- The periods of a rate are well formed just if the rate is not zero and the greatest period does
not wrap. -/
theorem fits_updateSampling_iff (rate : tracker.samplingRate < 0x100000000) :
    tracker.updateSampling.Fits ↔
      1 ≤ tracker.samplingRate ∧
        tracker.samplingRate + tracker.samplingRate / 10 < 0x100000000 := by
  unfold Fits updateSampling
  simp only
  split
  · omega
  · have below : tracker.samplingRate / 10 ≤ tracker.samplingRate := Nat.div_le_self _ _
    have least : (tracker.samplingRate + 0x100000000 - tracker.samplingRate / 10) % 0x100000000 =
        tracker.samplingRate - tracker.samplingRate / 10 := by
      rw [Nat.sub_add_comm below, Nat.add_mod_right, Nat.mod_eq_of_lt (by omega)]
    rw [least]
    omega

theorem fits_updateSampling_iff_greatest :
    let tracker : MemoryTracker := { samplingRate := 3904515723 }
    tracker.updateSampling.Fits ↔ 1 ≤ tracker.samplingRate ∧
      tracker.samplingRate + tracker.samplingRate / 10 < 0x100000000 :=
  fits_updateSampling_iff (by decide)

/-- With rate zero the least period wraps, and it is above the greatest. -/
theorem zero_rate_misfits :
    ¬ ∀ tracker : MemoryTracker, tracker.samplingRate < 0x100000000 →
      tracker.updateSampling.Fits := by
  intro always
  exact absurd (always { samplingRate := 0 } (by decide)) (by decide)

/-- A rate that is positive as an `int` too. -/
def Sampleable (rate : ℕ) : Prop := 0 < rate ∧ rate < 0x80000000

instance (rate : ℕ) : Decidable (Sampleable rate) := inferInstanceAs (Decidable (_ ∧ _))

/-- The least period of a rate. -/
def leastPeriod (rate : ℕ) : ℕ := { samplingRate := rate : MemoryTracker }.updateSampling.minPeriod

/-- The greatest period of a rate. -/
def greatestPeriod (rate : ℕ) : ℕ :=
  { samplingRate := rate : MemoryTracker }.updateSampling.maxPeriod

/-- The periods are those of the rate, and from a positive rate only a positive one follows. -/
structure Tuned (tracker : MemoryTracker) : Prop where
  least : tracker.minPeriod = leastPeriod tracker.samplingRate
  greatest : tracker.maxPeriod = greatestPeriod tracker.samplingRate
  external : Sampleable tracker.samplingRate → Sampleable tracker.extSamplingRate

namespace Tuned

theorem fits (tuned : tracker.Tuned) (rate : Sampleable tracker.samplingRate) : tracker.Fits := by
  have positive := rate.1
  have below := rate.2
  have fits : { samplingRate := tracker.samplingRate : MemoryTracker }.updateSampling.Fits :=
    (fits_updateSampling_iff (by simp only; omega)).mpr ⟨positive, by simp only; omega⟩
  rw [Fits, tuned.least, tuned.greatest]
  exact fits

theorem maxPeriod_of_one (tuned : tracker.Tuned) (one : tracker.samplingRate = 1) :
    tracker.maxPeriod = 2 := by
  rw [tuned.greatest, one]
  rfl

end Tuned

end MemoryTracker

open MemoryTracker

namespace Session

/-- The periods in force stay tuned, and a positive rate stays positive. -/
def InForce (sampled : Prop) (tracker : MemoryTracker) : Prop :=
  tracker.Tuned ∧ (sampled → Sampleable tracker.samplingRate)

variable {sampled : Prop}

theorem inForce_noticeState (inForce : InForce sampled session.tracker) :
    InForce sampled session.noticeState.tracker := by
  have kept : ∀ enabled, InForce sampled { session.tracker with enableExternal := enabled } :=
    fun _ => ⟨⟨inForce.1.least, inForce.1.greatest, inForce.1.external⟩, inForce.2⟩
  unfold noticeState
  split
  · simp only
    split
    · exact kept _
    · exact kept _
  · exact inForce

theorem inForce_noticeRate (inForce : InForce sampled session.tracker) :
    InForce sampled session.noticeRate.tracker := by
  unfold noticeRate
  split
  · exact ⟨⟨rfl, rfl, id⟩, fun sampled => inForce.1.external (inForce.2 sampled)⟩
  · exact inForce

theorem inForce_handleExtState (inForce : InForce sampled session.tracker) :
    InForce sampled (session.handleExtState params).tracker := by
  rw [handleExtState_eq]
  split
  · exact inForce_noticeRate (inForce_noticeState inForce)
  · exact inForce

theorem inForce_analyzeAccess (inForce : InForce sampled session.tracker) :
    InForce sampled (session.analyzeAccess params).tracker := by
  have initialized : InForce sampled (session.lazyInit params).tracker :=
    tracker_lazyInit.symm ▸ inForce
  rw [analyzeAccess, tracker_dumpBuffer]
  unfold checkExtState
  split
  · exact inForce_handleExtState initialized
  · exact initialized

/-! ### Decisions -/

/-- The session in which an event decides on the sampling, and the period that is drawn. -/
def deciding (params : RuntimeConfig) (session : Session layout) :
    ThreadEvent → Option (Session layout × ℕ)
  | .funcCall _ draw => some (session.analyzeAccess params, draw)
  | .switchSampling draw => some (session, draw)
  | _ => none

/-- The countdown runs out at a decision, and a period is drawn. -/
def RunsOut (session : Session layout) : Prop :=
  session.tracker.samplingRate ≠ 1 ∧ session.data.samplingPos = 1

instance : Decidable session.RunsOut := inferInstanceAs (Decidable (_ ∧ _))

theorem runsOut_iff (differs : session.tracker.samplingRate ≠ 1) :
    session.RunsOut ↔ session.data.samplingPos - 1 = 0 := by
  unfold RunsOut
  omega

/-- A decision is positive at rate 1 and when the countdown runs out, and it counts down unless a
period is drawn. -/
theorem sampleRef_spec (session : Session layout) (draw : ℕ) :
    (session.sampled draw = true ↔ session.tracker.samplingRate = 1 ∨ session.RunsOut) ∧
      (session.sampleRef draw).2.data.samplingPos =
        if session.RunsOut then (draw : ℤ).bmod 0x100000000
        else session.data.samplingPos - 1 := by
  unfold sampled sampleRef
  by_cases one : session.tracker.samplingRate = 1
  · have still : ¬ session.RunsOut := fun runs => runs.1 one
    rw [if_pos one, if_neg still]
    exact ⟨iff_of_true rfl (Or.inl one), rfl⟩
  · rw [if_neg one]
    by_cases runs : session.RunsOut
    · rw [if_pos ((runsOut_iff one).mp runs), if_pos runs]
      exact ⟨iff_of_true rfl (Or.inr runs), by simp only⟩
    · rw [if_neg (mt (runsOut_iff one).mpr runs), if_neg runs]
      exact ⟨iff_of_false Bool.false_ne_true (not_or.mpr ⟨one, runs⟩), rfl⟩

theorem switchSampling_spec (session : Session layout) (draw : ℕ) :
    (session.switchSampling draw).tracker = session.tracker ∧
      (session.switchSampling draw).data.samplingPos =
        (session.sampleRef draw).2.data.samplingPos := by
  obtain ⟨position, same⟩ := session.sampleRef_eq draw
  unfold switchSampling
  rw [same]
  cases session.sampled draw with
  | true =>
    refine ⟨rfl, ?_⟩
    show ShadowThreadState.samplingPos (if _ then _ else _) = _
    split <;> rfl
  | false => exact ⟨rfl, rfl⟩

theorem onFuncCall_spec (params : RuntimeConfig) (session : Session layout) (callIns draw : ℕ) :
    (session.onFuncCall params callIns draw).tracker = (session.analyzeAccess params).tracker ∧
      (session.onFuncCall params callIns draw).data.samplingPos =
        ((session.analyzeAccess params).sampleRef draw).2.data.samplingPos := by
  have pushed : ∀ session : Session layout, (session.pushStack callIns).tracker = session.tracker ∧
      (session.pushStack callIns).data.samplingPos = session.data.samplingPos := by
    intro session
    unfold pushStack
    split <;> exact ⟨rfl, rfl⟩
  obtain ⟨tracker, position⟩ := (session.analyzeAccess params).switchSampling_spec draw
  unfold onFuncCall
  simp only
  rw [(pushed _).1, (pushed _).2]
  split <;> exact ⟨tracker, position⟩

theorem kept_samplingPos (position : ℤ) :
    Kept params fun session : Session layout => session.data.samplingPos = position where
  flush session same := by
    have frame : session.Analyzed (session.processBuffer params) := analyzed_processBuffer
    rw [frame.samplingPos, same]
  book _ _ same := same
  detector _ _ _ same := same

theorem samplingPos_instrumentMemFast (ref : MemRef) :
    (session.instrumentMemFast params ref).data.samplingPos = session.data.samplingPos := by
  unfold instrumentMemFast
  split
  · rfl
  · simp only
    split
    · rw [analyzed_processBuffer.samplingPos]
    · rfl

/-- An event moves the countdown just if it decides, and the periods that are in force at the
decision are in force after the event. -/
theorem samplingPos_step (params : RuntimeConfig) (session : Session layout) (event : ThreadEvent) :
    match session.deciding params event with
    | none => (session.step params event).data.samplingPos = session.data.samplingPos
    | some (deciding, draw) => deciding.tracker = (session.step params event).tracker ∧
        deciding.data.samplingPos = session.data.samplingPos ∧
        (session.step params event).data.samplingPos =
          (deciding.sampleRef draw).2.data.samplingPos := by
  cases event with
  | record addr pc size write => exact samplingPos_instrumentMemFast _
  | processBuffer => exact analyzed_processBuffer.samplingPos
  | analyzeAccess => exact analyzed_analyzeAccess.samplingPos
  | switchSampling draw =>
    obtain ⟨tracker, position⟩ := session.switchSampling_spec draw
    exact ⟨tracker.symm, rfl, position⟩
  | handleExtState => exact analyzed_handleExtState.samplingPos
  | disableScope => rfl
  | enableScope => exact analyzed_endExclRegion.samplingPos
  | funcCall callIns draw =>
    obtain ⟨tracker, position⟩ := onFuncCall_spec params session callIns draw
    exact ⟨tracker.symm, analyzed_analyzeAccess.samplingPos, position⟩
  | funcRet target => exact analyzed_analyzeAccess.samplingPos
  | _ => exact (kept_samplingPos session.data.samplingPos).callback rfl rfl

theorem kept_inForce (sampled : Prop) :
    Kept params fun session : Session layout => InForce sampled session.tracker where
  flush _ inForce := inForce_analyzeAccess inForce
  book _ _ inForce := inForce
  detector _ _ _ inForce := inForce

theorem inForce_step (inForce : InForce sampled session.tracker) (event : ThreadEvent) :
    InForce sampled (session.step params event).tracker := by
  cases event with
  | record addr pc size write =>
    show InForce sampled (session.instrumentMemFast params _).tracker
    unfold instrumentMemFast
    split
    · exact inForce
    · simp only
      split
      · exact inForce_analyzeAccess inForce
      · exact inForce
  | processBuffer => exact inForce_analyzeAccess inForce
  | analyzeAccess => exact inForce_analyzeAccess inForce
  | switchSampling draw => exact (session.switchSampling_spec draw).1.symm ▸ inForce
  | handleExtState => exact inForce_handleExtState inForce
  | disableScope => exact inForce
  | enableScope => exact inForce
  | funcCall callIns draw =>
    exact (onFuncCall_spec params session callIns draw).1.symm ▸ inForce_analyzeAccess inForce
  | funcRet target => exact inForce_analyzeAccess inForce
  | _ => exact (kept_inForce sampled).callback rfl inForce

end Session

/-! ### What a history says -/

/-- The step creates the thread. -/
def creates (tid : ℕ) (step : ClientStep layout) : Bool :=
  match step.event with
  | .threadInit other .. => other = tid
  | _ => false

/-- The rate the controller sets. -/
def commandedRate (step : ClientStep layout) : Option ℕ :=
  match step.event with
  | .setSamplingrate rate => some rate
  | _ => none

/-- The session in which a step decides for the thread, and the period that is drawn. -/
def decidingAt (params : RuntimeConfig) (tid : ℕ) (step : ClientStep layout) :
    Option (Session layout × ℕ) :=
  match step.event with
  | .thread other event =>
    if other = tid then (step.pre.threads.lookup tid).bind fun data =>
      (step.pre.session data).deciding params event
    else none
  | _ => none

/-- What `sample_ref` returns in a step for the thread. -/
def decision (params : RuntimeConfig) (tid : ℕ) (step : ClientStep layout) : Option Bool :=
  (decidingAt params tid step).map fun made => made.1.sampled made.2

/-- What it returns in these steps. -/
def decisions (params : RuntimeConfig) (tid : ℕ) (window : List (ClientStep layout)) : List Bool :=
  window.filterMap (decision params tid)

/-- The longest period after a step: it starts again when the thread is created or sampled. -/
def longestAfter (params : RuntimeConfig) (tid longest : ℕ) (step : ClientStep layout) : ℕ :=
  if creates tid step = true ∨ decision params tid step = some true then step.post.tracker.maxPeriod
  else max longest step.post.tracker.maxPeriod

/-- The largest `_max_period` that was in force since the last sampled call of the thread, or since
its creation. -/
def longestPeriod (params : RuntimeConfig) (tid : ℕ) (past : List (ClientStep layout)) : ℕ :=
  past.foldl (longestAfter params tid) 0

/-- Whether the last decision for the thread was made at rate 1, after a step. -/
def atOneAfter (params : RuntimeConfig) (tid : ℕ) (atOne : Bool) (step : ClientStep layout) :
    Bool :=
  if creates tid step then false
  else match decidingAt params tid step with
    | some made => made.1.tracker.samplingRate = 1
    | none => atOne

/-- The last decision for the thread was made at rate 1. -/
def lastAtOne (params : RuntimeConfig) (tid : ℕ) (past : List (ClientStep layout)) : Bool :=
  past.foldl (atOneAfter params tid) false

/-- The thread exists after a history. -/
def Lives (tid : ℕ) (past : List (ClientStep layout)) : Prop :=
  ∃ step ∈ past.getLast?, tid ∈ step.post.threads

/-- A drawn period lies between the bounds. -/
def DrawsWithin (params : RuntimeConfig) (tid : ℕ) (step : ClientStep layout) : Prop :=
  ∀ made ∈ decidingAt params tid step, made.1.RunsOut →
    made.1.tracker.minPeriod ≤ made.2 ∧ made.2 ≤ made.1.tracker.maxPeriod

/-- The thread is created at a positive rate, a drawn period is positive as an `int`, and a decision
at another rate than 1, if the last one was made at rate 1, finds the countdown at 1 or 2. -/
def KeepsCounting (params : RuntimeConfig) (tid : ℕ) (front : List (ClientStep layout))
    (step : ClientStep layout) : Prop :=
  (creates tid step = true → Sampleable step.pre.tracker.samplingRate) ∧
    ∀ made ∈ decidingAt params tid step, (made.1.RunsOut → made.2 < 0x80000000) ∧
      (lastAtOne params tid front = true → made.1.tracker.samplingRate ≠ 1 →
        made.1.data.samplingPos = 1 ∨ made.1.data.samplingPos = 2)

/-- From any point of the history at which the thread exists, one of as many next calls as the
longest period tells is sampled. -/
def NeverDries (params : RuntimeConfig) (tid : ℕ) (past : List (ClientStep layout)) : Prop :=
  ∀ front window, front ++ window <+: past → Lives tid front →
    (∀ step ∈ window, creates tid step = false) →
      longestPeriod params tid front ≤ (decisions params tid window).length →
        true ∈ decisions params tid window

instance : Decidable (DrawsWithin params tid step) :=
  inferInstanceAs (Decidable (∀ _ ∈ _, _ → _ ∧ _))

instance : Decidable (KeepsCounting params tid front step) :=
  inferInstanceAs (Decidable (_ ∧ ∀ _ ∈ _, _ ∧ (_ → _ → _)))

theorem longestPeriod_append : longestPeriod params tid (past ++ [step]) =
    longestAfter params tid (longestPeriod params tid past) step := by
  rw [longestPeriod, List.foldl_append]
  rfl

theorem lastAtOne_append : lastAtOne params tid (past ++ [step]) =
    atOneAfter params tid (lastAtOne params tid past) step := by
  rw [lastAtOne, List.foldl_append]
  rfl

theorem decisions_append : decisions params tid (window ++ [step]) =
    decisions params tid window ++ (decision params tid step).toList := by
  rw [decisions, decisions, Machine.filterMap_concat]

/-! ### The countdown -/

/-- How many decisions are left at most until one is positive. -/
def budget (atOne : Bool) (position : ℤ) : ℤ := if atOne then 2 else position

/-- A positive `int` is kept. -/
theorem bmod_of_lt {period : ℕ} (positive : period < 0x80000000) :
    (period : ℤ).bmod 0x100000000 = period :=
  Int.bmod_eq_of_le_mul_two (by omega) (by omega)

/-- A decision uses one of the budget up, or it is positive and sets the budget again. -/
theorem budget_sampleRef {atOne : Bool} (inForce : InForce True session.tracker)
    (left : 1 ≤ budget atOne session.data.samplingPos)
    (within : session.RunsOut → session.tracker.minPeriod ≤ draw ∧ draw ≤ session.tracker.maxPeriod)
    (positive : session.RunsOut → draw < 0x80000000)
    (counting : atOne = true → session.tracker.samplingRate ≠ 1 →
      session.data.samplingPos = 1 ∨ session.data.samplingPos = 2) :
    let next :=
      budget (session.tracker.samplingRate = 1) (session.sampleRef draw).2.data.samplingPos
    1 ≤ next ∧ if session.sampled draw = true then next ≤ session.tracker.maxPeriod
      else next + 1 ≤ budget atOne session.data.samplingPos := by
  obtain ⟨sampled, position⟩ := session.sampleRef_spec draw
  have fits := inForce.1.fits (inForce.2 trivial)
  rw [position]
  by_cases one : session.tracker.samplingRate = 1
  · have greatest := inForce.1.maxPeriod_of_one one
    simp only [budget, one, decide_true, if_true, if_pos (sampled.mpr (Or.inl one)), greatest]
    decide
  · by_cases runs : session.RunsOut
    · have drawn := within runs
      have least := fits.1
      simp only [budget, one, decide_false, Bool.false_eq_true, if_false, if_pos runs,
        if_pos (sampled.mpr (Or.inr runs)), bmod_of_lt (positive runs)]
      omega
    · have differs : session.data.samplingPos ≠ 1 := fun last => runs ⟨one, last⟩
      have negative : session.sampled draw ≠ true := fun yes => (sampled.mp yes).elim one runs
      simp only [budget, one, decide_false, Bool.false_eq_true, if_false, if_neg runs,
        if_neg negative] at left ⊢
      cases atOne with
      | true =>
        have two := (counting rfl one).resolve_left differs
        simp only [if_true]
        omega
      | false =>
        simp only [Bool.false_eq_true, if_false] at left ⊢
        omega

/-- What a call of the client does to the periods in force. -/
theorem inForce_call {sampled : Prop} {event : ClientEvent layout} {output : Unit}
    (inForce : InForce sampled client.tracker)
    (defined : client.call params event = some (next, output))
    (rates : ∀ rate ∈ commandedRate ⟨client, event, next, output⟩, Sampleable rate) :
    InForce sampled next.tracker := by
  cases event with
  | threadInit other memBuf memory appstack =>
    obtain ⟨rfl⟩ := Prod.mk.inj (Option.some.inj defined)
    exact inForce
  | threadExit other =>
    obtain ⟨data, _, made⟩ := Option.map_eq_some_iff.mp defined
    obtain ⟨rfl⟩ := Prod.mk.inj made
    have before : InForce sampled (client.session data).tracker := inForce
    exact inForce_analyzeAccess before
  | thread other event =>
    obtain ⟨data, _, made⟩ := Option.map_eq_some_iff.mp defined
    obtain ⟨rfl⟩ := Prod.mk.inj made
    have before : InForce sampled (client.session data).tracker := inForce
    exact inForce_step before event
  | enableDetector enabled =>
    obtain ⟨rfl⟩ := Prod.mk.inj (Option.some.inj defined)
    exact ⟨⟨inForce.1.least, inForce.1.greatest, inForce.1.external⟩, inForce.2⟩
  | setSamplingrate rate =>
    obtain ⟨rfl⟩ := Prod.mk.inj (Option.some.inj defined)
    have positive : Sampleable rate := rates rate rfl
    have kept : rate % 0x100000000 = rate := Nat.mod_eq_of_lt (by have := positive.2; omega)
    refine ⟨⟨inForce.1.least, inForce.1.greatest, fun _ => ?_⟩, inForce.2⟩
    show Sampleable (rate % 0x100000000)
    rwa [kept]

/-- The countdown starts with the rate. -/
theorem samplingPos_eventThreadInit (memBuf : AlignedBuffer layout) (memory : ℕ → MemRef)
    (appstack : ℕ × ℕ) :
    (eventThreadInit params tracker tid memBuf memory appstack).data.samplingPos =
      (tracker.samplingRate : ℤ).bmod 0x100000000 := by
  unfold eventThreadInit
  simp only
  split <;> split <;> simp only [ShadowThreadState.disableScope, ShadowThreadState.disable]

theorem decidingAt_thread {other : ℕ} {event : ThreadEvent} {output : Unit} :
    decidingAt params tid ⟨client, .thread other event, next, output⟩ =
      if other = tid then (client.threads.lookup tid).bind fun data =>
        (client.session data).deciding params event
      else none := rfl

/-- The countdown of a thread after a call of the client is the rate if the thread is created, and
else it is moved by a decision only. -/
theorem samplingPos_call {event : ClientEvent layout} {output : Unit}
    {data : ShadowThreadState layout} (defined : client.call params event = some (next, output))
    (found : data ∈ next.threads.lookup tid) :
    if creates tid ⟨client, event, next, output⟩ = true then
      next.tracker = client.tracker ∧
        data.samplingPos = (client.tracker.samplingRate : ℤ).bmod 0x100000000
    else ∃ before ∈ client.threads.lookup tid,
      match decidingAt params tid ⟨client, event, next, output⟩ with
      | none => data.samplingPos = before.samplingPos
      | some (deciding, draw) => deciding.tracker = next.tracker ∧
        deciding.data.samplingPos = before.samplingPos ∧
        data.samplingPos = (deciding.sampleRef draw).2.data.samplingPos := by
  cases event with
  | threadInit other memBuf memory appstack =>
    obtain ⟨rfl⟩ := Prod.mk.inj (Option.some.inj defined)
    by_cases same : other = tid
    · subst same
      rw [AList.lookup_insert] at found
      obtain ⟨rfl⟩ := Option.some.inj found
      rw [if_pos (by simp only [creates, decide_true])]
      exact ⟨rfl, samplingPos_eventThreadInit _ _ _⟩
    · rw [AList.lookup_insert_ne (Ne.symm same)] at found
      simp only [creates, same, decide_false, Bool.false_eq_true, if_false]
      exact ⟨data, found, rfl⟩
  | threadExit other =>
    obtain ⟨data, _, made⟩ := Option.map_eq_some_iff.mp defined
    obtain ⟨rfl⟩ := Prod.mk.inj made
    by_cases same : tid = other
    · subst same
      rw [AList.lookup_erase] at found
      cases found
    · rw [AList.lookup_erase_ne same] at found
      exact ⟨_, found, rfl⟩
  | thread other event =>
    obtain ⟨before, present, made⟩ := Option.map_eq_some_iff.mp defined
    obtain ⟨rfl⟩ := Prod.mk.inj made
    by_cases same : other = tid
    · subst same
      have moved := samplingPos_step params (client.session before) event
      rw [Client.withSession, AList.lookup_insert] at found
      obtain ⟨rfl⟩ := Option.some.inj found
      rw [if_neg (by simp only [creates, Bool.false_eq_true, not_false_eq_true])]
      refine ⟨before, present, ?_⟩
      rw [decidingAt_thread, if_pos rfl, present]
      exact moved
    · rw [Client.withSession, AList.lookup_insert_ne (Ne.symm same)] at found
      rw [if_neg (by simp only [creates, Bool.false_eq_true, not_false_eq_true])]
      refine ⟨data, found, ?_⟩
      rw [decidingAt_thread, if_neg same]
  | _ =>
    obtain ⟨rfl⟩ := Prod.mk.inj (Option.some.inj defined)
    exact ⟨data, found, rfl⟩

/-- A thread that decides exists after the step. -/
theorem mem_of_decidingAt {event : ClientEvent layout} {output : Unit} {made : Session layout × ℕ}
    (defined : client.call params event = some (next, output))
    (decides : made ∈ decidingAt params tid ⟨client, event, next, output⟩) :
    tid ∈ next.threads := by
  cases event with
  | thread other event =>
    obtain ⟨data, _, stepped⟩ := Option.map_eq_some_iff.mp defined
    obtain ⟨rfl⟩ := Prod.mk.inj stepped
    rw [decidingAt_thread] at decides
    split at decides
    · next same => exact (AList.mem_insert _).mpr (Or.inl same.symm)
    · cases decides
  | _ => cases decides

/-! ### Runs -/

/-- The periods in force fit, and the countdown of the thread has not run past zero. -/
structure Paced (params : RuntimeConfig) (tid : ℕ) (past : List (ClientStep layout))
    (client : Client layout) : Prop where
  inForce : InForce (tid ∈ client.threads) client.tracker
  left : ∀ data ∈ client.threads.lookup tid,
    1 ≤ budget (lastAtOne params tid past) data.samplingPos ∧
      budget (lastAtOne params tid past) data.samplingPos ≤ longestPeriod params tid past

namespace Paced

variable (paced : Paced params tid past step.pre)
  (defined : step.pre.call params step.event = some (step.post, step.output))
  (rates : ∀ rate ∈ commandedRate step, Sampleable rate)
  (keeps : KeepsCounting params tid past step)
include paced defined rates keeps

theorem inForce_call : InForce (tid ∈ step.post.threads) step.post.tracker := by
  have kept := Drace.inForce_call paced.inForce defined rates
  refine ⟨kept.1, fun lives => ?_⟩
  obtain ⟨data, found⟩ := AList.exists_lookup lives
  have moved := samplingPos_call defined found
  split at moved
  · next created => exact moved.1 ▸ keeps.1 created
  · obtain ⟨before, present, -⟩ := moved
    exact kept.2 (AList.lookup_isSome.mp (Option.isSome_iff_exists.mpr ⟨before, present⟩))

/-- A new thread has its rate left. -/
theorem left_created {data : ShadowThreadState layout} (created : creates tid step = true)
    (found : data ∈ step.post.threads.lookup tid) :
    1 ≤ budget (lastAtOne params tid (past ++ [step])) data.samplingPos ∧
      budget (lastAtOne params tid (past ++ [step])) data.samplingPos ≤
        longestPeriod params tid (past ++ [step]) := by
  obtain ⟨tuned, rate⟩ := paced.inForce_call defined rates keeps
  have positive := rate (AList.lookup_isSome.mp (Option.isSome_iff_exists.mpr ⟨data, found⟩))
  have fits := (tuned.fits positive).2.2.2
  have start := samplingPos_call defined found
  rw [if_pos created] at start
  rw [← start.1, bmod_of_lt positive.2] at start
  rw [longestPeriod_append, lastAtOne_append, longestAfter, if_pos (Or.inl created), atOneAfter,
    if_pos created, budget, if_neg Bool.false_ne_true, start.2]
  have least := positive.1
  omega

/-- Any other step uses up what it decides, or it samples and sets the countdown again. -/
theorem left_moved {data : ShadowThreadState layout} (within : DrawsWithin params tid step)
    (other : creates tid step = false) (found : data ∈ step.post.threads.lookup tid) :
    (1 ≤ budget (lastAtOne params tid (past ++ [step])) data.samplingPos ∧
      budget (lastAtOne params tid (past ++ [step])) data.samplingPos ≤
        longestPeriod params tid (past ++ [step])) ∧
      ∃ before ∈ step.pre.threads.lookup tid, decision params tid step ≠ some true →
        (decision params tid step).toList.length +
          budget (lastAtOne params tid (past ++ [step])) data.samplingPos ≤
            budget (lastAtOne params tid past) before.samplingPos := by
  have moved := samplingPos_call defined found
  rw [if_neg (by rw [other]; exact Bool.false_ne_true)] at moved
  obtain ⟨before, present, moved⟩ := moved
  obtain ⟨least, most⟩ := paced.left before present
  have inForce := paced.inForce_call defined rates keeps
  have lives : tid ∈ step.post.threads :=
    AList.lookup_isSome.mp (Option.isSome_iff_exists.mpr ⟨data, found⟩)
  rw [longestPeriod_append, lastAtOne_append, longestAfter, atOneAfter, other]
  simp only [Bool.false_eq_true, if_false, false_or]
  cases decides : decidingAt params tid step with
  | none =>
    rw [show decidingAt params tid ⟨step.pre, step.event, step.post, step.output⟩ = none from
      decides] at moved
    have nothing : decision params tid step = none := by rw [decision, decides, Option.map_none]
    simp only [nothing, reduceCtorEq, if_false, moved]
    refine ⟨⟨least, most.trans ?_⟩, before, present, fun _ => ?_⟩
    · exact Int.ofNat_le.mpr (le_max_left _ _)
    · simp
  | some made =>
    obtain ⟨deciding, draw⟩ := made
    rw [show decidingAt params tid ⟨step.pre, step.event, step.post, step.output⟩ =
      some (deciding, draw) from decides] at moved
    obtain ⟨tracker, same, position⟩ := moved
    obtain ⟨positive, counting⟩ := keeps.2 _ decides
    have force : InForce True deciding.tracker := by
      rw [tracker]
      exact ⟨inForce.1, fun _ => inForce.2 lives⟩
    rw [← same] at least most
    obtain ⟨left, spent⟩ := budget_sampleRef force least (within _ decides) positive counting
    have made : decision params tid step = some (deciding.sampled draw) := by
      rw [decision, decides, Option.map_some]
    rw [tracker] at left spent
    rw [same] at spent most
    simp only [made, position, tracker, Option.some.injEq]
    cases sampled : deciding.sampled draw with
    | true =>
      simp only [sampled, if_true] at spent ⊢
      exact ⟨⟨left, spent⟩, before, present, fun negative => absurd rfl negative⟩
    | false =>
      simp only [sampled, Bool.false_eq_true, if_false] at spent ⊢
      refine ⟨⟨left, ?_⟩, before, present, fun _ => ?_⟩
      · have longer : (longestPeriod params tid past : ℤ) ≤
            (max (longestPeriod params tid past) step.post.tracker.maxPeriod : ℕ) :=
          Int.ofNat_le.mpr (le_max_left _ _)
        omega
      · simp only [Option.toList_some, List.length_singleton]
        omega

theorem call (within : DrawsWithin params tid step) :
    Paced params tid (past ++ [step]) step.post where
  inForce := paced.inForce_call defined rates keeps
  left data found := by
    cases created : creates tid step with
    | true => exact paced.left_created defined rates keeps created found
    | false => exact (paced.left_moved defined rates keeps within created found).1

end Paced

/-- A client without threads: the periods are those of the rate, and the control block holds it. -/
structure Client.SetUp (client : Client layout) : Prop where
  fresh : client.Fresh
  periods : client.tracker.updateSampling = client.tracker
  external : client.tracker.extSamplingRate = client.tracker.samplingRate

theorem Client.SetUp.paced (start : client.SetUp) : Paced params tid [] client where
  inForce := by
    have none : tid ∉ client.threads := by
      rw [show client.threads = ∅ from start.fresh]
      exact AList.notMem_empty tid
    refine ⟨⟨?_, ?_, fun rate => start.external.symm ▸ rate⟩, fun lives => absurd lives none⟩
    · exact (congrArg MemoryTracker.minPeriod start.periods).symm
    · exact (congrArg MemoryTracker.maxPeriod start.periods).symm
  left data found := by
    rw [show client.threads = ∅ from start.fresh] at found
    cases found

/-- The decisions since a point of the run were not positive, so they have used up what was left at
that point. -/
def UsedUp (params : RuntimeConfig) (tid : ℕ) (past : List (ClientStep layout))
    (client : Client layout) : Prop :=
  ∀ front window, front ++ window = past → Lives tid front →
    (∀ step ∈ window, creates tid step = false) → true ∉ decisions params tid window →
      (decisions params tid window).length < longestPeriod params tid front ∧
        ∀ data ∈ client.threads.lookup tid, (decisions params tid window).length +
          budget (lastAtOne params tid past) data.samplingPos ≤ longestPeriod params tid front

/-- A point at the end of the run has all of it left. -/
theorem Paced.usedUp (paced : Paced params tid past client) (lives : tid ∈ client.threads) :
    0 < longestPeriod params tid past ∧ ∀ data ∈ client.threads.lookup tid,
      budget (lastAtOne params tid past) data.samplingPos ≤ longestPeriod params tid past := by
  refine ⟨?_, fun data found => (paced.left data found).2⟩
  obtain ⟨data, found⟩ := AList.exists_lookup lives
  obtain ⟨least, most⟩ := paced.left data found
  omega

theorem usedUp_of_reaches (reaches : (Client.machine params Client.SetUp).Reaches past client)
    (rates : ∀ step ∈ past, ∀ rate ∈ commandedRate step, Sampleable rate)
    (within : ∀ step ∈ past, DrawsWithin params tid step)
    (keeps : Always (KeepsCounting params tid) past) :
    Paced params tid past client ∧ UsedUp params tid past client := by
  induction reaches with
  | start begins =>
    refine ⟨begins.paced, fun front window empty lives => ?_⟩
    obtain ⟨rfl, rfl⟩ := List.append_eq_nil_iff.mp empty
    obtain ⟨_, last, _⟩ := lives
    cases last
  | @call past before after event output _ defined inductionHypothesis =>
    simp only [List.forall_mem_append, List.forall_mem_singleton] at rates within
    obtain ⟨keepsBefore, keepsHere⟩ := always_append.mp keeps
    obtain ⟨paced, usedUp⟩ := inductionHypothesis rates.1 within.1 keepsBefore
    let step : ClientStep layout := ⟨before, event, after, output⟩
    have made : step.pre.call params step.event = some (step.post, step.output) := defined
    have next : Paced params tid (past ++ [step]) after :=
      Paced.call paced made rates.2 keepsHere within.2
    refine ⟨next, fun front window split lives others negative => ?_⟩
    rcases List.eq_nil_or_concat window with rfl | ⟨window, last, rfl⟩
    · rw [List.append_nil] at split
      subst split
      obtain ⟨found, ends, lives⟩ := lives
      rw [List.getLast?_concat] at ends
      obtain ⟨rfl⟩ := Option.some.inj ends
      obtain ⟨positive, most⟩ := next.usedUp lives
      exact ⟨positive, fun data found => by simpa [decisions] using most data found⟩
    · rw [List.concat_eq_append, ← List.append_assoc] at split
      obtain ⟨rfl, rfl⟩ : front ++ window = past ∧ last = step := by
        obtain ⟨same, last⟩ := List.append_inj' split rfl
        exact ⟨same, List.singleton_inj.mp last⟩
      rw [List.concat_eq_append, decisions_append] at negative
      simp only [List.concat_eq_append, List.forall_mem_append, List.forall_mem_singleton] at others
      obtain ⟨few, left⟩ := usedUp front window rfl lives others.1 fun sampled =>
        negative (List.mem_append_left _ sampled)
      have undecided : decision params tid step ≠ some true := fun sampled =>
        negative (List.mem_append_right _ (by rw [sampled]; exact List.mem_singleton_self _))
      rw [List.concat_eq_append, decisions_append, List.length_append, Int.natCast_add]
      have spent : ∀ data ∈ after.threads.lookup tid,
          ((decisions params tid window).length : ℤ) + (decision params tid step).toList.length +
            budget (lastAtOne params tid (front ++ window ++ [step])) data.samplingPos ≤
              longestPeriod params tid front := by
        intro data found
        obtain ⟨-, earlier, present, spent⟩ :=
          paced.left_moved made rates.2 keepsHere within.2 others.2 found
        have total := left earlier present
        have used := spent undecided
        omega
      refine ⟨?_, spent⟩
      cases decides : decidingAt params tid step with
      | none => simpa [decision, decides] using few
      | some pair =>
        have lives := mem_of_decidingAt made decides
        obtain ⟨data, found⟩ := AList.exists_lookup lives
        have least := (next.left data found).1
        have total := spent data found
        omega

/-- The sampling of a thread does not dry up in a run in which the thread is created at a positive
rate, its drawn periods are positive as an `int`, and its countdown has not run past zero when the
rate changes from 1. -/
theorem sampling_never_dries (reaches : (Client.machine params Client.SetUp).Reaches past client)
    (rates : ∀ step ∈ past, ∀ rate ∈ commandedRate step, Sampleable rate)
    (within : ∀ step ∈ past, DrawsWithin params tid step)
    (keeps : Always (KeepsCounting params tid) past) : NeverDries params tid past := by
  intro front window initial lives others enough
  by_contra negative
  obtain ⟨earlier, reached⟩ := reaches.initial initial
  obtain ⟨-, usedUp⟩ := usedUp_of_reaches reached
    (fun step member => rates step (initial.mem member))
    (fun step member => within step (initial.mem member)) (keeps.before initial)
  exact absurd enough (not_le.mpr (usedUp front window rfl lives others negative).1)

/-- A client that is started with this rate. -/
def startedAt (rate : ℕ) : Client .x64 where
  tracker := { samplingRate := rate, extSamplingRate := rate : MemoryTracker }.updateSampling

/-- The controller sets the rate, and the next check follows it. -/
def ratesTo (rate : ℕ) : List (ClientEvent .x64) :=
  [.setSamplingrate rate, .thread 2 .handleExtState]

/-- The rate is 1 for one call only, which leaves the countdown at 2. -/
def onceAtOne : List (ClientEvent .x64) :=
  threadStarted 2 :: ratesTo 1 ++ [.thread 2 (.funcCall 100 0)] ++ ratesTo 2 ++
    [.thread 2 (.funcCall 100 0), .thread 2 (.funcCall 100 3)]

theorem sampling_never_dries_once :
    NeverDries controlled 2 (Client.ran controlled Client.SetUp (startedAt 3) onceAtOne).1 :=
  sampling_never_dries (Client.reaches_ran controlled ⟨rfl, by decide, rfl⟩ onceAtOne)
    (by decide +kernel) (by decide +kernel) (by decide +kernel)

/-- A call at rate 1 brings the countdown to zero, and after the rate has changed no call is
sampled any more. -/
theorem sampling_dries_up :
    ¬ ∀ (layout : Layout) (params : RuntimeConfig) (past : List (ClientStep layout))
      (client : Client layout) (tid : ℕ),
        (Client.machine params Client.SetUp).Reaches past client →
          (∀ step ∈ past, ∀ rate ∈ commandedRate step, Sampleable rate) →
            (∀ step ∈ past, DrawsWithin params tid step) → NeverDries params tid past := by
  intro always
  let past := (Client.ran controlled Client.SetUp (startedAt 1) (threadStarted 2 ::
    [.thread 2 (.funcCall 100 0)] ++ ratesTo 2 ++ List.replicate 3 (.thread 2 (.funcCall 100 0)))).1
  have sampled := always .x64 controlled past _ 2
    (Client.reaches_ran controlled ⟨rfl, by decide, rfl⟩ _) (by decide +kernel) (by decide +kernel)
    (past.take 4) (past.drop 4) (by rw [List.take_append_drop])
    ⟨_, rfl, by decide +kernel⟩ (by decide +kernel) (by decide +kernel)
  exact absurd sampled (by decide +kernel)

end Drace
