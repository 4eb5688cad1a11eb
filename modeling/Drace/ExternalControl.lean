/-
This file says when the controller reaches all threads.

All threads share one flag for the state that was noticed last, and each has a
counter of its own. A check that finds the flag unlike the control block turns the
flag and moves the counter of the thread that makes the check, so no other thread
will notice the change. The controller reaches the threads whose checks find them
in step with the flag: then the flag and the counters tell the same.
-/

import Drace.Bounds

namespace Drace

open Session Machine

variable {layout : Layout} {params : RuntimeConfig} {session : Session layout}
  {client : Client layout}
  {past front : List (ClientStep layout)} {step : ClientStep layout} {tid : ℕ}
  {data : ShadowThreadState layout}

/-! ### What a history says -/

/-- Commands of the controller, checks and scopes. -/
def ClientEvent.controlling : ClientEvent layout → Bool
  | .enableDetector _ | .setSamplingrate _ | .thread _ .handleExtState | .thread _ .disableScope
  | .thread _ .enableScope => true
  | _ => false

/-- The number of open scopes of a thread after an event. -/
def ClientEvent.regionsAfter (tid regions : ℕ) : ClientEvent layout → ℕ
  | .thread other .disableScope => if other = tid then regions + 1 else regions
  | .thread other .enableScope => if other = tid then regions - 1 else regions
  | _ => regions

/-- Whether a thread has made a check since the last command after an event. -/
def ClientEvent.checkedAfter (tid : ℕ) (checked : Bool) : ClientEvent layout → Bool
  | .enableDetector _ => false
  | .thread other .handleExtState => checked || decide (other = tid)
  | _ => checked

/-- The last command after an event. -/
def ClientEvent.commandAfter (command : Bool) : ClientEvent layout → Bool
  | .enableDetector enabled => enabled
  | _ => command

/-- The number of scopes of a thread that are open after a history. -/
def openRegions (past : List (ClientStep layout)) (tid : ℕ) : ℕ :=
  past.foldl (fun regions step => step.event.regionsAfter tid regions) 0

/-- The thread has made a check since the last command of a history. -/
def checkedSince (past : List (ClientStep layout)) (tid : ℕ) : Bool :=
  past.foldl (fun checked step => step.event.checkedAfter tid checked) false

/-- The last command of a history; at the start recording is switched on. -/
def lastCommand (past : List (ClientStep layout)) : Bool :=
  past.foldl (fun command step => step.event.commandAfter command) true

theorem openRegions_append :
    openRegions (past ++ [step]) tid = step.event.regionsAfter tid (openRegions past tid) := by
  rw [openRegions, List.foldl_append]
  rfl

theorem checkedSince_append :
    checkedSince (past ++ [step]) tid = step.event.checkedAfter tid (checkedSince past tid) := by
  rw [checkedSince, List.foldl_append]
  rfl

theorem lastCommand_append :
    lastCommand (past ++ [step]) = step.event.commandAfter (lastCommand past) := by
  rw [lastCommand, List.foldl_append]
  rfl

/-- The thread that leaves a scope. -/
def leaving (step : ClientStep layout) : Option ℕ :=
  match step.event with
  | .thread tid .enableScope => some tid
  | _ => none

/-- The thread that makes a check. -/
def checking (step : ClientStep layout) : Option ℕ :=
  match step.event with
  | .thread tid .handleExtState => some tid
  | _ => none

/-- The thread whose detector is disabled: by a scope, or by a check that notices it. -/
def disabling (step : ClientStep layout) : Option ℕ :=
  match step.event with
  | .thread tid .disableScope => some tid
  | .thread tid .handleExtState =>
    if step.pre.tracker.enableExternal = true ∧ step.pre.tracker.extEnabled = false then some tid
      else none
  | _ => none

/-- The thread whose counter is counted down: by the end of a scope, or by a check that notices that
recording is switched on. -/
def countingDown (step : ClientStep layout) : Option ℕ :=
  match step.event with
  | .thread tid .enableScope => some tid
  | .thread tid .handleExtState =>
    if step.pre.tracker.enableExternal = false ∧ step.pre.tracker.extEnabled = true then some tid
      else none
  | _ => none

/-- A scope is left only while the thread has one open. -/
def NestedRegions (front : List (ClientStep layout)) (step : ClientStep layout) : Prop :=
  ∀ tid ∈ leaving step, 0 < openRegions front tid

/-- A check is made by a thread that is in step with the flag: its counter is the number of its open
scopes, and one more while the flag says that recording is off. -/
def InStep (front : List (ClientStep layout)) (step : ClientStep layout) : Prop :=
  ∀ tid ∈ checking step, ∀ data ∈ step.pre.threads.lookup tid,
    data.eventCnt = openRegions front tid + if step.pre.tracker.enableExternal then 0 else 1

/-- A detector is disabled only while the counter of its thread is zero. -/
def DisablesOutside (step : ClientStep layout) : Prop :=
  ∀ tid ∈ disabling step, ∀ data ∈ step.pre.threads.lookup tid, data.eventCnt = 0

instance : Decidable (NestedRegions front step) := inferInstanceAs (Decidable (∀ _ ∈ _, _))

instance : Decidable (InStep front step) := inferInstanceAs (Decidable (∀ _ ∈ _, ∀ _ ∈ _, _))

instance : Decidable (DisablesOutside step) := inferInstanceAs (Decidable (∀ _ ∈ _, ∀ _ ∈ _, _))

/-! ### One check -/

namespace Session

theorem extEnabled_noticeState : session.noticeState.tracker.extEnabled =
    session.tracker.extEnabled := by
  unfold noticeState
  split
  · simp only [endExclRegion, begExclRegion]
    split <;> rfl
  · rfl

theorem extEnabled_noticeRate : session.noticeRate.tracker.extEnabled =
    session.tracker.extEnabled := by
  unfold noticeRate
  split
  · simp only [MemoryTracker.updateSampling]
  · rfl

theorem extEnabled_handleExtState :
    (session.handleExtState params).tracker.extEnabled = session.tracker.extEnabled := by
  rw [handleExtState_eq]
  split
  · rw [extEnabled_noticeRate, extEnabled_noticeState]
  · rfl

end Session

/-- What a run keeps of a thread: its counter is at most one, it is the number of its open scopes
unless the thread follows a command that has switched recording off, and the detector is enabled
just while it is zero. -/
structure Controlled (regions : ℕ) (checked command : Bool)
    (data : ShadowThreadState layout) : Prop where
  single : data.eventCnt ≤ 1
  counts : ∃ off : Bool, data.eventCnt = regions + off.toNat ∧ (checked = true → off = !command)
  enabled : data.eventCnt = 0 → data.bufPtr ≠ 0
  disabled : data.eventCnt ≠ 0 → data.bufPtr = 0 ∧ data.bufPtrStored ≠ 0

namespace Controlled

variable {regions : ℕ} {checked command : Bool}

/-- A command has to be noticed again. -/
theorem commanded (controlled : Controlled regions checked command data) (next : Bool) :
    Controlled regions false next data where
  single := controlled.single
  counts := by
    obtain ⟨off, counts, -⟩ := controlled.counts
    exact ⟨off, counts, fun never => absurd never Bool.false_ne_true⟩
  enabled := controlled.enabled
  disabled := controlled.disabled

/-- Disabling the detector of a thread whose counter is zero. -/
theorem down (controlled : Controlled regions checked command data) (outside : data.eventCnt = 0)
    {nextRegions : ℕ} {nextChecked : Bool} {nextCommand : Bool} (off : Bool)
    (counts : 1 = nextRegions + off.toNat) (told : nextChecked = true → off = !nextCommand) :
    Controlled nextRegions nextChecked nextCommand data.disableScope := by
  have counted : data.disableScope.eventCnt = 1 := by
    show (data.eventCnt + 1) % layout.sizeRange = 1
    have flag := layout.one_lt_flagBit
    rw [outside, Nat.mod_eq_of_lt (by rw [layout.sizeRange_eq_flagBit]; omega)]
  exact
    { single := counted.le
      counts := ⟨off, counted.trans counts, told⟩
      enabled := fun zero => absurd (counted.symm.trans zero) Nat.one_ne_zero
      disabled := fun _ => ⟨rfl, controlled.enabled outside⟩ }

/-- Counting the counter of a thread down to zero enables its detector. -/
theorem up (controlled : Controlled regions checked command data) (inside : data.eventCnt = 1)
    {nextRegions : ℕ} {nextChecked : Bool} {nextCommand : Bool} (off : Bool)
    (counts : 0 = nextRegions + off.toNat) (told : nextChecked = true → off = !nextCommand) :
    Controlled nextRegions nextChecked nextCommand data.enableScope := by
  have counted : data.countDown = 0 := by
    have flag := layout.one_lt_flagBit
    rw [ShadowThreadState.countDown, inside, layout.sizeRange_eq_flagBit,
      show 1 + (2 * layout.flagBit - 1) = 2 * layout.flagBit by omega, Nat.mod_self]
  rw [ShadowThreadState.enableScope_eq]
  exact
    { single := counted.le.trans (Nat.zero_le _)
      counts := ⟨off, counted.trans counts, told⟩
      enabled := fun _ => by
        simp only [counted, if_true]
        exact (controlled.disabled (by rw [inside]; exact Nat.one_ne_zero)).2
      disabled := fun nonzero => absurd counted nonzero }

theorem disableScope (controlled : Controlled regions checked command data)
    (outside : data.eventCnt = 0) : Controlled (regions + 1) checked command data.disableScope := by
  obtain ⟨off, counts, told⟩ := controlled.counts
  exact controlled.down outside off (by omega) told

theorem enableScope (controlled : Controlled regions checked command data) (nested : 0 < regions) :
    Controlled (regions - 1) checked command data.enableScope := by
  obtain ⟨off, counts, told⟩ := controlled.counts
  have single := controlled.single
  exact controlled.up (by omega) off (by omega) told

/-- A check by a thread in step with the flag brings it in step with the command. -/
theorem check (session : Session layout)
    (controlled : Controlled regions checked session.tracker.extEnabled session.data)
    (driver : params.shmdriver = true)
    (inStep : session.data.eventCnt = regions + if session.tracker.enableExternal then 0 else 1)
    (outside : session.tracker.enableExternal = true → session.tracker.extEnabled = false →
      session.data.eventCnt = 0) :
    Controlled regions true session.tracker.extEnabled (session.handleExtState params).data := by
  rw [handleExtState_eq, if_pos driver, data_noticeRate, data_noticeState]
  cases command : session.tracker.extEnabled with
  | true =>
    cases flag : session.tracker.enableExternal with
    | true =>
      -- nothing is noticed, and the thread is in step already
      rw [flag] at inStep
      simp only [ne_eq, not_true_eq_false, if_false]
      exact ⟨controlled.single, ⟨false, inStep, fun _ => rfl⟩, controlled.enabled,
        controlled.disabled⟩
    | false =>
      have single := controlled.single
      rw [flag] at inStep
      simp only [Bool.false_eq_true, if_false] at inStep
      simp only [ne_eq, Bool.false_eq_true, not_false_eq_true, if_true]
      exact controlled.up (by omega) false (by simp only [Bool.toNat_false]; omega) fun _ => rfl
  | false =>
    cases flag : session.tracker.enableExternal with
    | true =>
      have zero := outside flag command
      rw [flag] at inStep
      simp only [if_true] at inStep
      simp only [ne_eq, Bool.true_eq_false, not_false_eq_true, if_true,
        Bool.false_eq_true, if_false]
      exact controlled.down zero true (by simp only [Bool.toNat_true]; omega) fun _ => rfl
    | false =>
      rw [flag] at inStep
      simp only [ne_eq, not_true_eq_false, if_false]
      exact ⟨controlled.single, ⟨true, inStep, fun _ => rfl⟩, controlled.enabled,
        controlled.disabled⟩

end Controlled

/-! ### Runs -/

/-- Recording is switched on, and all threads record outside all scopes. -/
structure Running (client : Client layout) : Prop where
  noticed : client.tracker.enableExternal = true
  command : client.tracker.extEnabled = true
  threads : ∀ tid, ∀ data ∈ client.threads.lookup tid, data.eventCnt = 0 ∧ data.isEnabled = true

/-- What a run keeps of the client. -/
structure InControl (past : List (ClientStep layout)) (client : Client layout) : Prop where
  command : client.tracker.extEnabled = lastCommand past
  threads : ∀ tid, ∀ data ∈ client.threads.lookup tid,
    Controlled (openRegions past tid) (checkedSince past tid) (lastCommand past) data

theorem Running.inControl (running : Running client) : InControl [] client where
  command := running.command
  threads tid data found := by
    obtain ⟨zero, enabled⟩ := running.threads tid data found
    exact ⟨zero.le.trans (Nat.zero_le _), ⟨false, zero, fun _ => rfl⟩,
      fun _ => ShadowThreadState.isEnabled_iff.mp enabled, fun nonzero => absurd zero nonzero⟩

namespace InControl

/-- A command of the controller. -/
theorem commanded (inControl : InControl past client) (enabled : Bool) {next : Client layout}
    (told : next.tracker.extEnabled = enabled) (threads : next.threads = client.threads)
    (commands : step.event = .enableDetector enabled) : InControl (past ++ [step]) next where
  command := by
    rw [lastCommand_append, commands]
    exact told
  threads tid data found := by
    rw [openRegions_append, checkedSince_append, lastCommand_append, commands]
    exact (inControl.threads tid data (threads ▸ found)).commanded _

/-- An event on one thread, which counts for no other thread and is no command. -/
theorem thread (inControl : InControl past client) {next : Session layout}
    (told : next.tracker.extEnabled = client.tracker.extEnabled)
    (controlled : Controlled (step.event.regionsAfter tid (openRegions past tid))
      (step.event.checkedAfter tid (checkedSince past tid)) (lastCommand past) next.data)
    (regions : ∀ other ≠ tid, ∀ count, step.event.regionsAfter other count = count)
    (checked : ∀ other ≠ tid, ∀ before, step.event.checkedAfter other before = before)
    (command : ∀ last, step.event.commandAfter last = last) :
    InControl (past ++ [step]) (client.withSession tid next) where
  command := by
    rw [lastCommand_append, command, ← inControl.command]
    exact told
  threads := by
    refine Client.forall_insert (fun other differs found member => ?_) ?_
    · rw [openRegions_append, checkedSince_append, lastCommand_append, regions other differs,
        checked other differs, command]
      exact inControl.threads other found member
    · rw [openRegions_append, checkedSince_append, lastCommand_append, command]
      exact controlled

theorem call {next : Client layout} {event : ClientEvent layout} {output : Unit}
    (inControl : InControl past client) (driver : params.shmdriver = true)
    (defined : client.call params event = some (next, output))
    (controlling : event.controlling = true)
    (nested : NestedRegions past ⟨client, event, next, output⟩)
    (inStep : InStep past ⟨client, event, next, output⟩)
    (outside : DisablesOutside ⟨client, event, next, output⟩) :
    InControl (past ++ [⟨client, event, next, output⟩]) next := by
  cases event with
  | threadInit => cases controlling
  | threadExit => cases controlling
  | thread tid event =>
    obtain ⟨data, found, made⟩ := Option.map_eq_some_iff.mp defined
    obtain ⟨rfl⟩ := Prod.mk.inj made
    have controlled := inControl.threads tid data found
    cases event with
    | disableScope =>
      refine inControl.thread rfl ?_ (fun other differs _ => if_neg differs.symm)
        (fun _ _ _ => rfl) fun _ => rfl
      simp only [ClientEvent.regionsAfter, if_true]
      exact controlled.disableScope (outside tid rfl data found)
    | enableScope =>
      refine inControl.thread rfl ?_ (fun other differs _ => if_neg differs.symm)
        (fun _ _ _ => rfl) fun _ => rfl
      simp only [ClientEvent.regionsAfter, if_true]
      exact controlled.enableScope (nested tid rfl)
    | handleExtState =>
      refine inControl.thread extEnabled_handleExtState ?_ (fun _ _ _ => rfl)
        (fun other differs _ => by simp [ClientEvent.checkedAfter, differs.symm]) fun _ => rfl
      simp only [ClientEvent.regionsAfter, ClientEvent.checkedAfter, decide_true, Bool.or_true]
      rw [← inControl.command] at controlled ⊢
      refine Controlled.check (client.session data) controlled driver (inStep tid rfl data found)
        fun noticed off => ?_
      exact outside tid (if_pos ⟨noticed, off⟩) data found
    | _ => cases controlling
  | enableDetector enabled =>
    obtain ⟨rfl⟩ := Prod.mk.inj (Option.some.inj defined)
    exact inControl.commanded enabled rfl rfl rfl
  | setSamplingrate rate =>
    obtain ⟨rfl⟩ := Prod.mk.inj (Option.some.inj defined)
    refine ⟨?_, fun other found member => ?_⟩
    · rw [lastCommand_append]
      exact inControl.command
    · rw [openRegions_append, checkedSince_append, lastCommand_append]
      exact inControl.threads other found member

end InControl

/-- What a run keeps that meets the conditions. -/
theorem inControl_of_reaches (reaches : (Client.machine params Running).Reaches past client)
    (driver : params.shmdriver = true) (controlling : ∀ step ∈ past, step.event.controlling = true)
    (nested : Always NestedRegions past) (inStep : Always InStep past)
    (outside : ∀ step ∈ past, DisablesOutside step) : InControl past client := by
  induction reaches with
  | start running => exact running.inControl
  | call earlier defined inductionHypothesis =>
    simp only [List.forall_mem_append, List.forall_mem_singleton] at controlling outside
    obtain ⟨nestedBefore, nestedHere⟩ := always_append.mp nested
    obtain ⟨inStepBefore, inStepHere⟩ := always_append.mp inStep
    exact (inductionHypothesis controlling.1 nestedBefore inStepBefore outside.1).call driver
      defined
      controlling.2 nestedHere inStepHere outside.2

/-- A counter that is counted down is not zero. -/
theorem InControl.countingDown (inControl : InControl past client) (pre : step.pre = client)
    (nested : NestedRegions past step) (inStep : InStep past step) :
    ∀ tid ∈ countingDown step, ∀ data ∈ step.pre.threads.lookup tid, data.eventCnt ≠ 0 := by
  obtain ⟨_, event, next, output⟩ := step
  subst pre
  intro tid counted data found
  cases event with
  | thread other event =>
    cases event with
    | enableScope =>
      obtain rfl := Option.some.inj counted
      obtain ⟨off, counts, -⟩ := (inControl.threads other data found).counts
      rw [counts]
      exact (Nat.add_pos_left (nested other rfl) _).ne'
    | handleExtState =>
      obtain ⟨⟨noticed, -⟩, same⟩ : _ ∧ some other = some tid := by
        simpa [Drace.countingDown] using counted
      obtain rfl := Option.some.inj same
      rw [inStep other rfl data found, if_neg (by simp [noticed])]
      exact Nat.succ_ne_zero _
    | _ => cases counted
  | _ => cases counted

/-- The controller reaches all threads in a run in which each check is made by a thread that is in
step with the flag, and each detector is disabled only while the counter of its thread is zero: once
all threads have made a check since the last command, and no scope is open, recording is switched on
or off on all of them as the command says; and no counter is counted down below zero. -/
theorem controller_reaches_all (reaches : (Client.machine params Running).Reaches past client)
    (driver : params.shmdriver = true) (controlling : ∀ step ∈ past, step.event.controlling = true)
    (nested : Always NestedRegions past) (inStep : Always InStep past)
    (outside : ∀ step ∈ past, DisablesOutside step) :
    ((∀ tid ∈ client.threads, checkedSince past tid = true) → (∀ tid, openRegions past tid = 0) →
      ∀ tid, ∀ data ∈ client.threads.lookup tid, data.isEnabled = lastCommand past) ∧
        ∀ front step, front ++ [step] <+: past → ∀ tid ∈ countingDown step,
          ∀ data ∈ step.pre.threads.lookup tid, data.eventCnt ≠ 0 := by
  have inControl := inControl_of_reaches reaches driver controlling nested inStep outside
  refine ⟨fun checked closed tid data found => ?_, fun front step initial => ?_⟩
  · have controlled := inControl.threads tid data found
    obtain ⟨off, counts, told⟩ := controlled.counts
    have member : tid ∈ client.threads :=
      AList.lookup_isSome.mp (Option.isSome_iff_exists.mpr ⟨data, found⟩)
    have follows := told (checked tid member)
    rw [closed tid, Nat.zero_add] at counts
    cases command : lastCommand past with
    | true =>
      rw [command] at follows
      rw [follows] at counts
      exact ShadowThreadState.isEnabled_iff.mpr (controlled.enabled counts)
    | false =>
      rw [command] at follows
      rw [follows] at counts
      refine ShadowThreadState.isEnabled_eq_false.mpr (controlled.disabled ?_).1
      rw [counts]
      exact Nat.one_ne_zero
  · obtain ⟨earlier, -⟩ := reaches.step initial
    have within : ∀ other ∈ front, other ∈ past := fun other member =>
      initial.subset (List.mem_append_left _ member)
    have before := List.IsPrefix.trans (List.prefix_append front [step]) initial
    have control := inControl_of_reaches earlier driver
      (fun other member => controlling other (within other member)) (nested.before before)
      (inStep.before before) fun other member => outside other (within other member)
    exact control.countingDown rfl (nested front step initial) (inStep front step initial)

/-- The threads of a client with one thread. -/
def oneThread : AList fun _ : ℕ => ShadowThreadState .x64 :=
  AList.insert 1 (started controlled {} 1).data ∅

/-- A client with two threads. -/
def twoThreads : Client .x64 where
  threads := oneThread.insert 2 (started controlled {} 2).data

theorem running_twoThreads : Running twoThreads where
  noticed := rfl
  command := rfl
  threads := by
    have first : ∀ tid, ∀ data ∈ oneThread.lookup tid, data.eventCnt = 0 ∧
        data.isEnabled = true := by
      refine Client.forall_insert (fun tid _ data found => ?_) (by decide)
      rw [AList.lookup_empty] at found
      cases found
    exact Client.forall_insert (fun tid _ => first tid) (by decide)

/-- One thread follows two commands before the other one makes a check. -/
def followsTwice : List (ClientEvent .x64) :=
  [.thread 2 .disableScope, .enableDetector false, .thread 1 .handleExtState, .enableDetector true,
    .thread 1 .handleExtState, .thread 2 .enableScope, .thread 2 .handleExtState]

theorem controller_reaches_all_follows_twice :
    let made := Client.ran controlled Running twoThreads followsTwice
    ((∀ tid ∈ made.2.threads, checkedSince made.1 tid = true) →
      (∀ tid, openRegions made.1 tid = 0) →
      ∀ tid, ∀ data ∈ made.2.threads.lookup tid, data.isEnabled = lastCommand made.1) ∧
        ∀ front step, front ++ [step] <+: made.1 → ∀ tid ∈ countingDown step,
          ∀ data ∈ step.pre.threads.lookup tid, data.eventCnt ≠ 0 :=
  controller_reaches_all (Client.reaches_ran controlled running_twoThreads followsTwice) rfl
    (by decide)
    (by decide) (by decide) (by decide)

/-- The check of the first thread turns the shared flag, so that of the second one notices nothing.
-/
theorem second_thread_missed :
    ¬ ∀ (layout : Layout) (params : RuntimeConfig) (past : List (ClientStep layout))
      (client : Client layout), (Client.machine params Running).Reaches past client →
        params.shmdriver = true → (∀ step ∈ past, step.event.controlling = true) →
          Always NestedRegions past →
            ((∀ tid ∈ client.threads, checkedSince past tid = true) →
              (∀ tid, openRegions past tid = 0) →
              ∀ tid, ∀ data ∈ client.threads.lookup tid, data.isEnabled = lastCommand past) ∧
                ∀ (front : List (ClientStep layout)) (step : ClientStep layout),
                  front ++ [step] <+: past → ∀ tid ∈ countingDown step,
                    ∀ data ∈ step.pre.threads.lookup tid, data.eventCnt ≠ 0 := by
  intro always
  let events : List (ClientEvent .x64) :=
    [.enableDetector false, .thread 1 .handleExtState, .thread 2 .handleExtState]
  have reached := (always .x64 controlled _ _
    (Client.reaches_ran controlled running_twoThreads events) rfl
    (by decide) (by decide)).1
  have checked : ∀ tid ∈ (Client.ran controlled Running twoThreads events).2.threads,
      checkedSince (Client.ran controlled Running twoThreads events).1 tid = true := by
    intro tid member
    have keys : tid ∈ [2, 1] := member
    simp only [List.mem_cons, List.not_mem_nil, or_false] at keys
    rcases keys with rfl | rfl <;> decide
  have missed := reached checked (fun _ => rfl) 2
    (((Client.ran controlled Running twoThreads events).2.threads.lookup 2).get (by decide))
    (Option.get_mem _)
  exact absurd missed (by decide)

end Drace
