/-
This file says when the shadow stack follows the call stack.

A call beyond the capacity is ignored, but its return is not: it pops at least one
frame of a call that is still open. So the shadow stack holds the outermost open
calls just where no return comes while more calls are open than it has room for.
-/

import Drace.Analysis

namespace Drace

open Session Machine

variable {layout : Layout} {params : RuntimeConfig} {session next : Session layout}
  {past front : List (ThreadStep layout)} {step : ThreadStep layout} {frames calls : List ℕ}
  {callIns target : ℕ}

/-! ### What a history says -/

/-- The open calls after an event, innermost first. -/
def ThreadEvent.callsAfter (calls : List ℕ) : ThreadEvent → List ℕ
  | .funcCall callIns _ => callIns :: calls
  | .funcRet _ => calls.tail
  | _ => calls

/-- The call sites of the calls that are open after a history, innermost first. -/
def openCalls (past : List (ThreadStep layout)) : List ℕ :=
  past.foldl (fun calls step => step.event.callsAfter calls) []

theorem openCalls_append : openCalls (past ++ [step]) = step.event.callsAfter (openCalls past) := by
  rw [openCalls, List.foldl_append]
  rfl

/-- The outermost of the open calls, as many as the shadow stack has room for. -/
def outermost (calls : List ℕ) : List ℕ := calls.drop (calls.length - ShadowStack.maxSize)

/-- The target of a return, if the step is one. -/
def returning (step : ThreadStep layout) : Option ℕ :=
  match step.event with
  | .funcRet target => some target
  | _ => none

/-- A return goes behind the call instruction of the innermost open call. -/
def WellNested (front : List (ThreadStep layout)) (step : ThreadStep layout) : Prop :=
  ∀ target ∈ returning step, ∃ callIns ∈ (openCalls front).head?,
    callIns < target ∧ target ≤ callIns + layout.sizeofPtr

/-- A return comes while the shadow stack has room for all open calls. -/
def Shallow (front : List (ThreadStep layout)) (step : ThreadStep layout) : Prop :=
  ∀ _ ∈ returning step, (openCalls front).length ≤ ShadowStack.maxSize

/-- The shadow stack holds the outermost of the open calls. -/
def Stacked (front : List (ThreadStep layout)) (step : ThreadStep layout) : Prop :=
  step.post.data.stack.frames = outermost (openCalls (front ++ [step]))

instance : Decidable (WellNested front step) :=
  inferInstanceAs (Decidable (∀ _ ∈ _, ∃ _ ∈ _, _ ∧ _))

instance : Decidable (Shallow front step) := inferInstanceAs (Decidable (∀ _ ∈ _, _))

instance : Decidable (Stacked front step) := inferInstanceAs (Decidable (_ = _))

theorem outermost_of_le (room : calls.length ≤ ShadowStack.maxSize) : outermost calls = calls := by
  rw [outermost, Nat.sub_eq_zero_of_le room, List.drop_zero]

theorem length_outermost : (outermost calls).length = min calls.length ShadowStack.maxSize := by
  rw [outermost, List.length_drop]
  omega

/-- A call beyond the capacity is none of the outermost ones. -/
theorem outermost_cons (full : ShadowStack.maxSize ≤ calls.length) :
    outermost (callIns :: calls) = outermost calls := by
  rw [outermost, outermost, List.length_cons, Nat.sub_add_comm full, List.drop_succ_cons]

/-! ### Pushes and pops -/

/-- The innermost frame is popped alone if it fits. -/
theorem unwind_of_returnsTo (fits : ReturnsTo layout callIns target) :
    (unwind layout target (callIns :: frames)).1 = frames := by
  rw [unwind, if_pos fits]

/-- A frame is popped in any case. -/
theorem unwind_length_lt (nonempty : frames ≠ []) :
    (unwind layout target frames).1.length < frames.length := by
  cases frames with
  | nil => exact absurd rfl nonempty
  | cons callIns rest =>
    rw [unwind, List.length_cons]
    split
    · exact Nat.lt_succ_self _
    · exact Nat.lt_succ_of_le (unwind_length_le layout target rest)

theorem stack_switchSampling (draw : ℕ) :
    (session.switchSampling draw).data.stack = session.data.stack := by
  obtain ⟨position, same⟩ := session.switchSampling_eq draw
  rw [same]

theorem frames_pushStack : (session.pushStack callIns).data.stack.frames =
    if session.data.stack.frames.length < ShadowStack.maxSize
      then callIns :: session.data.stack.frames
    else session.data.stack.frames := by
  unfold pushStack ShadowStack.push
  split
  · simp only [detector]
  · rfl

/-- A call is pushed if there is room for it. -/
theorem frames_onFuncCall (draw : ℕ) : (session.onFuncCall params callIns draw).data.stack.frames =
    if session.data.stack.frames.length < ShadowStack.maxSize
      then callIns :: session.data.stack.frames
    else session.data.stack.frames := by
  have frame : session.Analyzed (session.analyzeAccess params) := analyzed_analyzeAccess
  have decided : ((session.analyzeAccess params).switchSampling draw).data.stack =
      session.data.stack := by
    rw [stack_switchSampling, frame.stack]
  rw [← decided]
  unfold onFuncCall
  simp only
  rw [frames_pushStack]
  split <;> rfl

theorem frames_onFuncRet : (session.onFuncRet params target).data.stack.frames =
    (unwind layout target session.data.stack.frames).1 := by
  have frame : session.Analyzed (session.analyzeAccess params) := analyzed_analyzeAccess
  rw [← frame.stack]
  rfl

theorem kept_stack (stack : ShadowStack) :
    Kept params fun session : Session layout => session.data.stack = stack where
  flush session same := by
    have frame : session.Analyzed (session.processBuffer params) := analyzed_processBuffer
    rw [frame.stack, same]
  book _ _ same := same
  detector _ _ _ same := same

theorem stack_instrumentMemFast (ref : MemRef) :
    (session.instrumentMemFast params ref).data.stack = session.data.stack := by
  unfold instrumentMemFast
  split
  · rfl
  · simp only
    split
    · rw [analyzed_processBuffer.stack]
    · rfl

/-- Only calls and returns change the shadow stack. -/
theorem stack_step {event : ThreadEvent} (called : ∀ callIns draw, event ≠ .funcCall callIns draw)
    (returned : ∀ target, event ≠ .funcRet target) :
    (session.step params event).data.stack = session.data.stack := by
  cases event with
  | record addr pc size write => exact stack_instrumentMemFast _
  | processBuffer => exact analyzed_processBuffer.stack
  | analyzeAccess => exact analyzed_analyzeAccess.stack
  | switchSampling draw => exact stack_switchSampling draw
  | handleExtState => exact analyzed_handleExtState.stack
  | disableScope => rfl
  | enableScope => exact analyzed_endExclRegion.stack
  | funcCall callIns draw => exact absurd rfl (called callIns draw)
  | funcRet target => exact absurd rfl (returned target)
  | _ => exact (kept_stack session.data.stack).callback rfl rfl

/-! ### Runs -/

/-- A return with room for all open calls pops the frame of the innermost one, and any other return
pops a frame too many. -/
theorem stacked_onFuncRet_iff (held : session.data.stack.frames = outermost (callIns :: calls))
    (fits : ReturnsTo layout callIns target) :
    (session.onFuncRet params target).data.stack.frames = outermost calls ↔
      (callIns :: calls).length ≤ ShadowStack.maxSize := by
  rw [frames_onFuncRet, held]
  constructor
  · intro same
    by_contra full
    have filled : ShadowStack.maxSize ≤ calls.length := by
      rw [List.length_cons] at full
      omega
    have nonempty : outermost (callIns :: calls) ≠ [] := by
      rw [outermost_cons filled, ← List.length_pos_iff, length_outermost, Nat.min_eq_right filled]
      decide
    have popped : (unwind layout target (outermost (callIns :: calls))).1.length <
        (outermost (callIns :: calls)).length := unwind_length_lt nonempty
    rw [same, outermost_cons filled] at popped
    exact lt_irrefl _ popped
  · intro room
    rw [outermost_of_le room, unwind_of_returnsTo fits, outermost_of_le]
    exact Nat.le_of_succ_le room

theorem stacked_onFuncCall (held : session.data.stack.frames = outermost calls) (draw : ℕ) :
    (session.onFuncCall params callIns draw).data.stack.frames = outermost (callIns :: calls) := by
  rw [frames_onFuncCall, held, length_outermost]
  split
  · next room =>
    have few : calls.length < ShadowStack.maxSize := by omega
    rw [outermost_of_le few.le, outermost_of_le]
    exact few
  · next full => rw [outermost_cons (by omega)]

/-- What a run keeps of the shadow stack. -/
theorem stacked_of_reaches {initial : Session layout} (empty : initial.data.stack.frames = [])
    (reaches : (Session.machine params (initial = ·)).Reaches past session)
    (nested : Always WellNested past) (right : Always Shallow past ∨ Always Stacked past) :
    session.data.stack.frames = outermost (openCalls past) ∧ Always Shallow past ∧
      Always Stacked past := by
  induction reaches with
  | start begins =>
    obtain rfl := begins
    exact ⟨empty, always_nil, always_nil⟩
  | @call past before next event output earlier defined inductionHypothesis =>
    obtain ⟨rfl⟩ := Prod.mk.inj (Option.some.inj defined)
    obtain ⟨nestedBefore, nestedHere⟩ := always_append.mp nested
    obtain ⟨held, shallow, stacked⟩ := inductionHypothesis nestedBefore
      (right.imp (fun all => (always_append.mp all).1) fun all => (always_append.mp all).1)
    have after : openCalls (past ++ [⟨before, event, before.step params event, output⟩]) =
        event.callsAfter (openCalls past) := openCalls_append
    -- one step keeps the frames, and it is a shallow one
    suffices here : (before.step params event).data.stack.frames =
        outermost (event.callsAfter (openCalls past)) ∧
          Shallow past ⟨before, event, before.step params event, output⟩ by
      refine ⟨after ▸ here.1, always_append.mpr ⟨shallow, here.2⟩, always_append.mpr ⟨stacked, ?_⟩⟩
      rw [Stacked, after]
      exact here.1
    cases event with
    | funcCall callIns draw =>
      exact ⟨stacked_onFuncCall held draw, fun _ returns => by cases returns⟩
    | funcRet target =>
      obtain ⟨callIns, top, below, above⟩ := nestedHere target rfl
      obtain ⟨calls, opened⟩ : ∃ calls, openCalls past = callIns :: calls :=
        ⟨_, List.eq_cons_of_mem_head? top⟩
      rw [opened] at held
      have exactly : (before.onFuncRet params target).data.stack.frames = outermost calls ↔
          (callIns :: calls).length ≤ ShadowStack.maxSize :=
            stacked_onFuncRet_iff held ⟨below.le, above⟩
      have popped : ThreadEvent.callsAfter (openCalls past) (.funcRet target) = calls := by
        rw [opened]
        rfl
      have room : (callIns :: calls).length ≤ ShadowStack.maxSize := by
        rcases right with all | all
        · exact opened ▸ (always_append.mp all).2 target rfl
        · have holds := (always_append.mp all).2
          rw [Stacked, after, popped] at holds
          exact exactly.mp holds
      rw [popped]
      exact ⟨exactly.mpr room, fun _ _ => opened ▸ room⟩
    | _ =>
      refine ⟨?_, fun _ returns => by cases returns⟩
      rw [stack_step (fun _ _ other => by cases other) fun _ other => by cases other]
      exact held

/-- The shadow stack holds the outermost open calls after every event just if no return comes while
more calls are open than it has room for. -/
theorem shadow_stack_follows_iff {initial : Session layout} (empty : initial.data.stack.frames = [])
    (reaches : (Session.machine params (initial = ·)).Reaches past session)
    (nested : Always WellNested past) : Always Stacked past ↔ Always Shallow past :=
  ⟨fun stacked => (stacked_of_reaches empty reaches nested (Or.inr stacked)).2.1,
    fun shallow => (stacked_of_reaches empty reaches nested (Or.inl shallow)).2.2⟩

/-- A function calls itself and returns twice. -/
def recursesOnce : List ThreadEvent :=
  [.funcCall 100 0, .funcCall 100 0, .record 8 101 4 true, .funcRet 104, .funcRet 104]

theorem shadow_stack_follows_iff_recursion :
    let past := (Session.ran plain (started plain {} 2) recursesOnce).1
    Always Stacked past ↔ Always Shallow past :=
  shadow_stack_follows_iff rfl (Session.reaches_ran rfl recursesOnce) (by decide)

/-- The return of the sixteenth of nested calls finds no frame of its own and pops all others. -/
theorem deep_return_pops_all :
    ¬ ∀ (layout : Layout) (params : RuntimeConfig) (initial session : Session layout)
      (past : List (ThreadStep layout)), initial.data.stack.frames = [] →
        (Session.machine params (initial = ·)).Reaches past session → Always WellNested past →
          Always Stacked past := by
  intro always
  let events : List ThreadEvent :=
    (List.range 16).map (fun index => .funcCall (100 * (index + 1)) 0) ++ [.funcRet 1604]
  have stacked := always .x64 plain (started plain {} 2) _ _ rfl (Session.reaches_ran rfl events)
    (by decide +kernel)
  exact absurd stacked (by decide +kernel)

end Drace
