/-
This file says that the shadow stack and the call path of the detector move
together.

The shadow stack tells the detector of each push and of each pop. A push that
finds no room is told to nobody, and a return pops only while there are frames. So
the path the detector keeps for the thread holds the frames of the shadow stack at
any time, no function is left on an empty path, and the path leaves room for one
more program counter. Between calls and returns nothing moves.
-/

import Drace.Bounds
import Drace.CallStack
import Drace.Reports
import Drace.StackDepot

namespace Drace

open Session Machine

variable {layout : Layout} {params : RuntimeConfig} {session next last : Session layout}
  {past : List (ThreadStep layout)} {event : ThreadEvent} {calls new : List Event} {call : Event}
  {tls callIns target : ℕ}

/-! ### What the calls say -/

/-- The functions the detector sees a thread in after these calls, outermost first. -/
def detectorPath (tls : ℕ) (calls : List Event) : List ℕ :=
  calls.foldl (fun path call => call.callPath tls path) []

/-- What the depot of a thread is asked for when a function is entered or left. -/
def Event.depotCall (tls : ℕ) : Event → Option DepotCall
  | .funcEnter other pc => if other = tls then some (.pushStackElement pc) else none
  | .funcExit other => if other = tls then some .popStackElement else none
  | _ => none

/-- No function is left outside of all functions, and the path never exceeds the shadow stack. -/
structure Disciplined (tls : ℕ) (calls : List Event) : Prop where
  exits : ∀ front, front ++ [.funcExit tls] <+: calls → detectorPath tls front ≠ []
  fits : ∀ front, front <+: calls → (detectorPath tls front).length ≤ maxStackSize - 1

/-- The call neither enters nor leaves a function. -/
def Event.still : Event → Bool
  | .funcEnter .. | .funcExit _ => false
  | _ => true

theorem Event.still_of_tracking (tracking : call.tracking = true) : call.still = true := by
  cases call with
  | funcEnter | funcExit => cases tracking
  | _ => rfl

theorem Event.still_of_wrapped (wrapped : call.wrapped = true) : call.still = true := by
  cases call with
  | funcEnter | funcExit => cases wrapped
  | _ => rfl

theorem Event.callPath_of_still (still : call.still = true) (path : List ℕ) :
    call.callPath tls path = path := by
  cases call with
  | funcEnter | funcExit => cases still
  | _ => rfl

theorem detectorPath_append :
    detectorPath tls (calls ++ [call]) = call.callPath tls (detectorPath tls calls) := by
  rw [detectorPath, List.foldl_append]
  rfl

theorem detectorPath_enter {pc : ℕ} :
    detectorPath tls (calls ++ [.funcEnter tls pc]) = detectorPath tls calls ++ [pc] := by
  rw [detectorPath_append, Event.callPath, if_pos rfl]

theorem detectorPath_exit :
    detectorPath tls (calls ++ [.funcExit tls]) = (detectorPath tls calls).dropLast := by
  rw [detectorPath_append, Event.callPath, if_pos rfl]

theorem detectorPath_still (still : ∀ call ∈ new, call.still = true) :
    detectorPath tls (calls ++ new) = detectorPath tls calls := by
  induction new using List.reverseRecOn with
  | nil => rw [List.append_nil]
  | append_singleton new call inductionHypothesis =>
    rw [← List.append_assoc, detectorPath_append,
      Event.callPath_of_still (still call (List.mem_append_right _ (List.mem_singleton_self _))),
      inductionHypothesis fun call member => still call (List.mem_append_left _ member)]

namespace Disciplined

theorem nil : Disciplined tls [] where
  exits front initial := absurd initial.length_le (by simp)
  fits front initial := by
    rw [List.prefix_nil.mp initial]
    exact Nat.zero_le _

theorem append (disciplined : Disciplined tls calls)
    (exits : call = .funcExit tls → detectorPath tls calls ≠ [])
    (fits : (detectorPath tls (calls ++ [call])).length ≤ maxStackSize - 1) :
    Disciplined tls (calls ++ [call]) where
  exits front initial := by
    rcases List.prefix_concat_iff.mp initial with same | shorter
    · obtain ⟨rfl, last⟩ := List.append_inj' same rfl
      exact exits (List.singleton_inj.mp last).symm
    · exact disciplined.exits front shorter
  fits front initial := by
    rcases List.prefix_concat_iff.mp initial with rfl | shorter
    · exact fits
    · exact disciplined.fits front shorter

theorem still (disciplined : Disciplined tls calls) (still : ∀ call ∈ new, call.still = true) :
    Disciplined tls (calls ++ new) := by
  induction new using List.reverseRecOn with
  | nil => rwa [List.append_nil]
  | append_singleton new call inductionHypothesis =>
    have before := fun call member => still call (List.mem_append_left _ member)
    have last := still call (List.mem_append_right _ (List.mem_singleton_self _))
    rw [← List.append_assoc]
    refine (inductionHypothesis before).append (fun exits => ?_) ?_
    · rw [exits] at last
      cases last
    · rw [detectorPath_append, Event.callPath_of_still last, detectorPath_still before]
      exact disciplined.fits calls (List.prefix_refl _)

/-- As many functions can be left as the thread is in. -/
theorem leave (disciplined : Disciplined tls calls) (count : ℕ)
    (inside : count ≤ (detectorPath tls calls).length) :
    Disciplined tls (calls ++ List.replicate count (.funcExit tls)) ∧
      detectorPath tls (calls ++ List.replicate count (.funcExit tls)) =
        (detectorPath tls calls).rdrop count := by
  induction count with
  | zero => exact ⟨by simpa using disciplined, by simp⟩
  | succ count inductionHypothesis =>
    obtain ⟨left, path⟩ := inductionHypothesis (Nat.le_of_succ_le inside)
    have dropped : detectorPath tls (calls ++ List.replicate count (.funcExit tls) ++
        [.funcExit tls]) = (detectorPath tls calls).rdrop (count + 1) := by
      rw [detectorPath_exit, path, List.dropLast_eq_take, List.rdrop, List.rdrop, List.length_take,
        List.take_take]
      congr 1
      omega
    rw [List.replicate_succ', ← List.append_assoc]
    refine ⟨left.append (fun _ none => ?_) ?_, dropped⟩
    · have length := congrArg List.length (path.symm.trans none)
      rw [List.rdrop, List.length_take, List.length_nil] at length
      omega
    · rw [dropped, List.rdrop]
      exact (List.length_take_le' _ _).trans (disciplined.fits calls (List.prefix_refl _))

/-- The depot of the thread makes all its pushes and pops, and holds the same path. -/
theorem depot (disciplined : Disciplined tls calls) : ∃ past depot,
    stackDepot.Reaches past depot ∧ past.map Step.event = calls.filterMap (Event.depotCall tls) ∧
      depot.callPath = detectorPath tls calls := by
  have exits := disciplined.exits
  clear disciplined
  induction calls using List.reverseRecOn with
  | nil => exact ⟨[], {}, .start rfl, rfl, StackTrace.callPath_new⟩
  | append_singleton calls call inductionHypothesis =>
    obtain ⟨past, depot, reaches, asked, same⟩ := inductionHypothesis fun front initial =>
      exits front (initial.trans (List.prefix_append _ _))
    rw [List.filterMap_append, ← asked, detectorPath_append, ← same]
    cases call with
    | funcEnter other pc =>
      rw [Event.callPath]
      by_cases own : other = tls
      · rw [if_pos own]
        have call : stackDepot.call depot (.pushStackElement pc) =
            some (depot.pushStackElement pc, none) := rfl
        exact ⟨_, _, reaches.call call, by simp [Event.depotCall, own], StackTrace.callPath_push pc⟩
      · rw [if_neg own]
        exact ⟨past, depot, reaches, by simp [Event.depotCall, own], rfl⟩
    | funcExit other =>
      rw [Event.callPath]
      by_cases own : other = tls
      · subst own
        have inside : depot.callPath ≠ [] := same ▸ exits calls (List.prefix_refl _)
        obtain ⟨popped, defined⟩ := Option.ne_none_iff_exists'.mp
          (mt StackTrace.popStackElement_eq_none_iff.mp inside)
        obtain ⟨element, path⟩ := StackTrace.callPath_pop defined
        have call : stackDepot.call depot .popStackElement = some (popped, none) := by
          simp [stackDepot, defined]
        rw [if_pos rfl]
        exact ⟨_, popped, reaches.call call, by simp [Event.depotCall], by simp [path]⟩
      · rw [if_neg own]
        exact ⟨past, depot, reaches, by simp [Event.depotCall, own], rfl⟩
    | _ => exact ⟨past, depot, reaches, by simp [Event.depotCall], rfl⟩

end Disciplined

/-! ### What the events of a thread do -/

/-- As many frames are popped as pops are counted. -/
theorem unwind_eq_drop (layout : Layout) (target : ℕ) (frames : List ℕ) :
    (unwind layout target frames).1 = frames.drop (unwind layout target frames).2 ∧
      (unwind layout target frames).2 ≤ frames.length := by
  induction frames with
  | nil => exact ⟨rfl, le_rfl⟩
  | cons callIns rest inductionHypothesis =>
    rw [unwind, List.length_cons]
    split
    · exact ⟨rfl, Nat.succ_le_succ (Nat.zero_le _)⟩
    · exact ⟨inductionHypothesis.1, Nat.succ_le_succ inductionHypothesis.2⟩

namespace Session

/-- Neither frames nor functions change, and the handle is at most set to the thread's own. -/
structure Rests (params : RuntimeConfig) (session next : Session layout) : Prop where
  calls : ∃ new, next.calls = session.calls ++ new ∧ ∀ call ∈ new, call.still = true
  stack : next.data.stack = session.data.stack
  tid : next.data.tid = session.data.tid
  handle : next.data.detectorData = session.data.detectorData ∨
    next.data.detectorData = params.forkHandle session.data.tid

namespace Rests

theorem refl (session : Session layout) : Rests params session session :=
  ⟨⟨[], (List.append_nil _).symm, by simp⟩, rfl, rfl, Or.inl rfl⟩

theorem trans (first : Rests params session next) (second : Rests params next last) :
    Rests params session last where
  calls := by
    obtain ⟨new, added, still⟩ := first.calls
    obtain ⟨more, addedMore, stillMore⟩ := second.calls
    refine ⟨new ++ more, by rw [addedMore, added, List.append_assoc], ?_⟩
    exact List.forall_mem_append.mpr ⟨still, stillMore⟩
  stack := second.stack.trans first.stack
  tid := second.tid.trans first.tid
  handle := by
    rcases second.handle with same | own
    · rw [same]
      exact first.handle
    · exact Or.inr (own.trans (by rw [first.tid]))

/-- Changes of the data that concern none of this. -/
theorem same (calls : next.calls = session.calls) (stack : next.data.stack = session.data.stack)
    (tid : next.data.tid = session.data.tid)
    (handle : next.data.detectorData = session.data.detectorData) : Rests params session next :=
  ⟨⟨[], by rw [calls, List.append_nil], by simp⟩, stack, tid, Or.inl handle⟩

end Rests

theorem detectorData_handleExtState :
    (session.handleExtState params).data.detectorData = session.data.detectorData := by
  rw [handleExtState_eq]
  split
  · rw [data_noticeRate, data_noticeState]
    split
    · split
      · rw [ShadowThreadState.enableScope_eq]
      · rfl
    · rfl
  · rfl

/-- An analysis sets the handle of a thread that has none. -/
theorem detectorData_analyzeAccess : (session.analyzeAccess params).data.detectorData =
    if session.data.detectorData = 0 then params.forkHandle session.data.tid
    else session.data.detectorData := by
  have dumped : ∀ session : Session layout,
      (session.dumpBuffer params).data.detectorData = session.data.detectorData := by
    intro session
    unfold dumpBuffer
    split <;> rfl
  have checked : ∀ session : Session layout,
      (session.checkExtState params).data.detectorData = session.data.detectorData := by
    intro session
    unfold checkExtState
    split
    · exact detectorData_handleExtState
    · rfl
  rw [analyzeAccess, dumped, checked, lazyInit]
  split <;> rfl

theorem rests_analyzeAccess : Rests params session (session.analyzeAccess params) := by
  have frame : session.Analyzed (session.analyzeAccess params) := analyzed_analyzeAccess
  obtain ⟨new, added, tracking⟩ := frame.calls
  refine ⟨⟨new, added, fun call made => Event.still_of_tracking (tracking call made)⟩,
    frame.stack, frame.tid, ?_⟩
  rw [detectorData_analyzeAccess]
  split
  · exact Or.inr rfl
  · exact Or.inl rfl

theorem rests_processBuffer : Rests params session (session.processBuffer params) :=
  rests_analyzeAccess.trans (.same rfl rfl rfl rfl)

theorem rests_switchSampling (draw : ℕ) : Rests params session (session.switchSampling draw) := by
  obtain ⟨position, same⟩ := session.switchSampling_eq draw
  rw [same]
  exact .same rfl rfl rfl rfl

theorem rests_instrumentMemFast (ref : MemRef) :
    Rests params session (session.instrumentMemFast params ref) := by
  unfold instrumentMemFast
  split
  · exact .refl session
  · simp only
    split
    · refine .trans ?_ rests_processBuffer
      exact .same rfl rfl rfl rfl
    · exact .same rfl rfl rfl rfl

theorem rests_handleExtState : Rests params session (session.handleExtState params) := by
  have frame : session.Analyzed (session.handleExtState params) := analyzed_handleExtState
  obtain ⟨new, added, tracking⟩ := frame.calls
  exact ⟨⟨new, added, fun call made => Event.still_of_tracking (tracking call made)⟩, frame.stack,
    frame.tid, Or.inl detectorData_handleExtState⟩

theorem Worked.rests (worked : Worked params session next) : Rests params session next := by
  induction worked with
  | refl => exact .refl session
  | flush _ inductionHypothesis => exact inductionHypothesis.trans rests_processBuffer
  | book book _ inductionHypothesis => exact inductionHypothesis.trans (.same rfl rfl rfl rfl)
  | detector wrapped _ inductionHypothesis =>
    refine inductionHypothesis.trans ⟨⟨[_], rfl, ?_⟩, rfl, rfl, Or.inl rfl⟩
    exact fun call made => (List.mem_singleton.mp made) ▸ Event.still_of_wrapped wrapped

/-- Between calls and returns nothing moves. -/
theorem rests_step (called : ∀ callIns draw, event ≠ .funcCall callIns draw)
    (returned : ∀ target, event ≠ .funcRet target) :
    Rests params session (session.step params event) := by
  cases event with
  | record addr pc size write => exact rests_instrumentMemFast _
  | processBuffer => exact rests_processBuffer
  | analyzeAccess => exact rests_analyzeAccess
  | switchSampling draw => exact rests_switchSampling draw
  | handleExtState => exact rests_handleExtState
  | disableScope => exact .same rfl rfl rfl rfl
  | enableScope =>
    show Rests params session session.endExclRegion
    rw [endExclRegion, ShadowThreadState.enableScope_eq]
    exact .same rfl rfl rfl rfl
  | funcCall callIns draw => exact absurd rfl (called callIns draw)
  | funcRet target => exact absurd rfl (returned target)
  | _ => exact (Worked.callback rfl).rests

/-- A thread as the client creates it. -/
def Created (params : RuntimeConfig) (session : Session layout) : Prop :=
  ∃ tracker tid memBuf memory appstack,
    session = eventThreadInit params tracker tid memBuf memory appstack

/-- The path of the detector holds the frames of the shadow stack. -/
structure Mirrored (params : RuntimeConfig) (session : Session layout) : Prop where
  handle : session.data.detectorData = 0 ∨
    session.data.detectorData = params.forkHandle session.data.tid
  path : detectorPath (params.forkHandle session.data.tid) session.calls =
    session.data.stack.frames.reverse
  disciplined : Disciplined (params.forkHandle session.data.tid) session.calls

namespace Mirrored

theorem rest (mirrored : Mirrored params session) (rests : Rests params session next) :
    Mirrored params next := by
  obtain ⟨new, added, still⟩ := rests.calls
  refine ⟨?_, ?_, ?_⟩
  · rw [rests.tid]
    rcases rests.handle with same | own
    · rw [same]
      exact mirrored.handle
    · exact Or.inr own
  · rw [rests.tid, added, detectorPath_still still, mirrored.path, rests.stack]
  · rw [rests.tid, added]
    exact mirrored.disciplined.still still

/-- An analyzed thread has its handle. -/
theorem known (mirrored : Mirrored params session) :
    (session.analyzeAccess params).data.detectorData = params.forkHandle session.data.tid := by
  rw [detectorData_analyzeAccess]
  split
  · rfl
  · next known => exact mirrored.handle.resolve_left known

theorem pushStack (mirrored : Mirrored params session)
    (known : session.data.detectorData = params.forkHandle session.data.tid) :
    Mirrored params (session.pushStack callIns) := by
  unfold Session.pushStack
  split
  · next room =>
    have pushed : (session.data.stack.push callIns).frames =
        callIns :: session.data.stack.frames := by
      rw [ShadowStack.push, dif_pos room]
    have path : detectorPath (params.forkHandle session.data.tid)
        (session.calls ++ [.funcEnter session.data.detectorData callIns]) =
        (callIns :: session.data.stack.frames).reverse := by
      rw [known, detectorPath_enter, mirrored.path, List.reverse_cons]
    refine ⟨Or.inr known, ?_, mirrored.disciplined.append (fun exits => by cases exits) ?_⟩
    · exact path.trans (congrArg List.reverse pushed.symm)
    · exact (congrArg List.length path).le.trans (by rw [List.length_reverse]; exact room)
  · exact mirrored

theorem onFuncCall (mirrored : Mirrored params session) (draw : ℕ) :
    Mirrored params (session.onFuncCall params callIns draw) := by
  have analyzed : Mirrored params (session.analyzeAccess params) :=
    mirrored.rest rests_analyzeAccess
  have decided := analyzed.rest (rests_switchSampling draw)
  have known : ((session.analyzeAccess params).switchSampling draw).data.detectorData =
      params.forkHandle ((session.analyzeAccess params).switchSampling draw).data.tid := by
    obtain ⟨position, same⟩ := (session.analyzeAccess params).switchSampling_eq draw
    rw [same]
    exact mirrored.known.trans (by rw [rests_analyzeAccess.tid])
  show Mirrored params (Session.pushStack (if _ then _ else _) callIns)
  split
  · refine pushStack (decided.rest ?_) known
    exact .same rfl rfl rfl rfl
  · exact decided.pushStack known

theorem onFuncRet (mirrored : Mirrored params session) :
    Mirrored params (session.onFuncRet params target) := by
  have analyzed : Mirrored params (session.analyzeAccess params) :=
    mirrored.rest rests_analyzeAccess
  have known : (session.analyzeAccess params).data.detectorData =
      params.forkHandle (session.analyzeAccess params).data.tid :=
    mirrored.known.trans (by rw [rests_analyzeAccess.tid])
  obtain ⟨dropped, few⟩ := unwind_eq_drop layout target
    (session.analyzeAccess params).data.stack.frames
  have inside : (unwind layout target (session.analyzeAccess params).data.stack.frames).2 ≤
      (detectorPath (params.forkHandle (session.analyzeAccess params).data.tid)
        (session.analyzeAccess params).calls).length := by
    rw [analyzed.path, List.length_reverse]
    exact few
  obtain ⟨left, path⟩ := analyzed.disciplined.leave _ inside
  refine ⟨analyzed.handle, ?_, ?_⟩
  · show detectorPath _ ((session.analyzeAccess params).calls ++ List.replicate _ (.funcExit
      (session.analyzeAccess params).data.detectorData)) = List.reverse (unwind layout target _).1
    rw [known, dropped]
    refine path.trans ?_
    rw [analyzed.path, List.rdrop_eq_reverse_drop_reverse, List.reverse_reverse]
  · show Disciplined _ ((session.analyzeAccess params).calls ++ List.replicate _ (.funcExit
      (session.analyzeAccess params).data.detectorData))
    rw [known]
    exact left

theorem step (mirrored : Mirrored params session) (event : ThreadEvent) :
    Mirrored params (session.step params event) := by
  cases event with
  | funcCall callIns draw => exact mirrored.onFuncCall draw
  | funcRet target => exact mirrored.onFuncRet
  | _ => exact mirrored.rest (rests_step (fun _ _ other => by cases other) fun _ other => by
      cases other)

end Mirrored

theorem Created.mirrored (created : Created params session) : Mirrored params session := by
  obtain ⟨tracker, tid, memBuf, memory, appstack, rfl⟩ := created
  unfold eventThreadInit
  by_cases excluded : params.excludeMaster = true ∧ tid = params.runtimeTid
  · simp only [if_pos excluded]
    split <;> exact ⟨Or.inl rfl, rfl, .nil⟩
  · simp only [if_neg excluded]
    split <;> exact ⟨Or.inl rfl, rfl, .nil⟩

theorem created_started (params : RuntimeConfig) (tracker : MemoryTracker) (tid : ℕ) :
    Created params (started params tracker tid) := ⟨tracker, tid, _, _, _, rfl⟩

theorem mirrored_of_reaches
    (reaches : (Session.machine params (Created params)).Reaches past session) :
    Mirrored params session := by
  induction reaches with
  | start begins => exact begins.mirrored
  | call _ defined inductionHypothesis =>
    obtain ⟨rfl⟩ := Prod.mk.inj (Option.some.inj defined)
    exact inductionHypothesis.step _

end Session

/-- After every event of a thread, the path the detector keeps for it holds the frames of the
shadow stack. The detector never leaves a function on an empty path, and the path always has room
for a program counter. So the depot of the thread makes all pushes and pops. -/
theorem shadow_stack_is_call_path
    (reaches : (Session.machine params (Created params)).Reaches past session) :
    let handle := params.forkHandle session.data.tid
    detectorPath handle session.calls = session.data.stack.frames.reverse ∧
      (∀ front, front ++ [.funcExit handle] <+: session.calls → detectorPath handle front ≠ []) ∧
      (∀ front, front <+: session.calls →
        (detectorPath handle front).length ≤ maxStackSize - 1) ∧
      ∃ past depot, stackDepot.Reaches past depot ∧
        past.map Step.event = session.calls.filterMap (Event.depotCall handle) ∧
          depot.callPath = detectorPath handle session.calls := by
  have mirrored := mirrored_of_reaches reaches
  exact ⟨mirrored.path, mirrored.disciplined.exits, mirrored.disciplined.fits,
    mirrored.disciplined.depot⟩

/-- A thread returns from its inner call, and then to an address that fits none of its frames. -/
def returnsAstray : List ThreadEvent :=
  [.funcCall 100 0, .funcCall 200 0, .record 8 201 4 true, .funcRet 204, .funcRet 999, .funcRet 999]

theorem shadow_stack_is_call_path_astray :
    let session := ((started plain {} 2).ran plain returnsAstray).2
    let handle := plain.forkHandle session.data.tid
    detectorPath handle session.calls = session.data.stack.frames.reverse ∧
      (∀ front, front ++ [.funcExit handle] <+: session.calls → detectorPath handle front ≠ []) ∧
      (∀ front, front <+: session.calls →
        (detectorPath handle front).length ≤ maxStackSize - 1) ∧
      ∃ past depot, stackDepot.Reaches past depot ∧
        past.map Step.event = session.calls.filterMap (Event.depotCall handle) ∧
          depot.callPath = detectorPath handle session.calls :=
  shadow_stack_is_call_path (Session.reaches_ran (created_started plain {} 2) returnsAstray)

end Drace
