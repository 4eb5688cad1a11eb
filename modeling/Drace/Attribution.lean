/-
This file says that references are handed over on the call path they were recorded
on.

No stack is stored with a reference. The path changes at calls and returns only, and
each of these analyzes the thread first. What an analysis leaves in the buffer is
nothing, be the detector enabled or not: while it is disabled, the saved head is the
start of the buffer. So no reference waits while the path changes.
-/

import Drace.CallPath
import Drace.Overrun

namespace Drace

open Session Machine

variable {layout : Layout} {params : RuntimeConfig} {session next : Session layout}
  {data : ShadowThreadState layout} {past : List (ThreadStep layout)} {event : ThreadEvent}
  {made : ThreadStep layout} {calls new : List Event} {refs : List (Access × List ℕ)}
  {added : List Access} {tls callIns target pointer : ℕ}

/-! ### Accesses and paths -/

/-- The accesses among these calls, each with the path of the thread when it is made. -/
def attributedFrom (tls : ℕ) (path : List ℕ) : List Event → List (Access × List ℕ)
  | [] => []
  | call :: rest =>
    (call.access?.map fun access => (access, path)).toList ++
      attributedFrom tls (call.callPath tls path) rest

/-- The accesses handed over, each with the path the detector has for the thread then. -/
def attributed (tls : ℕ) (calls : List Event) : List (Access × List ℕ) :=
  attributedFrom tls [] calls

/-- The access a step records and the path the detector has for the thread then. A reference that is
recorded before the thread is known to the detector is discarded. -/
def recordedWithAt (params : RuntimeConfig) (step : ThreadStep layout) : List (Access × List ℕ) :=
  if step.pre.data.detectorData = 0 then []
  else (admitted params step.pre.data (recordedAt step).toList).map fun access =>
    (access, detectorPath (params.forkHandle step.pre.data.tid) step.pre.calls)

/-- The accesses recorded in a history, each with its path. -/
def recordedWith (params : RuntimeConfig) (past : List (ThreadStep layout)) :
    List (Access × List ℕ) := past.flatMap (recordedWithAt params)

theorem attributedFrom_append {path : List ℕ} : attributedFrom tls path (calls ++ new) =
    attributedFrom tls path calls ++
      attributedFrom tls (calls.foldl (fun path call => call.callPath tls path) path) new := by
  induction calls generalizing path with
  | nil => rfl
  | cons call rest inductionHypothesis =>
    rw [List.cons_append, attributedFrom, attributedFrom, inductionHypothesis, List.append_assoc,
      List.foldl_cons]

theorem attributed_append : attributed tls (calls ++ new) =
    attributed tls calls ++ attributedFrom tls (detectorPath tls calls) new :=
  attributedFrom_append

/-- While no function is entered or left, all accesses have the same path. -/
theorem attributedFrom_still {path : List ℕ} (still : ∀ call ∈ new, call.still = true) :
    attributedFrom tls path new = (handed new).map fun access => (access, path) := by
  induction new with
  | nil => rfl
  | cons call rest inductionHypothesis =>
    obtain ⟨first, others⟩ := List.forall_mem_cons.mp still
    rw [attributedFrom, Event.callPath_of_still first, inductionHypothesis others]
    cases access : call.access? with
    | none => rw [handed, handed, List.filterMap_cons_none access]; rfl
    | some made => rw [handed, handed, List.filterMap_cons_some access]; rfl

/-- Calls that are no accesses have none. -/
theorem attributedFrom_quiet {path : List ℕ} (quiet : ∀ call ∈ new, call.access? = none) :
    attributedFrom tls path new = [] := by
  induction new generalizing path with
  | nil => rfl
  | cons call rest inductionHypothesis =>
    obtain ⟨first, others⟩ := List.forall_mem_cons.mp quiet
    rw [attributedFrom, first, inductionHypothesis others]
    rfl

theorem recordedWith_append : recordedWith params (past ++ [made]) =
    recordedWith params past ++ recordedWithAt params made := by
  rw [recordedWith, recordedWith, List.flatMap_append, List.flatMap_singleton]

theorem recordedWithAt_of_quiet (quiet : ∀ addr pc size write,
    made.event ≠ .record addr pc size write) : recordedWithAt params made = [] := by
  rw [recordedWithAt, recordedAt_of_quiet quiet]
  split <;> rfl

/-! ### What waits in the buffer -/

namespace ShadowThreadState

/-- Null or the start of the buffer. -/
def AtStart (data : ShadowThreadState layout) (pointer : ℕ) : Prop :=
  pointer = 0 ∨ pointer = data.memBuf.data

theorem AtStart.entries (start : data.AtStart pointer) : data.entries pointer = [] := by
  rcases start with rfl | rfl
  · exact entries_zero
  · exact entries_start

/-- Neither pointer has entries before it. -/
structure Clear (data : ShadowThreadState layout) : Prop where
  head : data.AtStart data.bufPtr
  stored : data.AtStart data.bufPtrStored

theorem Clear.pending (clear : data.Clear) : data.pending = [] := by
  rw [ShadowThreadState.pending]
  split
  · exact clear.head.entries
  · exact clear.stored.entries

/-- The accesses that will be handed over; before the first analysis there are none. -/
def waiting (params : RuntimeConfig) (data : ShadowThreadState layout) : List Access :=
  if data.detectorData = 0 then [] else admitted params data data.pending

theorem Clear.waiting (clear : data.Clear) : data.waiting params = [] := by
  rw [ShadowThreadState.waiting, clear.pending, admitted_nil]
  split <;> rfl

end ShadowThreadState

open ShadowThreadState

/-- What happens on a thread that has neither excluded regions nor external control. Sampling
decisions belong to calls. -/
def ThreadEvent.regular : ThreadEvent → Bool
  | .switchSampling _ | .handleExtState | .disableScope | .enableScope => false
  | _ => true

namespace Session

/-- The accesses handed over, followed by those that wait. -/
def balance (params : RuntimeConfig) (session : Session layout) : List Access :=
  handed session.calls ++ session.data.waiting params

theorem clear_analyzeAccess (steady : session.tracker.Steady params)
    (stored : session.data.AtStart session.data.bufPtrStored) :
    (session.analyzeAccess params).data.Clear := by
  have frame : session.Analyzed (session.analyzeAccess params) := analyzed_analyzeAccess
  refine ⟨?_, ?_⟩
  · unfold AtStart
    rw [frame.memBuf]
    by_cases null : session.data.detectorData = 0
    · exact Or.inr (analyzeAccess_of_uninitialized steady null).1
    · rw [(analyzeAccess_of_initialized steady null).2.2]
      split
      · exact Or.inr rfl
      · exact Or.inl rfl
  · unfold AtStart
    rw [frame.memBuf, bufPtrStored_analyzeAccess steady]
    exact stored

/-- An analysis moves accesses from the buffer to the detector. -/
theorem balance_analyzeAccess (steady : session.tracker.Steady params)
    (stored : session.data.AtStart session.data.bufPtrStored) :
    (session.analyzeAccess params).balance params = session.balance params := by
  by_cases null : session.data.detectorData = 0
  · rw [balance, balance, (clear_analyzeAccess steady stored).waiting,
      (analyzeAccess_of_uninitialized steady null).2, waiting, if_pos null]
  · obtain ⟨alike, same, -⟩ := analyzeAccess_of_initialized steady null
    rw [balance, balance, waiting, waiting, if_neg null, if_neg (alike.detectorData ▸ null)]
    exact same

theorem clear_switchSampling (clear : session.data.Clear) (draw : ℕ) :
    (session.switchSampling draw).data.Clear := by
  obtain ⟨position, same⟩ := session.switchSampling_eq draw
  rw [same]
  refine ⟨?_, ?_⟩
  · show session.data.AtStart (if _ then if _ then _ else _ else _)
    split
    · split
      · exact clear.stored
      · exact clear.head
    · exact Or.inl rfl
  · show session.data.AtStart (if _ then _ else _)
    split
    · exact clear.stored
    · exact clear.head

/-! ### Every event keeps the paths -/

/-- A thread as the client creates it, outside of excluded regions and without external control. -/
def CreatedFree (params : RuntimeConfig) (session : Session layout) : Prop :=
  ∃ tracker tid memBuf memory appstack, tracker.Steady params ∧
    ¬ (params.excludeMaster ∧ tid = params.runtimeTid) ∧
      session = eventThreadInit params tracker tid memBuf memory appstack

/-- The accesses handed over and those that wait are these, each with its path. -/
structure Attributed (params : RuntimeConfig) (refs : List (Access × List ℕ))
    (session : Session layout) : Prop where
  steady : session.tracker.Steady params
  stored : session.data.AtStart session.data.bufPtrStored
  account : attributed (params.forkHandle session.data.tid) session.calls ++
    (session.data.waiting params).map (fun access =>
      (access, detectorPath (params.forkHandle session.data.tid) session.calls)) = refs

namespace Attributed

/-- While the path stays, what is added to the balance is added to the account. -/
theorem rest (attributed : Attributed params refs session) (rests : Rests params session next)
    (steady : next.tracker.Steady params) (stored : next.data.AtStart next.data.bufPtrStored)
    (balanced : next.balance params = session.balance params ++ added) :
    Attributed params (refs ++ added.map fun access =>
      (access, detectorPath (params.forkHandle session.data.tid) session.calls)) next := by
  obtain ⟨new, made, still⟩ := rests.calls
  refine ⟨steady, stored, ?_⟩
  have moved : handed new ++ next.data.waiting params = session.data.waiting params ++ added := by
    rw [balance, balance, made, handed_append, List.append_assoc, List.append_assoc] at balanced
    exact List.append_cancel_left balanced
  rw [rests.tid, made, detectorPath_still still, attributed_append, attributedFrom_still still,
    List.append_assoc, ← List.map_append, moved, List.map_append, ← List.append_assoc,
    attributed.account]

/-- While nothing waits, the path may change. -/
theorem move (attributed : Attributed params refs session) (clear : session.data.Clear)
    (made : next.calls = session.calls ++ new) (quiet : ∀ call ∈ new, call.access? = none)
    (tracker : next.tracker = session.tracker) (tid : next.data.tid = session.data.tid)
    (nextClear : next.data.Clear) : Attributed params refs next := by
  refine ⟨tracker ▸ attributed.steady, nextClear.stored, ?_⟩
  have account := attributed.account
  rw [clear.waiting, List.map_nil, List.append_nil] at account
  rw [nextClear.waiting, List.map_nil, List.append_nil, tid, made, attributed_append,
    attributedFrom_quiet quiet, List.append_nil, account]

/-- While the path stays and nothing is recorded, the account stays. -/
theorem same (attributed : Attributed params refs session) (rests : Rests params session next)
    (steady : next.tracker.Steady params) (stored : next.data.AtStart next.data.bufPtrStored)
    (balanced : next.balance params = session.balance params) : Attributed params refs next := by
  have kept := attributed.rest rests steady stored (balanced.trans (List.append_nil _).symm)
  rwa [List.map_nil, List.append_nil] at kept

theorem analyzeAccess (attributed : Attributed params refs session) :
    Attributed params refs (session.analyzeAccess params) :=
  attributed.same rests_analyzeAccess
    ((tracker_analyzeAccess attributed.steady).symm ▸ attributed.steady)
    (clear_analyzeAccess attributed.steady attributed.stored).stored
    (balance_analyzeAccess attributed.steady attributed.stored)

theorem processBuffer (attributed : Attributed params refs session) :
    Attributed params refs (session.processBuffer params) :=
  have analyzed := attributed.analyzeAccess
  analyzed.same (.same rfl rfl rfl rfl) analyzed.steady analyzed.stored rfl

theorem worked (attributed : Attributed params refs session)
    (worked : Worked params session next) : Attributed params refs next := by
  induction worked with
  | refl => exact attributed
  | flush _ inductionHypothesis => exact inductionHypothesis.processBuffer
  | book book _ inductionHypothesis =>
    exact inductionHypothesis.same (.same rfl rfl rfl rfl) inductionHypothesis.steady
      inductionHypothesis.stored rfl
  | @detector next call wrapped _ inductionHypothesis =>
    have rests : Rests params next (next.detector call) :=
      ((Worked.refl.detector wrapped : Worked params next (next.detector call))).rests
    have handed : handed (next.detector call).calls = handed next.calls :=
      handed_detector (Event.access?_of_wrapped wrapped)
    exact inductionHypothesis.same rests inductionHypothesis.steady inductionHypothesis.stored
      (congrArg (· ++ next.data.waiting params) handed)

/-- A recorded reference waits with the path of its moment. -/
theorem record (attributed : Attributed params refs session) (bounded : session.data.Bounded)
    (addr pc size : ℕ) (write : Bool) :
    let step : ThreadStep layout :=
      ⟨session, .record addr pc size write, session.step params (.record addr pc size write), ()⟩
    Attributed params (refs ++ recordedWithAt params step) step.post := by
  intro step
  have steps : step.post = session.instrumentMemFast params (.ofAccess addr pc size write) := rfl
  rw [steps]
  rcases bounded.head with null | ⟨index, bound, head⟩
  · have disabled : step.pre.data.isEnabled = false := isEnabled_eq_false.mpr null
    have nothing : recordedWithAt params step = [] := by
      rw [recordedWithAt, recordedAt_of_disabled disabled]
      split <;> rfl
    rw [nothing, List.append_nil, instrumentMemFast_of_disabled null]
    exact attributed
  · have enabled : step.pre.data.isEnabled = true :=
      isEnabled_iff.mpr (head.trans_ne slot_pos.ne')
    have found : recordedAt step = some (.ofAccess addr pc size write) := if_pos enabled
    obtain ⟨alike, account⟩ := store_spec params (.ofAccess addr pc size write) head
    have stored : Attributed params (refs ++ recordedWithAt params step)
        (session.store index (.ofAccess addr pc size write)) := by
      rw [recordedWithAt, found]
      have rests : Rests params session (session.store index (.ofAccess addr pc size write)) :=
        .same rfl rfl rfl rfl
      by_cases known : session.data.detectorData = 0
      · rw [if_pos (show step.pre.data.detectorData = 0 from known), List.append_nil]
        refine attributed.same rests attributed.steady attributed.stored ?_
        rw [balance, balance, waiting, waiting, if_pos known, if_pos (alike.detectorData ▸ known)]
        rfl
      · rw [if_neg (show ¬ step.pre.data.detectorData = 0 from known)]
        refine attributed.rest rests attributed.steady attributed.stored ?_
        rw [balance, balance, waiting, waiting, if_neg known, if_neg (alike.detectorData ▸ known)]
        exact account
    rw [instrumentMemFast_of_slot bound bounded.ends head]
    split
    · exact stored.processBuffer
    · exact stored

theorem pushStack (attributed : Attributed params refs session) (clear : session.data.Clear) :
    Attributed params refs (session.pushStack callIns) := by
  unfold Session.pushStack
  split
  · exact attributed.move clear rfl (by simp [Event.access?]) rfl rfl ⟨clear.head, clear.stored⟩
  · exact attributed

theorem onFuncCall (attributed : Attributed params refs session) (draw : ℕ) :
    Attributed params refs (session.onFuncCall params callIns draw) := by
  have clear := clear_analyzeAccess attributed.steady attributed.stored
  have decidedClear := clear_switchSampling clear draw
  have decided : Attributed params refs ((session.analyzeAccess params).switchSampling draw) := by
    obtain ⟨position, same⟩ := (session.analyzeAccess params).switchSampling_eq draw
    refine attributed.analyzeAccess.move clear ?_ (List.forall_mem_nil _) ?_ ?_ decidedClear
    · exact (congrArg Session.calls same).trans (List.append_nil _).symm
    · rw [same]
    · rw [same]
  show Attributed params refs (Session.pushStack (if _ then _ else _) callIns)
  split
  · let next := (session.analyzeAccess params).switchSampling draw
    let lossy : Session layout := { next with data := next.data.disable }
    have disabled : lossy.data.Clear := ⟨Or.inl rfl, decidedClear.head⟩
    have kept : Attributed params refs lossy :=
      decided.move decidedClear (List.append_nil _).symm (List.forall_mem_nil _) rfl rfl disabled
    exact kept.pushStack disabled
  · exact decided.pushStack decidedClear

theorem onFuncRet (attributed : Attributed params refs session) :
    Attributed params refs (session.onFuncRet params target) := by
  have clear := clear_analyzeAccess attributed.steady attributed.stored
  refine attributed.analyzeAccess.move clear rfl ?_ rfl rfl ⟨clear.head, clear.stored⟩
  intro call member
  rw [List.eq_of_mem_replicate member]
  rfl

theorem step (attributed : Attributed params refs session) (bounded : session.data.Bounded)
    (event : ThreadEvent) (regular : event.regular = true) :
    Attributed params
      (refs ++ recordedWithAt params ⟨session, event, session.step params event, ()⟩)
        (session.step params event) := by
  have quiet : (∀ addr pc size write, event ≠ .record addr pc size write) →
      Attributed params refs (session.step params event) → Attributed params
        (refs ++ recordedWithAt params ⟨session, event, session.step params event, ()⟩)
          (session.step params event) := by
    intro quiet kept
    rwa [recordedWithAt_of_quiet quiet, List.append_nil]
  cases event with
  | record addr pc size write => exact attributed.record bounded addr pc size write
  | processBuffer => exact quiet (by simp) attributed.processBuffer
  | analyzeAccess => exact quiet (by simp) attributed.analyzeAccess
  | funcCall callIns draw => exact quiet (by simp) (attributed.onFuncCall draw)
  | funcRet target => exact quiet (by simp) attributed.onFuncRet
  | switchSampling | handleExtState | disableScope | enableScope => cases regular
  | _ => exact quiet (by simp) (attributed.worked (.callback rfl))

end Attributed

theorem CreatedFree.attributed (created : CreatedFree params session) :
    Attributed params [] session ∧ session.data.Bounded := by
  obtain ⟨tracker, tid, memBuf, memory, appstack, steady, included, rfl⟩ := created
  refine ⟨?_, bounded_eventThreadInit tracker memBuf memory appstack⟩
  unfold eventThreadInit
  simp only [if_neg included]
  split <;> exact ⟨steady, Or.inr rfl, rfl⟩

end Session

theorem attributed_of_reaches
    (reaches : (Session.machine params (CreatedFree params)).Reaches past session)
    (regular : ∀ step ∈ past, step.event.regular = true) :
    Attributed params (recordedWith params past) session ∧ session.data.Bounded := by
  induction reaches with
  | start begins => exact begins.attributed
  | @call past before _ event _ _ defined inductionHypothesis =>
    obtain ⟨earlier, last⟩ := List.forall_mem_append.mp regular
    obtain ⟨rfl⟩ := Prod.mk.inj (Option.some.inj defined)
    obtain ⟨attributed, bounded⟩ := inductionHypothesis earlier
    refine ⟨?_, bounded_step bounded fun _ => attributed.steady.not_switchesOffFull⟩
    rw [recordedWith_append]
    exact attributed.step bounded event (last _ (List.mem_singleton_self _))

/-- Whenever a reference is handed over, the path of the thread is what it was when the reference
was recorded: the accesses handed over with the paths of that time are the first of those recorded
with the paths of their time. -/
theorem references_attributed
    (reaches : (Session.machine params (CreatedFree params)).Reaches past session)
    (regular : ∀ step ∈ past, step.event.regular = true) :
    attributed (params.forkHandle session.data.tid) session.calls <+: recordedWith params past :=
  ⟨_, (attributed_of_reaches reaches regular).1.account⟩

/-- A thread records before its first call, within two nested calls and after the inner one. -/
def recordsInCalls : List ThreadEvent :=
  [.record 8 1 4 true, .funcCall 100 0, .record 8 101 4 true, .funcCall 200 0,
    .record 16 201 4 false, .funcRet 204, .record 24 105 4 true, .processBuffer]

theorem references_attributed_calls :
    let run := (started plain {} 2).ran plain recordsInCalls
    attributed (plain.forkHandle run.2.data.tid) run.2.calls <+: recordedWith plain run.1 :=
  references_attributed
    (Session.reaches_ran ⟨{}, 2, _, _, _, by decide, by decide, rfl⟩ recordsInCalls)
    (by decide)

end Drace
