/-
This file says that data behind one mutex is never reported, from the application to
the detector.

A thread refers to the data only while it holds the mutex. Its references wait in the
buffer, and an unlock hands them over before it tells the detector of the release. So
they reach the detector while it still counts the thread as a holder, also if other
threads have locked and flushed in between, and what the detector then sees of the
data is guarded.
-/

import Drace.Guarded
import Drace.Outgoing
import Drace.Serving

namespace Drace

open Session Machine

variable {layout : Layout} {params : RuntimeConfig} {session next : Session layout}
  {made : ThreadStep layout} {contract : Contract} {holds : List Hold} {hold : Hold}
  {calls new front : List Event} {call : Event} {addr mutex tid tls : ℕ} {kind : Bool}
  {handle : ℕ → ℕ}

/-! ### Holds among the calls -/

/-- The holds after calls. -/
def heldBy (calls : List Event) : List Hold :=
  calls.foldl (fun holds call => call.holdsAfter holds) []

theorem heldBy_concat : heldBy (calls ++ [call]) = call.holdsAfter (heldBy calls) := by
  rw [heldBy, List.foldl_append]
  rfl

theorem holdsOf_eq_heldBy (past : List Step) : holdsOf past = heldBy (past.map Step.event) :=
  List.foldl_map.symm

/-- A call that ends neither an epoch nor a thread takes no hold away. -/
theorem subset_holdsAfter (inward : call.outgoing = false) (gentle : call.Gentle handle tid) :
    holds ⊆ call.holdsAfter holds := by
  cases call with
  | acquire => exact List.subset_cons_self _ _
  | release => cases inward
  | join | finish | finalize => cases gentle
  | _ => exact List.Subset.refl holds

theorem heldBy_subset (inward : ∀ call ∈ new, call.outgoing = false)
    (gentle : ∀ call ∈ new, call.Gentle handle tid) : heldBy calls ⊆ heldBy (calls ++ new) := by
  induction new using List.reverseRecOn with
  | nil =>
    rw [List.append_nil]
    exact List.Subset.refl _
  | append_singleton new call inductionHypothesis =>
    obtain ⟨inwardBefore, inwardLast⟩ := List.forall_mem_append.mp inward
    obtain ⟨gentleBefore, gentleLast⟩ := List.forall_mem_append.mp gentle
    rw [← List.append_assoc, heldBy_concat]
    exact List.Subset.trans (inductionHypothesis inwardBefore gentleBefore) (subset_holdsAfter
      (inwardLast call (List.mem_singleton_self _)) (gentleLast call (List.mem_singleton_self _)))

/-- The calls of a thread take nothing away from the others. -/
theorem mem_heldBy_append (member : hold ∈ heldBy calls) (differs : hold.tls ≠ handle tid)
    (gentle : ∀ call ∈ new, call.Gentle handle tid) : hold ∈ heldBy (calls ++ new) := by
  induction new using List.reverseRecOn with
  | nil => rwa [List.append_nil]
  | append_singleton new call inductionHypothesis =>
    obtain ⟨gentleBefore, gentleLast⟩ := List.forall_mem_append.mp gentle
    have stays := inductionHypothesis gentleBefore
    have last : call.Gentle handle tid := gentleLast call (List.mem_singleton_self _)
    rw [← List.append_assoc, heldBy_concat]
    cases call with
    | acquire => exact List.mem_cons_of_mem _ stays
    | release own released mode =>
      refine (List.mem_erase_of_ne ?_).mpr stays
      rintro rfl
      exact differs last
    | join | finish | finalize => cases last
    | _ => exact stays

/-- Calls of an analysis change no holds. -/
theorem heldBy_of_tracking (tracking : ∀ call ∈ new, call.tracking = true) :
    heldBy (calls ++ new) = heldBy calls := by
  induction new using List.reverseRecOn with
  | nil => rw [List.append_nil]
  | append_singleton new call inductionHypothesis =>
    obtain ⟨before, last⟩ := List.forall_mem_append.mp tracking
    have tracks := last call (List.mem_singleton_self _)
    rw [← List.append_assoc, heldBy_concat, ← inductionHypothesis before]
    cases call with
    | acquire | release | join | finish | finalize => cases tracks
    | _ => rfl

/-- The call accesses the address only if its thread holds the mutex, and ends no thread that holds
it. -/
def Secure (addr mutex : ℕ) (front : List Event) (call : Event) : Prop :=
  (∀ access ∈ call.access?, access.addr = addr →
    Shields (heldBy front) mutex access.tls access.write) ∧
    ∀ hold ∈ heldBy front, hold.mutex = mutex → call.ends? ≠ some hold.tls

/-- A condition that holds along calls and goes on holding along further ones. -/
theorem Along.append {condition : List Event → Event → Prop} {new : List Event}
    (along : Along condition calls)
    (further : ∀ front call, front ++ [call] <+: new → condition (calls ++ front) call) :
    Along condition (calls ++ new) := by
  intro front call initial
  rcases Nat.lt_or_ge front.length calls.length with early | late
  · have bound : (front ++ [call]).length ≤ calls.length := by
      rw [List.length_append]
      exact early
    exact along front call
      (List.prefix_of_prefix_length_le initial (List.prefix_append calls new) bound)
  · obtain ⟨middle, rfl⟩ : calls <+: front := List.prefix_of_prefix_length_le
      (List.prefix_append calls new) ((List.prefix_append front [call]).trans initial) late
    rw [List.append_assoc] at initial
    exact further middle call ((List.prefix_append_right_inj calls).mp initial)

/-! ### One thread -/

/-- The pending references of a thread to the address are covered by a hold of it. -/
structure Screened (params : RuntimeConfig) (addr mutex : ℕ) (session : Session layout) : Prop where
  bounded : session.data.Bounded
  fresh : session.data.detectorData = 0 → session.data.entries session.data.bufPtr = [] ∧
    session.data.entries session.data.bufPtrStored = []
  shielded : ∀ access ∈ admitted params session.data session.data.pending, access.addr = addr →
    Shields (heldBy session.calls) mutex access.tls access.write

/-- Whoever refers to the address holds the mutex. -/
def Holding (addr mutex : ℕ) (made : ThreadStep layout) : Prop :=
  ∀ ref ∈ recordedAt made, ref.addr = addr →
    Shields (heldBy made.pre.calls) mutex made.pre.data.detectorData ref.isWrite

instance : Decidable (Shields holds mutex tid kind) :=
  inferInstanceAs (Decidable (∃ hold ∈ holds, _))

instance : Decidable (Holding addr mutex made) :=
  inferInstanceAs (Decidable (∀ ref ∈ recordedAt made, _ → _))

/-- The buffer is used as it should: its head is saved and restored in turn, references are recorded
after the first analysis, and nothing is left in the buffer where an epoch ends. -/
structure Orderly (params : RuntimeConfig) (made : ThreadStep layout) : Prop where
  inner : made.event ≠ .handleExtState
  saves : SavesHead params made
  restores : RestoresHead made
  known : RecordsKnown made
  flushes : FlushesInTime params made

instance : Decidable (Orderly params made) :=
  decidable_of_iff (made.event ≠ .handleExtState ∧ SavesHead params made ∧ RestoresHead made ∧
    RecordsKnown made ∧ FlushesInTime params made)
    ⟨fun ⟨inner, saves, restores, known, flushes⟩ => ⟨inner, saves, restores, known, flushes⟩,
      fun ⟨inner, saves, restores, known, flushes⟩ => ⟨inner, saves, restores, known, flushes⟩⟩

theorem Screened.pending (screened : Screened params addr mutex session)
    (unknown : session.data.detectorData = 0) : session.data.pending = [] := by
  obtain ⟨head, stored⟩ := screened.fresh unknown
  unfold ShadowThreadState.pending
  split
  · exact head
  · exact stored

/-- The account of a thread starts anew with each step. -/
theorem Screened.balanced (screened : Screened params addr mutex session)
    (steady : session.tracker.Steady params) :
    Balanced params (handed session.calls) session.data.detectorData session.data.pending
      session where
  steady := steady
  bounded := screened.bounded
  known _ := rfl
  account := rfl
  fresh unknown := ⟨screened.pending unknown, screened.fresh unknown⟩

/-- No event of a thread moves its stack. -/
theorem appstack_step (params : RuntimeConfig) (session : Session layout) (event : ThreadEvent) :
    (session.step params event).data.appstackBeg = session.data.appstackBeg ∧
      (session.step params event).data.appstackEnd = session.data.appstackEnd := by
  have flushed : ∀ session : Session layout,
      (session.processBuffer params).data.appstackBeg = session.data.appstackBeg ∧
        (session.processBuffer params).data.appstackEnd = session.data.appstackEnd :=
    fun session => analyzed_processBuffer.appstack
  have kept : Kept params fun next : Session layout =>
      next.data.appstackBeg = session.data.appstackBeg ∧
        next.data.appstackEnd = session.data.appstackEnd :=
    ⟨fun next same => ⟨(flushed next).1.trans same.1, (flushed next).2.trans same.2⟩,
      fun _ _ same => same, fun _ _ _ same => same⟩
  have sampled : ∀ (session : Session layout) (draw : ℕ),
      (session.switchSampling draw).data.appstackBeg = session.data.appstackBeg ∧
        (session.switchSampling draw).data.appstackEnd = session.data.appstackEnd := by
    intro session draw
    obtain ⟨position, same⟩ := session.switchSampling_eq draw
    rw [same]
    exact ⟨rfl, rfl⟩
  cases event with
  | record addr pc size write =>
    show (session.instrumentMemFast params _).data.appstackBeg = _ ∧ _
    unfold step instrumentMemFast
    split
    · exact ⟨rfl, rfl⟩
    · simp only
      split
      · exact flushed _
      · exact ⟨rfl, rfl⟩
  | processBuffer => exact flushed session
  | analyzeAccess => exact analyzed_analyzeAccess.appstack
  | switchSampling draw => exact sampled session draw
  | handleExtState => exact analyzed_handleExtState.appstack
  | disableScope => exact ⟨rfl, rfl⟩
  | enableScope => exact analyzed_endExclRegion.appstack
  | funcCall callIns draw =>
    have analyzed : session.Analyzed (session.analyzeAccess params) := analyzed_analyzeAccess
    have decided := sampled (session.analyzeAccess params) draw
    have pushed : ∀ session : Session layout,
        (session.pushStack callIns).data.appstackBeg = session.data.appstackBeg ∧
          (session.pushStack callIns).data.appstackEnd = session.data.appstackEnd := by
      intro session
      unfold pushStack
      split <;> exact ⟨rfl, rfl⟩
    unfold step onFuncCall
    simp only [(pushed _).1, (pushed _).2]
    split
    · exact ⟨decided.1.trans analyzed.appstack.1, decided.2.trans analyzed.appstack.2⟩
    · exact ⟨decided.1.trans analyzed.appstack.1, decided.2.trans analyzed.appstack.2⟩
  | funcRet target =>
    have analyzed : session.Analyzed (session.analyzeAccess params) := analyzed_analyzeAccess
    exact analyzed.appstack
  | _ => exact kept.callback rfl ⟨rfl, rfl⟩

/-- What a thread hands over in a step, and what is pending after it, is covered by the holds it has
before. -/
theorem Screened.covered (screened : Screened params addr mutex session) (pre : made.pre = session)
    (known : RecordsKnown made) (holding : Holding addr mutex made)
    (balanced : Balanced params (handed session.calls) session.data.detectorData
      (session.data.pending ++ (recordedAt made).toList) (session.step params made.event)) :
    ∀ access ∈ admitted params (session.step params made.event).data
      (session.data.pending ++ (recordedAt made).toList), access.addr = addr →
      Shields (heldBy session.calls) mutex access.tls access.write := by
  by_cases unknown : session.data.detectorData = 0
  · -- nothing is pending, and nothing is recorded
    have none : recordedAt made = none := by
      by_contra some
      obtain ⟨ref, records⟩ := Option.ne_none_iff_exists'.mp some
      exact known ref records (pre ▸ unknown)
    rw [screened.pending unknown, none, Option.toList_none, List.append_nil, admitted_nil]
    exact fun access member => absurd member List.not_mem_nil
  · have same : ∀ refs, admitted params (session.step params made.event).data refs =
        admitted params session.data refs := by
      intro refs
      obtain ⟨stackBeg, stackEnd⟩ := appstack_step params session made.event
      simp only [admitted, ShadowThreadState.filteredMemref, balanced.known unknown, stackBeg,
        stackEnd]
    rw [same, admitted_append]
    refine List.forall_mem_append.mpr ⟨screened.shielded, fun access member atAddr => ?_⟩
    obtain ⟨ref, admits, rfl⟩ := List.mem_map.mp member
    have records : ref ∈ recordedAt made := Option.mem_toList.mp (List.mem_filter.mp admits).1
    have shields := holding ref records atAddr
    rw [pre] at shields
    exact shields

/-- The calls of a step end no epoch, or only the last one does, and then nothing is pending. -/
theorem InTime.split {base : List Access} {refs : List MemRef}
    (inTime : InTime params base tls refs session next)
    (added : next.calls = session.calls ++ new) :
    (∀ call ∈ new, call.outgoing = false) ∨ next.data.pending = [] ∧
      ∃ before last, new = before ++ [last] ∧ ∀ call ∈ before, call.outgoing = false := by
  rcases inTime with ⟨made, same, inward⟩ |
    ⟨middle, last, ⟨before, same, inward⟩, ended, -, pending, data⟩
  · obtain rfl := List.append_cancel_left (added.symm.trans same)
    exact Or.inl inward
  · rw [same, List.append_assoc] at ended
    obtain rfl := List.append_cancel_left (added.symm.trans ended)
    exact Or.inr ⟨data ▸ pending, before, last, rfl, inward⟩

/-- What a step of a thread does: the detector gets secure calls, and what is pending after it is
covered. -/
theorem Screened.step (screened : Screened params addr mutex session) (pre : made.pre = session)
    (steady : session.tracker.Steady params) (orderly : Orderly params made)
    (holding : Holding addr mutex made)
    (added : (session.step params made.event).calls = session.calls ++ new)
    (gentle : ∀ call ∈ new, call.Gentle handle tid) :
    Screened params addr mutex (session.step params made.event) ∧
      ∀ front call, front ++ [call] <+: new → Secure addr mutex (session.calls ++ front) call := by
  have balanced := (screened.balanced steady).keep pre orderly.inner orderly.saves orderly.restores
    orderly.known
  have covered := screened.covered pre orderly.known holding balanced
  have account := balanced.account
  rw [Session.account, added, handed_append, List.append_assoc] at account
  have account := List.append_cancel_left account
  have split := InTime.split (inTime_step (screened.balanced steady) pre orderly.inner
    orderly.flushes) added
  constructor
  · refine ⟨balanced.bounded, fun unknown => (balanced.fresh unknown).2,
      fun access member atAddr => ?_⟩
    rcases split with inward | ⟨pending, -⟩
    · have shields := covered access (account ▸ List.mem_append_right _ member) atAddr
      rw [added]
      obtain ⟨hold, held, rest⟩ := shields
      exact ⟨hold, heldBy_subset inward gentle held, rest⟩
    · rw [pending] at member
      exact absurd member List.not_mem_nil
  · intro front call initial
    have within : ∀ other ∈ front, other ∈ new := fun other member =>
      initial.subset (List.mem_append_left _ member)
    have here : call ∈ new :=
      initial.subset (List.mem_append_right _ (List.mem_singleton_self call))
    have inward : ∀ other ∈ front, other.outgoing = false := by
      rcases split with inward | ⟨-, before, last, rfl, inward⟩
      · exact fun other member => inward other (within other member)
      · obtain ⟨rest, same⟩ := initial
        have shorter : front.length ≤ before.length := by
          have lengths := congrArg List.length same
          simp only [List.length_append, List.length_singleton] at lengths
          omega
        have inside : front <+: before := List.prefix_of_prefix_length_le
          ⟨[call] ++ rest, (List.append_assoc _ _ _).symm.trans same⟩
          (List.prefix_append before [last]) shorter
        exact fun other member => inward other (inside.subset member)
    refine ⟨fun access accesses atAddr => ?_, fun hold _ _ ends => ?_⟩
    · have delivered : access ∈ handed new := List.mem_filterMap.mpr ⟨call, here, accesses⟩
      obtain ⟨hold, held, rest⟩ :=
        covered access (account ▸ List.mem_append_left _ delivered) atAddr
      have lasting := fun other member => gentle other (within other member)
      exact ⟨hold, heldBy_subset inward lasting held, rest⟩
    · have lives := gentle call here
      cases call with
      | join | finish => cases lives
      | _ => cases ends

/-! ### The client -/

namespace Client

variable {steps : List (ClientStep layout)} {client later : Client layout}
  {data : ShadowThreadState layout} {other : ℕ}

/-- An event of a thread on its session. -/
def threadStep (params : RuntimeConfig) (client : Client layout) (data : ShadowThreadState layout)
    (event : ThreadEvent) : ThreadStep layout :=
  ⟨client.session data, event, (client.session data).step params event, ()⟩

/-- The buffer of every thread is used as it should, whoever refers to the address holds the mutex,
and no thread ends while it holds the mutex. -/
def Guarding (params : RuntimeConfig) (addr mutex : ℕ) (step : ClientStep layout) : Prop :=
  step.pre.tracker.Steady params ∧
    match step.event with
    | .thread tid event => ∀ data ∈ step.pre.threads.lookup tid,
      Orderly params (threadStep params step.pre data event) ∧
        Holding addr mutex (threadStep params step.pre data event)
    | .threadExit tid => ∀ hold ∈ heldBy step.pre.calls, hold.mutex = mutex → hold.tls ≠ tid
    | _ => True

instance : (step : ClientStep layout) → Decidable (Guarding params addr mutex step)
  | ⟨_, .thread .., _, _⟩ => inferInstanceAs (Decidable (_ ∧ ∀ _ ∈ _, _))
  | ⟨_, .threadExit .., _, _⟩ => inferInstanceAs (Decidable (_ ∧ ∀ _ ∈ _, _ → _))
  | ⟨_, .threadInit .., _, _⟩ | ⟨_, .enableDetector .., _, _⟩ | ⟨_, .setSamplingrate .., _, _⟩ =>
    inferInstanceAs (Decidable (_ ∧ True))

/-- The client has kept to the contract, its calls are secure, and what is pending is covered. -/
structure Watched (params : RuntimeConfig) (addr mutex : ℕ) (client : Client layout)
    (contract : Contract) : Prop where
  served : Served params (HasId layout) client contract
  secure : Along (Secure addr mutex) client.calls
  screened : ∀ tid, ∀ data ∈ client.threads.lookup tid,
    Screened params addr mutex (client.session data)

/-- What is pending in a thread stays covered as long as the holds of the thread stay. -/
theorem screened_other (screened : Screened params addr mutex (client.session data))
    (own : data.detectorData = 0 ∨ data.detectorData = other)
    (stays : ∀ hold ∈ heldBy client.calls, hold.tls = other → hold ∈ heldBy later.calls) :
    Screened params addr mutex (later.session data) := by
  refine ⟨screened.bounded, screened.fresh, fun access member atAddr => ?_⟩
  obtain ⟨hold, held, same, rest⟩ := screened.shielded access member atAddr
  rcases own with unknown | handle
  · have none : data.pending = [] := screened.pending unknown
    change access ∈ admitted params data data.pending at member
    rw [none] at member
    exact absurd member List.not_mem_nil
  · obtain ⟨ref, -, rfl⟩ := List.mem_map.mp member
    exact ⟨hold, stays hold held (same.trans handle), same, rest⟩

/-- A new thread has nothing pending. -/
theorem screened_eventThreadInit (steady : client.tracker.Steady params) (tid : ℕ)
    (memBuf : AlignedBuffer layout) (memory : ℕ → MemRef) (appstack : ℕ × ℕ) :
    Screened params addr mutex (client.session
      (eventThreadInit params client.tracker tid memBuf memory appstack).data) := by
  have started : Started params
      (eventThreadInit params client.tracker tid memBuf memory appstack) :=
    ⟨client.tracker, tid, memBuf, memory, appstack, steady, rfl⟩
  have unknown : (eventThreadInit params client.tracker tid memBuf memory
      appstack).data.detectorData = 0 := by
    unfold eventThreadInit
    simp only
    split <;> split <;> rfl
  have balanced := started.balanced
  have fresh := (balanced.fresh unknown).2
  refine ⟨balanced.bounded, fun _ => fresh, fun access member => ?_⟩
  have none : (eventThreadInit params client.tracker tid memBuf memory
      appstack).data.pending = [] := by
    unfold ShadowThreadState.pending
    split
    · exact fresh.1
    · exact fresh.2
  change access ∈ admitted params _ (eventThreadInit params client.tracker tid memBuf memory
    appstack).data.pending at member
  rw [none] at member
  exact absurd member List.not_mem_nil

namespace Watched

section Handles

variable (handles : params.forkHandle = (· % layout.tidRange))

include handles

/-- A thread is announced under its tid, if it is announced. -/
theorem own (watched : Watched params addr mutex client contract)
    (found : client.threads.lookup tid = some data) :
    data.detectorData = 0 ∨ data.detectorData = tid := by
  obtain ⟨hasId, -, known⟩ := watched.served.threads tid data found
  exact known.imp (fun unknown => unknown.1.1)
    fun known => known.1.trans (forkHandle_eq handles hasId)

/-- A thread works on its session. -/
theorem work (proper : Handles params (HasId layout))
    (watched : Watched params addr mutex client contract)
    (found : client.threads.lookup tid = some data) {event : ThreadEvent}
    (steady : client.tracker.Steady params)
    (feeds : Feeds params tid (client.session data) ((client.session data).step params event))
    (orderly : Orderly params (threadStep params client data event))
    (holding : Holding addr mutex (threadStep params client data event)) :
    ∃ after, Watched params addr mutex
      (client.withSession tid ((client.session data).step params event)) after := by
  obtain ⟨after, served⟩ := watched.served.work proper found feeds
  obtain ⟨-, new, added, gentle⟩ := feeds contract (watched.served.fed found)
  have own := forkHandle_eq handles (watched.served.threads tid data found).1
  obtain ⟨screened, secure⟩ :=
    (watched.screened tid data found).step rfl steady orderly holding added gentle
  have calls : (client.withSession tid ((client.session data).step params event)).calls =
      client.calls ++ new := added
  refine ⟨after, served, ?_, forall_insert (fun other differs otherData member => ?_) screened⟩
  · rw [calls]
    exact watched.secure.append secure
  · refine screened_other (watched.screened other otherData member)
      (watched.own handles member) fun hold held same => ?_
    rw [calls]
    exact mem_heldBy_append held (own.symm ▸ same ▸ differs) gentle

/-- A thread flushes its buffer, and is joined without a hold of the mutex. -/
theorem exit (proper : Handles params (HasId layout))
    (watched : Watched params addr mutex client contract)
    (found : client.threads.lookup tid = some data) (steady : client.tracker.Steady params)
    (without : ∀ hold ∈ heldBy client.calls, hold.mutex = mutex → hold.tls ≠ tid) (parent : ℕ) :
    let flushed := (client.session data).processBuffer params
    ∃ after, Watched params addr mutex { client with
      tracker := flushed.tracker
      threads := client.threads.erase tid
      calls := flushed.calls ++ [.join parent tid] } after := by
  obtain ⟨after, served⟩ := watched.served.exit proper found parent
  obtain ⟨hasId, -, -⟩ := watched.served.threads tid data found
  obtain ⟨-, new, added, gentle⟩ :=
    feeds_processBuffer (proper.nonzero tid hasId) contract (watched.served.fed found)
  have added : ((client.session data).processBuffer params).calls = client.calls ++ new := added
  have orderly : Orderly params (threadStep params client data .processBuffer) :=
    ⟨ThreadEvent.noConfusion, fun saves => absurd saves Bool.false_ne_true,
      fun _ restores => (by cases restores), fun _ records => (by cases records),
      fun ends => absurd ends Bool.false_ne_true⟩
  have holding : Holding addr mutex (threadStep params client data .processBuffer) :=
    fun _ records => by cases records
  obtain ⟨-, secure⟩ :=
    (watched.screened tid data found).step rfl steady orderly holding added gentle
  have held : heldBy ((client.session data).processBuffer params).calls = heldBy client.calls := by
    have analyzed : (client.session data).Analyzed ((client.session data).processBuffer params) :=
      analyzed_processBuffer
    obtain ⟨tracked, same, tracking⟩ := analyzed.calls
    rw [same]
    exact heldBy_of_tracking tracking
  refine ⟨after, served, ?_, fun other otherData member => ?_⟩
  · refine Along.append (added ▸ watched.secure.append secure) fun front call initial => ?_
    obtain ⟨rest, whole⟩ := initial
    cases front with
    | nil =>
      obtain ⟨rfl, -⟩ := List.cons.inj whole
      rw [List.append_nil]
      refine ⟨fun access accesses => (by cases accesses), fun hold member atMutex ends => ?_⟩
      rw [held] at member
      exact without hold member atMutex (Option.some.inj ends).symm
    | cons first others => exact absurd (congrArg List.length whole) (by simp)
  · have differs : other ≠ tid := by
      rintro rfl
      rw [AList.lookup_erase] at member
      cases member
    rw [AList.lookup_erase_ne differs] at member
    refine screened_other (watched.screened other otherData member)
      (watched.own handles member) fun hold before same => ?_
    show hold ∈ heldBy (_ ++ [_])
    rw [heldBy_concat, held]
    exact List.mem_filter.mpr ⟨before, decide_eq_true (same ▸ differs)⟩

end Handles

end Watched

/-- One event of the client keeps the address secure. -/
theorem watched_call (handles : params.forkHandle = (· % layout.tidRange))
    (proper : Handles params (HasId layout)) {event : ClientEvent layout} {output : Unit}
    (defined : client.call params event = some (later, output))
    (prompt : Prompt (HasId layout) (⟨client, event, later, output⟩ : ClientStep layout))
    (guarding : Guarding params addr mutex (⟨client, event, later, output⟩ : ClientStep layout))
    (watched : Watched params addr mutex client contract) :
    ∃ after, Watched params addr mutex later after := by
  cases event with
  | threadInit tid memBuf memory appstack =>
    obtain ⟨after, served⟩ := served_call proper defined prompt watched.served
    obtain ⟨rfl, -⟩ := Prod.mk.inj (Option.some.inj defined)
    refine ⟨after, served, watched.secure, ?_⟩
    exact forall_insert (fun other _ => watched.screened other)
      (screened_eventThreadInit guarding.1 tid memBuf memory appstack)
  | threadExit tid =>
    obtain ⟨data, found, same⟩ := Option.map_eq_some_iff.mp defined
    obtain ⟨rfl, -⟩ := Prod.mk.inj same
    obtain ⟨-, own, -⟩ := watched.served.threads tid data found
    subst own
    exact watched.exit handles proper found guarding.1 guarding.2 params.runtimeTid
  | thread tid event =>
    obtain ⟨data, found, same⟩ := Option.map_eq_some_iff.mp defined
    obtain ⟨rfl, -⟩ := Prod.mk.inj same
    obtain ⟨hasId, -, -⟩ := watched.served.threads tid data found
    obtain ⟨orderly, holding⟩ := guarding.2 data found
    have feeds : Feeds params tid (client.session data) ((client.session data).step params event) :=
      feeds_step (proper.nonzero tid hasId) event fun direct => prompt direct data found
    exact watched.work handles proper found guarding.1 feeds orderly holding
  | enableDetector enabled =>
    obtain ⟨after, served⟩ := served_call proper defined prompt watched.served
    obtain ⟨rfl, -⟩ := Prod.mk.inj (Option.some.inj defined)
    exact ⟨after, served, watched.secure, fun tid data found =>
      screened_other (watched.screened tid data found)
        (watched.own handles found) fun _ held _ => held⟩
  | setSamplingrate rate =>
    obtain ⟨after, served⟩ := served_call proper defined prompt watched.served
    obtain ⟨rfl, -⟩ := Prod.mk.inj (Option.some.inj defined)
    exact ⟨after, served, watched.secure, fun tid data found =>
      screened_other (watched.screened tid data found)
        (watched.own handles found) fun _ held _ => held⟩

/-- Two threads write to one address under a mutex, and to another one without it. -/
def locksOne : List (ClientEvent .x64) :=
  [.threadInit 1 fixedBuffer (fun _ => ⟨0, 0, 0⟩) (0, 0), .thread 1 (.funcCall 0x40 0),
    .threadInit 2 fixedBuffer (fun _ => ⟨0, 0, 0⟩) (0, 0), .thread 2 (.funcCall 0x50 0),
    .thread 1 (.record 0x200 0x41 4 true), .thread 1 (.mutexLock (some 0) 7 true false),
    .thread 1 (.record 0x100 0x42 4 true), .thread 2 (.record 0x200 0x51 4 true),
    .thread 2 .processBuffer, .thread 1 (.mutexUnlock (some 7) true),
    .thread 2 (.mutexLock (some 0) 7 true false), .thread 2 (.record 0x100 0x52 4 true),
    .thread 2 (.mutexUnlock (some 7) true), .thread 2 (.funcRet 0x50), .threadExit 2]

end Client

end Drace
