/-
This file says that the detector can look at a part of the memory alone.

Two states are alike on some addresses if they have the same clocks, the same call
stacks, and the same variables and traces for these addresses. A call that is no
access does the same to both. So does an access to one of the addresses, and an
access to another one, made on one side only, leaves them alike. Thus the accesses
to other addresses can be left out of a run, and what is reported for the addresses
that are kept is the same.
-/

import Drace.Depots
import Drace.Forward
import Drace.History
import Drace.StackDepot

namespace Drace

open Machine

/-- Two objects of a thread with the same clock, the same call stack, and the same traces of the
addresses that are kept. -/
structure ThreadState.Alike (kept : ℕ → Prop) (thread other : ThreadState) : Prop where
  clock : thread.toVectorClock = other.toVectorClock
  id : thread.id = other.id
  path : thread.traceDepot.callPath = other.traceDepot.callPath
  trace : ∀ addr, kept addr →
    thread.traceDepot.returnStackTrace addr = other.traceDepot.returnStackTrace addr

/-- Two detectors that differ in what they know of addresses that are not kept. -/
structure Fasttrack.Alike (kept : ℕ → Prop) (ft other : Fasttrack) : Prop where
  threads : ∀ tid, Option.Rel (ThreadState.Alike kept) (ft.threads.lookup tid)
    (other.threads.lookup tid)
  locks : ft.locks = other.locks
  happensStates : ft.happensStates = other.happensStates
  allocs : ft.allocs = other.allocs
  vars : ∀ addr, kept addr → ft.vars.lookup addr = other.vars.lookup addr

variable {layout : Layout} {kept : ℕ → Prop}

/-! ### Threads -/

namespace ThreadState.Alike

variable {thread copy : ThreadState}

theorem refl (thread : ThreadState) : thread.Alike kept thread := ⟨rfl, rfl, rfl, fun _ _ => rfl⟩

theorem incVc (layout : Layout) (alike : thread.Alike kept copy) :
    (thread.incVc layout).Alike kept (copy.incVc layout) := by
  refine ⟨?_, ?_, alike.path, alike.trace⟩
  · simp only [ThreadState.incVc, alike.clock, alike.id]
  · simp only [ThreadState.incVc, alike.id]

theorem mergeClock (alike : thread.Alike kept copy) (clock : VectorClock) :
    (thread.mergeClock clock).Alike kept (copy.mergeClock clock) :=
  ⟨by rw [toVectorClock_mergeClock, toVectorClock_mergeClock, alike.clock], alike.id, alike.path,
    alike.trace⟩

theorem dropEntry (alike : thread.Alike kept copy) (tid : ℕ) :
    (thread.dropEntry tid).Alike kept (copy.dropEntry tid) :=
  ⟨by rw [toVectorClock_dropEntry, toVectorClock_dropEntry, alike.clock], alike.id, alike.path,
    alike.trace⟩

/-- A child copies the clock of its parent only. -/
theorem new_eq (alike : thread.Alike kept copy) (tid : ℕ) :
    ThreadState.new layout tid (some thread) = .new layout tid (some copy) := by
  simp only [ThreadState.new, alike.clock]

theorem push (alike : thread.Alike kept copy) (element : ℕ) :
    Alike kept { thread with traceDepot := thread.traceDepot.pushStackElement element }
      { copy with traceDepot := copy.traceDepot.pushStackElement element } := by
  refine ⟨alike.clock, alike.id, ?_, fun addr member => ?_⟩
  · rw [StackTrace.callPath_push, StackTrace.callPath_push, alike.path]
  · rw [StackTrace.returnStackTrace_push, StackTrace.returnStackTrace_push, alike.trace addr member]

/-- Both stacks can be popped, or none. -/
theorem pop (alike : thread.Alike kept copy) :
    Option.Rel (fun popped other => Alike kept { thread with traceDepot := popped }
      { copy with traceDepot := other }) thread.traceDepot.popStackElement
        copy.traceDepot.popStackElement := by
  cases popped : thread.traceDepot.popStackElement with
  | none =>
    have empty := StackTrace.popStackElement_eq_none_iff.mp popped
    rw [StackTrace.popStackElement_eq_none_iff.mpr (alike.path.symm.trans empty)]
    exact .none
  | some depot =>
    obtain ⟨element, path⟩ := StackTrace.callPath_pop popped
    cases other : copy.traceDepot.popStackElement with
    | none =>
      have empty := StackTrace.popStackElement_eq_none_iff.mp other
      rw [← alike.path, path] at empty
      exact absurd empty (List.concat_ne_nil _ _)
    | some otherDepot =>
      obtain ⟨otherElement, otherPath⟩ := StackTrace.callPath_pop other
      have both := path.symm.trans (alike.path.trans otherPath)
      refine .some ⟨alike.clock, alike.id, List.append_inj_left' both rfl, fun addr member => ?_⟩
      rw [StackTrace.returnStackTrace_pop popped, StackTrace.returnStackTrace_pop other,
        alike.trace addr member]

theorem record (alike : thread.Alike kept copy) (addr pc : ℕ) :
    Alike kept { thread with traceDepot := thread.traceDepot.setReadWrite addr pc }
      { copy with traceDepot := copy.traceDepot.setReadWrite addr pc } := by
  refine ⟨alike.clock, alike.id, alike.path, fun other member => ?_⟩
  rw [StackTrace.returnStackTrace_setReadWrite, StackTrace.returnStackTrace_setReadWrite,
    alike.path, alike.trace other member]

/-- An access to an address that is not kept goes unnoticed. -/
theorem recordLeft (alike : thread.Alike kept copy) {addr pc : ℕ} (left : ¬ kept addr) :
    Alike kept { thread with traceDepot := thread.traceDepot.setReadWrite addr pc } copy := by
  refine ⟨alike.clock, alike.id, alike.path, fun other member => ?_⟩
  have differs : other ≠ addr := by
    rintro rfl
    exact left member
  rw [StackTrace.returnStackTrace_setReadWrite, if_neg differs, alike.trace other member]

end ThreadState.Alike

/-! ### Tables -/

namespace Fasttrack.Alike

variable {ft copy : Fasttrack} {thread other : ThreadState} {tid tls : ℕ}

/-- A handle leads to objects that are alike, or to none. -/
theorem lookup (alike : ft.Alike kept copy) (tid : ℕ) :
    (ft.threads.lookup tid = none ∧ copy.threads.lookup tid = none) ∨
      ∃ thread other, ft.threads.lookup tid = some thread ∧ copy.threads.lookup tid = some other ∧
        thread.Alike kept other := by
  have both := alike.threads tid
  generalize ft.threads.lookup tid = found at both
  generalize copy.threads.lookup tid = known at both
  cases both with
  | none => exact Or.inl ⟨rfl, rfl⟩
  | some same => exact Or.inr ⟨_, _, rfl, rfl, same⟩

theorem mem_threads (alike : ft.Alike kept copy) : tid ∈ ft.threads ↔ tid ∈ copy.threads := by
  rw [← AList.lookup_isSome, ← AList.lookup_isSome]
  obtain ⟨absent, gone⟩ | ⟨thread, other, found, known, -⟩ := alike.lookup tid
  · rw [absent, gone]
  · rw [found, known]
    exact iff_of_true rfl rfl

theorem setThread (alike : ft.Alike kept copy) (same : thread.Alike kept other) (tls : ℕ) :
    (ft.setThread tls thread).Alike kept (copy.setThread tls other) := by
  refine ⟨fun tid => ?_, alike.locks, alike.happensStates, alike.allocs, alike.vars⟩
  simp only [Fasttrack.setThread, AList.lookup_insert_eq_ite]
  split
  · exact .some same
  · exact alike.threads tid

theorem eraseThread (alike : ft.Alike kept copy) (tls : ℕ) :
    Alike kept { ft with threads := ft.threads.erase tls }
      { copy with threads := copy.threads.erase tls } := by
  refine ⟨fun tid => ?_, alike.locks, alike.happensStates, alike.allocs, alike.vars⟩
  simp only [AList.lookup_erase_eq_ite]
  split
  · exact .none
  · exact alike.threads tid

theorem modifyThread (alike : ft.Alike kept copy) {change : ThreadState → ThreadState}
    (keeps : ∀ thread other, thread.Alike kept other → (change thread).Alike kept (change other)) :
    (ft.modifyThread tls change).Alike kept (copy.modifyThread tls change) := by
  unfold Fasttrack.modifyThread
  obtain ⟨absent, gone⟩ | ⟨thread, other, found, known, same⟩ := alike.lookup tls
  · rw [absent, gone]
    exact alike
  · rw [found, known]
    exact alike.setThread (keeps _ _ same) tls

theorem createThread (alike : ft.Alike kept copy) (tid : ℕ)
    {parent otherParent : Option ThreadState}
    (same : ∀ tid, ThreadState.new layout tid parent = .new layout tid otherParent) :
    (ft.createThread layout tid parent).1.Alike kept (copy.createThread layout tid otherParent).1 ∧
      (ft.createThread layout tid parent).2 = (copy.createThread layout tid otherParent).2 := by
  unfold Fasttrack.createThread
  simp only
  by_cases present : tid % layout.tidRange ∈ ft.threads
  · rw [if_pos present, if_pos (alike.mem_threads.mp present)]
    exact ⟨alike, rfl⟩
  · rw [if_neg present, if_neg (mt alike.mem_threads.mpr present), same]
    exact ⟨alike.setThread (.refl _) _, rfl⟩

theorem cleanup (alike : ft.Alike kept copy) (tid : ℕ) :
    (ft.cleanup layout tid).Alike kept (copy.cleanup layout tid) := by
  refine ⟨fun key => ?_, ?_, ?_, alike.allocs, alike.vars⟩
  · simp only [Fasttrack.cleanup, AList.lookup_mapValues]
    obtain ⟨absent, gone⟩ | ⟨thread, other, found, known, same⟩ := alike.lookup key
    · rw [absent, gone]
      exact .none
    · rw [found, known]
      exact .some (same.dropEntry _)
  · simp only [Fasttrack.cleanup, alike.locks]
  · simp only [Fasttrack.cleanup, alike.happensStates]

theorem createLock (alike : ft.Alike kept copy) (mutex : ℕ) :
    (ft.createLock mutex).Alike kept (copy.createLock mutex) := by
  unfold Fasttrack.createLock
  rw [alike.locks]
  split
  · exact alike
  · exact ⟨alike.threads, rfl, alike.happensStates, alike.allocs, alike.vars⟩

theorem createHappens (alike : ft.Alike kept copy) (identifier : ℕ) :
    (ft.createHappens identifier).Alike kept (copy.createHappens identifier) := by
  unfold Fasttrack.createHappens
  rw [alike.happensStates]
  split
  · exact alike
  · exact ⟨alike.threads, alike.locks, rfl, alike.allocs, alike.vars⟩

/-! ### Calls -/

variable {event : Event}

/-- A call that changes the object behind a handle does the same on both sides. -/
theorem map_setThread (alike : ft.Alike kept copy) (tls : ℕ) {result otherResult : ThreadState →
    Fasttrack} (keeps : ∀ thread other, ft.threads.lookup tls = some thread →
      copy.threads.lookup tls = some other → thread.Alike kept other →
      (result thread).Alike kept (otherResult other)) :
    Option.Rel (Agree (Fasttrack.Alike kept))
      (((ft.threads.lookup tls).map result).map fun next => (next, ({} : Output)))
      (((copy.threads.lookup tls).map otherResult).map fun next => (next, {})) := by
  obtain ⟨absent, gone⟩ | ⟨thread, other, found, known, same⟩ := alike.lookup tls
  · rw [absent, gone]
    exact .none
  · rw [found, known]
    exact .some ⟨keeps _ _ found known same, rfl⟩

theorem fork (alike : ft.Alike kept copy) (parent child : ℕ) :
    Agree (Fasttrack.Alike kept) (ft.fork layout parent child) (copy.fork layout parent child) := by
  unfold Fasttrack.fork
  obtain ⟨absent, gone⟩ | ⟨thread, other, found, known, same⟩ := alike.lookup parent
  · rw [absent, gone]
    exact alike.createThread child fun _ => rfl
  · rw [found, known]
    exact (alike.setThread (same.incVc layout) parent).createThread child (same.incVc layout).new_eq

theorem join (alike : ft.Alike kept copy) (parent child : ℕ) :
    (ft.join layout parent child).Alike kept (copy.join layout parent child) := by
  unfold Fasttrack.join
  obtain ⟨absent, gone⟩ | ⟨thread, other, found, known, same⟩ := alike.lookup child
  · rw [absent, gone]
    exact alike
  · rw [found, known]
    obtain ⟨absent, gone⟩ | ⟨_, _, found, known, -⟩ := alike.lookup parent
    · rw [absent, gone]
      exact alike
    · rw [found, known]
      simp only
      rw [← (same.incVc layout).clock]
      exact (((alike.setThread (same.incVc layout) child).modifyThread fun _ _ merged =>
        merged.mergeClock _).eraseThread child).cleanup child

/-- A call that is no access is defined on both sides or on neither, and does the same. -/
theorem call (alike : ft.Alike kept copy) (quiet : event.access? = none) :
    Option.Rel (Agree (Fasttrack.Alike kept)) (ft.call layout event) (copy.call layout event) := by
  cases event with
  | read | write => cases quiet
  | funcEnter tls pc =>
    exact alike.map_setThread tls fun _ _ _ _ same => alike.setThread (same.push pc) tls
  | funcExit tls =>
    simp only [Fasttrack.call, Fasttrack.funcExit]
    obtain ⟨absent, gone⟩ | ⟨thread, other, found, known, same⟩ := alike.lookup tls
    · rw [absent, gone]
      exact .none
    · rw [found, known, Option.bind_some, Option.bind_some]
      have popped := same.pop
      generalize thread.traceDepot.popStackElement = depot at popped
      generalize other.traceDepot.popStackElement = otherDepot at popped
      cases popped with
      | none => exact .none
      | some both => exact .some ⟨alike.setThread both tls, rfl⟩
  | fork parent child =>
    obtain ⟨forked, handle⟩ := alike.fork parent child
    refine .some ⟨forked, ?_⟩
    simp only [handle]
  | join parent child => exact .some ⟨alike.join parent child, rfl⟩
  | acquire tls mutex recursive write =>
    simp only [Fasttrack.call, Fasttrack.acquire]
    split
    · exact .some ⟨alike, rfl⟩
    · have created := alike.createLock mutex
      rw [created.locks]
      exact created.map_setThread tls fun _ _ _ _ same =>
        created.setThread (same.mergeClock _) tls
  | release tls mutex write =>
    simp only [Fasttrack.call, Fasttrack.release, alike.locks]
    split
    · exact .some ⟨alike.createLock mutex, rfl⟩
    · refine alike.map_setThread tls fun _ _ _ _ same => ?_
      have set := alike.setThread (same.incVc layout) tls
      have clocks := (same.incVc layout).clock
      exact ⟨set.threads, by rw [clocks], set.happensStates, set.allocs, set.vars⟩
  | happensBefore tls identifier =>
    have created := alike.createHappens identifier
    simp only [Fasttrack.call, Fasttrack.happensBefore, created.happensStates]
    refine created.map_setThread tls fun thread other _ _ same => ?_
    have set := created.setThread (same.incVc layout) tls
    have id : (thread.incVc layout).id = (other.incVc layout).id := (same.incVc layout).id
    refine ⟨set.threads, set.locks, ?_, set.allocs, set.vars⟩
    simp only [ThreadState.getTid, ThreadState.returnOwnId, id]
  | happensAfter tls identifier =>
    simp only [Fasttrack.call, Fasttrack.happensAfter, alike.happensStates]
    split
    · exact .some ⟨alike.createHappens identifier, rfl⟩
    · exact alike.map_setThread tls fun _ _ _ _ same => alike.setThread (same.mergeClock _) tls
  | allocate tls pc addr size =>
    refine .some ⟨?_, rfl⟩
    simp only [Fasttrack.allocate, alike.allocs]
    split
    · exact alike
    · exact ⟨alike.threads, alike.locks, alike.happensStates, rfl, alike.vars⟩
  | deallocate tls addr =>
    refine .some ⟨?_, rfl⟩
    have sameEnd : ft.endAddr layout addr = copy.endAddr layout addr := by
      rw [Fasttrack.endAddr, Fasttrack.endAddr, alike.allocs]
    refine ⟨alike.threads, alike.locks, alike.happensStates, ?_, fun key member => ?_⟩
    · simp only [Fasttrack.deallocate, alike.allocs, (Fasttrack.eraseVars_spec _ _ _ 0).1]
    · rw [(Fasttrack.deallocate_spec layout ft addr key).1,
        (Fasttrack.deallocate_spec layout copy addr key).1, sameEnd, alike.vars key member]
  | detach => exact .some ⟨alike, rfl⟩
  | finish tls threadId =>
    exact .some ⟨(alike.eraseThread threadId).cleanup threadId, rfl⟩
  | mapShadow => exact .some ⟨alike, rfl⟩
  | finalize => exact .some ⟨⟨fun _ => .none, rfl, rfl, rfl, fun _ _ => rfl⟩, rfl⟩

/-! ### Accesses -/

/-- The same is reported for an address that is kept. -/
theorem reportRace_eq (alike : ft.Alike kept copy) {addr : ℕ} (member : kept addr) (thr1 thr2 : ℕ)
    (wr1 wr2 : Bool) (var : VarState) :
    ft.reportRace thr1 thr2 wr1 wr2 var addr = copy.reportRace thr1 thr2 wr1 wr2 var addr := by
  unfold Fasttrack.reportRace
  obtain ⟨absent, gone⟩ | ⟨first, otherFirst, found, known, same⟩ := alike.lookup thr1
  · rw [absent, gone]
  · rw [found, known]
    obtain ⟨absent, gone⟩ | ⟨second, otherSecond, found, known, sameSecond⟩ := alike.lookup thr2
    · rw [absent, gone]
    · rw [found, known]
      simp only [same.trace addr member, sameSecond.trace addr member]

/-- A check depends on the clock of the thread, on the variable, and on what would be reported. -/
theorem accessVar_eq (alike : ft.Alike kept copy) (same : thread.Alike kept other) {addr : ℕ}
    (member : kept addr) (write : Bool) (var : VarState) :
    ft.accessVar layout write thread var addr = copy.accessVar layout write other var addr := by
  obtain ⟨clock, id, depot⟩ := thread
  obtain ⟨otherClock, otherId, otherDepot⟩ := other
  obtain ⟨rfl : clock = otherClock, rfl : id = otherId, -, -⟩ := same
  cases write with
  | true =>
    simp only [Fasttrack.accessVar, Fasttrack.writeVar, alike.reportRace_eq member]
    rfl
  | false =>
    simp only [Fasttrack.accessVar, Fasttrack.readVar, alike.reportRace_eq member]
    rfl

/-- The statistics are not compared. -/
theorem countRule (alike : ft.Alike kept copy) (rule : Rule) :
    (ft.countRule rule).Alike kept copy := by
  unfold Fasttrack.countRule
  split
  · exact ⟨alike.threads, alike.locks, alike.happensStates, alike.allocs, alike.vars⟩
  · exact alike

theorem refl (ft : Fasttrack) : ft.Alike kept ft := by
  refine ⟨fun tid => ?_, rfl, rfl, rfl, fun _ _ => rfl⟩
  cases ft.threads.lookup tid with
  | none => exact .none
  | some thread => exact .some (.refl thread)

theorem symm (alike : ft.Alike kept copy) : copy.Alike kept ft := by
  refine ⟨fun tid => ?_, alike.locks.symm, alike.happensStates.symm, alike.allocs.symm,
    fun addr member => (alike.vars addr member).symm⟩
  obtain ⟨absent, gone⟩ | ⟨thread, other, found, known, same⟩ := alike.lookup tid
  · rw [absent, gone]
    exact .none
  · rw [found, known]
    exact .some ⟨same.clock.symm, same.id.symm, same.path.symm,
      fun addr member => (same.trace addr member).symm⟩

/-- The same result is stored on both sides. -/
theorem storeAccess (alike : ft.Alike kept copy) (addr : ℕ) (result : VarState × List Race × Rule) :
    (ft.storeAccess addr result).1.Alike kept (copy.storeAccess addr result).1 := by
  have stored : Alike kept { ft with vars := ft.vars.insert addr result.1 }
      { copy with vars := copy.vars.insert addr result.1 } := by
    refine ⟨alike.threads, alike.locks, alike.happensStates, alike.allocs, fun key member => ?_⟩
    simp only [AList.lookup_insert_eq_ite, alike.vars key member]
  exact ((stored.countRule _).symm.countRule _).symm

/-- What is stored for an address that is not kept goes unnoticed. -/
theorem storeLeft (alike : ft.Alike kept copy) {addr : ℕ} (left : ¬ kept addr)
    (result : VarState × List Race × Rule) : (ft.storeAccess addr result).1.Alike kept copy := by
  have stored : Alike kept { ft with vars := ft.vars.insert addr result.1 } copy := by
    refine ⟨alike.threads, alike.locks, alike.happensStates, alike.allocs, fun key member => ?_⟩
    have differs : key ≠ addr := by
      rintro rfl
      exact left member
    rw [AList.lookup_insert_ne differs, alike.vars key member]
  exact stored.countRule _

/-- What is recorded in the depot of a thread for an address that is not kept goes unnoticed. -/
theorem recordLeft (alike : ft.Alike kept copy) (found : ft.threads.lookup tls = some thread)
    {addr : ℕ} (left : ¬ kept addr) (pc : ℕ) :
    (ft.recordAccess tls thread pc addr).Alike kept copy := by
  refine ⟨fun tid => ?_, alike.locks, alike.happensStates, alike.allocs, alike.vars⟩
  simp only [Fasttrack.recordAccess, Fasttrack.setThread, AList.lookup_insert_eq_ite]
  split
  · next here =>
    obtain ⟨absent, -⟩ | ⟨same, other, again, known, alikeThread⟩ := alike.lookup tls
    · rw [absent] at found
      cases found
    · obtain rfl := Option.some.inj (found.symm.trans again)
      rw [here, known]
      exact .some (alikeThread.recordLeft left)
  · exact alike.threads tid

end Fasttrack.Alike

/-- The detector after an access of a thread, and the races it reports. -/
def Fasttrack.accessed (layout : Layout) (ft : Fasttrack) (access : Access) (thread : ThreadState) :
    Fasttrack × List Race :=
  let ft := ft.recordAccess access.tls thread access.pc access.addr
  ft.storeAccess access.addr (ft.accessVar layout access.write thread
    (ft.createVar access.addr access.size) access.addr)

/-- A read or write in terms of the access it makes. -/
theorem Fasttrack.call_eq_accessed {ft : Fasttrack} {event : Event} {access : Access}
    (accesses : event.access? = some access) :
    ft.call layout event = (ft.threads.lookup access.tls).map fun thread =>
      ((ft.accessed layout access thread).1,
        { races := (ft.accessed layout access thread).2 }) := by
  cases event with
  | read | write =>
    obtain rfl := Option.some.inj accesses
    exact Option.map_map _ _ _
  | _ => cases accesses

namespace Fasttrack.Alike

variable {ft copy next : Fasttrack} {thread other : ThreadState} {event : Event} {access : Access}
  {output : Output}

/-- An access to an address that is kept is defined on both sides or on neither, and does the
same. -/
theorem call_kept (alike : ft.Alike kept copy) (accesses : event.access? = some access)
    (member : kept access.addr) :
    Option.Rel (Agree (Fasttrack.Alike kept)) (ft.call layout event) (copy.call layout event) := by
  rw [Fasttrack.call_eq_accessed accesses, Fasttrack.call_eq_accessed accesses]
  obtain ⟨absent, gone⟩ | ⟨thread, other, found, known, same⟩ := alike.lookup access.tls
  · rw [absent, gone]
    exact .none
  · rw [found, known]
    have recorded := alike.setThread (same.record access.addr access.pc) access.tls
    have sameVar : (ft.recordAccess access.tls thread access.pc access.addr).createVar access.addr
        access.size = (copy.recordAccess access.tls other access.pc access.addr).createVar
          access.addr access.size := by
      have sameEntry := recorded.vars _ member
      unfold Fasttrack.createVar Fasttrack.recordAccess
      rw [sameEntry]
    simp only [Fasttrack.accessed, Option.map_some]
    rw [sameVar, Fasttrack.recordAccess, Fasttrack.recordAccess, recorded.accessVar_eq same member]
    exact .some ⟨recorded.storeAccess _ _, rfl⟩

/-- An access to an address that is not kept goes unnoticed. -/
theorem call_left (alike : ft.Alike kept copy) (accesses : event.access? = some access)
    (left : ¬ kept access.addr) (defined : ft.call layout event = some (next, output)) :
    next.Alike kept copy := by
  rw [Fasttrack.call_eq_accessed accesses] at defined
  obtain ⟨thread, found, made⟩ := Option.map_eq_some_iff.mp defined
  obtain ⟨rfl, -⟩ := Prod.mk.inj made
  exact (alike.recordLeft found left access.pc).storeLeft left _

end Fasttrack.Alike

/-! ### Slices of a run -/

/-- The event is no access, or accesses an address that is kept. -/
def Event.concerns (part : ℕ → Bool) (event : Event) : Bool :=
  event.access?.all fun access => part access.addr

/-- All that a run has reported. -/
def reported (past : List Step) : List Race := past.flatMap fun step => step.output.races

variable {part : ℕ → Bool} {past : List Step} {ft next : Fasttrack} {event : Event}
  {output : Output}

/-- What a call reports is about the address it accesses. -/
theorem address_of_race (defined : ft.call layout event = some (next, output)) {race : Race}
    (member : race ∈ output.races) :
    ∃ access, event.access? = some access ∧ race.second.accessedMemory = access.addr := by
  cases accesses : event.access? with
  | none =>
    rw [(Fasttrack.call_quiet accesses defined).1] at member
    cases member
  | some access =>
    obtain ⟨_, _, _, _, _, races⟩ := Fasttrack.call_access accesses defined
    rw [races] at member
    obtain ⟨verdict, -, reports⟩ := List.mem_flatMap.mp member
    obtain ⟨first, second, -, -, rfl⟩ := mem_reportRace reports
    exact ⟨access, rfl, rfl⟩

/-- A call reports for addresses that are kept if it concerns them, and else for others. -/
theorem filter_races (defined : ft.call layout event = some (next, output)) :
    output.races.filter (fun race => part race.second.accessedMemory) =
      if event.concerns part then output.races else [] := by
  have address : ∀ race ∈ output.races, part race.second.accessedMemory = event.concerns part := by
    intro race member
    obtain ⟨access, accesses, same⟩ := address_of_race defined member
    rw [same, Event.concerns, accesses, Option.all_some]
  rw [List.filter_congr address]
  cases event.concerns part with
  | true => exact List.filter_true _
  | false => exact List.filter_false _

/-- The steps that concern a part of the memory can be made without the others. -/
theorem Fasttrack.Alike.step {copy : Fasttrack} (alike : ft.Alike (fun addr => part addr) copy)
    (defined : ft.call layout event = some (next, output)) :
    ∃ later, (Fasttrack.machine layout).Path copy
        (if event.concerns part then [(event, output)] else []) later ∧
      next.Alike (fun addr => part addr) later := by
  have made (both : Option.Rel (Agree (Fasttrack.Alike fun addr => part addr))
      (ft.call layout event) (copy.call layout event)) :
      ∃ later, (Fasttrack.machine layout).Path copy [(event, output)] later ∧
        next.Alike (fun addr => part addr) later := by
    rw [defined] at both
    obtain ⟨later, other, related⟩ := exists_agreeing both
    exact ⟨later, .single other, related⟩
  cases accesses : event.access? with
  | none =>
    rw [if_pos (by rw [Event.concerns, accesses]; rfl)]
    exact made (alike.call accesses)
  | some access =>
    have concerns : event.concerns part = part access.addr := by
      rw [Event.concerns, accesses, Option.all_some]
    by_cases member : part access.addr
    · rw [if_pos (concerns.trans member)]
      exact made (alike.call_kept accesses member)
    · rw [if_neg (by rwa [concerns])]
      exact ⟨copy, .nil, alike.call_left accesses member defined⟩

/-- What is reported about a part of the memory is reported by the steps that concern it. -/
theorem filter_reported (reaches : Reaches layout past ft) :
    (reported past).filter (fun race => part race.second.accessedMemory) =
      reported (past.filter fun step => step.event.concerns part) := by
  induction reaches with
  | start => rfl
  | @call past ft next event output _ defined inductionHypothesis =>
    simp only [reported] at inductionHypothesis ⊢
    rw [List.flatMap_append, List.filter_append, inductionHypothesis, List.filter_append,
      List.flatMap_append, List.flatMap_singleton, filter_races defined]
    by_cases concerns : event.concerns part <;> simp [concerns]

/-- The accesses to addresses outside a part of the memory can be left out of a run: the other calls
put out the same, and what they report is what was reported about the part. -/
theorem sliced (reaches : Reaches layout past ft) (part : ℕ → Bool) :
    ∃ slice small, Reaches layout slice small ∧
      slice.map Step.visible = (past.filter fun step => step.event.concerns part).map Step.visible ∧
      reported slice = (reported past).filter fun race => part race.second.accessedMemory := by
  have starts : ∀ ft, (Fasttrack.machine layout).start ft →
      ∃ copy, (Fasttrack.machine layout).start copy ∧ ft.Alike (fun addr => part addr) copy :=
    fun ft begins => ⟨ft, begins, .refl ft⟩
  have always : Always (fun _ _ => True) past := fun _ _ _ => trivial
  obtain ⟨slice, small, slices, -, same⟩ := Reaches.follow
    (fun step => if step.event.concerns part then [step.visible] else [])
    (fun _ ft copy => ft.Alike (fun addr => part addr) copy) starts
    (fun _ _ _ _ _ _ _ defined _ alike => alike.step defined) reaches always
  have kept := same.trans (flatMap_ite _ _ past)
  have shown : ∀ steps : List Step, reported steps =
      (steps.map Step.visible).flatMap fun visible => visible.2.races := by
    intro steps
    rw [List.flatMap_map]
    rfl
  refine ⟨slice, small, slices, kept, ?_⟩
  rw [filter_reported reaches, shown slice, kept, ← shown]

/-- Two threads write two addresses without a lock. -/
def writesApart : List Event :=
  [.fork 9 1, .fork 9 2, .funcEnter 1 50, .write 1 10 0x100 4, .write 1 11 0x200 4,
    .write 2 20 0x200 4, .write 2 21 0x100 4]

theorem sliced_writes_apart :
    ∃ slice small, Reaches .x64 slice small ∧
      slice.map Step.visible = ((ran .x64 writesApart).1.filter fun step =>
        step.event.concerns fun addr => addr == 0x100).map Step.visible ∧
      reported slice = (reported (ran .x64 writesApart).1).filter fun race =>
        race.second.accessedMemory == 0x100 :=
  sliced (reaches_ran .x64 writesApart) fun addr => addr == 0x100

end Drace
