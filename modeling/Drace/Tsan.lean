/-
This file models the detector that forwards to ThreadSanitizer, and says that it uses
the library as it should.

The detector keeps a table of the threads it has created, and turns every call of the
interface into calls of the library. A fork draws an edge from all active threads to
the child, and a join one from the child to all active threads. Addresses are mapped
into one block of 32 bits. A thread object of the library must not be used before it is
created or after it is finished. If the caller keeps to the contract of the interface, no
call of the library does so, and after the detector is finalized no thread object is
left.
-/

import Drace.Serving

namespace Drace

open Machine

/-! ### The model -/

/-- The calls of the library. A thread object is created for the tid of the user. -/
inductive TsanCall
  | createThread (userTid thr : ℕ)
  | happensBefore (thr addr : ℕ)
  | happensAfter (thr addr : ℕ)
  | mutexAfterLock (thr addr : ℕ) (write : Bool)
  | mutexBeforeUnlock (thr addr : ℕ) (write : Bool)
  | read (thr addr pc : ℕ)
  | write (thr addr pc : ℕ)
  | funcEnter (thr pc : ℕ)
  | funcExit (thr : ℕ)
  | threadFinish (thr : ℕ)
  | goEnd (thr : ℕ)
  | mapShadow (addr size : ℕ)
  | fini
  deriving DecidableEq

/-- A thread of the application and its object in the library. -/
structure TsanThread where
  tsan : ℕ := 0
  active : Bool := false
  deriving DecidableEq

/-- The order in which a loop visits the hash table of the threads. -/
structure ThreadOrder where
  visit : (AList fun _ : ℕ => TsanThread) → List (Σ _ : ℕ, TsanThread)
  perm : ∀ states, (visit states).Perm states.entries

/-- The threads in the order of their entries. -/
def ThreadOrder.byEntries : ThreadOrder := ⟨AList.entries, fun _ => .rfl⟩

/-- The state of the detector. -/
structure Tsan where
  threadStates : AList fun _ : ℕ => TsanThread := ∅

/-- A call of the interface, and what the library returns if a thread is created. -/
structure TsanEvent where
  call : Event
  created : ℕ := 0
  deriving DecidableEq

namespace Tsan

/-- The reserved area at the begin of the shadow memory. -/
def memstart : ℕ := 0xc000000000

/-- Only the lower 32 bits of an address are considered. -/
def translate (addr : ℕ) : ℕ := addr % 0x100000000 + memstart

/-- The identifier of the edge between parent and child. -/
def getEventId (parent child : ℕ) : ℕ := translate (parent * 65521 + child)

/-- The address of a mutex. If the mutex is a handle, the id might be too small. -/
def mutexAddr (mutex : ℕ) : ℕ :=
  if translate mutex < memstart then translate mutex + memstart else translate mutex

variable (order : ThreadOrder)

/-- The objects of the active threads. -/
def activeThreads (states : AList fun _ : ℕ => TsanThread) : List ℕ :=
  (order.visit states).filterMap fun state => if state.2.active then some state.2.tsan else none

/-- A thread is not active any more. A thread that is not in the table is added to it. -/
def deactivate (states : AList fun _ : ℕ => TsanThread) (tid : ℕ) :
    AList fun _ : ℕ => TsanThread :=
  states.insert tid { (states.lookup tid).getD {} with active := false }

/-- A thread is created, and all active threads happen before it. -/
def fork (tsan : Tsan) (parent child created : ℕ) : Option (Tsan × List TsanCall) :=
  let eventId := getEventId parent child
  let active := activeThreads order tsan.threadStates
  -- assert(nullptr != t.second.tsan)
  if 0 ∈ active then none
  else some ({ threadStates := tsan.threadStates.insert child ⟨created, true⟩ },
    .createThread child created :: active.map (.happensBefore · eventId) ++
      [.happensAfter created eventId])

/-- A thread is finished, and happens before all active threads. -/
def join (tsan : Tsan) (parent child : ℕ) : Option (Tsan × List TsanCall) :=
  let eventId := getEventId parent child
  let states := deactivate tsan.threadStates child
  let thr := ((tsan.threadStates.lookup child).getD {}).tsan
  let active := activeThreads order states
  -- assert(nullptr != thr), and the same for the active threads
  if thr = 0 ∨ 0 ∈ active then none
  else some ({ threadStates := states },
    .happensBefore thr eventId :: active.map (.happensAfter · eventId) ++ [.threadFinish thr])

/-- The active threads are finished. -/
def finalize (tsan : Tsan) : Tsan × List TsanCall :=
  ({ threadStates := tsan.threadStates.mapValues fun state => { state with active := false } },
    ((activeThreads order tsan.threadStates).filter (· ≠ 0)).map .goEnd ++ [.fini])

/-- One call of the detector, and the calls of the library it makes. Allocations are not handled,
and detaching is not supported. -/
def call (tsan : Tsan) (event : TsanEvent) : Option (Tsan × List TsanCall) :=
  match event.call with
  | .read tls pc addr _ => some (tsan, [.read tls (translate addr) pc])
  | .write tls pc addr _ => some (tsan, [.write tls (translate addr) pc])
  | .funcEnter tls pc => some (tsan, [.funcEnter tls pc])
  | .funcExit tls => some (tsan, [.funcExit tls])
  | .fork parent child => tsan.fork order parent child event.created
  | .join parent child => tsan.join order parent child
  | .acquire tls mutex _ write =>
    -- assert(nullptr != tls)
    if tls = 0 then none else some (tsan, [.mutexAfterLock tls (mutexAddr mutex) write])
  | .release tls mutex write =>
    if tls = 0 then none else some (tsan, [.mutexBeforeUnlock tls (mutexAddr mutex) write])
  | .happensBefore tls identifier => some (tsan, [.happensBefore tls (translate identifier)])
  | .happensAfter tls identifier => some (tsan, [.happensAfter tls (translate identifier)])
  | .allocate .. | .deallocate .. | .detach .. => some (tsan, [])
  | .finish tls threadId => some ({ threadStates := deactivate tsan.threadStates threadId },
      if tls = 0 then [] else [.goEnd tls])
  | .mapShadow startaddr sizeInBytes =>
    some (tsan, [.mapShadow startaddr (sizeInBytes % 0x100000000)])
  | .finalize => some (tsan.finalize order)

/-- The detector as a machine. It starts without threads. -/
def machine : Machine Tsan TsanEvent (List TsanCall) where
  start tsan := tsan = {}
  call := call order

end Tsan

/-- A step of the detector with the calls of the library it makes. -/
abbrev TsanStep := Machine.Step Tsan TsanEvent (List TsanCall)

/-! ### What the library asks for -/

/-- The thread object a call works on. -/
def TsanCall.thr? : TsanCall → Option ℕ
  | .happensBefore thr _ | .happensAfter thr _ | .mutexAfterLock thr .. | .mutexBeforeUnlock thr ..
  | .read thr .. | .write thr .. | .funcEnter thr _ | .funcExit thr | .threadFinish thr
  | .goEnd thr => some thr
  | .createThread .. | .mapShadow .. | .fini => none

/-- The thread objects after a call. -/
def TsanCall.objectsAfter (objects : List ℕ) : TsanCall → List ℕ
  | .createThread _ thr => thr :: objects
  | .threadFinish thr | .goEnd thr => objects.erase thr
  | _ => objects

/-- The thread objects after calls. -/
def objectsOf (calls : List TsanCall) : List ℕ :=
  calls.foldl (fun objects call => call.objectsAfter objects) []

/-- A call works on an object that is created and not finished, and a new object is not one that is
in use. -/
def TsanCall.Proper (objects : List ℕ) : TsanCall → Prop
  | .createThread _ thr => thr ∉ objects
  | call => ∀ thr ∈ call.thr?, thr ∈ objects

/-- All of the calls are proper, one after the other. -/
def ProperCalls : List ℕ → List TsanCall → Prop
  | _, [] => True
  | objects, call :: rest => call.Proper objects ∧ ProperCalls (call.objectsAfter objects) rest

instance (objects : List ℕ) : (call : TsanCall) → Decidable (call.Proper objects)
  | .createThread _ thr => inferInstanceAs (Decidable (thr ∉ objects))
  | .happensBefore .. | .happensAfter .. | .mutexAfterLock .. | .mutexBeforeUnlock .. | .read ..
  | .write .. | .funcEnter .. | .funcExit _ | .threadFinish _ | .goEnd _ | .mapShadow .. | .fini =>
    inferInstanceAs (Decidable (∀ _ ∈ _, _))

variable {objects : List ℕ} {calls further : List TsanCall} {thr : ℕ}

theorem objectsOf_append :
    objectsOf (calls ++ further) = further.foldl (fun objects call => call.objectsAfter objects)
      (objectsOf calls) :=
  List.foldl_append

theorem properCalls_append : ProperCalls objects (calls ++ further) ↔ ProperCalls objects calls ∧
    ProperCalls (calls.foldl (fun objects call => call.objectsAfter objects) objects) further := by
  induction calls generalizing objects with
  | nil => exact (and_iff_right trivial).symm
  | cons call rest inductionHypothesis =>
    rw [List.cons_append, ProperCalls, ProperCalls, inductionHypothesis, and_assoc]
    rfl

/-- Edges from and to threads whose objects are in use are proper. -/
theorem properCalls_edges (edges : ∀ call ∈ calls, ∃ thr ∈ objects, ∃ addr,
    call = .happensBefore thr addr ∨ call = .happensAfter thr addr) : ProperCalls objects calls ∧
      calls.foldl (fun objects call => call.objectsAfter objects) objects = objects := by
  induction calls with
  | nil => exact ⟨trivial, rfl⟩
  | cons call rest inductionHypothesis =>
    obtain ⟨⟨thr, used, addr, edge⟩, others⟩ := List.forall_mem_cons.mp edges
    obtain ⟨proper, same⟩ := inductionHypothesis others
    rcases edge with rfl | rfl
    · exact ⟨⟨fun own member => Option.some.inj member ▸ used, proper⟩, same⟩
    · exact ⟨⟨fun own member => Option.some.inj member ▸ used, proper⟩, same⟩

/-- Different objects in use can be finished one after the other, and are gone then. -/
theorem properCalls_goEnd {ended : List ℕ} (nodup : ended.Nodup) (uses : ended ⊆ objects) :
    ProperCalls objects (ended.map .goEnd) ∧
      (ended.map TsanCall.goEnd).foldl (fun objects call => call.objectsAfter objects) objects =
        objects.diff ended := by
  induction ended generalizing objects with
  | nil => exact ⟨trivial, rfl⟩
  | cons thr rest inductionHypothesis =>
    obtain ⟨absent, nodup⟩ := List.nodup_cons.mp nodup
    obtain ⟨here, uses⟩ := List.cons_subset.mp uses
    have left : rest ⊆ objects.erase thr := fun other member =>
      (List.mem_erase_of_ne (ne_of_mem_of_not_mem member absent)).mpr (uses member)
    obtain ⟨proper, same⟩ := inductionHypothesis nodup left
    refine ⟨⟨fun own member => Option.some.inj member ▸ here, proper⟩, ?_⟩
    rw [List.map_cons, List.foldl_cons, List.diff_cons]
    exact same

/-! ### The table of the threads -/

namespace Tsan

variable {order : ThreadOrder} {states : AList fun _ : ℕ => TsanThread} {tid : ℕ}

theorem mem_activeThreads :
    thr ∈ activeThreads order states ↔ ∃ tid, states.lookup tid = some ⟨thr, true⟩ := by
  simp only [activeThreads, List.mem_filterMap, (order.perm states).mem_iff]
  constructor
  · rintro ⟨⟨tid, tsan, active⟩, member, visited⟩
    obtain ⟨rfl, same⟩ := Option.ite_none_right_eq_some.mp visited
    exact ⟨tid, AList.mem_lookup_iff.mpr (Option.some.inj same ▸ member)⟩
  · rintro ⟨tid, found⟩
    exact ⟨⟨tid, thr, true⟩, AList.mem_lookup_iff.mp found, rfl⟩

/-- If the active threads have different objects, a loop visits each object once. -/
theorem nodup_activeThreads {handle : ℕ → ℕ} (injective : Function.Injective handle)
    (own : ∀ tid, ∀ state ∈ states.lookup tid, state.active = true → state.tsan = handle tid) :
    (activeThreads order states).Nodup := by
  have keys : (order.visit states).Pairwise fun first second => first.1 ≠ second.1 :=
    ((order.perm states).pairwise_iff fun different => Ne.symm different).mpr
      (List.pairwise_map.mp states.nodupKeys)
  have objects : (order.visit states).Pairwise fun first second =>
      first.2.active = true → second.2.active = true → first.2.tsan ≠ second.2.tsan := by
    refine keys.imp_of_mem fun {first second} firstIn secondIn different on also same => ?_
    have firstFound := AList.mem_lookup_iff.mpr ((order.perm states).mem_iff.mp firstIn)
    have secondFound := AList.mem_lookup_iff.mpr ((order.perm states).mem_iff.mp secondIn)
    rw [own _ _ firstFound on, own _ _ secondFound also] at same
    exact different (injective same)
  refine List.pairwise_filterMap.mpr (objects.imp fun different thr visited other also same => ?_)
  obtain ⟨on, found⟩ := Option.ite_none_right_eq_some.mp visited
  obtain ⟨alsoOn, alsoFound⟩ := Option.ite_none_right_eq_some.mp also
  exact different on alsoOn (Option.some.inj (found.trans (same ▸ alsoFound.symm)))

theorem lookup_deactivate (other : ℕ) : (deactivate states tid).lookup other =
    if other = tid then some { (states.lookup tid).getD {} with active := false }
    else states.lookup other := AList.lookup_insert_eq_ite _ _ _ _

/-! ### Keeping to the contract -/

variable {handle : ℕ → ℕ} {tsan : Tsan} {contract next : Contract} {call : Event}

/-- The event of the detector for a call of the interface. -/
def forwarded (handle : ℕ → ℕ) (call : Event) : TsanEvent :=
  ⟨call, (call.forks?.map handle).getD 0⟩

/-- The objects in use are those of the announced threads, and these are the active ones. -/
structure Meets (handle : ℕ → ℕ) (tsan : Tsan) (contract : Contract) (objects : List ℕ) :
    Prop where
  nodup : objects.Nodup
  used : ∀ thr, thr ∈ objects ↔ contract.paths thr ≠ none
  named : ∀ thr, contract.paths thr ≠ none → ∃ tid, handle tid = thr
  active : ∀ tid, ∀ state ∈ tsan.threadStates.lookup tid, state.active = true →
    state.tsan = handle tid ∧ contract.paths (handle tid) ≠ none
  listed : ∀ tid, contract.paths (handle tid) ≠ none →
    tsan.threadStates.lookup tid = some ⟨handle tid, true⟩

namespace Meets

variable {child : ℕ}

/-- At the start there are no threads. -/
theorem start : Meets handle {} {} [] where
  nodup := List.nodup_nil
  used _ := iff_of_false List.not_mem_nil (by simp)
  named _ announced := absurd rfl announced
  active _ _ found := absurd found (by simp)
  listed _ announced := absurd rfl announced

/-- What is announced is all that matters of the contract. -/
theorem congr (meets : Meets handle tsan contract objects)
    (same : ∀ thr, next.paths thr ≠ none ↔ contract.paths thr ≠ none) :
    Meets handle tsan next objects where
  nodup := meets.nodup
  used thr := (meets.used thr).trans (same thr).symm
  named thr announced := meets.named thr ((same thr).mp announced)
  active tid state found on :=
    ⟨(meets.active tid state found on).1, (same _).mpr (meets.active tid state found on).2⟩
  listed tid announced := meets.listed tid ((same _).mp announced)

/-- The objects of the active threads are in use. -/
theorem subset (meets : Meets handle tsan contract objects) :
    activeThreads order tsan.threadStates ⊆ objects := by
  intro thr member
  obtain ⟨tid, found⟩ := mem_activeThreads.mp member
  obtain ⟨rfl, announced⟩ := meets.active tid _ found rfl
  exact (meets.used _).mpr announced

/-- An announced thread has an object. -/
theorem ne_zero (nonzero : ∀ tid, handle tid ≠ 0) (meets : Meets handle tsan contract objects)
    (announced : contract.paths thr ≠ none) : thr ≠ 0 := by
  obtain ⟨tid, rfl⟩ := meets.named thr announced
  exact nonzero tid

/-- No object in use is null. -/
theorem zero_not_mem (nonzero : ∀ tid, handle tid ≠ 0)
    (meets : Meets handle tsan contract objects) : 0 ∉ objects :=
  fun member => meets.ne_zero nonzero ((meets.used 0).mp member) rfl

/-- A thread is created. -/
theorem created (injective : Function.Injective handle)
    (meets : Meets handle tsan contract objects) (free : contract.paths (handle child) = none) :
    Meets handle { threadStates := tsan.threadStates.insert child ⟨handle child, true⟩ }
      (contract.set (handle child) (some [])) (handle child :: objects) where
  nodup := List.nodup_cons.mpr ⟨fun member => (meets.used _).mp member free, meets.nodup⟩
  used thr := by
    rw [List.mem_cons, meets.used thr]
    by_cases same : thr = handle child
    · rw [same, Contract.paths_set_self]
      exact iff_of_true (Or.inl rfl) (Option.some_ne_none _)
    · rw [Contract.paths_set_of_ne same]
      exact or_iff_right same
  named thr announced := by
    by_cases same : thr = handle child
    · exact ⟨child, same.symm⟩
    · rw [Contract.paths_set_of_ne same] at announced
      exact meets.named thr announced
  active tid state found on := by
    rw [AList.lookup_insert_eq_ite] at found
    split at found
    · next same =>
      rw [same, Contract.paths_set_self, ← Option.some.inj found]
      exact ⟨rfl, Option.some_ne_none _⟩
    · next differs =>
      rw [Contract.paths_set_of_ne (mt (@injective _ _) differs)]
      exact meets.active tid state found on
  listed tid announced := by
    rw [AList.lookup_insert_eq_ite]
    split
    · next same => rw [same]
    · next differs =>
      rw [Contract.paths_set_of_ne (mt (@injective _ _) differs)] at announced
      exact meets.listed tid announced

/-- A thread has ended. -/
theorem ended (injective : Function.Injective handle)
    (meets : Meets handle tsan contract objects) :
    Meets handle { threadStates := deactivate tsan.threadStates child }
      (contract.set (handle child) none) (objects.erase (handle child)) where
  nodup := meets.nodup.erase _
  used thr := by
    rw [meets.nodup.mem_erase_iff, meets.used thr]
    by_cases same : thr = handle child
    · rw [same, Contract.paths_set_self]
      exact iff_of_false (fun both => both.1 rfl) fun announced => announced rfl
    · rw [Contract.paths_set_of_ne same]
      exact and_iff_right same
  named thr announced := by
    by_cases same : thr = handle child
    · exact ⟨child, same.symm⟩
    · rw [Contract.paths_set_of_ne same] at announced
      exact meets.named thr announced
  active tid state found on := by
    rw [lookup_deactivate] at found
    split at found
    · rw [← Option.some.inj found] at on
      cases on
    · next differs =>
      rw [Contract.paths_set_of_ne (mt (@injective _ _) differs)]
      exact meets.active tid state found on
  listed tid announced := by
    by_cases same : tid = child
    · rw [same, Contract.paths_set_self] at announced
      exact absurd rfl announced
    · rw [Contract.paths_set_of_ne (mt (@injective _ _) same)] at announced
      rw [lookup_deactivate, if_neg same]
      exact meets.listed tid announced

/-- All threads are ended. -/
theorem finalized (meets : Meets handle tsan contract objects) :
    objects.diff (activeThreads order tsan.threadStates) = [] ∧
      Meets handle (tsan.finalize order).1 {} [] := by
  refine ⟨List.eq_nil_iff_forall_not_mem.mpr fun thr member => ?_, List.nodup_nil,
    fun _ => iff_of_false List.not_mem_nil (by simp), fun _ announced => absurd rfl announced,
    fun tid state found on => ?_, fun _ announced => absurd rfl announced⟩
  · obtain ⟨used, idle⟩ := (meets.nodup.mem_sdiff_iff).mp member
    have announced := (meets.used thr).mp used
    obtain ⟨tid, rfl⟩ := meets.named thr announced
    exact idle (mem_activeThreads.mpr ⟨tid, meets.listed tid announced⟩)
  · have changed : (tsan.threadStates.lookup tid).map
        (fun state => { state with active := false }) = some state :=
      (AList.lookup_mapValues _ _ _).symm.trans found
    obtain ⟨old, -, rfl⟩ := Option.map_eq_some_iff.mp changed
    cases on

/-- A call of an announced thread is one call of the library on its object. -/
theorem told {made : TsanCall} (meets : Meets handle tsan contract objects)
    (announced : contract.paths thr ≠ none) (own : made.thr? = some thr)
    (steady : ∀ objects, made.objectsAfter objects = objects)
    (same : ∀ thr, next.paths thr ≠ none ↔ contract.paths thr ≠ none) :
    ProperCalls objects [made] ∧ Meets handle tsan next
      ([made].foldl (fun objects call => call.objectsAfter objects) objects) := by
  have uses : made.Proper objects := by
    cases made with
    | createThread | mapShadow | fini => cases own
    | _ => exact fun other member =>
        Option.some.inj (own.symm.trans member) ▸ (meets.used thr).mpr announced
  refine ⟨⟨uses, trivial⟩, ?_⟩
  rw [List.foldl_cons, steady]
  exact meets.congr same

/-- A free thread is forked. -/
theorem fork (nonzero : ∀ tid, handle tid ≠ 0) (injective : Function.Injective handle)
    (meets : Meets handle tsan contract objects) {parent child : ℕ}
    (free : contract.paths (handle child) = none) :
    ∃ later made, tsan.fork order parent child (handle child) = some (later, made) ∧
      ProperCalls objects made ∧ Meets handle later (contract.set (handle child) (some []))
        (made.foldl (fun objects call => call.objectsAfter objects) objects) := by
  have asserts : 0 ∉ activeThreads order tsan.threadStates :=
    fun member => meets.zero_not_mem nonzero (meets.subset member)
  let eventId := getEventId parent child
  let edges : List TsanCall := (activeThreads order tsan.threadStates).map
    (.happensBefore · eventId) ++ [.happensAfter (handle child) eventId]
  have drawn : ∀ call ∈ edges, ∃ thr ∈ handle child :: objects, ∃ addr,
      call = .happensBefore thr addr ∨ call = .happensAfter thr addr := by
    refine List.forall_mem_append.mpr ⟨List.forall_mem_map.mpr fun thr member => ?_,
      List.forall_mem_singleton.mpr ?_⟩
    · exact ⟨thr, List.mem_cons_of_mem _ (meets.subset member), eventId, Or.inl rfl⟩
    · exact ⟨handle child, List.mem_cons_self, eventId, Or.inr rfl⟩
  obtain ⟨proper, same⟩ := properCalls_edges drawn
  refine ⟨_, .createThread child (handle child) :: edges, if_neg asserts,
    ⟨fun member => (meets.used _).mp member free, proper⟩, ?_⟩
  rw [List.foldl_cons, TsanCall.objectsAfter, same]
  exact meets.created injective free

/-- An announced thread is joined. -/
theorem join (nonzero : ∀ tid, handle tid ≠ 0) (injective : Function.Injective handle)
    (meets : Meets handle tsan contract objects) {parent child : ℕ}
    (announced : contract.paths (handle child) ≠ none) :
    ∃ later made, tsan.join order parent child = some (later, made) ∧ ProperCalls objects made ∧
      Meets handle later (contract.set (handle child) none)
        (made.foldl (fun objects call => call.objectsAfter objects) objects) := by
  have found : ((tsan.threadStates.lookup child).getD {}).tsan = handle child := by
    rw [meets.listed child announced]
    rfl
  have here : handle child ∈ objects := (meets.used _).mpr announced
  have ended : Meets handle { threadStates := deactivate tsan.threadStates child } _ _ :=
    meets.ended injective
  have others : activeThreads order (deactivate tsan.threadStates child) ⊆ objects :=
    fun thr member => List.mem_of_mem_erase (ended.subset member)
  have asserts : ¬(((tsan.threadStates.lookup child).getD {}).tsan = 0 ∨
      0 ∈ activeThreads order (deactivate tsan.threadStates child)) := by
    rw [found]
    exact not_or.mpr ⟨nonzero child, fun member => meets.zero_not_mem nonzero (others member)⟩
  let eventId := getEventId parent child
  let edges : List TsanCall := .happensBefore (handle child) eventId ::
    (activeThreads order (deactivate tsan.threadStates child)).map (.happensAfter · eventId)
  have drawn : ∀ call ∈ edges, ∃ thr ∈ objects, ∃ addr,
      call = .happensBefore thr addr ∨ call = .happensAfter thr addr := by
    refine List.forall_mem_cons.mpr ⟨⟨handle child, here, eventId, Or.inl rfl⟩,
      List.forall_mem_map.mpr fun thr member => ?_⟩
    exact ⟨thr, others member, eventId, Or.inr rfl⟩
  obtain ⟨proper, same⟩ := properCalls_edges drawn
  refine ⟨{ threadStates := deactivate tsan.threadStates child },
    edges ++ [.threadFinish (handle child)], ?_, ?_, ?_⟩
  · unfold Tsan.join
    rw [if_neg asserts, found]
  · rw [properCalls_append, same]
    exact ⟨proper, fun thr member => Option.some.inj member ▸ here, trivial⟩
  · rw [List.foldl_append, same]
    exact ended

/-- The active threads are finished at the end. -/
theorem finalize (nonzero : ∀ tid, handle tid ≠ 0) (injective : Function.Injective handle)
    (meets : Meets handle tsan contract objects) :
    ProperCalls objects (tsan.finalize order).2 ∧ Meets handle (tsan.finalize order).1 {}
      ((tsan.finalize order).2.foldl (fun objects call => call.objectsAfter objects) objects) := by
  have all : (activeThreads order tsan.threadStates).filter (· ≠ 0) =
      activeThreads order tsan.threadStates := List.filter_eq_self.mpr fun thr member =>
    decide_eq_true fun null => meets.zero_not_mem nonzero (null ▸ meets.subset member)
  have different : (activeThreads order tsan.threadStates).Nodup :=
    nodup_activeThreads injective fun tid state found on => (meets.active tid state found on).1
  obtain ⟨proper, same⟩ := properCalls_goEnd different meets.subset
  have ⟨empty, ended⟩ : objects.diff (activeThreads order tsan.threadStates) = [] ∧
      Meets handle (tsan.finalize order).1 {} [] := meets.finalized
  unfold Tsan.finalize
  rw [all, properCalls_append, List.foldl_append, same, empty]
  exact ⟨⟨proper, fun _ member => absurd member (Option.not_mem_none _), trivial⟩, ended⟩

/-- What keeps to the contract passes the assertions of the detector, and the calls of the library
are proper. -/
theorem follow (nonzero : ∀ tid, handle tid ≠ 0) (injective : Function.Injective handle)
    (meets : Meets handle tsan contract objects)
    (kept : contract.call handle call = some (next, ())) :
    ∃ later made, tsan.call order (forwarded handle call) = some (later, made) ∧
      ProperCalls objects made ∧ Meets handle later next
        (made.foldl (fun objects call => call.objectsAfter objects) objects) := by
  cases call with
  | fork parent child =>
    obtain ⟨free, same⟩ := Option.ite_none_right_eq_some.mp kept
    obtain ⟨rfl, -⟩ := Prod.mk.inj (Option.some.inj same)
    exact meets.fork nonzero injective free
  | join parent child =>
    obtain ⟨announced, same⟩ := Option.ite_none_left_eq_some.mp kept
    obtain ⟨rfl, -⟩ := Prod.mk.inj (Option.some.inj same)
    exact meets.join nonzero injective announced
  | finish tls threadId =>
    obtain ⟨⟨rfl, announced⟩, same⟩ := Option.ite_none_right_eq_some.mp kept
    obtain ⟨rfl, -⟩ := Prod.mk.inj (Option.some.inj same)
    have here := (meets.used _).mpr announced
    refine ⟨_, [.goEnd (handle threadId)], ?_,
      ⟨fun thr member => Option.some.inj member ▸ here, trivial⟩, meets.ended injective⟩
    unfold Tsan.call forwarded
    simp only [if_neg (nonzero threadId)]
  | funcEnter tls pc =>
    obtain ⟨path, found, same⟩ := Option.map_eq_some_iff.mp kept
    obtain ⟨rfl, -⟩ := Prod.mk.inj same
    have announced : contract.paths tls ≠ none := found ▸ Option.some_ne_none path
    exact ⟨tsan, _, rfl, meets.told announced rfl (fun _ => rfl) (contract.set_some_iff announced)⟩
  | funcExit tls =>
    obtain ⟨path, found, leaves⟩ := Option.bind_eq_some_iff.mp kept
    obtain ⟨-, same⟩ := Option.ite_none_left_eq_some.mp leaves
    obtain ⟨rfl, -⟩ := Prod.mk.inj (Option.some.inj same)
    have announced : contract.paths tls ≠ none := found ▸ Option.some_ne_none path
    exact ⟨tsan, _, rfl, meets.told announced rfl (fun _ => rfl) (contract.set_some_iff announced)⟩
  | acquire tls mutex recursive write =>
    obtain ⟨announced, same⟩ := Option.ite_none_left_eq_some.mp kept
    obtain ⟨rfl, -⟩ := Prod.mk.inj (Option.some.inj same)
    exact ⟨tsan, _, if_neg (meets.ne_zero nonzero announced),
      meets.told announced rfl (fun _ => rfl) fun _ => Iff.rfl⟩
  | release tls mutex write =>
    obtain ⟨announced, same⟩ := Option.ite_none_left_eq_some.mp kept
    obtain ⟨rfl, -⟩ := Prod.mk.inj (Option.some.inj same)
    exact ⟨tsan, _, if_neg (meets.ne_zero nonzero announced),
      meets.told announced rfl (fun _ => rfl) fun _ => Iff.rfl⟩
  | read | write | happensBefore | happensAfter =>
    obtain ⟨announced, same⟩ := Option.ite_none_left_eq_some.mp kept
    obtain ⟨rfl, -⟩ := Prod.mk.inj (Option.some.inj same)
    exact ⟨tsan, _, rfl, meets.told announced rfl (fun _ => rfl) fun _ => Iff.rfl⟩
  | allocate | deallocate | detach =>
    obtain ⟨-, same⟩ := Option.ite_none_left_eq_some.mp kept
    obtain ⟨rfl, -⟩ := Prod.mk.inj (Option.some.inj same)
    exact ⟨tsan, [], rfl, trivial, meets⟩
  | mapShadow =>
    obtain ⟨rfl, -⟩ := Prod.mk.inj (Option.some.inj kept)
    exact ⟨tsan, _, rfl, ⟨fun _ member => absurd member (Option.not_mem_none _), trivial⟩, meets⟩
  | finalize =>
    obtain ⟨rfl, -⟩ := Prod.mk.inj (Option.some.inj kept)
    exact ⟨_, _, rfl, meets.finalize nonzero injective⟩

end Meets

/-- Calls that keep to the contract are a run of the detector, and all calls of the library it makes
are proper. -/
theorem reaches_of_accepts (nonzero : ∀ tid, handle tid ≠ 0) (injective : Function.Injective handle)
    {events : List Event} (accepts : (Contract.machine handle).Accepts {} events contract) :
    ∃ past tsan, (machine order).Reaches past tsan ∧
      past.map Step.event = events.map (forwarded handle) ∧
      ProperCalls [] (past.flatMap Step.output) ∧
      Meets handle tsan contract (objectsOf (past.flatMap Step.output)) := by
  obtain ⟨kept, reaches, rfl⟩ := accepts.reaches rfl
  have always : Always (fun _ _ => True) kept := fun _ _ _ => trivial
  refine Reaches.induct (fun kept contract => ∃ past tsan, (machine order).Reaches past tsan ∧
    past.map Step.event = (kept.map Step.event).map (forwarded handle) ∧
      ProperCalls [] (past.flatMap Step.output) ∧
      Meets handle tsan contract (objectsOf (past.flatMap Step.output))) ?_ ?_ reaches always
  · rintro _ rfl
    exact ⟨[], {}, .start rfl, rfl, trivial, .start⟩
  · rintro kept contract call next ⟨⟩ - defined - ⟨past, tsan, run, events, proper, meets⟩
    obtain ⟨later, made, forwards, properMade, meetsLater⟩ :=
      meets.follow nonzero injective defined
    refine ⟨past ++ [⟨tsan, forwarded handle call, later, made⟩], later, run.call forwards, ?_,
      ?_, ?_⟩
    · rw [List.map_append, events, List.map_append, List.map_append]
      rfl
    · rw [List.flatMap_append, List.flatMap_singleton, properCalls_append]
      exact ⟨proper, properMade⟩
    · rw [List.flatMap_append, List.flatMap_singleton, objectsOf_append]
      exact meetsLater

end Tsan

/-! ### The client on the detector -/

namespace Client

open Session Tsan

variable {layout : Layout} {params : RuntimeConfig} {steps : List (ClientStep layout)}
  {client : Client layout}

/-- Each thread has an object of its own. -/
def allocating : RuntimeConfig := { Session.plain with forkHandle := fun tid => tid + 1 }

end Client

end Drace
