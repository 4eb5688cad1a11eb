/-
This file shows that independent events commute.

A lock or annotation call and an access use the object of the calling thread and
one further place: a mutex, an identifier or an address. Calls of different
threads with different places can be made in either order. Two reads of one
address share the place, but leave the same epochs behind, the shared list in
another order. They do not where the read of a thread with the id 0 is taken for
a recorded one, since 0 also stands for no access: read() leaves early there,
without the test for 0 that the race checks make.
-/

import Drace.Depots
import Drace.History
import Drace.Independence
import Drace.ReadOrder

namespace Drace

open Machine

/-- What a call may use: the object of a thread, the clock of a mutex or identifier, the state of an
address, and whether a tid is registered. -/
inductive Place
  | thread (tid : ℕ)
  | mutex (mutex : ℕ)
  | identifier (identifier : ℕ)
  | address (addr : ℕ)
  | registered (tid : ℕ)
  deriving DecidableEq

/-- What a place holds. -/
abbrev Place.Value : Place → Type
  | .thread _ => Option ThreadState
  | .mutex _ | .identifier _ => Option VectorClock
  | .address _ => Option VarState
  | .registered _ => Bool

/-- What the detector holds at a place. -/
def Fasttrack.content (ft : Fasttrack) : (place : Place) → place.Value
  | .thread tid => ft.threads.lookup tid
  | .mutex mutex => ft.locks.lookup mutex
  | .identifier identifier => ft.happensStates.lookup identifier
  | .address addr => ft.vars.lookup addr
  | .registered tid => (ft.threads.lookup tid).isSome

/-- What a report is about: the threads and kinds of the two accesses, and the address. -/
def Race.parties (race : Race) : ℕ × Bool × ℕ × Bool × ℕ :=
  (race.first.threadId, race.first.write, race.second.threadId, race.second.write,
    race.second.accessedMemory)

/-- What the reports of a call are about. -/
def Output.shown (output : Output) : List (ℕ × Bool × ℕ × Bool × ℕ) := output.races.map Race.parties

/-- The place a lock call, an annotation or an access uses besides the calling thread. -/
def Event.cell? : Event → Option Place
  | .acquire _ mutex _ _ | .release _ mutex _ => some (.mutex mutex)
  | .happensBefore _ identifier | .happensAfter _ identifier => some (.identifier identifier)
  | .read _ _ addr _ | .write _ _ addr _ => some (.address addr)
  | _ => none

/-- The places an event writes. -/
def Event.Writes (event : Event) (place : Place) : Prop :=
  event.tls?.map Place.thread = some place ∨ event.cell? = some place

/-- The places an event reads: those it writes, and whether threads are registered. -/
def Event.Reads (event : Event) (place : Place) : Prop :=
  event.Writes place ∨ ∃ tid, place = .registered tid

variable {layout : Layout} {past : List Step} {ft other next : Fasttrack}
  {event first second : Event}
  {output : Output} {access : Access} {thread old : ThreadState} {clock : VectorClock}
  {tls addr : ℕ} {place : Place}

/-! ### Contents after the elementary changes -/

namespace Fasttrack

@[simp]
theorem content_thread {tid : ℕ} : ft.content (.thread tid) = ft.threads.lookup tid := rfl

@[simp]
theorem content_mutex {mutex : ℕ} : ft.content (.mutex mutex) = ft.locks.lookup mutex := rfl

@[simp]
theorem content_identifier {identifier : ℕ} :
    ft.content (.identifier identifier) = ft.happensStates.lookup identifier := rfl

@[simp]
theorem content_address : ft.content (.address addr) = ft.vars.lookup addr := rfl

@[simp]
theorem content_registered {tid : ℕ} :
    ft.content (.registered tid) = (ft.threads.lookup tid).isSome := rfl

theorem content_setThread_self : (ft.setThread tls thread).content (.thread tls) = some thread :=
  AList.lookup_insert _

theorem content_setThread_of_ne (registered : ft.threads.lookup tls = some old)
    (differs : place ≠ .thread tls) : (ft.setThread tls thread).content place =
      ft.content place := by
  cases place with
  | thread tid => exact AList.lookup_insert_ne (by simpa using differs)
  | mutex | identifier | address => rfl
  | registered tid =>
    simp only [content, setThread, AList.lookup_insert_eq_ite]
    split
    · next same => rw [same, registered]; rfl
    · rfl

theorem content_insertLock {mutex : ℕ} (differs : place ≠ .mutex mutex) :
    ({ ft with locks := ft.locks.insert mutex clock } : Fasttrack).content place =
      ft.content place := by
  cases place with
  | mutex key => exact AList.lookup_insert_ne (by simpa using differs)
  | _ => rfl

theorem content_insertHappens {identifier : ℕ} (differs : place ≠ .identifier identifier) :
    ({ ft with happensStates := ft.happensStates.insert identifier clock } :
      Fasttrack).content place =
      ft.content place := by
  cases place with
  | identifier key => exact AList.lookup_insert_ne (by simpa using differs)
  | _ => rfl

theorem content_createLock_self {mutex : ℕ} :
    (ft.createLock mutex).content (.mutex mutex) = some ((ft.locks.lookup mutex).getD {}) := by
  unfold createLock
  split
  · next present =>
    obtain ⟨clock, found⟩ := AList.exists_lookup present
    rw [content, found]
    rfl
  · next absent =>
    rw [content, AList.lookup_insert, AList.lookup_eq_none.mpr absent]
    rfl

theorem content_createLock_of_ne {mutex : ℕ} (differs : place ≠ .mutex mutex) :
    (ft.createLock mutex).content place = ft.content place := by
  unfold createLock
  split
  · rfl
  · exact content_insertLock differs

theorem content_createHappens_self {identifier : ℕ} :
    (ft.createHappens identifier).content (.identifier identifier) =
      some ((ft.happensStates.lookup identifier).getD {}) := by
  unfold createHappens
  split
  · next present =>
    obtain ⟨clock, found⟩ := AList.exists_lookup present
    rw [content, found]
    rfl
  · next absent =>
    rw [content, AList.lookup_insert, AList.lookup_eq_none.mpr absent]
    rfl

theorem content_createHappens_of_ne {identifier : ℕ} (differs : place ≠ .identifier identifier) :
    (ft.createHappens identifier).content place = ft.content place := by
  unfold createHappens
  split
  · rfl
  · exact content_insertHappens differs

end Fasttrack

/-! ### The effects of calls -/

/-- What a call makes of the calling thread and of its further place, given which tids are
registered, and what it reports. It is undefined where the call is. -/
abbrev Effect (cell : Place) : Type :=
  Option ThreadState → cell.Value → (ℕ → Bool) →
    Option (Option ThreadState × cell.Value × List (ℕ × Bool × ℕ × Bool × ℕ))

/-- A call acts by an effect: it changes nothing but the calling thread and one further place. -/
def ActsBy (layout : Layout) (event : Event) (tls : ℕ) (cell : Place)
    (effect : Effect cell) : Prop :=
  ∀ ft : Fasttrack,
    match effect (ft.content (.thread tls)) (ft.content cell)
      fun tid => ft.content (.registered tid) with
    | none => ft.call layout event = none
    | some (thread, value, shown) => ∃ next output, ft.call layout event = some (next, output) ∧
        output.shown = shown ∧ next.content (.thread tls) = thread ∧ next.content cell = value ∧
        ∀ place, place ≠ .thread tls → place ≠ cell → next.content place = ft.content place

theorem writes_iff {cell : Place} (calls : event.tls? = some tls) (uses : event.cell? = some cell) :
    event.Writes place ↔ place = .thread tls ∨ place = cell := by
  rw [Event.Writes, calls, uses]
  simp only [Option.map_some, Option.some.injEq, eq_comm]

/-- A call that acts by an effect keeps to its places. -/
theorem ActsBy.keepsTo {cell : Place} {effect : Effect cell}
    (acts : ActsBy layout event tls cell effect)
    (calls : event.tls? = some tls) (uses : event.cell? = some cell) :
    Local (Fasttrack.machine layout) Fasttrack.content Output.shown event event.Reads
      event.Writes := by
  constructor
  · intro ft next output defined place untouched
    rw [writes_iff calls uses, not_or] at untouched
    have effects := acts ft
    split at effects
    · exact absurd (effects.symm.trans defined) (by simp)
    · obtain ⟨after, result, same, _, _, _, frame⟩ := effects
      obtain ⟨rfl, rfl⟩ := Prod.mk.inj (Option.some.inj (same.symm.trans defined))
      exact frame place untouched.1 untouched.2
  · intro ft other next output defined agree
    have effects := acts ft
    have otherEffects := acts other
    have sameThread : other.content (.thread tls) = ft.content (.thread tls) :=
      agree _ (Or.inl ((writes_iff calls uses).mpr (Or.inl rfl)))
    have sameCell : other.content cell = ft.content cell :=
      agree _ (Or.inl ((writes_iff calls uses).mpr (Or.inr rfl)))
    have sameRegistered : (fun tid => other.content (.registered tid)) =
        fun tid => ft.content (.registered tid) := funext fun tid => agree _ (Or.inr ⟨tid, rfl⟩)
    rw [sameThread, sameCell, sameRegistered] at otherEffects
    split at effects
    · exact absurd (effects.symm.trans defined) (by simp)
    · next thread value shown found =>
      rw [found] at otherEffects
      obtain ⟨after, result, same, shows, atThread, atCell, _⟩ := effects
      obtain ⟨rfl, rfl⟩ := Prod.mk.inj (Option.some.inj (same.symm.trans defined))
      obtain ⟨later, result, called, otherShows, otherThread, otherCell, _⟩ := otherEffects
      refine ⟨later, result, called, otherShows.trans shows.symm, fun place written => ?_⟩
      rcases (writes_iff calls uses).mp written with rfl | rfl
      · exact otherThread.trans atThread.symm
      · exact otherCell.trans atCell.symm

/-- The effect of an acquire on the mutex. -/
def acquireEffect (recursive : ℤ) (mutex : ℕ) : Effect (.mutex mutex) := fun thread lock _ =>
  if 1 < recursive then some (thread, lock, [])
  else thread.map fun thread => (some (thread.mergeClock (lock.getD {})), some (lock.getD {}), [])

/-- The effect of a release on the mutex. -/
def releaseEffect (layout : Layout) (mutex : ℕ) : Effect (.mutex mutex) := fun thread lock _ =>
  match lock with
  | none => some (thread, some {}, [])
  | some lock => thread.map fun thread =>
    (some (thread.incVc layout), some (lock.update (thread.incVc layout).toVectorClock), [])

/-- The effect of an announcement on the identifier. -/
def happensBeforeEffect (layout : Layout) (identifier : ℕ) : Effect (.identifier identifier) :=
  fun thread state _ => thread.map fun thread => (some (thread.incVc layout),
    some ((state.getD {}).updateEntry ((thread.incVc layout).getTid layout)
      (thread.incVc layout).id), [])

/-- The effect of waiting for an identifier. -/
def happensAfterEffect (identifier : ℕ) : Effect (.identifier identifier) := fun thread state _ =>
  match state with
  | none => some (thread, some {}, [])
  | some state => thread.map fun thread => (some (thread.mergeClock state), some state, [])

/-- What the reports of an access are about, given which tids are registered. -/
def Access.shown (layout : Layout) (access : Access) (thread : ThreadState) (var : VarState)
    (registered : ℕ → Bool) : List (ℕ × Bool × ℕ × Bool × ℕ) :=
  (var.verdicts layout access.write thread).flatMap fun verdict =>
    if registered verdict.2 ∧ registered (thread.getTid layout) then
      [(verdict.2, verdict.1, thread.getTid layout, access.write, access.addr)] else []

/-- The effect of an access on the address. -/
def accessEffect (layout : Layout) (access : Access) : Effect (.address access.addr) :=
  fun thread var registered => thread.map fun thread =>
    (some { thread with traceDepot := thread.traceDepot.setReadWrite access.addr access.pc },
      some ((var.getD (.new access.size)).after layout access.write thread),
      access.shown layout thread (var.getD (.new access.size)) registered)

theorem acquire_actsBy (tls mutex : ℕ) (recursive : ℤ) (write : Bool) :
    ActsBy layout (.acquire tls mutex recursive write) tls (.mutex mutex)
      (acquireEffect recursive mutex) := by
  intro ft
  unfold acquireEffect
  by_cases nested : 1 < recursive
  · simp only [if_pos nested]
    refine ⟨ft, {}, ?_, rfl, rfl, rfl, fun _ _ _ => rfl⟩
    simp only [Fasttrack.call, Fasttrack.acquire, if_pos nested, Option.map_some]
  · simp only [if_neg nested]
    have lock : (ft.createLock mutex).locks.lookup mutex = some ((ft.locks.lookup mutex).getD {}) :=
      Fasttrack.content_createLock_self
    have defined : ft.call layout (.acquire tls mutex recursive write) =
        ((ft.threads.lookup tls).map fun thread => (ft.createLock mutex).setThread tls
          (thread.mergeClock ((ft.locks.lookup mutex).getD {}))).map fun next => (next, {}) := by
      simp only [Fasttrack.call, Fasttrack.acquire, if_neg nested,
        Fasttrack.threads_createLock, lock, Option.getD_some]
    cases found : ft.threads.lookup tls with
    | none => simp only [Fasttrack.content_thread, Fasttrack.content_mutex, found, defined,
      Option.map_none]
    | some thread =>
      have registered : (ft.createLock mutex).threads.lookup tls = some thread := by
        rw [Fasttrack.threads_createLock, found]
      simp only [Fasttrack.content_thread, Fasttrack.content_mutex, found, defined, Option.map_some]
      refine ⟨_, _, rfl, rfl, Fasttrack.content_setThread_self, lock, fun place other apart => ?_⟩
      exact (Fasttrack.content_setThread_of_ne registered other).trans
        (Fasttrack.content_createLock_of_ne apart)

theorem release_actsBy (tls mutex : ℕ) (write : Bool) :
    ActsBy layout (.release tls mutex write) tls (.mutex mutex) (releaseEffect layout mutex) := by
  intro ft
  unfold releaseEffect
  cases lock : ft.locks.lookup mutex with
  | none =>
    have created : (ft.createLock mutex).locks.lookup mutex =
        some ((ft.locks.lookup mutex).getD {}) :=
      Fasttrack.content_createLock_self
    rw [lock] at created
    simp only [Fasttrack.content_thread, Fasttrack.content_mutex, lock]
    refine ⟨ft.createLock mutex, {}, ?_, rfl, congrArg _ Fasttrack.threads_createLock, created,
      fun place _ apart => Fasttrack.content_createLock_of_ne apart⟩
    simp only [Fasttrack.call, Fasttrack.release, lock, Option.map_some]
  | some clock =>
    have defined : ft.call layout (.release tls mutex write) =
        ((ft.threads.lookup tls).map fun thread => { ft.setThread tls (thread.incVc layout) with
          locks := ft.locks.insert mutex (clock.update (thread.incVc layout).toVectorClock) }).map
            fun next => (next, {}) := by
      simp only [Fasttrack.call, Fasttrack.release, lock]
    cases found : ft.threads.lookup tls with
    | none => simp only [Fasttrack.content_thread, Fasttrack.content_mutex, lock, found, defined,
      Option.map_none]
    | some thread =>
      simp only [Fasttrack.content_thread, Fasttrack.content_mutex, lock, found, defined,
        Option.map_some]
      refine ⟨_, _, rfl, rfl, Fasttrack.content_setThread_self, AList.lookup_insert _,
        fun place other apart => ?_⟩
      rw [← Fasttrack.content_setThread_of_ne found other]
      exact Fasttrack.content_insertLock apart

theorem happensBefore_actsBy (tls identifier : ℕ) :
    ActsBy layout (.happensBefore tls identifier) tls (.identifier identifier)
      (happensBeforeEffect layout identifier) := by
  intro ft
  unfold happensBeforeEffect
  have state : (ft.createHappens identifier).happensStates.lookup identifier =
      some ((ft.happensStates.lookup identifier).getD {}) := Fasttrack.content_createHappens_self
  have defined : ft.call layout (.happensBefore tls identifier) =
      ((ft.threads.lookup tls).map fun thread =>
        { (ft.createHappens identifier).setThread tls (thread.incVc layout) with
          happensStates := (ft.createHappens identifier).happensStates.insert identifier
            (((ft.happensStates.lookup identifier).getD {}).updateEntry
              ((thread.incVc layout).getTid layout) (thread.incVc layout).id) }).map
            fun next => (next, {}) := by
    simp only [Fasttrack.call, Fasttrack.happensBefore, Fasttrack.threads_createHappens, state,
      Option.getD_some, ThreadState.returnOwnId]
  cases found : ft.threads.lookup tls with
  | none => simp only [Fasttrack.content_thread, Fasttrack.content_identifier, found, defined,
    Option.map_none]
  | some thread =>
    have registered : (ft.createHappens identifier).threads.lookup tls = some thread := by
      rw [Fasttrack.threads_createHappens, found]
    simp only [Fasttrack.content_thread, Fasttrack.content_identifier, found, defined,
      Option.map_some]
    refine ⟨_, _, rfl, rfl, Fasttrack.content_setThread_self, AList.lookup_insert _,
      fun place other apart => ?_⟩
    refine (Fasttrack.content_insertHappens apart).trans ?_
    exact (Fasttrack.content_setThread_of_ne registered other).trans
      (Fasttrack.content_createHappens_of_ne apart)

theorem happensAfter_actsBy (tls identifier : ℕ) :
    ActsBy layout (.happensAfter tls identifier) tls (.identifier identifier)
      (happensAfterEffect identifier) := by
  intro ft
  unfold happensAfterEffect
  cases state : ft.happensStates.lookup identifier with
  | none =>
    have created : (ft.createHappens identifier).happensStates.lookup identifier =
        some ((ft.happensStates.lookup identifier).getD {}) := Fasttrack.content_createHappens_self
    rw [state] at created
    simp only [Fasttrack.content_thread, Fasttrack.content_identifier, state]
    refine ⟨ft.createHappens identifier, {}, ?_, rfl, congrArg _ Fasttrack.threads_createHappens,
      created, fun place _ apart => Fasttrack.content_createHappens_of_ne apart⟩
    simp only [Fasttrack.call, Fasttrack.happensAfter, state, Option.map_some]
  | some clock =>
    have defined : ft.call layout (.happensAfter tls identifier) =
        ((ft.threads.lookup tls).map fun thread => ft.setThread tls (thread.mergeClock clock)).map
          fun next => (next, {}) := by
      simp only [Fasttrack.call, Fasttrack.happensAfter, state]
    cases found : ft.threads.lookup tls with
    | none => simp only [Fasttrack.content_thread, Fasttrack.content_identifier, state, found,
      defined, Option.map_none]
    | some thread =>
      simp only [Fasttrack.content_thread, Fasttrack.content_identifier, state, found, defined,
        Option.map_some]
      exact ⟨_, _, rfl, rfl, Fasttrack.content_setThread_self, state,
        fun place other _ => Fasttrack.content_setThread_of_ne found other⟩

/-- What the reports about a variable are about. -/
theorem parties_reportRace {thr1 thr2 : ℕ} {wr1 wr2 : Bool} {var : VarState} :
    (ft.reportRace thr1 thr2 wr1 wr2 var addr).map Race.parties =
      if (ft.threads.lookup thr1).isSome ∧ (ft.threads.lookup thr2).isSome then
        [(thr1, wr1, thr2, wr2, addr)] else [] := by
  unfold Fasttrack.reportRace
  cases ft.threads.lookup thr1 <;> cases ft.threads.lookup thr2 <;> rfl

/-- An access is defined if its thread is registered. -/
theorem access_defined (accesses : event.access? = some access) :
    (ft.threads.lookup access.tls = none → ft.call layout event = none) ∧
      (ft.threads.lookup access.tls ≠ none →
        ∃ next output, ft.call layout event = some (next, output)) := by
  cases event with
  | read | write =>
    obtain ⟨rfl⟩ := Option.some.inj accesses
    refine ⟨fun absent => ?_, fun registered => ?_⟩
    · simp only [Fasttrack.call, Fasttrack.read, Fasttrack.write, absent, Option.map_none]
    · obtain ⟨thread, found⟩ := Option.ne_none_iff_exists'.mp registered
      simp only [Fasttrack.call, Fasttrack.read, Fasttrack.write, found, Option.map_some]
      exact ⟨_, _, rfl⟩
  | _ => cases accesses

/-- An access touches neither locks nor happens-before states. -/
theorem access_keepsStates (accesses : event.access? = some access)
    (defined : ft.call layout event = some (next, output)) :
    next.locks = ft.locks ∧ next.happensStates = ft.happensStates := by
  have stores : ∀ (ft : Fasttrack) (addr : ℕ) (result : VarState × List Race × Rule),
      (ft.storeAccess addr result).1.locks = ft.locks ∧
        (ft.storeAccess addr result).1.happensStates = ft.happensStates := by
    intro ft addr result
    unfold Fasttrack.storeAccess Fasttrack.countRule
    split <;> exact ⟨rfl, rfl⟩
  cases event with
  | read | write =>
    obtain ⟨result, made, same⟩ := Option.map_eq_some_iff.mp defined
    obtain ⟨thread, _, rfl⟩ := Option.map_eq_some_iff.mp made
    obtain ⟨rfl, _⟩ := Prod.mk.inj same
    exact stores _ _ _
  | _ => cases accesses

theorem createVar_eq_getD (ft : Fasttrack) (addr size : ℕ) :
    ft.createVar addr size = (ft.vars.lookup addr).getD (.new size) := by
  unfold Fasttrack.createVar
  cases ft.vars.lookup addr <;> rfl

theorem access_actsBy (accesses : event.access? = some access) :
    ActsBy layout event access.tls (.address access.addr) (accessEffect layout access) := by
  intro ft
  unfold accessEffect
  cases found : ft.threads.lookup access.tls with
  | none =>
    simp only [Fasttrack.content_thread, Fasttrack.content_address, found, Option.map_none]
    exact (access_defined accesses).1 found
  | some thread =>
    obtain ⟨next, output, defined⟩ : ∃ next output, ft.call layout event = some (next, output) :=
      (access_defined accesses).2 (found ▸ Option.some_ne_none thread)
    obtain ⟨same, registered, threads, _, vars, races⟩ := Fasttrack.call_access accesses defined
    obtain ⟨rfl⟩ := Option.some.inj (registered.symm.trans found)
    have live : ∀ tid, ((ft.recordAccess access.tls thread access.pc access.addr).threads.lookup
        tid).isSome = (ft.threads.lookup tid).isSome :=
      fun tid => by rw [Bool.eq_iff_iff, AList.lookup_isSome, AList.lookup_isSome,
        mem_recordAccess registered]
    simp only [Fasttrack.content_thread, Fasttrack.content_address,
      Fasttrack.content_registered, found, Option.map_some]
    refine ⟨next, output, defined, ?_, ?_, ?_, ?_⟩
    · rw [Output.shown, races, List.map_flatMap, createVar_eq_getD]
      refine List.flatMap_congr fun verdict _ => ?_
      rw [parties_reportRace]
      exact if_congr (by rw [live, live]) rfl rfl
    · rw [threads]
      exact AList.lookup_insert _
    · rw [vars, AList.lookup_insert, createVar_eq_getD]
    · intro place other apart
      cases place with
      | thread tid =>
        rw [Fasttrack.content_thread, threads]
        exact AList.lookup_insert_ne (by simpa using other)
      | registered tid => rw [Fasttrack.content_registered, threads, live]; rfl
      | address key =>
        rw [Fasttrack.content_address, vars, AList.lookup_insert_ne (by simpa using apart)]
        rfl
      | mutex mutex =>
        rw [Fasttrack.content_mutex, Fasttrack.content_mutex,
          (access_keepsStates accesses defined).1]
      | identifier identifier =>
        rw [Fasttrack.content_identifier, Fasttrack.content_identifier,
          (access_keepsStates accesses defined).2]

theorem cell_of_access (accesses : event.access? = some access) :
    event.cell? = some (.address access.addr) := by
  cases event with
  | read | write =>
    obtain ⟨rfl⟩ := Option.some.inj accesses
    rfl
  | _ => cases accesses

theorem access_keepsTo (accesses : event.access? = some access) :
    Local (Fasttrack.machine layout) Fasttrack.content Output.shown event event.Reads
      event.Writes :=
  (access_actsBy accesses).keepsTo (tls_of_access accesses) (cell_of_access accesses)

/-- What an access of a registered thread does. -/
theorem access_acts (accesses : event.access? = some access)
    (found : ft.threads.lookup access.tls = some thread) :
    ∃ next output, ft.call layout event = some (next, output) ∧
      output.shown = access.shown layout thread (ft.createVar access.addr access.size)
        (fun tid => ft.content (.registered tid)) ∧
      next.content (.thread access.tls) =
        some { thread with traceDepot := thread.traceDepot.setReadWrite access.addr access.pc } ∧
      next.content (.address access.addr) =
        some ((ft.createVar access.addr access.size).after layout access.write thread) ∧
      ∀ place, place ≠ .thread access.tls → place ≠ .address access.addr →
        next.content place = ft.content place := by
  have acts : ActsBy layout event access.tls (.address access.addr) (accessEffect layout access) :=
    access_actsBy accesses
  have effects := acts ft
  simp only [accessEffect, Fasttrack.content_thread, Fasttrack.content_address, found,
    Option.map_some, ← createVar_eq_getD] at effects
  exact effects

/-! ### Independent calls -/

/-- A lock call, an annotation or an access keeps to its places. -/
theorem Event.keepsTo {cell : Place} (uses : event.cell? = some cell) :
    Local (Fasttrack.machine layout) Fasttrack.content Output.shown event event.Reads
      event.Writes := by
  cases event with
  | acquire tls mutex recursive write =>
    exact (acquire_actsBy tls mutex recursive write).keepsTo rfl rfl
  | release tls mutex write => exact (release_actsBy tls mutex write).keepsTo rfl rfl
  | happensBefore tls identifier => exact (happensBefore_actsBy tls identifier).keepsTo rfl rfl
  | happensAfter tls identifier => exact (happensAfter_actsBy tls identifier).keepsTo rfl rfl
  | read | write => exact access_keepsTo rfl
  | _ => cases uses

/-- Both events are reads, of the same number of bytes at the same address. -/
def BothRead (first second : Event) : Prop :=
  ∃ access other, first.access? = some access ∧ second.access? = some other ∧
    access.write = false ∧ other.write = false ∧ access.addr = other.addr ∧ access.size = other.size

/-- Two lock calls, annotations or accesses by different threads that use neither the same mutex or
identifier nor the same address, unless both read it. -/
structure Independent (first second : Event) : Prop where
  uses : first.cell?.isSome ∧ second.cell?.isSome
  threads : first.tls? ≠ second.tls?
  apart : first.cell? ≠ second.cell? ∨ BothRead first second

/-- The ids of two threads that access one address can be told from the value 0. -/
def IdsApart (layout : Layout) (ft : Fasttrack) (first second : Event) : Prop :=
  ∀ access ∈ first.access?, ∀ other ∈ second.access?, access.addr = other.addr →
    ∀ thread ∈ ft.threads.lookup access.tls, ∀ otherThread ∈ ft.threads.lookup other.tls,
      (ft.createVar access.addr access.size).TellsApart layout thread otherThread

instance (ft : Fasttrack) (first second : Event) : Decidable (IdsApart layout ft first second) :=
  inferInstanceAs (Decidable (∀ access ∈ first.access?, ∀ other ∈ second.access?, _ → _))

/-- Two detectors with the same threads, locks and happens-before states, and with the same state of
every address up to the order of its shared list. -/
structure SameUpToOrder (ft other : Fasttrack) : Prop where
  threads : ∀ tid, ft.threads.lookup tid = other.threads.lookup tid
  locks : ∀ mutex, ft.locks.lookup mutex = other.locks.lookup mutex
  happensStates : ∀ identifier,
    ft.happensStates.lookup identifier = other.happensStates.lookup identifier
  vars : ∀ addr, Option.Rel VarState.Similar (ft.vars.lookup addr) (other.vars.lookup addr)

theorem SameUpToOrder.ofContent (same : ∀ place, next.content place = ft.content place) :
    SameUpToOrder next ft where
  threads tid := same (.thread tid)
  locks mutex := same (.mutex mutex)
  happensStates identifier := same (.identifier identifier)
  vars addr := by
    have sameVar : next.vars.lookup addr = ft.vars.lookup addr := same (.address addr)
    rw [sameVar]
    exact VarState.Similar.refl_option _

/-- The verdicts of a read depend on the recorded write and on whether its epoch is recorded. -/
theorem VarState.verdicts_read_congr {var other : VarState} (write : var.wId = other.wId)
    (same : var.SameEpoch layout false thread ↔ other.SameEpoch layout false thread) :
    var.verdicts layout false thread = other.verdicts layout false thread := by
  simp only [VarState.verdicts, VarState.writeVerdict, write]
  exact if_congr same rfl rfl

/-- A call that keeps to its places can be made in either order with a call that uses other ones. -/
theorem commute_apart {cell otherCell : Place} (uses : first.cell? = some cell)
    (otherUses : second.cell? = some otherCell) (threads : first.tls? ≠ second.tls?)
    (differs : cell ≠ otherCell) {middle last : Fasttrack} {output result : Output}
    (called : ft.call layout first = some (middle, output))
    (next : middle.call layout second = some (last, result)) :
    ∃ middle' last' result' output', ft.call layout second = some (middle', result') ∧
      middle'.call layout first = some (last', output') ∧ output'.shown = output.shown ∧
      result'.shown = result.shown ∧ SameUpToOrder last' last := by
  have noThread : ∀ {event : Event} {tls : ℕ}, event.cell? ≠ some (.thread tls) := by
    intro event tls
    cases event <;> simp [Event.cell?]
  have noRegistered : ∀ {event : Event} {tid : ℕ}, ¬ event.Writes (.registered tid) := by
    intro event tid
    rintro (calls | cells)
    · cases event <;> simp [Event.tls?] at calls
    · cases event <;> simp [Event.cell?] at cells
  have disjoint : ∀ place, first.Writes place → ¬ second.Writes place := by
    rintro place (calls | cells) (otherCalls | otherCells)
    · obtain ⟨tls, caller, rfl⟩ := Option.map_eq_some_iff.mp calls
      obtain ⟨otherTls, otherCaller, same⟩ := Option.map_eq_some_iff.mp otherCalls
      refine threads (caller.trans (Eq.trans ?_ otherCaller.symm))
      rw [Place.thread.inj same]
    · obtain ⟨tls, _, rfl⟩ := Option.map_eq_some_iff.mp calls
      exact noThread otherCells
    · obtain ⟨tls, _, rfl⟩ := Option.map_eq_some_iff.mp otherCalls
      exact noThread cells
    · rw [uses] at cells
      rw [otherUses] at otherCells
      exact differs (Option.some.inj (cells.trans otherCells.symm))
  have unread : ∀ {event other : Event}, (∀ place, event.Writes place → ¬ other.Writes place) →
      ∀ place, event.Writes place → ¬ other.Reads place := by
    rintro event other apart place written (otherWritten | ⟨tid, rfl⟩)
    · exact apart place written otherWritten
    · exact noRegistered written
  obtain ⟨middle', last', result', output', calledSecond, calledFirst, sameOutput,
    sameResult, same⟩ :=
    (Event.keepsTo uses).swap (Event.keepsTo otherUses)
      (fun place written => ⟨unread disjoint place written, disjoint place written⟩)
      (unread fun place otherWritten written => disjoint place written otherWritten) called next
  exact ⟨middle', last', result', output', calledSecond, calledFirst, sameOutput, sameResult,
    .ofContent same⟩

/-- What two accesses of one address by different threads do, one after the other. -/
theorem accesses_act {other : Access} {otherThread : ThreadState}
    (accesses : first.access? = some access) (otherAccesses : second.access? = some other)
    (sameAddr : other.addr = access.addr) (threads : access.tls ≠ other.tls)
    (found : ft.threads.lookup access.tls = some thread)
    (otherFound : ft.threads.lookup other.tls = some otherThread) :
    ∃ middle output last result, ft.call layout first = some (middle, output) ∧
      middle.call layout second = some (last, result) ∧
      output.shown = access.shown layout thread (ft.createVar access.addr access.size)
        (fun tid => ft.content (.registered tid)) ∧
      result.shown = other.shown layout otherThread
        ((ft.createVar access.addr access.size).after layout access.write thread)
        (fun tid => ft.content (.registered tid)) ∧
      last.content (.thread access.tls) =
        some { thread with traceDepot := thread.traceDepot.setReadWrite access.addr access.pc } ∧
      last.content (.thread other.tls) =
        some { otherThread with traceDepot :=
          otherThread.traceDepot.setReadWrite other.addr other.pc } ∧
      last.content (.address access.addr) =
        some (((ft.createVar access.addr access.size).after layout access.write thread).after layout
          other.write otherThread) ∧
      ∀ place, place ≠ .thread access.tls → place ≠ .thread other.tls →
        place ≠ .address access.addr →
        last.content place = ft.content place := by
  obtain ⟨middle, output, called, shown, own, stored, frame⟩ := access_acts accesses found
  have otherNow : middle.threads.lookup other.tls = some otherThread :=
    (frame (.thread other.tls) (by simpa using threads.symm) (by simp)).trans otherFound
  obtain ⟨last, result, next, otherShown, otherOwn, otherStored, otherFrame⟩ :=
    access_acts otherAccesses otherNow
  have registered : (fun tid => middle.content (.registered tid)) = fun tid =>
      ft.content (.registered tid) :=
    funext fun tid => frame (.registered tid) (by simp) (by simp)
  have var : middle.createVar other.addr other.size =
      (ft.createVar access.addr access.size).after layout access.write thread := by
    rw [createVar_eq_getD, sameAddr, ← Fasttrack.content_address, stored, Option.getD_some]
  rw [var] at otherShown otherStored
  rw [registered] at otherShown
  rw [sameAddr] at otherStored
  refine ⟨middle, output, last, result, called, next, shown, otherShown, ?_, otherOwn,
    otherStored, ?_⟩
  · rw [otherFrame _ (by simpa using threads) (by simp), own]
  · intro place notOwn notOther notAddr
    rw [otherFrame place notOther (sameAddr ▸ notAddr), frame place notOwn notAddr]

/-- The objects of different threads have different tids. -/
theorem tids_differ {otherTls : ℕ} {otherThread : ThreadState}
    (wellFormed : ft.clocks.WellFormed layout) (found : ft.threads.lookup tls = some thread)
    (otherFound : ft.threads.lookup otherTls = some otherThread) (threads : tls ≠ otherTls) :
    thread.getTid layout ≠ otherThread.getTid layout := by
  have encodes : thread.getTid layout = tls :=
    (wellFormed.encodes _ _ (Fasttrack.holds_of_lookup found).2).2
  have otherEncodes : otherThread.getTid layout = otherTls :=
    (wellFormed.encodes _ _ (Fasttrack.holds_of_lookup otherFound).2).2
  rwa [encodes, otherEncodes]

theorem Independent.tls_ne {other : Access} (independent : Independent first second)
    (accesses : first.access? = some access) (otherAccesses : second.access? = some other) :
    access.tls ≠ other.tls := by
  have threads := independent.threads
  rw [tls_of_access accesses, tls_of_access otherAccesses] at threads
  exact fun same => threads (congrArg _ same)

/-- Two reads of one address by different threads can be made in either order. -/
theorem commute_reads {other : Access} (wellFormed : ft.clocks.WellFormed layout)
    (tidyVar : (ft.createVar access.addr access.size).Tidy layout)
    (accesses : first.access? = some access) (otherAccesses : second.access? = some other)
    (reads : access.write = false) (otherReads : other.write = false)
    (sameAddr : access.addr = other.addr) (sameSize : access.size = other.size)
    (threads : access.tls ≠ other.tls) (apart : IdsApart layout ft first second)
    {middle last : Fasttrack} {output result : Output}
    (called : ft.call layout first = some (middle, output))
    (next : middle.call layout second = some (last, result)) :
    ∃ middle' last' result' output', ft.call layout second = some (middle', result') ∧
      middle'.call layout first = some (last', output') ∧ output'.shown = output.shown ∧
      result'.shown = result.shown ∧ SameUpToOrder last' last := by
  obtain ⟨thread, found, middleThreads, _⟩ := Fasttrack.call_access accesses called
  obtain ⟨otherThread, otherNow, _⟩ := Fasttrack.call_access otherAccesses next
  have otherFound : ft.threads.lookup other.tls = some otherThread := by
    rw [← otherNow, middleThreads]
    exact (AList.lookup_insert_ne threads.symm).symm
  obtain ⟨_, _, _, _, calledHere, nextHere, shown, otherShown, own, otherOwn, stored, frame⟩ :=
    accesses_act accesses otherAccesses sameAddr.symm threads found otherFound
  obtain ⟨rfl, rfl⟩ := Prod.mk.inj (Option.some.inj (called.symm.trans calledHere))
  obtain ⟨rfl, rfl⟩ := Prod.mk.inj (Option.some.inj (next.symm.trans nextHere))
  obtain ⟨middle', result', last', output', called', next', otherShown', shown', otherOwn',
    own', stored', frame'⟩ :=
    accesses_act otherAccesses accesses sameAddr threads.symm otherFound found
  rw [← sameAddr, ← sameSize] at otherShown' shown' stored'
  rw [otherReads] at shown'
  rw [reads, otherReads] at stored stored'
  rw [reads] at otherShown
  -- what the two reads find and leave at the address
  have ids := apart access accesses other otherAccesses sameAddr thread found otherThread otherFound
  have differs := tids_differ wellFormed found otherFound threads
  refine ⟨middle', last', result', output', called', next', ?_, ?_, ?_⟩
  · rw [shown', shown, Access.shown, Access.shown, reads, VarState.verdicts_read_congr
      (VarState.wId_after_read _ _) (VarState.sameEpoch_after tidyVar differs.symm ids.symm)]
  · rw [otherShown', otherShown, Access.shown, Access.shown, otherReads,
      VarState.verdicts_read_congr
      (VarState.wId_after_read _ _) (VarState.sameEpoch_after tidyVar differs ids)]
  · have elsewhere : ∀ place, place ≠ .address access.addr →
        last'.content place = last.content place := by
      intro place notAddr
      by_cases isOwn : place = .thread access.tls
      · rw [isOwn, own', own]
      by_cases isOther : place = .thread other.tls
      · rw [isOther, otherOwn', otherOwn]
      rw [frame' place isOther isOwn (sameAddr ▸ notAddr), frame place isOwn isOther notAddr]
    refine ⟨fun tid => elsewhere (.thread tid) (by simp),
      fun mutex => elsewhere (.mutex mutex) (by simp),
      fun identifier => elsewhere (.identifier identifier) (by simp), fun addr => ?_⟩
    by_cases same : addr = access.addr
    · rw [← Fasttrack.content_address, ← Fasttrack.content_address, same, stored', stored]
      exact .some (VarState.similar_after tidyVar differs.symm ids.symm)
    · have sameVar := elsewhere (.address addr) (by simpa using same)
      rw [Fasttrack.content_address, Fasttrack.content_address] at sameVar
      rw [sameVar]
      exact VarState.Similar.refl_option _

/-- If both orders of two reads of one address leave the same state up to the order of the shared
list, no id of the two threads is confused with no read. -/
theorem tellsApart_of_commute {other : Access} {otherThread : ThreadState}
    (wellFormed : ft.clocks.WellFormed layout)
    (tidyVar : (ft.createVar access.addr access.size).Tidy layout)
    (accesses : first.access? = some access) (otherAccesses : second.access? = some other)
    (reads : access.write = false) (otherReads : other.write = false)
    (sameAddr : access.addr = other.addr) (sameSize : access.size = other.size)
    (threads : access.tls ≠ other.tls) (found : ft.threads.lookup access.tls = some thread)
    (otherFound : ft.threads.lookup other.tls = some otherThread)
    {middle last middle' last' : Fasttrack} {output result output' result' : Output}
    (called : ft.call layout first = some (middle, output))
    (next : middle.call layout second = some (last, result))
    (called' : ft.call layout second = some (middle', result'))
    (next' : middle'.call layout first = some (last', output'))
    (same : SameUpToOrder last' last) :
    (ft.createVar access.addr access.size).TellsApart layout thread otherThread := by
  obtain ⟨_, _, _, _, calledHere, nextHere, _, _, _, _, stored, _⟩ :=
    accesses_act accesses otherAccesses sameAddr.symm threads found otherFound
  obtain ⟨rfl, rfl⟩ := Prod.mk.inj (Option.some.inj (called.symm.trans calledHere))
  obtain ⟨rfl, rfl⟩ := Prod.mk.inj (Option.some.inj (next.symm.trans nextHere))
  obtain ⟨_, _, _, _, calledThere, nextThere, _, _, _, _, stored', _⟩ :=
    accesses_act otherAccesses accesses sameAddr threads.symm otherFound found
  obtain ⟨rfl, rfl⟩ := Prod.mk.inj (Option.some.inj (called'.symm.trans calledThere))
  obtain ⟨rfl, rfl⟩ := Prod.mk.inj (Option.some.inj (next'.symm.trans nextThere))
  rw [← sameAddr, ← sameSize] at stored'
  rw [reads, otherReads] at stored stored'
  have similar := same.vars access.addr
  rw [← Fasttrack.content_address, ← Fasttrack.content_address, stored, stored',
    Option.rel_some_some] at similar
  exact (VarState.similar_after_iff tidyVar
    (tids_differ wellFormed found otherFound threads)).mp similar.symm

/-- Independent events commute exactly if no id of the two threads is mistaken for no access. -/
theorem independent_commute_iff (reaches : Reaches layout past ft) (room : RoomAlong layout past)
    (independent : Independent first second)
    {middle last : Fasttrack} {output result : Output}
    (called : ft.call layout first = some (middle, output))
    (next : middle.call layout second = some (last, result)) :
    (∃ middle' last' result' output', ft.call layout second = some (middle', result') ∧
      middle'.call layout first = some (last', output') ∧ output'.shown = output.shown ∧
      result'.shown = result.shown ∧ SameUpToOrder last' last) ↔
        IdsApart layout ft first second := by
  have wellFormed := Reaches.wellFormed reaches room
  obtain ⟨cell, uses⟩ := Option.isSome_iff_exists.mp independent.uses.1
  obtain ⟨otherCell, otherUses⟩ := Option.isSome_iff_exists.mp independent.uses.2
  have ofSame : cell = otherCell → BothRead first second := fun same =>
    independent.apart.resolve_left (not_not.mpr (by rw [uses, otherUses, same]))
  constructor
  · rintro ⟨middle', last', result', output', called', next', _, _, same⟩ access accesses other
      otherAccesses sameAddr thread found otherThread otherFound
    have sameCell : cell = otherCell := by
      refine Option.some.inj (uses.symm.trans (Eq.trans ?_ otherUses))
      rw [cell_of_access accesses, cell_of_access otherAccesses, sameAddr]
    obtain ⟨_, _, accesses', otherAccesses', reads, otherReads, _, sameSize⟩ := ofSame sameCell
    obtain rfl := Option.some.inj (accesses'.symm.trans accesses)
    obtain rfl := Option.some.inj (otherAccesses'.symm.trans otherAccesses)
    exact tellsApart_of_commute wellFormed (Reaches.tidy_createVar reaches) accesses otherAccesses
      reads otherReads sameAddr sameSize (independent.tls_ne accesses otherAccesses) found
      otherFound called next called' next' same
  · intro apart
    by_cases same : cell = otherCell
    · obtain ⟨access, other, accesses, otherAccesses, reads, otherReads, sameAddr, sameSize⟩ :=
        ofSame same
      exact commute_reads wellFormed (Reaches.tidy_createVar reaches) accesses otherAccesses reads
        otherReads sameAddr sameSize (independent.tls_ne accesses otherAccesses) apart called next
    · exact commute_apart uses otherUses independent.threads same called next

/-- Thread 3 writes an address that threads 1 and 2 read without synchronisation. -/
def unorderedReads : List Event :=
  [.fork 9 1, .fork 9 2, .fork 9 3, .write 3 30 0x100 4, .read 1 10 0x100 4, .read 2 20 0x100 4]

theorem independent_commute_iff_two_reads :
    (∃ middle' last' result' output',
      (ran .x64 (unorderedReads.take 4)).2.call .x64 (.read 2 20 0x100 4) =
        some (middle', result') ∧
      middle'.call .x64 (.read 1 10 0x100 4) = some (last', output') ∧
      output'.shown = ((ran .x64 unorderedReads).1.get ⟨4, by decide +kernel⟩).output.shown ∧
      result'.shown = ((ran .x64 unorderedReads).1.get ⟨5, by decide +kernel⟩).output.shown ∧
      SameUpToOrder last' (ran .x64 unorderedReads).2) ↔
        IdsApart .x64 (ran .x64 (unorderedReads.take 4)).2 (.read 1 10 0x100 4)
          (.read 2 20 0x100 4) := by
  have room : RoomAlong .x64 (ran .x64 (unorderedReads.take 4)).1 := by decide +kernel
  have independent : Independent (.read 1 10 0x100 4) (.read 2 20 0x100 4) :=
    ⟨by decide, by decide, Or.inr ⟨_, _, rfl, rfl, rfl, rfl, rfl, rfl⟩⟩
  have called : (ran .x64 (unorderedReads.take 4)).2.call .x64 (.read 1 10 0x100 4) =
      some ((ran .x64 (unorderedReads.take 5)).2,
        ((ran .x64 unorderedReads).1.get ⟨4, by decide +kernel⟩).output) := rfl
  have next : (ran .x64 (unorderedReads.take 5)).2.call .x64 (.read 2 20 0x100 4) =
      some ((ran .x64 unorderedReads).2,
        ((ran .x64 unorderedReads).1.get ⟨5, by decide +kernel⟩).output) := rfl
  exact independent_commute_iff (reaches_ran .x64 _) room independent called next

/-- Threads 0 and 2 start, and read an address in one or the other order. -/
def readsOfZero (reads : List Event) : List Event := [.fork 9 0, .fork 9 2] ++ reads

/-- The id of a thread with the tid 0 that has not synchronized yet is the value for no access. If
it reads first, its read is not recorded; if another thread has read before, the read becomes
shared. -/
theorem reads_of_tid_zero_differ :
    Reaches .x64 (ran .x64 (readsOfZero [])).1 (ran .x64 (readsOfZero [])).2 ∧
      RoomAlong .x64 (ran .x64 (readsOfZero [])).1 ∧
      Independent (.read 0 10 0x100 4) (.read 2 20 0x100 4) ∧
      ∃ middle output last result middle' result' last' output',
        (ran .x64 (readsOfZero [])).2.call .x64 (.read 0 10 0x100 4) = some (middle, output) ∧
        middle.call .x64 (.read 2 20 0x100 4) = some (last, result) ∧
        (ran .x64 (readsOfZero [])).2.call .x64 (.read 2 20 0x100 4) = some (middle', result') ∧
        middle'.call .x64 (.read 0 10 0x100 4) = some (last', output') ∧
          ¬ SameUpToOrder last' last := by
  refine ⟨reaches_ran .x64 _, by decide +kernel,
    ⟨by decide, by decide, Or.inr ⟨_, _, rfl, rfl, rfl, rfl, rfl, rfl⟩⟩,
    (ran .x64 (readsOfZero [.read 0 10 0x100 4])).2, {},
    (ran .x64 (readsOfZero [.read 0 10 0x100 4, .read 2 20 0x100 4])).2, {},
    (ran .x64 (readsOfZero [.read 2 20 0x100 4])).2, {},
    (ran .x64 (readsOfZero [.read 2 20 0x100 4, .read 0 10 0x100 4])).2, {},
    rfl, rfl, rfl, rfl, fun same => ?_⟩
  have shared := VarState.Similar.isReadShared_eq (same.vars 0x100)
  exact absurd shared (by decide +kernel)

end Drace
