/-
This file says once what a call does to the stack depots of the threads.

Accesses and function calls change the depot of the calling thread, and a new
thread starts with an empty one. All other calls keep every depot: the thread
objects they replace keep theirs.
-/

import Drace.Access
import Drace.HappensBefore

namespace Drace

variable {layout : Layout} {ft next : Fasttrack} {event : Event} {output : Output} {access : Access}
  {depot : StackTrace} {tls tid addr : ℕ}

namespace Fasttrack

/-- The depot of a registered thread. -/
def depotOf (ft : Fasttrack) (tid : ℕ) : Option StackTrace :=
  (ft.threads.lookup tid).map fun thread => thread.traceDepot

theorem depotOf_of_lookup {thread : ThreadState} (found : ft.threads.lookup tid = some thread) :
    ft.depotOf tid = some thread.traceDepot := by rw [depotOf, found]; rfl

theorem depotOf_congr {other : Fasttrack} (same : ft.threads = other.threads) :
    ft.depotOf = other.depotOf := by
  funext tid
  rw [depotOf, depotOf, same]

theorem threads_createLock {mutex : ℕ} : (ft.createLock mutex).threads = ft.threads := by
  unfold createLock
  split <;> rfl

theorem threads_createHappens {identifier : ℕ} :
    (ft.createHappens identifier).threads = ft.threads := by
  unfold createHappens
  split <;> rfl

theorem depotOf_setThread {thread : ThreadState} :
    (ft.setThread tls thread).depotOf tid =
      if tid = tls then some thread.traceDepot else ft.depotOf tid := by
  unfold depotOf setThread
  rw [AList.lookup_insert_eq_ite]
  split <;> rfl

/-- A change of a thread that keeps the thread's depot keeps all depots. -/
theorem depotOf_setThread_same {thread old : ThreadState} (found : ft.threads.lookup tls = some old)
    (same : thread.traceDepot = old.traceDepot) : (ft.setThread tls thread).depotOf =
      ft.depotOf := by
  funext tid
  rw [depotOf_setThread]
  split
  · next own => rw [own, depotOf_of_lookup found, same]
  · rfl

theorem depotOf_modifyThread {change : ThreadState → ThreadState}
    (keeps : ∀ thread, (change thread).traceDepot = thread.traceDepot) :
    (ft.modifyThread tls change).depotOf = ft.depotOf := by
  unfold modifyThread
  split
  · next thread found => exact depotOf_setThread_same found (keeps thread)
  · rfl

theorem depotOf_cleanup : (ft.cleanup layout tid).depotOf = ft.depotOf := by
  funext other
  unfold depotOf cleanup
  simp only [AList.lookup_mapValues, Option.map_map]
  rfl

/-- Taking a thread off the table leaves the depots of the others. -/
theorem depotOf_eraseThread
    (found : ({ ft with threads := ft.threads.erase tls } : Fasttrack).depotOf tid = some depot) :
    ft.depotOf tid = some depot := by
  rw [depotOf] at found
  simp only [AList.lookup_erase_eq_ite] at found
  split at found
  · cases found
  · exact found

/-- A new thread starts with an empty depot. -/
theorem depotOf_createThread {child : ℕ} {parent : Option ThreadState}
    (found : (ft.createThread layout child parent).1.depotOf tid = some depot) :
    ft.depotOf tid = some depot ∨
      ft.depotOf tid = none ∧ depot = {} ∧ child % layout.tidRange = tid := by
  unfold createThread at found
  simp only at found
  split at found
  · exact Or.inl found
  · next absent =>
    rw [depotOf_setThread] at found
    split at found
    · next same =>
      rw [ThreadState.traceDepot_new] at found
      refine Or.inr ⟨?_, (Option.some.inj found).symm, same.symm⟩
      rw [same, depotOf, AList.lookup_eq_none.mpr absent]
      rfl
    · exact Or.inl found

theorem depotOf_fork {parent child : ℕ}
    (found : (ft.fork layout parent child).1.depotOf tid = some depot) :
    ft.depotOf tid = some depot ∨
      ft.depotOf tid = none ∧ depot = {} ∧ child % layout.tidRange = tid := by
  unfold fork at found
  split at found
  · next thread registered =>
    have same : (ft.setThread parent (thread.incVc layout)).depotOf = ft.depotOf :=
      depotOf_setThread_same registered ThreadState.traceDepot_incVc
    rw [← same]
    exact depotOf_createThread found
  · exact depotOf_createThread found

theorem depotOf_join {parent child : ℕ}
    (found : (ft.join layout parent child).depotOf tid = some depot) :
    ft.depotOf tid = some depot := by
  unfold join at found
  split at found
  · next thread _ registered _ =>
    simp only [depotOf_cleanup] at found
    have joined := depotOf_eraseThread found
    rw [depotOf_modifyThread fun _ => ThreadState.traceDepot_mergeClock,
      depotOf_setThread_same registered ThreadState.traceDepot_incVc] at joined
    exact joined
  · exact found

theorem depotOf_acquire {mutex : ℕ} {recursive : ℤ}
    (defined : ft.acquire tls mutex recursive = some next) :
    next.depotOf = ft.depotOf := by
  unfold acquire at defined
  split at defined
  · obtain ⟨rfl⟩ := Option.some.inj defined
    rfl
  · obtain ⟨thread, registered, rfl⟩ := Option.map_eq_some_iff.mp defined
    exact (depotOf_setThread_same registered ThreadState.traceDepot_mergeClock).trans
      (depotOf_congr threads_createLock)

theorem depotOf_release {mutex : ℕ} (defined : ft.release layout tls mutex = some next) :
    next.depotOf = ft.depotOf := by
  unfold release at defined
  split at defined
  · obtain ⟨rfl⟩ := Option.some.inj defined
    exact depotOf_congr threads_createLock
  · obtain ⟨thread, registered, rfl⟩ := Option.map_eq_some_iff.mp defined
    exact depotOf_setThread_same registered ThreadState.traceDepot_incVc

theorem depotOf_happensBefore {identifier : ℕ}
    (defined : ft.happensBefore layout tls identifier = some next) : next.depotOf = ft.depotOf := by
  obtain ⟨thread, registered, rfl⟩ := Option.map_eq_some_iff.mp defined
  exact (depotOf_setThread_same registered ThreadState.traceDepot_incVc).trans
    (depotOf_congr threads_createHappens)

theorem depotOf_happensAfter {identifier : ℕ}
    (defined : ft.happensAfter tls identifier = some next) : next.depotOf = ft.depotOf := by
  unfold happensAfter at defined
  split at defined
  · obtain ⟨rfl⟩ := Option.some.inj defined
    exact depotOf_congr threads_createHappens
  · obtain ⟨thread, registered, rfl⟩ := Option.map_eq_some_iff.mp defined
    exact depotOf_setThread_same registered ThreadState.traceDepot_mergeClock

theorem threads_allocate {size : ℕ} : (ft.allocate addr size).threads = ft.threads := by
  unfold allocate
  split <;> rfl

end Fasttrack

theorem mem_threads_iff_depotOf : tid ∈ ft.threads ↔ ∃ depot, ft.depotOf tid = some depot := by
  rw [← AList.lookup_isSome, Option.isSome_iff_exists]
  constructor
  · rintro ⟨thread, found⟩
    exact ⟨_, Fasttrack.depotOf_of_lookup found⟩
  · rintro ⟨depot, found⟩
    obtain ⟨thread, registered, _⟩ := Option.map_eq_some_iff.mp found
    exact ⟨thread, registered⟩

/-- What a call does to the depot of a thread. -/
def Event.depotAfter (tid : ℕ) (depot : StackTrace) : Event → Option StackTrace
  | .read tls pc addr _ | .write tls pc addr _ =>
    some (if tls = tid then depot.setReadWrite addr pc else depot)
  | .funcEnter tls pc => some (if tls = tid then depot.pushStackElement pc else depot)
  | .funcExit tls => if tls = tid then depot.popStackElement else some depot
  | _ => some depot

/-- An access changes the depot of its own thread only. -/
theorem depotOf_access (accesses : event.access? = some access)
    (defined : ft.call layout event = some (next, output)) (found : next.depotOf tid = some depot) :
    ∃ old, ft.depotOf tid = some old ∧
      (if access.tls = tid then old.setReadWrite access.addr access.pc else old) = depot := by
  obtain ⟨thread, registered, threads, _⟩ := Fasttrack.call_access accesses defined
  have same : next.depotOf = (ft.recordAccess access.tls thread access.pc access.addr).depotOf := by
    funext tid
    rw [Fasttrack.depotOf, Fasttrack.depotOf, threads]
  rw [same, Fasttrack.recordAccess, Fasttrack.depotOf_setThread] at found
  split at found
  · next own =>
    exact ⟨_, own ▸ Fasttrack.depotOf_of_lookup registered,
      (if_pos own.symm).trans (Option.some.inj found)⟩
  · next other => exact ⟨depot, found, if_neg (Ne.symm other)⟩

/-- After a call a thread has the depot the call leaves it, or it is new and its depot is empty. -/
theorem depot_call (defined : ft.call layout event = some (next, output))
    (found : next.depotOf tid = some depot) :
    (∃ old, ft.depotOf tid = some old ∧ event.depotAfter tid old = some depot) ∨
      ft.depotOf tid = none ∧ depot = {} ∧
        ∃ child, event.forks? = some child ∧ child % layout.tidRange = tid := by
  cases event with
  | read | write =>
    obtain ⟨old, was, rfl⟩ := depotOf_access rfl defined found
    exact Or.inl ⟨old, was, rfl⟩
  | funcEnter tls pc =>
    obtain ⟨after, entered, same⟩ := Option.map_eq_some_iff.mp defined
    obtain ⟨rfl, _⟩ := Prod.mk.inj same
    obtain ⟨thread, registered, rfl⟩ := Option.map_eq_some_iff.mp entered
    rw [Fasttrack.depotOf_setThread] at found
    split at found
    · next own =>
      obtain ⟨rfl⟩ := Option.some.inj found
      refine Or.inl ⟨thread.traceDepot, own ▸ Fasttrack.depotOf_of_lookup registered, ?_⟩
      rw [Event.depotAfter, if_pos own.symm]
    · next other => exact Or.inl ⟨depot, found, by rw [Event.depotAfter, if_neg (Ne.symm other)]⟩
  | funcExit tls =>
    obtain ⟨after, exited, same⟩ := Option.map_eq_some_iff.mp defined
    obtain ⟨rfl, _⟩ := Prod.mk.inj same
    obtain ⟨thread, registered, popped⟩ := Option.bind_eq_some_iff.mp exited
    obtain ⟨left, pops, rfl⟩ := Option.map_eq_some_iff.mp popped
    rw [Fasttrack.depotOf_setThread] at found
    split at found
    · next own =>
      obtain ⟨rfl⟩ := Option.some.inj found
      refine Or.inl ⟨thread.traceDepot, own ▸ Fasttrack.depotOf_of_lookup registered, ?_⟩
      rw [Event.depotAfter, if_pos own.symm, pops]
    · next other => exact Or.inl ⟨depot, found, by rw [Event.depotAfter, if_neg (Ne.symm other)]⟩
  | fork parent child =>
    obtain ⟨rfl, _⟩ := Prod.mk.inj (Option.some.inj defined)
    rcases Fasttrack.depotOf_fork found with was | ⟨was, empty, same⟩
    · exact Or.inl ⟨depot, was, rfl⟩
    · exact Or.inr ⟨was, empty, child, rfl, same⟩
  | join parent child =>
    obtain ⟨rfl, _⟩ := Prod.mk.inj (Option.some.inj defined)
    exact Or.inl ⟨depot, Fasttrack.depotOf_join found, rfl⟩
  | finish tls threadId =>
    obtain ⟨rfl, _⟩ := Prod.mk.inj (Option.some.inj defined)
    rw [Fasttrack.finish, Fasttrack.depotOf_cleanup] at found
    exact Or.inl ⟨depot, Fasttrack.depotOf_eraseThread found, rfl⟩
  | acquire tls mutex recursive write =>
    obtain ⟨after, acquired, same⟩ := Option.map_eq_some_iff.mp defined
    obtain ⟨rfl, _⟩ := Prod.mk.inj same
    exact Or.inl ⟨depot, Fasttrack.depotOf_acquire acquired ▸ found, rfl⟩
  | release tls mutex write =>
    obtain ⟨after, released, same⟩ := Option.map_eq_some_iff.mp defined
    obtain ⟨rfl, _⟩ := Prod.mk.inj same
    exact Or.inl ⟨depot, Fasttrack.depotOf_release released ▸ found, rfl⟩
  | happensBefore tls identifier =>
    obtain ⟨after, announced, same⟩ := Option.map_eq_some_iff.mp defined
    obtain ⟨rfl, _⟩ := Prod.mk.inj same
    exact Or.inl ⟨depot, Fasttrack.depotOf_happensBefore announced ▸ found, rfl⟩
  | happensAfter tls identifier =>
    obtain ⟨after, waited, same⟩ := Option.map_eq_some_iff.mp defined
    obtain ⟨rfl, _⟩ := Prod.mk.inj same
    exact Or.inl ⟨depot, Fasttrack.depotOf_happensAfter waited ▸ found, rfl⟩
  | allocate tls pc addr size =>
    obtain ⟨rfl, _⟩ := Prod.mk.inj (Option.some.inj defined)
    exact Or.inl ⟨depot, Fasttrack.depotOf_congr Fasttrack.threads_allocate ▸ found, rfl⟩
  | deallocate | detach | mapShadow =>
    obtain ⟨rfl, _⟩ := Prod.mk.inj (Option.some.inj defined)
    exact Or.inl ⟨depot, found, rfl⟩
  | finalize =>
    obtain ⟨rfl, _⟩ := Prod.mk.inj (Option.some.inj defined)
    cases found

end Drace
