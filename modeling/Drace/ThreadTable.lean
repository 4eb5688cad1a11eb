/-
This file says when threads are found under the tid they were forked with.

A fork converts the tid to `VectorClock::TID` before it stores the thread, while
the parent of a fork, both threads of a join and the thread that finishes are
looked up under the tid as it is. So a tid that does not fit `TID` is stored under
one key and searched under another: the fork and join edges of its thread are
lost, and the thread is never removed.
-/

import Drace.Depots

namespace Drace

open Machine

variable {layout : Layout} {past front : List Step} {step : Step} {ft next : Fasttrack}
  {event : Event} {output : Output} {thread child : ThreadState} {tid parent tls : ℕ}

/-! ### What a history says -/

/-- The threads that are live after an event: forked, and neither joined by a live thread nor
finished. -/
def Event.tidsAfter (live : List ℕ) : Event → List ℕ
  | .fork _ child => live.insert child
  | .join parent child => if parent ∈ live ∧ child ∈ live then live.filter (· ≠ child) else live
  | .finish _ threadId => live.filter (· ≠ threadId)
  | .finalize => []
  | _ => live

/-- The tids of the threads that are live after a history. -/
def liveTids (past : List Step) : List ℕ :=
  past.foldl (fun live step => step.event.tidsAfter live) []

theorem liveTids_append : liveTids (past ++ [step]) = step.event.tidsAfter (liveTids past) := by
  rw [liveTids, List.foldl_append]
  rfl

/-- Threads are found under the tid they were forked with: every live one is registered under its
tid, a fork by a live thread counts its clock up and copies it into a new thread, a join of live
threads merges the child's clock, counted up, into the parent and removes the child, and a thread
that finishes is removed. -/
structure FoundUnderTid (layout : Layout) (front : List Step) (step : Step) : Prop where
  registered : ∀ tid ∈ liveTids (front ++ [step]), tid ∈ step.post.threads
  fork : ∀ parent child, step.event = .fork parent child → parent ∈ liveTids front →
    child ∉ liveTids front → ∃ thread created, step.pre.threads.lookup parent = some thread ∧
      step.post.threads.lookup parent = some (thread.incVc layout) ∧
      step.post.threads.lookup child = some created ∧
      created.toVectorClock = (thread.incVc layout).toVectorClock
  join : ∀ parent child, step.event = .join parent child → parent ∈ liveTids front →
    child ∈ liveTids front → child ∉ step.post.threads ∧ (parent ≠ child →
      ∃ thread delThread merged, step.pre.threads.lookup parent = some thread ∧
        step.pre.threads.lookup child = some delThread ∧
        step.post.threads.lookup parent = some merged ∧
        merged.toVectorClock = (thread.toVectorClock.update
          (delThread.incVc layout).toVectorClock).deleteVc child)
  finish : ∀ tls threadId, step.event = .finish tls threadId → threadId ∉ step.post.threads

/-- The tid of a thread that is forked fits `VectorClock::TID`. -/
def ForksFit (layout : Layout) (step : Step) : Prop :=
  ∀ child ∈ step.event.forks?, child < layout.tidRange

instance (layout : Layout) (step : Step) : Decidable (ForksFit layout step) :=
  inferInstanceAs (Decidable (∀ _ ∈ _, _))

/-! ### What a call does to the keys of the table -/

/-- The keys of the thread table after a call. -/
def Event.Registers (layout : Layout) (ft : Fasttrack) (tid : ℕ) : Event → Prop
  | .fork _ child => tid = child % layout.tidRange ∨ tid ∈ ft.threads
  | .join parent child =>
    tid ∈ ft.threads ∧ ¬ (tid = child ∧ parent ∈ ft.threads ∧ child ∈ ft.threads)
  | .finish _ threadId => tid ∈ ft.threads ∧ tid ≠ threadId
  | .finalize => False
  | _ => tid ∈ ft.threads

namespace Fasttrack

/-- A call that keeps the depots keeps the keys. -/
theorem mem_congr (same : next.depotOf = ft.depotOf) : tid ∈ next.threads ↔ tid ∈ ft.threads := by
  rw [mem_threads_iff_depotOf, mem_threads_iff_depotOf, same]

theorem mem_setThread : tid ∈ (ft.setThread tls thread).threads ↔ tid = tls ∨ tid ∈ ft.threads :=
  AList.mem_insert _

theorem mem_setThread_of_lookup (found : ft.threads.lookup tls = some child) :
    tid ∈ (ft.setThread tls thread).threads ↔ tid ∈ ft.threads := by
  rw [mem_setThread]
  exact or_iff_right_of_imp fun same => same ▸ mem_threads_of_lookup found

theorem mem_cleanup {key : ℕ} : tid ∈ (ft.cleanup layout key).threads ↔ tid ∈ ft.threads :=
  AList.mem_mapValues _ _ _

theorem mem_createThread {key : ℕ} {parent : Option ThreadState} :
    tid ∈ (ft.createThread layout key parent).1.threads ↔
      tid = key % layout.tidRange ∨ tid ∈ ft.threads := by
  unfold createThread
  simp only
  split
  · next present => exact (or_iff_right_of_imp fun same => same ▸ present).symm
  · exact mem_setThread

theorem mem_fork {child : ℕ} : tid ∈ (ft.fork layout parent child).1.threads ↔
    tid = child % layout.tidRange ∨ tid ∈ ft.threads := by
  unfold fork
  split
  · next thread found => rw [mem_createThread, mem_setThread_of_lookup found]
  · exact mem_createThread

theorem mem_finish : tid ∈ (ft.finish layout tls).threads ↔ tid ∈ ft.threads ∧ tid ≠ tls := by
  rw [finish, mem_cleanup]
  exact AList.mem_erase.trans and_comm

theorem mem_join {child : ℕ} : tid ∈ (ft.join layout parent child).threads ↔
    tid ∈ ft.threads ∧ ¬ (tid = child ∧ parent ∈ ft.threads ∧ child ∈ ft.threads) := by
  unfold join
  split
  · next delThread thread foundChild foundParent =>
    have bothThere := And.intro (mem_threads_of_lookup foundParent)
      (mem_threads_of_lookup foundChild)
    simp only [mem_cleanup, AList.mem_erase]
    rw [mem_congr (depotOf_modifyThread fun _ => ThreadState.traceDepot_mergeClock),
      mem_setThread_of_lookup foundChild, and_comm]
    refine and_congr_right fun _ => not_congr ?_
    exact ⟨fun same => ⟨same, bothThere⟩, fun all => all.1⟩
  · next invalid =>
    refine (and_iff_left_of_imp fun _ => ?_).symm
    rintro ⟨-, parentThere, childThere⟩
    obtain ⟨thread, foundParent⟩ := AList.exists_lookup parentThere
    obtain ⟨delThread, foundChild⟩ := AList.exists_lookup childThere
    exact invalid delThread thread foundChild foundParent

/-- What a call does to the keys of the thread table. -/
theorem mem_threads_call (defined : ft.call layout event = some (next, output)) :
    tid ∈ next.threads ↔ event.Registers layout ft tid := by
  cases event with
  | read | write =>
    obtain ⟨thread, found, threads, _⟩ := call_access rfl defined
    rw [threads]
    exact mem_setThread_of_lookup found
  | funcEnter own pc =>
    obtain ⟨after, entered, same⟩ := Option.map_eq_some_iff.mp defined
    obtain ⟨rfl, _⟩ := Prod.mk.inj same
    obtain ⟨thread, found, rfl⟩ := Option.map_eq_some_iff.mp entered
    exact mem_setThread_of_lookup found
  | funcExit own =>
    obtain ⟨after, exited, same⟩ := Option.map_eq_some_iff.mp defined
    obtain ⟨rfl, _⟩ := Prod.mk.inj same
    obtain ⟨thread, found, popped⟩ := Option.bind_eq_some_iff.mp exited
    obtain ⟨depot, _, rfl⟩ := Option.map_eq_some_iff.mp popped
    exact mem_setThread_of_lookup found
  | fork parent child =>
    obtain ⟨rfl, _⟩ := Prod.mk.inj (Option.some.inj defined)
    exact mem_fork
  | join parent child =>
    obtain ⟨rfl, _⟩ := Prod.mk.inj (Option.some.inj defined)
    exact mem_join
  | finish own threadId =>
    obtain ⟨rfl, _⟩ := Prod.mk.inj (Option.some.inj defined)
    exact mem_finish
  | acquire own mutex recursive write =>
    obtain ⟨after, acquired, same⟩ := Option.map_eq_some_iff.mp defined
    obtain ⟨rfl, _⟩ := Prod.mk.inj same
    exact mem_congr (depotOf_acquire acquired)
  | release own mutex write =>
    obtain ⟨after, released, same⟩ := Option.map_eq_some_iff.mp defined
    obtain ⟨rfl, _⟩ := Prod.mk.inj same
    exact mem_congr (depotOf_release released)
  | happensBefore own identifier =>
    obtain ⟨after, announced, same⟩ := Option.map_eq_some_iff.mp defined
    obtain ⟨rfl, _⟩ := Prod.mk.inj same
    exact mem_congr (depotOf_happensBefore announced)
  | happensAfter own identifier =>
    obtain ⟨after, waited, same⟩ := Option.map_eq_some_iff.mp defined
    obtain ⟨rfl, _⟩ := Prod.mk.inj same
    exact mem_congr (depotOf_happensAfter waited)
  | allocate own pc addr size =>
    obtain ⟨rfl, _⟩ := Prod.mk.inj (Option.some.inj defined)
    exact mem_congr (depotOf_congr threads_allocate)
  | deallocate | detach | mapShadow =>
    obtain ⟨rfl, _⟩ := Prod.mk.inj (Option.some.inj defined)
    exact Iff.rfl
  | finalize =>
    obtain ⟨rfl, _⟩ := Prod.mk.inj (Option.some.inj defined)
    exact iff_of_false (AList.notMem_empty tid) id

/-! ### The three operations on registered threads -/

/-- A fork by a registered parent. -/
theorem fork_found {child : ℕ} (found : ft.threads.lookup parent = some thread)
    (absent : child % layout.tidRange ∉ ft.threads) :
    (ft.fork layout parent child).1.threads.lookup parent = some (thread.incVc layout) ∧
      (ft.fork layout parent child).1.threads.lookup (child % layout.tidRange) =
        some (.new layout (child % layout.tidRange) (some (thread.incVc layout))) := by
  have differs : parent ≠ child % layout.tidRange := fun same =>
    absent (same ▸ mem_threads_of_lookup found)
  unfold fork createThread
  simp only [found]
  rw [if_neg (mt (mem_setThread_of_lookup found).mp absent)]
  exact ⟨(AList.lookup_insert_ne differs).trans (AList.lookup_insert _), AList.lookup_insert _⟩

/-- A join of two registered threads whose tids fit. -/
theorem join_found {own : ℕ} (fits : own < layout.tidRange)
    (found : ft.threads.lookup parent = some thread)
    (foundChild : ft.threads.lookup own = some child)
    (differs : parent ≠ own) :
    ∃ merged, (ft.join layout parent own).threads.lookup parent = some merged ∧
      merged.toVectorClock =
        (thread.toVectorClock.update (child.incVc layout).toVectorClock).deleteVc own := by
  have small : own % 0x100000000 % layout.tidRange = own := by
    rw [Nat.mod_mod_of_dvd own layout.tidRange_dvd, Nat.mod_eq_of_lt fits]
  refine ⟨(thread.mergeClock (child.incVc layout).toVectorClock).dropEntry own, ?_, rfl⟩
  unfold join cleanup modifyThread
  simp only [found, foundChild, small, setThread, AList.lookup_insert_ne differs,
    AList.lookup_mapValues, AList.lookup_erase_ne differs, AList.lookup_insert, Option.map_some]

end Fasttrack

/-! ### Runs -/

/-- Every key of the thread table fits `VectorClock::TID`. -/
theorem Reaches.keys_lt (reaches : Reaches layout past ft) (registered : tid ∈ ft.threads) :
    tid < layout.tidRange := by
  induction reaches with
  | start begins =>
    obtain ⟨argv, rfl⟩ := begins
    exact absurd registered (AList.notMem_empty tid)
  | @call past before next event output earlier defined inductionHypothesis =>
    have registers := (Fasttrack.mem_threads_call defined).mp registered
    cases event with
    | fork parent child =>
      rcases registers with rfl | was
      · exact Nat.mod_lt _ (by rw [Layout.tidRange_eq]; exact layout.multplier_pos)
      · exact inductionHypothesis was
    | join | finish => exact inductionHypothesis registers.1
    | finalize => cases registers
    | _ => exact inductionHypothesis registers

/-- If all tids that are forked fit, the keys of the table are the live tids. -/
theorem Reaches.registered_iff_live (reaches : Reaches layout past ft)
    (fit : Always (fun _ step => ForksFit layout step) past) :
    ∀ tid, tid ∈ ft.threads ↔ tid ∈ liveTids past := by
  refine Machine.Reaches.induct (fun past ft => ∀ tid, tid ∈ ft.threads ↔ tid ∈ liveTids past)
    ?_ ?_ reaches fit
  · rintro ft ⟨argv, rfl⟩ tid
    exact iff_of_false (AList.notMem_empty tid) List.not_mem_nil
  · intro past before event next output _ defined fits same tid
    rw [Fasttrack.mem_threads_call defined, liveTids_append]
    cases event with
    | fork parent child =>
      have small : child % layout.tidRange = child := Nat.mod_eq_of_lt (fits child rfl)
      simp only [Event.Registers, Event.tidsAfter, List.mem_insert_iff, small, same]
    | join parent child =>
      simp only [Event.Registers, Event.tidsAfter, same]
      split
      · next both => simp [both]
      · next invalid => exact and_iff_left fun all => invalid all.2
    | finish tls threadId =>
      simp only [Event.Registers, Event.tidsAfter, same, List.mem_filter, decide_eq_true_eq]
    | finalize => exact iff_of_false id List.not_mem_nil
    | _ => exact same tid

/-- After steps whose forked tids fit, threads are found under their tid just if the next forked tid
fits too. -/
theorem foundUnderTid_iff_fits (reaches : Reaches layout past ft)
    (initial : front ++ [step] <+: past)
    (fit : Always (fun _ step => ForksFit layout step) front) :
    FoundUnderTid layout front step ↔ ForksFit layout step := by
  obtain ⟨before, defined⟩ := reaches.step initial
  obtain ⟨pre, event, post, output⟩ := step
  change pre.call layout event = some (post, output) at defined
  have after : Reaches layout (front ++ [⟨pre, event, post, output⟩]) post := before.call defined
  constructor
  · intro found child forks
    refine Reaches.keys_lt after (found.registered child ?_)
    cases event with
    | fork =>
      obtain ⟨rfl⟩ := Option.some.inj forks
      rw [liveTids_append]
      exact List.mem_insert_self
    | _ => cases forks
  · intro fits
    have live := Reaches.registered_iff_live before fit
    have foundLive : ∀ tid ∈ liveTids front, ∃ thread, pre.threads.lookup tid = some thread :=
      fun tid member =>
        AList.exists_lookup ((live tid).mpr member)
    refine ⟨fun tid member => ?registered, ?fork, ?join, ?finish⟩
    case registered =>
      exact (Reaches.registered_iff_live after (always_append.mpr ⟨fit, fits⟩) tid).mpr member
    case fork =>
      rintro parent child rfl parentLive childDead
      obtain ⟨thread, found⟩ := foundLive parent parentLive
      obtain ⟨rfl, _⟩ := Prod.mk.inj (Option.some.inj defined)
      have small : child % layout.tidRange = child := Nat.mod_eq_of_lt (fits child rfl)
      have absent : child % layout.tidRange ∉ pre.threads := by
        rw [small, live]
        exact childDead
      obtain ⟨counted, created⟩ := Fasttrack.fork_found found absent
      rw [small] at created
      exact ⟨thread, _, found, counted, created, rfl⟩
    case join =>
      rintro parent child rfl parentLive childLive
      obtain ⟨thread, found⟩ := foundLive parent parentLive
      obtain ⟨delThread, foundChild⟩ := foundLive child childLive
      obtain ⟨rfl, _⟩ := Prod.mk.inj (Option.some.inj defined)
      refine ⟨fun kept => ?_, fun differs => ?_⟩
      · exact (Fasttrack.mem_join.mp kept).2
          ⟨rfl, (live parent).mpr parentLive, (live child).mpr childLive⟩
      · obtain ⟨merged, foundMerged, clock⟩ := Fasttrack.join_found
          (Reaches.keys_lt before ((live child).mpr childLive)) found foundChild differs
        exact ⟨thread, delThread, merged, found, foundChild, foundMerged, clock⟩
    case finish =>
      rintro tls threadId rfl kept
      obtain ⟨rfl, _⟩ := Prod.mk.inj (Option.some.inj defined)
      exact (Fasttrack.mem_finish.mp kept).2 rfl

/-- Threads are found under the tid they were forked with, all along a run, just where every tid
that is forked fits `VectorClock::TID`. -/
theorem found_under_tid_iff (reaches : Reaches layout past ft) :
    Always (FoundUnderTid layout) past ↔ Always (fun _ step => ForksFit layout step) past :=
  always_iff_always fun _ _ initial fit => foundUnderTid_iff_fits reaches initial fit

theorem found_under_tid_iff_calls :
    Always (FoundUnderTid .x86) (ran .x86 [.fork 9 1, .fork 1 65535, .write 65535 10 0x100 3,
      .join 1 65535, .finish 9 1]).1 :=
  (found_under_tid_iff (reaches_ran .x86 _)).mpr (by decide +kernel)

/-- In the 32-bit layout thread 65541 is stored as thread 5, so a fork by it copies no clock and its
end does not remove it. -/
theorem wide_tid_lost :
    let result := ran .x86 [.fork 9 65541, .fork 65541 7, .finish 9 65541]
    Reaches .x86 result.1 result.2 ∧ ¬ Always (FoundUnderTid .x86) result.1 ∧
      (result.2.threads.lookup 7).bind (fun child => child.vc.lookup 5) = none ∧
      5 ∈ result.2.threads := by
  intro result
  refine ⟨reaches_ran .x86 _, fun always => ?_, by decide +kernel, by decide +kernel⟩
  have found := always_iff_forall_index.mp always ⟨0, by decide +kernel⟩
  exact absurd (found.registered 65541 (by decide +kernel)) (by decide +kernel)

end Drace
