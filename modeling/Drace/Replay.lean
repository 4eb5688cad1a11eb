/-
This file says when a replayed trace is the recorded one.

The decoder mirrors the threads: it has a cell just for the threads that are alive,
and the cell holds the handle of the latest fork. All calls keep this but one. A
finishing thread gives up the cell of thread 0, whatever its own id is, and so leaves
a stale handle behind. Besides, the thread id a detach or finish comes with is
not written down, and a call without an entry kind is lost.
-/

import Mathlib
import Drace.DetectorOutput

namespace Drace

open DetectorOutput

variable {layout : Layout} {handle : List Event → ℕ} {calls front : List Event} {event call : Event}
  {tid : ℕ}

/-! ### Sequences of calls -/

/-- A condition on a call and the calls before it holds all along a sequence. -/
def Along (condition : List Event → Event → Prop) (calls : List Event) : Prop :=
  ∀ front event, front ++ [event] <+: calls → condition front event

instance {condition : List Event → Event → Prop}
    [∀ front event, Decidable (condition front event)] :
    Decidable (Along condition calls) :=
  decidable_of_iff _ Machine.forall_initial_iff_forall_index.symm

namespace Event

/-- The thread whose life a call ends. -/
def ends? : Event → Option ℕ
  | .join _ child => some child
  | .finish _ threadId => some threadId
  | _ => none

/-- The live threads after a call. -/
def aliveAfter (alive : Finset ℕ) : Event → Finset ℕ
  | .fork _ child => insert child alive
  | .join _ child => alive.erase child
  | .finish _ threadId => alive.erase threadId
  | _ => alive

/-- A call that can be read back from the trace: it has an entry kind, a thread detaches or
finishes itself, and only thread 0 finishes. -/
def ReadBack : Event → Prop
  | .detach tls threadId => threadId = tls
  | .finish tls threadId => tls = 0 ∧ threadId = 0
  | .mapShadow .. | .finalize => False
  | _ => True

end Event

/-- The threads that have been forked, and neither joined nor finished since. -/
def alive (calls : List Event) : Finset ℕ :=
  calls.foldl (fun alive call => call.aliveAfter alive) ∅

theorem alive_append : alive (calls ++ [call]) = call.aliveAfter (alive calls) := by
  rw [alive, List.foldl_append]
  rfl

/-- What a recording detector is promised of a call: the arguments fit their types, the handle is
that of a live thread, and a thread is forked once in a life. The calls are those before
`finalize`. -/
structure Legal (layout : Layout) (front : List Event) (event : Event) : Prop where
  fits : event.InRange layout
  started : ∀ tls ∈ event.tls?, ∃ tid ∈ alive front, tls = TraceBinary.tls tid
  fresh : ∀ child ∈ event.forks?, child ∉ alive front
  running : event ≠ .finalize

instance : Decidable (event.InRange layout) :=
  decidable_of_iff ((∀ tid ∈ event.tids, tid < 2 ^ 32) ∧
    (∀ word ∈ event.words, word < layout.sizeRange) ∧
    ∀ recursive ∈ event.recursive?, -2 ^ 31 ≤ recursive ∧ recursive < 2 ^ 31)
    ⟨fun all => ⟨all.1, all.2.1, all.2.2⟩, fun fits => ⟨fits.tids, fits.words, fits.recursive⟩⟩

instance : Decidable (Legal layout front event) :=
  decidable_of_iff (event.InRange layout ∧
    (∀ tls ∈ event.tls?, ∃ tid ∈ alive front, tls = TraceBinary.tls tid) ∧
    (∀ child ∈ event.forks?, child ∉ alive front) ∧ event ≠ .finalize)
    ⟨fun all => ⟨all.1, all.2.1, all.2.2.1, all.2.2.2⟩,
      fun legal => ⟨legal.fits, legal.started, legal.fresh, legal.running⟩⟩

/-- The recording detector hands out thread ids, so a handle names a live thread. -/
theorem Legal.alive_of_tls (legal : Legal layout front event) {tls : ℕ}
    (calling : event.tls? = some tls) : tls ∈ alive front := by
  obtain ⟨tid, member, rfl⟩ := legal.started tls calling
  exact member

/-! ### What the replayed detector should see -/

/-- The handle a detector returned from the most recent fork of a thread. -/
def latest (handle : List Event → ℕ) (calls : List Event) (tid : ℕ) : Option ℕ :=
  (calls.inits.filter fun front => front.getLast?.bind Event.forks? = some tid).getLast?.map handle

/-- The call that replays a recorded one: the handle is the latest one of the thread. -/
def expected (handle : List Event → ℕ) (calls : List Event) (event : Event) : Option Event :=
  match event.tls? with
  | some tls => (latest handle calls tls).map fun current => event.withTls current
  | none => some event

/-- A call is replayed: the replayed detector sees the same call with its own handle, and the thread
whose life the call ends, if it does, loses its cell. -/
structure Replayed (handle : List Event → ℕ) (before after : DetectorOutput)
    (event : Event) : Prop where
  calls : ∃ call ∈ expected handle before.calls event, after.calls = before.calls ++ [call]
  gone : ∀ tid ∈ event.ends?, after.tls.lookup tid = none ∧
    ∀ other, other ≠ tid → after.tls.lookup other = before.tls.lookup other

/-- A recorded call is replayed after those before it. -/
def Faithful (handle : List Event → ℕ) (layout : Layout) (front : List Event)
    (event : Event) : Prop :=
  ∃ before ∈ replay handle layout front, ∃ after ∈ replay handle layout (front ++ [event]),
    Replayed handle before after event

theorem expected_of_tls {tls : ℕ} (calling : event.tls? = some tls) :
    expected handle calls event = (latest handle calls tls).map fun current =>
      event.withTls current := by
  rw [expected, calling]

theorem latest_append : latest handle (calls ++ [call]) tid =
    if call.forks? = some tid then some (handle (calls ++ [call]))
      else latest handle calls tid := by
  have prefixes : (calls ++ [call]).inits = calls.inits ++ [calls ++ [call]] := by
    simp [List.inits_append]
  have last : (calls ++ [call]).getLast?.bind Event.forks? = call.forks? := by simp
  rw [latest, prefixes, List.filter_append, latest]
  split
  · next forks => rw [List.filter_cons_of_pos (by rw [last, forks]; exact decide_eq_true rfl)]; simp
  · next other =>
    rw [List.filter_cons_of_neg (by rw [last]; simpa using other), List.filter_nil, List.append_nil]

theorem latest_append_of_forks_none (none : call.forks? = none) :
    latest handle (calls ++ [call]) tid = latest handle calls tid := by
  rw [latest_append, none, if_neg (by simp)]

/-! ### The cells of the decoder -/

/-- The decoder has a cell for the live threads only, with the handle of the latest fork. -/
structure Mirrors (handle : List Event → ℕ) (front : List Event)
    (output : DetectorOutput) : Prop where
  cells : ∀ tid ∈ alive front, ∃ current,
    latest handle output.calls tid = some current ∧ output.tls.lookup tid = some current
  others : ∀ tid, tid ∉ alive front → output.tls.lookup tid = none

variable {output after : DetectorOutput}

theorem mirrors_nil : Mirrors handle [] {} where
  cells tid member := absurd member (Finset.notMem_empty tid)
  others _ _ := rfl

/-- A call for a live thread goes out with the latest handle. -/
theorem Mirrors.call_eq (mirrors : Mirrors handle front output) (lives : tid ∈ alive front) :
    ∃ current, latest handle output.calls tid = some current ∧ ∀ method,
      output.call tid method = some { output with calls := output.calls ++ [method current] } := by
  obtain ⟨current, known, cell⟩ := mirrors.cells tid lives
  exact ⟨current, known, fun method => by rw [DetectorOutput.call, cell]; rfl⟩

/-- A call that neither begins nor ends a life. -/
theorem Mirrors.called (mirrors : Mirrors handle front output)
    (same : event.aliveAfter (alive front) = alive front) (none : call.forks? = none) :
    Mirrors handle (front ++ [event]) { output with calls := output.calls ++ [call] } where
  cells tid lives := by
    rw [alive_append, same] at lives
    rw [latest_append_of_forks_none none]
    exact mirrors.cells tid lives
  others tid dead := by
    rw [alive_append, same] at dead
    exact mirrors.others tid dead

/-- A call that ends a life takes the cell of the thread away. -/
theorem Mirrors.erased (mirrors : Mirrors handle front output)
    (ends : event.aliveAfter (alive front) = (alive front).erase tid) (none : call.forks? = none) :
    Mirrors handle (front ++ [event])
      { tls := output.tls.erase tid, calls := output.calls ++ [call] } where
  cells other lives := by
    rw [alive_append, ends, Finset.mem_erase] at lives
    rw [latest_append_of_forks_none none, AList.lookup_erase_ne lives.1]
    exact mirrors.cells other lives.2
  others other dead := by
    rw [alive_append, ends, Finset.mem_erase, not_and] at dead
    rw [AList.lookup_erase_eq_ite]
    split
    · rfl
    · next differs => exact mirrors.others other (dead differs)

/-- A fork gives the new thread a cell with its handle. -/
theorem Mirrors.fork {parent child : ℕ} (mirrors : Mirrors handle front output)
    (fresh : child ∉ alive front) :
    Mirrors handle (front ++ [.fork parent child]) (output.fork handle child parent) := by
  have absent : child ∉ output.tls := AList.lookup_eq_none.mp (mirrors.others child fresh)
  have entered : (output.fork handle child parent).tls =
      output.tls.insert child (handle (output.calls ++ [.fork parent child])) := if_neg absent
  have written : (output.fork handle child parent).calls = output.calls ++
      [.fork parent child] := rfl
  have lives : alive (front ++ [.fork parent child]) = insert child (alive front) := alive_append
  constructor
  · intro tid member
    rw [entered, written, AList.lookup_insert_eq_ite, latest_append]
    by_cases same : tid = child
    · rw [if_pos same, if_pos (by rw [same]; rfl)]
      exact ⟨_, rfl, rfl⟩
    · have other : (Event.fork parent child).forks? ≠ some tid :=
        fun forked => same (Option.some.inj forked).symm
      rw [lives, Finset.mem_insert] at member
      rw [if_neg same, if_neg other]
      exact mirrors.cells tid (member.resolve_left same)
  · intro tid dead
    rw [lives, Finset.mem_insert, not_or] at dead
    rw [entered, AList.lookup_insert_ne dead.1]
    exact mirrors.others tid dead.2

/-! ### One call -/

/-- A call of a live thread that ends no life goes through with the latest handle. -/
theorem Mirrors.replayed_call {tls : ℕ} (mirrors : Mirrors handle front output)
    (calling : event.tls? = some tls) (lives : tls ∈ alive front) (endless : event.ends? = none)
    (same : event.aliveAfter (alive front) = alive front)
    (followed : output.follow handle event = output.call tls fun current => event.withTls current)
    (none : ∀ current, (event.withTls current).forks? = none) :
    ∃ after ∈ output.follow handle event, Replayed handle output after event ∧
      Mirrors handle (front ++ [event]) after := by
  obtain ⟨current, known, goes⟩ := mirrors.call_eq lives
  refine ⟨_, followed.trans (goes _), ⟨⟨event.withTls current, ?_, rfl⟩, ?_⟩,
    mirrors.called same (none current)⟩
  · rw [expected_of_tls calling, known]
    rfl
  · rw [endless]
    intro tid ends
    cases ends

/-- Every legal call that can be read back is replayed. -/
theorem Mirrors.replayed (mirrors : Mirrors handle front output) (legal : Legal layout front event)
    (readBack : event.ReadBack) :
    ∃ after ∈ output.follow handle event, Replayed handle output after event ∧
      Mirrors handle (front ++ [event]) after := by
  cases event with
  | fork parent child =>
    have fresh := legal.fresh child rfl
    exact ⟨_, rfl, ⟨⟨.fork parent child, rfl, rfl⟩, fun _ ends => by cases ends⟩,
      mirrors.fork fresh⟩
  | join parent child =>
    refine ⟨_, rfl, ⟨⟨.join parent child, rfl, rfl⟩, ?_⟩, mirrors.erased rfl rfl⟩
    intro tid ends
    obtain rfl := Option.some.inj ends
    exact ⟨AList.lookup_erase _ _, fun other differs => AList.lookup_erase_ne differs⟩
  | detach tls threadId =>
    obtain rfl : threadId = tls := readBack
    exact mirrors.replayed_call rfl (legal.alive_of_tls rfl) rfl rfl rfl fun _ => rfl
  | finish tls threadId =>
    obtain ⟨rfl, rfl⟩ : tls = 0 ∧ threadId = 0 := readBack
    obtain ⟨current, known, goes⟩ := mirrors.call_eq (legal.alive_of_tls rfl)
    refine ⟨{ tls := output.tls.erase 0, calls := output.calls ++ [.finish current 0] }, ?_,
      ⟨⟨.finish current 0, ?_, rfl⟩, ?_⟩, mirrors.erased rfl rfl⟩
    · rw [follow, goes]
      rfl
    · rw [expected_of_tls rfl, known]
      rfl
    · intro tid ends
      obtain rfl := Option.some.inj ends
      exact ⟨AList.lookup_erase _ _, fun other differs => AList.lookup_erase_ne differs⟩
  | mapShadow startaddr sizeInBytes => exact readBack.elim
  | finalize => exact readBack.elim
  | _ => exact mirrors.replayed_call rfl (legal.alive_of_tls rfl) rfl rfl rfl fun _ => rfl

/-- A replayed call can be read back. -/
theorem Mirrors.readBack_of_replayed (mirrors : Mirrors handle front output)
    (legal : Legal layout front event) (followed : after ∈ output.follow handle event)
    (replayed : Replayed handle output after event) : event.ReadBack := by
  obtain ⟨seen, expects, appended⟩ := replayed.calls
  cases event with
  | detach tls threadId =>
    obtain ⟨current, known, goes⟩ := mirrors.call_eq (legal.alive_of_tls rfl)
    rw [expected_of_tls rfl, known] at expects
    obtain rfl := Option.some.inj expects
    obtain rfl := Option.some.inj (followed.symm.trans (goes _))
    exact (Event.detach.inj (List.singleton_inj.mp (List.append_cancel_left appended))).2.symm
  | finish tls threadId =>
    obtain ⟨current, known, goes⟩ := mirrors.call_eq (legal.alive_of_tls rfl)
    rw [expected_of_tls rfl, known] at expects
    obtain rfl := Option.some.inj expects
    rw [follow, goes, Option.map_some] at followed
    obtain rfl := Option.some.inj followed
    obtain ⟨-, rfl⟩ := Event.finish.inj (List.singleton_inj.mp (List.append_cancel_left appended))
    have gone := (replayed.gone tls rfl).1
    -- the cell that is given up is the one of thread 0
    obtain ⟨_, _, cell⟩ := mirrors.cells tls (legal.alive_of_tls rfl)
    by_contra other
    have differs : tls ≠ 0 := fun zero => other ⟨zero, zero⟩
    rw [AList.lookup_erase_ne differs, cell] at gone
    cases gone
  | mapShadow startaddr sizeInBytes =>
    obtain rfl := Option.some.inj followed
    simp at appended
  | finalize => exact absurd rfl legal.running
  | _ => trivial

/-! ### Whole traces -/

/-- One legal call more is recorded and decoded without a trace of the bytes in between. -/
theorem replay_append_of_legal (reached : output ∈ replay handle layout front)
    (legal : Legal layout front event) :
    replay handle layout (front ++ [event]) = output.follow handle event := by
  rw [replay_append, reached, Option.bind_some, step_eq_follow legal.fits]

/-- What is replayed so far mirrors the threads, if the calls can be read back or are replayed. -/
theorem mirrors_of_initial (legal : Along (Legal layout) calls)
    (right : (∀ event ∈ calls, event.ReadBack) ∨ Along (Faithful handle layout) calls)
    (front : List Event) (initial : front <+: calls) :
    (∃ output ∈ replay handle layout front, Mirrors handle front output) ∧
      ∀ event ∈ front, event.ReadBack := by
  induction front using List.reverseRecOn with
  | nil => exact ⟨⟨{}, rfl, mirrors_nil⟩, fun event member => absurd member List.not_mem_nil⟩
  | append_singleton front event inductionHypothesis =>
    obtain ⟨⟨output, reached, mirrors⟩, earlier⟩ :=
      inductionHypothesis ((List.prefix_append _ _).trans initial)
    have here := legal front event initial
    have next : replay handle layout (front ++ [event]) = output.follow handle event :=
      replay_append_of_legal reached here
    have readBack : event.ReadBack := by
      rcases right with all | all
      · exact all event (initial.subset (List.mem_append_right _ (List.mem_singleton_self _)))
      · obtain ⟨before, reachedToo, after, followed, replayed⟩ := all front event initial
        obtain rfl := Option.some.inj (reached.symm.trans reachedToo)
        exact mirrors.readBack_of_replayed here (next ▸ followed) replayed
    obtain ⟨after, followed, -, mirrored⟩ := mirrors.replayed here readBack
    refine ⟨⟨after, next.trans followed, mirrored⟩, fun other member => ?_⟩
    rcases List.mem_append.mp member with old | new
    · exact earlier other old
    · rwa [List.mem_singleton.mp new]

/-- A legal sequence of calls is replayed call by call just if each of them can be read back. -/
theorem replay_faithful_iff (legal : Along (Legal layout) calls) :
    Along (Faithful handle layout) calls ↔ ∀ event ∈ calls, event.ReadBack := by
  constructor
  · intro faithful
    exact (mirrors_of_initial legal (Or.inr faithful) calls List.prefix_rfl).2
  · intro readBack front event initial
    have right : (∀ event ∈ calls, event.ReadBack) ∨ Along (Faithful handle layout) calls :=
      Or.inl readBack
    obtain ⟨⟨output, reached, mirrors⟩, -⟩ :=
      mirrors_of_initial legal right front ((List.prefix_append _ _).trans initial)
    have here := legal front event initial
    have readable := readBack event
      (initial.subset (List.mem_append_right _ (List.mem_singleton_self _)))
    obtain ⟨after, followed, replayed, -⟩ := mirrors.replayed here readable
    exact ⟨output, reached, after, (replay_append_of_legal reached here).trans followed, replayed⟩

/-- Two threads work under a mutex, one is joined, and its id is forked again. -/
def forkedAgain : List Event :=
  [.fork 0 0, .fork 0 1, .acquire 1 64 (-1) true, .write 1 16 8 3, .release 1 64 true, .join 0 1,
    .fork 0 1, .read 1 16 8 3, .finish 0 0]

theorem replay_faithful_iff_forkedAgain :
    Along (Faithful List.length .x64) forkedAgain ↔ ∀ event ∈ forkedAgain, event.ReadBack :=
  replay_faithful_iff (by decide +kernel)

/-- A thread that finishes and whose id is forked again goes on with the handle of its first life.
-/
theorem finished_thread_keeps_handle :
    ¬ ∀ (layout : Layout) (handle : List Event → ℕ) (calls : List Event),
      Along (Legal layout) calls → Along (Faithful handle layout) calls := by
  intro always
  let front : List Event := [.fork 0 1, .finish 1 1, .fork 0 1]
  have faithful := always .x64 List.length (front ++ [.read 1 16 8 3]) (by decide +kernel)
  obtain ⟨before, reached, after, followed, replayed⟩ :=
    faithful front (.read 1 16 8 3) List.prefix_rfl
  obtain ⟨call, expects, appended⟩ := replayed.calls
  have first : (replay List.length .x64 front).map DetectorOutput.calls =
      some [.fork 0 1, .finish 1 1, .fork 0 1] := by decide +kernel
  have second : (replay List.length .x64 (front ++ [.read 1 16 8 3])).map DetectorOutput.calls =
      some [.fork 0 1, .finish 1 1, .fork 0 1, .read 1 16 8 3] := by decide +kernel
  have latestHandle : expected List.length [.fork 0 1, .finish 1 1, .fork 0 1] (.read 1 16 8 3) =
      some (.read 3 16 8 3) := by decide +kernel
  rw [reached] at first
  rw [followed] at second
  rw [Option.some.inj first] at expects appended
  obtain rfl := Option.some.inj (latestHandle.symm.trans expects)
  rw [Option.some.inj second] at appended
  exact absurd appended (by decide)

end Drace
