/-
This file says what the book of mutexes holds.

The book should hold the depth of each mutex that a thread has locked. The lock
function stores 1 and looks at the count that was there before: it counts up only
if that was more than 1, which it never is. So the book holds 1 while the mutex is
locked, to whatever depth, and the count passed to the detector is the depth that
was there before. The book is right just where no lock comes while the mutex is
held.
-/

import Drace.Analysis

namespace Drace

open Session Machine

variable {layout : Layout} {params : RuntimeConfig} {session : Session layout}
  {past front : List (ThreadStep layout)} {step : ThreadStep layout} {mutex depth : ℕ}

/-! ### What a history says -/

/-- The depth of a mutex after an event of it. -/
def ThreadEvent.depthAfter (depth : ℕ) : ThreadEvent → ℕ
  | .mutexLock .. => depth + 1
  | .mutexUnlock .. => depth - 1
  | _ => depth

/-- The locks less the unlocks of a history. -/
def depthOf (past : List (ThreadStep layout)) : ℕ :=
  past.foldl (fun depth step => step.event.depthAfter depth) 0

theorem depthOf_append : depthOf (past ++ [step]) = step.event.depthAfter (depthOf past) := by
  rw [depthOf, List.foldl_append]
  rfl

/-- A successful lock or an unlock of the mutex. -/
def ThreadEvent.ofMutex (mutex : ℕ) : ThreadEvent → Bool
  | .mutexLock (some retval) locked _ trylock =>
    decide (locked = mutex ∧ (trylock = true → retval = 0))
  | .mutexUnlock (some unlocked) _ => decide (unlocked = mutex)
  | _ => false

def ThreadEvent.isLock : ThreadEvent → Bool
  | .mutexLock .. => true
  | _ => false

def ThreadEvent.isUnlock : ThreadEvent → Bool
  | .mutexUnlock .. => true
  | _ => false

/-- The mutex is held at an unlock. -/
def Held (front : List (ThreadStep layout)) (step : ThreadStep layout) : Prop :=
  step.event.isUnlock = true → 0 < depthOf front

/-- The mutex is not held at a lock. -/
def Unheld (front : List (ThreadStep layout)) (step : ThreadStep layout) : Prop :=
  step.event.isLock = true → depthOf front = 0

instance : Decidable (Held front step) := inferInstanceAs (Decidable (_ → _))

instance : Decidable (Unheld front step) := inferInstanceAs (Decidable (_ → _))

/-- The entry of a mutex locked to a depth. -/
def entryOf (depth : ℕ) : Option ℕ := if depth = 0 then none else some depth

/-- The book holds the depth of the mutex, and the detector is told of a release. -/
def Booked (mutex : ℕ) (front : List (ThreadStep layout)) (step : ThreadStep layout) : Prop :=
  step.post.data.mutexBook.lookup mutex = entryOf (depthOf (front ++ [step])) ∧
    ∀ wrapctx write, step.event = .mutexUnlock wrapctx write → ∃ new,
      step.post.calls = step.pre.calls ++ new ++ [.release step.post.data.detectorData mutex write]

/-- The count passed to the detector is the depth. -/
def Counted (mutex : ℕ) (front : List (ThreadStep layout)) (step : ThreadStep layout) : Prop :=
  ∀ wrapctx locked write trylock, step.event = .mutexLock wrapctx locked write trylock →
    step.post.calls = step.pre.calls ++
      [.acquire step.pre.data.detectorData mutex (depthOf (front ++ [step])) write]

/-! ### Locks and unlocks -/

theorem entryOf_getD : (entryOf depth).getD 0 = depth := by
  unfold entryOf
  split
  · next zero => exact zero.symm
  · rfl

theorem ThreadEvent.cases_of_ofMutex {event : ThreadEvent} (ofMutex : event.ofMutex mutex = true) :
    (∃ retval write trylock, event = .mutexLock (some retval) mutex write trylock ∧
      (trylock = true → retval = 0)) ∨ ∃ write, event = .mutexUnlock (some mutex) write := by
  unfold ThreadEvent.ofMutex at ofMutex
  split at ofMutex
  · next retval locked write trylock =>
    obtain ⟨rfl, acquired⟩ := of_decide_eq_true ofMutex
    exact Or.inl ⟨retval, write, trylock, rfl, acquired⟩
  · next unlocked write =>
    obtain rfl := of_decide_eq_true ofMutex
    exact Or.inr ⟨write, rfl⟩
  · cases ofMutex

/-- A lock stores 1 unless the book holds more, and it passes the count that was there before, or
one more than it if that is more than 1. -/
theorem lock_spec {retval : ℕ} {trylock : Bool} (write : Bool) (tracked : ¬ session.Excluded params)
    (acquired : trylock = true → retval = 0)
    (booked : session.data.mutexBook.lookup mutex = entryOf depth) :
    let count := if 1 < depth then depth + 1 else depth
    let next := session.prepareAndAquire params (some retval) mutex write trylock
    next.data.mutexBook.lookup mutex = some (if 1 < depth then depth + 1 else 1) ∧
      next.data.tid = session.data.tid ∧
      next.calls = session.calls ++
        [.acquire session.data.detectorData mutex ((count : ℤ).bmod 0x100000000) write] := by
  have passes : ¬ (trylock = true ∧ retval ≠ 0) := fun missed => missed.2 (acquired missed.1)
  simp only [prepareAndAquire, if_neg tracked, if_neg passes, countMutex, addReplace, booked,
    entryOf_getD]
  split
  · exact ⟨AList.lookup_insert _, rfl, rfl⟩
  · exact ⟨AList.lookup_insert _, rfl, rfl⟩

theorem Session.uncountMutex_spec (session : Session layout) (mutex : ℕ) (held : 0 < depth) :
    (session.uncountMutex mutex depth).data.mutexBook.lookup mutex = entryOf (depth - 1) ∧
      (session.uncountMutex mutex depth).data.tid = session.data.tid ∧
      (session.uncountMutex mutex depth).calls = session.calls := by
  unfold uncountMutex addReplace
  split
  · next nested =>
    refine ⟨?_, rfl, rfl⟩
    rw [entryOf, if_neg (by omega)]
    exact AList.lookup_insert _
  · next outermost =>
    refine ⟨?_, rfl, rfl⟩
    rw [entryOf, if_pos (by omega)]
    exact AList.lookup_erase _ _

/-- An unlock counts down, and the detector is told of it if the mutex is in the book. -/
theorem unlock_spec (write : Bool) (tracked : ¬ session.Excluded params)
    (booked : session.data.mutexBook.lookup mutex = entryOf depth) (held : 0 < depth) :
    let next := session.prepareAndRelease params (some mutex) write
    next.data.mutexBook.lookup mutex = entryOf (depth - 1) ∧ next.data.tid = session.data.tid ∧
      ∃ new, next.calls = session.calls ++ new ++
        [.release next.data.detectorData mutex write] := by
  obtain ⟨counted, tid, calls⟩ := session.uncountMutex_spec mutex held
  have flushed : (session.uncountMutex mutex depth).Analyzed
      ((session.uncountMutex mutex depth).processBuffer params) := analyzed_processBuffer
  obtain ⟨new, added, -⟩ := flushed.calls
  simp only [prepareAndRelease, if_neg tracked, booked, entryOf_getD, if_neg held.ne']
  refine ⟨?_, flushed.tid.trans tid, new, ?_⟩
  · show (processBuffer params (session.uncountMutex mutex depth)).data.mutexBook.lookup mutex = _
    rw [flushed.mutexBook, counted]
  · rw [← calls, ← added]
    rfl

/-! ### Runs -/

/-- What a run of a tracked thread keeps whose locks find the mutex free. -/
theorem booked_of_reaches {initial : Session layout} (tracked : ¬ initial.Excluded params)
    (empty : initial.data.mutexBook.lookup mutex = none)
    (reaches : (Session.machine params (initial = ·)).Reaches past session)
    (ofMutex : ∀ step ∈ past, step.event.ofMutex mutex = true) (held : Always Held past)
    (right : Always Unheld past ∨ Always (Booked mutex) past) :
    session.data.mutexBook.lookup mutex = entryOf (depthOf past) ∧ depthOf past ≤ 1 ∧
      session.data.tid = initial.data.tid ∧ Always Unheld past ∧ Always (Booked mutex) past := by
  induction reaches with
  | start begins =>
    obtain rfl := begins
    exact ⟨empty, Nat.zero_le _, rfl, always_nil, always_nil⟩
  | @call past before next event output earlier defined inductionHypothesis =>
    obtain ⟨rfl⟩ := Prod.mk.inj (Option.some.inj defined)
    simp only [List.forall_mem_append, List.forall_mem_singleton] at ofMutex
    obtain ⟨heldBefore, heldHere⟩ := always_append.mp held
    obtain ⟨booked, shallow, tid, unheld, always⟩ := inductionHypothesis ofMutex.1 heldBefore
      (right.imp (fun all => (always_append.mp all).1) fun all => (always_append.mp all).1)
    have excluded : ¬ before.Excluded params := by
      unfold Excluded at tracked ⊢
      rwa [tid]
    have depth : depthOf (past ++ [⟨before, event, before.step params event, output⟩]) =
        event.depthAfter (depthOf past) := depthOf_append
    rw [depth]
    rcases event.cases_of_ofMutex ofMutex.2 with ⟨retval, write, trylock, rfl, acquired⟩ |
      ⟨write, rfl⟩
    · obtain ⟨entry, sameTid, -⟩ := lock_spec write excluded acquired booked
      rw [if_neg (by omega)] at entry
      have free : depthOf past = 0 := by
        rcases right with all | all
        · exact (always_append.mp all).2 rfl
        · -- the book holds 1, and the depth is one more than before
          have holds := (always_append.mp all).2.1
          rw [depth] at holds
          have counts := entry.symm.trans holds
          simpa [entryOf, ThreadEvent.depthAfter] using counts
      have one : ThreadEvent.depthAfter (depthOf past)
          (.mutexLock (some retval) mutex write trylock) = 1 :=
        congrArg Nat.succ free
      rw [one]
      refine ⟨entry, le_rfl, sameTid.trans tid, always_append.mpr ⟨unheld, fun _ => free⟩,
        always_append.mpr ⟨always, ?_, fun _ _ other => by cases other⟩⟩
      rw [depth, one]
      exact entry
    · obtain ⟨entry, sameTid, new, calls⟩ := unlock_spec write excluded booked (heldHere rfl)
      refine ⟨entry, (Nat.sub_le _ _).trans shallow, sameTid.trans tid,
        always_append.mpr ⟨unheld, fun locks => by cases locks⟩,
        always_append.mpr ⟨always, ?_, fun wrapctx write same => ?_⟩⟩
      · rw [depth]
        exact entry
      · obtain ⟨rfl, rfl⟩ := ThreadEvent.mutexUnlock.inj same
        exact ⟨new, calls⟩

/-- The detector is not told of the depth at the first lock of a thread: it is told 0 if the thread
is tracked, and nothing if it is not. -/
theorem first_lock_miscounted {initial : Session layout} {event : ThreadEvent}
    (empty : initial.data.mutexBook.lookup mutex = none) (ofMutex : event.ofMutex mutex = true)
    (held : Held [] ⟨initial, event, initial.step params event, ()⟩) :
    ¬ Counted mutex [] ⟨initial, event, initial.step params event, ()⟩ := by
  intro counted
  rcases event.cases_of_ofMutex ofMutex with ⟨retval, write, trylock, rfl, acquired⟩ | ⟨write, rfl⟩
  · have told : (initial.prepareAndAquire params (some retval) mutex write trylock).calls =
        initial.calls ++ [.acquire initial.data.detectorData mutex 1 write] := counted _ _ _ _ rfl
    by_cases excluded : initial.Excluded params
    · simp [prepareAndAquire, if_pos excluded] at told
    · have free : initial.data.mutexBook.lookup mutex = entryOf 0 := empty
      obtain ⟨-, -, calls⟩ := lock_spec write excluded acquired free
      rw [told] at calls
      simp at calls
  · exact absurd (held rfl) (lt_irrefl 0)

/-- The book-keeping of a mutex is never right once there is an event: the count is wrong at the
first lock. Apart from the count, it is right on a tracked thread just where no lock comes while the
mutex is held. -/
theorem mutex_book_right_iff {initial : Session layout}
    (empty : initial.data.mutexBook.lookup mutex = none)
    (reaches : (Session.machine params (initial = ·)).Reaches past session)
    (ofMutex : ∀ step ∈ past, step.event.ofMutex mutex = true) (held : Always Held past) :
    (Always (fun front step => Booked mutex front step ∧ Counted mutex front step) past ↔
      past = []) ∧
      (¬ initial.Excluded params → (Always (Booked mutex) past ↔ Always Unheld past)) := by
  refine ⟨⟨fun right => ?_, ?_⟩, fun tracked => ⟨fun right => ?_, fun right => ?_⟩⟩
  · by_contra nonempty
    obtain ⟨first, rest, rfl⟩ := List.exists_cons_of_ne_nil nonempty
    have initially : [] ++ [first] <+: first :: rest := ⟨rest, rfl⟩
    obtain ⟨begins, defined⟩ := reaches.step initially
    obtain ⟨pre, event, post, output⟩ := first
    obtain rfl : initial = pre := begins.start_of_nil
    have stepped : initial.step params event = post := congrArg Prod.fst (Option.some.inj defined)
    subst stepped
    exact first_lock_miscounted empty (ofMutex _ (List.mem_cons_self ..)) (held _ _ initially)
      (right _ _ initially).2
  · rintro rfl
    exact always_nil
  · exact (booked_of_reaches tracked empty reaches ofMutex held (Or.inr right)).2.2.2.1
  · exact (booked_of_reaches tracked empty reaches ofMutex held (Or.inl right)).2.2.2.2

/-- A mutex is locked again while it is held. -/
def locksTwice : List ThreadEvent :=
  [.mutexLock (some 0) 64 true false, .mutexLock (some 0) 64 true false,
    .mutexUnlock (some 64) true, .mutexUnlock (some 64) true]

theorem mutex_book_right_iff_locks_twice :
    let past := (Session.ran plain (started plain {} 2) locksTwice).1
    (Always (fun front step => Booked 64 front step ∧ Counted 64 front step) past ↔ past = []) ∧
      (¬ (started plain {} 2).Excluded plain → (Always (Booked 64) past ↔ Always Unheld past)) :=
  mutex_book_right_iff rfl (Session.reaches_ran rfl locksTwice) (by decide) (by decide)

/-- The book holds 1 after the second lock, so the last unlock finds no entry and releases nothing.
-/
theorem outermost_unlock_unreleased :
    ¬ ∀ (layout : Layout) (params : RuntimeConfig) (initial session : Session layout)
      (past : List (ThreadStep layout)) (mutex : ℕ), initial.data.mutexBook.lookup mutex = none →
        ¬ initial.Excluded params → (Session.machine params (initial = ·)).Reaches past session →
          (∀ step ∈ past, step.event.ofMutex mutex = true) → Always Held past →
            Always (fun front step => Booked mutex front step ∧ Counted mutex front step) past := by
  intro always
  let past := (Session.ran plain (started plain {} 2) locksTwice).1
  have right := always .x64 plain _ _ past 64 rfl (by decide) (Session.reaches_ran rfl locksTwice)
    (by decide) (by decide)
  have last : past.take 3 ++ [past.get ⟨3, by decide⟩] <+: past := ⟨[], rfl⟩
  obtain ⟨new, released⟩ := (right _ _ last).1.2 _ _ rfl
  have lengths := congrArg List.length released
  rw [List.length_append, List.length_append] at lengths
  have unreleased : (past.get ⟨3, by decide⟩).post.calls.length =
      (past.get ⟨3, by decide⟩).pre.calls.length := by
    decide
  rw [List.length_singleton] at lengths
  omega

end Drace
