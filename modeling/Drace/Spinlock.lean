/-
This file models the spinlock and says that it is a mutex.

Threads share one flag. A try to lock is two accesses, first a load and then an
exchange, and between them any other thread may get the lock. `lock` tries until it
succeeds. Each access to the flag is a step of its own, so a run is an interleaving
of the accesses of all threads.
-/

import Drace.Linearization

namespace Drace

open Machine

/-- Where a thread is with the lock. A try belongs to `try_lock`, which makes only one, or to
`lock`. -/
inductive LockPlace
  | outside
  | loading (once : Bool)
  | exchanging (once : Bool)
  | inside
  deriving DecidableEq

/-- The flag of the lock, and where the threads are. -/
structure Spinlock where
  locked : Bool := false
  places : ℕ → LockPlace := fun _ => .outside

/-- A thread calls a function of the lock, or makes the next access of the one it has called. -/
inductive LockEvent
  | lock (thread : ℕ)
  | tryLock (thread : ℕ)
  | access (thread : ℕ)
  | unlock (thread : ℕ)
  deriving DecidableEq

namespace Spinlock

/-- A thread goes somewhere. -/
def go (lock : Spinlock) (thread : ℕ) (place : LockPlace) : Spinlock :=
  { lock with places := Function.update lock.places thread place }

/-- The next access of a thread, and what the function returns if it was the last one. -/
def access (lock : Spinlock) (thread : ℕ) : Option (Spinlock × Option Bool) :=
  match lock.places thread with
  | .loading once =>
    if lock.locked then
      if once then some (lock.go thread .outside, some false)
      -- spin
      else some (lock, none)
    else some (lock.go thread (.exchanging once), none)
  | .exchanging once =>
    let stored := { lock with locked := true }
    -- the result of the exchange tells if the value did change
    if lock.locked then
      if once then some (stored.go thread .outside, some false)
      else some (stored.go thread (.loading once), none)
    else some (stored.go thread .inside, some true)
  | _ => none

/-- One event of a thread. Who holds the lock does not call `lock`, and only who holds it calls
`unlock`. -/
def call (lock : Spinlock) : LockEvent → Option (Spinlock × Option Bool)
  | .lock thread =>
    if lock.places thread = .outside then some (lock.go thread (.loading false), none) else none
  | .tryLock thread =>
    if lock.places thread = .outside then some (lock.go thread (.loading true), none) else none
  | .access thread => lock.access thread
  | .unlock thread =>
    if lock.places thread = .inside then
      some ({ lock with locked := false }.go thread .outside, none)
    else none

/-- The lock as a machine. It starts free, and nobody has called it. -/
def machine : Machine Spinlock LockEvent (Option Bool) where
  start lock := lock = {}
  call := call

/-- The functions of the lock. -/
inductive LockCall
  | lock
  | tryLock
  | unlock
  deriving DecidableEq

/-- The function whose accesses a thread makes. -/
def LockCall.ofOnce (once : Bool) : LockCall := if once then .tryLock else .lock

/-- How far a thread is with its call. -/
def locate (lock : Spinlock) (thread : ℕ) : Phase LockCall Bool :=
  match lock.places thread with
  | .loading once | .exchanging once => .called (.ofOnce once)
  | _ => .idle

/-- A function takes effect with the access that makes it return. -/
def view : View Spinlock LockEvent (Option Bool) ℕ LockCall Bool where
  actor step := match step.event with
    | .lock thread | .tryLock thread | .access thread | .unlock thread => thread
  moments step := match step.event with
    | .lock _ => [.calls .lock]
    | .tryLock _ => [.calls .tryLock]
    | .access thread => match step.output, step.pre.places thread with
      | some result, .loading once | some result, .exchanging once =>
        [.acts (.ofOnce once) result, .returns result]
      | _, _ => []
    | .unlock _ => [.calls .unlock, .acts .unlock true, .returns true]

/-- A mutex: `lock` waits until nobody holds it, `try_lock` says whether somebody does. -/
def mutex : Machine (Option ℕ) (ℕ × LockCall) Bool where
  start holder := holder = none
  call holder call := match call.2 with
    | .lock => if holder = none then some (some call.1, true) else none
    | .tryLock => some (if holder = none then (some call.1, true) else (holder, false))
    | .unlock => if holder = some call.1 then some (none, true) else none

/-- The flag is set while somebody holds the mutex, and the holder is the one inside. -/
structure Held (lock : Spinlock) (holder : Option ℕ) : Prop where
  locked : lock.locked = holder.isSome
  inside : ∀ thread, lock.places thread = .inside ↔ holder = some thread

variable {lock next : Spinlock} {holder : Option ℕ} {thread other : ℕ} {place : LockPlace}

@[simp]
theorem places_go_self : (lock.go thread place).places thread = place :=
  Function.update_self _ _ _

theorem places_go_of_ne (differs : other ≠ thread) :
    (lock.go thread place).places other = lock.places other :=
  Function.update_of_ne differs _ _

theorem locate_go_of_ne (differs : other ≠ thread) :
    (lock.go thread place).locate other = lock.locate other := by
  unfold locate
  rw [places_go_of_ne differs]

namespace Held

/-- A thread goes somewhere, and is inside just if it holds the mutex. -/
theorem go (held : Held lock holder) (fits : place = .inside ↔ holder = some thread) :
    Held (lock.go thread place) holder := by
  refine ⟨held.locked, fun other => ?_⟩
  by_cases same : other = thread
  · subst same
    rw [places_go_self]
    exact fits
  · rw [places_go_of_ne same]
    exact held.inside other

/-- Storing what the flag already is changes nothing. -/
theorem store (held : Held lock holder) (locked : lock.locked = true) :
    Held { lock with locked := true } holder :=
  ⟨locked.symm.trans held.locked, held.inside⟩

/-- Somebody gets the free lock. -/
theorem enter (held : Held lock none) :
    Held ({ lock with locked := true }.go thread .inside) (some thread) := by
  refine ⟨rfl, fun other => ?_⟩
  by_cases same : other = thread
  · subst same
    exact iff_of_true places_go_self rfl
  · rw [places_go_of_ne same]
    refine iff_of_false (fun inside => ?_) fun taken => same (Option.some.inj taken).symm
    cases (held.inside other).mp inside

/-- The holder leaves. -/
theorem leave (held : Held lock (some thread)) :
    Held ({ lock with locked := false }.go thread .outside) none := by
  refine ⟨rfl, fun other => iff_of_false (fun inside => ?_) (by simp)⟩
  by_cases same : other = thread
  · subst same
    rw [places_go_self] at inside
    cases inside
  · rw [places_go_of_ne same] at inside
    exact same (Option.some.inj ((held.inside other).mp inside)).symm

/-- A free flag means that nobody holds the mutex. -/
theorem free (held : Held lock holder) (unlocked : ¬ lock.locked = true) : holder = none := by
  rw [held.locked] at unlocked
  exact Option.not_isSome_iff_eq_none.mp unlocked

/-- A set flag means that somebody holds the mutex. -/
theorem taken (held : Held lock holder) (locked : lock.locked = true) : holder ≠ none := by
  rw [held.locked] at locked
  exact Option.isSome_iff_ne_none.mp locked

end Held

/-- What an access of a thread does: it goes on, it fails while somebody holds the mutex, or it gets
the mutex nobody holds. -/
theorem access_cases {output : Option Bool} (held : Held lock holder)
    (defined : lock.access thread = some (next, output)) :
    (∀ other ≠ thread, next.places other = lock.places other) ∧ ∃ once,
      (lock.places thread = .loading once ∨ lock.places thread = .exchanging once) ∧
        (output = none ∧ Held next holder ∧
            (next.places thread = .loading once ∨ next.places thread = .exchanging once) ∨
          output = some false ∧ once = true ∧ holder ≠ none ∧ Held next holder ∧
            next.places thread = .outside ∨
          output = some true ∧ holder = none ∧ Held next (some thread) ∧
            next.places thread = .inside) := by
  have outward : ∀ {place : LockPlace}, lock.places thread ≠ .inside → place ≠ .inside →
      (place = .inside ↔ holder = some thread) := fun out away =>
    iff_of_false away (mt (held.inside thread).mpr out)
  unfold access at defined
  split at defined
  · next once loads =>
    have out : lock.places thread ≠ .inside := by rw [loads]; exact LockPlace.noConfusion
    split at defined
    · next locked =>
      split at defined
      · next single =>
        obtain ⟨rfl, rfl⟩ := Prod.mk.inj (Option.some.inj defined)
        exact ⟨fun other => places_go_of_ne, once, Or.inl loads, Or.inr (Or.inl
          ⟨rfl, single, held.taken locked, held.go (outward out (by simp)), places_go_self⟩)⟩
      · obtain ⟨rfl, rfl⟩ := Prod.mk.inj (Option.some.inj defined)
        exact ⟨fun other _ => rfl, once, Or.inl loads, Or.inl ⟨rfl, held, Or.inl loads⟩⟩
    · obtain ⟨rfl, rfl⟩ := Prod.mk.inj (Option.some.inj defined)
      exact ⟨fun other => places_go_of_ne, once, Or.inl loads, Or.inl
        ⟨rfl, held.go (outward out (by simp)), Or.inr places_go_self⟩⟩
  · next once exchanges =>
    have out : lock.places thread ≠ .inside := by rw [exchanges]; exact LockPlace.noConfusion
    simp only at defined
    split at defined
    · next locked =>
      have stored := held.store locked
      split at defined
      · next single =>
        obtain ⟨rfl, rfl⟩ := Prod.mk.inj (Option.some.inj defined)
        exact ⟨fun other => places_go_of_ne, once, Or.inr exchanges, Or.inr (Or.inl
          ⟨rfl, single, held.taken locked, stored.go (outward out (by simp)), places_go_self⟩)⟩
      · obtain ⟨rfl, rfl⟩ := Prod.mk.inj (Option.some.inj defined)
        exact ⟨fun other => places_go_of_ne, once, Or.inr exchanges, Or.inl
          ⟨rfl, stored.go (outward out (by simp)), Or.inl places_go_self⟩⟩
    · next unlocked =>
      obtain ⟨rfl, rfl⟩ := Prod.mk.inj (Option.some.inj defined)
      obtain rfl := held.free unlocked
      exact ⟨fun other => places_go_of_ne, once, Or.inr exchanges, Or.inr (Or.inr
        ⟨rfl, rfl, held.enter, places_go_self⟩)⟩
  · cases defined

theorem locate_of_trying {once : Bool}
    (tries : lock.places thread = .loading once ∨ lock.places thread = .exchanging once) :
    lock.locate thread = .called (.ofOnce once) := by
  unfold locate
  rcases tries with place | place <;> rw [place]

theorem locate_eq_idle (rests : lock.places thread = .outside ∨ lock.places thread = .inside) :
    lock.locate thread = .idle := by
  unfold locate
  rcases rests with place | place <;> rw [place]

/-- The moments of an access that returns. -/
theorem moments_access {once result : Bool}
    (tries : lock.places thread = .loading once ∨ lock.places thread = .exchanging once) :
    view.moments ⟨lock, .access thread, next, some result⟩ =
      [.acts (.ofOnce once) result, .returns result] := by
  rcases tries with place | place <;> simp only [view, place]

theorem passes_access {once result : Bool} (rests : next.locate thread = .idle)
    (tries : lock.places thread = .loading once ∨ lock.places thread = .exchanging once) :
    (lock.locate thread).Passes (view.moments ⟨lock, .access thread, next, some result⟩)
      (next.locate thread) := by
  rw [moments_access tries, locate_of_trying tries, rests]
  exact .cons .acts (.single .returns)

/-- Calling a function leads into its first access. -/
theorem passes_calls (once : Bool) (outside : lock.places thread = .outside) :
    (lock.locate thread).Passes [.calls (.ofOnce once)]
      ((lock.go thread (.loading once)).locate thread) := by
  rw [locate_eq_idle (Or.inl outside), locate_of_trying (Or.inl places_go_self)]
  exact .single .calls

/-- A thread outside may call a function. -/
theorem Held.calls (held : Held lock holder) {once : Bool}
    (outside : lock.places thread = .outside) :
    Held (lock.go thread (.loading once)) holder := by
  have away : ¬ holder = some thread := by
    rw [← held.inside, outside]
    exact LockPlace.noConfusion
  exact held.go (iff_of_false LockPlace.noConfusion away)

/-- Every event does to the mutex what it shows. -/
theorem simulates {event : LockEvent} {output : Option Bool} (held : Held lock holder)
    (defined : lock.call event = some (next, output)) :
    (∃ later, mutex.Path holder (view.effects ⟨lock, event, next, output⟩) later ∧
      Held next later) ∧
      (lock.locate (view.actor ⟨lock, event, next, output⟩)).Passes
        (view.moments ⟨lock, event, next, output⟩)
        (next.locate (view.actor ⟨lock, event, next, output⟩)) ∧
      ∀ other ≠ view.actor ⟨lock, event, next, output⟩, next.locate other = lock.locate other := by
  cases event with
  | lock thread =>
    obtain ⟨outside, same⟩ := Option.ite_none_right_eq_some.mp defined
    obtain ⟨rfl, rfl⟩ := Prod.mk.inj (Option.some.inj same)
    exact ⟨⟨holder, .nil, held.calls outside⟩, passes_calls false outside,
      fun other => locate_go_of_ne⟩
  | tryLock thread =>
    obtain ⟨outside, same⟩ := Option.ite_none_right_eq_some.mp defined
    obtain ⟨rfl, rfl⟩ := Prod.mk.inj (Option.some.inj same)
    exact ⟨⟨holder, .nil, held.calls outside⟩, passes_calls true outside,
      fun other => locate_go_of_ne⟩
  | access thread =>
    obtain ⟨others, once, tries, done⟩ := access_cases held defined
    have apart : ∀ other ≠ thread, next.locate other = lock.locate other := fun other differs => by
      unfold locate
      rw [others other differs]
    rcases done with ⟨rfl, heldNext, goesOn⟩ | ⟨rfl, rfl, taken, heldNext, left⟩ |
      ⟨rfl, rfl, heldNext, entered⟩
    · refine ⟨⟨holder, .nil, heldNext⟩, ?_, apart⟩
      show (lock.locate thread).Passes [] (next.locate thread)
      rw [locate_of_trying tries, locate_of_trying goesOn]
      exact .nil
    · refine ⟨⟨holder, ?_, heldNext⟩, passes_access (locate_eq_idle (Or.inl left)) tries, apart⟩
      rw [View.effects, moments_access tries]
      exact .single (congrArg some (if_neg taken))
    · refine ⟨⟨some thread, ?_, heldNext⟩, passes_access (locate_eq_idle (Or.inr entered)) tries,
        apart⟩
      rw [View.effects, moments_access tries]
      cases once with
      | false => exact .single rfl
      | true => exact .single rfl
  | unlock thread =>
    obtain ⟨inside, same⟩ := Option.ite_none_right_eq_some.mp defined
    obtain ⟨rfl, rfl⟩ := Prod.mk.inj (Option.some.inj same)
    obtain rfl := (held.inside thread).mp inside
    refine ⟨⟨none, .single (if_pos rfl), held.leave⟩, ?_, fun other => locate_go_of_ne⟩
    show (lock.locate thread).Passes _ (Spinlock.locate _ thread)
    rw [locate_eq_idle (Or.inr inside), locate_eq_idle (Or.inl places_go_self)]
    exact .cons .calls (.cons .acts (.single .returns))

/-- The spinlock is a mutex, whatever the order of the accesses of all threads: its functions take
effect at some point between call and return as those of a mutex do, and there is never more than
one thread inside. -/
theorem spinlock_is_mutex {past : List (Machine.Step Spinlock LockEvent (Option Bool))}
    (reaches : machine.Reaches past lock) :
    view.Linearizes mutex past ∧
      ∀ first second, lock.places first = .inside → lock.places second = .inside →
        first = second := by
  have starts : ∀ lock, machine.start lock → (∀ thread, lock.locate thread = .idle) ∧
      ∃ holder, mutex.start holder ∧ Held lock holder := by
    rintro _ rfl
    exact ⟨fun _ => rfl, none, rfl, rfl, fun _ => iff_of_false LockPlace.noConfusion (by simp)⟩
  obtain ⟨linearizes, -, holder, -, -, held⟩ := View.linearizes_of_reaches locate Held starts
    (fun _ _ _ _ _ defined held => simulates held defined) reaches
  refine ⟨linearizes, fun first second insideFirst insideSecond => ?_⟩
  rw [held.inside] at insideFirst insideSecond
  exact Option.some.inj (insideFirst.symm.trans insideSecond)

/-- Two threads see the lock free, one of them gets it, and the other one spins until it is free
again. -/
def contended : List LockEvent :=
  [.lock 1, .lock 2, .access 1, .access 2, .access 1, .access 2, .access 2, .unlock 1, .tryLock 1,
    .access 2, .access 1, .access 2, .access 1]

theorem spinlock_is_mutex_contended :
    let run := machine.ran {} contended
    view.Linearizes mutex run.1 ∧
      ∀ first second, run.2.places first = .inside → run.2.places second = .inside →
        first = second :=
  spinlock_is_mutex (Machine.reaches_ran rfl contended)

end Spinlock

end Drace
