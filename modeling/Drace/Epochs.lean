/-
This file says when an epoch belongs to its thread.

Tid and clock share one word, and counting up is a plain increment of the word. It
stays within the clock exactly as long as the clock is below its maximum: at the
maximum it carries into the tid, or wraps around for the largest tid, and from
then on the thread's ids are those of another thread.
-/

import Drace.Depots

namespace Drace

open Machine

variable {layout : Layout} {past front early : List Step} {step : Step} {ft next : Fasttrack}
  {event : Event} {output : Output} {thread : ThreadState} {tls tid other id count : ℕ}

/-! ### Counting up -/

/-- The thread whose clock a call counts up: release, fork, `happens_before` and join do so. -/
def Event.countsUp (ft : Fasttrack) : Event → Option ℕ
  | .release tls mutex _ => if mutex ∈ ft.locks then some tls else none
  | .fork parent _ => if parent ∈ ft.threads then some parent else none
  | .happensBefore tls _ => some tls
  | .join parent child => if child ∈ ft.threads ∧ parent ∈ ft.threads then some child else none
  | _ => none

/-- How often a thread has counted its clock up since its fork, after one more step. -/
def incrementsAfter (tid count : ℕ) (step : Step) : ℕ :=
  if tid ∉ step.pre.threads then 0
  else if step.event.countsUp step.pre = some tid then count + 1 else count

/-- How often a registered thread has counted its clock up since its fork. -/
def increments (past : List Step) (tid : ℕ) : ℕ := past.foldl (incrementsAfter tid) 0

theorem increments_append :
    increments (past ++ [step]) tid = incrementsAfter tid (increments past tid) step := by
  rw [increments, List.foldl_append]
  rfl

/-- The clock that a step counts up is below its maximum. -/
def BelowMaximum (layout : Layout) (step : Step) : Prop :=
  ∀ tls ∈ step.event.countsUp step.pre, ∀ thread ∈ step.pre.threads.lookup tls,
    thread.getClock layout + 1 < layout.clockRange

instance (layout : Layout) (step : Step) : Decidable (BelowMaximum layout step) :=
  inferInstanceAs (Decidable (∀ _ ∈ _, ∀ _ ∈ _, _))

/-- Epochs belong to their thread: counting up raises a thread's id, leaves its tid and publishes
the new id under this tid, and no two pairs of a thread and a number of increments have had the
same id. -/
structure EpochsOwned (layout : Layout) (front : List Step) (step : Step) : Prop where
  counted : ∀ tls thread, step.event.countsUp step.pre = some tls →
    step.pre.threads.lookup tls = some thread →
      thread.returnOwnId < (thread.incVc layout).returnOwnId ∧
      (thread.incVc layout).getTid layout = tls ∧
      (thread.incVc layout).vc = thread.vc.insert tls (thread.incVc layout).returnOwnId ∧
      ((∀ parent child, step.event ≠ .join parent child) →
        step.post.threads.lookup tls = some (thread.incVc layout))
  distinct : ∀ early earlier, early ++ [earlier] <+: front ++ [step] → ∀ tid thread other sibling,
    step.post.threads.lookup tid = some thread →
    earlier.post.threads.lookup other = some sibling → thread.returnOwnId = sibling.returnOwnId →
      tid = other ∧ increments (front ++ [step]) tid = increments (early ++ [earlier]) other

/-- At the clock's maximum, counting an id up carries into its tid. -/
theorem Layout.makeTid_succ_of_full (full : layout.clockRange ≤ layout.makeClock id + 1) :
    layout.makeTid ((id + 1) % layout.sizeRange) =
      (id / layout.multplier + 1) % layout.multplier := by
  have positive := layout.multplier_pos
  rw [Layout.clockRange_eq, Layout.makeClock_eq] at full
  have last : id % layout.multplier + 1 = layout.multplier :=
    le_antisymm (Nat.mod_lt _ positive) full
  have carried : id + 1 = (id / layout.multplier + 1) * layout.multplier := by
    calc id + 1 = id / layout.multplier * layout.multplier + (id % layout.multplier + 1) := by
          rw [← Nat.add_assoc, Nat.div_add_mod']
      _ = (id / layout.multplier + 1) * layout.multplier := by rw [last, Nat.succ_mul]
  rw [Layout.makeTid, Layout.tidRange_eq, Layout.sizeRange_eq, Nat.mod_mul_left_div_self,
    Nat.mod_mod, carried, Nat.mul_div_cancel _ positive]

/-- Counting an id up leaves its tid just where the clock is below its maximum. -/
theorem Layout.makeTid_succ_iff (bound : id < layout.sizeRange) :
    layout.makeTid ((id + 1) % layout.sizeRange) = layout.makeTid id ↔
      layout.makeClock id + 1 < layout.clockRange := by
  constructor
  · intro same
    by_contra full
    have small : id / layout.multplier < layout.multplier := by
      rw [Layout.sizeRange_eq] at bound
      exact Nat.div_lt_of_lt_mul bound
    have many : 1 < layout.multplier := by cases layout <;> decide
    rw [Layout.makeTid_succ_of_full (not_lt.mp full), Layout.makeTid_eq bound] at same
    rcases Nat.lt_or_ge (id / layout.multplier + 1) layout.multplier with inside | top
    · rw [Nat.mod_eq_of_lt inside] at same
      omega
    · rw [le_antisymm small top, Nat.mod_self] at same
      omega
  · intro room
    obtain ⟨noWrap, _, sameTid, _⟩ := Layout.succ_id bound room
    rw [noWrap, sameTid]

/-- A tid and a clock make an id that has both. -/
theorem Layout.makeId_add (fits : tid < layout.tidRange) (below : count < layout.clockRange) :
    layout.makeId tid + count < layout.sizeRange ∧
      layout.makeTid (layout.makeId tid + count) = tid ∧
      layout.makeClock (layout.makeId tid + count) = count := by
  have positive := layout.multplier_pos
  rw [Layout.clockRange_eq] at below
  have quotient : (tid * layout.multplier + count) / layout.multplier = tid := by
    rw [Nat.add_comm, Nat.add_mul_div_right _ _ positive, Nat.div_eq_of_lt below, Nat.zero_add]
  have bound : tid * layout.multplier + count < layout.sizeRange := by
    rw [Layout.sizeRange_eq, ← Nat.div_lt_iff_lt_mul positive, quotient, ← Layout.tidRange_eq]
    exact fits
  rw [Layout.makeId_eq fits]
  refine ⟨bound, by rw [Layout.makeTid_eq bound, quotient], ?_⟩
  rw [Layout.makeClock_eq, Nat.add_comm, Nat.add_mul_mod_self_right, Nat.mod_eq_of_lt below]

/-! ### What a call does to the ids -/

namespace Fasttrack

theorem idOf_setThread : (ft.setThread tls thread).clocks.idOf tid =
    if tid = tls then some thread.id else ft.clocks.idOf tid := by
  rw [clocks_setThread]
  exact Function.update_apply _ _ _ _

/-- A change of a thread that keeps the thread's id keeps all ids. -/
theorem idOf_setThread_same {old : ThreadState} (found : ft.threads.lookup tls = some old)
    (same : thread.id = old.id) : (ft.setThread tls thread).clocks.idOf = ft.clocks.idOf := by
  funext tid
  rw [idOf_setThread]
  split
  · next own => rw [own, same, (holds_of_lookup found).2]
  · rfl

theorem idOf_modifyThread {change : ThreadState → ThreadState}
    (keeps : ∀ thread, (change thread).id = thread.id) :
    (ft.modifyThread tls change).clocks.idOf = ft.clocks.idOf := by
  unfold modifyThread
  split
  · next thread found => exact idOf_setThread_same found (keeps thread)
  · rfl

theorem idOf_createLock {mutex : ℕ} : (ft.createLock mutex).clocks.idOf = ft.clocks.idOf := by
  rw [clocks_createLock, Clocks.idOf_setClock]

theorem idOf_createHappens {identifier : ℕ} :
    (ft.createHappens identifier).clocks.idOf = ft.clocks.idOf := by
  rw [clocks_createHappens, Clocks.idOf_setClock]

theorem idOf_eraseThread (current : ({ ft with threads := ft.threads.erase tls } :
    Fasttrack).clocks.idOf tid = some id) : tid ≠ tls ∧ ft.clocks.idOf tid = some id := by
  rw [clocks_eraseThread] at current
  by_cases same : tid = tls
  · rw [same, Clocks.idOf_remove_self] at current
    cases current
  · rw [Clocks.idOf_remove_of_ne same] at current
    exact ⟨same, current⟩

/-- A new thread starts at clock 0. -/
theorem idOf_createThread {parent : Option ThreadState}
    (current : (ft.createThread layout tls parent).1.clocks.idOf tid = some id) :
    ft.clocks.idOf tid = some id ∨
      ft.clocks.idOf tid = none ∧ id = layout.makeId tid ∧ tid < layout.tidRange := by
  rw [clocks_createThread] at current
  split at current
  · next absent =>
    by_cases same : tid = tls % layout.tidRange
    · subst same
      rw [Clocks.idOf_setThread_self] at current
      refine Or.inr ⟨absent, (Option.some.inj current).symm, Nat.mod_lt _ ?_⟩
      rw [Layout.tidRange_eq]
      exact layout.multplier_pos
    · rw [Clocks.idOf_setThread_of_ne same] at current
      exact Or.inl current
  · exact Or.inl current

/-- Counting up the clock of a registered thread. -/
theorem idOf_incVc (found : ft.threads.lookup tls = some thread) :
    (ft.setThread tls (thread.incVc layout)).clocks.idOf tid =
      if tid = tls then (ft.clocks.idOf tid).map fun id => (id + 1) % layout.sizeRange
      else ft.clocks.idOf tid := by
  rw [idOf_setThread]
  split
  · next own =>
    rw [own, (holds_of_lookup found).2]
    rfl
  · rfl

end Fasttrack

/-- The ids after a call: a thread that is counted up has the next id, any other has the one it had,
and a thread that is new starts at clock 0. -/
def IdAfter (layout : Layout) (ft : Fasttrack) (event : Event) (tid id : ℕ) : Prop :=
  (∃ old, ft.clocks.idOf tid = some old ∧
    id = if event.countsUp ft = some tid then (old + 1) % layout.sizeRange else old) ∨
  ft.clocks.idOf tid = none ∧ id = layout.makeId tid ∧ tid < layout.tidRange

/-- What a call that counts nothing up leaves as it was. -/
theorem IdAfter.kept (current : ft.clocks.idOf tid = some id)
    (quiet : event.countsUp ft ≠ some tid) :
    IdAfter layout ft event tid id :=
  Or.inl ⟨id, current, (if_neg quiet).symm⟩

/-- A call that counts up one thread. -/
theorem IdAfter.counted (counts : event.countsUp ft = some tls)
    (current : (if tid = tls then (ft.clocks.idOf tid).map fun id => (id + 1) % layout.sizeRange
      else ft.clocks.idOf tid) = some id) : IdAfter layout ft event tid id := by
  split at current
  · next own =>
    obtain ⟨old, was, rfl⟩ := Option.map_eq_some_iff.mp current
    exact Or.inl ⟨old, was, by rw [counts, own, if_pos rfl]⟩
  · next differs =>
    refine IdAfter.kept current fun same => differs ?_
    exact Option.some.inj (same.symm.trans counts)

theorem idAfter_fork {parent child : ℕ}
    (current : (ft.fork layout parent child).1.clocks.idOf tid = some id) :
    IdAfter layout ft (.fork parent child) tid id := by
  unfold Fasttrack.fork at current
  split at current
  · next thread registered =>
    rcases Fasttrack.idOf_createThread current with was | ⟨absent, new⟩
    · rw [Fasttrack.idOf_incVc registered] at was
      exact IdAfter.counted (if_pos (Fasttrack.mem_threads_of_lookup registered)) was
    · rw [Fasttrack.idOf_incVc registered] at absent
      refine Or.inr ⟨?_, new⟩
      split at absent
      · exact Option.map_eq_none_iff.mp absent
      · exact absent
  · next absent =>
    rcases Fasttrack.idOf_createThread current with was | new
    · refine IdAfter.kept was ?_
      rw [Event.countsUp, if_neg (AList.lookup_eq_none.mp absent)]
      exact nofun
    · exact Or.inr new

theorem idAfter_join {parent child : ℕ}
    (current : (ft.join layout parent child).clocks.idOf tid = some id) :
    IdAfter layout ft (.join parent child) tid id := by
  unfold Fasttrack.join at current
  split at current
  · next delThread _ registered _ =>
    simp only [Fasttrack.clocks_cleanup, Clocks.idOf_sweep] at current
    obtain ⟨differs, merged⟩ := Fasttrack.idOf_eraseThread current
    rw [Fasttrack.idOf_modifyThread fun _ => ThreadState.id_mergeClock,
      Fasttrack.idOf_incVc registered, if_neg differs] at merged
    refine IdAfter.kept merged fun counts => differs ?_
    simp only [Event.countsUp, Option.ite_none_right_eq_some, Option.some.injEq] at counts
    exact counts.2.symm
  · next invalid =>
    refine IdAfter.kept current fun counts => ?_
    simp only [Event.countsUp, Option.ite_none_right_eq_some] at counts
    obtain ⟨⟨childRegistered, parentRegistered⟩, _⟩ := counts
    obtain ⟨delThread, found⟩ := AList.exists_lookup childRegistered
    obtain ⟨thread, foundParent⟩ := AList.exists_lookup parentRegistered
    exact invalid delThread thread found foundParent

/-- What a call does to the ids. -/
theorem idAfter_call (defined : ft.call layout event = some (next, output))
    (current : next.clocks.idOf tid = some id) : IdAfter layout ft event tid id := by
  cases event with
  | read | write =>
    obtain ⟨result, accessed, same⟩ := Option.map_eq_some_iff.mp defined
    obtain ⟨thread, found, rfl⟩ := Option.map_eq_some_iff.mp accessed
    obtain ⟨rfl, _⟩ := Prod.mk.inj same
    rw [Fasttrack.clockStep_access found] at current
    exact IdAfter.kept current (by rintro ⟨⟩)
  | funcEnter tls pc =>
    obtain ⟨after, entered, same⟩ := Option.map_eq_some_iff.mp defined
    obtain ⟨rfl, _⟩ := Prod.mk.inj same
    obtain ⟨thread, found, rfl⟩ := Option.map_eq_some_iff.mp entered
    rw [Fasttrack.clocks_setDepot found] at current
    exact IdAfter.kept current (by rintro ⟨⟩)
  | funcExit tls =>
    obtain ⟨after, exited, same⟩ := Option.map_eq_some_iff.mp defined
    obtain ⟨rfl, _⟩ := Prod.mk.inj same
    obtain ⟨thread, found, popped⟩ := Option.bind_eq_some_iff.mp exited
    obtain ⟨depot, _, rfl⟩ := Option.map_eq_some_iff.mp popped
    rw [Fasttrack.clocks_setDepot found] at current
    exact IdAfter.kept current (by rintro ⟨⟩)
  | fork parent child =>
    obtain ⟨rfl, _⟩ := Prod.mk.inj (Option.some.inj defined)
    exact idAfter_fork current
  | join parent child =>
    obtain ⟨rfl, _⟩ := Prod.mk.inj (Option.some.inj defined)
    exact idAfter_join current
  | acquire tls mutex recursive write =>
    obtain ⟨after, acquired, same⟩ := Option.map_eq_some_iff.mp defined
    obtain ⟨rfl, _⟩ := Prod.mk.inj same
    refine IdAfter.kept ?_ (by rintro ⟨⟩)
    unfold Fasttrack.acquire at acquired
    split at acquired
    · obtain ⟨rfl⟩ := Option.some.inj acquired
      exact current
    · obtain ⟨thread, registered, rfl⟩ := Option.map_eq_some_iff.mp acquired
      rwa [Fasttrack.idOf_setThread_same registered ThreadState.id_mergeClock,
        Fasttrack.idOf_createLock] at current
  | release tls mutex write =>
    obtain ⟨after, released, same⟩ := Option.map_eq_some_iff.mp defined
    obtain ⟨rfl, _⟩ := Prod.mk.inj same
    unfold Fasttrack.release at released
    split at released
    · next unknown =>
      obtain ⟨rfl⟩ := Option.some.inj released
      rw [Fasttrack.idOf_createLock] at current
      refine IdAfter.kept current ?_
      rw [Event.countsUp, if_neg (AList.lookup_eq_none.mp unknown)]
      exact nofun
    · next lock known =>
      obtain ⟨thread, registered, rfl⟩ := Option.map_eq_some_iff.mp released
      refine IdAfter.counted (if_pos ?_) ((Fasttrack.idOf_incVc registered).symm.trans current)
      rw [← AList.lookup_isSome, known]
      rfl
  | happensBefore tls identifier =>
    obtain ⟨after, announced, same⟩ := Option.map_eq_some_iff.mp defined
    obtain ⟨rfl, _⟩ := Prod.mk.inj same
    obtain ⟨thread, registered, rfl⟩ := Option.map_eq_some_iff.mp announced
    have counted := (Fasttrack.idOf_incVc registered).symm.trans current
    rw [Fasttrack.idOf_createHappens] at counted
    exact IdAfter.counted rfl counted
  | happensAfter tls identifier =>
    obtain ⟨after, waited, same⟩ := Option.map_eq_some_iff.mp defined
    obtain ⟨rfl, _⟩ := Prod.mk.inj same
    refine IdAfter.kept ?_ (by rintro ⟨⟩)
    unfold Fasttrack.happensAfter at waited
    split at waited
    · obtain ⟨rfl⟩ := Option.some.inj waited
      rwa [Fasttrack.idOf_createHappens] at current
    · obtain ⟨thread, registered, rfl⟩ := Option.map_eq_some_iff.mp waited
      rwa [Fasttrack.idOf_setThread_same registered ThreadState.id_mergeClock] at current
  | finish tls threadId =>
    obtain ⟨rfl, _⟩ := Prod.mk.inj (Option.some.inj defined)
    rw [Fasttrack.finish, Fasttrack.clocks_cleanup, Clocks.idOf_sweep] at current
    exact IdAfter.kept (Fasttrack.idOf_eraseThread current).2 (by rintro ⟨⟩)
  | allocate tls pc addr size =>
    obtain ⟨rfl, _⟩ := Prod.mk.inj (Option.some.inj defined)
    refine IdAfter.kept ?_ (by rintro ⟨⟩)
    unfold Fasttrack.allocate at current
    split at current <;> exact current
  | deallocate | detach | mapShadow =>
    obtain ⟨rfl, _⟩ := Prod.mk.inj (Option.some.inj defined)
    exact IdAfter.kept current (by rintro ⟨⟩)
  | finalize =>
    obtain ⟨rfl, _⟩ := Prod.mk.inj (Option.some.inj defined)
    cases current

/-- A thread whose clock a call counts up keeps the object, unless it is joined by the call. -/
theorem counted_call (defined : ft.call layout event = some (next, output))
    (counts : event.countsUp ft = some tls) (found : ft.threads.lookup tls = some thread)
    (notJoin : ∀ parent child, event ≠ .join parent child) :
    next.threads.lookup tls = some (thread.incVc layout) := by
  cases event with
  | release own mutex write =>
    simp only [Event.countsUp, Option.ite_none_right_eq_some, Option.some.injEq] at counts
    obtain ⟨known, rfl⟩ := counts
    obtain ⟨after, released, same⟩ := Option.map_eq_some_iff.mp defined
    obtain ⟨rfl, _⟩ := Prod.mk.inj same
    obtain ⟨lock, foundLock⟩ := AList.exists_lookup known
    unfold Fasttrack.release at released
    simp only [foundLock, found, Option.map_some, Option.some.injEq] at released
    rw [← released]
    exact AList.lookup_insert _
  | happensBefore own identifier =>
    obtain ⟨rfl⟩ := Option.some.inj counts
    obtain ⟨after, announced, same⟩ := Option.map_eq_some_iff.mp defined
    obtain ⟨rfl, _⟩ := Prod.mk.inj same
    obtain ⟨registered, foundOwn, rfl⟩ := Option.map_eq_some_iff.mp announced
    rw [Fasttrack.threads_createHappens, found] at foundOwn
    obtain ⟨rfl⟩ := Option.some.inj foundOwn
    exact AList.lookup_insert _
  | fork parent child =>
    simp only [Event.countsUp, Option.ite_none_right_eq_some, Option.some.injEq] at counts
    obtain ⟨member, rfl⟩ := counts
    obtain ⟨rfl, _⟩ := Prod.mk.inj (Option.some.inj defined)
    unfold Fasttrack.fork Fasttrack.createThread
    simp only [found]
    split
    · exact AList.lookup_insert _
    · next absent =>
      have differs : parent ≠ child % layout.tidRange := fun same =>
        absent ((AList.mem_insert _).mpr (Or.inl same.symm))
      exact (AList.lookup_insert_ne differs).trans (AList.lookup_insert _)
  | join parent child => exact absurd rfl (notJoin parent child)
  | _ => cases counts

/-! ### Runs -/

/-- The id of a registered thread is made of its tid and of its increments. -/
def Numbered (layout : Layout) (past : List Step) (ft : Fasttrack) : Prop :=
  ∀ tid id, ft.clocks.idOf tid = some id → tid < layout.tidRange ∧
    id = layout.makeId tid + increments past tid ∧ increments past tid < layout.clockRange

/-- Such an id decodes to its tid. -/
theorem Numbered.encodes (numbered : Numbered layout past ft)
    (current : ft.clocks.idOf tid = some id) : id < layout.sizeRange ∧ layout.makeTid id = tid := by
  obtain ⟨fits, same, few⟩ := numbered tid id current
  obtain ⟨bound, own, _⟩ := Layout.makeId_add fits few
  rw [← same] at bound own
  exact ⟨bound, own⟩

/-- The step rule for ids. -/
theorem Numbered.append (numbered : Numbered layout past step.pre)
    (below : BelowMaximum layout step)
    (defined : step.pre.call layout step.event = some (step.post, step.output)) :
    Numbered layout (past ++ [step]) step.post := by
  intro tid id current
  rw [increments_append, incrementsAfter]
  rcases idAfter_call defined current with ⟨old, was, rfl⟩ | ⟨absent, rfl, fits⟩
  · obtain ⟨fits, same, few⟩ := numbered tid old was
    obtain ⟨thread, found, ownId⟩ := Option.map_eq_some_iff.mp was
    rw [if_neg (not_not.mpr (Fasttrack.mem_threads_of_lookup found))]
    refine ⟨fits, ?_⟩
    split
    · next counts =>
      have room := below tid counts thread found
      rw [ThreadState.getClock, ownId, same, (Layout.makeId_add fits few).2.2] at room
      have bound := (Layout.makeId_add fits room).1
      rw [same, Nat.add_assoc, Nat.mod_eq_of_lt bound]
      exact ⟨rfl, room⟩
    · exact ⟨same, few⟩
  · have notMember : tid ∉ step.pre.threads :=
      AList.lookup_eq_none.mp (Fasttrack.idOf_eq_none.mp absent)
    rw [if_pos notMember, Layout.clockRange_eq]
    exact ⟨fits, rfl, layout.multplier_pos⟩

/-- As long as no clock is counted up at its maximum, every id is made of tid and increments. -/
theorem Reaches.numbered (reaches : Reaches layout past ft)
    (below : Always (fun _ step => BelowMaximum layout step) past) : Numbered layout past ft := by
  refine Machine.Reaches.induct (Numbered layout) ?_ ?_ reaches below
  · rintro ft ⟨argv, rfl⟩ tid id current
    cases current
  · intro past state event next output _ defined below numbered
    exact Numbered.append numbered below defined

/-- Where ids are made of tid and increments, counting up leaves the epochs with their thread just
if the clock is below its maximum. -/
theorem counted_iff_below (numbered : Numbered layout past ft)
    (found : ft.threads.lookup tls = some thread) :
    (thread.incVc layout).getTid layout = tls ↔ thread.getClock layout + 1 < layout.clockRange := by
  obtain ⟨bound, own⟩ := numbered.encodes (Fasttrack.holds_of_lookup found).2
  have carried := Layout.makeTid_succ_iff bound
  rw [own] at carried
  exact carried

/-- Below the maximum, counting up raises the id. -/
theorem returnOwnId_lt_incVc (numbered : Numbered layout past ft)
    (found : ft.threads.lookup tls = some thread)
    (room : thread.getClock layout + 1 < layout.clockRange) :
    thread.returnOwnId < (thread.incVc layout).returnOwnId := by
  have bound := (numbered.encodes (Fasttrack.holds_of_lookup found).2).1
  have noWrap := (Layout.succ_id bound room).1
  change thread.id < (thread.id + 1) % layout.sizeRange
  rw [noWrap]
  exact Nat.lt_succ_self _

/-- Two threads with one id are one thread with one number of increments. -/
theorem Numbered.same {ft sibling : Fasttrack} (numbered : Numbered layout past ft)
    (siblings : Numbered layout front sibling) (current : ft.clocks.idOf tid = some id)
    (otherCurrent : sibling.clocks.idOf other = some id) :
    tid = other ∧ increments past tid = increments front other := by
  obtain ⟨fits, same, few⟩ := numbered tid id current
  obtain ⟨otherFits, otherSame, otherFew⟩ := siblings other id otherCurrent
  obtain ⟨_, ownTid, ownCount⟩ := Layout.makeId_add fits few
  obtain ⟨_, otherTid, otherCount⟩ := Layout.makeId_add otherFits otherFew
  rw [← same] at ownTid ownCount
  rw [← otherSame] at otherTid otherCount
  exact ⟨ownTid.symm.trans otherTid, ownCount.symm.trans otherCount⟩

/-- After steps that count no clock up at its maximum, a step leaves the epochs with their thread
just if it does not either. -/
theorem epochsOwned_iff_below (reaches : Reaches layout past ft)
    (initial : front ++ [step] <+: past)
    (below : Always (fun _ step => BelowMaximum layout step) front) :
    EpochsOwned layout front step ↔ BelowMaximum layout step := by
  obtain ⟨before, defined⟩ := reaches.step initial
  have numbered := Reaches.numbered before below
  constructor
  · intro owned tls counts thread found
    exact (counted_iff_below numbered found).mp (owned.counted tls thread counts found).2.1
  · intro belowNow
    have along : Always (fun _ step => BelowMaximum layout step) (front ++ [step]) :=
      always_append.mpr ⟨below, belowNow⟩
    refine ⟨fun tls thread counts found => ?_, ?_⟩
    · have room := belowNow tls counts thread found
      have own := (counted_iff_below numbered found).mpr room
      refine ⟨returnOwnId_lt_incVc numbered found room, own, ?_, counted_call defined counts found⟩
      conv_rhs => rw [← own]
      rfl
    · intro early earlier shorter tid thread other sibling found otherFound same
      obtain ⟨earlyReaches, earlyDefined⟩ := reaches.step (shorter.trans initial)
      have siblings := Reaches.numbered (earlyReaches.call earlyDefined) (along.before shorter)
      have now := Reaches.numbered (before.call defined) along
      refine Numbered.same now siblings (Fasttrack.holds_of_lookup found).2 ?_
      rw [(Fasttrack.holds_of_lookup otherFound).2]
      exact congrArg some same.symm

/-- Epochs belong to their thread all along a run just where no call counts a clock up that is at
its maximum. -/
theorem epochs_owned_iff (reaches : Reaches layout past ft) :
    Always (EpochsOwned layout) past ↔ Always (fun _ step => BelowMaximum layout step) past :=
  always_iff_always fun _ _ initial below => epochsOwned_iff_below reaches initial below

theorem epochs_owned_iff_calls :
    Always (EpochsOwned .x86) (ran .x86 [.fork 9 1, .fork 1 2, .acquire 1 7 1 true,
      .release 1 7 true, .happensBefore 2 5, .join 1 2]).1 :=
  (epochs_owned_iff (reaches_ran .x86 _)).mpr (by decide +kernel)

/-! ### Counting beyond the maximum -/

/-- What a thread has done that only announced, a number of times. -/
structure CountedUp (layout : Layout) (ft : Fasttrack) (thread : ThreadState) (tls count : ℕ)
    (next : Fasttrack) (counted : ThreadState) : Prop where
  found : next.threads.lookup tls = some counted
  id : counted.id = thread.id + count
  depot : counted.traceDepot = thread.traceDepot
  others : ∀ tid, tid ≠ tls → next.threads.lookup tid = ft.threads.lookup tid
  vars : next.vars = ft.vars
  entries : ∀ key, (∀ few ≤ count, layout.makeTid (thread.id + few) ≠ key) →
    counted.vc.lookup key = thread.vc.lookup key

/-- What an announcement does to the threads and the variables. -/
theorem Fasttrack.call_happensBefore (layout : Layout) (identifier : ℕ)
    (found : ft.threads.lookup tls = some thread) :
    ∃ after, ft.call layout (.happensBefore tls identifier) = some (after, {}) ∧
      after.threads = ft.threads.insert tls (thread.incVc layout) ∧ after.vars = ft.vars := by
  have registered : (ft.createHappens identifier).threads.lookup tls = some thread := by
    rw [threads_createHappens, found]
  obtain ⟨states, announced⟩ : ∃ states, ft.happensBefore layout tls identifier =
      some { (ft.createHappens identifier).setThread tls (thread.incVc layout) with
        happensStates := states } :=
    ⟨_, by rw [happensBefore, registered]; rfl⟩
  refine ⟨_, by rw [call, announced]; rfl, ?_, ?_⟩
  · change AList.insert tls _ (ft.createHappens identifier).threads = _
    rw [threads_createHappens]
  · change (ft.createHappens identifier).vars = ft.vars
    unfold createHappens
    split <;> rfl

/-- One more announcement. -/
theorem CountedUp.succ {counted : ThreadState} (identifier : ℕ)
    (countedUp : CountedUp layout ft thread tls count next counted)
    (fits : thread.id + (count + 1) < layout.sizeRange) :
    ∃ after, next.call layout (.happensBefore tls identifier) = some (after, {}) ∧
      CountedUp layout ft thread tls (count + 1) after (counted.incVc layout) := by
  obtain ⟨after, defined, threads, vars⟩ :=
    Fasttrack.call_happensBefore layout identifier countedUp.found
  have idEq : (counted.incVc layout).id = thread.id + (count + 1) := by
    change (counted.id + 1) % layout.sizeRange = _
    rw [countedUp.id, Nat.add_assoc, Nat.mod_eq_of_lt fits]
  refine ⟨after, defined, ?_, idEq, countedUp.depot, fun tid differs => ?_,
    vars.trans countedUp.vars, fun key unlike => ?_⟩
  · rw [threads, AList.lookup_insert]
  · rw [threads, AList.lookup_insert_ne differs, countedUp.others tid differs]
  · rw [← countedUp.entries key fun few bound => unlike few (Nat.le_succ_of_le bound)]
    refine AList.lookup_insert_ne fun same => unlike (count + 1) le_rfl ?_
    rw [same, ← idEq]
    rfl

/-- A registered thread can announce any number of times. -/
theorem reaches_announcing (reaches : Reaches layout past ft)
    (found : ft.threads.lookup tls = some thread) (identifier count : ℕ)
    (fits : thread.id + count < layout.sizeRange) :
    ∃ later next counted, Reaches layout (past ++ later) next ∧
      later.map Step.event = List.replicate count (.happensBefore tls identifier) ∧
      CountedUp layout ft thread tls count next counted := by
  induction count with
  | zero =>
    exact ⟨[], ft, thread, by rwa [List.append_nil], rfl, found, rfl, rfl, fun _ _ => rfl, rfl,
      fun _ _ => rfl⟩
  | succ count inductionHypothesis =>
    obtain ⟨later, next, counted, goes, events, countedUp⟩ :=
      inductionHypothesis (Nat.lt_of_succ_lt fits)
    obtain ⟨after, defined, countedAfter⟩ := countedUp.succ identifier fits
    refine ⟨later ++ [⟨next, .happensBefore tls identifier, after, {}⟩], after, _, ?_, ?_,
      countedAfter⟩
    · rw [← List.append_assoc]
      exact goes.call defined
    · rw [List.map_append, events, List.map_singleton, List.replicate_succ']

/-- In the 32-bit layout a thread with tid 1 that announces 65536 times ends up with the ids of
tid 2. -/
theorem epoch_carried : ∃ past ft, Reaches .x86 past ft ∧
    past.map Step.event = .fork 9 1 :: List.replicate 65536 (.happensBefore 1 5) ∧
      ¬ Always (EpochsOwned .x86) past := by
  obtain ⟨thread, found, start⟩ : ∃ thread,
      (ran .x86 [.fork 9 1]).2.threads.lookup 1 = some thread ∧ thread.id = 65536 :=
    ⟨_, rfl, by decide +kernel⟩
  obtain ⟨later, next, counted, reaches, events, countedUp⟩ :=
    reaches_announcing (reaches_ran .x86 [.fork 9 1]) found 5 65535 (by rw [start]; decide)
  obtain ⟨after, defined, countedAfter⟩ := countedUp.succ 5 (by rw [start]; decide)
  have run : Reaches .x86 ((ran .x86 [.fork 9 1]).1 ++ later ++
      [⟨next, .happensBefore 1 5, after, {}⟩]) after := reaches.call defined
  refine ⟨_, after, run, ?_, fun owned => ?_⟩
  · rw [List.map_append, List.map_append, events]
    exact congrArg (List.cons _) List.replicate_succ'.symm
  · have last := owned _ _ (List.prefix_refl _)
    have own := (last.counted 1 counted rfl countedUp.found).2.1
    rw [ThreadState.getTid, countedAfter.id, start] at own
    exact absurd own (by decide)

end Drace
