/-
This file says which reads a write is checked against.

A write should report every recorded read of another thread that it does not know
of. The check is left out when the address has no recorded write yet, although a
read may come before the first write. In the shared list the check stops at the
first read that races, whether or not its thread is still registered, and its
result 0 stands for no race. Both results give the exact condition under which
the reads are checked.
-/

import Drace.History

namespace Drace

open Machine

/-- A write to an address that is not of the recorded write epoch, with the thread that makes it
and the state of the address before it. -/
structure Writes (step : Step) (addr : ℕ) (thread : ThreadState) (var : VarState) : Prop where
  call : ∃ tls pc size, step.event = .write tls pc addr size ∧
    step.pre.threads.lookup tls = some thread
  stored : step.pre.vars.lookup addr = some var
  epoch : thread.id ≠ var.wId

/-- The epoch is one of another thread, and the clock the thread knows for it is not larger. -/
def Unknown (layout : Layout) (thread : ThreadState) (id : ℕ) : Prop :=
  layout.makeTid id ≠ thread.getTid layout ∧
    thread.getClockByTid layout (layout.makeTid id) ≤ layout.makeClock id

/-- The first shared read that races with the thread belongs to a registered thread other than 0. -/
def FindsSharedRead (layout : Layout) (ft : Fasttrack) (thread : ThreadState)
    (var : VarState) : Prop :=
  ∃ first ∈ var.firstShRace layout thread,
    layout.makeTid first ≠ 0 ∧ layout.makeTid first ∈ ft.threads

/-- The address has been written, the thread is registered under its tid, and so is the thread that
is reported: the recorded writer if the two writes race, else the reader the check finds. -/
def ChecksReads (layout : Layout) (ft : Fasttrack) (thread : ThreadState) (var : VarState) : Prop :=
  var.wId ≠ VarState.varNotInit ∧ thread.getTid layout ∈ ft.threads ∧
    (var.isWwRace layout thread ∧ var.getWTid layout ∈ ft.threads ∨
      if var.isReadShared then FindsSharedRead layout ft thread var
      else var.getRTid layout ∈ ft.threads)

instance (layout : Layout) (thread : ThreadState) (id : ℕ) : Decidable (Unknown layout thread id) :=
  inferInstanceAs (Decidable (_ ∧ _))

variable {layout : Layout} {past : List Step} {ft next : Fasttrack} {event : Event}
  {output : Output}
  {step : Step} {thread : ThreadState} {var : VarState} {addr tid id : ℕ}

/-- The check names the thread of the first shared read that races. -/
theorem findsSharedRead_iff : FindsSharedRead layout ft thread var ↔
    var.isRwShRace layout thread ≠ 0 ∧ var.isRwShRace layout thread ∈ ft.threads := by
  unfold FindsSharedRead VarState.isRwShRace
  cases var.firstShRace layout thread with
  | none => simp
  | some first => simp

theorem mem_writeVerdict :
    (true, tid) ∈ var.writeVerdict layout thread ↔
      var.isWwRace layout thread ∧ tid = var.getWTid layout := by
  unfold VarState.writeVerdict VarState.isWwRace VarState.getWTid
  split
  · next races => simp [races]
  · next quiet => simp [quiet]

theorem mem_readVerdict :
    (false, tid) ∈ var.readVerdict layout thread ↔
      if var.isReadShared then var.isRwShRace layout thread ≠ 0 ∧ tid = var.isRwShRace layout thread
      else var.isRwExRace layout thread ∧ tid = var.getRTid layout := by
  unfold VarState.readVerdict VarState.isRwExRace VarState.getRTid
  split
  · split
    · next none => simp [none]
    · next some => simp [some]
  · split
    · next races => simp [races]
    · next quiet => simp [quiet]

/-- The reports of a write that is not of the recorded epoch. -/
theorem Writes.reports_iff (writes : Writes step addr thread var)
    (defined : step.pre.call layout step.event = some (step.post, step.output))
    (kind : Bool) (tid : ℕ) :
    (∃ race ∈ step.output.races, race.first.write = kind ∧ race.first.threadId = tid ∧
        race.second.accessedMemory = addr) ↔
      (var.wId ≠ VarState.varNotInit ∧
          (kind, tid) ∈ var.writeVerdict layout thread ++ var.readVerdict layout thread) ∧
        tid ∈ step.pre.threads ∧ thread.getTid layout ∈ step.pre.threads := by
  obtain ⟨⟨tls, pc, size, event, registered⟩, stored, epoch⟩ := writes
  have accesses : step.event.access? = some ⟨true, tls, pc, addr, size⟩ := by rw [event]; rfl
  have differs : ¬ var.SameEpoch layout true thread := epoch
  rw [Drace.reports_iff defined accesses registered kind tid, Fasttrack.createVar, stored]
  refine and_congr_left fun _ => ?_
  simp only [VarState.verdicts, if_neg differs]
  split
  · next initial => simp [initial]
  · next written => simp [written]

theorem kind_of_writeVerdict {kind : Bool} (member : (kind, tid) ∈ var.writeVerdict layout thread) :
    kind = true := by
  unfold VarState.writeVerdict at member
  split at member
  · exact (Prod.mk.inj (List.mem_singleton.mp member)).1
  · cases member

theorem kind_of_readVerdict {kind : Bool} (member : (kind, tid) ∈ var.readVerdict layout thread) :
    kind = false := by
  unfold VarState.readVerdict at member
  split at member
  · split at member
    · cases member
    · exact (Prod.mk.inj (List.mem_singleton.mp member)).1
  · split at member
    · exact (Prod.mk.inj (List.mem_singleton.mp member)).1
    · cases member

/-- An unknown exclusive read is found by the check. -/
theorem isRwExRace_of_unknown (exclusive : ¬ var.isReadShared) (member : id ∈ var.readIds)
    (unknown : Unknown layout thread id) : var.isRwExRace layout thread := by
  have reads : var.sharedVc = none := by simpa [VarState.isReadShared] using exclusive
  simp only [VarState.readIds, reads] at member
  split at member
  · cases member
  · next set =>
    obtain ⟨rfl⟩ := List.mem_singleton.mp member
    exact ⟨set, Ne.symm unknown.1, unknown.2⟩

/-- In every run, a write that overwrites a recorded read it does not know of invokes the callback
for the address if and only if the address has been written before and the threads it names are
registered. -/
theorem write_reports_iff (reaches : Reaches layout past ft) :
    Always (fun _ step => ∀ addr thread var, Writes step addr thread var →
      (∃ id ∈ var.readIds, Unknown layout thread id) →
      ((∃ race ∈ step.output.races, race.second.accessedMemory = addr) ↔
        ChecksReads layout step.pre thread var)) past := by
  rintro front step initial addr thread var writes ⟨id, member, unknown⟩
  have reports := writes.reports_iff (reaches.step initial).2
  constructor
  · rintro ⟨race, reported, atAddr⟩
    obtain ⟨⟨written, verdict⟩, registered, own⟩ :=
      (reports race.first.write race.first.threadId).mp ⟨race, reported, rfl, rfl, atAddr⟩
    refine ⟨written, own, ?_⟩
    rcases List.mem_append.mp verdict with first | second
    · rw [kind_of_writeVerdict first, mem_writeVerdict] at first
      exact Or.inl ⟨first.1, first.2 ▸ registered⟩
    · rw [kind_of_readVerdict second, mem_readVerdict] at second
      refine Or.inr ?_
      split at second
      · next shared =>
        exact (if_pos shared).mpr (findsSharedRead_iff.mpr ⟨second.1, second.2 ▸ registered⟩)
      · next exclusive => exact (if_neg exclusive).mpr (second.2 ▸ registered)
  · rintro ⟨written, own, found⟩
    obtain ⟨kind, tid, verdict, registered⟩ : ∃ kind tid,
        (kind, tid) ∈ var.writeVerdict layout thread ++ var.readVerdict layout thread ∧
          tid ∈ step.pre.threads := by
      rcases found with ⟨races, registered⟩ | found
      · exact ⟨true, _, List.mem_append_left _ (mem_writeVerdict.mpr ⟨races, rfl⟩), registered⟩
      · refine ⟨false, ?_⟩
        by_cases shared : var.isReadShared
        · obtain ⟨races, registered⟩ := findsSharedRead_iff.mp ((if_pos shared).mp found)
          exact ⟨_, List.mem_append_right _
            (mem_readVerdict.mpr ((if_pos shared).mpr ⟨races, rfl⟩)),
            registered⟩
        · have races := isRwExRace_of_unknown shared member unknown
          exact ⟨_, List.mem_append_right _
            (mem_readVerdict.mpr ((if_neg shared).mpr ⟨races, rfl⟩)),
            (if_neg shared).mp found⟩
    obtain ⟨race, reported, _, _, atAddr⟩ :=
      (reports kind tid).mpr ⟨⟨written, verdict⟩, registered, own⟩
    exact ⟨race, reported, atAddr⟩

theorem write_reports_iff_second_write :
    Always (fun _ step => ∀ addr thread var, Writes step addr thread var →
      (∃ id ∈ var.readIds, Unknown .x64 thread id) →
      ((∃ race ∈ step.output.races, race.second.accessedMemory = addr) ↔
        ChecksReads .x64 step.pre thread var))
      (ran .x64 [.fork 9 1, .fork 9 2, .write 1 0 0x100 3, .read 1 0 0x100 3,
        .write 2 0 0x100 3]).1 :=
  write_reports_iff (reaches_ran .x64 _)

/-- Thread 1 reads the address before thread 2 writes it for the first time. -/
def readBeforeWrite : List Event := [.fork 9 1, .fork 9 2, .read 1 0 0x100 3, .write 2 0 0x100 3]

/-- The first write to an address drops the reads before it: thread 2 does not know of the read of
thread 1, and no callback is invoked. -/
theorem initial_write_silent :
    Reaches .x64 (ran .x64 readBeforeWrite).1 (ran .x64 readBeforeWrite).2 ∧
      RoomAlong .x64 (ran .x64 readBeforeWrite).1 ∧
      ¬ Always (fun _ step => ∀ addr thread var, Writes step addr thread var →
        (∃ id ∈ var.readIds, Unknown .x64 thread id) →
        ∃ race ∈ step.output.races, race.second.accessedMemory = addr)
        (ran .x64 readBeforeWrite).1 := by
  refine ⟨reaches_ran .x64 _, by decide +kernel, fun always => ?_⟩
  obtain ⟨thread, found, var, stored, epoch, unknown⟩ :
      ∃ thread ∈ ((ran .x64 readBeforeWrite).1.get ⟨3, by decide +kernel⟩).pre.threads.lookup 2,
        ∃ var ∈ ((ran .x64 readBeforeWrite).1.get ⟨3, by decide +kernel⟩).pre.vars.lookup 0x100,
        thread.id ≠ var.wId ∧ ∃ id ∈ var.readIds, Unknown .x64 thread id := by decide +kernel
  obtain ⟨race, reported, _⟩ := always_iff_forall_index.mp always
    ⟨3, by decide +kernel⟩ 0x100 thread
    var ⟨⟨2, 0, 3, by decide +kernel, found⟩, stored, epoch⟩ unknown
  have silent : ((ran .x64 readBeforeWrite).1.get ⟨3, by decide +kernel⟩).output.races = [] := by
    decide +kernel
  have none : race ∈ ([] : List Race) := silent ▸ reported
  cases none

/-! ### The shared read list -/

/-- In every run, a write to a written, read-shared address with an unknown read of a registered
thread invokes the callback for a registered reader if and only if the first shared read that
races belongs to a registered thread other than 0, and the writing thread is registered under its
tid. -/
theorem reader_reported_iff (reaches : Reaches layout past ft) :
    Always (fun _ step => ∀ addr thread var, Writes step addr thread var →
      var.wId ≠ VarState.varNotInit → var.isReadShared →
      (∃ id ∈ var.readIds, Unknown layout thread id ∧ layout.makeTid id ∈ step.pre.threads) →
      ((∃ race ∈ step.output.races, race.first.write = false ∧
        race.first.threadId ∈ step.pre.threads ∧
          race.second.accessedMemory = addr) ↔
        FindsSharedRead layout step.pre thread var ∧
          thread.getTid layout ∈ step.pre.threads)) past := by
  rintro front step initial addr thread var writes written shared _
  have reports := writes.reports_iff (reaches.step initial).2 false
  have verdict : ∀ tid, (false, tid) ∈ var.writeVerdict layout thread ++
      var.readVerdict layout thread ↔
        var.isRwShRace layout thread ≠ 0 ∧ tid = var.isRwShRace layout thread := by
    intro tid
    rw [List.mem_append, mem_readVerdict, if_pos shared]
    refine or_iff_right fun member => ?_
    cases kind_of_writeVerdict member
  constructor
  · rintro ⟨race, reported, kind, _, atAddr⟩
    obtain ⟨⟨_, found⟩, registered, own⟩ := (reports _).mp ⟨race, reported, kind, rfl, atAddr⟩
    obtain ⟨races, same⟩ := (verdict _).mp found
    exact ⟨findsSharedRead_iff.mpr ⟨races, same ▸ registered⟩, own⟩
  · rintro ⟨finds, own⟩
    obtain ⟨races, registered⟩ := findsSharedRead_iff.mp finds
    obtain ⟨race, reported, kind, tid, atAddr⟩ := (reports _).mpr
      ⟨⟨written, (verdict _).mpr ⟨races, rfl⟩⟩, registered, own⟩
    exact ⟨race, reported, kind, tid ▸ registered, atAddr⟩

theorem reader_reported_iff_two_readers :
    Always (fun _ step => ∀ addr thread var, Writes step addr thread var →
      var.wId ≠ VarState.varNotInit → var.isReadShared →
      (∃ id ∈ var.readIds, Unknown .x64 thread id ∧ Layout.x64.makeTid id ∈ step.pre.threads) →
      ((∃ race ∈ step.output.races, race.first.write = false ∧
        race.first.threadId ∈ step.pre.threads ∧
          race.second.accessedMemory = addr) ↔
        FindsSharedRead .x64 step.pre thread var ∧ thread.getTid .x64 ∈ step.pre.threads))
      (ran .x64 [.fork 9 1, .fork 9 2, .fork 9 3, .write 3 0 0x100 3, .read 1 0 0x100 3,
        .read 2 0 0x100 3, .release 3 7 true, .acquire 3 7 1 true, .release 3 7 true,
        .write 3 0 0x100 3]).1 :=
  reader_reported_iff (reaches_ran .x64 _)

/-- Thread 1 reads the address and finishes, thread 2 reads it and stays, and thread 3 writes. -/
def finishedReader : List Event :=
  [.fork 9 1, .fork 9 2, .fork 9 3, .write 2 0 0x100 3, .read 1 0 0x100 3, .read 2 0 0x100 3,
    .finish 1 1, .write 3 0 0x100 3]

/-- The read of a finished thread hides the read of a registered one: the check stops at the entry
of thread 1, whose report is dropped, and never compares the entry of thread 2. -/
theorem finished_reader_hides :
    Reaches .x64 (ran .x64 finishedReader).1 (ran .x64 finishedReader).2 ∧
      RoomAlong .x64 (ran .x64 finishedReader).1 ∧
      ¬ Always (fun _ step => ∀ addr thread var, Writes step addr thread var →
        var.wId ≠ VarState.varNotInit → var.isReadShared →
        (∃ id ∈ var.readIds, Unknown .x64 thread id ∧ Layout.x64.makeTid id ∈ step.pre.threads) →
        ∃ race ∈ step.output.races, race.first.write = false ∧
          race.first.threadId ∈ step.pre.threads ∧ race.second.accessedMemory = addr)
        (ran .x64 finishedReader).1 := by
  refine ⟨reaches_ran .x64 _, by decide +kernel, fun always => ?_⟩
  obtain ⟨thread, found, var, stored, epoch, written, shared, unknown⟩ :
      ∃ thread ∈ ((ran .x64 finishedReader).1.get ⟨7, by decide +kernel⟩).pre.threads.lookup 3,
        ∃ var ∈ ((ran .x64 finishedReader).1.get ⟨7, by decide +kernel⟩).pre.vars.lookup 0x100,
        thread.id ≠ var.wId ∧ var.wId ≠ VarState.varNotInit ∧ var.isReadShared ∧
        ∃ id ∈ var.readIds, Unknown .x64 thread id ∧ Layout.x64.makeTid id ∈
          ((ran .x64 finishedReader).1.get ⟨7, by decide +kernel⟩).pre.threads := by decide +kernel
  obtain ⟨race, reported, read, _⟩ := always_iff_forall_index.mp always ⟨7, by decide +kernel⟩ 0x100
    thread var ⟨⟨3, 0, 3, by decide +kernel, found⟩, stored, epoch⟩ written shared unknown
  have silent : ∀ race ∈ ((ran .x64 finishedReader).1.get ⟨7, by decide +kernel⟩).output.races,
      race.first.write = true := by decide +kernel
  exact absurd ((silent race reported).symm.trans read) (by decide)

end Drace
