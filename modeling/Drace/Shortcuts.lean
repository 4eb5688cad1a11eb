/-
This file says what the same-epoch shortcuts of the access checks may skip.

A read or write of the epoch that is recorded for it returns early. The state of
the address may have changed in that epoch: others may have read it since the
thread has written it, and their reads are recorded. None of the races the checks
would find is new. A full write resets the recorded reads, so each recorded read
came after the recorded write and was checked against it, and no other thread can
have learned of the current epoch of the writer.

The argument needs that the id of a thread that reads is not the value that stands
for no access, which is the first id of tid 0, and that nothing a thread knows of a
registered one is swept out.
-/

import Drace.Completeness
import Drace.ThreadTable

namespace Drace

open Clocks Machine

/-- The ways that end an access before the checks. -/
def Rule.sameEpoch : Rule → Bool
  | .readExSameEpoch | .readShSameEpoch | .writeSameEpoch => true
  | _ => false

/-- The checks behind the same-epoch returns find a race with an access of this thread. -/
def VarState.Blames (layout : Layout) (var : VarState) (thread : ThreadState) (tid : ℕ) :
    Bool → Prop
  | false => var.isWrRace layout thread ∧ var.getWTid layout = tid
  | true => var.getWriteId ≠ varNotInit ∧
    (var.isWwRace layout thread ∧ var.getWTid layout = tid ∨
      if var.isReadShared then var.isRwShRace layout thread ≠ 0 ∧ var.isRwShRace layout thread = tid
      else var.isRwExRace layout thread ∧ var.getRTid layout = tid)

instance (layout : Layout) (var : VarState) (thread : ThreadState) (tid : ℕ) :
    (write : Bool) → Decidable (var.Blames layout thread tid write)
  | false => inferInstanceAs (Decidable (_ ∧ _))
  | true => inferInstanceAs (Decidable (_ ∧ (_ ∨ ite _ (_ ∧ _) (_ ∧ _))))

/-- Some call has reported a race on the address with these two threads. -/
def Reported (past : List Step) (addr first second : ℕ) : Prop :=
  ∃ step ∈ past, ∃ race ∈ step.output.races, race.second.accessedMemory = addr ∧
    race.first.threadId = first ∧ race.second.threadId = second

instance (past : List Step) (addr first second : ℕ) :
    Decidable (Reported past addr first second) :=
  inferInstanceAs (Decidable (∃ step ∈ past, ∃ race ∈ step.output.races, _ ∧ _ ∧ _))

/-- If an access leaves by a shortcut, the races the checks would have found with registered threads
have been reported before. -/
def LosesNothing (layout : Layout) (front : List Step) (step : Step) : Prop :=
  ∀ access thread, step.event.access? = some access →
    step.pre.threads.lookup access.tls = some thread →
    let var := step.pre.createVar access.addr access.size
    let tid := thread.getTid layout
    ((step.pre.recordAccess access.tls thread access.pc access.addr).accessVar layout access.write
      thread var access.addr).2.2.sameEpoch = true →
    ∀ other, var.Blames layout thread other access.write → other ∈ step.pre.threads →
      tid ∈ step.pre.threads →
      Reported front access.addr other tid ∨ Reported front access.addr tid other

instance (layout : Layout) (front : List Step) (step : Step) :
    Decidable (LosesNothing layout front step) :=
  decidable_of_iff
    (∀ access ∈ step.event.access?, ∀ thread ∈ step.pre.threads.lookup access.tls,
      let var := step.pre.createVar access.addr access.size
      let tid := thread.getTid layout
      ((step.pre.recordAccess access.tls thread access.pc access.addr).accessVar layout access.write
        thread var access.addr).2.2.sameEpoch = true →
      ∀ other ∈ step.pre.threads.keys, var.Blames layout thread other access.write →
        tid ∈ step.pre.threads →
        Reported front access.addr other tid ∨ Reported front access.addr tid other)
    ⟨fun all access thread accesses registered leaves other blames live =>
      all access accesses thread registered leaves other live blames,
    fun nothing access accesses thread registered leaves other live blames =>
      nothing access thread accesses registered leaves other blames live⟩

/-- The id of a thread that reads is not the value that stands for no access, and a tid that is
finished without being registered is not converted to that of a registered thread. -/
structure Distinct (layout : Layout) (step : Step) : Prop where
  reads : ∀ access, step.event.access? = some access → access.write = false →
    step.pre.clocks.idOf access.tls ≠ some VarState.varNotInit
  spares : step.event.Spares layout step.pre.clocks

instance (layout : Layout) (step : Step) : Decidable (Distinct layout step) :=
  decidable_of_iff
    ((∀ access ∈ step.event.access?, access.write = false →
        step.pre.clocks.idOf access.tls ≠ some VarState.varNotInit) ∧
      step.event.Spares layout step.pre.clocks)
    ⟨fun ⟨reads, spares⟩ => ⟨reads, spares⟩, fun ⟨reads, spares⟩ => ⟨reads, spares⟩⟩

variable {layout : Layout} {past front : List Step} {ft next : Fasttrack} {step : Step}
  {before after : Clocks} {event : Event} {output : Output} {access : Access}
  {thread : ThreadState} {var : VarState} {write kind : Bool} {addr tid other id : ℕ}

/-! ### The shortcuts -/

/-- An access leaves by a shortcut if and only if it is of the recorded epoch. -/
theorem Fasttrack.sameEpoch_iff : (ft.accessVar layout write thread var addr).2.2.sameEpoch = true ↔
    var.SameEpoch layout write thread := by
  cases write with
  | true =>
    change (ft.writeVar layout thread var addr).2.2.sameEpoch = true ↔ _
    unfold writeVar
    by_cases same : thread.returnOwnId = var.getWriteId
    · rw [if_pos same]
      exact iff_of_true rfl same
    · rw [if_neg same]
      refine iff_of_false ?_ same
      split
      · simp [Rule.sameEpoch]
      · simp only
        split <;> simp [Rule.sameEpoch]
  | false =>
    change (ft.readVar layout thread var addr).2.2.sameEpoch = true ↔ _
    unfold readVar
    by_cases exclusive : thread.returnOwnId = var.getReadId
    · rw [if_pos exclusive]
      exact iff_of_true rfl (Or.inl exclusive)
    · rw [if_neg exclusive]
      simp only
      by_cases shared : var.isReadShared ∧
          var.getVcByThr layout (thread.getTid layout) = thread.returnOwnId
      · rw [if_pos shared]
        exact iff_of_true rfl (Or.inr shared)
      · rw [if_neg shared]
        refine iff_of_false ?_ (not_or.mpr ⟨exclusive, shared⟩)
        split
        · split <;> simp [Rule.sameEpoch]
        · simp [Rule.sameEpoch]

/-- Only a read of a thread whose epoch is recorded can race with the recorded write, and only a
recorded read can race with a write of the recorded epoch. -/
theorem VarState.blames_of_sameEpoch (same : var.SameEpoch layout write thread)
    (blames : var.Blames layout thread tid write) :
    write = false ∧ racesWith layout var.wId thread ∧ layout.makeTid var.wId = tid ∨
      write = true ∧ ∃ id ∈ var.readIds, racesWith layout id thread ∧ layout.makeTid id = tid := by
  cases write with
  | false => exact Or.inl ⟨rfl, blames⟩
  | true =>
    refine Or.inr ⟨rfl, ?_⟩
    have own : thread.id = var.wId := same
    rcases blames.2 with ⟨races, _⟩ | reads
    · have differs := races.2.1
      rw [ThreadState.getTid, own] at differs
      exact absurd rfl differs
    split at reads
    · next shared =>
      obtain ⟨id, member, races, tid⟩ := isRwShRace_ne_zero reads.1
      obtain ⟨vec, ids⟩ := Option.isSome_iff_exists.mp shared
      refine ⟨id, ?_, races, tid.trans reads.2⟩
      simpa [readIds, sharedIds, ids] using member
    · next exclusive =>
      have ids : var.sharedVc = none := by simpa [isReadShared] using exclusive
      exact ⟨var.rId, by simp [readIds, ids, reads.1.1], reads.1, reads.2⟩

/-! ### What the recorded reads have found -/

/-- Every recorded read of another thread than the recorded write was reported with it, or its
thread knows of the write, as long as both threads are registered. -/
def Noticed (layout : Layout) (past : List Step) (ft : Fasttrack) (addr : ℕ) (var : VarState) :
    Prop :=
  ∀ id ∈ var.readIds, var.wId ≠ VarState.varNotInit → layout.makeTid var.wId ≠ layout.makeTid id →
    layout.makeTid var.wId ∈ ft.threads → layout.makeTid id ∈ ft.threads →
    Reported past addr (layout.makeTid var.wId) (layout.makeTid id) ∨
      var.wId < ft.clocks.view (.thread (layout.makeTid id)) (layout.makeTid var.wId)

theorem Reported.append (reported : Reported past addr tid other) :
    Reported (past ++ [step]) addr tid other := by
  obtain ⟨earlier, member, race⟩ := reported
  exact ⟨earlier, List.mem_append_left _ member, race⟩

/-- A full write forgets the recorded reads. -/
theorem VarState.readIds_after_write (differs : ¬ var.SameEpoch layout true thread) :
    (var.after layout true thread).readIds = [] := by
  rw [VarState.after, if_neg differs]
  rfl

/-- Only a fork registers a tid. -/
theorem registered_or_forks (defined : ft.call layout event = some (next, output))
    (registered : tid ∈ next.threads) :
    tid ∈ ft.threads ∨ ∃ child, event.forks? = some child ∧ child % layout.tidRange = tid := by
  have registers := (Fasttrack.mem_threads_call defined).mp registered
  cases event with
  | fork parent child =>
    exact registers.symm.imp_right fun same => ⟨child, rfl, same.symm⟩
  | join | finish => exact Or.inl registers.1
  | finalize => cases registers
  | _ => exact Or.inl registers

/-- A registered thread was forked. -/
theorem Reaches.forked (reaches : Reaches layout past ft) (registered : tid ∈ ft.threads) :
    Forked layout past tid := by
  induction reaches with
  | start begins =>
    obtain ⟨argv, rfl⟩ := begins
    cases registered
  | call earlier defined inductionHypothesis =>
    rcases registered_or_forks defined registered with was | ⟨child, forks, same⟩
    · exact (inductionHypothesis was).mono
    · exact ⟨_, List.mem_append_right _ (List.mem_singleton_self _), child, forks, same⟩

/-- Without tid reuse, a tid that was forked before is not registered by a call. -/
theorem registered_of_forked (defined : ft.call layout event = some (next, output))
    (fresh : FreshFork layout past ft.clocks event) (forked : Forked layout past tid)
    (registered : tid ∈ next.threads) : tid ∈ ft.threads := by
  rcases registered_or_forks defined registered with was | ⟨child, forks, rfl⟩
  · exact was
  · by_contra absent
    exact fresh child forks
      (Fasttrack.idOf_eq_none.mpr (AList.lookup_eq_none.mpr absent)) forked

/-- The thread of a recorded epoch was forked. -/
theorem Reaches.recorded_forked (reaches : Reaches layout past ft) (room : RoomAlong layout past)
    (found : ft.vars.lookup addr = some var) (member : id ∈ var.recorded kind) :
    id < layout.sizeRange ∧ Forked layout past (layout.makeTid id) := by
  obtain ⟨step, made, tid, makes⟩ := Reaches.recorded reaches found member
  obtain ⟨bound, decodes⟩ := makes.makeTid (Reaches.wellFormed_pre reaches room made)
  refine ⟨bound, ?_⟩
  obtain ⟨access, _, _, _, _, now⟩ := makes
  obtain ⟨front, rest, rfl⟩ := List.append_of_mem made
  have before := (reaches.step (show front ++ [step] <+: front ++ step :: rest from
    ⟨rest, by simp⟩)).1
  have registered : tid ∈ step.pre.threads := Fasttrack.idOf_ne_none.mp (by simp [now])
  obtain ⟨fork, inFront, forks⟩ := Reaches.forked before registered
  exact decodes ▸ ⟨fork, List.mem_append_left _ inFront, forks⟩

/-- A call that keeps the clocks keeps what was noticed. -/
theorem Noticed.of_clocks (noticed : Noticed layout past ft addr var)
    (same : next.clocks = ft.clocks) : Noticed layout (past ++ [step]) next addr var := by
  intro id member set differs writerLive readerLive
  rw [← Fasttrack.idOf_ne_none, same, Fasttrack.idOf_ne_none] at writerLive readerLive
  rw [same]
  exact (noticed id member set differs writerLive readerLive).imp_left Reported.append

theorem noticed_createVar {size : ℕ}
    (noticed : ∀ var, ft.vars.lookup addr = some var → Noticed layout past ft addr var) :
    Noticed layout past ft addr (ft.createVar addr size) := by
  unfold Fasttrack.createVar
  cases found : ft.vars.lookup addr with
  | none => exact fun id member => (nomatch member)
  | some var => exact noticed var found

section Step

variable (reaches : Reaches layout past step.pre) (room : RoomAlong layout (past ++ [step]))
  (defined : step.pre.call layout step.event = some (step.post, step.output))
  (distinct : Distinct layout step)
  (fresh : FreshFork layout past step.pre.clocks step.event)

include reaches room defined distinct fresh

/-- What was noticed stays noticed. -/
theorem Noticed.keep (noticed : Noticed layout past step.pre addr var)
    (found : step.pre.vars.lookup addr = some var) :
    Noticed layout (past ++ [step]) step.post addr var := by
  intro id member set differs writerLive readerLive
  have before := room.before (List.prefix_append _ _)
  have wasLive := fun {kind id} (member : id ∈ var.recorded kind) =>
    registered_of_forked defined fresh
      (Reaches.recorded_forked reaches before found member).2
  have writerWas := wasLive (VarState.mem_recorded_write.mpr ⟨rfl, set⟩) writerLive
  have readerWas := wasLive (show id ∈ var.recorded false from member) readerLive
  refine (noticed id member set differs writerWas readerWas).imp Reported.append fun known => ?_
  have wellFormed := Reaches.wellFormed reaches before
  have here := room step (List.mem_append_right _ (List.mem_singleton_self _))
  have made := Fasttrack.call_clockStep wellFormed here defined
  exact known.trans_le (made.grows wellFormed distinct.spares (.thread (layout.makeTid id)) _
    (Fasttrack.idOf_ne_none.mpr readerWas) (Fasttrack.idOf_ne_none.mpr writerWas)
    (Fasttrack.idOf_ne_none.mpr readerLive) (Fasttrack.idOf_ne_none.mpr writerLive))

omit distinct fresh in
/-- A read that is checked against the recorded write knows of it, or the two are reported. -/
theorem noticed_of_read (accesses : step.event.access? = some access) (reads : access.write = false)
    (registered : step.pre.threads.lookup access.tls = some thread)
    (differs : ¬ (step.pre.createVar access.addr access.size).SameEpoch layout false thread)
    (member : id ∈ (step.pre.createVar access.addr access.size).recorded true)
    (other : layout.makeTid id ≠ access.tls) (live : layout.makeTid id ∈ step.pre.threads) :
    Reported (past ++ [step]) access.addr (layout.makeTid id) access.tls ∨
      id < step.pre.clocks.view (.thread access.tls) (layout.makeTid id) := by
  have before := room.before (List.prefix_append _ _)
  have wellFormed := Reaches.wellFormed reaches before
  have holds := Fasttrack.holds_of_lookup registered
  have tid : thread.getTid layout = access.tls := (wellFormed.encodes _ _ holds.2).2
  obtain ⟨var, found, stored⟩ := recorded_createVar member
  obtain ⟨bound, _⟩ := Reaches.recorded_forked reaches before found stored
  obtain ⟨same, set⟩ := VarState.mem_recorded_write.mp member
  by_cases races : VarState.racesWith layout id thread
  · have verdict : (true, layout.makeTid id) ∈
        (step.pre.createVar access.addr access.size).verdicts layout access.write thread := by
      rw [reads, VarState.verdicts, if_neg differs]
      simp only [VarState.writeVerdict]
      rw [← same, if_pos races]
      exact List.mem_singleton_self _
    obtain ⟨race, reported, _, first, addr⟩ :=
      (reports_iff defined accesses registered true (layout.makeTid id)).mpr
        ⟨verdict, live, tid.symm ▸ Fasttrack.mem_threads_of_lookup registered⟩
    obtain ⟨origin, _, _, _, originAccesses, _, _, _, _, _, _, _, _, second, _⟩ :=
      race_of_call wellFormed defined reported
    obtain ⟨rfl⟩ : access = origin := Option.some.inj (accesses.symm.trans originAccesses)
    exact Or.inl ⟨step, List.mem_append_right _ (List.mem_singleton_self _), race, reported, addr,
      first, second⟩
  · refine Or.inr (not_le.mp fun unknown => ?_)
    exact races ((wellFormed.racesWith_iff holds bound).mpr ⟨set, other, unknown⟩)

omit distinct fresh in
/-- An access leaves only reads that have noticed the recorded write. -/
theorem noticed_access (accesses : step.event.access? = some access)
    (noticed : ∀ var, step.pre.vars.lookup access.addr = some var →
      Noticed layout past step.pre access.addr var)
    (found : step.post.vars.lookup access.addr = some var) :
    Noticed layout (past ++ [step]) step.post access.addr var := by
  have wellFormed := Reaches.wellFormed reaches (room.before (List.prefix_append _ _))
  have here := room step (List.mem_append_right _ (List.mem_singleton_self _))
  have kept : step.post.clocks = step.pre.clocks :=
    (Fasttrack.call_clockStep wellFormed here defined).eq_of_access accesses
  obtain ⟨thread, registered, _, _, vars, _⟩ := Fasttrack.call_access accesses defined
  rw [vars, AList.lookup_insert] at found
  obtain ⟨rfl⟩ := Option.some.inj found
  have old : Noticed layout (past ++ [step]) step.post access.addr
      (step.pre.createVar access.addr access.size) :=
    (noticed_createVar noticed).of_clocks kept
  by_cases same : (step.pre.createVar access.addr access.size).SameEpoch layout access.write thread
  · unfold VarState.after
    rwa [if_pos same]
  cases writes : access.write with
  | true =>
    rw [writes] at same
    intro id member
    rw [VarState.readIds_after_write same] at member
    cases member
  | false =>
    rw [writes] at same
    intro id member set differs writerLive readerLive
    rw [VarState.wId_after_read] at set differs writerLive ⊢
    rcases VarState.mem_recorded_after
      (show id ∈ VarState.recorded _ false from member) with earlier | ⟨_, rfl⟩
    · exact old id earlier set differs writerLive readerLive
    · have holds := Fasttrack.holds_of_lookup registered
      have tid : layout.makeTid thread.id = access.tls := (wellFormed.encodes _ _ holds.2).2
      rw [tid] at differs ⊢
      rw [kept]
      refine noticed_of_read reaches room defined accesses writes registered same
        (VarState.mem_recorded_write.mpr ⟨rfl, set⟩) differs ?_
      rwa [← Fasttrack.idOf_ne_none, kept, Fasttrack.idOf_ne_none] at writerLive

/-- The step rule for what was noticed. -/
theorem noticed_append
    (noticed : ∀ addr var, step.pre.vars.lookup addr = some var →
      Noticed layout past step.pre addr var)
    (found : step.post.vars.lookup addr = some var) :
    Noticed layout (past ++ [step]) step.post addr var := by
  cases accesses : step.event.access? with
  | none =>
    have was := Fasttrack.call_forgets accesses defined found
    exact (noticed addr var was).keep reaches room defined distinct fresh was
  | some access =>
    by_cases same : addr = access.addr
    · subst same
      exact noticed_access reaches room defined accesses (noticed _) found
    · obtain ⟨_, _, _, _, vars, _⟩ := Fasttrack.call_access accesses defined
      rw [vars, AList.lookup_insert_ne same] at found
      exact (noticed addr var found).keep reaches room defined distinct fresh found

end Step

/-! ### The main result -/

/-- In every run without tid reuse and clock overflow, each recorded read has noticed the recorded
write. -/
theorem Reaches.noticed (reaches : Reaches layout past ft) (room : RoomAlong layout past)
    (fresh : Always (fun front step => FreshFork layout front step.pre.clocks step.event) past)
    (distinct : ∀ step ∈ past, Distinct layout step) (found : ft.vars.lookup addr = some var) :
    Noticed layout past ft addr var := by
  induction reaches generalizing addr var with
  | start begins =>
    obtain ⟨argv, rfl⟩ := begins
    simp [Fasttrack.init] at found
  | @call past before next event output earlier defined inductionHypothesis =>
    obtain ⟨freshBefore, freshHere⟩ := always_append.mp fresh
    have noticed : ∀ addr var, before.vars.lookup addr = some var →
        Noticed layout past before addr var := fun _ _ found => inductionHypothesis
      (room.before (List.prefix_append _ _)) freshBefore
      (fun step member => distinct step (List.mem_append_left _ member)) found
    have step : Noticed layout (past ++ [⟨before, event, next, output⟩])
        (Step.post ⟨before, event, next, output⟩) addr var :=
      noticed_append earlier room defined
        (distinct _ (List.mem_append_right _ (List.mem_singleton_self _))) freshHere noticed found
    exact step

/-- The same-epoch shortcuts lose nothing, in every run without tid reuse and clock overflow in
which no thread reads with the id that stands for no access and the end of an unregistered thread
sweeps out no registered one: each race the checks would have found with a registered thread has
been reported before, with the same two threads. -/
theorem shortcuts_lose_nothing (reaches : Reaches layout past ft) (room : RoomAlong layout past)
    (fresh : Always (fun front step => FreshFork layout front step.pre.clocks step.event) past)
    (distinct : ∀ step ∈ past, Distinct layout step) : Always (LosesNothing layout) past := by
  intro front step initial access thread accesses registered var tid leaves other blames otherLive
    live
  have shorter := (List.prefix_append front [step]).trans initial
  have before := (reaches.step initial).1
  have wellFormed := Reaches.wellFormed before (room.before shorter)
  have holds := Fasttrack.holds_of_lookup registered
  have own : thread.getTid layout = access.tls := (wellFormed.encodes _ _ holds.2).2
  have noticed : Noticed layout front step.pre access.addr var :=
    noticed_createVar fun var found => Reaches.noticed before (room.before shorter)
      (fresh.before shorter) (fun step member => distinct step (shorter.subset member)) found
  have same := Fasttrack.sameEpoch_iff.mp leaves
  rcases VarState.blames_of_sameEpoch same blames with ⟨reads, races, rfl⟩ |
    ⟨writes, id, member, races, rfl⟩
  · -- the read is recorded, so it was checked when it was recorded
    rw [reads] at same
    have set : thread.id ≠ VarState.varNotInit := fun unset =>
      (distinct step (initial.subset (List.mem_append_right _ (List.mem_singleton_self _)))).reads
        access accesses reads (unset ▸ holds.2)
    have member := VarState.mem_readIds_of_sameEpoch (Reaches.tidy_createVar before) set same
    have written : var.wId ∈ var.recorded true := VarState.mem_recorded_write.mpr ⟨rfl, races.1⟩
    obtain ⟨stored, found, recorded⟩ := recorded_createVar written
    obtain ⟨bound, _⟩ := Reaches.recorded_forked before (room.before shorter) found recorded
    refine Or.inl ((noticed thread.id member races.1 races.2.1.symm otherLive
      live).resolve_right ?_)
    change ¬ var.wId < step.pre.clocks.view (.thread tid) (layout.makeTid var.wId)
    rw [show tid = access.tls from own]
    exact not_lt.mpr ((wellFormed.racesWith_iff holds bound).mp races).2.2
  · -- nobody else knows the current epoch of the writer
    have current : thread.id = var.wId := by rwa [writes] at same
    rw [writes] at blames
    have writer : layout.makeTid var.wId = tid := current ▸ rfl
    have other : layout.makeTid var.wId ≠ layout.makeTid id := writer.symm ▸ races.2.1
    refine Or.inr (writer ▸ (noticed id member blames.1 other (writer.symm ▸ live)
      otherLive).resolve_right ?_)
    rw [view_other (by simpa using other.symm), writer, show tid = access.tls from own, ← current]
    exact not_lt.mpr (wellFormed.getIdByTid_le holds.2 _)

theorem shortcuts_lose_nothing_again :
    Always (LosesNothing .x64) (ran .x64 [.fork 9 1, .fork 9 2, .write 1 0 0x100 3,
      .read 2 0 0x100 3, .read 2 0 0x100 3, .write 1 0 0x100 3]).1 :=
  shortcuts_lose_nothing (reaches_ran .x64 _) (by decide +kernel) (by decide +kernel)
    (by decide +kernel)

/-- Thread 1 writes and thread 0 reads. -/
def readerZero : List Event := [.fork 9 0, .fork 9 1, .write 1 0 0x100 3, .read 0 0 0x100 3]

/-- The first id of tid 0 is the value that stands for no access: its read leaves by a shortcut
although it is the first one, and the race with the write of thread 1 is never reported. -/
theorem reader_zero_missed :
    Reaches .x64 (ran .x64 readerZero).1 (ran .x64 readerZero).2 ∧
      RoomAlong .x64 (ran .x64 readerZero).1 ∧
      Always (fun front step => FreshFork .x64 front step.pre.clocks step.event)
        (ran .x64 readerZero).1 ∧
      ¬ Always (LosesNothing .x64) (ran .x64 readerZero).1 :=
  ⟨reaches_ran .x64 _, by decide +kernel, by decide +kernel, by decide +kernel⟩

/-- Thread 2 knows of the write of thread 1 when it reads, and a tid that is converted to 1 is
finished. -/
def sweptWriter : List Event :=
  [.fork 9 1, .fork 9 2, .acquire 1 7 1 true, .write 1 0 0x100 3, .release 1 7 true,
    .acquire 2 7 1 true, .read 2 0 0x100 3, .finish 2 0x100000001, .read 2 0 0x100 3]

/-- What thread 2 knows is swept out, so the checks behind the shortcut would find the write again,
which was never reported. -/
theorem swept_writer_missed :
    Reaches .x64 (ran .x64 sweptWriter).1 (ran .x64 sweptWriter).2 ∧
      RoomAlong .x64 (ran .x64 sweptWriter).1 ∧
      Always (fun front step => FreshFork .x64 front step.pre.clocks step.event)
        (ran .x64 sweptWriter).1 ∧
      ¬ Always (LosesNothing .x64) (ran .x64 sweptWriter).1 :=
  ⟨reaches_ran .x64 _, by decide +kernel, by decide +kernel, by decide +kernel⟩

end Drace
