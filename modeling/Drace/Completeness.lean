/-
This file proves that the first race on an address is reported.

As long as no thread ends and no address is forgotten, every threshold is
justified: whatever is below it happens before. The state of an address then
accounts for all accesses to it, as long as nothing was reported for it: each
access happens before the recorded write or is covered by a recorded epoch, and
each recorded reader knows the recorded write. An access without a report knows
all the epochs it conflicts with, the same-epoch shortcuts included.
-/

import Drace.History

namespace Drace

open Causality Clocks Machine

/-- The calls that end a thread or forget an address. -/
def Event.forgets : Event → Bool
  | .join .. | .finish .. | .deallocate .. | .finalize => true
  | _ => false

/-- The calls of a run on which nothing is forgotten: no clock is at its maximum, the handle
belongs to a registered thread and no thread with tid 0 is forked. -/
structure Calm (layout : Layout) (step : Step) : Prop where
  room : step.pre.clocks.Room layout
  registered : step.event.Registered step.pre.clocks
  nonzero : ∀ child, step.event.forks? = some child → child % layout.tidRange ≠ 0
  remembers : step.event.forgets = false

instance (layout : Layout) (step : Step) : Decidable (Calm layout step) :=
  decidable_of_iff
    (step.pre.clocks.Room layout ∧ step.event.Registered step.pre.clocks ∧
      (∀ child ∈ step.event.forks?, child % layout.tidRange ≠ 0) ∧ step.event.forgets = false)
    ⟨fun ⟨room, registered, nonzero, remembers⟩ => ⟨room, registered, nonzero, remembers⟩,
    fun ⟨room, registered, nonzero, remembers⟩ => ⟨room, registered, nonzero, remembers⟩⟩

/-- If the step is the first access to the address, it is a write. -/
def WrittenFirst (addr : ℕ) (front : List Step) (step : Step) : Prop :=
  ∀ access, step.event.access? = some access → access.addr = addr →
    (∀ earlier ∈ front, ∀ other, earlier.event.access? = some other → other.addr ≠ addr) →
    access.write = true

instance (addr : ℕ) (front : List Step) (step : Step) : Decidable (WrittenFirst addr front step) :=
  inferInstanceAs (Decidable (∀ access ∈ step.event.access?, access.addr = addr →
    (∀ earlier ∈ front, ∀ other ∈ earlier.event.access?, other.addr ≠ addr) → access.write = true))

/-- The step reports nothing for the address. -/
def Silent (addr : ℕ) (step : Step) : Prop :=
  ∀ race ∈ step.output.races, race.second.accessedMemory ≠ addr

variable {layout : Layout} {past front : List Step} {ft next : Fasttrack} {before after : Clocks}
  {event : Event} {output : Output} {step : Step} {access : Access} {thread : ThreadState}
  {var : VarState} {kind write : Bool} {addr tid tls id current : ℕ}

/-! ### Justified clocks -/

theorem fits_of_remembers (remembers : event.forgets = false) : event.Fits layout := by
  intro threadId finishes
  cases event with
  | finish => cases remembers
  | _ => cases finishes

/-- Where no thread ends, a registered thread stays registered. -/
theorem ClockStep.keepsThread (made : ClockStep layout before event after)
    (remembers : event.forgets = false) (live : before.idOf tid ≠ none) :
      after.idOf tid ≠ none := by
  cases made with
  | keep | acquireRecursive | forkOrphanAgain | joinInvalid | releaseUnknown
  | happensAfterUnknown =>
    exact live
  | acquire | happensAfter | forkOrphan | forkAgain => exact idOf_setThread_ne_none live
  | release | happensBefore =>
    rw [idOf_setClock]
    exact idOf_setThread_ne_none live
  | fork => exact idOf_setThread_ne_none (idOf_setThread_ne_none live)
  | joinSelf | join | finish | finishUnknown | finalize => cases remembers

/-- Ids of registered threads do not decrease. -/
theorem ClockStep.idOf_le (made : ClockStep layout before event after)
    (wellFormed : before.WellFormed layout) (remembers : event.forgets = false)
    (now : before.idOf tid = some current) : ∃ later, after.idOf tid = some later ∧
      current ≤ later := by
  have live : before.idOf tid ≠ none := by rw [now]; simp
  have stays := made.keepsThread remembers live
  obtain ⟨later, found⟩ := Option.ne_none_iff_exists'.mp stays
  have grows := made.grows wellFormed (fits_of_remembers remembers).spares
    (.thread tid) tid live live stays stays
  rw [view_own now, view_own found] at grows
  exact ⟨later, found, Nat.le_of_succ_le_succ grows⟩

theorem ClockStep.forks_registers (made : ClockStep layout before event after) {child : ℕ}
    (forks : event.forks? = some child) : after.idOf (child % layout.tidRange) ≠ none := by
  cases event with
  | fork parent other =>
    obtain ⟨rfl⟩ := Option.some.inj forks
    cases made with
    | keep keeps => cases keeps
    | forkOrphan | fork =>
      rw [idOf_setThread_self]
      simp
    | forkOrphanAgain _ present => exact present
    | forkAgain _ present => exact idOf_setThread_ne_none present
  | _ => cases forks

/-- What the clocks know along a run on which nothing is forgotten. -/
structure Exact (layout : Layout) (past : List Step) (clocks : Clocks) : Prop where
  wellFormed : clocks.WellFormed layout
  forked : AllForked layout past clocks
  stays : ∀ tid, Forked layout past tid → clocks.idOf tid ≠ none
  nonzero : clocks.idOf 0 = none
  justified : Justified (flow layout joinsLive) stamp past clocks.snapshot

theorem Exact.append (exact : Exact layout past step.pre.clocks)
    (made : ClockStep layout step.pre.clocks step.event after) (calm : Calm layout step) :
    Exact layout (past ++ [step]) after := by
  have fresh : FreshFork layout past step.pre.clocks step.event :=
    fun child _ absent forked => exact.stays _ forked absent
  refine ⟨made.wellFormed exact.wellFormed calm.room,
    allForked_append exact.forked made calm.registered, ?_, ?_, ?_⟩
  · rintro tid ⟨earlier, member, child, forks, rfl⟩
    rcases List.mem_append.mp member with old | new
    · exact made.keepsThread calm.remembers (exact.stays _ ⟨earlier, old, child, forks, rfl⟩)
    · obtain ⟨rfl⟩ := List.mem_singleton.mp new
      exact made.forks_registers forks
  · by_contra live
    rcases made.registers live with was | ⟨_, child, forks, same⟩
    · exact was exact.nonzero
    · exact calm.nonzero child forks same
  · have own : ∀ step tid id, stamp step tid id →
        (flow layout joinsLive).puts step (.thread tid) := fun _ _ _ stamped => Or.inl stamped.1
    exact exact.justified.append own (made.extends exact.forked fresh)
      (made.limits exact.wellFormed calm.registered)

/-- The id of a registered thread is never the value that stands for no access. -/
theorem Exact.id_ne_varNotInit {clock : VectorClock} (exact : Exact layout past before)
    (holds : before.Holds tls clock id) : id ≠ VarState.varNotInit := by
  rintro rfl
  have zero : tls = 0 := by
    rw [← (exact.wellFormed.encodes _ _ holds.2).2]
    exact Layout.makeTid_zero
  have found := holds.2
  rw [zero, exact.nonzero] at found
  cases found

theorem exact_start (begins : (Fasttrack.machine layout).start ft) : Exact layout [] ft.clocks := by
  have absent : ∀ tid, ft.clocks.idOf tid = none := by
    obtain ⟨argv, rfl⟩ := begins
    exact fun tid => rfl
  refine ⟨?_, ⟨fun tid live => absurd (absent tid) live, fun step member => (nomatch member)⟩, ?_,
    absent 0, justified_nil⟩
  · exact Reaches.wellFormed (.start begins) (fun step member => (nomatch member))
  · rintro tid ⟨step, member, _⟩
    cases member

/-! ### What a silent access knows -/

/-- A set epoch of a registered thread that does not race is below the thread's threshold. -/
theorem Clocks.WellFormed.known_of_not_races (wellFormed : before.WellFormed layout)
    (holds : before.Holds tls thread.toVectorClock thread.id)
    (now : before.idOf (layout.makeTid id) = some current) (older : id ≤ current)
    (set : id ≠ VarState.varNotInit) (quiet : ¬ VarState.racesWith layout id thread) :
    id < before.view (.thread tls) (layout.makeTid id) := by
  have bound : id < layout.sizeRange := older.trans_lt (wellFormed.encodes _ current now).1
  by_cases own : layout.makeTid id = tls
  · rw [own, holds.2] at now
    rw [own, view_own holds.2]
    exact Nat.lt_succ_of_le (older.trans (Option.some.inj now).ge)
  · by_contra beyond
    exact quiet ((wellFormed.racesWith_iff holds bound).mpr ⟨set, own, not_lt.mp beyond⟩)

/-- The state of an address that has been written and for which nothing was reported accounts for
every access to it. -/
structure Settled (layout : Layout) (past : List Step) (clocks : Clocks) (addr : ℕ)
    (var : VarState) : Prop where
  tidy : var.Tidy layout
  written : var.wId ≠ VarState.varNotInit
  current : ∀ kind, ∀ id ∈ var.recorded kind, ∃ current,
    clocks.idOf (layout.makeTid id) = some current ∧ id ≤ current
  readers : ∀ id ∈ var.readIds,
    var.wId < clocks.view (.thread (layout.makeTid id)) (layout.makeTid var.wId)
  accounts : ∃ last step, past[last]? = some step ∧
    Makes step true addr (layout.makeTid var.wId) var.wId ∧
    ∀ position earlier kind tid id, past[position]? = some earlier →
      Makes earlier kind addr tid id →
      (flow layout joinsLive).HappensBefore past position last ∨
        ∃ recorded ∈ var.recorded kind, layout.makeTid recorded = tid ∧ id ≤ recorded

/-- A thread that knows the recorded write, and the recorded epochs of one kind, has heard of all
accesses of that kind. -/
theorem Settled.heard (settled : Settled layout past before addr var)
    (exact : Exact layout past before) (live : before.idOf tls ≠ none)
    (knowsWrite : var.wId < before.view (.thread tls) (layout.makeTid var.wId))
    (knows : ∀ id ∈ var.recorded kind, id < before.view (.thread tls) (layout.makeTid id))
    {position : ℕ} {earlier : Step} (found : past[position]? = some earlier)
    (makes : Makes earlier kind addr tid id) :
    position ∈ (flow layout joinsLive).Past past (.thread tls) := by
  obtain ⟨last, step, atLast, writes, accounts⟩ := settled.accounts
  have liveWriter : before.idOf (layout.makeTid var.wId) ≠ none := by
    obtain ⟨current, now, _⟩ := settled.current true var.wId
      (VarState.mem_recorded_write.mpr ⟨rfl, settled.written⟩)
    rw [now]
    simp
  rcases accounts position earlier kind tid id found makes with ordered |
    ⟨recorded, member, rfl, older⟩
  · refine Flow.mem_past_of_happensBefore ordered ?_
    exact exact.justified (.thread tls) last _ var.wId live liveWriter ⟨step, atLast, writes.stamp⟩
      knowsWrite
  · obtain ⟨current, now, _⟩ := settled.current kind recorded member
    have liveThread : before.idOf (layout.makeTid recorded) ≠ none := by
      rw [now]
      simp
    exact exact.justified (.thread tls) position _ id live liveThread ⟨earlier, found, makes.stamp⟩
      (older.trans_lt (knows recorded member))

/-- An access keeps all clocks. -/
theorem ClockStep.eq_of_access (made : ClockStep layout before event after)
    (accesses : event.access? = some access) : after = before := by
  cases event with
  | read | write =>
    cases made
    rfl
  | _ => cases accesses

/-- Where the recorded threads are registered, an access without a report has no verdict. -/
theorem verdicts_eq_nil (wellFormed : ft.clocks.WellFormed layout)
    (defined : ft.call layout event = some (next, output)) (accesses : event.access? = some access)
    (found : ft.vars.lookup access.addr = some var)
    (current : ∀ kind, ∀ id ∈ var.recorded kind, ∃ current,
      ft.clocks.idOf (layout.makeTid id) = some current ∧ id ≤ current)
    (silent : Silent access.addr ⟨ft, event, next, output⟩) :
    ∃ thread, ft.threads.lookup access.tls = some thread ∧
      next.vars = ft.vars.insert access.addr (var.after layout access.write thread) ∧
      var.verdicts layout access.write thread = [] := by
  obtain ⟨thread, registered, _, _, vars, _⟩ := Fasttrack.call_access accesses defined
  have same : ft.createVar access.addr access.size = var := by rw [Fasttrack.createVar, found]
  rw [same] at vars
  refine ⟨thread, registered, vars, ?_⟩
  by_contra some
  obtain ⟨⟨kind, tid⟩, verdict⟩ := List.exists_mem_of_ne_nil _ some
  obtain ⟨id, recorded, _, rfl, _⟩ := VarState.mem_verdicts verdict
  obtain ⟨now, found, _⟩ := current kind id recorded
  have first : layout.makeTid id ∈ ft.threads := Fasttrack.idOf_ne_none.mp (by rw [found]; simp)
  have second : thread.getTid layout ∈ ft.threads := by
    rw [ThreadState.getTid, (wellFormed.encodes _ _ (Fasttrack.holds_of_lookup registered).2).2]
    exact Fasttrack.mem_threads_of_lookup registered
  obtain ⟨race, reported, _, _, atAddr⟩ := (reports_iff defined accesses registered kind _).mpr
    ⟨same.symm ▸ verdict, first, second⟩
  exact silent race reported atAddr

/-- An access without a verdict knows the recorded write, and a write also the recorded reads. -/
theorem Settled.knows (settled : Settled layout past before addr var)
    (exact : Exact layout past before)
    (holds : before.Holds tls thread.toVectorClock thread.id)
    (silent : var.verdicts layout write thread = []) (conflict : kind = true ∨ write = true) :
    ∀ id ∈ var.recorded kind, id < before.view (.thread tls) (layout.makeTid id) := by
  have decodes := (exact.wellFormed.encodes _ _ holds.2).2
  have nonzero : ∀ kind, ∀ id ∈ var.recorded kind, layout.makeTid id ≠ 0 := by
    intro kind id member zero
    obtain ⟨now, found, _⟩ := settled.current kind id member
    rw [zero, exact.nonzero] at found
    cases found
  have set : ∀ kind, ∀ id ∈ var.recorded kind, id ≠ VarState.varNotInit := by
    rintro kind id member rfl
    exact nonzero kind _ member Layout.makeTid_zero
  have ownSet := exact.id_ne_varNotInit holds
  have ofQuiet : ∀ kind, ∀ id ∈ var.recorded kind, ¬ VarState.racesWith layout id thread →
      id < before.view (.thread tls) (layout.makeTid id) := by
    intro kind id member quiet
    obtain ⟨now, found, older⟩ := settled.current kind id member
    exact exact.wellFormed.known_of_not_races holds found older (set kind id member) quiet
  have wMember : var.wId ∈ var.recorded true :=
    VarState.mem_recorded_write.mpr ⟨rfl, settled.written⟩
  intro id member
  by_cases same : var.SameEpoch layout write thread
  · cases write with
    | true =>
      -- no other thread can know the current epoch of the writer, so it is the only reader
      have own : thread.id = var.wId := same
      have writer : layout.makeTid var.wId = tls := own ▸ decodes
      have mine : layout.makeTid id = tls := by
        cases kind with
        | true => rw [(VarState.mem_recorded_write.mp member).1, writer]
        | false =>
          by_contra differs
          have known := settled.readers id member
          rw [writer, view_other (by simpa using differs), ← own] at known
          exact absurd known (not_lt.mpr (exact.wellFormed.getIdByTid_le holds.2 _))
      obtain ⟨now, found, older⟩ := settled.current kind id member
      rw [mine, view_own (mine ▸ found)]
      exact Nat.lt_succ_of_le older
    | false =>
      obtain ⟨rfl, _⟩ := VarState.mem_recorded_write.mp (conflict.resolve_right (by simp) ▸ member)
      have read := settled.readers thread.id
        (VarState.mem_readIds_of_sameEpoch settled.tidy ownSet same)
      rwa [decodes] at read
  · cases write with
    | true => exact ofQuiet kind id member (VarState.verdicts_write_eq_nil settled.written
        (nonzero false) same silent kind id member)
    | false =>
      obtain ⟨rfl, _⟩ := VarState.mem_recorded_write.mp (conflict.resolve_right (by simp) ▸ member)
      exact ofQuiet true var.wId wMember (VarState.verdicts_read_eq_nil same silent)

/-! ### The state keeps accounting -/

/-- An entry of a longer history is an old one or the last one. -/
theorem getElem?_append_singleton {position : ℕ} {earlier : Step}
    (found : (past ++ [step])[position]? = some earlier) :
    past[position]? = some earlier ∨ position = past.length ∧ earlier = step := by
  by_cases less : position < past.length
  · exact Or.inl (by rwa [List.getElem?_append_left less] at found)
  · have bound : position < past.length + 1 := by
      simpa using (List.getElem?_eq_some_iff.mp found).1
    obtain rfl : position = past.length := by omega
    rw [List.getElem?_concat_length] at found
    exact Or.inr ⟨rfl, (Option.some.inj found).symm⟩

theorem lt_length_of_getElem? {position : ℕ} {earlier : Step}
    (found : past[position]? = some earlier) :
    position < past.length := (List.getElem?_eq_some_iff.mp found).1

/-- A call that does not access the address leaves the accounts in order. -/
theorem Settled.keep (settled : Settled layout past step.pre.clocks addr var)
    (made : ClockStep layout step.pre.clocks step.event after)
    (wellFormed : step.pre.clocks.WellFormed layout) (remembers : step.event.forgets = false)
    (other : ∀ kind tid id, ¬ Makes step kind addr tid id) :
    Settled layout (past ++ [step]) after addr var := by
  have later : ∀ kind, ∀ id ∈ var.recorded kind,
      step.pre.clocks.idOf (layout.makeTid id) ≠ none := by
    intro kind id member
    obtain ⟨current, now, _⟩ := settled.current kind id member
    rw [now]
    simp
  refine ⟨settled.tidy, settled.written, ?_, ?_, ?_⟩
  · intro kind id member
    obtain ⟨current, now, older⟩ := settled.current kind id member
    obtain ⟨later, found, above⟩ := made.idOf_le wellFormed remembers now
    exact ⟨later, found, older.trans above⟩
  · intro id member
    have reader := later false id member
    have writer := later true var.wId (VarState.mem_recorded_write.mpr ⟨rfl, settled.written⟩)
    exact (settled.readers id member).trans_le (made.grows wellFormed
      (fits_of_remembers remembers).spares (.thread (layout.makeTid id)) _ reader writer
      (made.keepsThread remembers reader) (made.keepsThread remembers writer))
  · obtain ⟨last, write, atLast, writes, accounts⟩ := settled.accounts
    have less := lt_length_of_getElem? atLast
    refine ⟨last, write, by rwa [List.getElem?_append_left less], writes, ?_⟩
    intro position earlier kind tid id found makes
    rcases getElem?_append_singleton found with old | ⟨_, rfl⟩
    · exact (accounts position earlier kind tid id old makes).imp_left
        (Flow.happensBefore_append less).mpr
    · exact absurd makes (other kind tid id)

/-- What a thread has heard of happens before its next access. -/
theorem happensBefore_access {position : ℕ} (accesses : step.event.access? = some access)
    (heard : position ∈ (flow layout joinsLive).Past past (.thread access.tls)) :
    (flow layout joinsLive).HappensBefore (past ++ [step]) position past.length := by
  have takes : (flow layout joinsLive).takes step (.thread access.tls) :=
    Or.inl (caller_of_access accesses _)
  exact Flow.happensBefore_last.mpr ⟨_, takes, heard⟩

theorem Makes.of_access {other : ℕ} (makes : Makes step kind addr tid other)
    (accesses : step.event.access? = some access)
    (holds : step.pre.clocks.Holds access.tls thread.toVectorClock thread.id) :
    kind = access.write ∧ tid = access.tls ∧ other = thread.id := by
  obtain ⟨made, same, rfl, _, rfl, now⟩ := makes
  obtain ⟨rfl⟩ := Option.some.inj (accesses.symm.trans same)
  exact ⟨rfl, rfl, Option.some.inj (now.symm.trans holds.2)⟩

/-- After a write all of whose past is heard of, the write accounts for everything. -/
theorem Settled.recordWrite (exact : Exact layout past step.pre.clocks)
    (accesses : step.event.access? = some access) (writes : access.write = true)
    (holds : step.pre.clocks.Holds access.tls thread.toVectorClock thread.id)
    (heard : ∀ position earlier kind tid id, past[position]? = some earlier →
      Makes earlier kind access.addr tid id →
      position ∈ (flow layout joinsLive).Past past (.thread access.tls)) :
    Settled layout (past ++ [step]) step.pre.clocks access.addr
      (var.update layout true thread.id) := by
  have decodes := (exact.wellFormed.encodes _ _ holds.2).2
  have set := exact.id_ne_varNotInit holds
  have makes : Makes step true access.addr (layout.makeTid thread.id) thread.id :=
    ⟨access, accesses, writes, rfl, decodes.symm, decodes.symm ▸ holds.2⟩
  refine ⟨⟨fun shared => (nomatch shared), List.nodup_nil⟩, set, ?_, fun id member => ?_, ?_⟩
  · intro kind id member
    cases kind with
    | true =>
      obtain ⟨rfl, _⟩ := VarState.mem_recorded_write.mp member
      exact ⟨thread.id, decodes.symm ▸ holds.2, le_rfl⟩
    | false => simp [VarState.recorded, VarState.readIds] at member
  · simp [VarState.readIds] at member
  · refine ⟨past.length, step, List.getElem?_concat_length, makes, ?_⟩
    intro position earlier kind tid id found made
    rcases getElem?_append_singleton found with old | ⟨_, rfl⟩
    · exact Or.inl (happensBefore_access accesses (heard position earlier kind tid id old made))
    · obtain ⟨rfl, rfl, rfl⟩ := made.of_access accesses holds
      rw [writes]
      exact Or.inr ⟨thread.id, VarState.mem_recorded_write.mpr ⟨rfl, set⟩, decodes, le_rfl⟩

/-- After a write of the recorded epoch or a read that knows the recorded write, the accounts are
still in order. -/
theorem Settled.recordOther (settled : Settled layout past step.pre.clocks access.addr var)
    (exact : Exact layout past step.pre.clocks)
    (accesses : step.event.access? = some access)
    (holds : step.pre.clocks.Holds access.tls thread.toVectorClock thread.id)
    (knows : var.wId < step.pre.clocks.view (.thread access.tls) (layout.makeTid var.wId))
    (kept : access.write = true → var.SameEpoch layout true thread) :
    Settled layout (past ++ [step]) step.pre.clocks access.addr
      (var.after layout access.write thread) := by
  have decodes := (exact.wellFormed.encodes _ _ holds.2).2
  have set := exact.id_ne_varNotInit holds
  have older : ∀ id ∈ var.readIds, layout.makeTid id = thread.getTid layout → id ≤ thread.id := by
    intro id member same
    obtain ⟨now, found, below⟩ := settled.current false id member
    rw [same, ThreadState.getTid, decodes, holds.2] at found
    exact below.trans (Option.some.inj found).ge
  -- the recorded write stays, and every recorded epoch stays or is replaced by a later one
  have same : (var.after layout access.write thread).wId = var.wId ∧
      thread.id ∈ (var.after layout access.write thread).recorded access.write ∧
      ∀ kind, ∀ id ∈ var.recorded kind,
        ∃ later ∈ (var.after layout access.write thread).recorded kind,
          layout.makeTid later = layout.makeTid id ∧ id ≤ later := by
    cases writes : access.write with
    | true =>
      have same := kept writes
      rw [VarState.after, if_pos same]
      exact ⟨rfl, VarState.mem_recorded_write.mpr ⟨same, set⟩,
        fun kind id member => ⟨id, member, rfl, le_rfl⟩⟩
    | false =>
      obtain ⟨own, replaced⟩ := VarState.readIds_after_read settled.tidy set older
      have wId : (var.after layout false thread).wId = var.wId := var.wId_after_read thread
      refine ⟨wId, own, fun kind id member => ?_⟩
      cases kind with
      | true =>
        refine ⟨id, ?_, rfl, le_rfl⟩
        rw [VarState.mem_recorded_write] at member ⊢
        rwa [wId]
      | false => exact replaced id member
  obtain ⟨wId, own, replaced⟩ := same
  refine ⟨settled.tidy.after, wId.symm ▸ settled.written, ?_, ?_, ?_⟩
  · intro kind id member
    rcases VarState.mem_recorded_after member with old | ⟨_, rfl⟩
    · exact settled.current kind id old
    · exact ⟨thread.id, decodes.symm ▸ holds.2, le_rfl⟩
  · intro id member
    rw [wId]
    rcases VarState.mem_recorded_after
      (show id ∈ (var.after layout access.write thread).recorded false from member) with old |
      ⟨_, rfl⟩
    · exact settled.readers id old
    · exact decodes.symm ▸ knows
  · obtain ⟨last, write, atLast, writes, accounts⟩ := settled.accounts
    have less := lt_length_of_getElem? atLast
    rw [wId]
    refine ⟨last, write, by rwa [List.getElem?_append_left less], writes, ?_⟩
    intro position earlier kind tid id found makes
    rcases getElem?_append_singleton found with old | ⟨_, rfl⟩
    · rcases accounts position earlier kind tid id old makes with ordered |
        ⟨recorded, member, same, le⟩
      · exact Or.inl ((Flow.happensBefore_append less).mpr ordered)
      · obtain ⟨later, stays, sameTid, above⟩ := replaced kind recorded member
        exact Or.inr ⟨later, stays, sameTid.trans same, le.trans above⟩
    · obtain ⟨rfl, rfl, rfl⟩ := makes.of_access accesses holds
      exact Or.inr ⟨thread.id, own, decodes, le_rfl⟩

/-! ### Runs on which nothing is forgotten -/

/-- The state kept for an address accounts for all accesses to it. -/
def Accounted (layout : Layout) (past : List Step) (ft : Fasttrack) (addr : ℕ) : Prop :=
  match ft.vars.lookup addr with
  | none => ∀ step ∈ past, ∀ access, step.event.access? = some access → access.addr ≠ addr
  | some var => Settled layout past ft.clocks addr var

/-- A silent access has heard of all accesses it conflicts with, and the accounts stay in order. -/
theorem Accounted.silentAccess (accounted : Accounted layout past ft addr)
    (exact : Exact layout past ft.clocks)
    (defined : ft.call layout event = some (next, output)) (accesses : event.access? = some access)
    (same : access.addr = addr) (silent : Silent addr ⟨ft, event, next, output⟩)
    (first : WrittenFirst addr past ⟨ft, event, next, output⟩)
    (kept : next.clocks = ft.clocks) :
    Accounted layout (past ++ [⟨ft, event, next, output⟩]) next addr ∧
      ∀ position earlier kind tid id, past[position]? = some earlier →
        Makes earlier kind addr tid id → kind = true ∨ access.write = true →
        position ∈ (flow layout joinsLive).Past past (.thread access.tls) := by
  subst same
  unfold Accounted at accounted ⊢
  cases found : ft.vars.lookup access.addr with
  | none =>
    rw [found] at accounted
    have untouched : ∀ (position : ℕ) earlier kind tid id, past[position]? = some earlier →
        ¬ Makes earlier kind access.addr tid id := by
      rintro position earlier kind tid id atPosition ⟨other, made, _, same, _⟩
      exact accounted earlier (List.mem_of_getElem? atPosition) other made same
    have writes := first access accesses rfl accounted
    obtain ⟨thread, registered, _, _, vars, _⟩ := Fasttrack.call_access accesses defined
    have holds := Fasttrack.holds_of_lookup registered
    have differs : ¬ (VarState.new access.size).SameEpoch layout true thread :=
      exact.id_ne_varNotInit holds
    rw [Fasttrack.createVar, found, writes] at vars
    simp only [VarState.after, if_neg differs] at vars
    refine ⟨?_, fun position earlier kind tid id atPosition makes _ =>
      absurd makes (untouched position earlier kind tid id atPosition)⟩
    rw [vars, AList.lookup_insert, kept]
    exact Settled.recordWrite exact accesses writes holds
      fun position earlier kind tid id atPosition
      makes => absurd makes (untouched position earlier kind tid id atPosition)
  | some var =>
    rw [found] at accounted
    obtain ⟨thread, registered, vars, quiet⟩ :=
      verdicts_eq_nil exact.wellFormed defined accesses found accounted.current silent
    have holds := Fasttrack.holds_of_lookup registered
    have knowsWrite := accounted.knows exact holds quiet (Or.inl rfl) var.wId
      (VarState.mem_recorded_write.mpr ⟨rfl, accounted.written⟩)
    have heard : ∀ position earlier kind tid id, past[position]? = some earlier →
        Makes earlier kind access.addr tid id → kind = true ∨ access.write = true →
        position ∈ (flow layout joinsLive).Past past (.thread access.tls) := by
      intro position earlier kind tid id atPosition makes conflict
      exact accounted.heard exact holds.live knowsWrite (accounted.knows exact holds quiet conflict)
        atPosition makes
    refine ⟨?_, heard⟩
    rw [vars, AList.lookup_insert, kept]
    by_cases overwrites : access.write = true ∧ ¬ var.SameEpoch layout true thread
    · rw [overwrites.1]
      simp only [VarState.after, if_neg overwrites.2]
      exact Settled.recordWrite exact accesses overwrites.1 holds fun position earlier kind tid id
        atPosition makes => heard position earlier kind tid id atPosition makes
          (Or.inr overwrites.1)
    · exact accounted.recordOther exact accesses holds knowsWrite fun writes =>
        not_not.mp fun differs => overwrites ⟨writes, differs⟩

/-- Every other call keeps the accounts of the address in order. -/
theorem Accounted.otherCall (accounted : Accounted layout past ft addr)
    (exact : Exact layout past ft.clocks)
    (defined : ft.call layout event = some (next, output)) (remembers : event.forgets = false)
    (made : ClockStep layout ft.clocks event next.clocks)
    (other : ∀ access, event.access? = some access → access.addr ≠ addr) :
    Accounted layout (past ++ [⟨ft, event, next, output⟩]) next addr := by
  have kept : next.vars.lookup addr = ft.vars.lookup addr := by
    cases accesses : event.access? with
    | some access =>
      obtain ⟨_, _, _, _, vars, _⟩ := Fasttrack.call_access accesses defined
      rw [vars, AList.lookup_insert_ne (other access accesses).symm]
    | none =>
      have keeps : event.erases = false := by
        cases event with
        | deallocate | finalize => cases remembers
        | _ => rfl
      rw [Fasttrack.call_keepsVars accesses keeps defined]
  unfold Accounted at accounted ⊢
  rw [kept]
  cases found : ft.vars.lookup addr with
  | none =>
    rw [found] at accounted
    intro step member access accesses
    rcases List.mem_append.mp member with old | new
    · exact accounted step old access accesses
    · obtain ⟨rfl⟩ := List.mem_singleton.mp new
      exact other access accesses
  | some var =>
    rw [found] at accounted
    have settled : Settled layout past (Step.pre ⟨ft, event, next, output⟩).clocks addr var :=
      accounted
    refine settled.keep made exact.wellFormed remembers ?_
    rintro kind tid id ⟨access, accesses, _, same, _⟩
    exact other access accesses same

/-- Along a run on which nothing is forgotten and nothing is reported for an address that is
written first, the clocks are exact and the address is accounted for. -/
theorem Reaches.accounted (reaches : Reaches layout past ft)
    (rules : Always (fun front step => Calm layout step ∧ WrittenFirst addr front step ∧
      Silent addr step) past) : Exact layout past ft.clocks ∧ Accounted layout past ft addr := by
  refine Machine.Reaches.induct
    (fun past ft => Exact layout past ft.clocks ∧ Accounted layout past ft addr) ?_ ?_ reaches rules
  · intro ft begins
    refine ⟨exact_start begins, ?_⟩
    obtain ⟨argv, rfl⟩ := begins
    exact fun step member => (nomatch member)
  · rintro past ft event next output _ defined ⟨calm, first, silent⟩ ⟨exact, accounted⟩
    have made := Fasttrack.call_clockStep exact.wellFormed calm.room defined
    refine ⟨exact.append made calm, ?_⟩
    by_cases here : ∃ access, event.access? = some access ∧ access.addr = addr
    · obtain ⟨access, accesses, same⟩ := here
      exact (accounted.silentAccess exact defined accesses same silent first
        (made.eq_of_access accesses)).1
    · exact accounted.otherCall exact defined calm.remembers made fun access accesses same =>
        here ⟨access, accesses, same⟩

/-- The first race on an address is reported: on a run on which nothing is forgotten, if two
accesses to an address that is written first conflict and the first does not happen before the
second, a race on the address has been reported when the second one has been processed. -/
theorem race_reported (reaches : Reaches layout past ft) (calm : ∀ step ∈ past, Calm layout step)
    (addr : ℕ) (first : Always (WrittenFirst addr) past) {i j : ℕ} {earlier later : Step}
    {firstAccess secondAccess : Access} (atFirst : past[i]? = some earlier)
    (atSecond : past[j]? = some later) (less : i < j)
    (firstAccesses : earlier.event.access? = some firstAccess)
    (secondAccesses : later.event.access? = some secondAccess) (firstAddr : firstAccess.addr = addr)
    (secondAddr : secondAccess.addr = addr)
    (conflict : firstAccess.write = true ∨ secondAccess.write = true)
    (unordered : ¬ (flow layout joinsLive).HappensBefore past i j) :
    ∃ k ≤ j, ∃ step, past[k]? = some step ∧
      ∃ race ∈ step.output.races, race.second.accessedMemory = addr := by
  by_contra none
  -- nothing was reported up to the second access, so it knows the first one
  obtain ⟨bound, rfl⟩ := List.getElem?_eq_some_iff.mp atSecond
  have initial : past.take j ++ [past[j]] <+: past := by
    rw [List.take_concat_get' past j bound]
    exact List.take_prefix _ _
  have length : (past.take j).length = j := List.length_take_of_le bound.le
  have silent : ∀ step ∈ past.take j ++ [past[j]], Silent addr step := by
    intro step member race reported atAddr
    rw [List.take_concat_get' past j bound] at member
    obtain ⟨k, inside, rfl⟩ := List.mem_iff_getElem.mp member
    rw [List.length_take] at inside
    refine none ⟨k, by omega, _, ?_, race, reported, atAddr⟩
    rw [List.getElem_take]
    exact List.getElem?_eq_getElem _
  have rules : Always (fun front step => Calm layout step ∧ WrittenFirst addr front step ∧
      Silent addr step) (past.take j ++ [past[j]]) := by
    intro front step shorter
    have member : step ∈ past.take j ++ [past[j]] :=
      shorter.subset (List.mem_append_right _ (List.mem_singleton_self _))
    exact ⟨calm step (initial.subset member), first front step (shorter.trans initial),
      silent step member⟩
  obtain ⟨before, defined⟩ := reaches.step initial
  obtain ⟨rulesBefore, rule⟩ := always_append.mp rules
  obtain ⟨exact, accounted⟩ := Reaches.accounted before rulesBefore
  have made := Fasttrack.call_clockStep exact.wellFormed rule.1.room defined
  have atFirstBefore : (past.take j)[i]? = some earlier := by rwa [List.getElem?_take_of_lt less]
  have registered := (calm earlier (List.mem_of_getElem? atFirst)).registered _
    (tls_of_access firstAccesses)
  obtain ⟨id, now⟩ := Option.ne_none_iff_exists'.mp registered
  have heard := (accounted.silentAccess exact defined secondAccesses secondAddr rule.2.2 rule.2.1
    (made.eq_of_access secondAccesses)).2 i earlier firstAccess.write firstAccess.tls id
      atFirstBefore
    ⟨firstAccess, firstAccesses, rfl, firstAddr, rfl, now⟩ conflict
  have ordered := happensBefore_access secondAccesses heard
  rw [length] at ordered
  refine unordered ?_
  obtain ⟨rest, whole⟩ := initial
  rw [← whole]
  exact (Flow.happensBefore_append (by simp [bound])).mpr ordered

theorem race_reported_read_write :
    let past := (ran .x64 [.fork 9 1, .fork 9 2, .write 1 0 0x100 3, .happensBefore 1 7,
      .read 2 0 0x100 3]).1
    ∃ k ≤ 4, ∃ step, past[k]? = some step ∧
      ∃ race ∈ step.output.races, race.second.accessedMemory = 0x100 := by
  intro past
  obtain ⟨earlier, atFirst, firstAccesses⟩ := Option.bind_eq_some_iff.mp
    (show (past[2]?).bind (fun step => step.event.access?) = some ⟨true, 1, 0, 0x100, 3⟩ by
      decide +kernel)
  obtain ⟨later, atSecond, secondAccesses⟩ := Option.bind_eq_some_iff.mp
    (show (past[4]?).bind (fun step => step.event.access?) = some ⟨false, 2, 0, 0x100, 3⟩ by
      decide +kernel)
  refine race_reported (reaches_ran .x64 _) (by decide +kernel) 0x100 (by decide +kernel) atFirst
    atSecond (by decide) firstAccesses secondAccesses rfl rfl (Or.inl rfl) ?_
  -- the read takes the past of its own thread, and no event before has put to it
  refine Flow.not_happensBefore ?_
  rintro middle ⟨less, before, after, carrier, found, last, puts, takes⟩
  have lone : ∀ middle < 4, ∀ before ∈ past[middle]?,
      ¬ (flow .x64 joinsLive).puts before (.thread 2) := by
    decide +kernel
  obtain ⟨rfl⟩ := Option.some.inj (last.symm.trans atSecond)
  obtain ⟨rfl⟩ := takes_of_access secondAccesses takes
  exact lone middle less before found puts

end Drace
