/-
This file says what the stacks of a report contain.

A depot keeps, for each address, the whole call path of the thread's most recent
access to it, and an entry gets the innermost frames of this path that fit. A
thread is only reported for an address it has accessed, so the path is never
missing, unless an id has carried into the tid of another thread.
-/

import Drace.Epochs
import Drace.Reports

namespace Drace

open Machine

variable {layout : Layout} {past front : List Step} {step : Step} {ft next : Fasttrack}
  {access : Access} {depot : StackTrace} {stack full : List ℕ} {tid addr : ℕ}

/-- The call path of a thread at its most recent access to an address, outermost function first,
with the program counter of this access at its end; nothing if the thread has not accessed it. -/
inductive LatestStack (tid addr : ℕ) : List Step → List ℕ → Prop
  | never {past : List Step} : (∀ step ∈ past, step.event.accessOf tid addr = none) →
    LatestStack tid addr past []
  | latest (front : List Step) {step : Step} {access : Access} {rest : List Step} :
    step.event.accessOf tid addr = some access →
    (∀ later ∈ rest, later.event.accessOf tid addr = none) →
    LatestStack tid addr (front ++ step :: rest) (callPath front tid ++ [access.pc])

/-- The entry has a stack, and it is the innermost part of the thread's stack at its most recent
access to the address: all of it, or as much as fits. -/
def CompleteSuffix (past : List Step) (entry : AccessEntry) : Prop :=
  ∃ full, LatestStack entry.threadId entry.accessedMemory past full ∧
    1 ≤ entry.stackSize ∧ entry.stackSize ≤ maxStackSize ∧
    entry.stackSize = min maxStackSize full.length ∧
    entry.stack = full.drop (full.length - entry.stackSize)

/-! ### The latest stack along a history -/

theorem LatestStack.append (latestStack : LatestStack tid addr past stack)
    (quiet : step.event.accessOf tid addr = none) :
    LatestStack tid addr (past ++ [step]) stack := by
  have both : ∀ steps : List Step, (∀ early ∈ steps, early.event.accessOf tid addr = none) →
      ∀ early ∈ steps ++ [step], early.event.accessOf tid addr = none := by
    intro steps none early member
    rcases List.mem_append.mp member with old | new
    · exact none early old
    · rw [List.mem_singleton.mp new, quiet]
  cases latestStack with
  | never none => exact .never (both past none)
  | latest front accesses none =>
    rw [List.append_assoc, List.cons_append]
    exact .latest front accesses (both _ none)

theorem latestStack_access (accesses : step.event.accessOf tid addr = some access) :
    LatestStack tid addr (past ++ [step]) (callPath past tid ++ [access.pc]) :=
  .latest past accesses fun _ member => absurd member List.not_mem_nil

theorem accessOf_eq_none_of_lastAccess (none : lastAccess past tid addr = none) :
    ∀ step ∈ past, step.event.accessOf tid addr = Option.none := by
  intro step member
  cases accesses : step.event.accessOf tid addr with
  | none => rfl
  | some access =>
    obtain ⟨made, rfl, rfl⟩ := accessOf_eq_some.mp accesses
    obtain ⟨last, found⟩ := lastAccess_of_mem member made
    rw [none] at found
    cases found

/-- Where a thread has accessed the address, its latest stack is not empty. -/
theorem LatestStack.ne_nil (latestStack : LatestStack tid addr past stack)
    (member : step ∈ past) (accesses : step.event.accessOf tid addr = some access) :
    stack ≠ [] := by
  cases latestStack with
  | never none =>
    rw [none step member] at accesses
    cases accesses
  | latest => simp

/-- A thread that has not accessed the address has no stack for it. -/
theorem LatestStack.eq_nil (latestStack : LatestStack tid addr past stack)
    (silent : ∀ step ∈ past, step.event.accessOf tid addr = none) : stack = [] := by
  cases latestStack with
  | never => rfl
  | @latest front step access rest accesses =>
    rw [silent step (by simp)] at accesses
    cases accesses

/-- The depots keep the latest stacks. -/
theorem Reaches.latestStack (reaches : Reaches layout past ft)
    (fresh : Always (fun front step => FreshFork layout front step.pre.clocks step.event) past)
    (found : ft.depotOf tid = some depot) (addr : ℕ) :
    LatestStack tid addr past (depot.returnStackTrace addr) := by
  induction reaches generalizing depot with
  | start begins =>
    obtain ⟨argv, rfl⟩ := begins
    cases found
  | @call past state next event output earlier defined inductionHypothesis =>
    obtain ⟨before, freshNow⟩ := always_append.mp fresh
    have traced := Reaches.traced earlier before
    rcases depot_call defined found with ⟨old, was, after⟩ | ⟨absent, rfl, forks⟩
    · rw [(depotAfter_spec after).2 addr]
      cases accesses : event.accessOf tid addr with
      | none => exact (inductionHypothesis before was).append accesses
      | some access =>
        rw [Option.map_some, Option.getD_some, traced.path tid old was]
        exact latestStack_access accesses
    · -- a new thread has not accessed anything
      have idle := (traced.starts freshNow absent forks).2 addr
      exact .never (accessOf_eq_none_of_lastAccess idle)

/-! ### The entries of a report -/

/-- An entry that is filled with a thread's latest stack has a complete suffix of it. -/
theorem completeSuffix_fill {thread : ℕ} {write : Bool} {var : VarState}
    (latestStack : LatestStack thread addr past stack) (filled : stack ≠ []) :
    CompleteSuffix past (.fill thread write var addr stack) := by
  have size : (AccessEntry.fill thread write var addr stack).stackSize =
      min maxStackSize stack.length := by
    change (trimStack stack).length = _
    rw [trimStack_eq, List.rtake, List.length_drop]
    omega
  have positive := List.length_pos_iff.mpr filled
  refine ⟨stack, latestStack, ?_, ?_, size, ?_⟩
  · rw [size]
    exact Nat.le_min.mpr ⟨by decide, positive⟩
  · rw [size]
    exact Nat.min_le_left _ _
  · rw [stack_fill, List.rtake, size]
    congr 1
    omega

/-- The id of an access decodes to its thread. -/
theorem makes_numbered (reaches : Reaches layout past ft)
    (below : Always (fun _ step => BelowMaximum layout step) past) (made : step ∈ past)
    {write : Bool} {id : ℕ} (makes : Makes step write addr tid id) : layout.makeTid id = tid := by
  obtain ⟨front, rest, rfl⟩ := List.append_of_mem made
  have initial : front ++ [step] <+: front ++ step :: rest := ⟨rest, by simp⟩
  obtain ⟨access, _, _, _, _, current⟩ := makes
  have numbered := Reaches.numbered (reaches.step initial).1
    (below.before ((List.prefix_append _ _).trans initial))
  exact (numbered.encodes current).2

/-- In a run that uses no tid twice and counts no clock up at its maximum, both entries of every
report have a complete suffix of the latest stack of their thread. -/
theorem report_stacks_complete (reaches : Reaches layout past ft)
    (fresh : Always (fun front step => FreshFork layout front step.pre.clocks step.event) past)
    (below : Always (fun _ step => BelowMaximum layout step) past) :
    Always (fun front step => ∀ race ∈ step.output.races,
      CompleteSuffix (front ++ [step]) race.first ∧
        CompleteSuffix (front ++ [step]) race.second) past := by
  intro front step initial race reported
  obtain ⟨before, defined⟩ := reaches.step initial
  have earlier : front <+: past := (List.prefix_append _ _).trans initial
  have numbered := Reaches.numbered before (below.before earlier)
  cases accesses : step.event.access? with
  | none =>
    rw [(Fasttrack.call_quiet accesses defined).1] at reported
    cases reported
  | some access =>
    obtain ⟨thread, registered, threads, _, _, races⟩ := Fasttrack.call_access accesses defined
    rw [races] at reported
    obtain ⟨⟨kind, tid⟩, verdict, member⟩ := List.mem_flatMap.mp reported
    obtain ⟨first, second, foundFirst, foundSecond, rfl⟩ := mem_reportRace member
    have own : thread.getTid layout = access.tls :=
      (numbered.encodes (Fasttrack.holds_of_lookup registered).2).2
    obtain ⟨id, recorded, _, rfl, _⟩ := VarState.mem_verdicts verdict
    rw [own] at foundSecond ⊢
    rw [← threads] at foundFirst foundSecond
    have latestStacks : ∀ tid thread, step.post.threads.lookup tid = some thread →
        LatestStack tid access.addr (front ++ [step])
          (thread.traceDepot.returnStackTrace access.addr) := fun tid thread found =>
      Reaches.latestStack (before.call defined) (fresh.before initial)
        (Fasttrack.depotOf_of_lookup found) access.addr
    constructor
    · -- the reported thread has made the access that is recorded
      obtain ⟨var, stored, old⟩ := recorded_createVar recorded
      obtain ⟨origin, made, tid, makes⟩ := Reaches.recorded before stored old
      have originNumbered := makes_numbered before (below.before earlier) made makes
      subst originNumbered
      obtain ⟨originAccess, originAccesses, _, sameAddr, sameTls, _⟩ := makes
      refine completeSuffix_fill (latestStacks _ _ foundFirst) ?_
      exact (latestStacks _ _ foundFirst).ne_nil (List.mem_append_left _ made)
        (accessOf_eq_some.mpr ⟨originAccesses, sameTls, sameAddr⟩)
    · refine completeSuffix_fill (latestStacks _ _ foundSecond) ?_
      exact (latestStacks _ _ foundSecond).ne_nil
        (List.mem_append_right _ (List.mem_singleton_self _))
        (accessOf_eq_some.mpr ⟨accesses, rfl, rfl⟩)

theorem report_stacks_complete_nested_calls :
    Always (fun front step => ∀ race ∈ step.output.races,
      CompleteSuffix (front ++ [step]) race.first ∧ CompleteSuffix (front ++ [step]) race.second)
      (ran .x64 [.fork 9 1, .fork 9 2, .funcEnter 1 50, .write 1 20 0x100 3, .read 1 25 0x100 3,
        .funcExit 1, .funcEnter 2 60, .write 2 30 0x100 3]).1 :=
  report_stacks_complete (reaches_ran .x64 _) (by decide +kernel) (by decide +kernel)

/-! ### A stack that is missing -/

/-- The write of a registered thread is defined, and every race it reports names the tid of the
thread's id in its second entry. -/
theorem Fasttrack.call_write (layout : Layout) (pc addr size : ℕ) {tls : ℕ} {thread : ThreadState}
    (found : ft.threads.lookup tls = some thread) :
    ∃ next output, ft.call layout (.write tls pc addr size) = some (next, output) ∧
      ∀ race ∈ output.races, race.second.threadId = thread.getTid layout ∧
        race.second.accessedMemory = addr := by
  obtain ⟨result, written⟩ : ∃ result, ft.write layout tls pc addr size = some result :=
    ⟨_, by rw [Fasttrack.write, found]; rfl⟩
  have defined : ft.call layout (.write tls pc addr size) =
      some (result.1, { races := result.2 }) := by
    rw [Fasttrack.call, written]
    rfl
  refine ⟨_, _, defined, fun race reported => ?_⟩
  obtain ⟨same, registered, _, _, _, races⟩ := Fasttrack.call_access rfl defined
  obtain ⟨rfl⟩ := Option.some.inj (found.symm.trans registered)
  rw [races] at reported
  obtain ⟨verdict, _, member⟩ := List.mem_flatMap.mp reported
  obtain ⟨first, second, _, _, rfl⟩ := mem_reportRace member
  exact ⟨rfl, rfl⟩

/-- A thread that does not know of another thread's first write reports it, under the tid of its own
id. -/
theorem Fasttrack.call_write_write (layout : Layout) {tls writer : ℕ}
    {thread other : ThreadState} (found : ft.threads.lookup tls = some thread)
    (foundOther : ft.threads.lookup writer = some other) (differs : tls ≠ writer)
    (untouched : ft.vars.lookup addr = none) (racing : VarState.racesWith layout other.id thread)
    (registered : thread.getTid layout ∈ ft.threads)
    (otherRegistered : layout.makeTid other.id ∈ ft.threads) (pc otherPc size : ℕ) :
    ∃ written wrote next output race,
      ft.call layout (.write writer otherPc addr size) = some (written, wrote) ∧
      written.call layout (.write tls pc addr size) = some (next, output) ∧
      race ∈ output.races ∧ race.second.threadId = thread.getTid layout ∧
      race.second.accessedMemory = addr := by
  obtain ⟨written, wrote, defined, _⟩ := Fasttrack.call_write layout otherPc addr size foundOther
  obtain ⟨same, foundSame, threads, _, vars, _⟩ := Fasttrack.call_access rfl defined
  obtain ⟨rfl⟩ := Option.some.inj (foundOther.symm.trans foundSame)
  have kept : ∀ tid, tid ∈ written.threads ↔ tid ∈ ft.threads := by
    intro tid
    rw [threads]
    exact mem_recordAccess foundOther
  have foundWritten : written.threads.lookup tls = some thread := by
    rw [threads]
    exact (AList.lookup_insert_ne differs).trans found
  obtain ⟨next, output, definedNext, named⟩ :=
    Fasttrack.call_write layout pc addr size foundWritten
  have stored : written.createVar addr size = (VarState.new size).after layout true other := by
    rw [Fasttrack.createVar, vars, AList.lookup_insert, Fasttrack.createVar, untouched]
  have recordedWrite : ((VarState.new size).after layout true other).wId = other.id := by
    unfold VarState.after
    rw [if_neg (show ¬ (VarState.new size).SameEpoch layout true other from racing.1)]
    rfl
  have verdict : (true, layout.makeTid other.id) ∈
      (written.createVar addr size).verdicts layout true thread := by
    have unlike : ¬ ((VarState.new size).after layout true other).SameEpoch layout true thread := by
      change thread.id ≠ _
      rw [recordedWrite]
      exact fun equal => racing.2.1 (congrArg layout.makeTid equal)
    rw [stored, VarState.verdicts, if_neg unlike]
    simp only [recordedWrite, if_neg racing.1, VarState.writeVerdict, if_pos racing]
    exact List.mem_append_left _ (List.mem_singleton_self _)
  obtain ⟨race, reported, _⟩ := (reports_iff definedNext rfl foundWritten true _).mpr
    ⟨verdict, (kept _).mpr otherRegistered, (kept _).mpr registered⟩
  exact ⟨written, wrote, next, output, race, defined, definedNext, reported, named race reported⟩

/-- In the 32-bit layout, a thread with tid 1 that announces 65536 times and then writes an address
that thread 3 has written is reported as thread 2, which has no stack for the address. -/
theorem stack_missing : ∃ past ft, Reaches .x86 past ft ∧
    past.map Step.event = [.fork 9 1, .fork 9 2, .fork 9 3] ++
      List.replicate 65536 (.happensBefore 1 5) ++ [.write 3 30 0x100 3, .write 1 10 0x100 3] ∧
    Always (fun front step => FreshFork .x86 front step.pre.clocks step.event) past ∧
    ¬ Always (fun front step => ∀ race ∈ step.output.races,
      CompleteSuffix (front ++ [step]) race.first ∧
        CompleteSuffix (front ++ [step]) race.second) past := by
  have forks : (ran .x86 [.fork 9 1, .fork 9 2, .fork 9 3]).1.map Step.event =
      [.fork 9 1, .fork 9 2, .fork 9 3] := by decide +kernel
  obtain ⟨first, third, foundFirst, firstId, firstEntry, foundThird, thirdId⟩ : ∃ first third,
      (ran .x86 [.fork 9 1, .fork 9 2, .fork 9 3]).2.threads.lookup 1 = some first ∧
      first.id = 65536 ∧ first.vc.lookup 3 = none ∧
      (ran .x86 [.fork 9 1, .fork 9 2, .fork 9 3]).2.threads.lookup 3 = some third ∧
      third.id = 196608 :=
    ⟨_, _, rfl, by decide +kernel, by decide +kernel, rfl, by decide +kernel⟩
  obtain ⟨later, next, counted, goes, events, countedUp⟩ :=
    reaches_announcing (reaches_ran .x86 _) foundFirst 5 65536 (by rw [firstId]; decide)
  have own : counted.getTid .x86 = 2 := by
    rw [ThreadState.getTid, countedUp.id, firstId]
    rfl
  have foundNext := (countedUp.others 3 (by decide)).trans foundThird
  have foundSecond : 2 ∈ next.threads := by
    rw [← AList.lookup_isSome, countedUp.others 2 (by decide)]
    decide +kernel
  have racing : VarState.racesWith .x86 third.id counted := by
    have unknown : counted.vc.lookup 3 = none := by
      rw [countedUp.entries 3, firstEntry]
      intro few bound
      rw [firstId, Layout.makeTid_eq]
      · change (65536 + few) / 65536 ≠ 3
        omega
      · change 65536 + few < 4294967296
        omega
    refine ⟨by rw [thirdId]; decide, by rw [own, thirdId]; decide, ?_⟩
    have noClock : counted.getClockByTid .x86 3 = 0 := by rw [VectorClock.getClockByTid, unknown]
    rw [thirdId]
    exact noClock.le.trans (Nat.zero_le _)
  have untouched : next.vars.lookup 0x100 = none := by
    rw [countedUp.vars]
    decide +kernel
  obtain ⟨written, wrote, last, output, race, defined, definedLast, reported, named, address⟩ :=
    Fasttrack.call_write_write .x86 countedUp.found foundNext (by decide) untouched racing
      (own ▸ foundSecond) (by rw [thirdId]; exact Fasttrack.mem_threads_of_lookup foundNext) 10 30 3
  have mid : Reaches .x86 ((ran .x86 [.fork 9 1, .fork 9 2, .fork 9 3]).1 ++ later ++
      [⟨next, .write 3 30 0x100 3, written, wrote⟩]) written := goes.call defined
  have run : Reaches .x86 ((ran .x86 [.fork 9 1, .fork 9 2, .fork 9 3]).1 ++ later ++
      [⟨next, .write 3 30 0x100 3, written, wrote⟩] ++
      [⟨written, .write 1 10 0x100 3, last, output⟩]) last := mid.call definedLast
  refine ⟨_, last, run, ?_, ?_, fun complete => ?_⟩
  · rw [List.map_append, List.map_append, List.map_append, forks, events, List.map_singleton,
      List.map_singleton, List.append_assoc _ [_] [_], List.singleton_append]
  · refine always_append.mpr ⟨always_append.mpr ⟨Always.append (by decide +kernel) ?_, ?_⟩, ?_⟩
    · intro front step member child forked
      have announces : step.event ∈ List.replicate 65536 (Event.happensBefore 1 5) :=
        events ▸ List.mem_map_of_mem member
      rw [List.eq_of_mem_replicate announces] at forked
      cases forked
    · exact fun child forked => nomatch forked
    · exact fun child forked => nomatch forked
  · obtain ⟨full, latestStack, positive, _, size, _⟩ :=
      (complete _ _ (List.prefix_refl _) race reported).2
    rw [named, own, address] at latestStack
    have silent : full = [] := by
      refine latestStack.eq_nil fun step member => ?_
      simp only [List.mem_append, List.mem_singleton] at member
      rcases member with ((forked | announced) | rfl) | rfl
      · exact (by decide +kernel : ∀ step ∈ (ran .x86 [.fork 9 1, .fork 9 2, .fork 9 3]).1,
          step.event.accessOf 2 0x100 = none) step forked
      · have announces : step.event ∈ List.replicate 65536 (Event.happensBefore 1 5) :=
          events ▸ List.mem_map_of_mem announced
        rw [List.eq_of_mem_replicate announces]
        rfl
      · rfl
      · rfl
    rw [silent] at size
    exact absurd (size ▸ positive) (by decide)

end Drace
