/-
This file relates the stacks of a report to the calls of the history.

The depot of a thread follows the thread's function calls and keeps one stack for
each address, that of the thread's latest access to it. So the second entry of a
report, which is about the access being made, always has the right stack. The
kind of the first entry comes from the recorded epochs instead, and its stack is
the right one as long as the thread has not accessed the address in the other way
since.
-/

import Mathlib
import Drace.Depots
import Drace.History

namespace Drace

open Causality Clocks Machine

/-- The call path of a thread after an event. -/
def Event.callPath (tls : ℕ) (path : List ℕ) : Event → List ℕ
  | .funcEnter other pc => if other = tls then path ++ [pc] else path
  | .funcExit other => if other = tls then path.dropLast else path
  | _ => path

/-- The functions a thread is in after a history, outermost first. -/
def callPath (past : List Step) (tls : ℕ) : List ℕ :=
  past.foldl (fun path step => step.event.callPath tls path) []

/-- The access of a thread to an address, if the event is one. -/
def Event.accessOf (tls addr : ℕ) (event : Event) : Option Access :=
  event.access?.filter fun access => access.tls = tls ∧ access.addr = addr

/-- The latest access of a thread to an address. -/
def lastAccess (past : List Step) (tls addr : ℕ) : Option Access :=
  past.foldl (fun last step => (step.event.accessOf tls addr).or last) none

/-- The frames of an entry. -/
def AccessEntry.stack (entry : AccessEntry) : List ℕ := entry.stackTrace.toList.take entry.stackSize

/-- The entry is about one access of the history: thread, kind and address are those of the access,
and the stack is the call path of that moment with the program counter at the end, or its
innermost frames if it does not fit. -/
structure DescribesAt (past : List Step) (entry : AccessEntry) (position : ℕ) (access : Access) :
    Prop where
  made : ∃ step, past[position]? = some step ∧ step.event.access? = some access
  tls : access.tls = entry.threadId
  kind : access.write = entry.write
  addr : access.addr = entry.accessedMemory
  stack : entry.stack = (callPath (past.take position) access.tls ++ [access.pc]).rtake maxStackSize
  whole : (callPath (past.take position) access.tls).length < maxStackSize →
    entry.stack = callPath (past.take position) access.tls ++ [access.pc]

def Describes (past : List Step) (entry : AccessEntry) : Prop :=
  ∃ position access, DescribesAt past entry position access

/-- A check that finds a recorded access of a registered thread finds one of the kind of the
thread's latest access to the address. -/
def KindKept (layout : Layout) (front : List Step) (step : Step) : Prop :=
  ∀ access ∈ step.event.access?, ∀ thread ∈ step.pre.threads.lookup access.tls,
    ∀ verdict ∈ (step.pre.createVar access.addr access.size).verdicts layout access.write thread,
      verdict.2 ∈ step.pre.threads →
        ∀ last ∈ lastAccess front verdict.2 access.addr, last.write = verdict.1

instance (layout : Layout) (front : List Step) (step : Step) :
    Decidable (KindKept layout front step) :=
  inferInstanceAs (Decidable (∀ access ∈ step.event.access?, _))

variable {layout : Layout} {past : List Step} {ft next : Fasttrack} {event : Event}
  {output : Output} {step : Step} {access : Access} {depot old : StackTrace} {tls tid addr pc : ℕ}

/-! ### The frames of an entry -/

theorem trimStack_eq (stack : List ℕ) : trimStack stack = stack.rtake maxStackSize := by
  induction stack with
  | nil => rfl
  | cons frame rest inductionHypothesis =>
    rw [trimStack]
    split
    · next deep =>
      have more : (frame :: rest).length - maxStackSize = rest.length - maxStackSize + 1 := by
        rw [List.length_cons] at deep ⊢
        omega
      rw [inductionHypothesis, List.rtake, List.rtake, more, List.drop_succ_cons]
    · next fits => rw [List.rtake, Nat.sub_eq_zero_of_le (not_lt.mp fits), List.drop_zero]

/-- An entry has the innermost frames of the stack it is filled with. -/
theorem stack_fill {thread address : ℕ} {write : Bool} {var : VarState} (stack : List ℕ) :
    (AccessEntry.fill thread write var address stack).stack = stack.rtake maxStackSize := by
  have fits : (stack.rtake maxStackSize).length ≤ maxStackSize := by
    rw [List.rtake, List.length_drop]
    omega
  unfold AccessEntry.stack AccessEntry.fill
  simp only [trimStack_eq, Vector.toList_ofFn]
  refine List.ext_getElem (by simpa using fits) fun index inside bound => ?_
  rw [List.getElem_take, List.getElem_ofFn]
  simp [bound]

/-! ### What a thread has done so far -/

@[simp]
theorem callPath_append :
    callPath (past ++ [step]) tls = step.event.callPath tls (callPath past tls) := by
  rw [callPath, List.foldl_append]
  rfl

@[simp]
theorem lastAccess_append :
    lastAccess (past ++ [step]) tls addr =
      (step.event.accessOf tls addr).or (lastAccess past tls addr) := by
  rw [lastAccess, List.foldl_append]
  rfl

theorem accessOf_eq_some :
    event.accessOf tls addr = some access ↔
      event.access? = some access ∧ access.tls = tls ∧ access.addr = addr := by
  simp [Event.accessOf, Option.filter_eq_some_iff]

theorem accessOf_of_access (accesses : event.access? = some access) :
    event.accessOf tls addr = if access.tls = tls ∧ access.addr = addr then some access
      else none := by
  rw [Event.accessOf, accesses, Option.filter_some]
  simp only [decide_eq_true_eq]

theorem lastAccess_eq_some (last : lastAccess past tls addr = some access) :
    access.tls = tls ∧ access.addr = addr := by
  induction past using List.reverseRecOn with
  | nil => cases last
  | append_singleton past step inductionHypothesis =>
    rw [lastAccess_append, Option.or_eq_some_iff] at last
    rcases last with here | ⟨_, earlier⟩
    · exact (accessOf_eq_some.mp here).2
    · exact inductionHypothesis earlier

theorem lastAccess_of_mem (member : step ∈ past) (accesses : step.event.access? = some access) :
    ∃ last, lastAccess past access.tls access.addr = some last := by
  induction past using List.reverseRecOn with
  | nil => cases member
  | append_singleton past final inductionHypothesis =>
    rw [lastAccess_append]
    cases here : final.event.accessOf access.tls access.addr with
    | some last => exact ⟨last, rfl⟩
    | none =>
      rcases List.mem_append.mp member with old | new
      · exact inductionHypothesis old
      · obtain ⟨rfl⟩ := List.mem_singleton.mp new
        rw [accessOf_eq_some.mpr ⟨accesses, rfl, rfl⟩] at here
        cases here

/-- The handle of a call that changes a depot. -/
def Event.acts? : Event → Option ℕ
  | .read tls .. | .write tls .. | .funcEnter tls _ | .funcExit tls => some tls
  | _ => none

theorem acts_of_access (accesses : event.access? = some access) :
    event.acts? = some access.tls := by
  cases event with
  | read | write =>
    obtain ⟨rfl⟩ := Option.some.inj accesses
    rfl
  | _ => cases accesses

/-- A call that does not act for a thread leaves no trace of it. -/
theorem quiet_of_acts (quiet : event.acts? ≠ some tid) (path : List ℕ) :
    event.callPath tid path = path ∧ ∀ addr, event.accessOf tid addr = none := by
  constructor
  · cases event with
    | funcEnter tls pc | funcExit tls => exact if_neg fun same => quiet (congrArg some same)
    | _ => rfl
  · intro addr
    cases found : event.accessOf tid addr with
    | none => rfl
    | some access =>
      obtain ⟨accesses, same, _⟩ := accessOf_eq_some.mp found
      exact absurd (same ▸ acts_of_access accesses) quiet

/-- A call that acts for a thread is only defined if the thread is registered. -/
theorem acts_registered (defined : ft.call layout event = some (next, output))
    (acts : event.acts? = some tid) : tid ∈ ft.threads := by
  cases event with
  | read | write =>
    obtain ⟨rfl⟩ := Option.some.inj acts
    obtain ⟨thread, registered, _⟩ := Fasttrack.call_access rfl defined
    exact Fasttrack.mem_threads_of_lookup registered
  | funcEnter tls pc =>
    obtain ⟨rfl⟩ := Option.some.inj acts
    obtain ⟨after, entered, _⟩ := Option.map_eq_some_iff.mp defined
    obtain ⟨thread, registered, _⟩ := Option.map_eq_some_iff.mp entered
    exact Fasttrack.mem_threads_of_lookup registered
  | funcExit tls =>
    obtain ⟨rfl⟩ := Option.some.inj acts
    obtain ⟨after, exited, _⟩ := Option.map_eq_some_iff.mp defined
    obtain ⟨thread, registered, _⟩ := Option.bind_eq_some_iff.mp exited
    exact Fasttrack.mem_threads_of_lookup registered
  | _ => cases acts

/-! ### Depots follow the history -/

/-- The stack a depot has for an address is that of the latest access, if there was one. -/
def Follows (past : List Step) (tid addr : ℕ) (stack : List ℕ) : Prop :=
  ∀ access, lastAccess past tid addr = some access → ∃ position step, past[position]? = some step ∧
    step.event.access? = some access ∧ stack = callPath (past.take position) tid ++ [access.pc]

/-- What the depots know along a run that uses no tid twice. -/
structure Traced (layout : Layout) (past : List Step) (ft : Fasttrack) : Prop where
  forked : ∀ tid ∈ ft.threads, Forked layout past tid
  idle : ∀ tid, ¬ Forked layout past tid → callPath past tid = [] ∧
    ∀ addr, lastAccess past tid addr = none
  path : ∀ tid depot, ft.depotOf tid = some depot → depot.callPath = callPath past tid
  frames : ∀ tid depot, ft.depotOf tid = some depot →
    ∀ addr, Follows past tid addr (depot.returnStackTrace addr)

theorem Follows.append {stack : List ℕ} (follows : Follows past tid addr stack)
    (quiet : step.event.accessOf tid addr = none) : Follows (past ++ [step]) tid addr stack := by
  intro access last
  rw [lastAccess_append, quiet, Option.none_or] at last
  obtain ⟨position, made, found, accesses, same⟩ := follows access last
  have bound := (List.getElem?_eq_some_iff.mp found).1
  refine ⟨position, made, by rwa [List.getElem?_append_left bound], accesses, ?_⟩
  rwa [List.take_append_of_le_length bound.le]

theorem follows_access {stack : List ℕ} (accesses : step.event.accessOf tid addr = some access)
    (same : stack = callPath past tid ++ [access.pc]) :
      Follows (past ++ [step]) tid addr stack := by
  intro other last
  rw [lastAccess_append, accesses, Option.some_or] at last
  obtain ⟨rfl⟩ := Option.some.inj last
  refine ⟨past.length, step, List.getElem?_concat_length, (accessOf_eq_some.mp accesses).1, ?_⟩
  rwa [List.take_append_of_le_length le_rfl, List.take_length]

/-- A call changes the path and the stacks of a depot as it changes the history. -/
theorem depotAfter_spec (after : event.depotAfter tid old = some depot) :
    depot.callPath = event.callPath tid old.callPath ∧ ∀ addr, depot.returnStackTrace addr =
      ((event.accessOf tid addr).map fun access => old.callPath ++ [access.pc]).getD
        (old.returnStackTrace addr) := by
  have accessed : ∀ access : Access, event.access? = some access →
      depot = (if access.tls = tid then old.setReadWrite access.addr access.pc else old) →
      ∀ addr, depot.returnStackTrace addr =
        ((event.accessOf tid addr).map fun access => old.callPath ++ [access.pc]).getD
          (old.returnStackTrace addr) := by
    intro access accesses same addr
    rw [accessOf_of_access accesses, same]
    by_cases own : access.tls = tid
    · rw [if_pos own, StackTrace.returnStackTrace_setReadWrite]
      by_cases here : addr = access.addr
      · rw [if_pos here, if_pos ⟨own, here.symm⟩]
        rfl
      · rw [if_neg here, if_neg fun both => here both.2.symm]
        rfl
    · rw [if_neg own, if_neg fun both => own both.1]
      rfl
  cases event with
  | read tls pc addr size | write tls pc addr size =>
    obtain ⟨rfl⟩ := Option.some.inj after
    refine ⟨?_, accessed _ rfl rfl⟩
    split <;> rfl
  | funcEnter tls pc =>
    obtain ⟨rfl⟩ := Option.some.inj after
    rw [Event.callPath]
    split
    · exact ⟨StackTrace.callPath_push pc, StackTrace.returnStackTrace_push pc⟩
    · exact ⟨rfl, fun _ => rfl⟩
  | funcExit tls =>
    rw [Event.depotAfter] at after
    rw [Event.callPath]
    split at after
    · next own =>
      obtain ⟨element, same⟩ := StackTrace.callPath_pop after
      rw [if_pos own, same, List.dropLast_concat]
      exact ⟨rfl, StackTrace.returnStackTrace_pop after⟩
    · next other =>
      obtain ⟨rfl⟩ := Option.some.inj after
      rw [if_neg other]
      exact ⟨rfl, fun _ => rfl⟩
  | _ =>
    obtain ⟨rfl⟩ := Option.some.inj after
    exact ⟨rfl, fun _ => rfl⟩

/-- A thread that a call registers has not acted before, and the call does not act for it. -/
theorem Traced.starts (traced : Traced layout past step.pre)
    (fresh : FreshFork layout past step.pre.clocks step.event)
    (absent : step.pre.depotOf tid = none)
    (forks : ∃ child, step.event.forks? = some child ∧ child % layout.tidRange = tid) :
    callPath (past ++ [step]) tid = [] ∧ ∀ addr, lastAccess (past ++ [step]) tid addr = none := by
  obtain ⟨child, forks, rfl⟩ := forks
  have noId : step.pre.clocks.idOf (child % layout.tidRange) = none := by
    rw [Fasttrack.idOf_eq_none]
    exact Option.map_eq_none_iff.mp absent
  obtain ⟨path, last⟩ := traced.idle _ (fresh child forks noId)
  have quiet : step.event.acts? ≠ some (child % layout.tidRange) := by
    cases same : step.event with
    | fork => simp [Event.acts?]
    | _ => rw [same] at forks; cases forks
  obtain ⟨samePath, none⟩ := quiet_of_acts quiet (callPath past (child % layout.tidRange))
  exact ⟨by rw [callPath_append, samePath, path], fun addr => by
    rw [lastAccess_append, none addr, last addr]; rfl⟩

/-- The step rule for depots. -/
theorem Traced.append (traced : Traced layout past step.pre)
    (fresh : FreshFork layout past step.pre.clocks step.event)
    (defined : step.pre.call layout step.event = some (step.post, step.output)) :
    Traced layout (past ++ [step]) step.post := by
  refine ⟨fun tid live => ?_, fun tid never => ?_, fun tid depot found => ?_,
    fun tid depot found addr => ?_⟩
  · obtain ⟨depot, found⟩ := mem_threads_iff_depotOf.mp live
    rcases depot_call defined found with ⟨old, was, _⟩ | ⟨_, _, child, forks, same⟩
    · exact (traced.forked tid (mem_threads_iff_depotOf.mpr ⟨old, was⟩)).mono
    · exact ⟨step, List.mem_append_right _ (List.mem_singleton_self _), child, forks, same⟩
  · have neverBefore : ¬ Forked layout past tid := fun forked => never forked.mono
    obtain ⟨path, last⟩ := traced.idle tid neverBefore
    have quiet : step.event.acts? ≠ some tid :=
      fun acts => neverBefore (traced.forked tid (acts_registered defined acts))
    obtain ⟨samePath, none⟩ := quiet_of_acts quiet (callPath past tid)
    exact ⟨by rw [callPath_append, samePath, path], fun addr => by
      rw [lastAccess_append, none addr, last addr]; rfl⟩
  · rcases depot_call defined found with ⟨old, was, after⟩ | ⟨absent, rfl, forks⟩
    · rw [callPath_append, ← traced.path tid old was]
      exact (depotAfter_spec after).1
    · rw [StackTrace.callPath_new, (traced.starts fresh absent forks).1]
  · rcases depot_call defined found with ⟨old, was, after⟩ | ⟨absent, rfl, forks⟩
    · rw [(depotAfter_spec after).2 addr]
      cases accesses : step.event.accessOf tid addr with
      | none => exact (traced.frames tid old was addr).append accesses
      | some access =>
        refine follows_access accesses ?_
        rw [← traced.path tid old was]
        rfl
    · intro access last
      rw [(traced.starts fresh absent forks).2 addr] at last
      cases last

/-- The depots follow every run that uses no tid twice. -/
theorem Reaches.traced (reaches : Reaches layout past ft)
    (fresh : Always (fun front step => FreshFork layout front step.pre.clocks step.event) past) :
    Traced layout past ft := by
  refine Machine.Reaches.induct (Traced layout) ?_ ?_ reaches fresh
  · rintro ft ⟨argv, rfl⟩
    refine ⟨fun tid live => ?_, fun tid _ => ⟨rfl, fun addr => rfl⟩, fun tid depot found => ?_,
      fun tid depot found => ?_⟩
    · exact absurd live (AList.notMem_empty tid)
    · cases found
    · cases found
  · intro past state event next output _ defined fresh traced
    exact Traced.append traced fresh defined

/-! ### The main result -/

/-- An entry that is filled with the stack of an access, for its thread, kind and address,
describes the access. -/
theorem describes_fill {write : Bool} {var : VarState} {stack : List ℕ} {position : ℕ}
    (found : past[position]? = some step) (accesses : step.event.access? = some access)
    (kind : access.write = write)
    (same : stack = callPath (past.take position) access.tls ++ [access.pc]) :
    Describes past (.fill access.tls write var access.addr stack) := by
  refine ⟨position, access, ⟨step, found, accesses⟩, rfl, kind, rfl, by rw [stack_fill, same],
    fun fits => ?_⟩
  rw [stack_fill, same, List.rtake, Nat.sub_eq_zero_of_le, List.drop_zero]
  rw [List.length_append, List.length_singleton]
  exact fits

/-- In a run that uses no tid twice, the second entry of every report describes the access that is
made, and the first entry describes the latest access of its thread to the address, if this is of
the kind that is reported. -/
theorem report_describes (reaches : Reaches layout past ft) (room : RoomAlong layout past)
    (fresh : Always (fun front step => FreshFork layout front step.pre.clocks step.event) past)
    (kept : Always (KindKept layout) past) :
    Always (fun front step => ∀ race ∈ step.output.races,
      Describes (front ++ [step]) race.first ∧ Describes (front ++ [step]) race.second) past := by
  intro front step initial race reported
  obtain ⟨before, defined⟩ := reaches.step initial
  have earlier : front <+: past := (List.prefix_append _ _).trans initial
  have wellFormed := Reaches.wellFormed before (room.before earlier)
  have traced := Reaches.traced before (fresh.before earlier)
  cases accesses : step.event.access? with
  | none =>
    rw [(Fasttrack.call_quiet accesses defined).1] at reported
    cases reported
  | some access =>
    obtain ⟨thread, registered, _, _, _, races⟩ := Fasttrack.call_access accesses defined
    rw [races] at reported
    obtain ⟨⟨kind, tid⟩, verdict, member⟩ := List.mem_flatMap.mp reported
    obtain ⟨first, second, foundFirst, foundSecond, rfl⟩ := mem_reportRace member
    have holds := Fasttrack.holds_of_lookup registered
    have own : thread.getTid layout = access.tls := (wellFormed.encodes _ _ holds.2).2
    obtain ⟨id, recorded, ⟨_, differs, _⟩, rfl, _⟩ := VarState.mem_verdicts verdict
    rw [own] at differs foundSecond ⊢
    have firstDepot := Fasttrack.depotOf_of_lookup foundFirst
    have secondDepot := Fasttrack.depotOf_of_lookup foundSecond
    rw [Fasttrack.recordAccess, Fasttrack.depotOf_setThread, if_neg (Ne.symm differs)] at firstDepot
    rw [Fasttrack.recordAccess, Fasttrack.depotOf_setThread, if_pos rfl] at secondDepot
    constructor
    · -- the thread has accessed the address before, and its latest access is of the reported kind
      obtain ⟨var, stored, old⟩ := recorded_createVar recorded
      obtain ⟨origin, made, tid, makes⟩ := Reaches.recorded before stored old
      obtain ⟨_, rfl⟩ := makes.makeTid (Reaches.wellFormed_pre before (room.before earlier) made)
      obtain ⟨originAccess, originAccesses, _, sameAddr, sameTls, _⟩ := makes
      obtain ⟨last, latest⟩ := lastAccess_of_mem made originAccesses
      rw [sameAddr, sameTls] at latest
      have sameKind : last.write = kind := kept front step initial access accesses thread registered
        _ verdict (mem_threads_iff_depotOf.mpr ⟨_, firstDepot⟩) last latest
      obtain ⟨lastTls, lastAddr⟩ := lastAccess_eq_some latest
      obtain ⟨position, lastStep, found, lastAccesses, same⟩ :=
        traced.frames _ _ firstDepot access.addr last latest
      have bound := (List.getElem?_eq_some_iff.mp found).1
      rw [← lastTls, ← lastAddr] at same ⊢
      refine describes_fill (by rwa [List.getElem?_append_left bound]) lastAccesses sameKind ?_
      rw [same, List.take_append_of_le_length bound.le]
    · refine describes_fill List.getElem?_concat_length accesses rfl ?_
      rw [← Option.some.inj secondDepot, StackTrace.returnStackTrace_setReadWrite, if_pos rfl,
        traced.path _ _ (Fasttrack.depotOf_of_lookup registered),
          List.take_append_of_le_length le_rfl, List.take_length]

theorem report_describes_nested_calls :
    Always (fun front step => ∀ race ∈ step.output.races,
      Describes (front ++ [step]) race.first ∧ Describes (front ++ [step]) race.second)
      (ran .x64 [.fork 9 1, .fork 9 2, .funcEnter 1 50, .read 1 10 0x100 3, .write 1 20 0x100 3,
        .funcExit 1, .funcEnter 2 60, .write 2 30 0x100 3]).1 :=
  report_describes (reaches_ran .x64 _) (by decide +kernel) (by decide +kernel) (by decide +kernel)

/-- Thread 1 writes an address and then reads it at another place, and thread 2 reads it. -/
def readAfterWrite : List Event :=
  [.fork 9 1, .fork 9 2, .write 1 10 0x100 3, .read 1 20 0x100 3, .read 2 30 0x100 3]

/-- A later access of the other kind replaces the stack: the report names the write of thread 1 with
the program counter of its read. -/
theorem report_mixes_accesses :
    Reaches .x64 (ran .x64 readAfterWrite).1 (ran .x64 readAfterWrite).2 ∧
      RoomAlong .x64 (ran .x64 readAfterWrite).1 ∧
      Always (fun front step => FreshFork .x64 front step.pre.clocks step.event)
        (ran .x64 readAfterWrite).1 ∧
      ¬ Always (fun front step => ∀ race ∈ step.output.races,
        Describes (front ++ [step]) race.first ∧ Describes (front ++ [step]) race.second)
        (ran .x64 readAfterWrite).1 := by
  refine ⟨reaches_ran .x64 _, by decide +kernel, by decide +kernel, fun always => ?_⟩
  obtain ⟨race, reported, thread, write, stack⟩ : ∃ race ∈
      ((ran .x64 readAfterWrite).1.get ⟨4, by decide +kernel⟩).output.races,
      race.first.threadId = 1 ∧ race.first.write = true ∧ race.first.stack = [20] := by
    decide +kernel
  obtain ⟨position, access, ⟨step, found, accesses⟩, tls, kind, _, frames, _⟩ :=
    (always_iff_forall_index.mp always ⟨4, by decide +kernel⟩ race reported).1
  -- the only write of thread 1 has the program counter 10
  have only : ∀ position : Fin 5, ∀ step ∈ ((ran .x64 readAfterWrite).1.take 4 ++
      [(ran .x64 readAfterWrite).1.get ⟨4, by decide +kernel⟩])[position.val]?,
      ∀ access ∈ step.event.access?, access.tls = 1 → access.write = true → access.pc = 10 := by
    decide +kernel
  have bound : position < 5 := by
    have inside := (List.getElem?_eq_some_iff.mp found).1
    simp only [List.length_append, List.length_take, List.length_singleton] at inside
    omega
  have pc := only ⟨position, bound⟩ step found access accesses (tls.trans thread) (kind.trans write)
  rw [stack, pc] at frames
  have last := congrArg List.getLast? frames
  rw [show maxStackSize = 15 + 1 from rfl, List.rtake_concat_succ, List.getLast?_concat] at last
  cases last

end Drace
